/-
  Series catalog — series that are read.

  A path keeps the nodes of the text that it is read from.  A series joins those
  of its device, and splits them again when it is asked for its nodes.

  * `Splitter.standard_join_of_subset`: nodes out of a split are joined and split
    back;
  * `Series.ofFullPath_eq_map`, `Path.read_eq_map`: reading a series and reading a
    path are one split, put in two forms;
  * `Series.ofFullPath_iff_parse`: hence they accept the same texts, refuse the
    others alike, and what they make of a text agrees.
-/
import SeriesCatalog.Proofs.Conversion

namespace SeriesCatalog

variable {raw : Text} {nodes part : Nodes} {options : ParseOptions} {p : Path}

/-! ## Nodes of a split -/

namespace Splitter

theorem proper_of_standard (h : standard raw = .ok nodes) : nodes.Proper := by
  obtain ⟨nonempty, atomic, -⟩ := atomic_of_quoted separator_bare h
  exact ⟨nonempty, fun node hn => (atomic node hn).nonempty⟩

/-- **Nodes out of a split are joined and split back**, whatever quotes and separators they hold. -/
theorem standard_join_of_subset (h : standard raw = .ok nodes) (some_node : part ≠ [])
    (within : part ⊆ nodes) : standard part.join = .ok part := by
  obtain ⟨-, atomic, -⟩ := atomic_of_quoted separator_bare h
  exact quoted_join separator_bare some_node fun node hn => atomic node (within hn)

end Splitter

/-! ## Two readings of one split -/

namespace Series

/-- The series that is read from a text with these nodes. -/
def ofSplit (nodes : Nodes) : Series :=
  { device := nodes.device.join, measurement := nodes.terminal }

/-- **A series is read by one split.** -/
theorem ofFullPath_eq_map : ofFullPath raw = (Splitter.standard raw).map ofSplit := by
  unfold ofFullPath
  cases h : Splitter.standard raw with
  | error error => rfl
  | ok nodes =>
    have named := (Splitter.proper_of_standard h).terminal_ne_nil
    exact ofPair_eq_ok_iff.2 ⟨named, rfl⟩

theorem nodes_ofSplit (h : Splitter.standard raw = .ok nodes) :
    (ofSplit nodes).nodes = .ok nodes := by
  have proper := Splitter.proper_of_standard h
  show (if nodes.device.join.isEmpty then _ else _) = _
  by_cases single : nodes.length = 1
  · obtain ⟨node, rfl⟩ := List.length_eq_one_iff.1 single
    rfl
  · have device := proper.device_of_several single
    have split : Splitter.standard (ofSplit nodes).device = .ok nodes.device :=
      Splitter.standard_join_of_subset h device.nonempty (List.dropLast_subset nodes)
    rw [if_neg (by simpa using device.join_ne_nil), split]
    exact congrArg Except.ok (Nodes.device_append_terminal proper.nonempty)

theorem fullPath_ofSplit (h : Splitter.standard raw = .ok nodes) :
    (ofSplit nodes).fullPath = raw := by
  rw [(Splitter.proper_of_standard h).fullPath_series rfl rfl]
  exact (Splitter.atomic_of_quoted Splitter.separator_bare h).2.2

end Series

namespace Path

/-- A text keeps the limits of a reading, which are valid: it is not too long, and it does not split
    into too many nodes. -/
structure Admitted (options : ParseOptions) (raw : Text) : Prop where
  length : ∃ limit, Setting.maxPathLength.check options.maxPathLength = .ok limit ∧
    raw.length ≤ limit.toNat
  count : ∃ limit, Setting.maxNodeCount.check options.maxNodeCount = .ok limit ∧
    ∀ nodes, options.splitter raw = .ok nodes → nodes.length ≤ limit.toNat

theorem splitNodes_standard : splitNodes Splitter.standard raw = Splitter.standard raw := by
  cases h : Splitter.standard raw with
  | ok nodes => exact splitNodes_eq_ok_iff.2 ⟨h, Splitter.proper_of_standard h⟩
  | error error => rw [splitNodes, h]; rfl

/-- **A path is read by the same split**, if the text keeps the limits. -/
theorem read_eq_map (standard : options.splitter = Splitter.standard)
    (admitted : Admitted options raw) :
    read raw options = (Splitter.standard raw).map fun nodes => { nodes, written := raw } := by
  obtain ⟨⟨maxLength, hlength, short⟩, maxNodes, hcount, few⟩ := admitted
  rw [standard] at few
  cases h : Splitter.standard raw with
  | ok nodes =>
    have hnodes : splitNodes options.splitter raw = .ok nodes := by
      rw [standard, splitNodes_standard, h]
    exact read_eq_ok_iff.2
      ⟨maxLength, maxNodes, hlength, hcount, short, hnodes, few nodes h, rfl⟩
  | error error =>
    rw [read, hlength, hcount, standard, splitNodes_standard, h]
    show (if maxLength.toNat < raw.length then _ else _) = _
    rw [if_neg (Nat.not_lt.2 short)]
    rfl

/-- **What is read by default**: a text that keeps the two limits and that the standard splitter
    splits. -/
theorem read_standard_iff :
    read raw {} = .ok p ↔ raw.length ≤ Setting.maxPathLength.standard.toNat ∧
      Splitter.standard raw = .ok p.nodes ∧
        p.nodes.length ≤ Setting.maxNodeCount.standard.toNat ∧ p.written = some raw := by
  rw [read_eq_ok_iff]
  constructor
  · rintro ⟨maxLength, maxNodes, hlength, hcount, short, hnodes, few, hwritten⟩
    obtain rfl := Except.ok.inj ((Setting.check_standard _).symm.trans hlength)
    obtain rfl := Except.ok.inj ((Setting.check_standard _).symm.trans hcount)
    exact ⟨short, (splitNodes_eq_ok_iff.1 hnodes).1, few, hwritten⟩
  · rintro ⟨short, hsplit, few, hwritten⟩
    exact ⟨_, _, Setting.check_standard _, Setting.check_standard _, short,
      splitNodes_eq_ok_iff.2 ⟨hsplit, Splitter.proper_of_standard hsplit⟩, few, hwritten⟩

end Path

/-! ## Agreement -/

/-- Two paths that a caller cannot tell apart by their keys, their hash, their order and their
    equality. -/
structure AnyPath.Agree (a b : AnyPath) : Prop where
  devicePrefix : a.devicePrefix = b.devicePrefix
  terminal : a.terminal = b.terminal
  hash : ∃ h, a.hash = .ok h ∧ b.hash = .ok h
  equals : a.equals b = .ok true
  equals_back : b.equals a = .ok true
  compare : a.compare b = .eq
  compare_back : b.compare a = .eq

theorem AnyPath.Agree.of_nodes {a b : AnyPath} (ha : a.nodes = .ok nodes) (hb : b.nodes = .ok nodes)
    (devicePrefix : a.devicePrefix = b.devicePrefix) (terminal : a.terminal = b.terminal)
    (fullPath : a.fullPath = b.fullPath) : a.Agree b where
  devicePrefix := devicePrefix
  terminal := terminal
  hash := ⟨nodes.join.hash, hash_eq ha, hash_eq hb⟩
  equals := (equals_eq_ok_true_iff ha hb).2 rfl
  equals_back := (equals_eq_ok_true_iff hb ha).2 rfl
  compare := compare_eq_iff.2 fullPath
  compare_back := compare_eq_iff.2 fullPath.symm

namespace Series

variable {s : Series}

/-- What is read from a text as a series, as a path, and as the series of that path. -/
theorem agree_ofSplit (h : Splitter.standard raw = .ok nodes) :
    (AnyPath.series (ofSplit nodes)).Agree (.plain { nodes, written := raw }) ∧
      ∃ t, Path.toSeries { nodes, written := raw } = .ok t ∧
        (AnyPath.series (ofSplit nodes)).Agree (.series t) := by
  have proper := Splitter.proper_of_standard h
  have hnodes : (AnyPath.series (ofSplit nodes)).nodes = .ok nodes := nodes_ofSplit h
  refine ⟨.of_nodes hnodes rfl rfl rfl (fullPath_ofSplit h),
    _, Path.toSeries_eq_ok_iff.2 ⟨proper.terminal_ne_nil, rfl⟩,
    .of_nodes hnodes rfl rfl rfl ?_⟩
  exact (proper.fullPath_series rfl rfl).trans (proper.fullPath_series rfl rfl).symm

/-- **A series and a path are read from the same texts**, as far as the text keeps the limits of the
    path.  A text that is refused is refused with one error, which says that it is malformed.  What
    is read from a text as a series is written as the text, has the nodes of the path, and agrees
    with the path and with the series of the path. -/
theorem ofFullPath_iff_parse (standard : options.splitter = Splitter.standard)
    (admitted : Path.Admitted options raw) :
    ((∃ s, ofFullPath raw = .ok s) ↔ ∃ p, (Path.parse raw options).result = .ok p) ∧
    (∀ error, ofFullPath raw = .error error ↔ (Path.parse raw options).result = .error error) ∧
    (∀ error, ofFullPath raw = .error error → ∃ cause, error = .malformedPath raw cause) ∧
    ∀ s, ofFullPath raw = .ok s → s.fullPath = raw ∧
      ∃ p t, (Path.parse raw options).result = .ok p ∧ s.nodes = .ok p.nodes ∧
        p.toSeries = .ok t ∧ (AnyPath.series s).Agree (.series t) ∧
          (AnyPath.series s).Agree (.plain p) := by
  have hpath : (Path.parse raw options).result = _ := Path.read_eq_map standard admitted
  rw [hpath, ofFullPath_eq_map]
  cases h : Splitter.standard raw with
  | error error =>
    refine ⟨?_, ?_, ?_, ?_⟩
    · simp [Except.map]
    · simp [Except.map]
    · intro refusal hrefusal
      obtain rfl := Except.error.inj hrefusal
      exact Splitter.quoted_eq_error h
    · intro s hs
      cases hs
  | ok nodes =>
    refine ⟨?_, ?_, ?_, ?_⟩
    · simp [Except.map]
    · simp [Except.map]
    · intro refusal hrefusal
      cases hrefusal
    · intro s hs
      obtain rfl := Except.ok.inj hs
      obtain ⟨agree, t, made, agree'⟩ := agree_ofSplit h
      exact ⟨fullPath_ofSplit h, _, t, rfl, nodes_ofSplit h, made, agree', agree⟩

/-- The device holds a quoted separator, and the text has as many units and nodes as are allowed. -/
theorem ofFullPath_of_quotedNodes : ∃ s p,
    Path.Admitted { maxPathLength := .ofNat 10, maxNodeCount := .ofNat 3 } "r.d\"1.2\".s" ∧
      ofFullPath "r.d\"1.2\".s" = .ok s ∧
        (Path.parse "r.d\"1.2\".s"
          { maxPathLength := .ofNat 10, maxNodeCount := .ofNat 3 }).result = .ok p ∧
        s.nodes = .ok p.nodes := by
  have split : Splitter.standard "r.d\"1.2\".s" = .ok Splitter.quotedNodes :=
    Splitter.quoted_join Splitter.separator_bare (List.cons_ne_nil _ _) Splitter.atomic_quotedNodes
  have admitted :
      Path.Admitted { maxPathLength := .ofNat 10, maxNodeCount := .ofNat 3 } "r.d\"1.2\".s" := by
    refine ⟨⟨⟨10, by decide⟩, rfl, by decide⟩, ⟨3, by decide⟩, rfl, ?_⟩
    intro nodes hnodes
    obtain rfl := Except.ok.inj (split.symm.trans hnodes)
    decide
  obtain ⟨-, -, -, agree⟩ := ofFullPath_iff_parse rfl admitted
  have made : ofFullPath "r.d\"1.2\".s" = .ok (ofSplit Splitter.quotedNodes) := by
    rw [ofFullPath_eq_map, split]
    rfl
  obtain ⟨-, p, -, hp, hnodes, -⟩ := agree _ made
  exact ⟨_, p, admitted, made, hp, hnodes⟩

end Series

end SeriesCatalog
