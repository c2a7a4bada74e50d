/-
  Series catalog — raw paths that are joined and cut.

  Behind a separator that stands outside every span a split starts afresh.  Hence
  what holds of the nodes of a path holds of its text: paths are joined by joining
  their texts, and cut by cutting them.

  * `Splitter.quoted_behind_iff`: what follows a path that splits is split on its
    own;
  * `Splitter.quoted_isPrefix_iff`: a path starts with the nodes of another iff its
    text starts with that of the other, up to its end or to a separator;
  * `Path.parse_join_cut`: reading commutes with joining and with cutting;
  * `Path.startsWith_iff_written`: prefixes by nodes are prefixes of the text.
-/
import SeriesCatalog.Proofs.LeftmostFault
import SeriesCatalog.Proofs.Reread

namespace SeriesCatalog

variable {quotes : List Text} {raw text rest : Text} {nodes front : Nodes} {p q r : Path}

/-! ## Runs of nodes -/

namespace Nodes

theorem position_of_le {length k : Nat} (h : k ≤ length) : position length k = k := by
  rw [position, if_neg (by omega), Int.toNat_natCast, Nat.min_eq_left h]

theorem slice_take {k : Nat} (h : k ≤ nodes.length) : nodes.slice 0 (some k) = nodes.take k := by
  rw [slice, Option.elim_some, position_of_le h]
  exact List.drop_zero

theorem slice_drop {k : Nat} (h : k ≤ nodes.length) : nodes.slice k = nodes.drop k := by
  rw [slice, Option.elim_none, position_of_le h, List.take_length]

end Nodes

/-! ## Behind a separator -/

namespace Splitter

/-- **A split goes on behind a separator as it starts**, if what stands before it is split. -/
theorem quoted_behind_iff (bareSep : isQuote quotes separator = false)
    (h : quoted quotes raw = .ok front) :
    quoted quotes (raw ++ separator :: rest) = .ok nodes ↔
      ∃ back, quoted quotes rest = .ok back ∧ nodes = front ++ back := by
  obtain ⟨some_node, atomic, rfl⟩ := atomic_of_quoted bareSep h
  constructor
  · intro split
    have scanned := (quoted_eq_ok_iff.1 split).2
    rw [List.append_cons, ← Nodes.ended_eq some_node, scan_ended bareSep atomic,
      Except.map_eq_ok_iff] at scanned
    obtain ⟨back, hback, rfl⟩ := scanned
    obtain ⟨some_back, rfl⟩ := join_of_scan hback
    have atomic_back := atomic_of_scan bareSep hback (Or.inl (by simp))
    exact ⟨back, quoted_join bareSep some_back atomic_back, rfl⟩
  · rintro ⟨back, split, rfl⟩
    obtain ⟨some_back, atomic_back, rfl⟩ := atomic_of_quoted bareSep split
    rw [← Nodes.join_append some_node some_back]
    exact quoted_join bareSep (by simp [some_node]) fun node hn =>
      (List.mem_append.1 hn).elim (atomic node) (atomic_back node)

/-- **Prefixes by nodes are prefixes of the text**: a text that splits ends a node of another path
    wherever the other goes on with a separator, since no span is open there. -/
theorem quoted_isPrefix_iff (bareSep : isQuote quotes separator = false)
    (hraw : quoted quotes raw = .ok nodes) (htext : quoted quotes text = .ok front) :
    front <+: nodes ↔ raw = text ∨ text ++ [separator] <+: raw := by
  constructor
  · rintro ⟨back, rfl⟩
    obtain ⟨-, -, rfl⟩ := atomic_of_quoted bareSep hraw
    obtain ⟨some_node, -, rfl⟩ := atomic_of_quoted bareSep htext
    by_cases whole : back = []
    · exact Or.inl (by rw [whole, List.append_nil])
    · refine Or.inr ⟨Nodes.join back, ?_⟩
      rw [Nodes.join_append some_node whole, ← List.append_cons]
  · rintro (rfl | ⟨rest, rfl⟩)
    · obtain rfl := Except.ok.inj (htext.symm.trans hraw)
      exact List.prefix_rfl
    · rw [← List.append_cons] at hraw
      obtain ⟨back, -, rfl⟩ := (quoted_behind_iff bareSep htext).1 hraw
      exact List.prefix_append front back

end Splitter

/-! ## Joined and cut -/

namespace Path

variable {a b : Text}

/-- **What is read of two texts with a separator between them**, if each of them is read: the nodes
    of both, as far as the limits allow. -/
theorem read_joined_iff (ha : read a {} = .ok p) (hb : read b {} = .ok q) :
    read (a ++ separator :: b) {} = .ok r ↔
      (a ++ separator :: b).length ≤ Setting.maxPathLength.standard.toNat ∧
        (p ++ q).nodes.length ≤ Setting.maxNodeCount.standard.toNat ∧
          r = { nodes := (p ++ q).nodes, written := some (a ++ separator :: b) } := by
  obtain ⟨-, splitA, -, -⟩ := read_standard_iff.1 ha
  obtain ⟨-, splitB, -, -⟩ := read_standard_iff.1 hb
  have split : Splitter.standard (a ++ separator :: b) = .ok (p ++ q).nodes :=
    (Splitter.quoted_behind_iff Splitter.separator_bare splitA).2 ⟨_, splitB, rfl⟩
  rw [read_standard_iff, split]
  constructor
  · rintro ⟨short, same, few, hwritten⟩
    obtain ⟨nodes, written⟩ := r
    obtain rfl := Except.ok.inj same
    exact ⟨short, few, congrArg _ hwritten⟩
  · rintro ⟨short, few, rfl⟩
    exact ⟨short, rfl, few, rfl⟩

theorem fullPath_append (ha : read a {} = .ok p) (hb : read b {} = .ok q) :
    (p ++ q).fullPath = a ++ separator :: b := by
  have hp : p.ReadByDefault := ⟨a, {}, ha⟩
  have hq : q.ReadByDefault := ⟨b, {}, hb⟩
  rw [← fullPath_of_read ha, ← fullPath_of_read hb, hp.fullPath_eq, hq.fullPath_eq]
  exact Nodes.join_append hp.reachable.proper.nonempty hq.reachable.proper.nonempty

/-- **A path is read in two parts** wherever it is cut before one of its nodes. -/
theorem ReadByDefault.read_cut {k : Nat} (h : p.ReadByDefault) (pos : 0 < k)
    (within : k < p.nodes.length) :
    read (p.nodes.slice 0 (some k)).join {} =
        .ok { nodes := p.nodes.take k, written := some (Nodes.join (p.nodes.take k)) } ∧
      read (p.nodes.slice k).join {} =
        .ok { nodes := p.nodes.drop k, written := some (Nodes.join (p.nodes.drop k)) } := by
  have some_front : p.nodes.take k ≠ [] := by
    rw [Ne, List.take_eq_nil_iff]
    exact not_or.2 ⟨by omega, h.reachable.proper.nonempty⟩
  have some_back : p.nodes.drop k ≠ [] := by
    rw [Ne, List.drop_eq_nil_iff]
    omega
  rw [Nodes.slice_take within.le, Nodes.slice_drop within.le]
  exact ⟨h.read_part some_front (List.take_sublist k _),
    h.read_part some_back (List.drop_sublist k _)⟩

/-- **Reading commutes with joining and with cutting.**  Two texts that are read by default are read
    with a separator between them, iff the limits are kept, as the one path followed by the other.
    A path that was read by default is cut before any of its nodes but the first, and both parts are
    read from their joined nodes; cut before the last, it is read as its device and its measurement,
    which together are the path. -/
theorem parse_join_cut :
    (∀ (a b : Text) (p q : Path), (parse a).result = .ok p → (parse b).result = .ok q →
      ((∃ r, (parse (a ++ separator :: b)).result = .ok r) ↔
        (a ++ separator :: b).length ≤ Setting.maxPathLength.standard.toNat ∧
          (p ++ q).nodes.length ≤ Setting.maxNodeCount.standard.toNat) ∧
      ∀ r, (parse (a ++ separator :: b)).result = .ok r →
        (AnyPath.plain r).equals (.plain (p ++ q)) = .ok true ∧
          r.fullPath = (p ++ q).fullPath ∧ r.hash = (p ++ q).hash) ∧
    ∀ p : Path, p.ReadByDefault →
      (∀ k : Nat, 0 < k → k < p.nodes.length → ∃ front back,
        (parse (p.nodes.slice 0 (some k)).join).result = .ok front ∧
          (parse (p.nodes.slice k).join).result = .ok back ∧
            front.nodes = p.nodes.take k ∧ back.nodes = p.nodes.drop k) ∧
      (2 ≤ p.nodes.length → ∃ device measurement devicePath,
        (parse p.devicePrefix).result = .ok device ∧ p.devicePath = .ok devicePath ∧
          (AnyPath.plain device).equals (.plain devicePath) = .ok true ∧
            (parse p.terminal).result = .ok measurement ∧ measurement.nodes = [p.terminal] ∧
              (AnyPath.plain (device ++ measurement)).equals (.plain p) = .ok true ∧
                (device ++ measurement).fullPath = p.fullPath) := by
  refine ⟨fun a b p q ha hb => ?_, fun p hp => ⟨fun k pos within => ?_, fun deep => ?_⟩⟩
  · have joined : ∀ r, (parse (a ++ separator :: b)).result = .ok r ↔ _ := fun r =>
      read_joined_iff ha hb
    refine ⟨⟨?_, fun ⟨short, few⟩ => ⟨_, (joined _).2 ⟨short, few, rfl⟩⟩⟩, fun r hr => ?_⟩
    · rintro ⟨r, hr⟩
      obtain ⟨short, few, -⟩ := (joined r).1 hr
      exact ⟨short, few⟩
    · obtain ⟨-, -, rfl⟩ := (joined r).1 hr
      refine ⟨(AnyPath.equals_eq_ok_true_iff rfl rfl).2 rfl, ?_, rfl⟩
      rw [fullPath_append ha hb]
      rfl
  · obtain ⟨hfront, hback⟩ := hp.read_cut pos within
    exact ⟨_, _, hfront, hback, rfl, rfl⟩
  · have whole := Nodes.device_append_terminal hp.reachable.proper.nonempty
    refine ⟨_, _, _, hp.read_device deep, devicePath_eq_ok_iff.2 ⟨deep, rfl⟩,
      (AnyPath.equals_eq_ok_true_iff rfl rfl).2 rfl, hp.read_terminal, rfl,
      (AnyPath.equals_eq_ok_true_iff rfl rfl).2 whole, ?_⟩
    rw [hp.fullPath_eq]
    exact congrArg Nodes.join whole

/-- A text whose span holds the separator is read in one piece and in two. -/
theorem parse_join_cut_behind_span :
    (parse "r.d\"1.2\"").result = .ok Page.quotedDevice ∧
      (parse "s").result = .ok { nodes := ["s"], written := some "s" } ∧
    (∃ r, (parse (Text.ofString "r.d\"1.2\"" ++ separator :: Text.ofString "s")).result = .ok r ∧
      r.hash = (Page.quotedDevice ++ { nodes := ["s"], written := some "s" } : Path).hash) ∧
    ∃ front back, (parse (Page.quotedPath.nodes.slice 0 (some 2)).join).result = .ok front ∧
      (parse (Page.quotedPath.nodes.slice 2).join).result = .ok back ∧
        front.nodes = ["r", "d\"1.2\""] ∧ back.nodes = ["s"] := by
  have hterminal : (parse "s").result = .ok { nodes := ["s"], written := some "s" } :=
    read_standard_iff.2 ⟨by decide, by cbv, by decide, rfl⟩
  obtain ⟨accepted, agrees⟩ := parse_join_cut.1 _ _ _ _ parse_quotedDevice hterminal
  obtain ⟨r, joined⟩ := accepted.2 ⟨by decide, by decide⟩
  obtain ⟨cut, -⟩ := parse_join_cut.2 _ readByDefault_quotedPath
  obtain ⟨front, back, hfront, hback, first, second⟩ := cut 2 (by decide) (by decide)
  exact ⟨parse_quotedDevice, hterminal, ⟨r, joined, (agrees r joined).2.2⟩, front, back, hfront,
    hback, first, second⟩

/-! ## Prefixes -/

/-- **Prefixes by nodes are prefixes of the written path.**  A path that was read by default starts
    with the nodes of a text iff it is written as the text, or goes on behind it with a
    separator. -/
theorem startsWith_iff_written (hp : p.ReadByDefault) (htext : Splitter.standard text = .ok front) :
    p.startsWith front = true ↔ p.fullPath = text ∨ text ++ [separator] <+: p.fullPath := by
  rw [startsWith, List.isPrefixOf_iff_prefix]
  exact Splitter.quoted_isPrefix_iff Splitter.separator_bare hp.standard_fullPath htext

/-- A span that holds the separator belongs to the prefix as a whole. -/
theorem startsWith_span : Page.quotedPath.ReadByDefault ∧
    Splitter.standard "r.d\"1.2\"" = .ok ["r", "d\"1.2\""] ∧
      Page.quotedPath.startsWith ["r", "d\"1.2\""] = true := by
  have hdevice : Splitter.standard "r.d\"1.2\"" = .ok ["r", "d\"1.2\""] := by cbv
  have behind : Text.ofString "r.d\"1.2\"" ++ [separator] <+: Page.quotedPath.fullPath :=
    ⟨"s", by decide⟩
  exact ⟨readByDefault_quotedPath, hdevice,
    (startsWith_iff_written readByDefault_quotedPath hdevice).2 (Or.inr behind)⟩

end Path

end SeriesCatalog
