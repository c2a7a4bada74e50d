/-
  Series catalog — indexes of paths that were read.

  An index files records under two texts, while paths are equal by their nodes.
  For paths that the standard splitter read the two agree, since the joined
  nodes of such a path split in one way alone.

  * `Path.parsed_iff`: the paths that the standard splitter reads;
  * `Nodes.key_injective`: atomic nodes are known from the texts under which
    they are filed;
  * `Page.build_of_parsed`: an index of paths that were read is exact with
    respect to equality of paths.
-/
import SeriesCatalog.Proofs.Equality
import SeriesCatalog.Proofs.Faults
import SeriesCatalog.Proofs.Listing
import SeriesCatalog.Proofs.Lookup

namespace SeriesCatalog

variable {α : Type} {records : List (Path × α)} {options : BuildOptions} {p q : Path}

/-! ## Paths that were read -/

/-- A path that was read with the standard splitter, under any limits. -/
def Path.Parsed (p : Path) : Prop :=
  ∃ (raw : Text) (options : ParseOptions),
    options.splitter = Splitter.standard ∧ (Path.parse raw options).result = .ok p

theorem Path.Parsed.reachable (h : p.Parsed) : p.Reachable := by
  obtain ⟨raw, options, -, h⟩ := h
  exact .read h

/-- **The paths that are read** are those of atomic nodes, written as the nodes join. -/
theorem Path.parsed_iff :
    p.Parsed ↔ p.nodes ≠ [] ∧
      (∀ node ∈ p.nodes, Splitter.Atomic Splitter.standardQuotes node) ∧
        p.written = some p.nodes.join := by
  constructor
  · rintro ⟨raw, options, standard, h⟩
    obtain ⟨hnodes, hwritten⟩ := of_read h
    rw [standard] at hnodes
    obtain ⟨nonempty, atomic, hjoin⟩ :=
      Splitter.atomic_of_quoted Splitter.separator_bare (splitNodes_eq_ok_iff.1 hnodes).1
    exact ⟨nonempty, atomic, by rw [hwritten, hjoin]⟩
  · rintro ⟨nonempty, atomic, hwritten⟩
    have split : splitNodes Splitter.standard p.nodes.join = .ok p.nodes :=
      splitNodes_eq_ok_iff.2 ⟨Splitter.quoted_join Splitter.separator_bare nonempty atomic,
        nonempty, fun node hn => (atomic node hn).nonempty⟩
    -- any limits will do that the path keeps
    let limits : ParseOptions :=
      { maxPathLength := .ofNat (p.nodes.join.length + 1)
        maxNodeCount := .ofNat (p.nodes.length + 1) }
    refine ⟨p.nodes.join, limits, rfl, read_eq_ok_iff.2 ?_⟩
    exact ⟨⟨_, Nat.le_add_left 1 _⟩, ⟨_, Nat.le_add_left 1 _⟩, Setting.check_eq_ok_iff.2 rfl,
      Setting.check_eq_ok_iff.2 rfl, Nat.le_succ _, split, Nat.le_succ _, hwritten⟩

/-- **Atomic nodes are known from their key**: the device from its joined text, and the
    measurement as it is. -/
theorem Nodes.key_injective {quotes : List Text} {ns ms : Nodes}
    (bareSep : Splitter.isQuote quotes separator = false)
    (hns : ∀ node ∈ ns, Splitter.Atomic quotes node)
    (hms : ∀ node ∈ ms, Splitter.Atomic quotes node) (hn : ns ≠ []) (hm : ms ≠ [])
    (h : ns.key = ms.key) : ns = ms := by
  obtain ⟨hdevice, hterminal⟩ := Prod.mk.inj h
  have device : ns.device = ms.device :=
    Splitter.join_injective bareSep (fun node mem => hns node (List.dropLast_subset ns mem))
      (fun node mem => hms node (List.dropLast_subset ms mem)) hdevice
  rw [← device_append_terminal hn, ← device_append_terminal hm, device, hterminal]

/-- Paths that were read are equal iff they are filed under one key. -/
theorem Path.Parsed.equals_iff (hp : p.Parsed) (hq : q.Parsed) :
    (AnyPath.plain p).equals (.plain q) = .ok true ↔ p.nodes.key = q.nodes.key := by
  rw [AnyPath.equals_eq_ok_true_iff rfl rfl]
  constructor
  · exact congrArg Nodes.key
  · obtain ⟨hpne, hpatomic, -⟩ := parsed_iff.1 hp
    obtain ⟨hqne, hqatomic, -⟩ := parsed_iff.1 hq
    exact Nodes.key_injective Splitter.separator_bare hpatomic hqatomic hpne hqne

/-! ## Repeated keys -/

theorem not_nodup_keys_iff :
    ¬ (keys records).Nodup ↔ ∃ i j, ∃ (_ : i < j) (_ : j < records.length),
      records[i].1.nodes.key = records[j].1.nodes.key := by
  rw [keys, List.Nodup, List.pairwise_map, List.pairwise_iff_getElem]
  push Not
  constructor
  · rintro ⟨i, j, _, hj, hij, same⟩
    exact ⟨i, j, hij, hj, same⟩
  · rintro ⟨i, j, hij, hj, same⟩
    exact ⟨i, j, hij.trans hj, hj, hij, same⟩

namespace Page

variable {root : Page α}

/-- **An index of paths that were read is exact** with respect to equality of paths.  With a valid
    degree, and records that all have a device, the build fails only for a duplicate, and does so
    iff two of the records have equal paths.  An index that was built finds for a path the record of
    the equal path, and nothing if there is none. -/
theorem build_of_parsed {d : Nat} (hd : 2 ≤ d) (hdegree : options.maxDegree = .ofNat d)
    (nonempty : records ≠ []) (deep : ∀ entry ∈ records, 2 ≤ entry.1.nodes.length)
    (parsed : ∀ entry ∈ records, entry.1.Parsed) :
    ((∃ root, (build records options).result = .ok root) ∨
      ∃ path, (build records options).result = .error (.invalidArgument (.duplicate path))) ∧
    ((∃ path, (build records options).result = .error (.invalidArgument (.duplicate path))) ↔
      ∃ i j, ∃ (_ : i < j) (_ : j < records.length),
        (AnyPath.plain records[i].1).equals (.plain records[j].1) = .ok true) ∧
    ∀ root, (build records options).result = .ok root → ∀ (w : Walker) (q : Path), q.Parsed →
      root.height ≤ w.maxDepth.toNat →
      ∃ found, w.locate root (.plain q) = { result := .ok found, log := [] } ∧
        ∀ record, found = some record ↔
          ∃ p, (p, record) ∈ records ∧ (AnyPath.plain p).equals (.plain q) = .ok true := by
  have cases := build_cases hd hdegree nonempty deep
  refine ⟨?_, ?_, fun root built w q hq high => ?_⟩
  · rcases cases with ⟨-, built⟩ | ⟨-, entry, -, failed⟩
    · exact Or.inl built
    · exact Or.inr ⟨_, failed⟩
  · have repeated : (¬ (keys records).Nodup) ↔ ∃ i j, ∃ (_ : i < j) (_ : j < records.length),
        (AnyPath.plain records[i].1).equals (.plain records[j].1) = .ok true := by
      rw [not_nodup_keys_iff]
      refine exists_congr fun i => exists_congr fun j => exists_congr fun hij =>
        exists_congr fun hj => ?_
      exact ((parsed _ (List.getElem_mem _)).equals_iff (parsed _ (List.getElem_mem _))).symm
    rw [← repeated]
    rcases cases with ⟨distinct, root, built⟩ | ⟨repeats, entry, -, failed⟩
    · simp [distinct, built]
    · simp only [repeats, not_false_eq_true, iff_true]
      exact ⟨_, failed⟩
  · have reachable : ∀ entry ∈ records, entry.1.Reachable := fun entry he =>
      (parsed entry he).reachable
    refine ⟨_, Walker.locate_eq_lookup reachable built high _, fun record => ?_⟩
    rw [(indexes_build built).lookup_eq_some_iff]
    refine exists_congr fun p => and_congr_right fun mem => ?_
    rw [(parsed _ mem).equals_iff hq]
    exact Path.key_eq_iff.symm

/-- A path that is read from a text in which a quote opens within a node. -/
def quotedPath : Path := { nodes := Splitter.quotedNodes, written := some "r.d\"1.2\".s" }

/-- The path that is read from its device. -/
def quotedDevice : Path := { nodes := Splitter.quotedNodes.device, written := some "r.d\"1.2\"" }

/-- A record for each of the two paths. -/
def readRecords : List (Path × Nat) := [(quotedPath, 1), (quotedDevice, 2)]

/-- The record of a path with a quoted separator is found. -/
theorem build_of_quoted_separator : ∃ root,
    (build readRecords { maxDegree := .ofNat 2 }).result = .ok root ∧
      quotedPath.Parsed ∧ root.height ≤ (Setting.standard .maxDepth).toNat ∧
        Walker.locate {} root (.plain quotedPath) = { result := .ok (some 1) } := by
  obtain ⟨root, built, high⟩ : ∃ root,
      (build readRecords { maxDegree := .ofNat 2 }).result = .ok root ∧
        root.height ≤ (Setting.standard .maxDepth).toNat :=
    ⟨_, build_eq_ok_iff.2 ⟨⟨2, by decide⟩, _, rfl, rfl, rfl⟩, by cbv⟩
  have first : quotedPath.Parsed :=
    Path.parsed_iff.2 ⟨List.cons_ne_nil _ _, Splitter.atomic_quotedNodes, rfl⟩
  have second : quotedDevice.Parsed :=
    Path.parsed_iff.2 ⟨List.cons_ne_nil _ _, fun node hn =>
      Splitter.atomic_quotedNodes node (List.dropLast_subset _ hn), rfl⟩
  have deep : ∀ entry ∈ readRecords, 2 ≤ entry.1.nodes.length := by decide
  have parsed : ∀ entry ∈ readRecords, entry.1.Parsed := by
    simpa [readRecords] using ⟨first, second⟩
  have degree : ({ maxDegree := .ofNat 2 } : BuildOptions).maxDegree = .ofNat 2 := rfl
  obtain ⟨-, -, finds⟩ :=
    build_of_parsed (Nat.le_refl 2) degree (List.cons_ne_nil _ _) deep parsed
  obtain ⟨found, hfound, holds⟩ := finds root built {} quotedPath first high
  refine ⟨root, built, first, high, ?_⟩
  rw [hfound, (holds 1).2 ⟨quotedPath, List.mem_cons_self, by decide⟩]

end Page

end SeriesCatalog
