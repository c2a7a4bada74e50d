/-
  Series catalog — devices that are read from their names.

  Where an entry keeps no nodes, a listing reads the name of the device as a raw
  path, under the standard limits.

  * `Path.readByDefault_iff`: the paths that are read under the standard options;
  * `Path.ReadByDefault.read_part`: some of the nodes of a path that was read so
    are read from their joined text, the device from its name;
  * `Page.listing_without_nodes`: an index of such paths is listed alike with and
    without the nodes of its devices.
-/
import SeriesCatalog.Proofs.Parsed
import SeriesCatalog.Proofs.ReadSeries
import SeriesCatalog.Proofs.Stripped

namespace SeriesCatalog

variable {α : Type} {records : List (Path × α)} {options : BuildOptions} {nodes part : Nodes}
  {raw : Text} {p : Path}

theorem Nodes.length_join_le {part nodes : Nodes} (h : part.Sublist nodes) :
    part.join.length ≤ nodes.join.length := by
  induction h with
  | slnil => exact Nat.le_refl _
  | @cons part nodes node sub ih =>
    by_cases last : nodes = []
    · rw [last] at sub
      simp [List.sublist_nil.1 sub, join]
    · rw [join_cons last, List.length_append, List.length_cons]
      omega
  | @cons_cons part nodes node sub ih =>
    by_cases last : nodes = []
    · rw [last] at sub
      simp [List.sublist_nil.1 sub, last]
    · rw [join_cons last, List.length_append, List.length_cons]
      by_cases single : part = []
      · simp [single, join]
      · rw [join_cons single, List.length_append, List.length_cons]
        omega

/-! ## The standard options -/

namespace Path

/-- A path that was read with the standard splitter and limits, whoever was told of it. -/
def ReadByDefault (p : Path) : Prop :=
  ∃ (raw : Text) (logger : Logger), (parse raw { logger := logger }).result = .ok p

theorem readByDefault_iff :
    p.ReadByDefault ↔ p.Parsed ∧ p.nodes.join.length ≤ Setting.maxPathLength.standard.toNat ∧
      p.nodes.length ≤ Setting.maxNodeCount.standard.toNat := by
  constructor
  · rintro ⟨raw, logger, h⟩
    -- the logger plays no part in what is read
    obtain ⟨short, hsplit, few, -⟩ := read_standard_iff.1 (show read raw {} = .ok p from h)
    obtain ⟨-, -, rfl⟩ := Splitter.atomic_of_quoted Splitter.separator_bare hsplit
    exact ⟨⟨_, { logger := logger }, rfl, h⟩, short, few⟩
  · rintro ⟨parsed, short, few⟩
    obtain ⟨nonempty, atomic, hwritten⟩ := parsed_iff.1 parsed
    have split := Splitter.quoted_join Splitter.separator_bare nonempty atomic
    exact ⟨p.nodes.join, {}, read_standard_iff.2 ⟨short, split, few, hwritten⟩⟩

theorem ReadByDefault.reachable (h : p.ReadByDefault) : p.Reachable :=
  (readByDefault_iff.1 h).1.reachable

theorem ReadByDefault.standard_fullPath (h : p.ReadByDefault) :
    Splitter.standard p.fullPath = .ok p.nodes := by
  obtain ⟨raw, logger, h⟩ := h
  rw [fullPath_of_read h]
  exact (read_standard_iff.1 h).2.1

theorem ReadByDefault.fullPath_eq (h : p.ReadByDefault) : p.fullPath = p.nodes.join :=
  (Splitter.atomic_of_quoted Splitter.separator_bare h.standard_fullPath).2.2.symm

/-- **Some of the nodes are read from their joined text**, if the path of all was read by default.
    The text splits into them, and there is no more of it than of the path, so that no limit is
    met. -/
theorem ReadByDefault.read_part (h : p.ReadByDefault) (some_node : part ≠ [])
    (sub : part.Sublist p.nodes) :
    read part.join {} = .ok { nodes := part, written := some part.join } := by
  obtain ⟨parsed, short, few⟩ := readByDefault_iff.1 h
  obtain ⟨-, atomic, -⟩ := parsed_iff.1 parsed
  have split : Splitter.standard part.join = .ok part :=
    Splitter.quoted_join Splitter.separator_bare some_node fun node hn =>
      atomic node (sub.subset hn)
  exact read_standard_iff.2
    ⟨(Nodes.length_join_le sub).trans short, split, sub.length_le.trans few, rfl⟩

theorem ReadByDefault.read_device (h : p.ReadByDefault) (deep : 2 ≤ p.nodes.length) :
    read p.devicePrefix {} =
      .ok { nodes := p.nodes.device, written := some p.devicePrefix } :=
  h.read_part (h.reachable.proper.device deep).nonempty (List.dropLast_sublist _)

theorem ReadByDefault.read_terminal (h : p.ReadByDefault) :
    read p.terminal {} = .ok { nodes := [p.terminal], written := some p.terminal } :=
  h.read_part (List.cons_ne_nil _ _)
    (List.singleton_sublist.2 (Nodes.terminal_mem h.reachable.proper.nonempty))

theorem readByDefault_quotedPath : Page.quotedPath.ReadByDefault :=
  ⟨"r.d\"1.2\".s", {}, read_standard_iff.2 ⟨by decide, by cbv, by decide, rfl⟩⟩

theorem parse_quotedDevice : (parse "r.d\"1.2\"").result = .ok Page.quotedDevice :=
  read_standard_iff.2 ⟨by decide, by cbv, by decide, rfl⟩

end Path

/-! ## Listings without nodes -/

namespace Page

variable {root : Page α}

theorem Indexes.readsBack {e : ChildEntry (Page α)} (indexes : Indexes records root)
    (default : ∀ entry ∈ records, entry.1.ReadByDefault)
    (deep : ∀ entry ∈ records, 2 ≤ entry.1.nodes.length) (he : e ∈ root.deviceEntries) :
    ReadsBack e := by
  obtain ⟨entry, mem, hdevice, kept⟩ := indexes.exists_kept he
  have proper := (default entry mem).reachable.proper.device (deep entry mem)
  have named := (default entry mem).read_device (deep entry mem)
  rw [hdevice] at named
  exact ⟨_, _, devicePath_of_kept kept proper, named, rfl⟩

/-- **The nodes that an index keeps are those that the names are read as**, if all its paths were
    read by default.  Leaving them out of every device entry leaves the listing as it is, and it
    still succeeds. -/
theorem listing_without_nodes (default : ∀ entry ∈ records, entry.1.ReadByDefault)
    (h : (build records options).result = .ok root) :
    (∀ e, root.stripped.HasDevice e → e.deviceNodes = none) ∧
    ∃ listing, root.paths = .ok listing ∧ root.stripped.paths = .ok listing := by
  have indexes := indexes_build h
  have deep := build_deep h
  obtain ⟨listing, hpaths, -⟩ :=
    paths_of_indexes indexes (fun entry he => (default entry he).reachable) deep
  have readsBack : ∀ e, root.HasDevice e → ReadsBack e := fun e he =>
    indexes.readsBack default deep (indexes.ordered.mem_deviceEntries_of_hasDevice he)
  refine ⟨fun e he => deviceNodes_of_stripped he, listing, hpaths, ?_⟩
  rw [paths_stripped readsBack, hpaths]

/-- The paths of `readRecords`, in the order of their listing. -/
def readListing : List Path :=
  [{ nodes := ["r", "d\"1.2\""] }, { nodes := ["r", "d\"1.2\"", "s"] }]

/-- A quoted separator in the name of a device is read back as it was. -/
theorem listing_of_quoted_device : ∃ root,
    (build readRecords { maxDegree := .ofNat 2 }).result = .ok root ∧
      (∀ entry ∈ readRecords, entry.1.ReadByDefault) ∧
        root.paths = .ok readListing ∧ root.stripped.paths = .ok readListing := by
  obtain ⟨root, built, below⟩ : ∃ root,
      (build readRecords { maxDegree := .ofNat 2 }).result = .ok root ∧
        root.pathsBelow none = .ok readListing :=
    ⟨_, build_eq_ok_iff.2 ⟨⟨2, by decide⟩, _, rfl, rfl, rfl⟩, by cbv⟩
  have listed : root.paths = .ok readListing := by
    rw [paths, below, Except.map]
    exact congrArg Except.ok (List.mergeSort_of_pairwise (by decide))
  have default : ∀ entry ∈ readRecords, entry.1.ReadByDefault := by
    simpa [readRecords] using ⟨Path.readByDefault_quotedPath, _, {}, Path.parse_quotedDevice⟩
  obtain ⟨-, listing, hpaths, hstripped⟩ := listing_without_nodes default built
  obtain rfl := Except.ok.inj (listed.symm.trans hpaths)
  exact ⟨root, built, default, listed, hstripped⟩

end Page

end SeriesCatalog
