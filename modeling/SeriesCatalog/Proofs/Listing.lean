/-
  Series catalog — what a listing of a built index shows.

  An index keeps one sequence of nodes for each device, that of the first of
  its records, and lists all records of the device under it.

  * `Page.paths_of_indexes`: the listing of an index has a path for each record,
    with the nodes of its device as they are kept (`respelled`);
  * `Page.paths_faithful_iff`: the paths of the records are listed iff no
    two of them split one device in different ways.
-/
import Mathlib.Data.List.Perm.Basic
import SeriesCatalog.Index.Listing
import SeriesCatalog.Proofs.Contents
import SeriesCatalog.Proofs.Reachable

namespace SeriesCatalog

variable {α : Type} {records : List (Path × α)} {options : BuildOptions}

/-- The nodes under which a record is listed: those of the first record of its device, and the
    name of its measurement. -/
def respelled (records : List (Path × α)) (entry : Path × α) : Nodes :=
  (firstSplit? records entry.1.devicePrefix).getD [] ++ [entry.1.terminal]

namespace Page

variable {root page : Page α} {entries : List (ChildEntry (Page α))}

/-! ## The paths below a page -/

theorem pathsOfChildren_eq_ok {device : Option Path} {listed : ChildEntry (Page α) → List Path}
    (h : ∀ e ∈ entries, e.child.pathsBelow device = .ok (listed e)) :
    pathsOfChildren device entries = .ok (entries.flatMap listed) := by
  induction entries with
  | nil => rw [pathsOfChildren]; rfl
  | cons e entries ih =>
    have rest := ih fun x hx => h x (List.mem_cons_of_mem e hx)
    rw [pathsOfChildren, h e List.mem_cons_self, rest]
    rfl

theorem pathsOfDevices_eq_ok {listed : ChildEntry (Page α) → List Path}
    (h : ∀ e ∈ entries, ∃ device, e.devicePath = .ok device ∧
      e.child.pathsBelow (some device) = .ok (listed e)) :
    pathsOfDevices entries = .ok (entries.flatMap listed) := by
  induction entries with
  | nil => rw [pathsOfDevices]; rfl
  | cons e entries ih =>
    obtain ⟨device, hdevice, hbelow⟩ := h e List.mem_cons_self
    have rest := ih fun x hx => h x (List.mem_cons_of_mem e hx)
    rw [pathsOfDevices, hdevice, rest]
    simp only [Except.bind_eq_ok_iff]
    exact ⟨device, rfl, _, hbelow, _, rfl, rfl⟩

theorem Ordered.pathsBelow_measurement (ordered : Ordered .measurement page)
    (named : ∀ e ∈ page.recordEntries, e.name ≠ []) (device : Path) :
    page.pathsBelow (some device) =
      .ok (page.recordEntries.map fun e => { nodes := device.nodes ++ [e.name] }) := by
  induction page with
  | internal tier entries ih =>
    rw [recordEntries_internal] at named ⊢
    rw [pathsBelow, List.map_flatMap]
    refine pathsOfChildren_eq_ok fun e he => ih e he (ordered.of_internal.2 e he) fun x hx => ?_
    exact named x (List.mem_flatMap.2 ⟨e, he, hx⟩)
  | deviceLeaf entries => cases ordered
  | measurementLeaf entries =>
    rw [recordEntries_measurementLeaf] at named ⊢
    rw [pathsBelow]
    exact Except.mapM_eq_ok fun e he => Path.push_eq_ok_iff.2 ⟨named e he, rfl⟩

theorem Ordered.pathsBelow_device {listed : ChildEntry (Page α) → List Path}
    (ordered : Ordered .device page)
    (h : ∀ e ∈ page.deviceEntries, ∃ device, e.devicePath = .ok device ∧
      e.child.pathsBelow (some device) = .ok (listed e)) (above : Option Path) :
    page.pathsBelow above = .ok (page.deviceEntries.flatMap listed) := by
  induction page with
  | internal tier entries ih =>
    rw [deviceEntries_internal] at h ⊢
    rw [pathsBelow, List.flatMap_assoc]
    refine pathsOfChildren_eq_ok fun e he => ih e he (ordered.of_internal.2 e he) fun x hx => ?_
    exact h x (List.mem_flatMap.2 ⟨e, he, hx⟩)
  | deviceLeaf entries =>
    rw [deviceEntries_deviceLeaf] at h ⊢
    rw [pathsBelow]
    exact pathsOfDevices_eq_ok h
  | measurementLeaf entries => cases ordered

/-! ## The paths of an index -/

/-- The paths that are listed below a device entry. -/
def listedBelow (e : ChildEntry (Page α)) : List Path :=
  e.child.recordEntries.map fun entry => { nodes := e.deviceNodes.getD [] ++ [entry.name] }

theorem listedBelow_perm {e : ChildEntry (Page α)} (indexes : Indexes records root)
    (he : e ∈ root.deviceEntries) :
    ((listedBelow e).map Path.nodes).Perm ((ofDevice records e.name).map (respelled records)) := by
  have held := (indexes.records e he).map fun entry => e.deviceNodes.getD [] ++ [entry.name]
  rw [measurementEntries, List.map_map] at held
  rw [listedBelow, List.map_map]
  refine held.trans (.of_eq (List.map_congr_left fun entry hentry => ?_))
  obtain ⟨-, hdevice⟩ := List.mem_filter.1 hentry
  rw [respelled, of_decide_eq_true hdevice, ← indexes.nodes e he]
  rfl

/-- **All records are listed once**, with the nodes that are kept of their devices. -/
theorem listed_perm (indexes : Indexes records root) :
    ((root.deviceEntries.flatMap listedBelow).map Path.nodes).Perm
      (records.map (respelled records)) := by
  have distinct : (root.deviceEntries.map ChildEntry.name).Nodup :=
    List.pairwise_map.2 indexes.distinct.distinct
  have all := flatMap_ofDevice_perm distinct fun entry he =>
    (indexes.devices _).2 ⟨entry, he, rfl⟩
  rw [List.map_flatMap]
  refine (List.Perm.flatMap_left _ fun e he => listedBelow_perm indexes he).trans ?_
  rw [← List.map_flatMap]
  rw [List.flatMap_map] at all
  exact all.map _

theorem Indexes.exists_kept {e : ChildEntry (Page α)} (indexes : Indexes records root)
    (he : e ∈ root.deviceEntries) : ∃ entry ∈ records, entry.1.devicePrefix = e.name ∧
      e.deviceNodes = some entry.1.nodes.device := by
  have some_record := (indexes.devices e.name).1 (List.mem_map_of_mem he)
  obtain ⟨nodes, hsplit⟩ := Option.isSome_iff_exists.1 (firstSplit?_isSome_iff.2 some_record)
  obtain ⟨entry, mem, hdevice, rfl⟩ := firstSplit?_eq_some hsplit
  exact ⟨entry, mem, hdevice, (indexes.nodes e he).trans hsplit⟩

theorem devicePath_of_kept {e : ChildEntry (Page α)} {nodes : Nodes}
    (kept : e.deviceNodes = some nodes) (proper : nodes.Proper) :
    e.devicePath = .ok { nodes } := by
  rw [ChildEntry.devicePath, kept]
  exact Path.ofNodes_eq_ok_iff.2 ⟨proper, rfl⟩

theorem Indexes.pathsBelow {e : ChildEntry (Page α)} (indexes : Indexes records root)
    (reachable : ∀ entry ∈ records, entry.1.Reachable)
    (deep : ∀ entry ∈ records, 2 ≤ entry.1.nodes.length) (he : e ∈ root.deviceEntries) :
    ∃ device, e.devicePath = .ok device ∧
      e.child.pathsBelow (some device) = .ok (listedBelow e) := by
  obtain ⟨entry, mem, -, kept⟩ := indexes.exists_kept he
  have proper := (reachable entry mem).proper.device (deep entry mem)
  refine ⟨_, devicePath_of_kept kept proper, ?_⟩
  have ordered := indexes.ordered.of_mem_deviceEntries he
  rw [ordered.pathsBelow_measurement ?_ _, listedBelow, kept]
  · rfl
  · intro x hx
    obtain ⟨path, mem, -, hname⟩ := mem_measurementEntries.1 ((indexes.records e he).mem_iff.1 hx)
    rw [← hname]
    exact (reachable _ mem).terminal_ne_nil

/-- **The listing of an index** has a path for each record, in ascending order. -/
theorem paths_of_indexes (indexes : Indexes records root)
    (reachable : ∀ entry ∈ records, entry.1.Reachable)
    (deep : ∀ entry ∈ records, 2 ≤ entry.1.nodes.length) :
    ∃ listing, root.paths = .ok listing ∧
      (listing.Pairwise fun p q => p.fullPath ≤ q.fullPath) ∧
      (listing.map Path.nodes).Perm (records.map (respelled records)) := by
  have below := indexes.ordered.pathsBelow_device
    (fun e he => indexes.pathsBelow reachable deep he) none
  refine ⟨_, by rw [paths, below]; rfl, Text.pairwise_sortOn _ _, ?_⟩
  exact ((Text.sortOn_perm _ _).map Path.nodes).trans (listed_perm indexes)

end Page

/-! ## Faithful listings -/

theorem exists_respelled {entry : Path × α} (h : entry ∈ records) :
    ∃ first ∈ records, first.1.devicePrefix = entry.1.devicePrefix ∧
      firstSplit? records entry.1.devicePrefix = some first.1.nodes.device ∧
      respelled records entry = first.1.nodes.device ++ [entry.1.terminal] := by
  obtain ⟨nodes, hsplit⟩ := Option.isSome_iff_exists.1 (firstSplit?_isSome_iff.2 ⟨entry, h, rfl⟩)
  obtain ⟨first, mem, hdevice, rfl⟩ := firstSplit?_eq_some hsplit
  exact ⟨first, mem, hdevice, hsplit, by rw [respelled, hsplit, Option.getD_some]⟩

/-- If the nodes of all records are listed, then every record splits its device as the first record
    of the device does. -/
theorem firstSplit?_of_perm (h : (records.map (respelled records)).Perm
    (records.map fun entry => entry.1.nodes)) {entry : Path × α} (mem : entry ∈ records) :
    firstSplit? records entry.1.devicePrefix = some entry.1.nodes.device := by
  obtain ⟨x, hx, hnodes⟩ := List.mem_map.1 (h.mem_iff.2 (List.mem_map_of_mem mem))
  obtain ⟨first, -, hdevice, hsplit, hrespelled⟩ := exists_respelled hx
  have same : entry.1.nodes.device = first.1.nodes.device := by
    rw [← hnodes, hrespelled, Nodes.device, List.dropLast_concat]
  have filed : entry.1.devicePrefix = x.1.devicePrefix := by
    rw [← hdevice, Path.devicePrefix, same, Path.devicePrefix]
  rw [filed, hsplit, same]

theorem respelled_perm_iff (nonempty : ∀ entry ∈ records, entry.1.nodes ≠ []) :
    (records.map (respelled records)).Perm (records.map fun entry => entry.1.nodes) ↔
      ∀ a ∈ records, ∀ b ∈ records, a.1.devicePrefix = b.1.devicePrefix →
        a.1.nodes.device = b.1.nodes.device := by
  constructor
  · intro h a ha b hb hdevice
    have hsplit := firstSplit?_of_perm h ha
    rw [hdevice, firstSplit?_of_perm h hb] at hsplit
    exact (Option.some.inj hsplit).symm
  · intro h
    refine .of_eq (List.map_congr_left fun entry mem => ?_)
    obtain ⟨first, hfirst, hdevice, -, hrespelled⟩ := exists_respelled mem
    rw [hrespelled, h first hfirst entry mem hdevice]
    exact Nodes.device_append_terminal (nonempty entry mem)

/-- **When a listing shows the paths that were indexed.**  A built index always lists a path for
    each record, under the kept nodes of its device, in ascending order.  The paths are those of the
    records, node for node, iff no two records split one device in different ways. -/
theorem Page.paths_faithful_iff {root : Page α} (reachable : ∀ entry ∈ records, entry.1.Reachable)
    (h : (Page.build records options).result = .ok root) :
    ∃ listing, root.paths = .ok listing ∧
      (listing.Pairwise fun p q => p.fullPath ≤ q.fullPath) ∧
      (listing.map Path.nodes).Perm (records.map (respelled records)) ∧
      ((listing.map Path.nodes).Perm (records.map fun entry => entry.1.nodes) ↔
        ∀ a ∈ records, ∀ b ∈ records, a.1.devicePrefix = b.1.devicePrefix →
          a.1.nodes.device = b.1.nodes.device) := by
  obtain ⟨listing, hpaths, ascending, perm⟩ :=
    paths_of_indexes (indexes_build h) reachable (build_deep h)
  have same := respelled_perm_iff fun entry he => (reachable entry he).proper.nonempty
  refine ⟨listing, hpaths, ascending, perm, ?_⟩
  exact ⟨fun hp => same.1 (perm.symm.trans hp), fun hs => perm.trans (same.2 hs)⟩

/-- Nodes that hold the separator are listed as they are, where no other record reads them in
    another way. -/
theorem paths_of_separator_in_node : ∃ root listing,
    (Page.build [({ nodes := ["r", "a.b", "s1"] }, 1), ({ nodes := ["r", "c", "s2"] }, 2)]).result =
      .ok root ∧ root.paths = .ok listing ∧
        (listing.map Path.nodes).Perm [["r", "a.b", "s1"], ["r", "c", "s2"]] := by
  obtain ⟨root, built⟩ : ∃ root,
      (Page.build [({ nodes := ["r", "a.b", "s1"] }, 1),
        ({ nodes := ["r", "c", "s2"] }, 2)]).result = .ok root :=
    ⟨_, Page.build_eq_ok_iff.2 ⟨Setting.standard .maxDegree, _, rfl, rfl, rfl⟩⟩
  obtain ⟨listing, hlisting, -, -, faithful⟩ := Page.paths_faithful_iff
    (by simpa using ⟨Path.Reachable.of_proper ⟨by decide, by decide⟩,
      Path.Reachable.of_proper ⟨by decide, by decide⟩⟩) built
  exact ⟨root, listing, built, hlisting, faithful.2 (by decide)⟩

/-- Two paths that can be made: the device of one is a node that holds the separator, the device of
    the other is two nodes. -/
def twoSplits : List (Path × Nat) :=
  [({ nodes := ["a.b", "s1"] }, 1), ({ nodes := ["a", "b", "s2"] }, 2)]

/-- A path that was not indexed is listed, and one that was indexed is not. -/
theorem paths_of_two_splits : (∀ entry ∈ twoSplits, entry.1.Reachable) ∧
    ∃ root listing, (Page.build twoSplits).result = .ok root ∧ root.paths = .ok listing ∧
      (listing.map Path.nodes).Perm [["a.b", "s1"], ["a.b", "s2"]] ∧
      ¬ (listing.map Path.nodes).Perm (twoSplits.map fun entry => entry.1.nodes) := by
  have reachable : ∀ entry ∈ twoSplits, entry.1.Reachable := by
    simpa [twoSplits] using ⟨Path.Reachable.of_proper ⟨by decide, by decide⟩,
      Path.Reachable.of_proper ⟨by decide, by decide⟩⟩
  obtain ⟨root, built⟩ : ∃ root, (Page.build twoSplits).result = .ok root :=
    ⟨_, Page.build_eq_ok_iff.2 ⟨Setting.standard .maxDegree, _, rfl, rfl, rfl⟩⟩
  obtain ⟨listing, hlisting, -, perm⟩ :=
    Page.paths_of_indexes (Page.indexes_build built) reachable (Page.build_deep built)
  have listed : (listing.map Path.nodes).Perm [["a.b", "s1"], ["a.b", "s2"]] :=
    perm.trans (.of_eq (by decide))
  refine ⟨reachable, root, listing, built, hlisting, listed, fun h => ?_⟩
  exact absurd (listed.symm.trans h) (by decide)

end SeriesCatalog
