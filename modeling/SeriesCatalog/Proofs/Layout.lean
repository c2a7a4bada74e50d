/-
  Series catalog — the layout of a built index.

  * `Page.Layout`: what is promised of an index of records with pages of a
    given degree — the kinds on every chain, the fill of the pages, the order of
    names, the depth of the leaves, and what these hold;
  * `Page.build_layout`: every index that is built has it.
-/
import SeriesCatalog.Proofs.Contents
import SeriesCatalog.Proofs.Settings

namespace SeriesCatalog.Page

variable {α : Type} {records : List (Path × α)} {directory : Directory α} {degree : Degree}
  {options : BuildOptions} {d : Nat} {root : Page α}

/-- The kinds on a chain down an index, through `n` levels of internal pages in the device tier
    and `m` levels in the measurement tier. -/
def chainKinds (n m : Nat) : List PageKind :=
  List.replicate n (.internal .device) ++ .leaf .device ::
    (List.replicate m (.internal .measurement) ++ [.leaf .measurement])

/-- The layout of an index of records with at most `d` entries in a page.  `Stacked` tells, for
    each of the tiers, that the leaves are at one depth, that pages are full but the last of a
    level, that names ascend along a level, and that they are the first names below. -/
structure Layout (d : Nat) (records : List (Path × α)) (root : Page α) : Prop where
  top : root.kind = .internal .device
  chains : ∀ kinds, Descent root kinds → ∃ n m, 1 ≤ n ∧ kinds = chainKinds n m
  devices : ∃ n, 1 ≤ n ∧ Stacked .device d n root
  measurements : ∀ e ∈ root.deviceEntries, ∃ m, Stacked .measurement d m e.child
  distinct : (root.deviceEntries.map ChildEntry.name).Nodup
  names : ∀ device, device ∈ root.deviceEntries.map ChildEntry.name ↔
    ∃ entry ∈ records, entry.1.devicePrefix = device
  nodes : ∀ e ∈ root.deviceEntries, ∃ nodes, e.deviceNodes = some nodes ∧ nodes.join = e.name
  records : ∀ e ∈ root.deviceEntries,
    (e.child.recordEntries.map fun entry => (entry.name, entry.record)).Perm
      ((records.filter fun entry => entry.1.devicePrefix = e.name).map fun entry =>
        (entry.1.terminal, entry.2))

/-! ## Chains -/

theorem children_eq_nil_of_kind {page : Page α} (h : page.kind = .leaf .measurement) :
    page.children = [] := by
  cases page with
  | internal tier entries | deviceLeaf entries => simp [kind] at h
  | measurementLeaf entries => rfl

theorem Stacked.measurement_chain {m : Nat} {kinds : List PageKind}
    (stacked : Stacked .measurement d m root) (h : Descent root kinds) :
    kinds = List.replicate m (.internal .measurement) ++ [.leaf .measurement] := by
  obtain ⟨leaf, hleaf, rest, rfl, hrest⟩ := stacked.descent h
  have hkind := stacked.leaf leaf hleaf
  cases hrest with
  | stop => rw [hkind]
  | step he => simp [children_eq_nil_of_kind hkind] at he

/-- A chain passes the levels of the device tier and a device leaf, and goes on below one of its
    entries. -/
theorem Stacked.exists_below {n : Nat} {kinds : List PageKind} (stacked : Stacked .device d n root)
    (h : Descent root kinds) :
    ∃ e ∈ root.deviceEntries, ∃ below, Descent e.child below ∧
      kinds = List.replicate n (.internal .device) ++ .leaf .device :: below := by
  obtain ⟨leaf, hleaf, rest, rfl, hrest⟩ := stacked.descent h
  have hkind := stacked.leaf leaf hleaf
  have hne := stacked.children_ne_nil (Nat.le_refl n) hleaf (by simp [hkind])
  obtain ⟨e, he, below, rfl, hbelow⟩ := hrest.child hne
  have mem : e ∈ root.deviceEntries :=
    List.mem_flatMap.2 ⟨leaf, by rw [stacked.leaves]; exact hleaf, he⟩
  exact ⟨e, mem, below, hbelow, by rw [hkind]⟩

theorem Stacked.device_chain {n : Nat} {kinds : List PageKind} (stacked : Stacked .device d n root)
    (measurements : ∀ e ∈ root.deviceEntries, ∃ m, Stacked .measurement d m e.child)
    (h : Descent root kinds) : ∃ m, kinds = chainKinds n m := by
  obtain ⟨e, he, below, hbelow, rfl⟩ := stacked.exists_below h
  obtain ⟨m, stackedBelow⟩ := measurements e he
  exact ⟨m, by rw [stackedBelow.measurement_chain hbelow, chainKinds]⟩

/-! ## The index of a directory -/

theorem ofDirectory_stacked (degree : Degree) (h : directory.toList ≠ []) :
    ∃ n, 1 ≤ n ∧ Stacked .device degree.toNat n (ofDirectory degree directory) := by
  refine ⟨_, Nat.le_max_left _ _, ofDeviceEntries_stacked ?_ (by simpa using h)⟩
  exact List.pairwise_map.2 (ascending_toList directory)

theorem deviceEntry_stacked (holds : directory.Holds records) {e : ChildEntry (Page α)}
    (he : e ∈ (ofDirectory degree directory).deviceEntries) :
    ∃ m, Stacked .measurement degree.toNat m e.child := by
  obtain ⟨file, hfile, he⟩ := mem_deviceEntries_ofDirectory.1 he
  rw [he]
  exact ⟨_, ofRecordEntries_stacked file.ascending_entries (holds.entries_ne_nil hfile)⟩

theorem toList_ne_nil (holds : directory.Holds records) (h : records ≠ []) :
    directory.toList ≠ [] := by
  obtain ⟨entry, others, rfl⟩ := List.exists_cons_of_ne_nil h
  intro none
  have indexes : Indexes (entry :: others) (ofDirectory (Setting.standard .maxDegree) directory) :=
    indexes_ofDirectory holds
  have mem := (indexes.devices entry.1.devicePrefix).2 ⟨entry, List.mem_cons_self, rfl⟩
  rw [deviceEntries_ofDirectory, none] at mem
  contradiction

/-- **Every index that is built has the layout** of its records, for the degree that it was built
    with. -/
theorem build_layout (h : (build records options).result = .ok root) :
    ∃ d, options.maxDegree = .ofNat d ∧ 2 ≤ d ∧ Layout d records root := by
  obtain ⟨degree, directory, hdegree, hfiled, rfl⟩ := build_eq_ok_iff.1 h
  obtain ⟨holds, nonempty⟩ := Directory.holds_ofRecords hfiled
  obtain ⟨n, hn, stacked⟩ := ofDirectory_stacked degree (toList_ne_nil holds nonempty)
  have indexes : Indexes records (ofDirectory degree directory) := indexes_ofDirectory holds
  have measurements : ∀ e ∈ (ofDirectory degree directory).deviceEntries,
      ∃ m, Stacked .measurement degree.toNat m e.child := fun e he => deviceEntry_stacked holds he
  refine ⟨degree.toNat, Setting.check_eq_ok_iff.1 hdegree, Degree.two_le degree, ?_⟩
  constructor
  case top => exact stacked.internal 0 hn _ List.mem_cons_self
  case chains =>
    intro kinds hkinds
    obtain ⟨m, hm⟩ := stacked.device_chain measurements hkinds
    exact ⟨n, m, hn, hm⟩
  case devices => exact ⟨n, hn, stacked⟩
  case measurements => exact measurements
  case distinct => exact List.pairwise_map.2 indexes.distinct.distinct
  case names => exact indexes.devices
  case nodes =>
    intro e he
    obtain ⟨file, hfile, he'⟩ := mem_deviceEntries_ofDirectory.1 he
    obtain ⟨entry, -, hdevice, hnodes⟩ := firstSplit?_eq_some (holds.firstSplit hfile)
    refine ⟨file.nodes, by rw [he']; rfl, ?_⟩
    rw [← hnodes, ← hdevice, Path.devicePrefix]
  case records =>
    intro e he
    have := (indexes.records e he).map fun entry => (entry.name, entry.record)
    rwa [measurementEntries, List.map_map] at this

/-- Three devices in pages of two entries. -/
theorem layout_of_three_devices : ∃ root,
    (build [({ nodes := ["c", "s"] }, 1), ({ nodes := ["a", "s"] }, 2),
      ({ nodes := ["b", "s"] }, 3)] { maxDegree := .ofNat 2 }).result = .ok root ∧
      Layout 2 [({ nodes := ["c", "s"] }, 1), ({ nodes := ["a", "s"] }, 2),
        ({ nodes := ["b", "s"] }, 3)] root := by
  obtain ⟨root, built⟩ : ∃ root,
      (build [({ nodes := ["c", "s"] }, 1), ({ nodes := ["a", "s"] }, 2),
        ({ nodes := ["b", "s"] }, 3)] { maxDegree := .ofNat 2 }).result = .ok root :=
    ⟨_, build_eq_ok_iff.2 ⟨⟨2, by decide⟩, _, rfl, rfl, rfl⟩⟩
  obtain ⟨d, hd, -, layout⟩ := build_layout built
  obtain rfl : 2 = d := Number.ofNat_injective hd
  exact ⟨root, built, layout⟩

end SeriesCatalog.Page
