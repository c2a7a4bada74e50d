/-
  Series catalog — what an index holds.

  * `Page.Indexes`: a search tree with one entry for each device of a list of
    records, which holds the records of the device and its nodes as the first of
    them splits them;
  * `Page.indexes_build`: a tree that is built of records indexes them;
  * `Page.Indexes.lookup_eq_some_iff`: what a search of all leaves finds in a
    tree that indexes records.
-/
import SeriesCatalog.Proofs.Construction
import SeriesCatalog.Proofs.Filing

namespace SeriesCatalog

open Std (TreeMap)

variable {α : Type} {records : List (Path × α)} {directory : Directory α} {device : Text}
  {file : DeviceFile α} {degree : Degree}

/-! ## From a directory to entries -/

theorem ascending_toList {β : Type} (map : TreeMap Text β) : Ascending Prod.fst map.toList :=
  map.ordered_keys_toList.imp Text.compare_eq_lt_iff.1

/-- The entries of the records in a file. -/
def DeviceFile.entries (file : DeviceFile α) : List (RecordEntry α) :=
  file.records.toList.map fun (name, record) => ⟨name, record⟩

theorem DeviceFile.ascending_entries (file : DeviceFile α) :
    Ascending RecordEntry.name file.entries :=
  List.pairwise_map.2 (ascending_toList file.records)

/-- The entries of the records of a device. -/
def measurementEntries (records : List (Path × α)) (device : Text) : List (RecordEntry α) :=
  (ofDevice records device).map fun entry => ⟨entry.1.terminal, entry.2⟩

theorem mem_measurementEntries {e : RecordEntry α} :
    e ∈ measurementEntries records device ↔
      ∃ path, (path, e.record) ∈ records ∧ path.devicePrefix = device ∧ path.terminal = e.name := by
  rw [measurementEntries, List.mem_map]
  constructor
  · rintro ⟨⟨path, record⟩, h, rfl⟩
    obtain ⟨mem, hdevice⟩ := List.mem_filter.1 h
    exact ⟨path, mem, of_decide_eq_true hdevice, rfl⟩
  · rintro ⟨path, mem, hdevice, hname⟩
    refine ⟨(path, e.record), List.mem_filter.2 ⟨mem, decide_eq_true hdevice⟩, ?_⟩
    rw [hname]

theorem Directory.Holds.entries (holds : directory.Holds records)
    (h : directory[device]? = some file) :
    file.entries.Perm (measurementEntries records device) := by
  have := holds.records device
  rw [Directory.recordsOf, h] at this
  have := this.map fun (name, record) => (⟨name, record⟩ : RecordEntry α)
  rwa [List.map_map] at this

theorem Directory.Holds.firstSplit (holds : directory.Holds records)
    (h : directory[device]? = some file) : firstSplit? records device = some file.nodes := by
  rw [← holds.nodes, Directory.nodesOf?, h, Option.map_some]

theorem firstSplit?_eq_some {nodes : Nodes} (h : firstSplit? records device = some nodes) :
    ∃ entry ∈ records, entry.1.devicePrefix = device ∧ entry.1.nodes.device = nodes := by
  obtain ⟨entry, hhead, hnodes⟩ := Option.map_eq_some_iff.1 h
  obtain ⟨mem, hdevice⟩ := List.mem_filter.1 (List.mem_of_head? hhead)
  exact ⟨entry, mem, of_decide_eq_true hdevice, hnodes⟩

theorem firstSplit?_isSome_iff :
    (firstSplit? records device).isSome ↔ ∃ entry ∈ records, entry.1.devicePrefix = device := by
  simp [firstSplit?, ofDevice, List.head?_filter]

theorem Directory.Holds.entries_ne_nil (holds : directory.Holds records)
    (h : directory[device]? = some file) : file.entries ≠ [] := by
  intro none
  obtain ⟨⟨path, record⟩, mem, hdevice, -⟩ := firstSplit?_eq_some (holds.firstSplit h)
  have hmem : (⟨path.terminal, record⟩ : RecordEntry α) ∈ measurementEntries records device :=
    mem_measurementEntries.2 ⟨path, mem, hdevice, rfl⟩
  rw [← (holds.entries h).mem_iff, none] at hmem
  contradiction

namespace Page

variable {root : Page α} {options : BuildOptions} {measurement : Text}

theorem deviceEntries_ofDirectory (degree : Degree) (directory : Directory α) :
    (ofDirectory degree directory).deviceEntries =
      directory.toList.map fun (device, file) => deviceEntry degree device file :=
  deviceEntries_ofDeviceEntries degree _

theorem ascending_deviceEntries (degree : Degree) (directory : Directory α) :
    Ascending ChildEntry.name (ofDirectory degree directory).deviceEntries := by
  rw [deviceEntries_ofDirectory]
  exact List.pairwise_map.2 (ascending_toList directory)

theorem mem_deviceEntries_ofDirectory {e : ChildEntry (Page α)} :
    e ∈ (ofDirectory degree directory).deviceEntries ↔
      ∃ file, directory[e.name]? = some file ∧ e = deviceEntry degree e.name file := by
  rw [deviceEntries_ofDirectory, List.mem_map]
  constructor
  · rintro ⟨⟨device, file⟩, mem, rfl⟩
    exact ⟨file, TreeMap.mem_toList_iff_getElem?_eq_some.1 mem, rfl⟩
  · rintro ⟨file, hfile, he⟩
    exact ⟨(e.name, file), TreeMap.mem_toList_iff_getElem?_eq_some.2 hfile, he.symm⟩

theorem recordEntries_deviceEntry (degree : Degree) (device : Text) (file : DeviceFile α) :
    (deviceEntry degree device file).child.recordEntries = file.entries :=
  recordEntries_ofRecordEntries degree _

/-! ## Indexes -/

/-- A search tree holds records: each device once, each record of it once. -/
structure Indexes (records : List (Path × α)) (root : Page α) : Prop where
  ordered : Ordered .device root
  distinct : Ascending ChildEntry.name root.deviceEntries
  devices : ∀ device, device ∈ root.deviceEntries.map ChildEntry.name ↔
    ∃ entry ∈ records, entry.1.devicePrefix = device
  nodes : ∀ e ∈ root.deviceEntries, e.deviceNodes = firstSplit? records e.name
  measurements : ∀ e ∈ root.deviceEntries, Ascending RecordEntry.name e.child.recordEntries
  records : ∀ e ∈ root.deviceEntries,
    e.child.recordEntries.Perm (measurementEntries records e.name)

/-- **The index of a directory** holds what the directory holds. -/
theorem indexes_ofDirectory (holds : directory.Holds records) :
    Indexes records (ofDirectory degree directory) where
  ordered := by
    refine ofDeviceEntries_ordered ?_ ?_
    · exact List.pairwise_map.2 (ascending_toList directory)
    · rintro _ he
      obtain ⟨⟨device, file⟩, -, rfl⟩ := List.mem_map.1 he
      exact ofRecordEntries_ordered file.ascending_entries
  distinct := ascending_deviceEntries degree directory
  devices device := by
    rw [← firstSplit?_isSome_iff, ← holds.nodes, Directory.nodesOf?, Option.isSome_map,
      deviceEntries_ofDirectory, List.map_map, ← TreeMap.mem_iff_isSome_getElem?,
      ← TreeMap.mem_keys, ← TreeMap.map_fst_toList_eq_keys]
    rfl
  nodes e he := by
    obtain ⟨file, hfile, he⟩ := mem_deviceEntries_ofDirectory.1 he
    rw [holds.firstSplit hfile, he]
    rfl
  measurements e he := by
    obtain ⟨file, -, he⟩ := mem_deviceEntries_ofDirectory.1 he
    rw [he, recordEntries_deviceEntry]
    exact file.ascending_entries
  records e he := by
    obtain ⟨file, hfile, he⟩ := mem_deviceEntries_ofDirectory.1 he
    rw [he, recordEntries_deviceEntry]
    exact holds.entries hfile

theorem build_eq_ok_iff :
    (build records options).result = .ok root ↔
      ∃ degree directory, Setting.maxDegree.check options.maxDegree = .ok degree ∧
        Directory.ofRecords records = .ok directory ∧ ofDirectory degree directory = root := by
  unfold build
  cases Setting.maxDegree.check options.maxDegree with
  | error => simp
  | ok degree => cases Directory.ofRecords records <;> simp

theorem indexes_build (h : (build records options).result = .ok root) : Indexes records root := by
  obtain ⟨degree, directory, -, hfiled, rfl⟩ := build_eq_ok_iff.1 h
  exact indexes_ofDirectory (Directory.holds_ofRecords hfiled).1

/-- Only paths with a device are indexed. -/
theorem build_deep (h : (build records options).result = .ok root) :
    ∀ entry ∈ records, 2 ≤ entry.1.nodes.length := by
  obtain ⟨degree, directory, -, hfiled, -⟩ := build_eq_ok_iff.1 h
  exact (Directory.holds_ofRecords hfiled).1.deep

theorem Indexes.recordAt?_eq_some_iff {e : ChildEntry (Page α)} {record : α}
    (indexes : Indexes records root) (he : e ∈ root.deviceEntries) :
    e.child.recordAt? measurement = some record ↔
      ∃ path, (path, record) ∈ records ∧ path.devicePrefix = e.name ∧
        path.terminal = measurement := by
  have distinct := (indexes.measurements e he).distinct
  rw [recordAt?, Option.map_eq_some_iff]
  constructor
  · rintro ⟨found, hfound, rfl⟩
    obtain ⟨mem, rfl⟩ := (find?_name_eq_some_iff distinct).1 hfound
    exact mem_measurementEntries.1 ((indexes.records e he).mem_iff.1 mem)
  · rintro ⟨path, mem, hdevice, rfl⟩
    have held : (⟨path.terminal, record⟩ : RecordEntry α) ∈ e.child.recordEntries :=
      (indexes.records e he).mem_iff.2 (mem_measurementEntries.2 ⟨path, mem, hdevice, rfl⟩)
    exact ⟨_, (find?_name_eq_some_iff distinct).2 ⟨held, rfl⟩, rfl⟩

/-- **A search finds the records** that a tree indexes, and no others. -/
theorem Indexes.lookup_eq_some_iff {record : α} (indexes : Indexes records root) :
    root.lookup device measurement = some record ↔
      ∃ path, (path, record) ∈ records ∧ path.devicePrefix = device ∧
        path.terminal = measurement := by
  rw [lookup, Option.bind_eq_some_iff]
  constructor
  · rintro ⟨e, hfound, hrecord⟩
    obtain ⟨he, rfl⟩ := (find?_name_eq_some_iff indexes.distinct.distinct).1 hfound
    exact (indexes.recordAt?_eq_some_iff he).1 hrecord
  · rintro ⟨path, mem, rfl, hterminal⟩
    obtain ⟨e, he, hname⟩ := List.mem_map.1 ((indexes.devices _).2 ⟨_, mem, rfl⟩)
    refine ⟨e, (find?_name_eq_some_iff indexes.distinct.distinct).2 ⟨he, hname⟩, ?_⟩
    exact (indexes.recordAt?_eq_some_iff he).2 ⟨path, mem, hname.symm, hterminal⟩

end Page

end SeriesCatalog
