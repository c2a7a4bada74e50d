/-
  Series catalog — what a directory holds.

  * `Directory.insert_eq_ok_iff`: when a record is filed, and the directory
    that results;
  * `Directory.Holds`: a directory holds the records of a list, each once, and
    splits every device as the first of its records does;
  * `Directory.holds_ofRecords`: filing a list of records gives a directory
    that holds them.
-/
import Mathlib.Data.List.Basic
import SeriesCatalog.Index.Directory
import SeriesCatalog.Proofs.Except

namespace SeriesCatalog

open Std (TreeMap)

variable {α : Type} {records : List (Path × α)}

/-- The records whose path lies in a device. -/
def ofDevice (records : List (Path × α)) (device : Text) : List (Path × α) :=
  records.filter fun entry => entry.1.devicePrefix = device

/-- The nodes of a device, as the first record of the device splits them. -/
def firstSplit? (records : List (Path × α)) (device : Text) : Option Nodes :=
  (ofDevice records device).head?.map fun entry => entry.1.nodes.device

theorem ofDevice_concat (records : List (Path × α)) (path : Path) (record : α) (device : Text) :
    ofDevice (records ++ [(path, record)]) device =
      ofDevice records device ++ if path.devicePrefix = device then [(path, record)] else [] := by
  rw [ofDevice, List.filter_append, List.filter_cons, List.filter_nil, ofDevice]
  simp only [decide_eq_true_eq]

/-- **The records of all devices, device by device, are all records.** -/
theorem flatMap_ofDevice_perm {names : List Text} (distinct : names.Nodup)
    (h : ∀ entry ∈ records, entry.1.devicePrefix ∈ names) :
    (names.flatMap (ofDevice records)).Perm records := by
  -- over the devices: what is not in the first of them is in the others
  induction names generalizing records with
  | nil =>
    have none : records = [] := by
      refine List.eq_nil_iff_forall_not_mem.2 fun entry he => ?_
      simpa using h entry he
    rw [none]
    exact .refl _
  | cons name names ih =>
    obtain ⟨fresh, distinct⟩ := List.nodup_cons.1 distinct
    have rest : names.flatMap (ofDevice records) = names.flatMap (ofDevice
        (records.filter fun entry => !decide (entry.1.devicePrefix = name))) := by
      refine List.flatMap_congr fun device hdevice => ?_
      rw [ofDevice, ofDevice, List.filter_filter]
      refine List.filter_congr fun entry _ => ?_
      have : device ≠ name := fun he => fresh (he ▸ hdevice)
      grind
    rw [List.flatMap_cons, rest]
    refine .trans (.append_left _ (ih distinct fun entry he => ?_)) (List.filter_append_perm _ _)
    obtain ⟨mem, other⟩ := List.mem_filter.1 he
    exact (List.mem_cons.1 (h entry mem)).resolve_left (by simpa using other)

namespace Directory

variable {directory filed : Directory α} {records done : List (Path × α)} {path : Path} {record : α}

/-- The records filed under a device, by measurement. -/
def recordsOf (directory : Directory α) (device : Text) : TreeMap Text α :=
  directory[device]?.elim ∅ DeviceFile.records

/-- The nodes of a device that has a file. -/
def nodesOf? (directory : Directory α) (device : Text) : Option Nodes :=
  directory[device]?.map DeviceFile.nodes

/-! ## Filing one record -/

/-- The directory with one record more; the first path of a device gives the nodes of the
    device. -/
def extended (directory : Directory α) (path : Path) (record : α) : Directory α :=
  TreeMap.insert directory path.devicePrefix
    { nodes := (directory.nodesOf? path.devicePrefix).getD path.nodes.device
      records := (directory.recordsOf path.devicePrefix).insert path.terminal record }

theorem getD_eq_file (directory : Directory α) (path : Path) :
    TreeMap.getD directory path.devicePrefix { nodes := path.nodes.device } =
      ⟨(directory.nodesOf? path.devicePrefix).getD path.nodes.device,
        directory.recordsOf path.devicePrefix⟩ := by
  rw [TreeMap.getD_eq_getD_getElem?, nodesOf?, recordsOf]
  cases directory[path.devicePrefix]? <;> rfl

/-- **A record is filed** iff its path has a device and its measurement is not taken there. -/
theorem insert_eq_ok_iff :
    directory.insert path record = .ok filed ↔
      2 ≤ path.nodes.length ∧ path.terminal ∉ directory.recordsOf path.devicePrefix ∧
        filed = directory.extended path record := by
  unfold Directory.insert
  split
  · next short => simp; omega
  · next long =>
    rw [getD_eq_file]
    dsimp only
    split
    · next taken => simp [taken]
    · next free =>
      simp only [Except.ok.injEq, extended, free, not_false_eq_true, true_and]
      constructor
      · rintro rfl
        exact ⟨by omega, rfl⟩
      · rintro ⟨-, rfl⟩
        rfl

theorem nodesOf?_extended (device : Text) :
    (directory.extended path record).nodesOf? device =
      if path.devicePrefix = device then
        some ((directory.nodesOf? device).getD path.nodes.device)
      else directory.nodesOf? device := by
  simp only [extended, nodesOf?, TreeMap.getElem?_insert, Std.LawfulEqCmp.compare_eq_iff_eq]
  split
  · next same => subst same; rfl
  · rfl

theorem recordsOf_extended (device : Text) :
    (directory.extended path record).recordsOf device =
      if path.devicePrefix = device then
        (directory.recordsOf device).insert path.terminal record
      else directory.recordsOf device := by
  simp only [extended, recordsOf, TreeMap.getElem?_insert, Std.LawfulEqCmp.compare_eq_iff_eq]
  split
  · next same => subst same; rfl
  · rfl

/-! ## Filing a list of records -/

/-- A directory holds the records of a list. -/
structure Holds (directory : Directory α) (records : List (Path × α)) : Prop where
  deep : ∀ entry ∈ records, 2 ≤ entry.1.nodes.length
  nodes : ∀ device, directory.nodesOf? device = firstSplit? records device
  records : ∀ device, (directory.recordsOf device).toList.Perm
    ((ofDevice records device).map fun entry => (entry.1.terminal, entry.2))

theorem holds_empty : Holds (∅ : Directory α) [] where
  deep := by simp
  nodes device := by simp [nodesOf?, firstSplit?, ofDevice]
  records device := by
    have : (∅ : TreeMap Text α).toList = [] := rfl
    simp [recordsOf, ofDevice, this]

theorem Holds.insert (holds : Holds directory done) (h : directory.insert path record = .ok filed) :
    Holds filed (done ++ [(path, record)]) := by
  obtain ⟨deep, free, rfl⟩ := insert_eq_ok_iff.1 h
  refine ⟨fun entry he => ?_, fun device => ?_, fun device => ?_⟩
  · rcases List.mem_append.1 he with he | he
    · exact holds.deep entry he
    · rw [List.mem_singleton.1 he]
      exact deep
  · rw [nodesOf?_extended, firstSplit?, ofDevice_concat, holds.nodes device, firstSplit?]
    split
    · rw [List.head?_append]
      cases (ofDevice done device).head? <;> rfl
    · rw [List.append_nil]
  · rw [recordsOf_extended, ofDevice_concat, List.map_append]
    split
    · next same =>
      subst same
      have rest : (directory.recordsOf path.devicePrefix).toList.filter
          (fun entry => ¬ (path.terminal == entry.1) = true) =
          (directory.recordsOf path.devicePrefix).toList := by
        refine List.filter_eq_self.2 fun entry he => decide_eq_true fun hname => free ?_
        rw [eq_of_beq hname, TreeMap.mem_iff_isSome_getElem?,
          TreeMap.mem_toList_iff_getElem?_eq_some.1 he]
        rfl
      refine TreeMap.toList_insert_perm.trans ?_
      rw [rest]
      exact ((holds.records _).cons _).trans (List.perm_append_singleton _ _).symm
    · rw [List.map_nil, List.append_nil]
      exact holds.records device

theorem Holds.foldlM (holds : Holds directory done)
    (h : records.foldlM (fun directory (path, record) => directory.insert path record) directory =
      .ok filed) : Holds filed (done ++ records) := by
  induction records generalizing directory done with
  | nil =>
    cases h
    rwa [List.append_nil]
  | cons entry records ih =>
    rw [List.foldlM_cons] at h
    obtain ⟨next, hnext, h⟩ := Except.bind_eq_ok_iff.1 h
    have := ih (holds.insert hnext) h
    rwa [List.append_assoc] at this

/-- **A directory made of records holds them**, and there is one at least. -/
theorem holds_ofRecords (h : ofRecords records = .ok directory) :
    Holds directory records ∧ records ≠ [] := by
  unfold ofRecords at h
  obtain ⟨filed, hfiled, h⟩ := Except.bind_eq_ok_iff.1 h
  have holds := holds_empty.foldlM hfiled
  cases records with
  | nil => contradiction
  | cons entry records =>
    cases h
    exact ⟨holds, by simp⟩

end Directory

end SeriesCatalog
