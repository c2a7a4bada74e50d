/-
  Series catalog — which records can be filed.

  A record is filed under the key of its path: the name of the device and the
  name of the measurement.

  * `fault?`, `firstFault?`: why a record is refused where some keys are taken,
    and the first refusal in a list;
  * `Directory.foldlM_insert`: filing stops at the first refusal, and only
    there;
  * `firstFault?_eq_none_iff`: no record is refused iff every path has a device
    and no key is repeated;
  * `Page.build_cases`: where every path has a device, a build fails only for a
    repeated key;
  * `Page.exists_build_iff`, `Page.build_eq_error`: what a build asks of its
    records, and the kind of all its failures.
-/
import SeriesCatalog.Proofs.Contents
import SeriesCatalog.Proofs.Settings

namespace SeriesCatalog

variable {α : Type}

/-- The name of the device and the name of the measurement. -/
def Nodes.key (nodes : Nodes) : Text × Text := (nodes.device.join, nodes.terminal)

/-- The keys of records. -/
def keys (records : List (Path × α)) : List (Text × Text) :=
  records.map fun entry => entry.1.nodes.key

variable {records : List (Path × α)} {taken : List (Text × Text)} {path : Path} {record : α}
  {fault : ArgumentFault}

theorem Path.key_eq_iff {p : Path} {device measurement : Text} :
    p.nodes.key = (device, measurement) ↔ p.devicePrefix = device ∧ p.terminal = measurement := by
  rw [Nodes.key, Prod.mk.injEq]
  rfl

theorem mem_keys_iff {device measurement : Text} :
    (device, measurement) ∈ keys records ↔
      ∃ entry ∈ records, entry.1.devicePrefix = device ∧ entry.1.terminal = measurement := by
  simp only [keys, List.mem_map, Path.key_eq_iff]

/-! ## Faults -/

/-- Why a path is refused where some keys are taken. -/
def fault? (taken : List (Text × Text)) (path : Path) : Option ArgumentFault :=
  if path.nodes.length < 2 then some (.notIndexable path.fullPath)
  else if path.nodes.key ∈ taken then some (.duplicate path.fullPath)
  else none

/-- The first refusal in a list of records, each of which takes its key. -/
def firstFault? (taken : List (Text × Text)) : List (Path × α) → Option ArgumentFault
  | [] => none
  | (path, _) :: records =>
    (fault? taken path).or (firstFault? (path.nodes.key :: taken) records)

theorem fault?_eq_none_iff :
    fault? taken path = none ↔ 2 ≤ path.nodes.length ∧ path.nodes.key ∉ taken := by
  unfold fault?
  split
  · next short => simp; omega
  · next long =>
    have : 2 ≤ path.nodes.length := by omega
    simp [this]

theorem duplicate_of_fault? (h : fault? taken path = some fault) (deep : 2 ≤ path.nodes.length) :
    fault = .duplicate path.fullPath := by
  rw [fault?, if_neg (by omega)] at h
  split at h
  · exact (Option.some.inj h).symm
  · contradiction

/-- **No record is refused** iff every path has a device and no key is taken or repeated. -/
theorem firstFault?_eq_none_iff :
    firstFault? taken records = none ↔
      (∀ entry ∈ records, 2 ≤ entry.1.nodes.length) ∧ (keys records).Nodup ∧
        ∀ key ∈ keys records, key ∉ taken := by
  induction records generalizing taken with
  | nil => simp [firstFault?, keys]
  | cons entry records ih =>
    obtain ⟨path, record⟩ := entry
    rw [firstFault?, Option.or_eq_none_iff, fault?_eq_none_iff, ih]
    simp only [keys, List.map_cons, List.nodup_cons, List.forall_mem_cons]
    simp only [List.mem_cons, not_or]
    constructor
    · rintro ⟨⟨deep, free⟩, deeper, distinct, fresh⟩
      exact ⟨⟨deep, deeper⟩, ⟨fun h => (fresh _ h).1 rfl, distinct⟩, free,
        fun key hkey => (fresh key hkey).2⟩
    · rintro ⟨⟨deep, deeper⟩, ⟨single, distinct⟩, free, fresh⟩
      exact ⟨⟨deep, free⟩, deeper, distinct, fun key hkey =>
        ⟨fun he => single (he ▸ hkey), fresh key hkey⟩⟩

theorem duplicate_of_firstFault? (h : firstFault? taken records = some fault)
    (deep : ∀ entry ∈ records, 2 ≤ entry.1.nodes.length) :
    ∃ entry ∈ records, fault = .duplicate entry.1.fullPath := by
  induction records generalizing taken with
  | nil => contradiction
  | cons entry records ih =>
    rw [firstFault?] at h
    rcases Option.or_eq_some_iff.1 h with h | ⟨-, h⟩
    · exact ⟨entry, List.mem_cons_self, duplicate_of_fault? h (deep entry List.mem_cons_self)⟩
    · obtain ⟨x, hx, hfault⟩ := ih h fun x hx => deep x (List.mem_cons_of_mem entry hx)
      exact ⟨x, List.mem_cons_of_mem entry hx, hfault⟩

/-! ## Filing -/

namespace Directory

variable {directory : Directory α}

/-- The keys under which a directory has a record. -/
def Takes (directory : Directory α) (taken : List (Text × Text)) : Prop :=
  ∀ device measurement, measurement ∈ directory.recordsOf device ↔ (device, measurement) ∈ taken

theorem takes_empty : Takes (∅ : Directory α) [] := by
  intro device measurement
  simp [recordsOf]

theorem Takes.extended (takes : directory.Takes taken) (path : Path) (record : α) :
    (directory.extended path record).Takes (path.nodes.key :: taken) := by
  intro device measurement
  rw [recordsOf_extended, List.mem_cons, ← takes, Nodes.key, Prod.mk.injEq]
  split
  · next same =>
    subst same
    rw [Std.TreeMap.mem_insert, Std.LawfulEqCmp.compare_eq_iff_eq]
    simp [Path.devicePrefix, Path.terminal, eq_comm]
  · next other =>
    have : ¬ device = path.nodes.device.join := Ne.symm other
    simp [this]

theorem Takes.insert_eq (takes : directory.Takes taken) (path : Path) (record : α) :
    directory.insert path record =
      match fault? taken path with
      | some fault => .error (.invalidArgument fault)
      | none => .ok (directory.extended path record) := by
  have free : path.terminal ∈ directory.recordsOf path.devicePrefix ↔ path.nodes.key ∈ taken :=
    takes _ _
  rw [fault?, Directory.insert, getD_eq_file]
  split
  · rfl
  · simp only [free]
    split <;> rfl

/-- **Filing stops at the first refusal**, and nowhere else. -/
theorem Takes.foldlM_insert (takes : directory.Takes taken) (records : List (Path × α)) :
    match firstFault? taken records with
    | some fault =>
      records.foldlM (fun directory (path, record) => directory.insert path record) directory =
        .error (.invalidArgument fault)
    | none => ∃ filed,
      records.foldlM (fun directory (path, record) => directory.insert path record) directory =
        .ok filed := by
  induction records generalizing directory taken with
  | nil => exact ⟨directory, rfl⟩
  | cons entry records ih =>
    obtain ⟨path, record⟩ := entry
    simp only [List.foldlM_cons, firstFault?, takes.insert_eq path record]
    cases fault? taken path with
    | some fault => rfl
    | none => exact ih (takes.extended path record)

theorem exists_ofRecords (h : firstFault? [] records = none) (nonempty : records ≠ []) :
    ∃ directory, ofRecords records = .ok directory := by
  have filed := takes_empty.foldlM_insert records
  rw [h] at filed
  obtain ⟨directory, hfiled⟩ := filed
  refine ⟨directory, ?_⟩
  rw [ofRecords, hfiled]
  simp [nonempty]

theorem ofRecords_eq_error (h : firstFault? [] records = some fault) :
    ofRecords records = .error (.invalidArgument fault) := by
  have stopped := takes_empty.foldlM_insert records
  rw [h] at stopped
  rw [ofRecords, stopped]
  rfl

theorem invalidArgument_of_ofRecords {error : CatalogError} (h : ofRecords records = .error error) :
    ∃ fault, error = .invalidArgument fault := by
  cases hfault : firstFault? [] records with
  | some fault =>
    rw [ofRecords_eq_error hfault] at h
    exact ⟨fault, (Except.error.inj h).symm⟩
  | none =>
    cases records with
    | nil => exact ⟨.noRecords, (Except.error.inj h).symm⟩
    | cons entry records =>
      obtain ⟨directory, hfiled⟩ := exists_ofRecords hfault (List.cons_ne_nil entry records)
      rw [hfiled] at h
      contradiction

end Directory

/-! ## Building -/

namespace Page

variable {root : Page α} {options : BuildOptions}

theorem nodup_keys_of_build (h : (build records options).result = .ok root) :
    (keys records).Nodup := by
  obtain ⟨_, directory, -, hfiled, -⟩ := build_eq_ok_iff.1 h
  cases hfault : firstFault? [] records with
  | none => exact (firstFault?_eq_none_iff.1 hfault).2.1
  | some fault =>
    rw [Directory.ofRecords_eq_error hfault] at hfiled
    contradiction

theorem build_eq_error_of_fault {degree : Degree}
    (checked : Setting.maxDegree.check options.maxDegree = .ok degree)
    (h : firstFault? [] records = some fault) :
    (build records options).result = .error (.invalidArgument fault) := by
  rw [build, checked, Directory.ofRecords_eq_error h]

/-- **A build of records that have devices** succeeds if no key is repeated, and else fails for a
    repeated key. -/
theorem build_cases {d : Nat} (hd : 2 ≤ d) (hdegree : options.maxDegree = .ofNat d)
    (nonempty : records ≠ []) (deep : ∀ entry ∈ records, 2 ≤ entry.1.nodes.length) :
    ((keys records).Nodup ∧ ∃ root, (build records options).result = .ok root) ∨
      ¬ (keys records).Nodup ∧ ∃ entry ∈ records, (build records options).result =
        .error (.invalidArgument (.duplicate entry.1.fullPath)) := by
  have checked : Setting.maxDegree.check options.maxDegree = .ok ⟨d, hd⟩ :=
    Setting.check_eq_ok_iff.2 hdegree
  cases hfault : firstFault? [] records with
  | none =>
    obtain ⟨directory, hfiled⟩ := Directory.exists_ofRecords hfault nonempty
    exact Or.inl ⟨(firstFault?_eq_none_iff.1 hfault).2.1, _,
      build_eq_ok_iff.2 ⟨_, directory, checked, hfiled, rfl⟩⟩
  | some fault =>
    obtain ⟨entry, he, rfl⟩ := duplicate_of_firstFault? hfault deep
    refine Or.inr ⟨fun distinct => ?_, entry, he, build_eq_error_of_fault checked hfault⟩
    rw [firstFault?_eq_none_iff.2 ⟨deep, distinct, fun _ _ => List.not_mem_nil⟩] at hfault
    contradiction

/-- **What a build asks**: a degree, one record at least, and paths that have devices and differ in
    their keys. -/
theorem exists_build_iff :
    (∃ root, (build records options).result = .ok root) ↔
      (∃ degree, Setting.maxDegree.check options.maxDegree = .ok degree) ∧ records ≠ [] ∧
        (∀ entry ∈ records, 2 ≤ entry.1.nodes.length) ∧ (keys records).Nodup := by
  constructor
  · rintro ⟨root, h⟩
    obtain ⟨degree, directory, checked, hfiled, -⟩ := build_eq_ok_iff.1 h
    exact ⟨⟨degree, checked⟩, (Directory.holds_ofRecords hfiled).2, build_deep h,
      nodup_keys_of_build h⟩
  · rintro ⟨⟨degree, checked⟩, nonempty, deep, distinct⟩
    have unrefused : firstFault? [] records = none :=
      firstFault?_eq_none_iff.2 ⟨deep, distinct, fun _ _ => List.not_mem_nil⟩
    obtain ⟨directory, hfiled⟩ := Directory.exists_ofRecords unrefused nonempty
    exact ⟨_, build_eq_ok_iff.2 ⟨degree, directory, checked, hfiled, rfl⟩⟩

/-- A build fails only for its arguments. -/
theorem build_eq_error {error : CatalogError} (h : (build records options).result = .error error) :
    ∃ fault, error = .invalidArgument fault := by
  unfold build at h
  split at h
  · next refused =>
    cases h
    exact ⟨_, Setting.check_eq_error refused⟩
  · split at h
    · next refused =>
      cases h
      exact Directory.invalidArgument_of_ofRecords refused
    · contradiction

end Page

end SeriesCatalog
