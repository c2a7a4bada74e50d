/-
  Series catalog — the record for which a build is refused.

  Records are filed in turn, so that a build is refused for the first of them that
  cannot be filed, whatever stands behind it.

  * `Offends`: the positions of records whose path has no device, or has the key of
    a record before it;
  * `firstFault?_eq_none_iff_offends`, `firstFault?_of_isLeast`: filing is refused iff
    there is such a position, and for the least of them;
  * `Page.build_first_offence`: hence what a build is refused for, and what it logs.
-/
import Mathlib.Order.Bounds.Defs
import SeriesCatalog.Proofs.Faults

namespace SeriesCatalog

variable {α : Type} {records : List (Path × α)} {taken : List (Text × Text)} {path : Path}
  {record : α} {k : Nat}

/-! ## Offending records -/

/-- The record at position `k` cannot be filed: its path has no device, or has the device and the
    measurement of a record before it. -/
def Offends (records : List (Path × α)) (k : Nat) : Prop :=
  ∃ path record, records[k]? = some (path, record) ∧
    (path.nodes.length < 2 ∨ ∃ j < k, ∃ earlier, records[j]? = some earlier ∧
      earlier.1.devicePrefix = path.devicePrefix ∧ earlier.1.terminal = path.terminal)

/-- What is said of a path that cannot be filed. -/
def Path.offence (path : Path) : ArgumentFault :=
  if path.nodes.length < 2 then .notIndexable path.fullPath else .duplicate path.fullPath

theorem Path.message_offence (path : Path) :
    path.offence.message =
      if path.nodes.length < 2 then
        "Path \"" ++ path.fullPath ++ "\" has no device and cannot be indexed"
      else "Duplicate path \"" ++ path.fullPath ++ "\"" := by
  unfold Path.offence
  split <;> rfl

theorem fault?_eq_offence (h : path.nodes.length < 2 ∨ path.nodes.key ∈ taken) :
    fault? taken path = some path.offence := by
  unfold fault? Path.offence
  split
  · rfl
  · next long => rw [if_pos (h.resolve_left long)]

theorem key_mem_keys_take_iff :
    path.nodes.key ∈ keys (records.take k) ↔ ∃ j < k, ∃ earlier, records[j]? = some earlier ∧
      earlier.1.devicePrefix = path.devicePrefix ∧ earlier.1.terminal = path.terminal := by
  rw [Nodes.key, mem_keys_iff]
  constructor
  · rintro ⟨earlier, mem, same⟩
    obtain ⟨j, hj⟩ := List.mem_iff_getElem?.1 mem
    rw [List.getElem?_take] at hj
    split at hj
    · next before => exact ⟨j, before, earlier, hj, same⟩
    · contradiction
  · rintro ⟨j, before, earlier, hj, same⟩
    refine ⟨earlier, List.mem_iff_getElem?.2 ⟨j, ?_⟩, same⟩
    rw [List.getElem?_take, if_pos before, hj]

theorem offends_iff (here : records[k]? = some (path, record)) :
    Offends records k ↔ path.nodes.length < 2 ∨ path.nodes.key ∈ keys (records.take k) := by
  rw [key_mem_keys_take_iff]
  constructor
  · rintro ⟨path', record', here', offends⟩
    obtain ⟨rfl, -⟩ := Prod.mk.inj (Option.some.inj (here'.symm.trans here))
    exact offends
  · exact fun offends => ⟨path, record, here, offends⟩

theorem fault?_of_offends (here : records[k]? = some (path, record)) (h : Offends records k) :
    fault? (keys (records.take k)).reverse path = some path.offence := by
  refine fault?_eq_offence ?_
  rw [List.mem_reverse]
  exact (offends_iff here).1 h

theorem fault?_of_not_offends (here : records[k]? = some (path, record))
    (h : ¬ Offends records k) : fault? (keys (records.take k)).reverse path = none := by
  rw [offends_iff here, not_or] at h
  rw [fault?_eq_none_iff, List.mem_reverse]
  exact ⟨by omega, h.2⟩

/-! ## The first refusal -/

theorem firstFault?_append (taken : List (Text × Text)) (front back : List (Path × α)) :
    firstFault? taken (front ++ back) =
      (firstFault? taken front).or (firstFault? ((keys front).reverse ++ taken) back) := by
  induction front generalizing taken with
  | nil => rfl
  | cons entry front ih =>
    obtain ⟨path, record⟩ := entry
    simp only [List.cons_append, firstFault?, ih, keys, List.map_cons, List.reverse_cons,
      List.append_assoc, List.nil_append, Option.or_assoc]

theorem firstFault?_eq_none_iff_getElem? :
    firstFault? taken records = none ↔ ∀ k path record, records[k]? = some (path, record) →
      fault? ((keys (records.take k)).reverse ++ taken) path = none := by
  induction records generalizing taken with
  | nil => simp [firstFault?]
  | cons entry records ih =>
    obtain ⟨path, record⟩ := entry
    rw [firstFault?, Option.or_eq_none_iff, ih]
    constructor
    · rintro ⟨first, others⟩ k path' record' here
      cases k with
      | zero =>
        obtain ⟨rfl, -⟩ := Prod.mk.inj (Option.some.inj here)
        exact first
      | succ k => simpa [keys] using others k path' record' here
    · intro all
      refine ⟨all 0 path record rfl, fun k path' record' here => ?_⟩
      simpa [keys] using all (k + 1) path' record' here

/-- **Filing is refused iff a record offends.** -/
theorem firstFault?_eq_none_iff_offends :
    firstFault? [] records = none ↔ ∀ k, ¬ Offends records k := by
  simp only [firstFault?_eq_none_iff_getElem?, List.append_nil]
  constructor
  · rintro free k offends
    obtain ⟨path, record, here, -⟩ := id offends
    have refused := fault?_of_offends here offends
    rw [free k path record here] at refused
    contradiction
  · exact fun free k path record here => fault?_of_not_offends here (free k)

/-- **Filing is refused for the first record that offends.** -/
theorem firstFault?_of_isLeast (least : IsLeast {k | Offends records k} k)
    (here : records[k]? = some (path, record)) : firstFault? [] records = some path.offence := by
  have before : firstFault? [] (records.take k) = none := by
    rw [firstFault?_eq_none_iff_getElem?]
    intro j path' record' hj
    rw [List.getElem?_take] at hj
    split at hj
    · next early =>
      rw [List.append_nil, List.take_take, Nat.min_eq_left early.le]
      exact fault?_of_not_offends hj fun offends => absurd (least.2 offends) (by omega)
    · contradiction
  obtain ⟨within, at_k⟩ := List.getElem?_eq_some_iff.1 here
  have parts : records = records.take k ++ (path, record) :: records.drop (k + 1) := by
    rw [← at_k, List.getElem_cons_drop, List.take_append_drop]
  rw [parts, firstFault?_append, before, Option.none_or, List.append_nil, firstFault?,
    fault?_of_offends here least.1, Option.some_or]

/-! ## Building -/

namespace Page

variable {root : Page α} {options : BuildOptions} {error : CatalogError}

theorem log_build_error (h : (build records options).result = .error error) :
    (build records options).log = [] := by
  revert h
  unfold build
  cases Setting.maxDegree.check options.maxDegree with
  | error refusal => exact fun _ => rfl
  | ok degree =>
    cases Directory.ofRecords records with
    | error refusal => exact fun _ => rfl
    | ok directory => exact (nomatch ·)

theorem log_build_ok (h : (build records options).result = .ok root) :
    ∃ text, (build records options).log = if options.logger.info then [⟨.info, text⟩] else [] := by
  obtain ⟨degree, directory, checked, filed, -⟩ := build_eq_ok_iff.1 h
  refine ⟨buildMessage degree records directory (ofDirectory degree directory), ?_⟩
  rw [build, checked]
  simp only [filed]
  rfl

/-- **A build is refused for its degree, or else for the first record that offends**, or else for
    having no record.  A degree that is no count of two at least is refused whatever the records
    are.  With any other, the least position that offends tells the error, which quotes the path
    that stands there; and if none offends, the build fails only without records.  Nothing is logged
    of a build that fails, and one message of a build that succeeds. -/
theorem build_first_offence (records : List (Path × α)) (options : BuildOptions) :
    ((∀ d, 2 ≤ d → options.maxDegree ≠ .ofNat d) → (build records options).result =
      .error (.invalidArgument (.setting .maxDegree options.maxDegree))) ∧
    (∀ d, 2 ≤ d → options.maxDegree = .ofNat d →
      (∀ k path record, IsLeast {k | Offends records k} k → records[k]? = some (path, record) →
        (build records options).result = .error (.invalidArgument path.offence) ∧
          path.offence.message =
            if path.nodes.length < 2 then
              "Path \"" ++ path.fullPath ++ "\" has no device and cannot be indexed"
            else "Duplicate path \"" ++ path.fullPath ++ "\"") ∧
      ((∀ k, ¬ Offends records k) →
        records = [] ∧ (build records options).result = .error (.invalidArgument .noRecords) ∨
          records ≠ [] ∧ ∃ root, (build records options).result = .ok root)) ∧
    (∀ error, (build records options).result = .error error →
      (build records options).log = []) ∧
    ∀ root, (build records options).result = .ok root → ∃ text,
      (build records options).log = if options.logger.info then [⟨.info, text⟩] else [] := by
  refine ⟨fun bad => ?_, fun d hd hdegree => ?_, fun error => log_build_error,
    fun root => log_build_ok⟩
  · cases checked : Setting.maxDegree.check options.maxDegree with
    | ok degree => exact absurd (Setting.check_eq_ok_iff.1 checked) (bad _ degree.least_le)
    | error refusal => rw [build, checked, Setting.check_eq_error checked]
  · have checked : Setting.maxDegree.check options.maxDegree = .ok ⟨d, hd⟩ :=
      Setting.check_eq_ok_iff.2 hdegree
    refine ⟨fun k path record least here => ?_, fun free => ?_⟩
    · exact ⟨build_eq_error_of_fault checked (firstFault?_of_isLeast least here),
        path.message_offence⟩
    · by_cases none : records = []
      · subst none
        exact Or.inl ⟨rfl, by rw [build, checked]; rfl⟩
      · obtain ⟨directory, filed⟩ :=
          Directory.exists_ofRecords (firstFault?_eq_none_iff_offends.2 free) none
        exact Or.inr ⟨none, _, build_eq_ok_iff.2 ⟨_, directory, checked, filed, rfl⟩⟩

/-- Two paths with one key, of which the second is read from another text, and a path without a
    device behind them. -/
def clashing : List (Path × Nat) :=
  [({ nodes := ["a", "s"] }, 1), ({ nodes := ["a", "s"], written := some "a/s" }, 2),
    ({ nodes := ["x"] }, 3)]

/-- The first of two offences is reported, with the text that its path was read from. -/
theorem build_of_clashing : IsLeast {k | Offends clashing k} 1 ∧
    (build clashing { maxDegree := .ofNat 2, logger := { info := true } }).result =
      .error (.invalidArgument (.duplicate "a/s")) ∧
    (build clashing { maxDegree := .ofNat 2, logger := { info := true } }).log = [] := by
  have least : IsLeast {k | Offends clashing k} 1 := by
    constructor
    · exact ⟨_, _, rfl, Or.inr ⟨0, by decide, _, rfl, by decide, by decide⟩⟩
    · rintro k ⟨path, record, here, offends⟩
      by_contra first
      obtain rfl : k = 0 := by omega
      cases here
      rcases offends with short | ⟨j, before, -⟩
      · exact absurd short (by decide)
      · omega
  obtain ⟨-, refused, quiet, -⟩ :=
    build_first_offence clashing { maxDegree := .ofNat 2, logger := { info := true } }
  have told := ((refused 2 (Nat.le_refl 2) rfl).1 1 _ _ least rfl).1
  exact ⟨least, told, quiet _ told⟩

end Page

end SeriesCatalog
