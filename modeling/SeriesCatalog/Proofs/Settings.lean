/-
  Series catalog — which numbers settings accept.

  * `Number.toNat?_eq_some_iff`: the numbers that are counts;
  * `Setting.check_eq_ok_iff`: a setting accepts the counts that are large
    enough, and nothing else.
-/
import SeriesCatalog.Error

namespace SeriesCatalog

variable {x : Number} {n : Nat}

theorem Number.toInt?_eq_some_iff {i : Int} : x.toInt? = some i ↔ x = .ofInt i := by
  cases x with
  | nan | infinite => simp [toInt?, ofInt]
  | finite value =>
    rw [toInt?, ofInt, finite.injEq]
    constructor
    · intro h
      split at h
      · next whole =>
        obtain rfl := Option.some.inj h
        exact Rat.ext rfl (eq_of_beq whole)
      · contradiction
    · rintro rfl
      rfl

theorem Number.toNat?_eq_some_iff : x.toNat? = some n ↔ x = .ofNat n := by
  rw [toNat?, Option.bind_eq_some_iff]
  constructor
  · rintro ⟨i, hi, hn⟩
    rw [toInt?_eq_some_iff.1 hi, Int.mem_toNat?.1 hn]
    rfl
  · rintro rfl
    exact ⟨n, toInt?_eq_some_iff.2 rfl, Int.mem_toNat?.2 rfl⟩

theorem Number.ofNat_injective : Function.Injective Number.ofNat := by
  intro m n h
  have hm : (ofNat m).toNat? = some m := toNat?_eq_some_iff.2 rfl
  have hn : (ofNat n).toNat? = some n := toNat?_eq_some_iff.2 rfl
  rw [h, hn] at hm
  exact (Option.some.inj hm).symm

/-- **A setting accepts the counts that are large enough.** -/
theorem Setting.check_eq_ok_iff {setting : Setting} {value : setting.Value} :
    setting.check x = .ok value ↔ x = .ofNat value.toNat := by
  rw [check, ← Number.toNat?_eq_some_iff, value?]
  cases x.toNat? with
  | none => simp
  | some n =>
    obtain ⟨m, hm⟩ := value
    by_cases large : setting.least ≤ n
    · simp [large]
    · simp only [large, dite_false]
      refine ⟨(nomatch ·), fun h => absurd ?_ large⟩
      rw [Option.some.inj h]
      exact hm

theorem Setting.check_standard (setting : Setting) :
    setting.check (.ofNat setting.standard.toNat) = .ok setting.standard :=
  check_eq_ok_iff.2 rfl

theorem Setting.check_eq_error {setting : Setting} {error : CatalogError}
    (h : setting.check x = .error error) : error = .invalidArgument (.setting setting x) := by
  unfold check at h
  split at h
  · contradiction
  · exact (Except.error.inj h).symm

end SeriesCatalog
