/-
  Series catalog — strict and lenient lookups.

  Whether a walker is strict tells only how it reports a page of the wrong tier.
  On one tree, a strict and a lenient walker make the same walk.

  * `Walker.softened`: what a lenient walker makes of the answer of a strict one;
  * `Walker.locate_lenient`: a lenient lookup is a strict one, softened;
  * `Walker.strict_iff_lenient`: hence each answer is known from the other.
-/
import SeriesCatalog.Proofs.Trails

namespace SeriesCatalog.Walker

variable {α : Type} {strict lenient w w' : Walker} {root : Page α} {q : AnyPath}

/-! ## One walk -/

theorem outcome_congr (h : w.maxDepth = w'.maxDepth) : w.outcome root q = w'.outcome root q := by
  rw [outcome, outcome, h]

theorem log_locate_strict (hs : strict.mode = .strict) : (strict.locate root q).log = [] := by
  rw [locate]
  cases strict.outcome root q with
  | misplaced tier depth kind => rw [answer, hs]
  | found | absent | tooDeep => rfl

/-! ## Softened answers -/

/-- An answer in which a corrupt index is no error: nothing is found, and the fault is logged. -/
def softened (strictly : Logged (Option α)) : Logged (Option α) :=
  match strictly.result with
  | .error (.corruptIndex fault) =>
    { result := .ok none, log := strictly.log ++ [⟨.warn, "[index] " ++ fault.message⟩] }
  | _ => strictly

/-- **A lenient lookup is a strict one, softened**, if the lenient walker has a hook for
    warnings. -/
theorem locate_lenient (hs : strict.mode = .strict) (hl : lenient.mode = .lenient)
    (hears : lenient.logger.hears .warn) (depth : strict.maxDepth = lenient.maxDepth) :
    lenient.locate root q = softened (strict.locate root q) := by
  rw [locate, locate, outcome_congr depth]
  cases lenient.outcome root q with
  | misplaced tier depth kind => simp [answer, hs, hl, softened, Logger.entry, hears]
  | found | absent => rfl
  | tooDeep => simp [answer, softened, depth]

section

variable {strictly : Logged (Option α)} (quiet : strictly.log = [])
include quiet

theorem softened_eq_ok_iff {found : Option α} :
    softened strictly = { result := .ok found, log := [] } ↔ strictly.result = .ok found := by
  obtain ⟨result, log⟩ := strictly
  subst quiet
  cases result with
  | ok => simp [softened]
  | error error => cases error <;> simp [softened]

theorem softened_eq_logged_iff {message : Text} :
    softened strictly = { result := .ok none, log := [⟨.warn, "[index] " ++ message⟩] } ↔
      ∃ fault, strictly.result = .error (.corruptIndex fault) ∧
        (CatalogError.corruptIndex fault).message = message := by
  obtain ⟨result, log⟩ := strictly
  subst quiet
  cases result with
  | ok => simp [softened]
  | error error => cases error <;> simp [softened, CatalogError.message]

theorem softened_eq_of_limit {fault : LimitFault}
    (h : strictly.result = .error (.limitExceeded fault)) :
    softened strictly = { result := .error (.limitExceeded fault), log := [] } := by
  obtain ⟨result, log⟩ := strictly
  subst quiet h
  rfl

end

theorem result_softened_eq_limit_iff {strictly : Logged (Option α)} {fault : LimitFault} :
    (softened strictly).result = .error (.limitExceeded fault) ↔
      strictly.result = .error (.limitExceeded fault) := by
  obtain ⟨result, log⟩ := strictly
  cases result with
  | ok => rfl
  | error error => cases error <;> simp [softened]

/-! ## The two modes -/

/-- **Strict and lenient walkers make the same walk** and differ in how they report a page of the
    wrong tier.  A strict lookup answers iff a lenient one gives the same answer and logs nothing.
    It fails for a corrupt index iff the lenient one finds nothing and logs one warning, with the
    message of the failure.  Both fail alike for the depth, and then nothing is logged; a strict
    lookup never logs. -/
theorem strict_iff_lenient (hs : strict.mode = .strict) (hl : lenient.mode = .lenient)
    (hears : lenient.logger.hears .warn) (depth : strict.maxDepth = lenient.maxDepth)
    (root : Page α) (q : AnyPath) :
    (∀ found, (strict.locate root q).result = .ok found ↔
      lenient.locate root q = { result := .ok found, log := [] }) ∧
    (∀ message, (∃ fault, (strict.locate root q).result = .error (.corruptIndex fault) ∧
        (CatalogError.corruptIndex fault).message = message) ↔
      lenient.locate root q =
        { result := .ok none, log := [⟨.warn, "[index] " ++ message⟩] }) ∧
    (∀ fault, ((strict.locate root q).result = .error (.limitExceeded fault) ↔
        (lenient.locate root q).result = .error (.limitExceeded fault)) ∧
      ((lenient.locate root q).result = .error (.limitExceeded fault) →
        (lenient.locate root q).log = [])) ∧
    (strict.locate root q).log = [] := by
  have quiet : (strict.locate root q).log = [] := log_locate_strict hs
  rw [locate_lenient hs hl hears depth]
  refine ⟨fun found => (softened_eq_ok_iff quiet).symm,
    fun message => (softened_eq_logged_iff quiet).symm, fun fault => ⟨?_, ?_⟩, quiet⟩
  · exact result_softened_eq_limit_iff.symm
  · intro h
    rw [softened_eq_of_limit quiet (result_softened_eq_limit_iff.1 h)]

/-- A key for which a lookup in `disordered` strays to a page of the measurement tier. -/
def strayKey : AnyPath := .series { device := "a", measurement := "s" }

/-- The default walker fails at the page; a lenient one logs what the failure says. -/
theorem lenient_in_disordered : ∃ fault,
    (locate {} disordered strayKey).result = .error (.corruptIndex fault) ∧
      locate { mode := .lenient, logger := { warn := true } } disordered strayKey =
        { result := .ok none
          log := [⟨.warn, "[index] " ++ (CatalogError.corruptIndex fault).message⟩] } := by
  have failed : (locate {} disordered strayKey).result =
      .error (.corruptIndex (.misplaced .device 1 "a.s" (.leaf .measurement))) := by cbv
  obtain ⟨-, corrupt, -, -⟩ := @strict_iff_lenient Nat {}
    { mode := .lenient, logger := { warn := true } } rfl rfl rfl rfl disordered strayKey
  exact ⟨_, failed, (corrupt _).1 ⟨_, failed, rfl⟩⟩

end SeriesCatalog.Walker
