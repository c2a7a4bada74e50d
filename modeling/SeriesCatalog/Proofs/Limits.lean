/-
  Series catalog — limits on the depth of a lookup.

  Each step of a walk leads to a lower tree, so that every walk comes to an end.  A
  limit on the depth cuts it off before its end, or else plays no part.

  * `Stand.exists_ends`: a walk from a page ends on no more pages than the tree
    below it is high;
  * `Walker.locate_of_run`: what walkers of any limit make of one run;
  * `Walker.locate_cut_off`: the number of pages from which on all limits are
    alike.
-/
import SeriesCatalog.Proofs.Trails

namespace SeriesCatalog

variable {α : Type} {device measurement : Text}

/-! ## Every walk ends -/

namespace Stand

variable {s s' : Stand α} {outcome : Outcome α}

theorem Step.height_lt (h : Step device measurement s s') : s'.page.height < s.page.height := by
  cases h with
  | internal h =>
    have mem := mem_of_floorMatch? h
    exact Page.height_lt_of_mem_children mem.1
  | deviceLeaf h => exact Page.height_lt_of_mem_children (exactMatch?_eq_some h).1

/-- What is gained in depth along a run is lost in height. -/
theorem Reaches.depth_add_height_le (h : Reaches device measurement s s') :
    s'.depth + s'.page.height ≤ s.depth + s.page.height := by
  induction h with
  | refl => exact Nat.le_refl _
  | tail _ step ih =>
    have hdepth := step.depth_eq
    have hheight := step.height_lt
    omega

/-- **Every walk ends**, within the height of the tree that it starts on. -/
theorem exists_ends (device measurement : Text) (s : Stand α) :
    ∃ s' outcome, Reaches device measurement s s' ∧ Ends device measurement s' outcome ∧
      s'.depth < s.depth + s.page.height := by
  rcases exists_reaches s.page.height s with ⟨s', reaches, within, ends⟩ | ⟨s', reaches, deep, -⟩
  · exact ⟨s', _, reaches, ends, within⟩
  · -- no page is left so far down
    have := reaches.depth_add_height_le
    have := s'.page.height_pos
    omega

theorem Ends.ne_tooDeep (h : Ends device measurement s outcome) : outcome ≠ .tooDeep := by
  rintro rfl
  cases h

end Stand

/-! ## Lookups -/

namespace Walker

variable {w w' : Walker} {root : Page α} {q : AnyPath} {outcome : Outcome α}

theorem locate_of_run {s : Stand α} (named : q.devicePrefix ≠ [])
    (reaches : Stand.Reaches q.devicePrefix q.terminal (.start root) s)
    (ends : Stand.Ends q.devicePrefix q.terminal s outcome) (w : Walker) :
    w.locate root q =
      if w.maxDepth.toNat < s.depth + 1 then
        { result := .error (.limitExceeded (.depth q.fullPath w.maxDepth.toNat)) }
      else w.answer q outcome := by
  have walked := reaches.walk_eq ends w.maxDepth.toNat
  rw [locate, Walker.outcome, if_neg (by simpa using named)]
  show w.answer q ((Stand.start root).walk q.devicePrefix q.terminal w.maxDepth.toNat) = _
  rw [walked]
  by_cases short : w.maxDepth.toNat < s.depth + 1
  · rw [if_pos short, if_neg (by simp only [Stand.start]; omega)]
    rfl
  · rw [if_neg short, if_pos (by simp only [Stand.start]; omega)]

/-- On one tree, the lookups of a path by all walkers are one run, cut off or not. -/
theorem exists_run_of_tree (root : Page α) (q : AnyPath) :
    ∃ v ≤ root.height, ∃ outcome : Outcome α, outcome ≠ .tooDeep ∧ ∀ w : Walker,
      w.locate root q =
        if w.maxDepth.toNat < v then
          { result := .error (.limitExceeded (.depth q.fullPath w.maxDepth.toNat)) }
        else w.answer q outcome := by
  by_cases named : q.devicePrefix = []
  · -- without a device no page is visited
    refine ⟨0, Nat.zero_le _, .absent, by simp, fun w => ?_⟩
    rw [if_neg (Nat.not_lt_zero _), locate, Walker.outcome, if_pos (by simpa using named)]
  · obtain ⟨s, outcome, reaches, ends, within⟩ :=
      Stand.exists_ends q.devicePrefix q.terminal (.start root)
    refine ⟨s.depth + 1, ?_, outcome, ends.ne_tooDeep, locate_of_run named reaches ends⟩
    simp only [Stand.start] at within
    omega

theorem answer_eq_limit_iff {fault : LimitFault} :
    (w.answer q outcome).result = .error (.limitExceeded fault) ↔
      outcome = .tooDeep ∧ fault = .depth q.fullPath w.maxDepth.toNat := by
  cases outcome with
  | misplaced => cases hmode : w.mode <;> simp [answer, hmode]
  | _ => simp [answer, eq_comm]

theorem answer_congr (mode : w.mode = w'.mode) (logger : w.logger = w'.logger)
    (finished : outcome ≠ .tooDeep) : w.answer q outcome = w'.answer q outcome := by
  cases outcome with
  | tooDeep => contradiction
  | misplaced => rw [answer, answer, mode, logger]
  | _ => rfl

/-- **A limit on the depth only cuts off.**  For each tree and path there is a number of pages, no
    greater than the height of the tree, such that a walker fails for its limit iff that is less.
    With any other limit, walkers of one mode and with one logger give the same answer and the same
    log.  So no walker fails that may visit as many pages as the tree is high; and one that fails
    names the path and its limit, and logs nothing. -/
theorem locate_cut_off (root : Page α) (q : AnyPath) :
    ∃ v ≤ root.height,
      (∀ w : Walker, (∃ fault, (w.locate root q).result = .error (.limitExceeded fault)) ↔
        w.maxDepth.toNat < v) ∧
      (∀ w w' : Walker, w.mode = w'.mode → w.logger = w'.logger →
        v ≤ w.maxDepth.toNat → v ≤ w'.maxDepth.toNat → w.locate root q = w'.locate root q) ∧
      (∀ w : Walker, root.height ≤ w.maxDepth.toNat →
        ∀ fault, (w.locate root q).result ≠ .error (.limitExceeded fault)) ∧
      ∀ w : Walker, ∀ fault, (w.locate root q).result = .error (.limitExceeded fault) →
        fault = .depth q.fullPath w.maxDepth.toNat ∧ (w.locate root q).log = [] := by
  obtain ⟨v, high, outcome, finished, located⟩ := exists_run_of_tree root q
  have limited : ∀ (w : Walker) fault,
      (w.locate root q).result = .error (.limitExceeded fault) ↔
        w.maxDepth.toNat < v ∧ fault = .depth q.fullPath w.maxDepth.toNat := by
    intro w fault
    rw [located]
    split
    · next short => simp [short, eq_comm]
    · next long => simp [long, answer_eq_limit_iff, finished]
  refine ⟨v, high, fun w => ?_, fun w w' mode logger deep deep' => ?_, fun w deep fault h => ?_,
    fun w fault h => ?_⟩
  · simp [limited]
  · rw [located, located, if_neg (Nat.not_lt.2 deep), if_neg (Nat.not_lt.2 deep')]
    exact answer_congr mode logger finished
  · have := ((limited w fault).1 h).1
    omega
  · obtain ⟨short, rfl⟩ := (limited w fault).1 h
    refine ⟨rfl, ?_⟩
    rw [located, if_pos short]

end Walker

end SeriesCatalog
