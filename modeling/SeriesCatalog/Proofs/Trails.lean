/-
  Series catalog — lookups on any tree.

  A tree that was put together by hand may mix the kinds of its pages and have
  entries in any order, repeated or missing.

  * `Page.Trail`: a chain of pages down to a record, with an entry on each page
    that a search for the record may follow;
  * `Stand.Reaches.trail_of_device`: a walk that finds a record came down such a
    chain, first through pages of the device tier and then through pages of the
    measurement tier;
  * `Walker.Strays`: a lookup comes to a page of the wrong tier;
  * `Walker.locate_any_tree`: what a lookup may answer, and when it fails.
-/
import SeriesCatalog.Proofs.Layout
import SeriesCatalog.Proofs.Steps

namespace SeriesCatalog

variable {α : Type} {device measurement : Text} {record : α}

/-! ## Trails -/

/-- A chain of pages from a page down to a record, given by the kinds of the pages.  On each page
    an entry is followed: one that is named by the device or the measurement on a leaf, and one that
    is not above the key of the tier on an internal page. -/
inductive Page.Trail (device measurement : Text) (record : α) : Page α → List PageKind → Prop
  | internal {tier kinds entries} {e : ChildEntry (Page α)} : e ∈ entries →
      e.name ≤ keyOf device measurement tier → Trail device measurement record e.child kinds →
      Trail device measurement record (.internal tier entries) (.internal tier :: kinds)
  | deviceLeaf {kinds entries} {e : ChildEntry (Page α)} : e ∈ entries → e.name = device →
      Trail device measurement record e.child kinds →
      Trail device measurement record (.deviceLeaf entries) (.leaf .device :: kinds)
  | measurementLeaf {entries} {e : RecordEntry α} : e ∈ entries → e.name = measurement →
      e.record = record →
      Trail device measurement record (.measurementLeaf entries) [.leaf .measurement]

namespace Page.Trail

variable {root : Page α} {kinds : List PageKind}

/-- A trail is a chain that ends at a record. -/
theorem descent (h : Trail device measurement record root kinds) : Descent root kinds := by
  induction h with
  | internal he _ _ ih => exact .step he ih
  | deviceLeaf he _ _ ih => exact .step he ih
  | measurementLeaf => exact .stop rfl

theorem exists_device {n m : Nat} (h : Trail device measurement record root (chainKinds n m)) :
    ∃ e ∈ root.deviceEntries, e.name = device ∧ Trail device measurement record e.child
      (List.replicate m (.internal .measurement) ++ [.leaf .measurement]) := by
  induction n generalizing root with
  | zero =>
    cases h with
    | deviceLeaf he name below => exact ⟨_, by simpa using he, name, below⟩
  | succ n ih =>
    cases h with
    | internal he _ below =>
      obtain ⟨e, mem, name, trail⟩ := ih below
      exact ⟨e, by simpa using ⟨_, he, mem⟩, name, trail⟩

end Page.Trail

namespace Stand

open Page

variable {s s' : Stand α} {kinds : List PageKind}

theorem Step.trail (h : Step device measurement s s')
    (below : Trail device measurement record s'.page kinds) :
    Trail device measurement record s.page (s.page.kind :: kinds) := by
  cases h with
  | internal h =>
    obtain ⟨mem, low⟩ := mem_of_floorMatch? h
    exact .internal mem low below
  | deviceLeaf h =>
    obtain ⟨mem, name⟩ := exactMatch?_eq_some h
    exact .deviceLeaf mem name below

theorem Ends.trail (h : Ends device measurement s (.found record)) :
    s.tier = .measurement ∧ Trail device measurement record s.page [.leaf .measurement] := by
  cases h with
  | found h =>
    obtain ⟨mem, name⟩ := exactMatch?_eq_some h
    exact ⟨rfl, .measurementLeaf mem name rfl⟩

theorem Reaches.trail_of_measurement (h : Reaches device measurement s s')
    (ends : Ends device measurement s' (.found record)) (tier : s.tier = .measurement) :
    ∃ m, s'.depth = s.depth + m ∧ Trail device measurement record s.page
      (List.replicate m (.internal .measurement) ++ [.leaf .measurement]) := by
  induction h using Relation.ReflTransGen.head_induction_on with
  | refl => exact ⟨0, rfl, ends.trail.2⟩
  | head step _ ih =>
    have hnext := step.depth_eq
    cases step with
    | internal h =>
      cases tier
      obtain ⟨m, hdepth, trail⟩ := ih rfl
      exact ⟨m + 1, by omega, (Step.internal h).trail trail⟩
    | deviceLeaf h => contradiction

/-- **From the device tier**, a walk to a record passes internal pages of the tier, a device leaf
    and then the measurement tier. -/
theorem Reaches.trail_of_device (h : Reaches device measurement s s')
    (ends : Ends device measurement s' (.found record)) (tier : s.tier = .device) :
    ∃ n m, s'.depth = s.depth + n + m + 1 ∧
      Trail device measurement record s.page (chainKinds n m) := by
  -- from the end of the run upwards, as the kinds of a trail are listed from its top page
  induction h using Relation.ReflTransGen.head_induction_on with
  | refl => exact absurd (tier.symm.trans ends.trail.1) (by decide)
  | head step rest ih =>
    have hnext := step.depth_eq
    cases step with
    | internal h =>
      cases tier
      obtain ⟨n, m, hdepth, trail⟩ := ih rfl
      exact ⟨n + 1, m, by omega, (Step.internal h).trail trail⟩
    | deviceLeaf h =>
      obtain ⟨m, hdepth, trail⟩ := Reaches.trail_of_measurement rest ends rfl
      exact ⟨0, m, by omega, (Step.deviceLeaf h).trail trail⟩

end Stand

/-! ## Lookups -/

namespace Walker

variable {w : Walker} {root : Page α} {q : AnyPath} {tier : Tier} {depth : Nat} {page : Page α}

/-- A lookup comes to a page of the wrong tier, within the depth to which it is limited. -/
structure Strays (w : Walker) (root : Page α) (q : AnyPath) (tier : Tier) (depth : Nat)
    (page : Page α) : Prop where
  device : q.devicePrefix ≠ []
  reaches : Stand.Reaches q.devicePrefix q.terminal (.start root) ⟨tier, depth, page⟩
  within : depth < w.maxDepth.toNat
  astray : page.kind.tier ≠ tier

theorem outcome_eq_iff {outcome : Outcome α} (present : outcome ≠ .absent)
    (finished : outcome ≠ .tooDeep) :
    w.outcome root q = outcome ↔ q.devicePrefix ≠ [] ∧ ∃ s,
      Stand.Reaches q.devicePrefix q.terminal (.start root) s ∧ s.depth < w.maxDepth.toNat ∧
        Stand.Ends q.devicePrefix q.terminal s outcome := by
  by_cases device : q.devicePrefix = []
  · rw [Walker.outcome, if_pos (by simpa using device)]
    exact ⟨fun h => absurd h.symm present, fun h => absurd device h.1⟩
  · rw [Walker.outcome, if_neg (by simpa using device), and_iff_right device]
    refine (Stand.walk_eq_iff (s := .start root)).trans ?_
    simp only [Stand.start, Nat.zero_add, finished, false_and, or_false]

theorem trail_of_found (h : w.outcome root q = .found record) :
    q.devicePrefix ≠ [] ∧ ∃ n m, n + m + 2 ≤ w.maxDepth.toNat ∧
      Page.Trail q.devicePrefix q.terminal record root (Page.chainKinds n m) := by
  obtain ⟨device, s, hs, within, ends⟩ := (outcome_eq_iff (by simp) (by simp)).1 h
  obtain ⟨n, m, hdepth, trail⟩ := hs.trail_of_device ends rfl
  exact ⟨device, n, m, by simp only [Stand.start] at hdepth; omega, trail⟩

/-- **A misplaced page is one to which the lookup strayed**, and there is no other cause. -/
theorem outcome_eq_misplaced_iff {kind : PageKind} :
    w.outcome root q = .misplaced tier depth kind ↔
      ∃ page, Strays w root q tier depth page ∧ page.kind = kind := by
  refine (outcome_eq_iff (by simp) (by simp)).trans ?_
  constructor
  · rintro ⟨device, s, hs, within, ends⟩
    cases ends with
    | misplaced astray => exact ⟨_, ⟨device, hs, within, astray⟩, rfl⟩
  · rintro ⟨page, ⟨device, reaches, within, astray⟩, rfl⟩
    exact ⟨device, _, reaches, within, .misplaced astray⟩

theorem exists_misplaced_iff {P : Tier → Nat → PageKind → Prop} :
    (∃ tier depth kind, w.outcome root q = .misplaced tier depth kind ∧ P tier depth kind) ↔
      ∃ tier depth page, Strays w root q tier depth page ∧ P tier depth page.kind := by
  simp only [outcome_eq_misplaced_iff]
  constructor
  · rintro ⟨tier, depth, _, ⟨page, strays, rfl⟩, h⟩
    exact ⟨tier, depth, page, strays, h⟩
  · rintro ⟨tier, depth, page, strays, h⟩
    exact ⟨tier, depth, page.kind, ⟨page, strays, rfl⟩, h⟩

/-! ## Answers -/

section

variable {outcome : Outcome α} {fault : IndexFault} {error : CatalogError} {entry : LogEntry}

theorem answer_eq_some_iff :
    (w.answer q outcome).result = .ok (some record) ↔ outcome = .found record := by
  cases outcome with
  | misplaced => cases hmode : w.mode <;> simp [answer, hmode]
  | _ => simp [answer]

theorem answer_eq_corrupt_iff :
    (w.answer q outcome).result = .error (.corruptIndex fault) ↔
      w.mode = .strict ∧ ∃ tier depth kind, outcome = .misplaced tier depth kind ∧
        fault = .misplaced tier depth q.fullPath kind := by
  cases outcome with
  | misplaced => cases hmode : w.mode <;> simp [answer, hmode, eq_comm]
  | _ => simp [answer]

theorem answer_eq_error (h : (w.answer q outcome).result = .error error) :
    error = .limitExceeded (.depth q.fullPath w.maxDepth.toNat) ∨
      ∃ fault, error = .corruptIndex fault := by
  cases outcome with
  | misplaced =>
    cases hmode : w.mode with
    | strict =>
      rw [answer, hmode] at h
      exact Or.inr ⟨_, (Except.error.inj h).symm⟩
    | lenient => simp [answer, hmode] at h
  | tooDeep => exact Or.inl (Except.error.inj h).symm
  | _ => simp [answer] at h

theorem mem_log_answer_iff :
    entry ∈ (w.answer q outcome).log ↔
      w.mode = .lenient ∧ w.logger.hears .warn ∧ ∃ tier depth kind,
        outcome = .misplaced tier depth kind ∧ entry = ⟨.warn, "[index] " ++
          (IndexFault.misplaced tier depth q.fullPath kind).message⟩ := by
  cases outcome with
  | misplaced => cases hmode : w.mode <;> simp [answer, hmode, Logger.mem_entry_iff]
  | _ => simp [answer]

end

/-- **What a lookup may answer**, on any tree.  A record is found only at the end of a trail that
    leads through the device tier and then through the measurement tier, on no more pages than the
    walker may visit.  A lookup fails at a page of the wrong tier or for its depth, and the
    page is reported, or logged, iff the walk comes to it. -/
theorem locate_any_tree (w : Walker) (root : Page α) (q : AnyPath) :
    (∀ record, (w.locate root q).result = .ok (some record) →
      q.devicePrefix ≠ [] ∧ ∃ n m, n + m + 2 ≤ w.maxDepth.toNat ∧
        Page.Trail q.devicePrefix q.terminal record root (Page.chainKinds n m)) ∧
    (∀ error, (w.locate root q).result = .error error →
      error = .limitExceeded (.depth q.fullPath w.maxDepth.toNat) ∨
        ∃ fault, error = .corruptIndex fault) ∧
    (∀ fault, (w.locate root q).result = .error (.corruptIndex fault) ↔
      w.mode = .strict ∧ ∃ tier depth page, Strays w root q tier depth page ∧
        fault = .misplaced tier depth q.fullPath page.kind) ∧
    ∀ entry, entry ∈ (w.locate root q).log ↔
      w.mode = .lenient ∧ w.logger.hears .warn ∧ ∃ tier depth page,
        Strays w root q tier depth page ∧ entry = ⟨.warn, "[index] " ++
          (IndexFault.misplaced tier depth q.fullPath page.kind).message⟩ := by
  refine ⟨fun record h => ?_, fun error h => ?_, fun fault => ?_, fun entry => ?_⟩
  · exact trail_of_found (answer_eq_some_iff.1 h)
  · exact answer_eq_error h
  · rw [locate, answer_eq_corrupt_iff, exists_misplaced_iff]
  · rw [locate, mem_log_answer_iff, exists_misplaced_iff]

/-- The entries of the root are out of order, and two of them lead to pages of the wrong tier. -/
def disordered : Page Nat :=
  .internal .device [
    { name := "z", child := .measurementLeaf [] }, { name := "a", child := .measurementLeaf [] },
    { name := "b", child := .deviceLeaf [
      { name := "d", child := .measurementLeaf [{ name := "s", record := 1 }] }] }]

/-- A record is found in a tree that is out of order. -/
theorem locate_disordered :
    (locate {} disordered (.series { device := "d", measurement := "s" })).result = .ok (some 1) ∧
      ∃ n m, n + m + 2 ≤ 64 ∧ Page.Trail "d" "s" 1 disordered (Page.chainKinds n m) := by
  have located :
      (locate {} disordered (.series { device := "d", measurement := "s" })).result =
        .ok (some 1) := by cbv
  exact ⟨located, ((locate_any_tree {} disordered _).1 1 located).2⟩

end Walker

end SeriesCatalog
