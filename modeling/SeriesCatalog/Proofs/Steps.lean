/-
  Series catalog — a walk, step by step.

  A walk over a tree of any shape is a run of a small machine.  It stands on a
  page, which it takes for a page of one tier, and goes on to the page below the
  entry that it finds there; it ends on a page of the other tier, on a page
  without an entry to follow, and at a record.

  * `Stand.Step`, `Stand.Ends`: one step, and the end of a walk that can take
    none; at every stand one of the two is the case (`Stand.step_or_ends`);
  * `Stand.walk_eq_iff`: a walk ends as its run does, or where its budget is
    used up.
-/
import Mathlib.Logic.Relation
import SeriesCatalog.Proofs.Ordered

namespace SeriesCatalog

variable {α : Type}

/-- Where a walk stands: on a page that is `depth` pages below the root, in search of a key of
    `tier`. -/
structure Stand (α : Type) where
  tier : Tier
  depth : Nat
  page : Page α

namespace Stand

variable {device measurement : Text} {s s' : Stand α} {outcome : Outcome α} {budget : Nat}

/-- A walk starts at the root, in the device tier. -/
def start (root : Page α) : Stand α := ⟨.device, 0, root⟩

/-- The outcome of a walk from a stand. -/
def walk (device measurement : Text) (budget : Nat) (s : Stand α) : Outcome α :=
  SeriesCatalog.walk device measurement s.tier s.depth budget s.page

/-! ## Steps and ends -/

/-- One step of a walk. -/
inductive Step (device measurement : Text) : Stand α → Stand α → Prop
  | internal {tier depth entries} {e : ChildEntry (Page α)} :
      floorMatch? ChildEntry.name (Page.keyOf device measurement tier) entries = some e →
      Step device measurement ⟨tier, depth, .internal tier entries⟩ ⟨tier, depth + 1, e.child⟩
  /-- Below a device leaf the other tier begins. -/
  | deviceLeaf {depth entries} {e : ChildEntry (Page α)} :
      exactMatch? ChildEntry.name device entries = some e →
      Step device measurement ⟨.device, depth, .deviceLeaf entries⟩
        ⟨.measurement, depth + 1, e.child⟩

/-- How a walk ends at a stand from which no step can be taken. -/
inductive Ends (device measurement : Text) : Stand α → Outcome α → Prop
  | misplaced {tier depth} {page : Page α} : page.kind.tier ≠ tier →
      Ends device measurement ⟨tier, depth, page⟩ (.misplaced tier depth page.kind)
  | noFloor {tier depth} {entries : List (ChildEntry (Page α))} :
      floorMatch? ChildEntry.name (Page.keyOf device measurement tier) entries = none →
      Ends device measurement ⟨tier, depth, .internal tier entries⟩ .absent
  | noDevice {depth} {entries : List (ChildEntry (Page α))} :
      exactMatch? ChildEntry.name device entries = none →
      Ends device measurement ⟨.device, depth, .deviceLeaf entries⟩ .absent
  | noRecord {depth} {entries : List (RecordEntry α)} :
      exactMatch? RecordEntry.name measurement entries = none →
      Ends device measurement ⟨.measurement, depth, .measurementLeaf entries⟩ .absent
  | found {depth} {entries : List (RecordEntry α)} {e : RecordEntry α} :
      exactMatch? RecordEntry.name measurement entries = some e →
      Ends device measurement ⟨.measurement, depth, .measurementLeaf entries⟩ (.found e.record)

/-- **Progress**: a walk takes a step or ends. -/
theorem step_or_ends (device measurement : Text) (s : Stand α) :
    (∃ s', Step device measurement s s') ∨ ∃ outcome, Ends device measurement s outcome := by
  obtain ⟨tier, depth, page⟩ := s
  by_cases belongs : page.kind.tier = tier
  case neg => exact Or.inr ⟨_, .misplaced belongs⟩
  subst belongs
  cases page with
  | internal tier entries =>
    cases h : floorMatch? ChildEntry.name (Page.keyOf device measurement tier) entries with
    | none => exact Or.inr ⟨_, .noFloor h⟩
    | some e => exact Or.inl ⟨_, .internal h⟩
  | deviceLeaf entries =>
    cases h : exactMatch? ChildEntry.name device entries with
    | none => exact Or.inr ⟨_, .noDevice h⟩
    | some e => exact Or.inl ⟨_, .deviceLeaf h⟩
  | measurementLeaf entries =>
    cases h : exactMatch? RecordEntry.name measurement entries with
    | none => exact Or.inr ⟨_, .noRecord h⟩
    | some e => exact Or.inr ⟨_, .found h⟩

theorem Step.depth_eq (h : Step device measurement s s') : s'.depth = s.depth + 1 := by
  cases h <;> rfl

theorem Step.walk_succ (h : Step device measurement s s') :
    s.walk device measurement (budget + 1) = s'.walk device measurement budget := by
  cases h with
  | internal h =>
    rw [walk, Page.walk_succ_internal, h]
    rfl
  | deviceLeaf h =>
    rw [walk, Page.walk_succ_deviceLeaf, h]
    rfl

theorem Ends.walk_succ (h : Ends device measurement s outcome) :
    s.walk device measurement (budget + 1) = outcome := by
  cases h with
  | misplaced astray => exact if_pos astray
  | noFloor h => rw [walk, Page.walk_succ_internal, h]
  | noDevice h => rw [walk, Page.walk_succ_deviceLeaf, h]
  | noRecord h => rw [walk, Page.walk_succ_measurementLeaf, h]
  | found h => rw [walk, Page.walk_succ_measurementLeaf, h]

/-! ## Runs -/

/-- A walk comes from one stand to another. -/
def Reaches (device measurement : Text) : Stand α → Stand α → Prop :=
  Relation.ReflTransGen (Step device measurement)

/-- Along a run the depth grows by the pages that are used up. -/
theorem Reaches.walk_add (h : Reaches device measurement s s') :
    ∃ used, s'.depth = s.depth + used ∧ ∀ budget,
      s.walk device measurement (budget + used) = s'.walk device measurement budget := by
  induction h using Relation.ReflTransGen.head_induction_on with
  | refl => exact ⟨0, rfl, fun _ => rfl⟩
  | head step _ ih =>
    obtain ⟨used, hdepth, hwalk⟩ := ih
    refine ⟨used + 1, by rw [hdepth, step.depth_eq]; omega, fun budget => ?_⟩
    rw [← Nat.add_assoc, step.walk_succ, hwalk]

/-- **A run that ends tells the walk on every budget**: it has the outcome of the run, or it is cut
    off before. -/
theorem Reaches.walk_eq (h : Reaches device measurement s s')
    (ends : Ends device measurement s' outcome) (budget : Nat) :
    s.walk device measurement budget =
      if s'.depth < s.depth + budget then outcome else .tooDeep := by
  -- along the run, each step of which takes one page from the budget
  induction h using Relation.ReflTransGen.head_induction_on generalizing budget with
  | refl =>
    cases budget with
    | zero => simp [walk, SeriesCatalog.walk]
    | succ budget => simp [ends.walk_succ]
  | @head s next step rest ih =>
    have hdepth := step.depth_eq
    cases budget with
    | zero =>
      obtain ⟨used, hused, -⟩ := Reaches.walk_add rest
      rw [if_neg (by omega)]
      rfl
    | succ budget =>
      rw [step.walk_succ, ih budget, hdepth, Nat.add_right_comm, Nat.add_assoc]

/-- **Where a walk leads**: to an end, or to a stand at which its budget is used up. -/
theorem exists_reaches (budget : Nat) (s : Stand α) :
    (∃ s', Reaches device measurement s s' ∧ s'.depth < s.depth + budget ∧
      Ends device measurement s' (s.walk device measurement budget)) ∨
    ∃ s', Reaches device measurement s s' ∧ s'.depth = s.depth + budget ∧
      s.walk device measurement budget = .tooDeep := by
  -- on the budget of the walk, of which a step leaves one page less
  induction budget generalizing s with
  | zero => exact Or.inr ⟨s, .refl, rfl, rfl⟩
  | succ budget ih =>
    rcases step_or_ends device measurement s with ⟨next, step⟩ | ⟨outcome, ends⟩
    · rw [step.walk_succ]
      have hdepth := step.depth_eq
      rcases ih next with ⟨s', hs', below, ends⟩ | ⟨s', hs', below, deep⟩
      · exact Or.inl ⟨s', .head step hs', by omega, ends⟩
      · exact Or.inr ⟨s', .head step hs', by omega, deep⟩
    · rw [ends.walk_succ]
      exact Or.inl ⟨s, .refl, by omega, ends⟩

/-- **A walk has the outcome of its run**, unless the run is longer than its budget. -/
theorem walk_eq_iff :
    s.walk device measurement budget = outcome ↔
      (∃ s', Reaches device measurement s s' ∧ s'.depth < s.depth + budget ∧
        Ends device measurement s' outcome) ∨
      outcome = .tooDeep ∧
        ∃ s', Reaches device measurement s s' ∧ s'.depth = s.depth + budget := by
  constructor
  · rintro rfl
    exact (exists_reaches budget s).imp id fun ⟨s', hs', below, deep⟩ => ⟨deep, s', hs', below⟩
  · rintro (⟨s', hs', below, ends⟩ | ⟨rfl, s', hs', below⟩)
    · obtain ⟨used, hdepth, hwalk⟩ := hs'.walk_add
      obtain ⟨rest, rfl⟩ : ∃ rest, budget = rest + 1 + used := ⟨budget - 1 - used, by omega⟩
      rw [hwalk, ends.walk_succ]
    · obtain ⟨used, hdepth, hwalk⟩ := hs'.walk_add
      obtain rfl : budget = 0 + used := by omega
      rw [hwalk]
      rfl

end Stand

end SeriesCatalog
