/-
  Series catalog — searches over positions.

  A search in place reads one position in each round.  It never reads outside the
  list, and answers as the search that halves the list does.

  * `Bisection.round_of_frames`: one round answers as the halved list does, or leaves
    a window that frames one of its halves;
  * `Bisection.Answers`: a search ends with an answer, soon, and reads no position
    outside the list;
  * `Bisection.searches_linear`: the two searches of a page do so on any list, and on
    a list in order of names they find what a search through all entries finds.
-/
import Mathlib.Algebra.Group.Nat.Defs
import Mathlib.Algebra.Ring.Int.Defs
import SeriesCatalog.Proofs.Search

namespace SeriesCatalog

variable {ε : Type} {entries : List ε}

namespace Bisection

variable {half : Int → Int} {judge : ε → Verdict} {answer : List ε → Option ε → Option ε}
  {part : List ε} {w : Window ε}

/-- A search in place ends with an answer.  It reads no position outside the list, and is done when
    the entries cannot be halved once more. -/
structure Answers (half : Int → Int) (judge : ε → Verdict) (entries : List ε) (answer : Option ε) :
    Prop where
  within : ∀ rounds position,
    run half judge entries rounds (.whole entries) ≠ .outside position
  ends : ∀ rounds, entries.length < 2 ^ rounds →
    run half judge entries (rounds + 1) (.whole entries) = .answered answer

/-! ## Halves -/

/-- Halves that are right for the sums of two positions of a list. -/
def Halves (half : Int → Int) (length : Nat) : Prop :=
  ∀ sum : Int, 0 ≤ sum → sum < 2 * length → half sum = sum / 2

theorem halves_wordHalf {length : Nat} (short : length ≤ 2 ^ 31) : Halves wordHalf length := by
  intro sum nonneg below
  simp only [wordHalf, UInt32.size]
  omega

/-- In a longer list there are positions of which the sum is lost. -/
example : wordHalf (2 ^ 31 + 2 ^ 31) = 0 := by decide

/-! ## Windows and halved lists -/

/-- A function of a part of a list, and the best entry before it, that answers by the verdicts on
    the lower one of its middle entries. -/
structure Follows (judge : ε → Verdict) (answer : List ε → Option ε → Option ε) : Prop where
  nil : ∀ best, answer [] best = best
  cons : ∀ {part middle above} (best), upperHalf part = middle :: above →
    answer part best = match judge middle with
      | .hit => some middle
      | .behind keep => answer above (if keep then some middle else best)
      | .before => answer (lowerHalf part) best

theorem follows_exact (name : ε → Text) (key : Text) :
    Follows (exact name key) fun part best => (exactMatch? name key part).or best where
  nil best := by
    rw [exactMatch?.eq_def]
    split
    · rfl
    · next halves => simp [upperHalf] at halves
  cons {part middle above} best halves := by
    rw [exactMatch?.eq_def]
    split
    · next none =>
      rw [halves] at none
      contradiction
    · next middle' above' halves' =>
      rw [halves] at halves'
      cases halves'
      unfold exact
      cases compare (name middle) key <;> rfl

theorem follows_floor (name : ε → Text) (key : Text) :
    Follows (floor name key) fun part best => floorMatch? name key part best where
  nil best := by
    rw [floorMatch?.eq_def]
    split
    · rfl
    · next halves => simp [upperHalf] at halves
  cons {part middle above} best halves := by
    rw [floorMatch?.eq_def]
    split
    · next none =>
      rw [halves] at none
      contradiction
    · next middle' above' halves' =>
      rw [halves] at halves'
      cases halves'
      unfold floor
      split <;> rfl

/-- The positions of a window are those of a part of the list. -/
def Window.Frames (w : Window ε) (entries part : List ε) : Prop :=
  ∃ front back, entries = front ++ part ++ back ∧ w.low = front.length ∧
    w.high = front.length + part.length - 1

theorem frames_whole (entries : List ε) : (Window.whole entries).Frames entries entries :=
  ⟨[], [], by simp, rfl, by simp [Window.whole]⟩

theorem length_lowerHalf (part : List ε) : (lowerHalf part).length = (part.length - 1) / 2 := by
  rw [lowerHalf, List.length_take]
  omega

theorem entryAt?_append (front back : List ε) (middle : ε) :
    entryAt? (front ++ middle :: back) front.length = some middle := by
  change (front ++ middle :: back)[front.length]? = some middle
  simp

/-- **One round** answers as the halved list does, or leaves the window that frames the half with
    which to go on. -/
theorem round_of_frames (right : Halves half entries.length) (follows : Follows judge answer)
    (h : w.Frames entries part) :
    round half judge entries w = .answered (answer part w.best) ∨
      ∃ w' part', round half judge entries w = .on w' ∧ w'.Frames entries part' ∧
        part ≠ [] ∧ 2 * part'.length ≤ part.length ∧ answer part' w'.best = answer part w.best := by
  obtain ⟨front, back, rfl, hlow, hhigh⟩ := h
  cases halves : upperHalf part with
  | nil =>
    obtain rfl := upperHalf_eq_nil halves
    have closed : w.high < w.low := by
      rw [List.length_nil] at hhigh
      omega
    rw [round, if_pos closed, follows.nil]
    exact Or.inl rfl
  | cons middle above =>
    have whole := lowerHalf_append halves
    have below := length_lowerHalf part
    have size := congrArg List.length whole
    rw [List.length_append, List.length_cons] at size
    simp only [List.length_append] at right
    -- the middle of the window is the place of the entry at which the list is halved
    have position : w.middle half = (front ++ lowerHalf part).length := by
      rw [Window.middle, right _ (by omega) (by omega), List.length_append]
      omega
    have around : front ++ part ++ back =
        (front ++ lowerHalf part) ++ middle :: (above ++ back) := by
      calc front ++ part ++ back
          = front ++ (lowerHalf part ++ middle :: above) ++ back := by rw [whole]
        _ = (front ++ lowerHalf part) ++ middle :: (above ++ back) := by simp
    have step : round half judge (front ++ part ++ back) w =
        w.judged (w.middle half) middle (judge middle) := by
      rw [round, if_neg (by omega), around, position, entryAt?_append]
    have some_entry : part ≠ [] := by
      rintro rfl
      simp at size
    rw [step, follows.cons w.best halves]
    cases judge middle with
    | hit => exact Or.inl rfl
    | behind keep =>
      refine Or.inr ⟨_, above, rfl, ⟨front ++ lowerHalf part ++ [middle], back, ?_, ?_, ?_⟩,
        some_entry, by omega, rfl⟩
      · rw [around]
        simp
      · simp only [position, List.length_append, List.length_singleton]
        omega
      · simp only [hhigh, List.length_append, List.length_singleton]
        omega
    | before =>
      refine Or.inr ⟨_, lowerHalf part, rfl, ⟨front, middle :: (above ++ back), around, hlow, ?_⟩,
        some_entry, by omega, rfl⟩
      simp [position]

/-! ## Runs -/

/-- **A run** never reads outside the list. -/
theorem run_ne_outside (right : Halves half entries.length) (follows : Follows judge answer)
    (h : w.Frames entries part) (rounds : Nat) (position : Int) :
    run half judge entries rounds w ≠ .outside position := by
  induction rounds generalizing w part with
  | zero => simp [run]
  | succ rounds ih =>
    rw [run]
    rcases round_of_frames right follows h with answered | ⟨w', part', on, h', -⟩
    · simp [answered]
    · rw [on]
      exact ih h'

/-- **A run** is done after a round more than the part can be halved. -/
theorem run_eq_answered (right : Halves half entries.length) (follows : Follows judge answer)
    (h : w.Frames entries part) {rounds : Nat} (enough : part.length < 2 ^ rounds) :
    run half judge entries (rounds + 1) w = .answered (answer part w.best) := by
  induction rounds generalizing w part with
  | zero =>
    rw [run]
    rcases round_of_frames right follows h with answered | ⟨w', part', on, h', some_entry, -⟩
    · rw [answered]
    · have := List.length_pos_iff.2 some_entry
      omega
  | succ rounds ih =>
    rw [run]
    rcases round_of_frames right follows h with answered | ⟨w', part', on, h', -, halved, same⟩
    · rw [answered]
    · have enough' : part'.length < 2 ^ rounds := by omega
      rw [on, ← same]
      exact ih h' enough'

theorem answers_of_follows (right : Halves half entries.length) (follows : Follows judge answer) :
    Answers half judge entries (answer entries none) where
  within rounds position := run_ne_outside right follows (frames_whole entries) rounds position
  ends _ enough := run_eq_answered right follows (frames_whole entries) enough

theorem answers_exact (right : Halves half entries.length) (name : ε → Text) (key : Text) :
    Answers half (exact name key) entries (exactMatch? name key entries) := by
  have h := answers_of_follows right (follows_exact name key)
  rwa [Option.or_none] at h

theorem answers_floor (right : Halves half entries.length) (name : ε → Text) (key : Text) :
    Answers half (floor name key) entries (floorMatch? name key entries) :=
  answers_of_follows right (follows_floor name key)

/-- **The searches of a page are linear searches.**  Among entries in ascending order of names, some
    of which may be repeated, the floor search finds the last one that is not above the key, and none
    iff there is no entry or the first is above the key; the exact search finds an entry of the name
    if there is one.  Whatever the order, an entry that is found has the name, or one that is not
    above the key.  Searches in place answer alike: they end, and read nothing outside the list.  Up
    to 2 ^ 31 entries the sum of two positions may be cut to 32 bits before it is halved. -/
theorem searches_linear (name : ε → Text) (key : Text) (entries : List ε) :
    ((entries.Pairwise fun a b => name a ≤ name b) →
      floorMatch? name key entries = (entries.filter fun e => name e ≤ key).getLast? ∧
      (∀ e, floorMatch? name key entries = some e ↔ ∃ before after,
        entries = before ++ e :: after ∧ name e ≤ key ∧ ∀ x ∈ after, key < name x) ∧
      (floorMatch? name key entries = none ↔
        entries = [] ∨ ∃ first rest, entries = first :: rest ∧ key < name first) ∧
      ((∃ e ∈ entries, name e = key ∧ exactMatch? name key entries = some e) ∨
        (∀ e ∈ entries, name e ≠ key) ∧ exactMatch? name key entries = none)) ∧
    (∀ e, exactMatch? name key entries = some e → e ∈ entries ∧ name e = key) ∧
    (∀ e, floorMatch? name key entries = some e → e ∈ entries ∧ name e ≤ key) ∧
    (Answers (· / 2) (exact name key) entries (exactMatch? name key entries) ∧
      Answers (· / 2) (floor name key) entries (floorMatch? name key entries)) ∧
    (entries.length ≤ 2 ^ 31 →
      Answers wordHalf (exact name key) entries (exactMatch? name key entries) ∧
      Answers wordHalf (floor name key) entries (floorMatch? name key entries)) := by
  have halves : Halves (· / 2) entries.length := fun _ _ _ => rfl
  refine ⟨fun ascending => ⟨?_, fun e => ?_, ?_, ?_⟩, fun e => exactMatch?_eq_some,
    fun e => mem_of_floorMatch?, ⟨?_, ?_⟩, fun short => ⟨?_, ?_⟩⟩
  · rw [floorMatch?_eq_getLast? ascending, Option.or_none]
  · exact floorMatch?_eq_some_iff ascending
  · exact floorMatch?_eq_none_iff ascending
  · exact exactMatch?_cases ascending
  · exact answers_exact halves name key
  · exact answers_floor halves name key
  · exact answers_exact (halves_wordHalf short) name key
  · exact answers_floor (halves_wordHalf short) name key

/-- Entries of which two have one name. -/
def repeated : List (Text × Nat) := [("a", 1), ("b", 2), ("b", 3), ("d", 4)]

/-- Of two entries with one name the floor search finds the second, also in place. -/
theorem searches_of_repeated :
    floorMatch? Prod.fst "c" repeated = some (("b" : Text), 3) ∧
      (∃ e ∈ repeated, e.1 = "b" ∧ exactMatch? Prod.fst "b" repeated = some e) ∧
      run wordHalf (floor Prod.fst "c") repeated 4 (.whole repeated) =
        .answered (some (("b" : Text), 3)) := by
  have ascending : repeated.Pairwise fun a b => a.1 ≤ b.1 := by decide
  obtain ⟨ordered, -, -, -, inPlace⟩ := searches_linear Prod.fst "c" repeated
  obtain ⟨last, -⟩ := ordered ascending
  obtain ⟨ordered', -⟩ := searches_linear Prod.fst "b" repeated
  obtain ⟨-, -, -, named⟩ := ordered' ascending
  have found : floorMatch? Prod.fst "c" repeated = some (("b" : Text), 3) := by
    rw [last]
    decide
  refine ⟨found, named.resolve_right ?_, ?_⟩
  · rintro ⟨absent, -⟩
    exact absent ("b", 2) (by decide) rfl
  · rw [← found]
    exact (inPlace (by decide)).2.ends 3 (by decide)

end Bisection

end SeriesCatalog
