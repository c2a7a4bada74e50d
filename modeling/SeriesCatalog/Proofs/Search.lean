/-
  Series catalog — what the searches find.

  * `floorMatch?_eq_getLast?`: in ascending entries, the floor search finds the
    last entry whose name is at most the key;
  * `exactMatch?_cases`: in ascending entries, the exact search finds an entry of the
    name if there is one;
  * `exactMatch?_eq_find?`: in strictly ascending entries, the exact search
    finds what a search from the left would.
-/
import SeriesCatalog.Index.Search
import SeriesCatalog.Proofs.TextOrder

namespace SeriesCatalog

variable {ε : Type} {name : ε → Text} {key : Text} {entries : List ε}

/-- Entries in ascending order of names, with no name repeated. -/
def Ascending (name : ε → Text) (entries : List ε) : Prop :=
  entries.Pairwise fun a b => name a < name b

instance (name : ε → Text) (entries : List ε) : Decidable (Ascending name entries) :=
  inferInstanceAs (Decidable (entries.Pairwise _))

theorem Ascending.weak (h : Ascending name entries) :
    entries.Pairwise fun a b => name a ≤ name b :=
  h.imp Std.le_of_lt

theorem Ascending.distinct (h : Ascending name entries) :
    entries.Pairwise fun a b => name a ≠ name b :=
  h.imp fun {a b} (hlt : name a < name b) (he : name a = name b) =>
    Std.lt_irrefl (he ▸ hlt : name b < name b)

theorem find?_name_eq_some_iff {e : ε} (distinct : entries.Pairwise fun a b => name a ≠ name b) :
    entries.find? (fun e => name e = key) = some e ↔ e ∈ entries ∧ name e = key := by
  constructor
  · intro h
    exact ⟨List.mem_of_find?_eq_some h, by simpa using List.find?_some h⟩
  · rintro ⟨mem, rfl⟩
    induction entries with
    | nil => simp at mem
    | cons x entries ih =>
      obtain ⟨hx, distinct⟩ := List.pairwise_cons.1 distinct
      rcases List.mem_cons.1 mem with rfl | mem
      · simp
      · rw [List.find?_cons_of_neg (by simpa using hx e mem), ih distinct mem]

/-! ## Halves -/

theorem lowerHalf_append {middle : ε} {above : List ε} (h : upperHalf entries = middle :: above) :
    lowerHalf entries ++ middle :: above = entries := by
  rw [← h]; exact List.take_append_drop _ _

theorem upperHalf_eq_nil (h : upperHalf entries = []) : entries = [] := by
  rw [upperHalf, List.drop_eq_nil_iff] at h
  cases entries with
  | nil => rfl
  | cons e entries => simp only [List.length_cons] at h; omega

/-! ## The floor -/

/-- **The floor search finds the last entry that is not above the key.** -/
theorem floorMatch?_eq_getLast? (ascending : entries.Pairwise fun a b => name a ≤ name b)
    (best : Option ε) :
    floorMatch? name key entries best =
      (entries.filter fun e => name e ≤ key).getLast?.or best := by
  fun_induction floorMatch? name key entries best with
  | case1 entries best halves => simp [upperHalf_eq_nil halves]
  | case2 entries best middle above halves low ih =>
    rw [← lowerHalf_append halves] at ascending ⊢
    have hmiddle : name middle ≤ key := Std.isLE_compare.1 low
    have habove := (List.pairwise_cons.1 (List.pairwise_append.1 ascending).2.1).2
    simp [ih habove, List.filter_append, hmiddle, List.getLast?_append, List.getLast?_cons]
  | case3 entries best middle above halves high ih =>
    rw [← lowerHalf_append halves] at ascending
    have hmiddle : ¬ name middle ≤ key := fun h => high (Std.isLE_compare.2 h)
    obtain ⟨hlower, hupper, -⟩ := List.pairwise_append.1 ascending
    have none : (middle :: above).filter (fun e => name e ≤ key) = [] := by
      refine List.filter_eq_nil_iff.2 fun e he => ?_
      rcases List.mem_cons.1 he with rfl | he
      · simpa using hmiddle
      · simpa using fun h => hmiddle (Std.le_trans ((List.pairwise_cons.1 hupper).1 e he) h)
    calc floorMatch? name key (lowerHalf entries) best
        = ((lowerHalf entries).filter fun e => name e ≤ key).getLast?.or best := ih hlower
      _ = ((lowerHalf entries ++ middle :: above).filter fun e =>
            decide (name e ≤ key)).getLast?.or best := by
        rw [List.filter_append, none, List.append_nil]
      _ = (entries.filter fun e => name e ≤ key).getLast?.or best := by
        rw [lowerHalf_append halves]

theorem floorMatch?_eq_some {e : ε} (ascending : entries.Pairwise fun a b => name a ≤ name b)
    (h : floorMatch? name key entries = some e) :
    ∃ before after, entries = before ++ e :: after ∧ name e ≤ key ∧ ∀ x ∈ after, key < name x := by
  rw [floorMatch?_eq_getLast? ascending, Option.or_none, List.getLast?_eq_some_iff] at h
  obtain ⟨low, h⟩ := h
  obtain ⟨before, after, rfl, -, h⟩ := List.filter_eq_append_iff.1 h
  obtain ⟨skipped, after, rfl, -, he, h⟩ := List.filter_eq_cons_iff.1 h
  refine ⟨before ++ skipped, after, by simp, by simpa using he, fun x hx => ?_⟩
  have := List.filter_eq_nil_iff.1 h x hx
  exact Std.not_le.1 (by simpa using this)

theorem eq_or_mem_of_floorMatch? {e : ε} {best : Option ε}
    (h : floorMatch? name key entries best = some e) :
    best = some e ∨ e ∈ entries ∧ name e ≤ key := by
  fun_induction floorMatch? name key entries best with
  | case1 => exact Or.inl h
  | case2 entries best middle above halves low ih =>
    right
    rw [← lowerHalf_append halves]
    rcases ih h with hm | ⟨mem, he⟩
    · obtain rfl := Option.some.inj hm
      exact ⟨by simp, Std.isLE_compare.1 low⟩
    · exact ⟨by simp [mem], he⟩
  | case3 entries best middle above halves high ih =>
    rcases ih h with hb | ⟨mem, he⟩
    · exact Or.inl hb
    · right
      rw [← lowerHalf_append halves]
      exact ⟨by simp [mem], he⟩

/-- Whatever the order of the entries, the floor search finds one that is not above the key. -/
theorem mem_of_floorMatch? {e : ε} (h : floorMatch? name key entries = some e) :
    e ∈ entries ∧ name e ≤ key := by
  have found := eq_or_mem_of_floorMatch? h
  exact found.resolve_left (nomatch ·)

theorem floorMatch?_eq_none (ascending : entries.Pairwise fun a b => name a ≤ name b)
    (h : floorMatch? name key entries = none) : ∀ x ∈ entries, key < name x := by
  rw [floorMatch?_eq_getLast? ascending, Option.or_none, List.getLast?_eq_none_iff] at h
  intro x hx
  have := List.filter_eq_nil_iff.1 h x hx
  exact Std.not_le.1 (by simpa using this)

theorem floorMatch?_eq_some_iff {e : ε} (ascending : entries.Pairwise fun a b => name a ≤ name b) :
    floorMatch? name key entries = some e ↔ ∃ before after, entries = before ++ e :: after ∧
      name e ≤ key ∧ ∀ x ∈ after, key < name x := by
  constructor
  · exact floorMatch?_eq_some ascending
  · rintro ⟨before, after, rfl, low, above⟩
    have none : (after.filter fun x => name x ≤ key) = [] :=
      List.filter_eq_nil_iff.2 fun x hx => by simpa using above x hx
    simp [floorMatch?_eq_getLast? ascending, List.filter_append, low, none]

theorem floorMatch?_eq_none_iff (ascending : entries.Pairwise fun a b => name a ≤ name b) :
    floorMatch? name key entries = none ↔
      entries = [] ∨ ∃ first rest, entries = first :: rest ∧ key < name first := by
  constructor
  · intro none
    cases entries with
    | nil => exact Or.inl rfl
    | cons first rest =>
      exact Or.inr ⟨first, rest, rfl, floorMatch?_eq_none ascending none first (by simp)⟩
  · intro above
    cases found : floorMatch? name key entries with
    | none => rfl
    | some e =>
      obtain ⟨mem, low⟩ := mem_of_floorMatch? found
      rcases above with rfl | ⟨first, rest, rfl, above⟩
      · simp at mem
      · rcases List.mem_cons.1 mem with rfl | mem
        · exact absurd low (Std.not_le.2 above)
        · have order := (List.pairwise_cons.1 ascending).1 e mem
          exact absurd (Std.le_trans order low) (Std.not_le.2 above)

/-! ## An exact match -/

theorem exactMatch?_eq_some {e : ε} (h : exactMatch? name key entries = some e) :
    e ∈ entries ∧ name e = key := by
  fun_induction exactMatch? name key entries with
  | case1 => contradiction
  | case2 entries middle above halves hit =>
    obtain rfl := Option.some.inj h
    rw [← lowerHalf_append halves]
    exact ⟨by simp, Std.LawfulEqOrd.compare_eq_iff_eq.1 hit⟩
  | case3 entries middle above halves low ih =>
    rw [← lowerHalf_append halves]
    exact ⟨by simp [(ih h).1], (ih h).2⟩
  | case4 entries middle above halves high ih =>
    rw [← lowerHalf_append halves]
    exact ⟨by simp [(ih h).1], (ih h).2⟩

theorem exactMatch?_ne_none {e : ε} (ascending : entries.Pairwise fun a b => name a ≤ name b)
    (mem : e ∈ entries) (he : name e = key) : exactMatch? name key entries ≠ none := by
  fun_induction exactMatch? name key entries with
  | case1 entries halves => simp [upperHalf_eq_nil halves] at mem
  | case2 => simp
  | case3 entries middle above halves low ih =>
    rw [← lowerHalf_append halves] at ascending mem
    have hmiddle : name middle < key := Text.compare_eq_lt_iff.1 low
    obtain ⟨-, hupper, hcross⟩ := List.pairwise_append.1 ascending
    rcases List.mem_append.1 mem with mem | mem
    · have := hcross e mem middle (by simp)
      grind
    · rcases List.mem_cons.1 mem with rfl | mem
      · grind
      · exact ih (List.pairwise_cons.1 hupper).2 mem
  | case4 entries middle above halves high ih =>
    rw [← lowerHalf_append halves] at ascending mem
    have hmiddle : key < name middle :=
      Text.compare_eq_lt_iff.1 (Std.OrientedCmp.lt_of_gt high)
    obtain ⟨hlower, hupper, -⟩ := List.pairwise_append.1 ascending
    rcases List.mem_append.1 mem with mem | mem
    · exact ih hlower mem
    · rcases List.mem_cons.1 mem with rfl | mem
      · grind
      · have := (List.pairwise_cons.1 hupper).1 e mem
        grind

theorem exactMatch?_cases (ascending : entries.Pairwise fun a b => name a ≤ name b) :
    (∃ e ∈ entries, name e = key ∧ exactMatch? name key entries = some e) ∨
      (∀ e ∈ entries, name e ≠ key) ∧ exactMatch? name key entries = none := by
  cases found : exactMatch? name key entries with
  | none => exact Or.inr ⟨fun e mem he => exactMatch?_ne_none ascending mem he found, rfl⟩
  | some e =>
    obtain ⟨mem, he⟩ := exactMatch?_eq_some found
    exact Or.inl ⟨e, mem, he, rfl⟩

/-- **The exact search finds what a search from the left would**, where no name is repeated. -/
theorem exactMatch?_eq_find? (ascending : Ascending name entries) :
    exactMatch? name key entries = entries.find? fun e => name e = key := by
  cases h : exactMatch? name key entries with
  | none =>
    symm
    rw [List.find?_eq_none]
    intro e mem he
    exact exactMatch?_ne_none ascending.weak mem (by simpa using he) h
  | some e =>
    exact ((find?_name_eq_some_iff ascending.distinct).2 (exactMatch?_eq_some h)).symm

end SeriesCatalog
