/-
  Series catalog — search trees.

  * `Page.Ordered`: a tree whose pages follow the order of kinds, with names
    that ascend in every page and entries of internal pages that keep the names
    of the leaves below them apart;
  * `Page.walk_ordered`: on such a tree a walk finds what a search of all
    leaves from the left would (`Page.lookup`), if it may visit as many pages as
    the tree is high.
-/
import SeriesCatalog.Index.Walk
import SeriesCatalog.Proofs.Search
import SeriesCatalog.Proofs.Tree

namespace SeriesCatalog.Page

variable {α : Type}

/-- A tree in which a search finds its way. -/
inductive Ordered : Tier → Page α → Prop
  /-- Each entry leads to the names from its own up to that of the next entry. -/
  | internal {tier} {entries : List (ChildEntry (Page α))} : Ascending ChildEntry.name entries →
      (∀ e ∈ entries, Ordered tier e.child) →
      (∀ e ∈ entries, ∀ name ∈ e.child.leafNames, e.name ≤ name) →
      (entries.Pairwise fun a b => ∀ name ∈ a.child.leafNames, name < b.name) →
      Ordered tier (.internal tier entries)
  | deviceLeaf {entries : List (ChildEntry (Page α))} : Ascending ChildEntry.name entries →
      (∀ e ∈ entries, Ordered .measurement e.child) → Ordered .device (.deviceLeaf entries)
  | measurementLeaf {entries : List (RecordEntry α)} : Ascending RecordEntry.name entries →
      Ordered .measurement (.measurementLeaf entries)

variable {tier : Tier} {page root : Page α} {device measurement : Text}
  {entries : List (ChildEntry (Page α))}

theorem Ordered.of_internal {tier' : Tier} (h : Ordered tier (.internal tier' entries)) :
    tier' = tier ∧ ∀ e ∈ entries, Ordered tier e.child := by
  cases h with
  | internal _ ordered _ _ => exact ⟨rfl, ordered⟩

theorem Ordered.of_mem_deviceEntries {e : ChildEntry (Page α)} (h : Ordered .device page)
    (he : e ∈ page.deviceEntries) : Ordered .measurement e.child := by
  induction page with
  | internal tier entries ih =>
    rw [deviceEntries_internal] at he
    obtain ⟨x, hx, he⟩ := List.mem_flatMap.1 he
    exact ih x hx (h.of_internal.2 x hx) he
  | deviceLeaf entries =>
    cases h with
    | deviceLeaf _ ordered =>
      rw [deviceEntries_deviceLeaf] at he
      exact ordered e he
  | measurementLeaf entries => cases h

/-! ## One step down -/

/-- **Below the floor entry is all that bears the key.**  What entries lead to is searched from
    the left with the same result as what the floor entry leads to. -/
theorem find?_flatMap_eq_floor {ε : Type} {name : ε → Text} {found : Page α → List ε}
    (ascending : Ascending ChildEntry.name entries)
    (least : ∀ e ∈ entries, ∀ x ∈ found e.child, e.name ≤ name x)
    (apart : entries.Pairwise fun a b => ∀ x ∈ found a.child, name x < b.name) (key : Text) :
    (entries.flatMap fun e => found e.child).find? (fun x => name x = key) =
      (floorMatch? ChildEntry.name key entries).bind fun e =>
        (found e.child).find? fun x => name x = key := by
  cases floor : floorMatch? ChildEntry.name key entries with
  | none =>
    have above := floorMatch?_eq_none ascending.weak floor
    rw [Option.bind_none, List.find?_eq_none]
    intro x hx
    obtain ⟨e, he, hx⟩ := List.mem_flatMap.1 hx
    have := above e he
    have := least e he x hx
    simp; grind
  | some e =>
    obtain ⟨before, after, rfl, low, above⟩ := floorMatch?_eq_some ascending.weak floor
    have hbefore : (before.flatMap fun e => found e.child).find?
        (fun x => name x = key) = none := by
      rw [List.find?_eq_none]
      intro x hx
      obtain ⟨b, hb, hx⟩ := List.mem_flatMap.1 hx
      have := (List.pairwise_append.1 apart).2.2 b hb e (by simp) x hx
      simp; grind
    have hafter : (after.flatMap fun e => found e.child).find?
        (fun x => name x = key) = none := by
      rw [List.find?_eq_none]
      intro x hx
      obtain ⟨a, ha, hx⟩ := List.mem_flatMap.1 hx
      have := above a ha
      have := least a (by simp [ha]) x hx
      simp; grind
    rw [List.flatMap_append, List.flatMap_cons, List.find?_append, List.find?_append, hbefore,
      hafter, Option.or_none, Option.none_or, Option.bind_some]

theorem mem_leafNames_of_deviceEntries {e : ChildEntry (Page α)} (h : e ∈ page.deviceEntries) :
    e.name ∈ page.leafNames := by
  obtain ⟨leaf, hleaf, h⟩ := List.mem_flatMap.1 h
  refine List.mem_flatMap.2 ⟨leaf, hleaf, ?_⟩
  cases leaf with
  | internal tier entries => exact List.mem_map_of_mem h
  | deviceLeaf entries => exact List.mem_map_of_mem h
  | measurementLeaf entries => simp [children] at h

theorem mem_leafNames_of_recordEntries {e : RecordEntry α} (h : e ∈ page.recordEntries) :
    e.name ∈ page.leafNames := by
  obtain ⟨leaf, hleaf, h⟩ := List.mem_flatMap.1 h
  refine List.mem_flatMap.2 ⟨leaf, hleaf, ?_⟩
  cases leaf with
  | internal tier entries => simp [holdings] at h
  | deviceLeaf entries => simp [holdings] at h
  | measurementLeaf entries => exact List.mem_map_of_mem h

/-! ## Walks -/

/-- The outcome of a search that finds a record or none. -/
def outcomeOf : Option α → Outcome α
  | some record => .found record
  | none => .absent

theorem height_child_le {budget : Nat} {e : ChildEntry (Page α)} (high : page.height ≤ budget + 1)
    (he : e ∈ page.children) : e.child.height ≤ budget :=
  Nat.le_of_lt_succ (Nat.lt_of_lt_of_le (height_lt_of_mem_children he) high)

theorem exists_budget {budget : Nat} (high : page.height ≤ budget) : ∃ rest, budget = rest + 1 :=
  Nat.exists_eq_add_one.2 (Nat.lt_of_lt_of_le (height_pos page) high)

/-- The key that is searched for in a tier. -/
def keyOf (device measurement : Text) : Tier → Text
  | .device => device
  | .measurement => measurement

theorem walk_succ_internal {budget depth : Nat} :
    walk device measurement tier depth (budget + 1) (.internal tier entries) =
      match floorMatch? ChildEntry.name (keyOf device measurement tier) entries with
      | some e => walk device measurement tier (depth + 1) budget e.child
      | none => .absent := by
  rw [walk.eq_def]
  cases tier <;> rfl

theorem walk_succ_deviceLeaf {budget depth : Nat} :
    walk device measurement .device depth (budget + 1) (.deviceLeaf entries) =
      match exactMatch? ChildEntry.name device entries with
      | some e => walk device measurement .measurement (depth + 1) budget e.child
      | none => .absent := by
  rw [walk.eq_def]
  rfl

theorem walk_succ_measurementLeaf {budget depth : Nat} {entries : List (RecordEntry α)} :
    walk device measurement .measurement depth (budget + 1) (.measurementLeaf entries) =
      match exactMatch? RecordEntry.name measurement entries with
      | some e => .found e.record
      | none => .absent := by
  rw [walk.eq_def]
  rfl

/-- The step down an internal page.  What is looked for is listed by `found`, from left to right,
    under names that are leaf names, and a walk finds it below every entry. -/
theorem Ordered.walk_internal {ε : Type} {name : ε → Text} {found : Page α → List ε}
    {result : ε → Option α} {budget depth : Nat} (h : Ordered tier (.internal tier entries))
    (leaf : ∀ page, ∀ x ∈ found page, name x ∈ page.leafNames)
    (below : found (.internal tier entries) = entries.flatMap fun e => found e.child)
    (ih : ∀ e ∈ entries, walk device measurement tier (depth + 1) budget e.child =
      outcomeOf (((found e.child).find? fun x => name x = keyOf device measurement tier).bind
        result)) :
    walk device measurement tier depth (budget + 1) (.internal tier entries) =
      outcomeOf (((found (.internal tier entries)).find? fun x =>
        name x = keyOf device measurement tier).bind result) := by
  cases h with
  | internal ascending _ least apart =>
    have least' : ∀ e ∈ entries, ∀ x ∈ found e.child, e.name ≤ name x :=
      fun e he x hx => least e he (name x) (leaf e.child x hx)
    have apart' : entries.Pairwise fun a b => ∀ x ∈ found a.child, name x < b.name := by
      refine apart.imp ?_
      intro a b above x hx
      exact above (name x) (leaf a.child x hx)
    rw [walk_succ_internal, below, find?_flatMap_eq_floor ascending least' apart']
    cases floor : floorMatch? ChildEntry.name (keyOf device measurement tier) entries with
    | none => rfl
    | some e =>
      obtain ⟨mem, -⟩ := mem_of_floorMatch? floor
      exact ih e mem

theorem walk_measurement (h : Ordered .measurement page) {budget depth : Nat}
    (high : page.height ≤ budget) :
    walk device measurement .measurement depth budget page =
      outcomeOf (page.recordAt? measurement) := by
  induction page generalizing budget depth with
  | internal tier entries ih =>
    obtain ⟨budget, rfl⟩ := exists_budget high
    obtain ⟨rfl, ordered⟩ := h.of_internal
    have below : ∀ e ∈ entries, walk device measurement .measurement (depth + 1) budget e.child =
        outcomeOf (e.child.recordAt? measurement) :=
      fun e he => ih e he (ordered e he) (height_child_le high he)
    simp only [recordAt?, Option.map_eq_bind] at below ⊢
    exact h.walk_internal (fun page x hx => mem_leafNames_of_recordEntries hx)
      (recordEntries_internal .measurement entries) below
  | deviceLeaf entries => cases h
  | measurementLeaf entries =>
    obtain ⟨budget, rfl⟩ := exists_budget high
    cases h with
    | measurementLeaf ascending =>
      rw [walk_succ_measurementLeaf, exactMatch?_eq_find? ascending, recordAt?, recordEntries_measurementLeaf]
      cases entries.find? fun e => e.name = measurement <;> rfl

/-- **A walk finds what a search of all leaves would**, if it may visit as many pages as the tree
    is high. -/
theorem walk_ordered (h : Ordered .device root) {budget depth : Nat}
    (high : root.height ≤ budget) :
    walk device measurement .device depth budget root =
      outcomeOf (root.lookup device measurement) := by
  induction root generalizing budget depth with
  | internal tier entries ih =>
    obtain ⟨budget, rfl⟩ := exists_budget high
    obtain ⟨rfl, ordered⟩ := h.of_internal
    have below : ∀ e ∈ entries, walk device measurement .device (depth + 1) budget e.child =
        outcomeOf (e.child.lookup device measurement) :=
      fun e he => ih e he (ordered e he) (height_child_le high he)
    exact h.walk_internal (fun page x hx => mem_leafNames_of_deviceEntries hx)
      (deviceEntries_internal .device entries) below
  | deviceLeaf entries =>
    obtain ⟨budget, rfl⟩ := exists_budget high
    cases h with
    | deviceLeaf ascending ordered =>
      rw [walk_succ_deviceLeaf, exactMatch?_eq_find? ascending, lookup, deviceEntries_deviceLeaf]
      cases found : entries.find? fun e => e.name = device with
      | none => rfl
      | some e =>
        have he := List.mem_of_find?_eq_some found
        exact walk_measurement (ordered e he) (height_child_le high he)
  | measurementLeaf entries => cases h

end SeriesCatalog.Page
