/-
  Series catalog — parts of a page tree.

  Definitions on trees of any shape, whether built from records or by hand.

  * `Page.leaves`: the leaf pages that are reached through internal pages
    alone, left to right; `Page.deviceEntries` and `Page.recordEntries` are what
    they hold;
  * `Page.lookup`: what a search of all leaves from the left finds;
  * `Page.level`: the pages at a depth of a tier;
  * `Page.Descent`: the kinds of the pages on a chain down to a page with
    nothing below it;
  * `Page.height`: the number of pages on a longest chain.
-/
import SeriesCatalog.Index.Page

namespace SeriesCatalog.Page

variable {α : Type}

/-- Induction over a tree: of a page with pages below, all of these may be assumed. -/
@[elab_as_elim, induction_eliminator]
theorem induction {motive : Page α → Prop}
    (internal : ∀ tier entries, (∀ e ∈ entries, motive e.child) → motive (internal tier entries))
    (deviceLeaf : ∀ entries, (∀ e ∈ entries, motive e.child) → motive (deviceLeaf entries))
    (measurementLeaf : ∀ entries, motive (measurementLeaf entries)) (page : Page α) :
    motive page :=
  @Page.rec α motive (fun entries => ∀ e ∈ entries, motive e.child) (fun e => motive e.child)
    internal deviceLeaf measurementLeaf (fun _ h => absurd h List.not_mem_nil)
    (fun _ _ hhead htail _ h => (List.mem_cons.1 h).elim (fun he => he ▸ hhead) (htail _))
    (fun _ _ _ h => h) page

/-! ## Entries -/

/-- The entries that lead to pages below. -/
def children : Page α → List (ChildEntry (Page α))
  | internal _ entries | deviceLeaf entries => entries
  | measurementLeaf _ => []

/-- The entries that hold records. -/
def holdings : Page α → List (RecordEntry α)
  | internal _ _ | deviceLeaf _ => []
  | measurementLeaf entries => entries

/-- The names of the entries of a page. -/
def names : Page α → List Text
  | internal _ entries | deviceLeaf entries => entries.map ChildEntry.name
  | measurementLeaf entries => entries.map RecordEntry.name

theorem firstName_eq_headD (page : Page α) : page.firstName = page.names.headD [] := by
  cases page with
  | internal tier entries => cases entries <;> rfl
  | deviceLeaf entries => cases entries <;> rfl
  | measurementLeaf entries => cases entries <;> rfl

theorem length_children_of_kind {page : Page α} (h : page.kind ≠ .leaf .measurement) :
    page.children.length = page.names.length := by
  cases page with
  | internal tier entries => simp [children, names]
  | deviceLeaf entries => simp [children, names]
  | measurementLeaf entries => exact absurd rfl h

/-! ## Leaves -/

mutual

/-- The leaf pages of a tier, below one of its pages, left to right. -/
def leaves : Page α → List (Page α)
  | internal _ entries => leavesBelow entries
  | deviceLeaf entries => [deviceLeaf entries]
  | measurementLeaf entries => [measurementLeaf entries]

/-- The leaf pages below the entries of an internal page. -/
def leavesBelow : List (ChildEntry (Page α)) → List (Page α)
  | [] => []
  | ⟨_, child, _⟩ :: entries => child.leaves ++ leavesBelow entries

end

theorem leavesBelow_eq (entries : List (ChildEntry (Page α))) :
    leavesBelow entries = entries.flatMap fun e => e.child.leaves := by
  induction entries with
  | nil => rfl
  | cons e entries ih => rw [leavesBelow, ih, List.flatMap_cons]

@[simp]
theorem leaves_internal (tier : Tier) (entries : List (ChildEntry (Page α))) :
    (internal tier entries).leaves = entries.flatMap fun e => e.child.leaves := by
  rw [leaves, leavesBelow_eq]

@[simp]
theorem leaves_deviceLeaf (entries : List (ChildEntry (Page α))) :
    (deviceLeaf entries).leaves = [deviceLeaf entries] := by rw [leaves]

@[simp]
theorem leaves_measurementLeaf (entries : List (RecordEntry α)) :
    (measurementLeaf entries).leaves = [measurementLeaf entries] := by rw [leaves]

/-- The names in the leaves below a page. -/
def leafNames (page : Page α) : List Text := page.leaves.flatMap names

/-- The device entries in the leaves below a page. -/
def deviceEntries (page : Page α) : List (ChildEntry (Page α)) := page.leaves.flatMap children

/-- The record entries in the leaves below a page. -/
def recordEntries (page : Page α) : List (RecordEntry α) := page.leaves.flatMap holdings

@[simp]
theorem leafNames_internal (tier : Tier) (entries : List (ChildEntry (Page α))) :
    (internal tier entries).leafNames = entries.flatMap fun e => e.child.leafNames := by
  simp only [leafNames, leaves_internal, List.flatMap_assoc]

@[simp]
theorem deviceEntries_internal (tier : Tier) (entries : List (ChildEntry (Page α))) :
    (internal tier entries).deviceEntries = entries.flatMap fun e => e.child.deviceEntries := by
  simp only [deviceEntries, leaves_internal, List.flatMap_assoc]

@[simp]
theorem recordEntries_internal (tier : Tier) (entries : List (ChildEntry (Page α))) :
    (internal tier entries).recordEntries = entries.flatMap fun e => e.child.recordEntries := by
  simp only [recordEntries, leaves_internal, List.flatMap_assoc]

@[simp]
theorem deviceEntries_deviceLeaf (entries : List (ChildEntry (Page α))) :
    (deviceLeaf entries).deviceEntries = entries := by
  simp [deviceEntries, children]

@[simp]
theorem recordEntries_measurementLeaf (entries : List (RecordEntry α)) :
    (measurementLeaf entries).recordEntries = entries := by
  simp [recordEntries, holdings]

/-- The record of the first record entry named `measurement` in the leaves below a page. -/
def recordAt? (page : Page α) (measurement : Text) : Option α :=
  (page.recordEntries.find? fun e => e.name = measurement).map RecordEntry.record

/-- The record of `measurement` below the first device entry named `device`. -/
def lookup (root : Page α) (device measurement : Text) : Option α :=
  (root.deviceEntries.find? fun e => e.name = device).bind fun e =>
    e.child.recordAt? measurement

/-! ## Levels -/

/-- The pages that an internal page stands over. -/
def under : Page α → List (Page α)
  | internal _ entries => entries.map ChildEntry.child
  | deviceLeaf _ | measurementLeaf _ => []

/-- The pages of the tier of `root` that stand `depth` levels below it, left to right. -/
def level (root : Page α) : (depth : Nat) → List (Page α)
  | 0 => [root]
  | depth + 1 => (root.level depth).flatMap under

/-- The kinds on a chain of pages that starts at a page and ends where nothing is below. -/
inductive Descent : Page α → List PageKind → Prop
  | stop {page} : page.children = [] → Descent page [page.kind]
  | step {page entry kinds} : entry ∈ page.children → Descent entry.child kinds →
      Descent page (page.kind :: kinds)

/-! ## Height -/

mutual

/-- The number of pages on a longest chain down from a page. -/
def height : Page α → Nat
  | internal _ entries | deviceLeaf entries => 1 + heightBelow entries
  | measurementLeaf _ => 1

/-- The number of pages on a longest chain down from the entries of a page. -/
def heightBelow : List (ChildEntry (Page α)) → Nat
  | [] => 0
  | ⟨_, child, _⟩ :: entries => max child.height (heightBelow entries)

end

theorem height_le_heightBelow {entries : List (ChildEntry (Page α))} {e : ChildEntry (Page α)}
    (h : e ∈ entries) : e.child.height ≤ heightBelow entries := by
  induction entries with
  | nil => simp at h
  | cons x entries ih =>
    rw [heightBelow]
    rcases List.mem_cons.1 h with rfl | h
    · exact Nat.le_max_left _ _
    · exact Nat.le_trans (ih h) (Nat.le_max_right _ _)

theorem height_lt_of_mem_children {page : Page α} {e : ChildEntry (Page α)}
    (h : e ∈ page.children) : e.child.height < page.height := by
  cases page with
  | internal tier entries | deviceLeaf entries =>
    have : e.child.height ≤ heightBelow entries := height_le_heightBelow h
    rw [height]; omega
  | measurementLeaf entries => simp [children] at h

theorem height_pos (page : Page α) : 0 < page.height := by
  cases page <;> rw [height] <;> omega

theorem exists_height_eq_heightBelow {entries : List (ChildEntry (Page α))} (h : entries ≠ []) :
    ∃ e ∈ entries, e.child.height = heightBelow entries := by
  induction entries with
  | nil => contradiction
  | cons x entries ih =>
    rw [heightBelow]
    by_cases last : entries = []
    · subst last
      exact ⟨x, by simp, by rw [heightBelow, Nat.max_zero]⟩
    · obtain ⟨e, he, heq⟩ := ih last
      rcases Nat.le_total x.child.height (heightBelow entries) with hle | hle
      · exact ⟨e, by simp [he], by rw [heq, Nat.max_eq_right hle]⟩
      · exact ⟨x, by simp, by rw [Nat.max_eq_left hle]⟩

/-- **The height is the length of a chain** down to a page with nothing below it. -/
theorem exists_descent_height (page : Page α) :
    ∃ kinds, Descent page kinds ∧ kinds.length = page.height := by
  induction page with
  | internal tier entries ih | deviceLeaf entries ih =>
    by_cases bare : entries = []
    · subst bare
      exact ⟨_, .stop rfl, by simp [height, heightBelow]⟩
    · obtain ⟨e, he, highest⟩ := exists_height_eq_heightBelow bare
      obtain ⟨kinds, descent, hlength⟩ := ih e he
      exact ⟨_, .step he descent, by rw [List.length_cons, hlength, height, highest, Nat.add_comm]⟩
  | measurementLeaf entries => exact ⟨_, .stop rfl, by simp [height]⟩

end SeriesCatalog.Page
