/-
  Series catalog — search trees put together by hand.

  A tree need not be built from records for a lookup to find its way.  It may be of
  any shape, with pages of any number of entries and with internal entries that
  are named by less than what is below them.

  * `Page.SearchTree`: the pages follow the order of tiers, names ascend in every
    page, and internal entries keep apart the names on the leaves below them;
  * `Page.searchTree_iff_ordered`: these are the trees of `Page.Ordered`;
  * `Walker.locate_searchTree`: on such a tree a lookup finds the record that is
    kept under its two keys, and nothing if none is.
-/
import Mathlib.Data.List.Chain
import SeriesCatalog.Proofs.Lookup

namespace SeriesCatalog

/-- The tier of the pages below a page: that of the page, or the one that begins below a device
    leaf. -/
def PageKind.tierBelow : PageKind → Tier
  | internal tier => tier
  | leaf _ => .measurement

namespace Page

variable {α : Type} {tier : Tier} {root page leaf : Page α} {device measurement : Text}
  {record : α}

/-! ## Pages below a page -/

/-- `Below root page`: a chain of entries leads from `root` down to `page`. -/
inductive Below : Page α → Page α → Prop
  | refl {page : Page α} : Below page page
  | step {root page : Page α} {e : ChildEntry (Page α)} : e ∈ root.children →
      Below e.child page → Below root page

/-- A name on a leaf of a tier, below a page. -/
def NameBelow (tier : Tier) (page : Page α) (name : Text) : Prop :=
  ∃ leaf, Below page leaf ∧ leaf.kind = .leaf tier ∧ name ∈ leaf.names

/-- A record that is kept under two names: that of a device leaf entry, and that of a measurement
    leaf entry below it. -/
def Keeps (root : Page α) (device measurement : Text) (record : α) : Prop :=
  ∃ devices, Below root (.deviceLeaf devices) ∧ ∃ e ∈ devices, e.name = device ∧
    ∃ measurements, Below e.child (.measurementLeaf measurements) ∧
      ∃ x ∈ measurements, x.name = measurement ∧ x.record = record

/-! ## Search trees -/

/-- What a search needs of a page. -/
structure InOrder (page : Page α) : Prop where
  tiers : ∀ e ∈ page.children, e.child.kind.tier = page.kind.tierBelow
  ascending : page.names.Pairwise (· < ·)
  /-- An entry of an internal page is named by a lower bound of the names below it. -/
  least : page.kind.isInternal → ∀ e ∈ page.children,
    ∀ name, NameBelow page.kind.tier e.child name → e.name ≤ name
  /-- The name of the next entry is above all of them. -/
  apart : page.kind.isInternal → page.children.IsChain fun a b =>
    ∀ name, NameBelow page.kind.tier a.child name → name < b.name

/-- A tree in which a search that starts in `tier` finds its way. -/
structure SearchTree (tier : Tier) (root : Page α) : Prop where
  top : root.kind.tier = tier
  below : ∀ page, Below root page → InOrder page

theorem searchTree_iff :
    SearchTree tier root ↔ root.kind.tier = tier ∧ InOrder root ∧
      ∀ e ∈ root.children, SearchTree root.kind.tierBelow e.child := by
  constructor
  · intro h
    have order := h.below root .refl
    exact ⟨h.top, order, fun e he =>
      ⟨order.tiers e he, fun page hp => h.below page (.step he hp)⟩⟩
  · rintro ⟨top, order, search⟩
    refine ⟨top, ?_⟩
    intro page hp
    cases hp with
    | refl => exact order
    | step he hp => exact (search _ he).below page hp

/-! ## Leaves of an ordered tree -/

theorem Ordered.tier_eq (h : Ordered tier page) : page.kind.tier = tier := by
  cases h <;> rfl

/-- The tier changes once only. -/
theorem Ordered.tier_of_below (h : Ordered .measurement page) (below : Below page leaf) :
    leaf.kind.tier = .measurement := by
  induction below with
  | refl => exact h.tier_eq
  | step he _ ih =>
    cases h with
    | internal _ ordered _ _ => exact ih (ordered _ he)
    | measurementLeaf => simp [children] at he

/-- **The leaves of a tier** are all leaves of its kind that stand below the root of the tier. -/
theorem Ordered.mem_leaves_iff (h : Ordered tier page) :
    leaf ∈ page.leaves ↔ Below page leaf ∧ leaf.kind = .leaf tier := by
  induction page generalizing tier with
  | internal tier' entries ih =>
    obtain ⟨rfl, ordered⟩ := h.of_internal
    rw [leaves_internal, List.mem_flatMap]
    constructor
    · rintro ⟨e, he, mem⟩
      obtain ⟨below, hkind⟩ := (ih e he (ordered e he)).1 mem
      exact ⟨.step he below, hkind⟩
    · rintro ⟨below, hkind⟩
      cases below with
      | refl => simp [kind] at hkind
      | step he below => exact ⟨_, he, (ih _ he (ordered _ he)).2 ⟨below, hkind⟩⟩
  | deviceLeaf entries ih =>
    cases h with
    | deviceLeaf _ ordered =>
      rw [leaves_deviceLeaf, List.mem_singleton]
      constructor
      · rintro rfl
        exact ⟨.refl, rfl⟩
      · rintro ⟨below, hkind⟩
        cases below with
        | refl => rfl
        | step he below =>
          have := (ordered _ he).tier_of_below below
          rw [hkind] at this
          contradiction
  | measurementLeaf entries =>
    cases h with
    | measurementLeaf =>
      rw [leaves_measurementLeaf, List.mem_singleton]
      constructor
      · rintro rfl
        exact ⟨.refl, rfl⟩
      · rintro ⟨below, -⟩
        cases below with
        | refl => rfl
        | step he => simp [children] at he

theorem Ordered.nameBelow_iff (h : Ordered tier page) {name : Text} :
    NameBelow tier page name ↔ name ∈ page.leafNames := by
  simp only [NameBelow, leafNames, List.mem_flatMap, h.mem_leaves_iff, and_assoc]

theorem exists_eq_deviceLeaf (hkind : leaf.kind = .leaf .device) :
    ∃ entries, leaf = .deviceLeaf entries := by
  cases leaf with
  | deviceLeaf entries => exact ⟨entries, rfl⟩
  | internal | measurementLeaf => simp [kind] at hkind

theorem exists_eq_measurementLeaf (hkind : leaf.kind = .leaf .measurement) :
    ∃ entries, leaf = .measurementLeaf entries := by
  cases leaf with
  | measurementLeaf entries => exact ⟨entries, rfl⟩
  | internal | deviceLeaf => simp [kind] at hkind

theorem Ordered.mem_deviceEntries_iff (h : Ordered .device page) {e : ChildEntry (Page α)} :
    e ∈ page.deviceEntries ↔ ∃ entries, Below page (.deviceLeaf entries) ∧ e ∈ entries := by
  rw [deviceEntries, List.mem_flatMap]
  constructor
  · rintro ⟨leaf, mem, he⟩
    obtain ⟨below, hkind⟩ := h.mem_leaves_iff.1 mem
    obtain ⟨entries, rfl⟩ := exists_eq_deviceLeaf hkind
    exact ⟨entries, below, he⟩
  · rintro ⟨entries, below, he⟩
    exact ⟨_, h.mem_leaves_iff.2 ⟨below, rfl⟩, he⟩

theorem Ordered.mem_recordEntries_iff (h : Ordered .measurement page) {x : RecordEntry α} :
    x ∈ page.recordEntries ↔ ∃ entries, Below page (.measurementLeaf entries) ∧ x ∈ entries := by
  rw [recordEntries, List.mem_flatMap]
  constructor
  · rintro ⟨leaf, mem, hx⟩
    obtain ⟨below, hkind⟩ := h.mem_leaves_iff.1 mem
    obtain ⟨entries, rfl⟩ := exists_eq_measurementLeaf hkind
    exact ⟨entries, below, hx⟩
  · rintro ⟨entries, below, hx⟩
    exact ⟨_, h.mem_leaves_iff.2 ⟨below, rfl⟩, hx⟩

/-! ## Search trees are ordered -/

variable {entries : List (ChildEntry (Page α))}

theorem pairwise_of_isChain {names : ChildEntry (Page α) → Text → Prop}
    (ascending : Ascending ChildEntry.name entries)
    (apart : entries.IsChain fun a b => ∀ name, names a name → name < b.name) :
    entries.Pairwise fun a b => ∀ name, names a name → name < b.name := by
  induction entries with
  | nil => exact .nil
  | cons x entries ih =>
    obtain ⟨hx, ascending⟩ := List.pairwise_cons.1 ascending
    refine List.pairwise_cons.2 ⟨?_, ih ascending apart.tail⟩
    cases entries with
    | nil => simp
    | cons y entries =>
      have next := (List.isChain_cons_cons.1 apart).1
      intro z hz name hname
      rcases List.mem_cons.1 hz with rfl | hz
      · exact next name hname
      · exact Std.lt_trans (next name hname) ((List.pairwise_cons.1 ascending).1 z hz)

theorem SearchTree.ordered (h : SearchTree tier root) : Ordered tier root := by
  induction root generalizing tier with
  | internal tier' entries ih =>
    obtain ⟨rfl, order, search⟩ := searchTree_iff.1 h
    have ordered : ∀ e ∈ entries, Ordered tier' e.child := fun e he => ih e he (search e he)
    have ascending : Ascending ChildEntry.name entries := List.pairwise_map.1 order.ascending
    refine .internal ascending ordered ?_ ?_
    · intro e he name hname
      exact order.least rfl e he name ((ordered e he).nameBelow_iff.2 hname)
    · refine List.Pairwise.imp_of_mem ?_ (pairwise_of_isChain ascending (order.apart rfl))
      intro a b ha _ apart name hname
      exact apart name ((ordered a ha).nameBelow_iff.2 hname)
  | deviceLeaf entries ih =>
    obtain ⟨rfl, order, search⟩ := searchTree_iff.1 h
    exact .deviceLeaf (List.pairwise_map.1 order.ascending) fun e he => ih e he (search e he)
  | measurementLeaf entries =>
    obtain ⟨rfl, order, -⟩ := searchTree_iff.1 h
    exact .measurementLeaf (List.pairwise_map.1 order.ascending)

theorem Ordered.searchTree (h : Ordered tier root) : SearchTree tier root := by
  induction root generalizing tier with
  | internal tier' entries ih =>
    cases h with
    | internal ascending ordered least apart =>
      refine searchTree_iff.2 ⟨rfl, ?_, fun e he => ih e he (ordered e he)⟩
      refine ⟨fun e he => (ordered e he).tier_eq, List.pairwise_map.2 ascending, ?_, ?_⟩
      · intro _ e he name hname
        exact least e he name ((ordered e he).nameBelow_iff.1 hname)
      · intro _
        refine (List.Pairwise.imp_of_mem ?_ apart).isChain
        intro a b ha _ apart name hname
        exact apart name ((ordered a ha).nameBelow_iff.1 hname)
  | deviceLeaf entries ih =>
    cases h with
    | deviceLeaf ascending ordered =>
      refine searchTree_iff.2 ⟨rfl, ?_, fun e he => ih e he (ordered e he)⟩
      refine ⟨fun e he => (ordered e he).tier_eq, List.pairwise_map.2 ascending, ?_, ?_⟩
      · exact (nomatch ·)
      · exact (nomatch ·)
  | measurementLeaf entries =>
    cases h with
    | measurementLeaf ascending =>
      refine searchTree_iff.2 ⟨rfl, ?_, fun e he => absurd he List.not_mem_nil⟩
      refine ⟨fun e he => absurd he List.not_mem_nil, List.pairwise_map.2 ascending, ?_, ?_⟩
      · exact (nomatch ·)
      · exact (nomatch ·)

/-- **Search trees are the ordered trees.** -/
theorem searchTree_iff_ordered : SearchTree tier root ↔ Ordered tier root :=
  ⟨SearchTree.ordered, Ordered.searchTree⟩

/-! ## What a search tree keeps -/

theorem Ordered.ascending_leafNames (h : Ordered tier page) :
    page.leafNames.Pairwise (· < ·) := by
  induction page generalizing tier with
  | internal tier' entries ih =>
    cases h with
    | internal _ ordered least apart =>
      rw [leafNames_internal]
      refine List.pairwise_flatMap.2 ⟨fun e he => ih e he (ordered e he), ?_⟩
      refine List.Pairwise.imp_of_mem ?_ apart
      intro a b _ hb below name hname name' hname'
      exact Std.lt_of_lt_of_le (below name hname) (least b hb name' hname')
  | deviceLeaf entries =>
    cases h with
    | deviceLeaf ascending => simpa [leafNames, names, List.pairwise_map, Ascending] using ascending
  | measurementLeaf entries =>
    cases h with
    | measurementLeaf ascending =>
      simpa [leafNames, names, List.pairwise_map, Ascending] using ascending

theorem Ordered.ascending_of_leaves {β : Type} {held : Page α → List β} {name : β → Text}
    (h : Ordered tier page)
    (bear : ∀ leaf, leaf.kind = .leaf tier → (held leaf).map name = leaf.names) :
    Ascending name (page.leaves.flatMap held) := by
  have named : (page.leaves.flatMap held).map name = page.leafNames := by
    rw [leafNames, List.map_flatMap]
    exact List.flatMap_congr fun leaf mem => bear leaf (h.mem_leaves_iff.1 mem).2
  exact List.pairwise_map.1 (named ▸ h.ascending_leafNames)

theorem Ordered.ascending_deviceEntries (h : Ordered .device page) :
    Ascending ChildEntry.name page.deviceEntries := by
  refine h.ascending_of_leaves ?_
  intro leaf hkind
  obtain ⟨entries, rfl⟩ := exists_eq_deviceLeaf hkind
  rfl

theorem Ordered.ascending_recordEntries (h : Ordered .measurement page) :
    Ascending RecordEntry.name page.recordEntries := by
  refine h.ascending_of_leaves ?_
  intro leaf hkind
  obtain ⟨entries, rfl⟩ := exists_eq_measurementLeaf hkind
  rfl

theorem Ordered.recordAt?_eq_some_iff (h : Ordered .measurement page) :
    page.recordAt? measurement = some record ↔
      ∃ entries, Below page (.measurementLeaf entries) ∧
        ∃ x ∈ entries, x.name = measurement ∧ x.record = record := by
  have distinct := h.ascending_recordEntries.distinct
  rw [recordAt?, Option.map_eq_some_iff]
  constructor
  · rintro ⟨x, hfound, rfl⟩
    obtain ⟨mem, rfl⟩ := (find?_name_eq_some_iff distinct).1 hfound
    obtain ⟨entries, below, hx⟩ := h.mem_recordEntries_iff.1 mem
    exact ⟨entries, below, x, hx, rfl, rfl⟩
  · rintro ⟨entries, below, x, hx, rfl, rfl⟩
    have mem := h.mem_recordEntries_iff.2 ⟨entries, below, hx⟩
    exact ⟨x, (find?_name_eq_some_iff distinct).2 ⟨mem, rfl⟩, rfl⟩

/-- **A search of all leaves finds what an ordered tree keeps.** -/
theorem Ordered.lookup_eq_some_iff (h : Ordered .device root) :
    root.lookup device measurement = some record ↔ Keeps root device measurement record := by
  have distinct := h.ascending_deviceEntries.distinct
  rw [lookup, Option.bind_eq_some_iff]
  constructor
  · rintro ⟨e, hfound, hrecord⟩
    obtain ⟨mem, rfl⟩ := (find?_name_eq_some_iff distinct).1 hfound
    obtain ⟨devices, below, he⟩ := h.mem_deviceEntries_iff.1 mem
    exact ⟨devices, below, e, he, rfl,
      (h.of_mem_deviceEntries mem).recordAt?_eq_some_iff.1 hrecord⟩
  · rintro ⟨devices, below, e, he, rfl, kept⟩
    have mem := h.mem_deviceEntries_iff.2 ⟨devices, below, he⟩
    exact ⟨e, (find?_name_eq_some_iff distinct).2 ⟨mem, rfl⟩,
      (h.of_mem_deviceEntries mem).recordAt?_eq_some_iff.2 kept⟩

end Page

/-! ## Lookups -/

namespace Walker

variable {α : Type} {root : Page α}

/-- **A lookup is complete on every search tree**, whatever its shape.  For a path with a device, a
    walker of either mode that may visit as many pages as the tree is high finds the record that the
    tree keeps under the device and the measurement of the path, and nothing if it keeps none.  It
    neither fails nor logs. -/
theorem locate_searchTree (search : Page.SearchTree .device root) (w : Walker)
    (high : root.height ≤ w.maxDepth.toNat) (q : AnyPath) (device : q.devicePrefix ≠ []) :
    ∃ found, w.locate root q = { result := .ok found, log := [] } ∧
      ∀ record, found = some record ↔ root.Keeps q.devicePrefix q.terminal record := by
  have ordered := search.ordered
  exact ⟨_, locate_ordered ordered high device, fun record => ordered.lookup_eq_some_iff⟩

/-- Two devices; one has its records a level deeper than the other. -/
def unevenDevices : Page Nat :=
  .deviceLeaf [
    { name := "d", child := .measurementLeaf [{ name := "s", record := 1 }] },
    { name := "d.e", child := .internal .measurement [
      { name := "r", child := .measurementLeaf [{ name := "t", record := 2 }] }] }]

/-- A tree with an empty page, device leaves at two depths, and internal entries that are named by
    less than what is below them. -/
def unbalanced : Page Nat :=
  .internal .device [
    { name := "a", child := .deviceLeaf [] },
    { name := "b", child := .internal .device [{ name := "c", child := unevenDevices }] }]

/-- A record is found at the bottom, and nothing in the gaps. -/
theorem locate_unbalanced : unbalanced.SearchTree .device ∧
    unbalanced.height ≤ (Setting.standard .maxDepth).toNat ∧
    locate {} unbalanced (.series { device := "d.e", measurement := "t" }) =
      { result := .ok (some 2) } ∧
    locate {} unbalanced (.series { device := "a", measurement := "t" }) =
      { result := .ok none } := by
  have below : Page.Ordered .device unevenDevices := by
    refine .deviceLeaf (by decide) ?_
    intro e he
    rcases List.mem_pair.1 he with rfl | rfl
    · exact .measurementLeaf (by decide)
    · refine .internal (by decide) ?_ (by decide) (by decide)
      intro e he
      rw [List.mem_singleton.1 he]
      exact .measurementLeaf (by decide)
  have search : unbalanced.SearchTree .device := by
    refine Page.searchTree_iff_ordered.2 (.internal (by decide) ?_ (by decide) (by decide))
    intro e he
    rcases List.mem_pair.1 he with rfl | rfl
    · exact .deviceLeaf (by decide) fun e he => absurd he List.not_mem_nil
    · refine .internal (by decide) ?_ (by decide) (by decide)
      intro e he
      rw [List.mem_singleton.1 he]
      exact below
  have high : unbalanced.height ≤ (Setting.standard .maxDepth).toNat := by decide
  refine ⟨search, high, ?_, ?_⟩
  · obtain ⟨found, located, kept⟩ :=
      locate_searchTree search {} high (.series { device := "d.e", measurement := "t" }) (by decide)
    have keeps : unbalanced.Keeps "d.e" "t" 2 := by
      refine ⟨_, .step (List.mem_cons_of_mem _ List.mem_cons_self) (.step List.mem_cons_self .refl),
        _, List.mem_cons_of_mem _ List.mem_cons_self, rfl, ?_⟩
      exact ⟨_, .step List.mem_cons_self .refl, _, List.mem_cons_self, rfl, rfl⟩
    rw [located, (kept 2).2 keeps]
  · obtain ⟨found, located, kept⟩ :=
      locate_searchTree search {} high (.series { device := "a", measurement := "t" }) (by decide)
    have none : unbalanced.lookup "a" "t" = none := by cbv
    cases found with
    | none => exact located
    | some record =>
      have found := search.ordered.lookup_eq_some_iff.2 ((kept record).1 rfl)
      exact absurd (none.symm.trans found) (by simp)

end Walker

end SeriesCatalog
