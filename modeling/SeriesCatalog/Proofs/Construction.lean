/-
  Series catalog — the trees that a build raises.

  * `Page.Sorted`: a level of search trees whose leaf names ascend from page
    to page; raising a level keeps it sorted, so that the page over it is a
    search tree (`Page.Sorted.ordered_apex`);
  * `Page.leaves_apex`: the leaves below an apex are those of the level;
  * what the tier of a device and the tier of all devices hold, and their
    shape: `Page.ofRecordEntries_stacked`, `Page.ofDeviceEntries_stacked`.
-/
import Mathlib.Data.List.Flatten
import SeriesCatalog.Proofs.Levels
import SeriesCatalog.Proofs.Ordered

namespace SeriesCatalog.Page

variable {α : Type} {tier : Tier} {degree : Degree} {level : List (Page α)}

/-! ## Sorted levels -/

/-- Search trees side by side.  Each is named by the first of its leaf names, and the leaf names
    ascend along the level. -/
structure Sorted (tier : Tier) (level : List (Page α)) : Prop where
  ordered : ∀ page ∈ level, Ordered tier page
  begins : ∀ page ∈ level, ∃ others, page.leafNames = page.firstName :: others
  ascending : (level.flatMap leafNames).Pairwise (· < ·)

theorem Sorted.sublist {part : List (Page α)} (sorted : Sorted tier level)
    (h : part.Sublist level) : Sorted tier part where
  ordered page hp := sorted.ordered page (h.subset hp)
  begins page hp := sorted.begins page (h.subset hp)
  ascending := sorted.ascending.sublist (h.flatMap leafNames)

theorem leafNames_parent (tier : Tier) (pages : List (Page α)) :
    (parent tier pages).leafNames = pages.flatMap leafNames := by
  rw [parent, leafNames_internal, List.flatMap_map]

theorem leaves_parent (tier : Tier) (pages : List (Page α)) :
    (parent tier pages).leaves = pages.flatMap leaves := by
  rw [parent, leaves_internal, List.flatMap_map]

theorem firstName_mem_leafNames (sorted : Sorted tier level) {page : Page α} (h : page ∈ level) :
    page.firstName ∈ page.leafNames := by
  obtain ⟨others, begins⟩ := sorted.begins page h
  rw [begins]
  exact List.mem_cons_self

/-- **The page over a sorted level is a search tree.** -/
theorem Sorted.ordered_parent (sorted : Sorted tier level) : Ordered tier (parent tier level) := by
  obtain ⟨within, across⟩ := List.pairwise_flatMap.1 sorted.ascending
  have apart : level.Pairwise fun p q => ∀ name ∈ p.leafNames, name < q.firstName := by
    refine List.Pairwise.imp_of_mem ?_ across
    intro p q _ hq below name hname
    exact below name hname q.firstName (firstName_mem_leafNames sorted hq)
  refine .internal ?_ ?_ ?_ ?_
  · refine List.pairwise_map.2 (List.Pairwise.imp_of_mem ?_ apart)
    intro p q hp _ below
    exact below p.firstName (firstName_mem_leafNames sorted hp)
  · rintro _ he
    obtain ⟨page, hp, rfl⟩ := List.mem_map.1 he
    exact sorted.ordered page hp
  · rintro _ he name hname
    obtain ⟨page, hp, rfl⟩ := List.mem_map.1 he
    obtain ⟨others, begins⟩ := sorted.begins page hp
    have hwithin := within page hp
    rw [begins] at hwithin hname
    rcases List.mem_cons.1 hname with rfl | hname
    · exact Std.le_refl _
    · exact Std.le_of_lt ((List.pairwise_cons.1 hwithin).1 name hname)
  · exact List.pairwise_map.2 apart

theorem flatMap_raise {β : Type} {f : Page α → List β}
    (h : ∀ pages, f (parent tier pages) = pages.flatMap f) (degree : Degree)
    (level : List (Page α)) : (raise tier degree level).flatMap f = level.flatMap f := by
  calc (raise tier degree level).flatMap f
      = (chunks degree.toNat level).flatMap fun pages => pages.flatMap f := by
        rw [raise_eq_map_parent, List.flatMap_map]
        exact List.flatMap_congr fun pages _ => h pages
    _ = ((chunks degree.toNat level).flatten).flatMap f := by
        rw [← List.flatMap_id', List.flatMap_assoc]
    _ = level.flatMap f := by rw [flatten_chunks]

theorem Sorted.raise (sorted : Sorted tier level) : Sorted tier (raise tier degree level) where
  ordered := by
    rintro _ hp
    rw [raise_eq_map_parent] at hp
    obtain ⟨pages, hpages, rfl⟩ := List.mem_map.1 hp
    exact (sorted.sublist (sublist_of_mem_chunks hpages)).ordered_parent
  begins := by
    rintro _ hp
    rw [raise_eq_map_parent] at hp
    obtain ⟨pages, hpages, rfl⟩ := List.mem_map.1 hp
    cases pages with
    | nil => exact absurd rfl (ne_nil_of_mem_chunks hpages)
    | cons page pages =>
      have mem := (sublist_of_mem_chunks hpages).subset List.mem_cons_self
      obtain ⟨others, begins⟩ := sorted.begins page mem
      refine ⟨others ++ pages.flatMap leafNames, ?_⟩
      rw [leafNames_parent, List.flatMap_cons, begins]
      rfl
  ascending := by
    rw [flatMap_raise (leafNames_parent tier)]
    exact sorted.ascending

theorem Sorted.ordered_apex (sorted : Sorted tier level) :
    Ordered tier (apex tier degree level) := by
  fun_induction apex tier degree level with
  | case1 => exact sorted.ordered_parent
  | case2 page => exact sorted.ordered page List.mem_cons_self
  | case3 first second rest ih => exact ih sorted.raise

theorem leaves_apex (tier : Tier) (degree : Degree) (level : List (Page α)) :
    (apex tier degree level).leaves = level.flatMap leaves := by
  fun_induction apex tier degree level with
  | case1 => simp
  | case2 page => simp
  | case3 first second rest ih => rw [ih, flatMap_raise (leaves_parent tier)]

/-! ## Leaves -/

theorem leafNames_of_leaf {page : Page α} (h : page.leaves = [page]) :
    page.leafNames = page.names := by
  rw [leafNames, h, List.flatMap_singleton]

/-- **Entries cut into leaves make a sorted level**, if the names ascend. -/
theorem sorted_chunks {ε : Type} {name : ε → Text} {page : List ε → Page α} {items : List ε}
    (hleaf : ∀ piece, (page piece).leaves = [page piece])
    (hnames : ∀ piece, (page piece).names = piece.map name) (ascending : Ascending name items)
    (ordered : ∀ piece, piece.Sublist items → Ordered tier (page piece)) :
    Sorted tier ((chunks degree.toNat items).map page) where
  ordered := by
    rintro _ hp
    obtain ⟨piece, hpiece, rfl⟩ := List.mem_map.1 hp
    exact ordered piece (sublist_of_mem_chunks hpiece)
  begins := by
    rintro _ hp
    obtain ⟨piece, hpiece, rfl⟩ := List.mem_map.1 hp
    rw [leafNames_of_leaf (hleaf piece), firstName_eq_headD, hnames]
    cases piece with
    | nil => exact absurd rfl (ne_nil_of_mem_chunks hpiece)
    | cons e piece => exact ⟨piece.map name, rfl⟩
  ascending := by
    have hflat : ((chunks degree.toNat items).map page).flatMap leafNames = items.map name := by
      rw [List.flatMap_map, List.flatMap_congr fun piece _ =>
        (leafNames_of_leaf (hleaf piece)).trans (hnames piece), List.flatMap_def,
        ← List.map_flatten, flatten_chunks]
    rw [hflat]
    exact List.pairwise_map.2 ascending

/-! ## The tier of a device -/

section

variable {entries : List (RecordEntry α)}

theorem leaves_ofRecordEntries (degree : Degree) (entries : List (RecordEntry α)) :
    (ofRecordEntries degree entries).leaves =
      (chunks degree.toNat entries).map .measurementLeaf := by
  rw [ofRecordEntries, leaves_apex, List.flatMap_map]
  simp only [leaves_measurementLeaf]
  rw [List.map_eq_flatMap]

@[simp]
theorem recordEntries_ofRecordEntries (degree : Degree) (entries : List (RecordEntry α)) :
    (ofRecordEntries degree entries).recordEntries = entries := by
  rw [recordEntries, leaves_ofRecordEntries, List.flatMap_map]
  simp only [holdings]
  rw [List.flatMap_id', flatten_chunks]

theorem ofRecordEntries_ordered (ascending : Ascending RecordEntry.name entries) :
    Ordered .measurement (ofRecordEntries degree entries) := by
  refine Sorted.ordered_apex (sorted_chunks ?_ ?_ ascending ?_)
  · exact leaves_measurementLeaf
  · exact fun piece => rfl
  · exact fun piece sub => .measurementLeaf (ascending.sublist sub)

theorem ofRecordEntries_stacked (ascending : Ascending RecordEntry.name entries)
    (h : entries ≠ []) :
    Stacked .measurement degree.toNat (levelCount degree.toNat 0 entries.length)
      (ofRecordEntries degree entries) := by
  have hlevel : (chunks degree.toNat entries).map (measurementLeaf) ≠ [] := by
    simpa using chunks_ne_nil h
  have climbs := climbs_apex .measurement degree hlevel
  rw [List.length_map, length_chunks degree.pos, clog_pieces degree.two_le] at climbs
  rw [levelCount, Nat.zero_max]
  refine climbs.stacked (even_chunks degree.pos (fun _ => rfl) (List.pairwise_map.2 ascending)) ?_
  rintro _ hp
  obtain ⟨piece, -, rfl⟩ := List.mem_map.1 hp
  rfl

end

/-! ## The tier of all devices -/

section

variable {entries : List (ChildEntry (Page α))}

theorem leaves_ofDeviceEntries (degree : Degree) (entries : List (ChildEntry (Page α))) :
    (ofDeviceEntries degree entries).leaves = (chunks degree.toNat entries).map .deviceLeaf := by
  rw [ofDeviceEntries, leaves_apex, flatMap_raise (leaves_parent .device), List.flatMap_map]
  simp only [leaves_deviceLeaf]
  rw [List.map_eq_flatMap]

@[simp]
theorem deviceEntries_ofDeviceEntries (degree : Degree) (entries : List (ChildEntry (Page α))) :
    (ofDeviceEntries degree entries).deviceEntries = entries := by
  rw [deviceEntries, leaves_ofDeviceEntries, List.flatMap_map]
  simp only [children]
  rw [List.flatMap_id', flatten_chunks]

theorem ofDeviceEntries_ordered (ascending : Ascending ChildEntry.name entries)
    (ordered : ∀ e ∈ entries, Ordered .measurement e.child) :
    Ordered .device (ofDeviceEntries degree entries) := by
  refine Sorted.ordered_apex (Sorted.raise (sorted_chunks ?_ ?_
    ascending ?_))
  · exact leaves_deviceLeaf
  · exact fun piece => rfl
  · exact fun piece sub => .deviceLeaf (ascending.sublist sub) fun e he => ordered e (sub.subset he)

/-- The tier of all devices has the shape of a tier, on one level of internal pages at least. -/
theorem ofDeviceEntries_stacked (ascending : Ascending ChildEntry.name entries)
    (h : entries ≠ []) :
    Stacked .device degree.toNat (levelCount degree.toNat 1 entries.length)
      (ofDeviceEntries degree entries) := by
  have hlevel : (chunks degree.toNat entries).map (deviceLeaf) ≠ [] := by
    simpa using chunks_ne_nil h
  have climbs := (climbs_apex .device degree (raise_ne_nil hlevel)).succ
  rw [length_raise, List.length_map, length_chunks degree.pos, clog_pieces degree.two_le,
    clog_pieces degree.two_le] at climbs
  have levels : levelCount degree.toNat 1 entries.length =
      Nat.clog degree.toNat entries.length - 1 - 1 + 1 := by
    rw [levelCount]
    omega
  rw [levels]
  refine climbs.stacked (even_chunks degree.pos (fun _ => rfl) (List.pairwise_map.2 ascending)) ?_
  rintro _ hp
  obtain ⟨piece, -, rfl⟩ := List.mem_map.1 hp
  rfl

end

end SeriesCatalog.Page
