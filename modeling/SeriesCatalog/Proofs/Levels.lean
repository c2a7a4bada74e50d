/-
  Series catalog — levels of a tier.

  * `Page.climbs_apex`: under the page over a level there are the levels that
    were raised over it, one by one, and their number is logarithmic in that of
    the pages;
  * `Page.Even`: pages are full but for the last of a level, and names ascend
    along the level; cutting entries into pages makes an even level
    (`Page.even_chunks`), so that raising a level keeps it even;
  * `Page.Stacked`: the shape of a tier, with its leaves at one depth.  The
    page over an even level of leaves has it (`Page.Climbs.stacked`).
-/
import Mathlib.Data.List.Basic
import Mathlib.Data.Nat.Log
import SeriesCatalog.Proofs.Chunks
import SeriesCatalog.Proofs.TextOrder
import SeriesCatalog.Proofs.Tree

namespace SeriesCatalog.Page

variable {α : Type} {tier : Tier} {degree : Degree} {d n : Nat} {root : Page α}
  {level : List (Page α)}

/-! ## The levels below an apex -/

/-- The internal page that is raised over a piece of a level. -/
def parent (tier : Tier) (pages : List (Page α)) : Page α :=
  .internal tier (pages.map fun page => { name := page.firstName, child := page })

theorem raise_eq_map_parent (tier : Tier) (degree : Degree) (level : List (Page α)) :
    raise tier degree level = (chunks degree.toNat level).map (parent tier) := rfl

theorem raise_ne_nil (h : level ≠ []) : raise tier degree level ≠ [] := by
  rw [raise_eq_map_parent, ne_eq, List.map_eq_nil_iff]
  exact chunks_ne_nil h

@[simp]
theorem under_parent (tier : Tier) (pages : List (Page α)) : (parent tier pages).under = pages := by
  simp [parent, under, Function.comp_def]

theorem length_raise (tier : Tier) (degree : Degree) (level : List (Page α)) :
    (raise tier degree level).length = (level.length + degree.toNat - 1) / degree.toNat := by
  rw [raise, List.length_map, length_chunks degree.pos]

theorem flatMap_under_raise (tier : Tier) (degree : Degree) (level : List (Page α)) :
    (raise tier degree level).flatMap under = level := by
  rw [raise_eq_map_parent, List.flatMap_map]
  simp only [under_parent]
  rw [List.flatMap_id', flatten_chunks]

/-- A level stands under a page, with levels raised over it up to the page. -/
structure Climbs (tier : Tier) (degree : Degree) (n : Nat) (root : Page α)
    (level : List (Page α)) : Prop where
  base : root.level n = level
  step : ∀ k < n, root.level k = raise tier degree (root.level (k + 1))

theorem Climbs.succ (h : Climbs tier degree n root (raise tier degree level)) :
    Climbs tier degree (n + 1) root level := by
  have base : root.level (n + 1) = level := by
    rw [Page.level, h.base, flatMap_under_raise]
  refine ⟨base, fun k hk => ?_⟩
  rcases Nat.lt_succ_iff_lt_or_eq.1 hk with hk | rfl
  · exact h.step k hk
  · rw [base, h.base]

/-- **The number of levels over a level** is the least `n` for which `degree ^ n` reaches the
    number of its pages. -/
theorem climbs_apex (tier : Tier) (degree : Degree) (h : level ≠ []) :
    Climbs tier degree (Nat.clog degree.toNat level.length) (apex tier degree level) level := by
  fun_induction apex tier degree level with
  | case1 => contradiction
  | case2 page =>
    rw [List.length_singleton, Nat.clog_one_right]
    exact ⟨rfl, fun k hk => absurd hk (Nat.not_lt_zero k)⟩
  | case3 first second rest ih =>
    have climbs := ih (raise_ne_nil h)
    rw [length_raise] at climbs
    rw [Nat.clog_of_one_lt degree.two_le (by simp)]
    exact climbs.succ

/-! ## The number of levels -/

/-- The number of levels of internal pages in a tier whose leaves have `count` entries, where a page
    has at most `d` of them and `least` levels are raised in any case. -/
def levelCount (d least count : Nat) : Nat := max least (Nat.clog d count - 1)

theorem clog_pieces {count : Nat} (hd : 2 ≤ d) :
    Nat.clog d ((count + d - 1) / d) = Nat.clog d count - 1 := by
  by_cases several : 1 < count
  · rw [Nat.clog_of_one_lt hd several, Nat.add_sub_cancel]
  · have few : (count + d - 1) / d ≤ 1 := by
      rw [Nat.div_le_iff_le_mul (by omega)]
      omega
    rw [Nat.clog_of_right_le_one few, Nat.clog_of_right_le_one (by omega)]

/-! ## Even levels -/

/-- All pages of a level are full but the last, which is not empty, and the names ascend along
    the level. -/
structure Even (d : Nat) (level : List (Page α)) : Prop where
  nonempty : ∀ page ∈ level, page.names ≠ []
  bounded : ∀ page ∈ level, page.names.length ≤ d
  full : ∀ page ∈ level.dropLast, page.names.length = d
  ascending : (level.flatMap names).Pairwise (· < ·)

/-- **Entries cut into pages make an even level.** -/
theorem even_chunks {ε : Type} {name : ε → Text} {page : List ε → Page α} {items : List ε}
    (hd : 0 < d) (hnames : ∀ piece, (page piece).names = piece.map name)
    (ascending : (items.map name).Pairwise (· < ·)) : Even d ((chunks d items).map page) where
  nonempty := by
    rintro _ hp
    obtain ⟨piece, hpiece, rfl⟩ := List.mem_map.1 hp
    simpa [hnames] using ne_nil_of_mem_chunks hpiece
  bounded := by
    rintro _ hp
    obtain ⟨piece, hpiece, rfl⟩ := List.mem_map.1 hp
    simpa [hnames] using length_le_of_mem_chunks hd hpiece
  full := by
    rintro _ hp
    rw [← List.map_dropLast] at hp
    obtain ⟨piece, hpiece, rfl⟩ := List.mem_map.1 hp
    simpa [hnames] using length_of_mem_dropLast_chunks hd hpiece
  ascending := by
    rw [List.flatMap_map]
    simp only [hnames]
    rw [List.flatMap_def, ← List.map_flatten, flatten_chunks]
    exact ascending

theorem firstName_sublist_names (h : ∀ page ∈ level, page.names ≠ []) :
    (level.map firstName).Sublist (level.flatMap names) := by
  induction level with
  | nil => exact List.Sublist.slnil
  | cons page level ih =>
    have hpage : page.names = page.firstName :: page.names.tail := by
      rw [firstName_eq_headD]
      cases hn : page.names with
      | nil => exact absurd hn (h page (by simp))
      | cons => rfl
    rw [List.map_cons, List.flatMap_cons, hpage, List.cons_append]
    exact ((ih fun p hp => h p (by simp [hp])).trans (List.sublist_append_right _ _)).cons_cons _

theorem names_parent (tier : Tier) (pages : List (Page α)) :
    (parent tier pages).names = pages.map firstName := by
  simp [parent, names]

theorem Even.raise (even : Even degree.toNat level) : Even degree.toNat (raise tier degree level) :=
  even_chunks degree.pos (names_parent tier)
    (even.ascending.sublist (firstName_sublist_names even.nonempty))

/-! ## The shape of a tier -/

/-- The pages of a tier: internal pages on `n` levels, named by the first names below them, and
    under these the level of all leaves. -/
structure Stacked (tier : Tier) (d n : Nat) (root : Page α) : Prop where
  internal : ∀ k < n, ∀ page ∈ root.level k, page.kind = .internal tier
  leaf : ∀ page ∈ root.level n, page.kind = .leaf tier
  leaves : root.leaves = root.level n
  even : ∀ k ≤ n, Even d (root.level k)
  named : ∀ k < n, ∀ page ∈ root.level k, ∀ entry ∈ page.children,
    entry.name = entry.child.firstName

theorem leaves_of_internal {page : Page α} (h : page.kind = .internal tier) :
    page.leaves = page.under.flatMap leaves := by
  cases page with
  | internal tier' entries => simp [under, List.flatMap_map]
  | deviceLeaf entries | measurementLeaf entries => simp [kind] at h

theorem leaves_of_leaf {page : Page α} (h : page.kind = .leaf tier) : page.leaves = [page] := by
  cases page with
  | internal tier' entries => simp [kind] at h
  | deviceLeaf entries | measurementLeaf entries => simp

theorem flatMap_leaves_level
    (internal : ∀ k < n, ∀ page ∈ root.level k, page.kind = .internal tier) :
    root.leaves = (root.level n).flatMap leaves := by
  induction n with
  | zero => simp [Page.level]
  | succ n ih =>
    calc root.leaves
        = (root.level n).flatMap leaves := ih fun k hk => internal k (Nat.lt_succ_of_lt hk)
      _ = (root.level n).flatMap fun page => page.under.flatMap leaves :=
        List.flatMap_congr fun page hp =>
          leaves_of_internal (internal n (Nat.lt_succ_self n) page hp)
      _ = (root.level (n + 1)).flatMap leaves := by rw [Page.level, List.flatMap_assoc]

theorem Climbs.mem_level {k : Nat} {page : Page α} (climbs : Climbs tier degree n root level)
    (hk : k < n) (h : page ∈ root.level k) : ∃ pages, page = parent tier pages := by
  rw [climbs.step k hk, raise_eq_map_parent] at h
  obtain ⟨pages, -, rfl⟩ := List.mem_map.1 h
  exact ⟨pages, rfl⟩

theorem Climbs.even {k : Nat} (climbs : Climbs tier degree n root level)
    (even : Even degree.toNat level) (hk : k ≤ n) : Even degree.toNat (root.level k) := by
  -- from the base upwards: each level is raised over the one below
  induction hd : n - k generalizing k with
  | zero =>
    obtain rfl : k = n := by omega
    rw [climbs.base]
    exact even
  | succ i ih =>
    rw [climbs.step k (by omega)]
    exact (ih (by omega) (by omega)).raise

/-- **A tier has its shape** as soon as the leaves are an even level and all levels over it were
    raised. -/
theorem Climbs.stacked (climbs : Climbs tier degree n root level)
    (even : Even degree.toNat level) (leaf : ∀ page ∈ level, page.kind = .leaf tier) :
    Stacked tier degree.toNat n root := by
  have internal : ∀ k < n, ∀ page ∈ root.level k, page.kind = .internal tier := by
    intro k hk page hp
    obtain ⟨pages, rfl⟩ := climbs.mem_level hk hp
    rfl
  refine ⟨internal, climbs.base ▸ leaf, ?_, fun k => climbs.even even, ?_⟩
  · calc root.leaves
        = level.flatMap leaves := by rw [flatMap_leaves_level internal, climbs.base]
      _ = level.flatMap fun page => [page] :=
        List.flatMap_congr fun page hp => leaves_of_leaf (leaf page hp)
      _ = root.level n := by rw [List.flatMap_singleton', climbs.base]
  · intro k hk page hp entry he
    obtain ⟨pages, rfl⟩ := climbs.mem_level hk hp
    obtain ⟨child, -, rfl⟩ := List.mem_map.1 he
    rfl

/-! ## Chains through a tier -/

theorem mem_under_of_mem_children {page : Page α} {e : ChildEntry (Page α)}
    (h : page.kind = .internal tier) (he : e ∈ page.children) : e.child ∈ page.under := by
  cases page with
  | internal tier' entries => exact List.mem_map_of_mem he
  | deviceLeaf entries | measurementLeaf entries => simp [kind] at h

theorem Descent.child {page : Page α} {kinds : List PageKind} (h : Descent page kinds)
    (hc : page.children ≠ []) :
    ∃ e ∈ page.children, ∃ rest, kinds = page.kind :: rest ∧ Descent e.child rest := by
  cases h with
  | stop none => exact absurd none hc
  | step he rest => exact ⟨_, he, _, rfl, rest⟩

theorem Stacked.children_ne_nil {k : Nat} {page : Page α} (stacked : Stacked tier d n root)
    (hk : k ≤ n) (hp : page ∈ root.level k) (kind : page.kind ≠ .leaf .measurement) :
    page.children ≠ [] := by
  intro none
  have hlen := length_children_of_kind kind
  rw [none] at hlen
  exact (stacked.even k hk).nonempty page hp (List.length_eq_zero_iff.1 hlen.symm)

/-- **A chain passes all levels of a tier, one after the other.** -/
theorem Stacked.descent {kinds : List PageKind} (stacked : Stacked tier d n root)
    (h : Descent root kinds) :
    ∃ leaf ∈ root.level n, ∃ rest,
      kinds = List.replicate n (.internal tier) ++ rest ∧ Descent leaf rest := by
  suffices ∀ k ≤ n, ∃ page ∈ root.level k, ∃ rest,
      kinds = List.replicate k (.internal tier) ++ rest ∧ Descent page rest from
    this n (Nat.le_refl n)
  intro k hk
  induction k with
  | zero => exact ⟨root, by simp [Page.level], kinds, rfl, h⟩
  | succ k ih =>
    obtain ⟨page, hp, rest, rfl, hrest⟩ := ih (by omega)
    have hkind := stacked.internal k hk page hp
    have hne := stacked.children_ne_nil (by omega) hp (by simp [hkind])
    obtain ⟨e, he, rest', rfl, hrest'⟩ := hrest.child hne
    refine ⟨e.child, ?_, rest', ?_, hrest'⟩
    · exact List.mem_flatMap.2 ⟨page, hp, mem_under_of_mem_children hkind he⟩
    · rw [hkind, List.replicate_succ', List.append_assoc, List.singleton_append]

end SeriesCatalog.Page
