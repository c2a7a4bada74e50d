/-
  Series catalog — sorted paths.

  Texts are in one total order, that of the first units that differ, and paths are
  in the order of their texts.  Different paths may be written alike; a sort keeps
  these in the order they came in, and this leaves it no choice.

  * `Text.compare_append_left`, `Text.compare_of_prefix`: the order of two texts is
    that of what follows their common front;
  * `Text.StableOrder`: things in ascending order of their texts, each with the
    position it came from, and those with one text by position;
  * `Text.StableOrder.unique`, `Text.stableOrder_sortOn`: there is one such order,
    and it is the one that sorting gives;
  * `AnyPath.sort_stable`: hence what the order of paths and their sort are.
-/
import SeriesCatalog.AnyPath
import SeriesCatalog.Proofs.TextOrder

namespace SeriesCatalog

/-! ## The order of texts -/

namespace Text

theorem compare_append_left (front a b : Text) :
    compare (front ++ a) (front ++ b) = compare a b := by
  induction front with
  | nil => rfl
  | cons u front ih =>
    have tied : compare u u = .eq := Std.ReflCmp.compare_self
    rw [List.cons_append, List.cons_append, List.compare_cons_cons, tied, ih]
    rfl

theorem compare_of_prefix {a b : Text} (h : a <+: b) (proper : a ≠ b) : compare a b = .lt := by
  obtain ⟨rest, rfl⟩ := h
  have longer : rest ≠ [] := by
    rintro rfl
    exact proper (List.append_nil a).symm
  obtain ⟨u, rest, rfl⟩ := List.exists_cons_of_ne_nil longer
  calc compare a (a ++ u :: rest)
      = compare (a ++ []) (a ++ u :: rest) := by rw [List.append_nil]
    _ = compare [] (u :: rest) := compare_append_left a _ _
    _ = .lt := List.compare_nil_cons

theorem compare_of_head_lt {u v : UInt16} (h : u < v) (a b : Text) :
    compare (u :: a) (v :: b) = .lt := by
  rw [compare_eq_lt_iff, List.cons_lt_cons_iff]
  exact Or.inl h

/-! ## Stable orders -/

section
variable {β : Type} {key : β → Text} {things : List β} {a b : β × Nat}

/-- Of two things, each with the position it came from, the first has the lesser text, or the same
    text and the lesser position. -/
def Precedes (key : β → Text) (a b : β × Nat) : Prop :=
  key a.1 < key b.1 ∨ key a.1 = key b.1 ∧ a.2 < b.2

instance (key : β → Text) (a b : β × Nat) : Decidable (Precedes key a b) :=
  inferInstanceAs (Decidable (_ ∨ _))

theorem Precedes.asymm (h : Precedes key a b) : ¬ Precedes key b a := by
  rintro (less | ⟨same, later⟩)
  · rcases h with less' | ⟨same', -⟩
    · exact Std.lt_irrefl (Std.lt_trans less less')
    · rw [same'] at less
      exact Std.lt_irrefl less
  · rcases h with less' | ⟨-, earlier⟩
    · rw [same] at less'
      exact Std.lt_irrefl less'
    · omega

/-- All the things of a list, each with the position it came from, in ascending order; things with
    the same text keep the order they came in. -/
structure StableOrder (key : β → Text) (things : List β) (order : List (β × Nat)) : Prop where
  perm : order.Perm things.zipIdx
  ascending : order.Pairwise (Precedes key)

/-- **There is one stable order at most.** -/
theorem StableOrder.unique {order other : List (β × Nat)} (h : StableOrder key things order)
    (h' : StableOrder key things other) : order = other :=
  (h.perm.trans h'.perm.symm).eq_of_pairwise (fun _ _ _ _ hab hba => absurd hba hab.asymm)
    h.ascending h'.ascending

/-- The things of a list with their positions, sorted by both. -/
def ranked (key : β → Text) (things : List β) : List (β × Nat) :=
  things.zipIdx.mergeSort (List.zipIdxLE fun a b => (compare (key a) (key b)).isLE)

theorem precedes_of_zipIdxLE (apart : a.2 ≠ b.2)
    (h : List.zipIdxLE (fun a b => (compare (key a) (key b)).isLE) a b = true) :
    Precedes key a b := by
  unfold List.zipIdxLE at h
  split at h
  · next below =>
    rw [Std.isLE_compare] at below
    split at h
    · next above =>
      rw [Std.isLE_compare] at above
      exact Or.inr ⟨Std.le_antisymm below above, Nat.lt_of_le_of_ne (of_decide_eq_true h) apart⟩
    · next notAbove =>
      rw [Std.isLE_compare, Std.not_le] at notAbove
      exact Or.inl notAbove
  · contradiction

/-- **Sorting with positions gives the stable order**, and sorting alone gives its things. -/
theorem stableOrder_sortOn (key : β → Text) (things : List β) :
    StableOrder key things (ranked key things) ∧
      sortOn key things = (ranked key things).map Prod.fst := by
  have perm : (ranked key things).Perm things.zipIdx := List.mergeSort_perm _ _
  have distinct : (ranked key things).Pairwise fun a b => a.2 ≠ b.2 := by
    refine List.pairwise_map.1 ((perm.map Prod.snd).nodup_iff.2 ?_)
    rw [List.zipIdx_map_snd]
    exact List.nodup_range'
  have sorted := List.pairwise_mergeSort (List.zipIdxLE_trans (isLE_compare_trans key))
    (List.zipIdxLE_total (isLE_compare_total key)) things.zipIdx
  exact ⟨⟨perm, distinct.imp₂ (fun _ _ => precedes_of_zipIdxLE) sorted⟩,
    List.mergeSort_zipIdx.symm⟩

theorem sortOn_sortOn (key : β → Text) (things : List β) :
    sortOn key (sortOn key things) = sortOn key things :=
  List.mergeSort_of_pairwise ((pairwise_sortOn key things).imp Std.isLE_compare.2)

end

end Text

/-! ## Sorted paths -/

namespace AnyPath

/-- **The order of paths and their sort.**  Texts are in one strict total order, which compares the
    first units that differ; a common front does not matter, and a text stands before those that go
    on behind it.  Paths of any kind are in the order of their texts, which is total, and the other
    way round it is reversed.  The paths of a list have one stable order, and sorting gives it;
    what is sorted stays as it is. -/
theorem sort_stable :
    ((∀ a b : Text, Ord.compare a b = .eq ↔ a = b) ∧
      (∀ a b : Text, Ord.compare b a = (Ord.compare a b).swap) ∧
      (∀ a b c : Text, Ord.compare a b = .lt → Ord.compare b c = .lt → Ord.compare a c = .lt) ∧
      (∀ front a b : Text, Ord.compare (front ++ a) (front ++ b) = Ord.compare a b) ∧
      (∀ a b : Text, a <+: b → a ≠ b → Ord.compare a b = .lt) ∧
      ∀ (u v : UInt16) (a b : Text), u < v → Ord.compare (u :: a) (v :: b) = .lt) ∧
    ((∀ a b : AnyPath, b.compare a = (a.compare b).swap) ∧
      (∀ a b : AnyPath, (a.compare b).isLE ∨ (b.compare a).isLE) ∧
      ∀ a b c : AnyPath, (a.compare b).isLE → (b.compare c).isLE → (a.compare c).isLE) ∧
    ∀ paths : List AnyPath,
      (∃ order, Text.StableOrder fullPath paths order ∧
        (∀ other, Text.StableOrder fullPath paths other → other = order) ∧
        sort paths = order.map Prod.fst) ∧
      sort (sort paths) = sort paths := by
  refine ⟨⟨?_, ?_, ?_, Text.compare_append_left, ?_, ?_⟩, ⟨?_, ?_, ?_⟩, fun paths => ⟨?_, ?_⟩⟩
  · intro a b
    exact Std.LawfulEqOrd.compare_eq_iff_eq
  · intro a b
    exact Std.OrientedOrd.eq_swap
  · intro a b c
    exact Std.TransCmp.lt_trans
  · intro a b
    exact Text.compare_of_prefix
  · intro u v a b h
    exact Text.compare_of_head_lt h a b
  · intro a b
    exact Std.OrientedOrd.eq_swap
  · intro a b
    exact Bool.or_eq_true_iff.1 (Text.isLE_compare_total fullPath a b)
  · exact Text.isLE_compare_trans fullPath
  · obtain ⟨stable, sorted⟩ := Text.stableOrder_sortOn fullPath paths
    refine ⟨_, stable, fun other h => h.unique stable, ?_⟩
    rw [sort, sortBy_eq_sortOn]
    exact sorted
  · simp only [sort, sortBy_eq_sortOn]
    exact Text.sortOn_sortOn _ paths

/-- A path, a series whose device has an unclosed quote, and an aliased path that is written as the
    first. -/
def tied : List AnyPath :=
  [.plain { nodes := ["b", "c"] }, .series { device := "a\"", measurement := "m" },
    .aliased { path := { nodes := ["b.c"] }, displayAlias := some "a" }]

/-- The two that are written alike stay in their order behind the series. -/
theorem sort_of_tied : sort tied =
    [.series { device := "a\"", measurement := "m" }, .plain { nodes := ["b", "c"] },
      .aliased { path := { nodes := ["b.c"] }, displayAlias := some "a" }] := by
  obtain ⟨-, -, sorts⟩ := sort_stable
  obtain ⟨⟨order, -, unique, sorted⟩, -⟩ := sorts tied
  have stable : Text.StableOrder fullPath tied
      [(.series { device := "a\"", measurement := "m" }, 1), (.plain { nodes := ["b", "c"] }, 0),
        (.aliased { path := { nodes := ["b.c"] }, displayAlias := some "a" }, 2)] :=
    ⟨by decide, by decide⟩
  rw [sorted, ← unique _ stable]
  rfl

end AnyPath

end SeriesCatalog
