/-
  Series catalog — the order of texts.

  `compare` orders texts as the lexicographic order of their units does, so
  that facts about `<` and `≤` apply to searches and sorts.
-/
import SeriesCatalog.Text.Basic

namespace SeriesCatalog.Text

theorem compare_eq_lt_iff {a b : Text} : compare a b = .lt ↔ a < b := by
  induction a generalizing b with
  | nil => cases b <;> simp
  | cons u a ih =>
    cases b with
    | nil => simp
    | cons v b =>
      rw [List.compare_eq_compareLex] at ih ⊢
      rw [List.compareLex_cons_cons, List.cons_lt_cons_iff, Ordering.then_eq_lt, ih,
        Std.compare_eq_lt, Std.LawfulEqOrd.compare_eq_iff_eq]

instance : Std.LawfulOrderOrd Text where
  isLE_compare a b := by
    rw [← List.not_lt, ← compare_eq_lt_iff, Std.OrientedOrd.eq_swap (a := a)]
    cases compare b a <;> decide
  isGE_compare a b := by
    rw [← List.not_lt, ← compare_eq_lt_iff]
    cases compare a b <;> decide

/-! ## Sorting -/

section
variable {β : Type} (key : β → Text) (things : List β)

theorem sortOn_perm : (sortOn key things).Perm things :=
  List.mergeSort_perm things _

theorem isLE_compare_trans (a b c : β) (hab : (compare (key a) (key b)).isLE)
    (hbc : (compare (key b) (key c)).isLE) : (compare (key a) (key c)).isLE :=
  Std.TransCmp.isLE_trans hab hbc

theorem isLE_compare_total (a b : β) :
    (compare (key a) (key b)).isLE || (compare (key b) (key a)).isLE := by
  simpa only [Std.isLE_compare, Bool.or_eq_true] using Std.le_total

theorem pairwise_sortOn : (sortOn key things).Pairwise fun a b => key a ≤ key b :=
  (List.pairwise_mergeSort (isLE_compare_trans key) (isLE_compare_total key) things).imp
    Std.isLE_compare.1

/-- Things with one text keep the order they came in. -/
theorem filter_sortOn (text : Text) :
    (sortOn key things).filter (fun x => key x = text) =
      things.filter fun x => key x = text := by
  have tied : (things.filter fun x => key x = text).Pairwise fun a b =>
      (compare (key a) (key b)).isLE := by
    refine List.pairwise_filter.2 (List.pairwise_of_forall fun a b ha hb => ?_)
    rw [of_decide_eq_true ha, of_decide_eq_true hb]
    exact Std.isLE_compare.2 (Std.le_refl text)
  have kept : (things.filter fun x => key x = text).Sublist (sortOn key things) :=
    List.sublist_mergeSort (isLE_compare_trans key) (isLE_compare_total key) tied
      List.filter_sublist
  have sub := kept.filter fun x => key x = text
  rw [List.filter_filter] at sub
  simp only [Bool.and_self] at sub
  exact (sub.eq_of_length ((sortOn_perm key things).filter _).length_eq.symm).symm

end

end SeriesCatalog.Text
