/-
  Series catalog — pieces of a list.

  The pieces of a list join to the list, none is empty, and all but the last
  are full.  Where the list is cut does not depend on its members.
-/
import SeriesCatalog.Index.Build

namespace SeriesCatalog

theorem Degree.pos (degree : Degree) : 0 < degree.toNat :=
  Nat.lt_of_lt_of_le Nat.zero_lt_two degree.two_le

variable {β : Type} {size : Nat} {list piece : List β}

theorem flatten_chunks (size : Nat) (list : List β) : (chunks size list).flatten = list := by
  fun_induction chunks size list with
  | case1 => rfl
  | case2 x rest ih =>
    rw [List.flatten_cons, ih, List.cons_append, List.take_append_drop]

theorem length_chunks (hsize : 0 < size) (list : List β) :
    (chunks size list).length = (list.length + size - 1) / size := by
  fun_induction chunks size list with
  | case1 =>
    have : ([] : List β).length + size - 1 < size := by simp; omega
    exact (Nat.div_eq_of_lt this).symm
  | case2 x rest ih =>
    rw [List.length_cons, ih, List.length_drop, List.length_cons]
    have whole : rest.length + 1 + size - 1 = rest.length + size := by omega
    rw [whole, Nat.add_div_right _ hsize]
    by_cases last : rest.length < size
    · have none : rest.length - (size - 1) + size - 1 < size := by omega
      rw [Nat.div_eq_of_lt none, Nat.div_eq_of_lt last]
    · have left : rest.length - (size - 1) + size - 1 = rest.length := by omega
      rw [left]

theorem chunks_ne_nil (h : list ≠ []) : chunks size list ≠ [] := by
  intro hc
  rw [← flatten_chunks size list, hc] at h
  exact h rfl

theorem ne_nil_of_mem_chunks (h : piece ∈ chunks size list) : piece ≠ [] := by
  fun_induction chunks size list with
  | case1 => simp at h
  | case2 x rest ih =>
    rcases List.mem_cons.1 h with rfl | h
    · simp
    · exact ih h

theorem length_le_of_mem_chunks (hsize : 0 < size) (h : piece ∈ chunks size list) :
    piece.length ≤ size := by
  fun_induction chunks size list with
  | case1 => simp at h
  | case2 x rest ih =>
    rcases List.mem_cons.1 h with rfl | h
    · rw [List.length_cons, List.length_take]; omega
    · exact ih h

theorem length_of_mem_dropLast_chunks (hsize : 0 < size) (h : piece ∈ (chunks size list).dropLast) :
    piece.length = size := by
  fun_induction chunks size list with
  | case1 => simp at h
  | case2 x rest ih =>
    by_cases last : rest.drop (size - 1) = []
    · simp [last, chunks] at h
    · rw [List.dropLast_cons_of_ne_nil (chunks_ne_nil last)] at h
      have long : size - 1 < rest.length := by simpa [List.drop_eq_nil_iff] using last
      rcases List.mem_cons.1 h with rfl | h
      · rw [List.length_cons, List.length_take]; omega
      · exact ih h

theorem sublist_of_mem_chunks (h : piece ∈ chunks size list) : piece.Sublist list := by
  have := List.sublist_flatten_of_mem h
  rwa [flatten_chunks] at this

theorem chunks_map {γ : Type} (f : β → γ) (size : Nat) (list : List β) :
    chunks size (list.map f) = (chunks size list).map (List.map f) := by
  fun_induction chunks size list with
  | case1 => rw [List.map_nil, chunks, List.map_nil]
  | case2 x rest ih =>
    rw [List.map_cons, chunks, ← List.map_take, ← List.map_drop, ih, List.map_cons, List.map_cons]

end SeriesCatalog
