/-
  Series catalog — what a scan does.

  * `Splitter.closing?_eq_some_iff`: a span ends at the first quote;
  * `Splitter.scan_bare`, `Splitter.scan_span`: a scan passes over units that
    stand outside quotes, and over closed spans;
  * `Splitter.join_of_scan`: a scan that succeeds loses nothing, whatever the
    quotes are.
-/
import Mathlib.Data.List.TakeWhile
import SeriesCatalog.Proofs.Except
import SeriesCatalog.Splitter

namespace SeriesCatalog

namespace Nodes

theorem join_cons {node : Text} {nodes : Nodes} (h : nodes ≠ []) :
    join (node :: nodes) = node ++ separator :: join nodes := by
  cases nodes with
  | nil => contradiction
  | cons next rest => rfl

theorem join_eq_nil_iff {nodes : Nodes} : nodes.join = [] ↔ nodes = [] ∨ nodes = [[]] := by
  cases nodes with
  | nil => simp [join]
  | cons node rest =>
    cases rest with
    | nil => simp [join]
    | cons => simp [join]

theorem join_append {front back : Nodes} (hfront : front ≠ []) (hback : back ≠ []) :
    join (front ++ back) = front.join ++ separator :: back.join := by
  induction front with
  | nil => contradiction
  | cons node front ih =>
    by_cases last : front = []
    · rw [last]
      exact join_cons hback
    · rw [List.cons_append, join_cons (by simp [last]), ih last, join_cons last, List.append_assoc,
        List.cons_append]

end Nodes

namespace Splitter

variable {quotes : List Text} {start : Nat} {node rest : Text}

/-! ## Spans and nodes -/

theorem closing?_eq_some_iff {quote : UInt16} {span after : Text} :
    closing? quote rest = some (span, after) ↔ quote ∉ span ∧ rest = span ++ quote :: after := by
  constructor
  · intro h
    have whole : rest.takeWhile (· ≠ quote) ++ rest.dropWhile (· ≠ quote) = rest :=
      List.takeWhile_append_dropWhile
    have stop := List.head?_dropWhile_not (· ≠ quote) rest
    unfold closing? at h
    split at h
    · contradiction
    · next u after' closed =>
      obtain ⟨rfl, rfl⟩ := Prod.mk.inj (Option.some.inj h)
      rw [closed] at whole stop
      have hu : u = quote := by simpa using stop
      rw [hu] at whole
      exact ⟨fun hq => by simpa using List.mem_takeWhile_imp hq, whole.symm⟩
  · rintro ⟨outside, rfl⟩
    have before : ∀ u ∈ span, decide (u ≠ quote) = true := fun u hu =>
      decide_eq_true fun he => outside (he ▸ hu)
    unfold closing?
    rw [List.dropWhile_append_of_pos before, List.takeWhile_append_of_pos before]
    simp

theorem closing?_eq_none_iff {quote : UInt16} : closing? quote rest = none ↔ quote ∉ rest := by
  constructor
  · intro h hq
    obtain ⟨span, after, whole, outside⟩ := List.eq_append_cons_of_mem hq
    rw [closing?_eq_some_iff.2 ⟨outside, whole⟩] at h
    contradiction
  · intro outside
    cases h : closing? quote rest with
    | none => rfl
    | some found =>
      obtain ⟨-, rfl⟩ := closing?_eq_some_iff.1 h
      simp at outside

/-- A node is closed as it stands, unless it is empty or a span with nothing inside. -/
theorem closeNode_eq_ok_iff {closed : Text} :
    closeNode quotes start node = .ok closed ↔
      closed = node ∧ node ≠ [] ∧ ∀ q, isQuote quotes q = true → node ≠ [q, q] := by
  unfold closeNode
  split
  · simp
  · next first last =>
    split
    · next hollow =>
      obtain ⟨quote, rfl⟩ := hollow
      simpa using fun _ => quote
    · next full =>
      simp only [Except.ok.injEq, ne_eq, reduceCtorEq, not_false_eq_true, true_and,
        List.cons.injEq, and_true, not_and]
      constructor
      · rintro rfl
        exact ⟨rfl, fun q hq hf hl => full ⟨hf ▸ hq, hl.trans hf.symm⟩⟩
      · rintro ⟨rfl, -⟩
        rfl
  · next empty pair =>
    simp only [Except.ok.injEq]
    constructor
    · rintro rfl
      exact ⟨rfl, empty, fun q _ he => pair q q he⟩
    · rintro ⟨rfl, -⟩
      rfl

/-! ## Steps of a scan -/

/-- A unit that stands for itself: neither a separator nor a quote. -/
def Bare (quotes : List Text) (u : UInt16) : Prop :=
  u ≠ separator ∧ isQuote quotes u = false

instance (quotes : List Text) (u : UInt16) : Decidable (Bare quotes u) :=
  inferInstanceAs (Decidable (_ ∧ _))

theorem scan_nil : scan quotes start node [] = (closeNode quotes start node.reverse).map ([·]) := by
  rw [scan]; rfl

theorem scan_bare {u : UInt16} (bare : Bare quotes u) :
    scan quotes start node (u :: rest) = scan quotes start (u :: node) rest := by
  rw [scan, if_neg (by simp [bare.2]), if_neg bare.1]

theorem scan_run {run : Text} (bare : ∀ u ∈ run, Bare quotes u) :
    scan quotes start node (run ++ rest) = scan quotes start (run.reverse ++ node) rest := by
  induction run generalizing node with
  | nil => rfl
  | cons u run ih =>
    rw [List.cons_append, scan_bare (bare u (by simp)), ih fun v hv => bare v (by simp [hv])]
    simp

theorem scan_span {q : UInt16} {inside after : Text} (quote : isQuote quotes q = true)
    (closed : q ∉ inside) (ends : after.head?.all (· = separator) = true) :
    scan quotes start node (q :: (inside ++ q :: after)) =
      scan quotes start (q :: (inside.reverse ++ q :: node)) after := by
  have hc : closing? q (inside ++ q :: after) = some (inside, after) :=
    closing?_eq_some_iff.2 ⟨closed, rfl⟩
  rw [scan, if_pos quote]
  split
  · next h => rw [hc] at h; contradiction
  · next span after' h =>
    rw [hc] at h
    obtain ⟨rfl, rfl⟩ := Prod.mk.inj (Option.some.inj h)
    rw [if_pos ends]

theorem scan_unclosed {q : UInt16} (quote : isQuote quotes q = true) (outside : q ∉ rest) :
    scan quotes start node (q :: rest) = .error (.unclosed q (start + node.length)) := by
  have hc : closing? q rest = none := closing?_eq_none_iff.2 outside
  rw [scan, if_pos quote]
  split
  · rfl
  · next span after h => rw [hc] at h; contradiction

theorem scan_crowded {q u : UInt16} {inside after : Text} (quote : isQuote quotes q = true)
    (closed : q ∉ inside) (notSep : u ≠ separator) :
    scan quotes start node (q :: (inside ++ q :: u :: after)) =
      .error (.afterQuote (start + node.length + inside.length + 2)) := by
  have hc : closing? q (inside ++ q :: u :: after) = some (inside, u :: after) :=
    closing?_eq_some_iff.2 ⟨closed, rfl⟩
  rw [scan, if_pos quote]
  split
  · next h => rw [hc] at h; contradiction
  · next span after' h =>
    rw [hc] at h
    obtain ⟨rfl, rfl⟩ := Prod.mk.inj (Option.some.inj h)
    rw [if_neg (by simpa using notSep)]
    simp only [List.length_cons, List.length_append, List.length_reverse, Except.error.injEq,
      Malformation.afterQuote.injEq]
    omega

theorem scan_separator (bare : isQuote quotes separator = false) :
    scan quotes start node (separator :: rest) = (do
      let first ← closeNode quotes start node.reverse
      let others ← scan quotes (start + node.length + 1) [] rest
      return first :: others) := by
  rw [scan, if_neg (by simp [bare]), if_pos rfl]

/-! ## Nothing is lost -/

/-- **The nodes of a scan join to what was scanned**, whatever the quotes are. -/
theorem join_of_scan {ns : Nodes} (h : scan quotes start node rest = .ok ns) :
    ns ≠ [] ∧ ns.join = node.reverse ++ rest := by
  fun_induction scan quotes start node rest generalizing ns with
  | case1 start node =>
    obtain ⟨closed, hclosed, h⟩ := Except.bind_eq_ok_iff.1 h
    obtain ⟨rfl, -⟩ := closeNode_eq_ok_iff.1 hclosed
    cases h
    simp [Nodes.join]
  | case2 => contradiction
  | case3 start node u rest quote span after closed node' ends =>
    rename_i ih
    obtain ⟨-, rfl⟩ := closing?_eq_some_iff.1 closed
    obtain ⟨hne, hjoin⟩ := ih h
    exact ⟨hne, by rw [hjoin]; simp [node']⟩
  | case4 => contradiction
  | case5 start node rest bare ih =>
    obtain ⟨first, hfirst, h⟩ := Except.bind_eq_ok_iff.1 h
    obtain ⟨others, hothers, h⟩ := Except.bind_eq_ok_iff.1 h
    obtain ⟨rfl, -⟩ := closeNode_eq_ok_iff.1 hfirst
    obtain ⟨hne, hjoin⟩ := ih hothers
    cases h
    exact ⟨by simp, by rw [Nodes.join_cons hne, hjoin]; rfl⟩
  | case6 start node u rest bare notSep ih =>
    obtain ⟨hne, hjoin⟩ := ih h
    exact ⟨hne, by rw [hjoin]; simp⟩

end Splitter

end SeriesCatalog
