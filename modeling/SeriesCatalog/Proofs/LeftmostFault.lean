/-
  Series catalog — the fault that a refused path is blamed for.

  A scan stops at the first node that cannot be completed.  `Fault` says how
  such a node goes wrong, by what is left of the path; `FaultAt` says the same
  by the positions of the raw path, with the wording of the refusal.

  * `Splitter.scan_eq_error_iff`: a scan fails iff atomic nodes are followed by
    one that is bare up to a stop, and goes wrong there (`Faulty`);
  * `Splitter.begins_iff`: the positions behind atomic nodes are those behind a
    separator that ends a path of its own;
  * `Splitter.Fault.not_atomic`: no atomic node begins where a fault does, so
    that no later position is one of these;
  * `Splitter.split_leftmost_fault`: hence the refusal is told by the last such
    position and by the first stop behind it.
-/
import Mathlib.Data.List.Basic
import Mathlib.Order.Bounds.Basic
import SeriesCatalog.Proofs.Grammar

namespace SeriesCatalog

/-- The nodes in one text, each with a separator behind it. -/
def Nodes.ended (nodes : Nodes) : Text :=
  nodes.flatMap (· ++ [separator])

@[simp]
theorem Nodes.ended_nil : ended [] = [] := rfl

@[simp]
theorem Nodes.ended_cons (node : Text) (nodes : Nodes) :
    ended (node :: nodes) = node ++ separator :: nodes.ended := by
  simp [ended]

theorem Nodes.add_length_ended_cons (start : Nat) (node : Text) (nodes : Nodes) :
    start + (ended (node :: nodes)).length = start + node.length + 1 + nodes.ended.length := by
  rw [ended_cons, List.length_append, List.length_cons]
  omega

theorem Nodes.ended_eq {nodes : Nodes} (h : nodes ≠ []) :
    nodes.ended = nodes.join ++ [separator] := by
  induction nodes with
  | nil => contradiction
  | cons node nodes ih =>
    by_cases last : nodes = []
    · subst last
      simp [join]
    · rw [ended_cons, join_cons last, ih last, List.append_assoc, List.cons_append]

theorem Nodes.eq_ended_append {nodes : Nodes} {text : Text} {t : Nat} (h : nodes ≠ [])
    (sep : text[t]? = some separator) (join : nodes.join = text.take t) :
    text = nodes.ended ++ text.drop (t + 1) := by
  obtain ⟨ht, hsep⟩ := List.getElem?_eq_some_iff.1 sep
  rw [ended_eq h, join, ← hsep, List.take_append_getElem, List.take_append_drop]

namespace Splitter

variable {quotes : List Text} {start : Nat} {node run rest raw : Text} {ns : Nodes}
  {cause : Malformation}

/-! ## Faults -/

/-- How a node that starts at position `start` goes wrong: `run` is what stands in it before its
    first stop, and the last text is the path from there on. -/
inductive Fault (quotes : List Text) (start : Nat) : Text → Text → Malformation → Prop
  /-- The node ends where it starts. -/
  | missing {rest : Text} : rest.head?.all (· = separator) = true →
      Fault quotes start [] rest (.emptyNode start)
  /-- The quote has no partner. -/
  | unclosed {run rest : Text} {q : UInt16} : isQuote quotes q = true → q ∉ rest →
      Fault quotes start run (q :: rest) (.unclosed q (start + run.length))
  /-- The span is closed, and the node goes on behind it. -/
  | crowded {run inside rest : Text} {q u : UInt16} : isQuote quotes q = true → q ∉ inside →
      u ≠ separator → Fault quotes start run (q :: (inside ++ q :: u :: rest))
        (.afterQuote (start + run.length + inside.length + 2))
  /-- The node is a span with nothing inside. -/
  | hollow {rest : Text} {q : UInt16} : isQuote quotes q = true →
      rest.head?.all (· = separator) = true →
      Fault quotes start [] (q :: q :: rest) (.emptyQuoted start)

theorem Fault.of_closeNode (h : closeNode quotes start node = .error cause)
    (ends : rest.head?.all (· = separator) = true) :
    Fault quotes start [] (node ++ rest) cause := by
  unfold closeNode at h
  split at h
  · cases h
    exact .missing ends
  · split at h
    · next quote =>
      obtain ⟨quote, rfl⟩ := quote
      cases h
      exact .hollow quote ends
    · contradiction
  · contradiction

/-- The text from position `start` on is at fault: nodes with separators behind them stand first,
    then a node that is bare up to a stop, and goes wrong there. -/
inductive Faulty (quotes : List Text) : Nat → Text → Malformation → Prop
  | here {start : Nat} {run tail : Text} {cause : Malformation} : (∀ u ∈ run, Bare quotes u) →
      Fault quotes start run tail cause → Faulty quotes start (run ++ tail) cause
  | later {start : Nat} {node rest : Text} {cause : Malformation} : Atomic quotes node →
      Faulty quotes (start + node.length + 1) rest cause →
      Faulty quotes start (node ++ separator :: rest) cause

theorem Faulty.of_fault (fault : Fault quotes start [] rest cause) :
    Faulty quotes start rest cause := by
  rw [← List.nil_append rest]
  exact .here (by simp) fault

/-- A scan that fails has found a fault: in the node that it is within, or in one behind it. -/
theorem faulty_of_scan (bareSep : isQuote quotes separator = false)
    (h : scan quotes start node rest = .error cause) (pending : Pending quotes node rest) :
    Faulty quotes start (node.reverse ++ rest) cause := by
  fun_induction scan quotes start node rest with
  | case1 start node =>
    cases closed : closeNode quotes start node.reverse with
    | ok first =>
      rw [closed] at h
      contradiction
    | error found =>
      rw [closed] at h
      cases h
      exact .of_fault (.of_closeNode closed rfl)
  | case2 start node u rest quote unclosed =>
    cases h
    have bare := pending.bare (ne_separator_of_quote bareSep quote)
    rw [← List.length_reverse]
    exact .here (fun v hv => bare v (List.mem_reverse.1 hv))
      (.unclosed quote (closing?_eq_none_iff.1 unclosed))
  | case3 start node u rest quote span after closed node' ends =>
    rename_i ih
    obtain ⟨outside, rfl⟩ := closing?_eq_some_iff.1 closed
    have read : node'.reverse ++ after = node.reverse ++ u :: (span ++ u :: after) := by
      simp [node']
    exact read ▸ ih h (pending.span bareSep quote outside ends)
  | case4 start node u rest quote span after closed node' crowded =>
    -- what was read of the node is bare, since a quote goes on from it
    cases h
    obtain ⟨outside, rfl⟩ := closing?_eq_some_iff.1 closed
    have bare := pending.bare (ne_separator_of_quote bareSep quote)
    cases after with
    | nil => simp at crowded
    | cons v after =>
      have place : start + node'.length = start + node.reverse.length + span.length + 2 := by
        simp [node']
        omega
      rw [place]
      exact .here (fun w hw => bare w (List.mem_reverse.1 hw))
        (.crowded quote outside (by simpa using crowded))
  | case5 start node rest bare ih =>
    cases closed : closeNode quotes start node.reverse with
    | error found =>
      rw [closed] at h
      cases h
      exact .of_fault (.of_closeNode closed (by simp))
    | ok first =>
      have atomic : Atomic quotes first := pending.atomic closed
      obtain ⟨rfl, -⟩ := closeNode_eq_ok_iff.1 closed
      rw [closed] at h
      cases scanned : scan quotes (start + node.length + 1) [] rest with
      | ok others =>
        rw [scanned] at h
        contradiction
      | error found =>
        rw [scanned] at h
        cases h
        have others := ih scanned (Or.inl (by simp))
        rw [← List.length_reverse] at others
        exact .later atomic others
  | case6 start node u rest notQuote notSep ih =>
    simpa using ih h (pending.push notSep (by simpa using notQuote))

theorem scan_of_closeNode (bareSep : isQuote quotes separator = false)
    (closed : closeNode quotes start node.reverse = .error cause)
    (ends : rest.head?.all (· = separator) = true) :
    scan quotes start node rest = .error cause := by
  cases rest with
  | nil =>
    rw [scan_nil, closed]
    rfl
  | cons u rest =>
    have hu : u = separator := by simpa using ends
    rw [hu, scan_separator bareSep, closed]
    rfl

theorem Fault.scan_eq {tail : Text} (bareSep : isQuote quotes separator = false)
    (bare : ∀ u ∈ run, Bare quotes u) (fault : Fault quotes start run tail cause) :
    scan quotes start [] (run ++ tail) = .error cause := by
  rw [scan_run bare, List.append_nil]
  cases fault with
  | missing ends => exact scan_of_closeNode bareSep rfl ends
  | unclosed quote outside => rw [scan_unclosed quote outside, List.length_reverse]
  | crowded quote outside notSep => rw [scan_crowded quote outside notSep, List.length_reverse]
  | @hollow rest q quote ends =>
    have closed : closeNode quotes start [q, q] = .error (.emptyQuoted start) :=
      if_pos ⟨quote, rfl⟩
    calc scan quotes start [] (q :: ([] ++ q :: rest))
        = scan quotes start [q, q] rest := scan_span quote (by simp) ends
      _ = .error (.emptyQuoted start) := scan_of_closeNode bareSep closed ends

/-- **When a scan fails**, and why. -/
theorem scan_eq_error_iff (bareSep : isQuote quotes separator = false) :
    scan quotes start [] rest = .error cause ↔ Faulty quotes start rest cause := by
  constructor
  · exact fun h => faulty_of_scan bareSep h (Or.inl (by simp))
  · intro faulty
    induction faulty with
    | here bare fault => exact fault.scan_eq bareSep bare
    | later atomic _ ih =>
      rw [scan_node bareSep atomic, ih]
      rfl

theorem faulty_iff : Faulty quotes start rest cause ↔ ∃ (ns : Nodes) (run tail : Text),
    (∀ n ∈ ns, Atomic quotes n) ∧ rest = ns.ended ++ (run ++ tail) ∧ (∀ u ∈ run, Bare quotes u) ∧
      Fault quotes (start + ns.ended.length) run tail cause := by
  constructor
  · intro faulty
    induction faulty with
    | @here start run tail cause bare fault => exact ⟨[], run, tail, by simp, rfl, bare, fault⟩
    | @later start node rest cause hnode _ ih =>
      obtain ⟨ns, run, tail, atomic, rfl, bare, fault⟩ := ih
      refine ⟨node :: ns, run, tail, List.forall_mem_cons.2 ⟨hnode, atomic⟩, ?_, bare, ?_⟩
      · rw [Nodes.ended_cons, List.append_assoc, List.cons_append]
      · rw [Nodes.add_length_ended_cons]
        exact fault
  · rintro ⟨ns, run, tail, atomic, rfl, bare, fault⟩
    induction ns generalizing start with
    | nil =>
      rw [Nodes.ended_nil, List.nil_append]
      exact .here bare fault
    | cons node ns ih =>
      obtain ⟨hnode, others⟩ := List.forall_mem_cons.1 atomic
      rw [Nodes.ended_cons, List.append_assoc, List.cons_append]
      rw [Nodes.add_length_ended_cons] at fault
      exact .later hnode (ih others fault)

/-! ## Where a node may begin -/

/-- The positions of `raw` at which a node may begin: the front, and those behind a separator that
    ends a path of its own. -/
inductive Begins (quotes : List Text) (raw : Text) : Nat → Prop
  | front : Begins quotes raw 0
  | behind {t : Nat} {ns : Nodes} : raw[t]? = some separator →
      quoted quotes (raw.take t) = .ok ns → Begins quotes raw (t + 1)

theorem scan_ended (bareSep : isQuote quotes separator = false)
    (atomic : ∀ n ∈ ns, Atomic quotes n) :
    scan quotes start [] (ns.ended ++ rest) =
      (scan quotes (start + ns.ended.length) [] rest).map (ns ++ ·) := by
  induction ns generalizing start with
  | nil =>
    show scan quotes start [] rest = (scan quotes start [] rest).map ([] ++ ·)
    cases scan quotes start [] rest <;> rfl
  | cons n ns ih =>
    have hn : Atomic quotes n := atomic n (by simp)
    rw [Nodes.add_length_ended_cons, Nodes.ended_cons, List.append_assoc, List.cons_append,
      scan_node bareSep hn, ih fun m hm => atomic m (by simp [hm])]
    cases scan quotes (start + n.length + 1 + (Nodes.ended ns).length) [] rest <;> rfl

theorem begins_iff {s : Nat} (bareSep : isQuote quotes separator = false) :
    Begins quotes raw s ↔ ∃ (ns : Nodes) (rest : Text),
      (∀ n ∈ ns, Atomic quotes n) ∧ raw = ns.ended ++ rest ∧ s = ns.ended.length := by
  constructor
  · intro begins
    cases begins with
    | front => exact ⟨[], raw, by simp, by simp, rfl⟩
    | @behind t ns sep split =>
      obtain ⟨hne, atomic, hjoin⟩ := atomic_of_quoted bareSep split
      refine ⟨ns, raw.drop (t + 1), atomic, Nodes.eq_ended_append hne sep hjoin, ?_⟩
      have ht : t < raw.length := (List.getElem?_eq_some_iff.1 sep).1
      rw [Nodes.ended_eq hne, hjoin, List.length_append, List.length_take_of_le ht.le]
      rfl
  · rintro ⟨ns, rest, atomic, rfl, rfl⟩
    by_cases hne : ns = []
    · subst hne
      exact .front
    · rw [Nodes.ended_eq hne, List.length_append, List.append_assoc]
      have split :
          quoted quotes ((ns.join ++ ([separator] ++ rest)).take ns.join.length) = .ok ns := by
        rw [List.take_left]
        exact quoted_join bareSep hne atomic
      exact .behind (by simp) split

/-! ## No later node -/

theorem takeWhile_bare (bare : ∀ u ∈ run, Bare quotes u)
    (stop : ∀ u ∈ rest.head?, ¬ Bare quotes u) :
    (run ++ rest).takeWhile (Bare quotes ·) = run := by
  rw [List.takeWhile_append_of_pos fun u hu => decide_eq_true (bare u hu)]
  cases rest with
  | nil => simp
  | cons u rest => simp [stop u rfl]

theorem run_unique {run' tail tail' : Text} (bare : ∀ u ∈ run, Bare quotes u)
    (bare' : ∀ u ∈ run', Bare quotes u) (stop : ∀ u ∈ tail.head?, ¬ Bare quotes u)
    (stop' : ∀ u ∈ tail'.head?, ¬ Bare quotes u) (h : run ++ tail = run' ++ tail') :
    run = run' ∧ tail = tail' := by
  have same : run = run' := by rw [← takeWhile_bare bare stop, h, takeWhile_bare bare' stop']
  subst same
  exact ⟨rfl, List.append_cancel_left h⟩

theorem not_bare_of_quote {q : UInt16} (quote : isQuote quotes q = true) : ¬ Bare quotes q := by
  rintro ⟨-, notQuote⟩
  rw [quote] at notQuote
  contradiction

theorem not_bare_of_ends (ends : rest.head?.all (· = separator) = true) :
    ∀ u ∈ rest.head?, ¬ Bare quotes u := by
  rintro u hu ⟨notSep, -⟩
  rw [Option.mem_def.1 hu] at ends
  exact notSep (of_decide_eq_true ends)

theorem Fault.stop {tail : Text} (fault : Fault quotes start run tail cause) :
    ∀ u ∈ tail.head?, ¬ Bare quotes u := by
  cases fault with
  | missing ends => exact not_bare_of_ends ends
  | unclosed quote | crowded quote | hollow quote => simpa using not_bare_of_quote quote

/-- **No node begins where a fault does.** -/
theorem Fault.not_atomic {tail after : Text} (bareSep : isQuote quotes separator = false)
    (bare : ∀ u ∈ run, Bare quotes u) (fault : Fault quotes start run tail cause)
    (atomic : Atomic quotes node) (ends : after.head?.all (· = separator) = true) :
    run ++ tail ≠ node ++ after := by
  intro h
  rcases atomic with ⟨nonempty, shaped, not_hollow⟩
  cases shaped with
  | run bare' =>
    obtain ⟨rfl, rfl⟩ := run_unique bare bare' fault.stop (not_bare_of_ends ends) h
    cases fault with
    | missing | hollow => exact nonempty rfl
    | unclosed quote | crowded quote =>
      exact ne_separator_of_quote bareSep quote (by simpa using ends)
  | @span run' inside q bare' quote outside =>
    have stop : ∀ u ∈ (q :: (inside ++ q :: after)).head?, ¬ Bare quotes u := by
      simpa using not_bare_of_quote quote
    obtain ⟨rfl, same⟩ := run_unique bare bare' fault.stop stop (by simpa using h)
    cases fault with
    | missing ends =>
      rw [same] at ends
      exact ne_separator_of_quote bareSep quote (by simpa using ends)
    | unclosed _ unclosed =>
      obtain ⟨rfl, rfl⟩ := List.cons.inj same
      simp at unclosed
    | crowded _ outside' notSep =>
      obtain ⟨rfl, rest⟩ := List.cons.inj same
      have closed := closing?_eq_some_iff.2 ⟨outside', rest.symm⟩
      rw [closing?_eq_some_iff.2 ⟨outside, rfl⟩] at closed
      obtain ⟨-, rfl⟩ := Prod.mk.inj (Option.some.inj closed)
      exact notSep (by simpa using ends)
    | hollow =>
      obtain ⟨rfl, rest⟩ := List.cons.inj same
      cases inside with
      | nil => exact not_hollow _ quote rfl
      | cons v inside =>
        obtain ⟨rfl, -⟩ := List.cons.inj rest
        simp at outside

/-- Where a fault stands behind atomic nodes, no node begins later. -/
theorem Fault.le_of_begins {tail : Text} (bareSep : isQuote quotes separator = false)
    (atomic : ∀ n ∈ ns, Atomic quotes n) (bare : ∀ u ∈ run, Bare quotes u)
    (fault : Fault quotes start run tail cause) {s : Nat}
    (begins : Begins quotes (ns.ended ++ (run ++ tail)) s) : s ≤ ns.ended.length := by
  by_contra later
  cases begins with
  | front => exact later (Nat.zero_le _)
  | @behind t found sep split =>
    have past : ns.ended.length ≤ t := by omega
    -- what stands between the nodes and this separator is a path, so it begins with a node
    obtain ⟨k, rfl⟩ := Nat.exists_eq_add_of_le past
    rw [List.take_length_add_append] at split
    have scanned := (quoted_eq_ok_iff.1 split).2
    rw [scan_ended bareSep atomic, Except.map_eq_ok_iff] at scanned
    obtain ⟨others, scanned, -⟩ := scanned
    obtain ⟨hne, hjoin⟩ := join_of_scan scanned
    have hothers := atomic_of_scan bareSep scanned (Or.inl (by simp))
    rw [List.getElem?_append_right (Nat.le_add_right _ _), Nat.add_sub_cancel_left] at sep
    have whole := Nodes.eq_ended_append hne sep (by simpa using hjoin)
    cases others with
    | nil => contradiction
    | cons m others =>
      rw [Nodes.ended_cons, List.append_assoc] at whole
      exact fault.not_atomic bareSep bare (hothers m List.mem_cons_self) (by simp) whole

/-! ## The fault by its position -/

/-- What is told of the node that starts at position `s` and has its first stop, or the end of the
    path, at position `i`: the fault, and the wording. -/
inductive FaultAt (quotes : List Text) (raw : Text) (s i : Nat) : Malformation → Text → Prop
  | emptyNode : i = s → i = raw.length ∨ raw[i]? = some separator →
      FaultAt quotes raw s i (.emptyNode s) ("empty node at position " ++ Text.ofNat s)
  | unclosed {q : UInt16} : raw[i]? = some q → isQuote quotes q = true →
      (∀ j, i < j → raw[j]? ≠ some q) →
      FaultAt quotes raw s i (.unclosed q i)
        ("unclosed " ++ [q] ++ " at position " ++ Text.ofNat i)
  | afterQuote {q u : UInt16} {e : Nat} : raw[i]? = some q → isQuote quotes q = true →
      IsLeast {e | i < e ∧ raw[e]? = some q} e → raw[e + 1]? = some u → u ≠ separator →
      FaultAt quotes raw s i (.afterQuote (e + 1))
        ("unexpected character after quoted node at position " ++ Text.ofNat (e + 1))
  | emptyQuoted {q : UInt16} {e : Nat} : raw[i]? = some q → isQuote quotes q = true →
      IsLeast {e | i < e ∧ raw[e]? = some q} e →
      e + 1 = raw.length ∨ raw[e + 1]? = some separator → i = s → e = s + 1 →
      FaultAt quotes raw s i (.emptyQuoted s)
        ("empty quoted node at position " ++ Text.ofNat s)

theorem getElem?_stop {front tail : Text} (k : Nat) :
    (front ++ (run ++ tail))[front.length + run.length + k]? = tail[k]? := by
  rw [← List.append_assoc, ← List.length_append, List.getElem?_append_right (Nat.le_add_right _ _),
    Nat.add_sub_cancel_left]

theorem end_or_separator_iff (front : Text) :
    front.length = (front ++ rest).length ∨ (front ++ rest)[front.length]? = some separator ↔
      rest.head?.all (· = separator) = true := by
  cases rest with
  | nil => simp
  | cons u rest => simp

theorem end_behind_pair_iff {front : Text} {q : UInt16} :
    front.length + 2 = (front ++ q :: q :: rest).length ∨
        (front ++ q :: q :: rest)[front.length + 2]? = some separator ↔
      rest.head?.all (· = separator) = true := by
  simpa using end_or_separator_iff (front ++ [q, q])

theorem isLeast_quote {q : UInt16} {inside after : Text} {i : Nat}
    (here : ∀ k, raw[i + k]? = (q :: (inside ++ q :: after))[k]?) (outside : q ∉ inside) :
    IsLeast {e | i < e ∧ raw[e]? = some q} (i + (inside.length + 1)) := by
  constructor
  · exact ⟨by omega, by rw [here]; simp⟩
  · rintro e ⟨later, found⟩
    by_contra before
    obtain ⟨k, rfl⟩ := Nat.exists_eq_add_of_lt later
    rw [Nat.add_assoc, here, List.getElem?_cons_succ, List.getElem?_append_left (by omega)] at found
    exact outside (List.mem_of_getElem? found)

theorem exists_span {q : UInt16} {i e : Nat} (here : ∀ k, raw[i + k]? = (q :: rest)[k]?)
    (next : IsLeast {e | i < e ∧ raw[e]? = some q} e) :
    ∃ inside after, rest = inside ++ q :: after ∧ q ∉ inside ∧ e = i + (inside.length + 1) := by
  obtain ⟨later, found⟩ := next.1
  obtain ⟨k, rfl⟩ := Nat.exists_eq_add_of_lt later
  rw [Nat.add_assoc, here, List.getElem?_cons_succ] at found
  obtain ⟨inside, after, rfl, outside⟩ :=
    List.eq_append_cons_of_mem (List.mem_of_getElem? found)
  exact ⟨inside, after, rfl, outside, next.unique (isLeast_quote here outside)⟩

/-- The fault of a node, by the positions of the path that it is part of. -/
theorem Fault.faultAt {front tail : Text} (fault : Fault quotes front.length run tail cause) :
    ∃ reason, FaultAt quotes (front ++ (run ++ tail)) front.length (front.length + run.length)
      cause reason := by
  cases fault with
  | missing ends => exact ⟨_, .emptyNode rfl ((end_or_separator_iff front).2 ends)⟩
  | @unclosed run rest q quote outside =>
    refine ⟨_, .unclosed (getElem?_stop 0) quote fun j later found => ?_⟩
    obtain ⟨k, rfl⟩ := Nat.exists_eq_add_of_lt later
    rw [Nat.add_assoc _ k, getElem?_stop] at found
    exact outside (List.mem_of_getElem? found)
  | @crowded run inside rest q u quote outside notSep =>
    have behind : (front ++ (run ++ q :: (inside ++ q :: u :: rest)))[
        front.length + run.length + (inside.length + 2)]? = some u := by
      rw [getElem?_stop]
      simp
    exact ⟨_, .afterQuote (getElem?_stop 0) quote (isLeast_quote getElem?_stop outside) behind
      notSep⟩
  | @hollow rest q quote ends =>
    have next : IsLeast {e | front.length < e ∧ (front ++ q :: q :: rest)[e]? = some q}
        (front.length + (0 + 1)) :=
      isLeast_quote (@getElem?_stop [] front (q :: q :: rest)) List.not_mem_nil
    exact ⟨_, .emptyQuoted (getElem?_stop 0) quote next (end_behind_pair_iff.2 ends) rfl rfl⟩

theorem FaultAt.fault {front tail reason : Text}
    (told : FaultAt quotes (front ++ (run ++ tail)) front.length (front.length + run.length) cause
      reason) : Fault quotes front.length run tail cause := by
  have at_start {q : UInt16}
      (here : (front ++ (run ++ tail))[front.length + run.length]? = some q) :
      ∃ rest, tail = q :: rest := by
    have first : tail[0]? = some q := (getElem?_stop 0).symm.trans here
    cases tail with
    | nil => contradiction
    | cons u rest => exact ⟨rest, by rw [Option.some.inj first]⟩
  cases told with
  | emptyNode same ends =>
    obtain rfl := List.length_eq_zero_iff.1 (Nat.add_eq_left.1 same)
    exact .missing ((end_or_separator_iff front).1 ends)
  | @unclosed q here quote outside =>
    obtain ⟨rest, rfl⟩ := at_start here
    refine .unclosed quote fun hq => ?_
    obtain ⟨k, hk⟩ := List.mem_iff_getElem?.1 hq
    exact outside _ (by omega) ((getElem?_stop (k + 1)).trans hk)
  | @afterQuote q u e here quote next behind notSep =>
    obtain ⟨rest, rfl⟩ := at_start here
    obtain ⟨inside, after, rfl, outside, rfl⟩ := exists_span getElem?_stop next
    have following : (q :: (inside ++ q :: after))[inside.length + 2]? = some u :=
      (getElem?_stop _).symm.trans behind
    cases after with
    | nil => simp at following
    | cons v after =>
      obtain rfl : v = u := by simpa using following
      exact .crowded quote outside notSep
  | @emptyQuoted q e here quote next ends same adjacent =>
    obtain ⟨rest, rfl⟩ := at_start here
    obtain ⟨inside, after, rfl, outside, rfl⟩ := exists_span getElem?_stop next
    obtain rfl := List.length_eq_zero_iff.1 (Nat.add_eq_left.1 same)
    obtain rfl : inside = [] := List.length_eq_zero_iff.1 (by simpa using adjacent)
    exact .hollow quote (end_behind_pair_iff.1 ends)

theorem isLeast_stop {front tail : Text} (bare : ∀ u ∈ run, Bare quotes u)
    (stop : ∀ u ∈ tail.head?, ¬ Bare quotes u) :
    IsLeast {i | front.length ≤ i ∧ (i = (front ++ (run ++ tail)).length ∨
      ∃ u, (front ++ (run ++ tail))[i]? = some u ∧ (u = separator ∨ isQuote quotes u = true))}
      (front.length + run.length) := by
  constructor
  · refine ⟨Nat.le_add_right _ _, ?_⟩
    cases tail with
    | nil => exact Or.inl (by simp)
    | cons u tail =>
      have hu : ¬ Bare quotes u := stop u rfl
      rw [Bare, not_and_or, not_not, Bool.not_eq_false] at hu
      exact Or.inr ⟨u, getElem?_stop 0, hu⟩
  · rintro i ⟨past, stops⟩
    by_contra before
    obtain ⟨k, rfl⟩ := Nat.exists_eq_add_of_le past
    have short : k < run.length := by omega
    rcases stops with last | ⟨u, hu, stops⟩
    · rw [List.length_append, List.length_append] at last
      omega
    · rw [List.getElem?_append_right past, Nat.add_sub_cancel_left,
        List.getElem?_append_left short] at hu
      obtain ⟨notSep, notQuote⟩ := bare u (List.mem_of_getElem? hu)
      rcases stops with rfl | quote
      · exact notSep rfl
      · rw [notQuote] at quote
        contradiction

theorem exists_run (quotes : List Text) (rest : Text) :
    ∃ run tail, rest = run ++ tail ∧ (∀ u ∈ run, Bare quotes u) ∧
      ∀ u ∈ tail.head?, ¬ Bare quotes u := by
  refine ⟨rest.takeWhile (Bare quotes ·), rest.dropWhile (Bare quotes ·),
    List.takeWhile_append_dropWhile.symm, fun u hu => ?_, fun u hu => ?_⟩
  · simpa using List.mem_takeWhile_imp hu
  · have := List.head?_dropWhile_not (Bare quotes ·) rest
    rw [Option.mem_def.1 hu] at this
    simpa using this

/-! ## The report -/

theorem quoted_eq_error_iff {error : CatalogError} (nonempty : raw ≠ []) :
    quoted quotes raw = .error error ↔
      ∃ cause, error = .malformedPath raw cause ∧ scan quotes 0 [] raw = .error cause := by
  cases raw with
  | nil => contradiction
  | cons u rest =>
    unfold quoted
    cases scanned : scan quotes 0 [] (u :: rest) with
    | ok ns =>
      show Except.ok ns = Except.error error ↔ _
      simp
    | error cause =>
      show Except.error (.malformedPath (u :: rest) cause) = Except.error error ↔ _
      simp [eq_comm]

/-- **The leftmost fault is reported, at its exact position.**  A path is refused iff, at the
    last position `s` where a node may begin, the node goes wrong; then the refusal tells how, by
    the first separator or quote `i` from there on. -/
theorem split_leftmost_fault (bareSep : [separator] ∉ quotes) (nonempty : raw ≠ [])
    (error : CatalogError) :
    quoted quotes raw = .error error ↔ ∃ s i cause reason,
      error = .malformedPath raw cause ∧
      error.message = "Illegal path \"" ++ raw ++ "\": " ++ reason ∧
      IsGreatest {s | Begins quotes raw s} s ∧
      IsLeast {i | s ≤ i ∧
        (i = raw.length ∨ ∃ u, raw[i]? = some u ∧ (u = separator ∨ isQuote quotes u = true))} i ∧
      FaultAt quotes raw s i cause reason := by
  have notQuote : isQuote quotes separator = false := by simpa [isQuote] using bareSep
  rw [quoted_eq_error_iff nonempty]
  simp only [scan_eq_error_iff notQuote, faulty_iff, Nat.zero_add]
  constructor
  · rintro ⟨cause, rfl, ns, run, tail, atomic, rfl, bare, fault⟩
    obtain ⟨reason, told⟩ := fault.faultAt
    have wording : cause.message = reason := by cases told <;> rfl
    refine ⟨ns.ended.length, ns.ended.length + run.length, cause, reason, rfl, ?_, ?_, ?_, told⟩
    · rw [CatalogError.message, wording]
    · exact ⟨(begins_iff notQuote).2 ⟨ns, run ++ tail, atomic, rfl, rfl⟩,
        fun s begins => fault.le_of_begins notQuote atomic bare begins⟩
    · exact isLeast_stop bare fault.stop
  · rintro ⟨s, i, cause, reason, rfl, -, last, first, told⟩
    obtain ⟨ns, rest, atomic, rfl, rfl⟩ := (begins_iff notQuote).1 last.1
    obtain ⟨run, tail, rfl, bare, stop⟩ := exists_run quotes rest
    obtain rfl := first.unique (isLeast_stop bare stop)
    exact ⟨cause, rfl, ns, run, tail, atomic, rfl, bare, told.fault⟩

/-- Of several faults the first is reported, and a separator in a span is passed over. -/
theorem split_behind_span : [separator] ∉ standardQuotes ∧
    Text.ofString "a.\"b.c\"d..\"" ≠ [] ∧
    ∃ s i reason, FaultAt standardQuotes "a.\"b.c\"d..\"" s i (.afterQuote 7) reason := by
  have refused : quoted standardQuotes "a.\"b.c\"d..\"" =
      .error (.malformedPath "a.\"b.c\"d..\"" (.afterQuote 7)) := by
    cbv
  have bareSep : [separator] ∉ standardQuotes := by decide
  have nonempty : Text.ofString "a.\"b.c\"d..\"" ≠ [] := by decide
  obtain ⟨s, i, cause, reason, same, -, -, -, told⟩ :=
    (split_leftmost_fault bareSep nonempty _).1 refused
  cases same
  exact ⟨bareSep, nonempty, s, i, reason, told⟩

end Splitter

end SeriesCatalog
