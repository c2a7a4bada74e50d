/-
  Series catalog — the grammar of raw paths.

  With quotes other than the separator, a raw path is a list of atomic nodes
  with separators between them.

  * `Splitter.Atomic`: the texts that are nodes;
  * `Splitter.atomic_of_scan`, `Splitter.scan_join`: a scan cuts a path into
    atomic nodes, and every list of atomic nodes is what the scan makes of its
    joined text;
  * `Splitter.split_iff_atomic`: hence a path has one segmentation at most, and
    is refused iff it has none.
-/
import SeriesCatalog.Proofs.Scan

namespace SeriesCatalog.Splitter

variable {quotes : List Text} {start : Nat} {node rest raw : Text} {ns : Nodes}

/-! ## Atomic nodes -/

/-- What may stand between two separators. -/
inductive Shaped (quotes : List Text) : Text → Prop
  /-- Units that stand for themselves. -/
  | run {run} : (∀ u ∈ run, Bare quotes u) → Shaped quotes run
  /-- Such units, and behind them one span, in which only its own quote may not occur. -/
  | span {run inside q} : (∀ u ∈ run, Bare quotes u) → isQuote quotes q = true → q ∉ inside →
      Shaped quotes (run ++ q :: (inside ++ [q]))

/-- A text that is one node of a path. -/
structure Atomic (quotes : List Text) (node : Text) : Prop where
  nonempty : node ≠ []
  shaped : Shaped quotes node
  /-- The node is more than a quote and its closing. -/
  not_hollow : ∀ q, isQuote quotes q = true → node ≠ [q, q]

theorem Atomic.of_bare (nonempty : node ≠ []) (bare : ∀ u ∈ node, Bare quotes u) :
    Atomic quotes node where
  nonempty := nonempty
  shaped := .run bare
  not_hollow q quote he := by
    have := (bare q (by simp [he])).2
    simp [quote] at this

theorem Atomic.of_span {run inside : Text} {q : UInt16} (bare : ∀ u ∈ run, Bare quotes u)
    (quote : isQuote quotes q = true) (closed : q ∉ inside) (full : run ++ inside ≠ []) :
    Atomic quotes (run ++ q :: (inside ++ [q])) where
  nonempty := by simp
  shaped := .span bare quote closed
  not_hollow q' _ he := by
    have hlength := congrArg List.length he
    simp only [List.length_append, List.length_cons, List.length_nil] at hlength
    exact full (List.length_eq_zero_iff.1 (by rw [List.length_append]; omega))

theorem join_ne_nil_of_atomic (hne : ns ≠ []) (atomic : ∀ n ∈ ns, Atomic quotes n) :
    ns.join ≠ [] := by
  intro h
  rcases Nodes.join_eq_nil_iff.1 h with none | hollow
  · exact hne none
  · exact (atomic [] (by simp [hollow])).nonempty rfl

/-! ## A scan makes atomic nodes -/

/-- What holds within a node of which `node` has been read, last unit first, and which goes on
    with `rest`: no span was opened, or one was closed and the node ends here. -/
def Pending (quotes : List Text) (node rest : Text) : Prop :=
  (∀ u ∈ node, Bare quotes u) ∨
    Shaped quotes node.reverse ∧ rest.head?.all (· = separator) = true

theorem Pending.shaped (h : Pending quotes node rest) : Shaped quotes node.reverse := by
  rcases h with bare | ⟨shaped, -⟩
  · exact .run fun u hu => bare u (List.mem_reverse.1 hu)
  · exact shaped

theorem Pending.bare {u : UInt16} (h : Pending quotes node (u :: rest)) (hu : u ≠ separator) :
    ∀ v ∈ node, Bare quotes v := by
  rcases h with bare | ⟨-, ends⟩
  · exact bare
  · simp only [List.head?_cons, Option.all_some, decide_eq_true_eq] at ends
    exact absurd ends hu

theorem ne_separator_of_quote {q : UInt16} (bareSep : isQuote quotes separator = false)
    (quote : isQuote quotes q = true) : q ≠ separator := by
  rintro rfl
  rw [bareSep] at quote
  contradiction

theorem Pending.push {u : UInt16} (h : Pending quotes node (u :: rest)) (notSep : u ≠ separator)
    (notQuote : isQuote quotes u = false) : Pending quotes (u :: node) rest :=
  Or.inl (List.forall_mem_cons.2 ⟨⟨notSep, notQuote⟩, h.bare notSep⟩)

theorem Pending.span {q : UInt16} {inside after : Text} (h : Pending quotes node (q :: rest))
    (bareSep : isQuote quotes separator = false) (quote : isQuote quotes q = true)
    (outside : q ∉ inside) (ends : after.head?.all (· = separator) = true) :
    Pending quotes (q :: (inside.reverse ++ q :: node)) after := by
  have shaped : Shaped quotes (node.reverse ++ q :: (inside ++ [q])) :=
    .span (fun v hv => h.bare (ne_separator_of_quote bareSep quote) v (List.mem_reverse.1 hv))
      quote outside
  exact Or.inr ⟨by simpa using shaped, ends⟩

theorem Pending.atomic {first : Text} (h : Pending quotes node rest)
    (closed : closeNode quotes start node.reverse = .ok first) : Atomic quotes first := by
  obtain ⟨rfl, nonempty, not_hollow⟩ := closeNode_eq_ok_iff.1 closed
  exact ⟨nonempty, h.shaped, not_hollow⟩

theorem atomic_of_scan (bareSep : isQuote quotes separator = false)
    (h : scan quotes start node rest = .ok ns) (pending : Pending quotes node rest) :
    ∀ n ∈ ns, Atomic quotes n := by
  fun_induction scan quotes start node rest generalizing ns with
  | case1 start node =>
    obtain ⟨first, closed, h⟩ := Except.bind_eq_ok_iff.1 h
    cases h
    simpa using pending.atomic closed
  | case2 => contradiction
  | case3 start node u rest quote span after closed node' ends =>
    rename_i ih
    obtain ⟨outside, rfl⟩ := closing?_eq_some_iff.1 closed
    exact ih h (pending.span bareSep quote outside ends)
  | case4 => contradiction
  | case5 start node rest bare ih =>
    obtain ⟨first, closed, h⟩ := Except.bind_eq_ok_iff.1 h
    obtain ⟨others, hothers, h⟩ := Except.bind_eq_ok_iff.1 h
    cases h
    intro n hn
    rcases List.mem_cons.1 hn with rfl | hn
    · exact pending.atomic closed
    · exact ih hothers (Or.inl (by simp)) n hn
  | case6 start node u rest notQuote notSep ih =>
    exact ih h (pending.push notSep (by simpa using notQuote))

/-! ## Atomic nodes are scanned back -/

/-- A scan reads a node to its end in one go, whatever follows the separator behind it. -/
theorem scan_shaped (shaped : Shaped quotes node) (ends : rest.head?.all (· = separator) = true) :
    scan quotes start [] (node ++ rest) = scan quotes start node.reverse rest := by
  cases shaped with
  | run bare => rw [scan_run bare, List.append_nil]
  | @span run inside q bare quote outside =>
    calc scan quotes start [] (run ++ q :: (inside ++ [q]) ++ rest)
        = scan quotes start [] (run ++ q :: (inside ++ q :: rest)) := by simp
      _ = scan quotes start run.reverse (q :: (inside ++ q :: rest)) := by
        rw [scan_run bare, List.append_nil]
      _ = scan quotes start (q :: (inside.reverse ++ q :: run.reverse)) rest :=
        scan_span quote outside ends
      _ = scan quotes start (run ++ q :: (inside ++ [q])).reverse rest := by simp

theorem closeNode_atomic (atomic : Atomic quotes node) :
    closeNode quotes start node = .ok node :=
  closeNode_eq_ok_iff.2 ⟨rfl, atomic.nonempty, atomic.not_hollow⟩

theorem scan_node (bareSep : isQuote quotes separator = false) (atomic : Atomic quotes node) :
    scan quotes start [] (node ++ separator :: rest) =
      (scan quotes (start + node.length + 1) [] rest).map (node :: ·) := by
  rw [scan_shaped atomic.shaped (by simp), scan_separator bareSep, List.reverse_reverse,
    closeNode_atomic atomic, List.length_reverse]
  rfl

theorem scan_join (bareSep : isQuote quotes separator = false) (hne : ns ≠ [])
    (atomic : ∀ n ∈ ns, Atomic quotes n) : scan quotes start [] ns.join = .ok ns := by
  induction ns generalizing start with
  | nil => contradiction
  | cons n ns ih =>
    have hn : Atomic quotes n := atomic n (by simp)
    by_cases last : ns = []
    · subst last
      calc scan quotes start [] (Nodes.join [n])
          = scan quotes start [] (n ++ []) := by rw [List.append_nil]; rfl
        _ = scan quotes start n.reverse [] := scan_shaped hn.shaped rfl
        _ = .ok [n] := by rw [scan_nil, List.reverse_reverse, closeNode_atomic hn]; rfl
    · have others : scan quotes (start + n.length + 1) [] (Nodes.join ns) = .ok ns :=
        ih last fun m hm => atomic m (by simp [hm])
      rw [Nodes.join_cons last, scan_node bareSep hn, others]
      rfl

/-! ## Splitting -/

theorem quoted_eq_ok_iff :
    quoted quotes raw = .ok ns ↔ raw ≠ [] ∧ scan quotes 0 [] raw = .ok ns := by
  cases raw with
  | nil => simp [quoted]
  | cons u rest => simp [quoted]

/-- The nodes of a raw path join to it, even where the separator is a quote. -/
theorem join_of_quoted (h : quoted quotes raw = .ok ns) : ns ≠ [] ∧ ns.join = raw := by
  simpa using join_of_scan (quoted_eq_ok_iff.1 h).2

theorem atomic_of_quoted (bareSep : isQuote quotes separator = false)
    (h : quoted quotes raw = .ok ns) : ns ≠ [] ∧ (∀ n ∈ ns, Atomic quotes n) ∧ ns.join = raw := by
  obtain ⟨hne, hjoin⟩ := join_of_quoted h
  exact ⟨hne, atomic_of_scan bareSep (quoted_eq_ok_iff.1 h).2 (Or.inl (by simp)), hjoin⟩

theorem quoted_join (bareSep : isQuote quotes separator = false) (hne : ns ≠ [])
    (atomic : ∀ n ∈ ns, Atomic quotes n) : quoted quotes ns.join = .ok ns :=
  quoted_eq_ok_iff.2 ⟨join_ne_nil_of_atomic hne atomic, scan_join bareSep hne atomic⟩

theorem quoted_eq_error {error : CatalogError} (h : quoted quotes raw = .error error) :
    ∃ cause, error = .malformedPath raw cause := by
  cases raw with
  | nil => cases h; exact ⟨_, rfl⟩
  | cons u rest =>
    unfold quoted at h
    cases hs : scan quotes 0 [] (u :: rest) with
    | error cause => rw [hs] at h; cases h; exact ⟨cause, rfl⟩
    | ok ns => rw [hs] at h; contradiction

/-- **A path splits into exactly its atomic nodes.**  Where the separator is no quote, the nodes
    of a raw path are the one list of atomic nodes that joins to it, and a path that is no such
    list joined is malformed. -/
theorem split_iff_atomic (bareSep : [separator] ∉ quotes) :
    (∀ raw ns, quoted quotes raw = .ok ns ↔
      ns ≠ [] ∧ (∀ n ∈ ns, Atomic quotes n) ∧ ns.join = raw) ∧
    (∀ ns : Nodes, ns ≠ [] → (∀ n ∈ ns, Atomic quotes n) → quoted quotes ns.join = .ok ns) ∧
    ∀ raw, (¬ ∃ ns : Nodes, ns ≠ [] ∧ (∀ n ∈ ns, Atomic quotes n) ∧ ns.join = raw) →
      ∃ cause, quoted quotes raw = .error (.malformedPath raw cause) := by
  have notQuote : isQuote quotes separator = false := by simpa [isQuote] using bareSep
  refine ⟨fun raw ns => ⟨atomic_of_quoted notQuote, ?_⟩, fun ns => quoted_join notQuote, ?_⟩
  · rintro ⟨hne, atomic, rfl⟩
    exact quoted_join notQuote hne atomic
  · intro raw none
    cases h : quoted quotes raw with
    | ok ns => exact absurd ⟨ns, atomic_of_quoted notQuote h⟩ none
    | error error =>
      obtain ⟨cause, rfl⟩ := quoted_eq_error h
      exact ⟨cause, rfl⟩

theorem bare_of_all {run : Text} (h : run.all fun u => Bare quotes u) :
    ∀ u ∈ run, Bare quotes u := by
  simpa using h

/-- A separator within a span does not cut. -/
theorem split_separator_in_span : [separator] ∉ standardQuotes ∧
    quoted standardQuotes "a.b\"c.d\"" = .ok ["a", "b\"c.d\""] := by
  have bareSep : [separator] ∉ standardQuotes := by decide
  have first : Atomic standardQuotes (Text.ofString "a") :=
    ⟨by decide, .run (bare_of_all (by decide)),
      fun q _ h => absurd (congrArg List.length h) (by simp; decide)⟩
  have second : Atomic standardQuotes (Text.ofString "b\"c.d\"") :=
    ⟨by decide, @Shaped.span _ "b" "c.d" 0x22 (bare_of_all (by decide)) (by decide) (by decide),
      fun q _ h => absurd (congrArg List.length h) (by simp; decide)⟩
  exact ⟨bareSep, ((split_iff_atomic bareSep).1 _ _).2
    ⟨by simp, by simp [first, second], by decide⟩⟩

end SeriesCatalog.Splitter
