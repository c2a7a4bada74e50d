/-
  Series catalog — equality, hash and order of paths.

  Equality compares nodes, the hash is that of the joined nodes, and the order
  is that of the written paths.

  * `Splitter.join_injective`: atomic nodes are known from the text that they
    join to;
  * `AnyPath.equality_laws`: equality is an equivalence over paths of all kinds,
    equal paths have one hash, and where paths are written as their nodes join,
    equality is a tie in the order.
-/
import SeriesCatalog.AnyPath
import SeriesCatalog.Proofs.Grammar

namespace SeriesCatalog

/-! ## Joined nodes -/

namespace Splitter

variable {quotes : List Text} {node : Text} {ns ms : Nodes}

theorem join_eq_nil_iff (atomic : ∀ n ∈ ns, Atomic quotes n) : ns.join = [] ↔ ns = [] := by
  constructor
  · intro h
    by_contra hne
    exact join_ne_nil_of_atomic hne atomic h
  · rintro rfl
    rfl

/-- **Joining loses nothing of atomic nodes**: a joined text has one segmentation. -/
theorem join_injective (bareSep : isQuote quotes separator = false)
    (hns : ∀ n ∈ ns, Atomic quotes n) (hms : ∀ n ∈ ms, Atomic quotes n) (h : ns.join = ms.join) :
    ns = ms := by
  by_cases hne : ns = []
  · rw [hne, eq_comm, ← join_eq_nil_iff hms, ← h, join_eq_nil_iff hns]
    exact hne
  · have hne' : ms ≠ [] := fun none => hne <| by
      rwa [← join_eq_nil_iff hns, h, join_eq_nil_iff hms]
    have split := quoted_join bareSep hne hns
    rw [h, quoted_join bareSep hne' hms] at split
    exact (Except.ok.inj split).symm

theorem separator_bare : isQuote standardQuotes separator = false := by decide

theorem standard_eq_singleton_iff : standard node = .ok [node] ↔ Atomic standardQuotes node := by
  constructor
  · intro h
    exact (atomic_of_quoted separator_bare h).2.1 node (List.mem_singleton_self node)
  · intro h
    exact quoted_join separator_bare (List.cons_ne_nil node []) (by simpa using h)

/-- Three nodes; within the second a quote opens, and its span holds the separator. -/
def quotedNodes : Nodes := ["r", "d\"1.2\"", "s"]

theorem atomic_quotedNodes : ∀ node ∈ quotedNodes, Atomic standardQuotes node := by
  simp only [quotedNodes, List.forall_mem_cons, List.not_mem_nil, false_implies, implies_true,
    and_true]
  refine ⟨.of_bare (by decide) (bare_of_all (by decide)), ?_,
    .of_bare (by decide) (bare_of_all (by decide))⟩
  exact @Atomic.of_span _ "d" "1.2" 0x22 (bare_of_all (by decide)) (by decide) (by decide)
    (by decide)

end Splitter

/-! ## Paths of all kinds -/

namespace AnyPath

variable {a b c : AnyPath} {na nb nc : Nodes}

theorem equals_eq (ha : a.nodes = .ok na) (hb : b.nodes = .ok nb) :
    a.equals b = .ok (decide (na = nb)) := by
  rw [equals, ha, hb]
  rfl

theorem equals_eq_ok_true_iff (ha : a.nodes = .ok na) (hb : b.nodes = .ok nb) :
    a.equals b = .ok true ↔ na = nb := by
  rw [equals_eq ha hb, Except.ok.injEq, decide_eq_true_iff]

theorem compare_eq_iff : a.compare b = .eq ↔ a.fullPath = b.fullPath :=
  Std.LawfulEqOrd.compare_eq_iff_eq

theorem hash_eq (ha : a.nodes = .ok na) : a.hash = .ok na.join.hash := by
  rw [hash, ha]
  rfl

/-- **Equality, hash and order agree**, over paths of all kinds whose nodes are known.  Equality is
    reflexive, symmetric and transitive, equal paths have the same hash, and an aliased path is
    taken for its path.  Paths that are written as their nodes join tie in the order if they are
    equal, and only then if all their nodes stand for themselves. -/
theorem equality_laws (ha : a.nodes = .ok na) (hb : b.nodes = .ok nb) (hc : c.nodes = .ok nc) :
    a.equals a = .ok true ∧
    (∃ same, a.equals b = .ok same ∧ b.equals a = .ok same) ∧
    (a.equals b = .ok true → b.equals c = .ok true → a.equals c = .ok true) ∧
    (a.equals b = .ok true → ∃ h, a.hash = .ok h ∧ b.hash = .ok h) ∧
    (a.fullPath = na.join → b.fullPath = nb.join →
      (a.equals b = .ok true → a.compare b = .eq) ∧
      ((∀ node ∈ na ++ nb, Splitter.standard node = .ok [node]) →
        a.compare b = .eq → a.equals b = .ok true)) ∧
    ∀ x : Aliased, (aliased x).equals b = (plain x.path).equals b ∧
      b.equals (aliased x) = b.equals (plain x.path) ∧
      (aliased x).hash = (plain x.path).hash ∧
      (aliased x).compare b = (plain x.path).compare b ∧
      b.compare (aliased x) = b.compare (plain x.path) := by
  simp only [equals_eq_ok_true_iff ha ha, equals_eq_ok_true_iff ha hb, equals_eq_ok_true_iff hb hc,
    equals_eq_ok_true_iff ha hc, hash_eq ha, hash_eq hb, compare_eq_iff]
  refine ⟨trivial, ?_, Eq.trans, ?_, fun hfa hfb => ⟨?_, fun single h => ?_⟩,
    fun x => ⟨rfl, rfl, rfl, rfl, rfl⟩⟩
  · refine ⟨decide (na = nb), equals_eq ha hb, ?_⟩
    rw [equals_eq hb ha]
    exact congrArg Except.ok (decide_eq_decide.2 eq_comm)
  · rintro rfl
    exact ⟨_, rfl, rfl⟩
  · rintro rfl
    rw [hfa, hfb]
  · rw [hfa, hfb] at h
    have atomic : ∀ node ∈ na ++ nb, Splitter.Atomic Splitter.standardQuotes node :=
      fun node hn => Splitter.standard_eq_singleton_iff.1 (single node hn)
    exact Splitter.join_injective Splitter.separator_bare
      (fun node hn => atomic node (List.mem_append_left nb hn))
      (fun node hn => atomic node (List.mem_append_right na hn)) h

/-- The series with these nodes. -/
def quotedSeries : AnyPath := .series { device := "r.d\"1.2\"", measurement := "s" }

/-- The path with these nodes, under an alias. -/
def quotedAlias : AnyPath :=
  .aliased { path := { nodes := Splitter.quotedNodes }, displayAlias := some "t" }

/-- The path with these nodes, read from a text with slashes between them. -/
def slashed : AnyPath :=
  .plain { nodes := Splitter.quotedNodes, written := some "r/d\"1.2\"/s" }

/-- A series, an aliased path and a path that is written in another way are equal, and have one
    hash. -/
theorem equality_of_three_kinds : quotedSeries.compare quotedAlias = .eq ∧
    quotedSeries.equals quotedAlias = .ok true ∧ quotedSeries.equals slashed = .ok true ∧
    quotedSeries.fullPath ≠ slashed.fullPath ∧
    ∃ h, quotedSeries.hash = .ok h ∧ slashed.hash = .ok h := by
  have hseries : quotedSeries.nodes = .ok Splitter.quotedNodes := by
    have split : Splitter.standard "r.d\"1.2\"" = .ok Splitter.quotedNodes.device :=
      Splitter.quoted_join Splitter.separator_bare (List.cons_ne_nil _ _)
        fun node hn => Splitter.atomic_quotedNodes node (List.dropLast_subset _ hn)
    rw [quotedSeries, nodes, Series.nodes, split]
    rfl
  have halias : quotedAlias.nodes = .ok Splitter.quotedNodes := rfl
  have hslashed : slashed.nodes = .ok Splitter.quotedNodes := rfl
  have tie : quotedSeries.compare quotedAlias = .eq := by decide
  obtain ⟨-, -, trans, -, order, -⟩ := equality_laws hseries halias hslashed
  have equal : quotedSeries.equals quotedAlias = .ok true := by
    refine (order rfl rfl).2 (fun node hn => ?_) tie
    exact Splitter.standard_eq_singleton_iff.2 <|
      (List.mem_append.1 hn).elim (Splitter.atomic_quotedNodes node)
        (Splitter.atomic_quotedNodes node)
  have equal' : quotedSeries.equals slashed = .ok true := trans equal (by decide)
  obtain ⟨-, -, -, hash, -⟩ := equality_laws hseries hslashed hslashed
  exact ⟨tie, equal, equal', by decide, hash equal'⟩

end AnyPath

end SeriesCatalog
