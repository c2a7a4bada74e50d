/-
  Series catalog — from a path to its device and to its series.

  Every path that can be made has proper nodes, and this is all that the
  operations without checks rely on: the name of the device is empty only for a
  single node, and the series of a path is the path in another form.

  * `Nodes.join_concat`: what joined nodes are with one node more;
  * `Series.ofNodes_eq_ok_iff`, `Series.ofPair_eq_ok_iff`: what makes a series;
  * `Nodes.Proper.fullPath_series`: a series is written as its nodes join;
  * `Path.Reachable.conversions`: the device and the series of a path that can be
    made.
-/
import SeriesCatalog.Proofs.Equality
import SeriesCatalog.Proofs.Reachable
import SeriesCatalog.Proofs.Settings

namespace SeriesCatalog

variable {nodes : Nodes} {node : Text} {s : Series} {p : Path}

/-! ## The name of a device -/

namespace Nodes

theorem join_concat (h : nodes ≠ []) : join (nodes ++ [node]) = nodes.join ++ separator :: node :=
  join_append h (List.cons_ne_nil node [])

theorem join_eq_device_append (h : nodes.device ≠ []) :
    nodes.join = nodes.device.join ++ separator :: nodes.terminal := by
  have hne : nodes ≠ [] := by
    rintro rfl
    exact h rfl
  rw [← join_concat h, device_append_terminal hne]

theorem device_eq_nil_of_single (h : nodes.length = 1) : nodes.device = [] :=
  List.length_eq_zero_iff.1 (by rw [device, List.length_dropLast, h])

theorem Proper.device_of_several (h : nodes.Proper) (several : nodes.length ≠ 1) :
    nodes.device.Proper := by
  have := List.length_pos_iff.2 h.nonempty
  exact h.device (by omega)

theorem Proper.join_device_eq_nil_iff (h : nodes.Proper) :
    nodes.device.join = [] ↔ nodes.length = 1 := by
  constructor
  · intro none
    by_contra several
    exact (h.device_of_several several).join_ne_nil none
  · intro single
    rw [device_eq_nil_of_single single]
    rfl

end Nodes

/-! ## Series of nodes -/

namespace Series

theorem ofPair_eq_ok_iff {device measurement : Text} :
    ofPair device measurement = .ok s ↔ measurement ≠ [] ∧ s = { device, measurement } := by
  unfold ofPair
  split
  · next empty => simp [List.isEmpty_iff.1 empty]
  · next named =>
    rw [List.isEmpty_iff] at named
    simp [named, eq_comm]

/-- **Nodes make a series** if the last of them is not empty; the others are not looked at. -/
theorem ofNodes_eq_ok_iff :
    ofNodes nodes = .ok s ↔ nodes.terminal ≠ [] ∧
      s = { device := nodes.device.join, measurement := nodes.terminal, given := nodes } := by
  unfold ofNodes
  by_cases missing : nodes = []
  · subst missing
    exact ⟨(nomatch ·), fun h => absurd rfl h.1⟩
  · rw [if_neg (by simpa using missing)]
    constructor
    · intro h
      obtain ⟨pair, hpair, made⟩ := Except.bind_eq_ok_iff.1 h
      obtain ⟨named, rfl⟩ := ofPair_eq_ok_iff.1 hpair
      cases made
      exact ⟨named, rfl⟩
    · rintro ⟨named, rfl⟩
      exact Except.bind_eq_ok_iff.2 ⟨_, ofPair_eq_ok_iff.2 ⟨named, rfl⟩, rfl⟩

end Series

/-- **A series is written as its nodes join**, with the separator only where there is a device.  A
    device of one empty node would be taken for none. -/
theorem Series.fullPath_eq_join (hdevice : s.device = nodes.device.join)
    (hterminal : s.measurement = nodes.terminal) (some_node : nodes ≠ [])
    (full : nodes.device ≠ [[]]) : s.fullPath = nodes.join := by
  rw [Series.fullPath, hdevice, hterminal]
  by_cases single : nodes.device = []
  · have whole := Nodes.device_append_terminal some_node
    rw [single] at whole ⊢
    exact congrArg Nodes.join whole
  · have named : nodes.device.join ≠ [] := by
      rw [Ne, Nodes.join_eq_nil_iff]
      exact not_or.2 ⟨single, full⟩
    rw [if_neg (by simpa using named), ← Nodes.join_eq_device_append single]

theorem Nodes.Proper.fullPath_series (h : nodes.Proper) (hdevice : s.device = nodes.device.join)
    (hterminal : s.measurement = nodes.terminal) : s.fullPath = nodes.join := by
  refine Series.fullPath_eq_join hdevice hterminal h.nonempty fun hollow => ?_
  have empty_node : [] ∈ nodes.device := by simp [hollow]
  exact h.whole [] (List.dropLast_subset nodes empty_node) rfl

namespace Path

theorem toSeries_eq_ok_iff :
    p.toSeries = .ok s ↔ p.terminal ≠ [] ∧
      s = { device := p.devicePrefix, measurement := p.terminal, given := p.nodes } :=
  Series.ofNodes_eq_ok_iff

/-- Exactly the paths with several nodes have a device, of which the name is the written path. -/
theorem devicePath_cases (p : Path) :
    p.nodes.length ≤ 1 ∧ p.devicePath = .error (.invalidArgument (.noDevice p.fullPath)) ∨
      2 ≤ p.nodes.length ∧ ∃ device, p.devicePath = .ok device ∧
        device.fullPath = p.devicePrefix := by
  by_cases short : p.nodes.length ≤ 1
  · exact Or.inl ⟨short, if_pos short⟩
  · have long : 2 ≤ p.nodes.length := by omega
    exact Or.inr ⟨long, _, devicePath_eq_ok_iff.2 ⟨long, rfl⟩, rfl⟩

/-- **The device and the series of a path that can be made.**  The path has a node, and none that is
    empty.  It has no device iff it has a single node, and else the path of its device is written as
    the name of the device.  It always has a series, with its nodes, keys and hash; path and series
    are equal, and the series is written as the nodes join. -/
theorem Reachable.conversions (h : p.Reachable) :
    (1 ≤ p.nodes.length ∧ ∀ node ∈ p.nodes, node ≠ []) ∧
    (p.devicePrefix = [] ↔ p.nodes.length = 1) ∧
    ((∃ error, p.devicePath = .error error) ↔ p.nodes.length = 1) ∧
    (p.nodes.length ≠ 1 →
      ∃ device, p.devicePath = .ok device ∧ device.fullPath = p.devicePrefix) ∧
    ∃ s, p.toSeries = .ok s ∧ s.nodes = .ok p.nodes ∧ s.device = p.devicePrefix ∧
      s.measurement = p.terminal ∧ (AnyPath.series s).hash = .ok p.hash ∧
      (AnyPath.plain p).equals (.series s) = .ok true ∧
      (AnyPath.series s).equals (.plain p) = .ok true ∧ s.fullPath = p.nodes.join := by
  have proper := h.proper
  have some_node := List.length_pos_iff.2 proper.nonempty
  refine ⟨⟨some_node, proper.whole⟩, proper.join_device_eq_nil_iff, ?_, ?_, ?_⟩
  · rcases p.devicePath_cases with ⟨short, failed⟩ | ⟨long, device, made, -⟩
    · exact iff_of_true ⟨_, failed⟩ (by omega)
    · refine iff_of_false ?_ (by omega)
      rintro ⟨error, failed⟩
      rw [made] at failed
      contradiction
  · intro several
    rcases p.devicePath_cases with ⟨short, -⟩ | ⟨-, made⟩
    · omega
    · exact made
  · refine ⟨_, toSeries_eq_ok_iff.2 ⟨proper.terminal_ne_nil, rfl⟩, rfl, rfl, rfl, rfl, ?_, ?_, ?_⟩
    · exact (AnyPath.equals_eq_ok_true_iff rfl rfl).2 rfl
    · exact (AnyPath.equals_eq_ok_true_iff rfl rfl).2 rfl
    · exact proper.fullPath_series rfl rfl

/-- Two nodes, read from a text with another mark between them. -/
def barred : Path := { nodes := ["a", "b"], written := some "a|b" }

theorem barred_reachable : barred.Reachable := by
  have split : splitNodes (Splitter.plain "|") "a|b" = .ok ["a", "b"] :=
    splitNodes_eq_ok_iff.2 ⟨by cbv, by decide, by decide⟩
  have hread : Path.read "a|b" { splitter := Splitter.plain "|" } = .ok barred :=
    read_eq_ok_iff.2 ⟨Setting.standard _, Setting.standard _, Setting.check_standard _,
      Setting.check_standard _, by decide, split, by decide, rfl⟩
  exact .read hread

/-- Two nodes, and a third that holds the separator. -/
def assembled : Path := { nodes := ["a", "b", "x.y"] }

theorem assembled_reachable : assembled.Reachable := by
  have behind : Reachable { nodes := ["x.y"] } := .of_proper ⟨by decide, by decide⟩
  have hpush : assembled.push "s" = .ok { nodes := ["a", "b", "x.y", "s"] } := by decide
  have hdevice : ({ nodes := ["a", "b", "x.y", "s"] } : Path).devicePath = .ok assembled := by decide
  exact .devicePath (.push (.append barred_reachable behind) hpush) hdevice

/-- The separator within its last node is no part of the device. -/
theorem conversions_of_assembled : assembled.Reachable ∧ assembled.devicePrefix = "a.b" ∧
    ∃ s, assembled.toSeries = .ok s ∧ s.nodes = .ok assembled.nodes ∧ s.device = "a.b" ∧
      s.fullPath = "a.b.x.y" := by
  obtain ⟨-, -, -, -, s, made, nodes, device, -, -, -, -, full⟩ := assembled_reachable.conversions
  refine ⟨assembled_reachable, by decide, s, made, nodes, ?_, ?_⟩
  · rw [device]
    decide
  · rw [full]
    decide

end Path

end SeriesCatalog
