/-
  Series catalog — series that are made from nodes.

  A series that is made from nodes keeps them, and is written as its device and its
  measurement.  Only the last node has to hold something.  Where the device is one
  empty node, its name is empty as if there were no device, and the path is written
  without the separator that the nodes join with.

  * `Series.fullPath_of_ofNodes`, `Series.join_of_hollow`: how the written path
    stands to the joined nodes;
  * `Series.in_step_iff`: hence path, nodes and hash of a series are in step, unless
    its device is one empty node.
-/
import SeriesCatalog.Proofs.Hashing

namespace SeriesCatalog

namespace Series

variable {nodes nodes' : Nodes} {s s' : Series}

/-! ## Path and nodes -/

theorem ne_nil_of_ofNodes (h : ofNodes nodes = .ok s) : nodes ≠ [] := by
  obtain ⟨named, -⟩ := ofNodes_eq_ok_iff.1 h
  rintro rfl
  exact named rfl

theorem device_eq_nil_iff (h : ofNodes nodes = .ok s) :
    s.device = [] ↔ nodes.length = 1 ∨ nodes.device = [[]] := by
  have alone : nodes.device = [] ↔ nodes.length = 1 := by
    have := List.length_pos_iff.2 (ne_nil_of_ofNodes h)
    rw [← List.length_eq_zero_iff, Nodes.device, List.length_dropLast]
    omega
  obtain ⟨-, rfl⟩ := ofNodes_eq_ok_iff.1 h
  rw [← alone]
  exact Nodes.join_eq_nil_iff

theorem fullPath_of_ofNodes (h : ofNodes nodes = .ok s) (full : nodes.device ≠ [[]]) :
    s.fullPath = nodes.join := by
  have some_node := ne_nil_of_ofNodes h
  obtain ⟨-, rfl⟩ := ofNodes_eq_ok_iff.1 h
  exact fullPath_eq_join rfl rfl some_node full

/-- The device of one empty node is not written, nor is the separator behind it. -/
theorem join_of_hollow (h : ofNodes nodes = .ok s) (hollow : nodes.device = [[]]) :
    nodes.join = separator :: s.fullPath := by
  obtain ⟨-, rfl⟩ := ofNodes_eq_ok_iff.1 h
  rw [Nodes.join_eq_device_append (by simp [hollow]), fullPath, hollow]
  rfl

/-- **Path, nodes and hash of a series are in step** exactly where its device is not one empty node:
    the series is written as its nodes join, its hash is that of the written path, and the name of
    the device is empty only for a single node.  Two such series tie in the order iff their joined
    nodes are one text. -/
theorem in_step_iff (h : ofNodes nodes = .ok s) (h' : ofNodes nodes' = .ok s') :
    s.nodes = .ok nodes ∧
    (s.fullPath = nodes.join ↔ nodes.device ≠ [[]]) ∧
    ((AnyPath.series s).hash = .ok s.fullPath.hash ↔ nodes.device ≠ [[]]) ∧
    ((s.device = [] → nodes.length = 1) ↔ nodes.device ≠ [[]]) ∧
    (nodes.device ≠ [[]] → nodes'.device ≠ [[]] →
      ((AnyPath.series s).compare (.series s') = .eq ↔ nodes.join = nodes'.join)) := by
  have kept : s.nodes = .ok nodes := by
    obtain ⟨-, rfl⟩ := ofNodes_eq_ok_iff.1 h
    rfl
  have hash : (AnyPath.series s).hash = .ok nodes.join.hash := AnyPath.hash_eq kept
  refine ⟨kept, ⟨?_, fullPath_of_ofNodes h⟩, ⟨?_, fun full => ?_⟩, ⟨?_, fun full none => ?_⟩,
    fun full full' => ?_⟩
  · intro same hollow
    rw [join_of_hollow h hollow] at same
    exact List.cons_ne_self _ _ same.symm
  · intro same hollow
    rw [hash, join_of_hollow h hollow] at same
    exact Text.hash_cons_ne (by decide) (Except.ok.inj same)
  · rw [hash, fullPath_of_ofNodes h full]
  · intro single hollow
    have one := single ((device_eq_nil_iff h).2 (Or.inr hollow))
    rw [Nodes.device_eq_nil_of_single one] at hollow
    contradiction
  · exact ((device_eq_nil_iff h).1 none).resolve_right full
  · rw [AnyPath.compare_eq_iff, AnyPath.fullPath, AnyPath.fullPath, fullPath_of_ofNodes h full,
      fullPath_of_ofNodes h' full']

/-- Two empty nodes make a device that is written, and so does a node that holds the separator. -/
theorem in_step_of_empty_nodes : ∃ s s', ofNodes [[], [], "s"] = .ok s ∧
    ofNodes ["a.b", "s"] = .ok s' ∧ s.fullPath = "..s" ∧
      (AnyPath.series s).hash = .ok s.fullPath.hash ∧
        (AnyPath.series s).compare (.series s') ≠ .eq := by
  obtain ⟨s, made⟩ : ∃ s, ofNodes [[], [], "s"] = .ok s := ⟨_, rfl⟩
  obtain ⟨s', made'⟩ : ∃ s', ofNodes ["a.b", "s"] = .ok s' := ⟨_, rfl⟩
  obtain ⟨-, path, hash, -, tie⟩ := in_step_iff made made'
  refine ⟨s, s', made, made', path.2 (by decide), hash.2 (by decide), ?_⟩
  rw [Ne, tie (by decide) (by decide)]
  decide

/-- A single empty node before the measurement makes a device without a name, and two series that
    differ in their nodes and hash tie in the order. -/
theorem out_of_step_of_empty_node : ∃ s t, ofNodes [[], "s"] = .ok s ∧ ofNodes ["s"] = .ok t ∧
    s.nodes = .ok [[], "s"] ∧ s.device = [] ∧ s.fullPath = "s" ∧
      Nodes.join [[], "s"] = ".s" ∧ (AnyPath.series s).hash ≠ .ok s.fullPath.hash ∧
        (AnyPath.series s).compare (.series t) = .eq ∧
          Nodes.join [[], "s"] ≠ Nodes.join ["s"] := by
  refine ⟨_, _, rfl, rfl, rfl, rfl, rfl, rfl, ?_, by decide, by decide⟩
  exact fun same => Text.hash_cons_ne (by decide) (Except.ok.inj same)

end Series

end SeriesCatalog
