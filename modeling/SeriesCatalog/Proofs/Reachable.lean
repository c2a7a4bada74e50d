/-
  Series catalog — the paths that can be made.

  * `Path.Reachable`: the paths that reading, wrapping nodes, joining, extending
    and cutting off the measurement give, in any order;
  * `Path.Reachable.proper`: each of them has a node, and none that is empty.
-/
import SeriesCatalog.Path.Parse
import SeriesCatalog.Proofs.Except
import SeriesCatalog.Proofs.Scan

namespace SeriesCatalog

variable {raw node : Text} {nodes : Nodes} {splitter : Splitter} {options : ParseOptions}
  {p q : Path}

theorem Nodes.device_append_terminal (h : nodes ≠ []) :
    nodes.device ++ [nodes.terminal] = nodes := by
  rw [device, terminal, List.getLastD_eq_getLast?, List.getLast?_eq_some_getLast h]
  exact List.dropLast_concat_getLast h

theorem Nodes.terminal_mem (h : nodes ≠ []) : nodes.terminal ∈ nodes := by
  rw [terminal, List.getLastD_eq_getLast?, List.getLast?_eq_some_getLast h]
  exact List.getLast_mem h

/-! ## Proper nodes -/

/-- The nodes that a path may have. -/
structure Nodes.Proper (nodes : Nodes) : Prop where
  nonempty : nodes ≠ []
  whole : ∀ node ∈ nodes, node ≠ []

theorem Nodes.firstEmpty?_eq_none_iff : nodes.firstEmpty? = none ↔ ∀ node ∈ nodes, node ≠ [] := by
  simp [firstEmpty?, List.findIdx?_eq_none_iff]

theorem Nodes.Proper.append {front back : Nodes} (hfront : front.Proper)
    (hback : ∀ node ∈ back, node ≠ []) : (front ++ back).Proper where
  nonempty h := hfront.nonempty (List.append_eq_nil_iff.1 h).1
  whole node hn := (List.mem_append.1 hn).elim (hfront.whole node) (hback node)

theorem Nodes.Proper.device (h : nodes.Proper) (long : 2 ≤ nodes.length) : nodes.device.Proper where
  nonempty he := by
    have : nodes.length - 1 = 0 := by rw [← List.length_dropLast]; exact congrArg List.length he
    omega
  whole node hn := h.whole node (List.dropLast_subset nodes hn)

theorem Nodes.Proper.terminal_ne_nil (h : nodes.Proper) : nodes.terminal ≠ [] :=
  h.whole nodes.terminal (terminal_mem h.nonempty)

theorem Nodes.Proper.join_ne_nil (h : nodes.Proper) : nodes.join ≠ [] := by
  intro he
  rcases join_eq_nil_iff.1 he with none | hollow
  · exact h.nonempty none
  · exact h.whole [] (by simp [hollow]) rfl

namespace Path

/-! ## What makes a path -/

theorem checked_eq_ok_iff {β : Type} {missing : CatalogError} {hollow : Nat → CatalogError}
    {x y : β} :
    (do
      if nodes.isEmpty then throw missing
      if let some index := nodes.firstEmpty? then throw (hollow index)
      return x : Except CatalogError β) = .ok y ↔ nodes.Proper ∧ y = x := by
  by_cases bare : nodes = []
  · subst bare
    exact ⟨(nomatch ·), fun h => absurd rfl h.1.nonempty⟩
  · rw [if_neg (by simpa using bare)]
    cases hempty : nodes.firstEmpty? with
    | none =>
      have proper : nodes.Proper := ⟨bare, Nodes.firstEmpty?_eq_none_iff.1 hempty⟩
      refine ⟨fun h => ⟨proper, ?_⟩, fun h => ?_⟩
      · cases h; rfl
      · rw [h.2]; rfl
    | some index =>
      refine ⟨(nomatch ·), fun h => ?_⟩
      rw [Nodes.firstEmpty?_eq_none_iff.2 h.1.whole] at hempty
      contradiction

theorem ofNodes_eq_ok_iff : ofNodes nodes = .ok p ↔ nodes.Proper ∧ p = { nodes } :=
  checked_eq_ok_iff

theorem push_eq_ok_iff : p.push node = .ok q ↔ node ≠ [] ∧ q = { nodes := p.nodes ++ [node] } := by
  unfold push
  split
  · next none => simp [List.isEmpty_iff.1 none]
  · next some =>
    rw [List.isEmpty_iff] at some
    simp [some, eq_comm]

theorem devicePath_eq_ok_iff :
    p.devicePath = .ok q ↔ 2 ≤ p.nodes.length ∧ q = { nodes := p.nodes.device } := by
  unfold devicePath
  split
  · next short => simp; omega
  · next long =>
    have : 2 ≤ p.nodes.length := by omega
    simp [this, eq_comm]

theorem splitNodes_eq_ok_iff :
    splitNodes splitter raw = .ok nodes ↔ splitter raw = .ok nodes ∧ nodes.Proper := by
  unfold splitNodes
  rw [Except.bind_eq_ok_iff]
  constructor
  · rintro ⟨found, hfound, h⟩
    obtain ⟨proper, rfl⟩ := checked_eq_ok_iff.1 h
    exact ⟨hfound, proper⟩
  · rintro ⟨hsplit, proper⟩
    exact ⟨nodes, hsplit, checked_eq_ok_iff.2 ⟨proper, rfl⟩⟩

/-- **When a raw path is read**: both limits are valid and kept, and the splitter gives the nodes. -/
theorem read_eq_ok_iff :
    read raw options = .ok p ↔ ∃ maxLength maxNodes,
      Setting.maxPathLength.check options.maxPathLength = .ok maxLength ∧
        Setting.maxNodeCount.check options.maxNodeCount = .ok maxNodes ∧
          raw.length ≤ maxLength.toNat ∧ splitNodes options.splitter raw = .ok p.nodes ∧
            p.nodes.length ≤ maxNodes.toNat ∧ p.written = some raw := by
  unfold read
  simp only [Except.bind_eq_ok_iff]
  constructor
  · rintro ⟨maxLength, hlength, maxNodes, hcount, h⟩
    refine ⟨maxLength, maxNodes, hlength, hcount, ?_⟩
    split at h
    · contradiction
    · next short =>
      obtain ⟨nodes, hnodes, h⟩ := Except.bind_eq_ok_iff.1 h
      split at h
      · contradiction
      · next few =>
        cases h
        exact ⟨Nat.not_lt.1 short, hnodes, Nat.not_lt.1 few, rfl⟩
  · rintro ⟨maxLength, maxNodes, hlength, hcount, short, hnodes, few, hwritten⟩
    refine ⟨maxLength, hlength, maxNodes, hcount, ?_⟩
    rw [if_neg (Nat.not_lt.2 short)]
    refine Except.bind_eq_ok_iff.2 ⟨p.nodes, hnodes, ?_⟩
    rw [if_neg (Nat.not_lt.2 few), ← hwritten]
    rfl

theorem of_read (h : read raw options = .ok p) :
    splitNodes options.splitter raw = .ok p.nodes ∧ p.written = some raw := by
  obtain ⟨_, _, -, -, -, hnodes, -, hwritten⟩ := read_eq_ok_iff.1 h
  exact ⟨hnodes, hwritten⟩

theorem fullPath_of_read (h : read raw options = .ok p) : p.fullPath = raw := by
  rw [fullPath, (of_read h).2]
  rfl

/-! ## Reachable paths -/

/-- The paths that can be made. -/
inductive Reachable : Path → Prop
  | read {raw : Text} {options : ParseOptions} {p : Path} :
      Path.read raw options = .ok p → Reachable p
  | ofNodes {nodes : Nodes} {p : Path} : Path.ofNodes nodes = .ok p → Reachable p
  | append {p q : Path} : Reachable p → Reachable q → Reachable (p ++ q)
  | push {p q : Path} {node : Text} : Reachable p → p.push node = .ok q → Reachable q
  | devicePath {p q : Path} : Reachable p → p.devicePath = .ok q → Reachable q

theorem Reachable.of_proper (h : nodes.Proper) : Reachable { nodes } :=
  .ofNodes (ofNodes_eq_ok_iff.2 ⟨h, rfl⟩)

/-- **A path that can be made has a node, and none that is empty.** -/
theorem Reachable.proper (h : Reachable p) : p.nodes.Proper := by
  induction h with
  | read h => exact (splitNodes_eq_ok_iff.1 (of_read h).1).2
  | ofNodes h =>
    obtain ⟨proper, rfl⟩ := ofNodes_eq_ok_iff.1 h
    exact proper
  | append _ _ ihp ihq => exact ihp.append ihq.whole
  | push _ h ih =>
    obtain ⟨hnode, rfl⟩ := push_eq_ok_iff.1 h
    exact ih.append fun node hn => List.mem_singleton.1 hn ▸ hnode
  | devicePath _ h ih =>
    obtain ⟨long, rfl⟩ := devicePath_eq_ok_iff.1 h
    exact ih.device long

theorem Reachable.devicePrefix_ne_nil (h : Reachable p) (long : 2 ≤ p.nodes.length) :
    p.devicePrefix ≠ [] :=
  (h.proper.device long).join_ne_nil

theorem Reachable.terminal_ne_nil (h : p.Reachable) : p.terminal ≠ [] :=
  h.proper.terminal_ne_nil

end Path

end SeriesCatalog
