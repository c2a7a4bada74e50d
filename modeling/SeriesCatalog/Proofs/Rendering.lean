/-
  Series catalog — paths written under an alias.

  An alias is written behind the name of the device, with a separator between the
  two.  Where there is a device, the text splits as that of the path does, with the
  alias in place of the measurement.  A path of a single node has none, but the
  separator is written all the same, and what stands before it is an empty node.

  * `Path.ReadByDefault.split_renamed`: another node in place of the measurement;
  * `Splitter.quoted_front_separator`: no text with a separator at its front splits;
  * `Aliased.splits_iff_device`: hence when a path under an alias is written as a
    path.
-/
import SeriesCatalog.Proofs.Cuts
import SeriesCatalog.Proofs.Sharing

namespace SeriesCatalog

variable {quotes : List Text} {name rest : Text} {p : Path}

theorem Splitter.quoted_front_separator (bareSep : isQuote quotes separator = false) :
    quoted quotes (separator :: rest) =
      .error (.malformedPath (separator :: rest) (.emptyNode 0)) := by
  show (scan quotes 0 [] (separator :: rest)).mapError _ = _
  rw [scan_separator bareSep]
  rfl

/-- **The device of a path may be followed by any other node.** -/
theorem Path.ReadByDefault.split_renamed (h : p.ReadByDefault) (deep : 2 ≤ p.nodes.length)
    (single : Splitter.standard name = .ok [name]) :
    Splitter.standard (p.devicePrefix ++ separator :: name) =
      .ok (p.nodes.device ++ [name]) := by
  have device : Splitter.standard p.devicePrefix = .ok p.nodes.device :=
    (read_standard_iff.1 (h.read_device deep)).2.1
  exact (Splitter.quoted_behind_iff Splitter.separator_bare device).2 ⟨[name], single, rfl⟩

namespace Aliased

/-- **When a path under an alias is written as a path.**  A path that was read by default takes a
    display alias that is a single node, and is written with it.  The text splits into the nodes of
    the path with the alias in place of the last, iff the path has several nodes; that of a path with
    a single node starts with the separator, and is malformed. -/
theorem splits_iff_device (hp : p.ReadByDefault) (single : Splitter.standard name = .ok [name]) :
    ∃ aliased text, setAlias { path := p } .display name = .ok aliased ∧
      aliased.fullPathWithAlias = .ok text ∧
      (Splitter.standard text = .ok (p.nodes.device ++ [name]) ↔ p.nodes.length ≠ 1) ∧
      (p.nodes.length = 1 → text = separator :: name ∧
        Splitter.standard text = .error (.malformedPath text (.emptyNode 0))) := by
  have proper := hp.reachable.proper
  have some_node := List.length_pos_iff.2 proper.nonempty
  have alone : p.nodes.length = 1 → p.devicePrefix ++ separator :: name = separator :: name :=
    fun one => congrArg (· ++ separator :: name) (proper.join_device_eq_nil_iff.2 one)
  refine ⟨_, _, setAlias_of_none rfl, fullPathWithAlias_of_some rfl, ⟨?_, ?_⟩, ?_⟩
  · intro split one
    rw [path_withAlias, alone one, Splitter.standard,
      Splitter.quoted_front_separator Splitter.separator_bare] at split
    contradiction
  · intro several
    rw [path_withAlias]
    exact hp.split_renamed (by omega) single
  · intro one
    rw [path_withAlias, alone one]
    exact ⟨rfl, Splitter.quoted_front_separator Splitter.separator_bare⟩

/-- Both the device and the alias hold quoted separators. -/
theorem splits_of_quoted_alias : Page.quotedPath.ReadByDefault ∧
    Splitter.standard "\"t.u\"" = .ok ["\"t.u\""] ∧
    ∃ aliased text, setAlias { path := Page.quotedPath } .display "\"t.u\"" = .ok aliased ∧
      aliased.fullPathWithAlias = .ok text ∧
        Splitter.standard text = .ok ["r", "d\"1.2\"", "\"t.u\""] := by
  have single : Splitter.standard "\"t.u\"" = .ok ["\"t.u\""] := by cbv
  obtain ⟨aliased, text, made, written, split, -⟩ :=
    splits_iff_device Path.readByDefault_quotedPath single
  exact ⟨Path.readByDefault_quotedPath, single, aliased, text, made, written,
    split.2 (by decide)⟩

/-- A path with a single node, under an alias that is one too, is written as no path. -/
theorem malformed_of_single_node :
    (Path.parse "s").result = .ok { nodes := ["s"], written := some "s" } ∧
    Splitter.standard "t" = .ok ["t"] ∧
    ∃ aliased, setAlias { path := { nodes := ["s"], written := some "s" } } .display "t" =
        .ok aliased ∧ aliased.fullPathWithAlias = .ok ".t" ∧
      Splitter.standard ".t" = .error (.malformedPath ".t" (.emptyNode 0)) := by
  refine ⟨Path.read_standard_iff.2 ⟨by decide, by cbv, by decide, rfl⟩, by cbv, _, rfl, rfl, ?_⟩
  exact Splitter.quoted_front_separator Splitter.separator_bare

end Aliased

end SeriesCatalog
