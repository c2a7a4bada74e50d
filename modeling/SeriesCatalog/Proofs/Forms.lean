/-
  Series catalog — lookups by the forms of a path.

  A lookup may be given a path, its series, its device and measurement, or the
  path under aliases.  It searches for the two keys alone, and the written path
  shows only in what it reports.

  * `Walker.locate_congr`, `Walker.kind_locate_congr`: what a lookup takes from its
    path;
  * `Path.Form`: the forms of a path, which all have its keys;
  * `Walker.locate_forms`: a lookup answers alike for all of them, on any tree.
-/
import SeriesCatalog.Proofs.Modes
import SeriesCatalog.Proofs.ReadSeries

namespace SeriesCatalog

variable {α : Type} {p : Path} {key : AnyPath}

/-! ## Kinds of errors -/

/-- The kinds of errors that a caller can tell apart without reading a message. -/
inductive ErrorKind where
  | general
  | malformedPath
  | invalidArgument
  | invalidEncoding
  | invalidState
  | incompleteData
  | limitExceeded
  | corruptIndex
deriving DecidableEq

/-- The kind of an error. -/
def CatalogError.kind : CatalogError → ErrorKind
  | general _ => .general
  | malformedPath _ _ => .malformedPath
  | invalidArgument _ => .invalidArgument
  | invalidEncoding _ => .invalidEncoding
  | invalidState _ => .invalidState
  | incompleteData _ => .incompleteData
  | limitExceeded _ => .limitExceeded
  | corruptIndex _ => .corruptIndex

/-! ## What a lookup takes from its path -/

namespace Walker

variable {w : Walker} {root : Page α} {a b : AnyPath}

theorem outcome_congr_keys (device : a.devicePrefix = b.devicePrefix)
    (terminal : a.terminal = b.terminal) : w.outcome root a = w.outcome root b := by
  rw [outcome, outcome, device, terminal]

theorem kind_answer (outcome : Outcome α) :
    (w.answer a outcome).result.mapError CatalogError.kind =
      (w.answer b outcome).result.mapError CatalogError.kind := by
  cases outcome with
  | found record => rfl
  | absent => rfl
  | tooDeep => rfl
  | misplaced tier depth kind =>
    rw [answer, answer]
    cases w.mode with
    | strict => rfl
    | lenient => rfl

/-- **Paths with the same keys are looked up alike**, up to the wording of errors. -/
theorem kind_locate_congr (device : a.devicePrefix = b.devicePrefix)
    (terminal : a.terminal = b.terminal) :
    (w.locate root a).result.mapError CatalogError.kind =
      (w.locate root b).result.mapError CatalogError.kind := by
  rw [locate, locate, outcome_congr_keys device terminal]
  exact kind_answer _

/-- **Paths with the same keys that are written alike** are looked up alike in every respect. -/
theorem locate_congr (device : a.devicePrefix = b.devicePrefix) (terminal : a.terminal = b.terminal)
    (fullPath : a.fullPath = b.fullPath) : w.locate root a = w.locate root b := by
  rw [locate, locate, outcome_congr_keys device terminal]
  cases w.outcome root b with
  | found record => rfl
  | absent => rfl
  | tooDeep => rw [answer, answer, fullPath]
  | misplaced tier depth kind => rw [answer, answer, fullPath]

end Walker

/-! ## Forms of a path -/

/-- The forms in which a path can be given to a lookup. -/
inductive Path.Form (p : Path) : AnyPath → Prop
  | plain : Form p (.plain p)
  | series {s : Series} : p.toSeries = .ok s → Form p (.series s)
  /-- The device is a mere text, which need not split. -/
  | pair {s : Series} : Series.ofPair p.devicePrefix p.terminal = .ok s → Form p (.series s)
  | aliased {x : Aliased} : x.path = p → Form p (.aliased x)

namespace Path.Form

theorem keys_eq (h : p.Form key) :
    key.devicePrefix = p.devicePrefix ∧ key.terminal = p.terminal := by
  cases h with
  | plain => exact ⟨rfl, rfl⟩
  | series made =>
    obtain ⟨-, rfl⟩ := toSeries_eq_ok_iff.1 made
    exact ⟨rfl, rfl⟩
  | pair made =>
    obtain ⟨-, rfl⟩ := Series.ofPair_eq_ok_iff.1 made
    exact ⟨rfl, rfl⟩
  | aliased same =>
    subst same
    exact ⟨rfl, rfl⟩

theorem fullPath_eq (h : p.Form key) (proper : p.nodes.Proper)
    (joined : p.fullPath = p.nodes.join) : key.fullPath = p.fullPath := by
  cases h with
  | plain => rfl
  | series made =>
    obtain ⟨-, rfl⟩ := toSeries_eq_ok_iff.1 made
    exact (proper.fullPath_series rfl rfl).trans joined.symm
  | pair made =>
    obtain ⟨-, rfl⟩ := Series.ofPair_eq_ok_iff.1 made
    exact (proper.fullPath_series rfl rfl).trans joined.symm
  | aliased same =>
    subst same
    rfl

end Path.Form

/-! ## Lookups -/

namespace Walker

/-- **A lookup answers alike for all forms of a path**, on any tree.  Every path that can be made
    has each of the forms.  All find the same record, or nothing, or fail with an error of one kind;
    where the path is written as its nodes join, messages and log are the same too.  The series that
    is read from the text of a path is looked up as the path that is read from it. -/
theorem locate_forms (h : p.Reachable) (w : Walker) (root : Page α) :
    ((∃ s, p.toSeries = .ok s) ∧ ∃ s, Series.ofPair p.devicePrefix p.terminal = .ok s) ∧
    (∀ key, p.Form key → (w.locate root key).result.mapError CatalogError.kind =
      (w.locate root (.plain p)).result.mapError CatalogError.kind) ∧
    (p.fullPath = p.nodes.join →
      ∀ key, p.Form key → w.locate root key = w.locate root (.plain p)) ∧
    ∀ raw options, options.splitter = Splitter.standard →
      (Path.parse raw options).result = .ok p →
        ∃ s, Series.ofFullPath raw = .ok s ∧
          w.locate root (.series s) = w.locate root (.plain p) := by
  have proper := h.proper
  have named := proper.terminal_ne_nil
  refine ⟨⟨?_, ?_⟩, ?_, ?_, ?_⟩
  · exact ⟨_, Path.toSeries_eq_ok_iff.2 ⟨named, rfl⟩⟩
  · exact ⟨_, Series.ofPair_eq_ok_iff.2 ⟨named, rfl⟩⟩
  · intro key form
    obtain ⟨device, terminal⟩ := form.keys_eq
    exact kind_locate_congr device terminal
  · intro joined key form
    obtain ⟨device, terminal⟩ := form.keys_eq
    exact locate_congr device terminal (form.fullPath_eq proper joined)
  · intro raw options standard parsed
    obtain ⟨hnodes, hwritten⟩ := Path.of_read parsed
    rw [standard, Path.splitNodes_standard] at hnodes
    refine ⟨Series.ofSplit p.nodes, ?_, locate_congr rfl rfl ?_⟩
    · rw [Series.ofFullPath_eq_map, hnodes]
      rfl
    · show (Series.ofSplit p.nodes).fullPath = p.fullPath
      rw [Series.fullPath_ofSplit hnodes, Path.fullPath, hwritten]
      rfl

/-- Two devices, and one of them is named by a quote that is not closed. -/
def unclosedDevice : Page Nat :=
  .deviceLeaf [
    { name := "d", child := .measurementLeaf [{ name := "s", record := 1 }] },
    { name := "d'", child := .measurementLeaf [{ name := "s", record := 2 }] }]

/-- A device that does not split is found by its name and under an alias; one that does is found by
    its written path. -/
theorem locate_unclosed_device :
    (∃ s, Series.ofPair "d'" "s" = .ok s ∧
      locate {} unclosedDevice (.series s) = { result := .ok (some 2) }) ∧
    locate {} unclosedDevice
        (.aliased { path := { nodes := ["d'", "s"] }, displayAlias := some "t" }) =
      { result := .ok (some 2) } ∧
    ∃ s, Series.ofFullPath "d.s" = .ok s ∧
      locate {} unclosedDevice (.series s) = { result := .ok (some 1) } := by
  have found : locate {} unclosedDevice (.plain { nodes := ["d'", "s"] }) =
      { result := .ok (some 2) } := by cbv
  have found' : locate {} unclosedDevice (.plain { nodes := ["d", "s"], written := some "d.s" }) =
      { result := .ok (some 1) } := by cbv
  have reachable : Path.Reachable { nodes := ["d'", "s"] } := .of_proper ⟨by decide, by decide⟩
  obtain ⟨⟨-, s, made⟩, -, alike, -⟩ := locate_forms reachable {} unclosedDevice
  have hread : (Path.parse "d.s").result = .ok { nodes := ["d", "s"], written := some "d.s" } :=
    Path.read_standard_iff.2 ⟨by decide, by cbv, by decide, rfl⟩
  obtain ⟨-, -, -, reading⟩ := locate_forms (.read hread) {} unclosedDevice
  obtain ⟨s', made', alike'⟩ := reading "d.s" {} rfl hread
  refine ⟨⟨s, made, ?_⟩, ?_, s', made', alike'.trans found'⟩
  · exact (alike rfl _ (.pair made)).trans found
  · exact (alike rfl _ (.aliased rfl)).trans found

end Walker

end SeriesCatalog
