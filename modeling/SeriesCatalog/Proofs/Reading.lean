/-
  Series catalog — reading a raw path, as a whole.

  A reading checks its limits, the length of the text, what the splitter makes
  of it, and the number of nodes, in this order, and the first check that fails
  gives the error.  `Path.Refused` has one rule for each check, with what the
  checks before it found.

  * `Path.splitNodes_eq_error_iff`: what is wrong with a list of nodes;
  * `Path.read_eq_error_iff`: a reading fails iff one of the rules applies, and
    with the error of that rule;
  * `Path.parse_all_or_nothing`: what is read, what is refused, and what is
    logged.
-/
import Mathlib.Order.Bounds.Defs
import SeriesCatalog.Proofs.Reachable
import SeriesCatalog.Proofs.Settings

namespace SeriesCatalog

variable {x : Number} {raw : Text} {nodes : Nodes} {splitter : Splitter} {options : ParseOptions}
  {error : CatalogError} {m n : Nat} {p : Path}

/-- Whether an error says that a raw path is no list of nodes. -/
def CatalogError.isMalformed : CatalogError → Bool
  | malformedPath _ _ => true
  | _ => false

/-! ## Limits -/

/-- The number `x` is the count `n`, and a limit that lets something through. -/
def Number.IsLimit (x : Number) (n : Nat) : Prop :=
  x = .ofNat n ∧ 1 ≤ n

namespace Setting

theorem isLimit_of_check {setting : Setting} {value : setting.Value} (least : setting.least = 1)
    (h : setting.check x = .ok value) : x.IsLimit value.toNat :=
  ⟨check_eq_ok_iff.1 h, least ▸ value.least_le⟩

theorem check_of_isLimit (setting : Setting) (least : setting.least = 1) (h : x.IsLimit n) :
    ∃ value : setting.Value, setting.check x = .ok value ∧ value.toNat = n :=
  ⟨⟨n, least ▸ h.2⟩, check_eq_ok_iff.2 h.1, rfl⟩

theorem check_of_not_isLimit {setting : Setting} (least : setting.least = 1)
    (h : ∀ n, ¬ x.IsLimit n) :
    setting.check x = .error (.invalidArgument (.setting setting x)) := by
  cases checked : setting.check x with
  | ok value => exact absurd (isLimit_of_check least checked) (h value.toNat)
  | error error => rw [check_eq_error checked]

end Setting

/-! ## Nodes that are refused -/

theorem Nodes.firstEmpty?_eq_some_iff {k : Nat} :
    nodes.firstEmpty? = some k ↔ IsLeast {k | nodes[k]? = some []} k := by
  rw [firstEmpty?, List.findIdx?_eq_some_iff_getElem]
  constructor
  · rintro ⟨hk, empty, before⟩
    refine ⟨List.getElem?_eq_some_iff.2 ⟨hk, List.isEmpty_iff.1 empty⟩, fun j hj => ?_⟩
    by_contra early
    obtain ⟨_, hempty⟩ := List.getElem?_eq_some_iff.1 hj
    exact before j (Nat.not_le.1 early) (List.isEmpty_iff.2 hempty)
  · rintro ⟨here, least⟩
    obtain ⟨hk, empty⟩ := List.getElem?_eq_some_iff.1 here
    refine ⟨hk, List.isEmpty_iff.2 empty, fun j early hj => ?_⟩
    have : k ≤ j := least (List.getElem?_eq_some_iff.2 ⟨early.trans hk, List.isEmpty_iff.1 hj⟩)
    omega

namespace Path

theorem checked_eq_error_iff {β : Type} {missing : CatalogError} {hollow : Nat → CatalogError}
    {y : β} :
    (do
      if nodes.isEmpty then throw missing
      if let some index := nodes.firstEmpty? then throw (hollow index)
      return y : Except CatalogError β) = .error error ↔
        nodes = [] ∧ error = missing ∨ ∃ k, nodes.firstEmpty? = some k ∧ error = hollow k := by
  by_cases bare : nodes = []
  · subst bare
    show Except.error missing = Except.error error ↔ _
    simp [Nodes.firstEmpty?, eq_comm]
  · rw [if_neg (by simpa using bare)]
    cases hempty : nodes.firstEmpty? with
    | none =>
      show Except.ok y = Except.error error ↔ _
      simp [bare]
    | some index =>
      show Except.error (hollow index) = Except.error error ↔ _
      simp [bare, eq_comm]

theorem ofNodes_eq_error_iff :
    ofNodes nodes = .error error ↔
      nodes = [] ∧ error = .invalidArgument .pathWithoutNodes ∨
      ∃ k, IsLeast {k | nodes[k]? = some []} k ∧ error = .invalidArgument (.emptyNode k) := by
  simp only [← Nodes.firstEmpty?_eq_some_iff]
  exact checked_eq_error_iff

theorem splitNodes_eq_error_iff :
    splitNodes splitter raw = .error error ↔
      splitter raw = .error error ∨
      splitter raw = .ok [] ∧ error = .malformedPath raw .noNodes ∨
      ∃ nodes k, splitter raw = .ok nodes ∧ IsLeast {k | nodes[k]? = some []} k ∧
        error = .malformedPath raw (.emptyAt k) := by
  unfold splitNodes
  rw [Except.bind_eq_error_iff]
  refine or_congr_right ?_
  constructor
  · rintro ⟨nodes, split, h⟩
    rcases checked_eq_error_iff.1 h with ⟨rfl, rfl⟩ | ⟨k, empty, rfl⟩
    · exact Or.inl ⟨split, rfl⟩
    · exact Or.inr ⟨nodes, k, split, Nodes.firstEmpty?_eq_some_iff.1 empty, rfl⟩
  · rintro (⟨split, rfl⟩ | ⟨nodes, k, split, empty, rfl⟩)
    · exact ⟨[], split, rfl⟩
    · exact ⟨nodes, split,
        checked_eq_error_iff.2 (Or.inr ⟨k, Nodes.firstEmpty?_eq_some_iff.2 empty, rfl⟩)⟩

/-! ## Readings that are refused -/

/-- The checks that come before a text is split. -/
structure Cleared (raw : Text) (options : ParseOptions) (m n : Nat) : Prop where
  maxLength : options.maxPathLength.IsLimit m
  maxNodes : options.maxNodeCount.IsLimit n
  short : raw.length ≤ m

/-- How a reading fails: one rule for each check, in the order in which they are made. -/
inductive Refused (raw : Text) (options : ParseOptions) : CatalogError → Prop
  | maxPathLength : (∀ m, ¬ options.maxPathLength.IsLimit m) →
      Refused raw options (.invalidArgument (.setting .maxPathLength options.maxPathLength))
  | maxNodeCount {m : Nat} : options.maxPathLength.IsLimit m →
      (∀ n, ¬ options.maxNodeCount.IsLimit n) →
      Refused raw options (.invalidArgument (.setting .maxNodeCount options.maxNodeCount))
  | length {m n : Nat} : options.maxPathLength.IsLimit m → options.maxNodeCount.IsLimit n →
      m < raw.length → Refused raw options (.limitExceeded (.pathLength raw.length m))
  | splitter {m n : Nat} {error : CatalogError} : Cleared raw options m n →
      options.splitter raw = .error error → Refused raw options error
  | noNodes {m n : Nat} : Cleared raw options m n → options.splitter raw = .ok [] →
      Refused raw options (.malformedPath raw .noNodes)
  | emptyNode {m n k : Nat} {nodes : Nodes} : Cleared raw options m n →
      options.splitter raw = .ok nodes → IsLeast {k | nodes[k]? = some []} k →
      Refused raw options (.malformedPath raw (.emptyAt k))
  | nodeCount {m n : Nat} {nodes : Nodes} : Cleared raw options m n →
      options.splitter raw = .ok nodes → nodes.Proper → n < nodes.length →
      Refused raw options (.limitExceeded (.nodeCount nodes.length n))

/-- **When a raw path is read**, in terms of the numbers that were given as limits. -/
theorem read_eq_ok_iff_cleared :
    read raw options = .ok p ↔ ∃ m n, Cleared raw options m n ∧
      options.splitter raw = .ok p.nodes ∧ p.nodes.Proper ∧ p.nodes.length ≤ n ∧
        p.written = some raw := by
  rw [read_eq_ok_iff]
  constructor
  · rintro ⟨maxLength, maxNodes, hlength, hcount, short, hnodes, few, hwritten⟩
    obtain ⟨split, proper⟩ := splitNodes_eq_ok_iff.1 hnodes
    have cleared : Cleared raw options maxLength.toNat maxNodes.toNat :=
      ⟨Setting.isLimit_of_check rfl hlength, Setting.isLimit_of_check rfl hcount, short⟩
    exact ⟨_, _, cleared, split, proper, few, hwritten⟩
  · rintro ⟨m, n, ⟨hlength, hcount, short⟩, split, proper, few, hwritten⟩
    obtain ⟨maxLength, checkedLength, rfl⟩ := Setting.check_of_isLimit .maxPathLength rfl hlength
    obtain ⟨maxNodes, checkedCount, rfl⟩ := Setting.check_of_isLimit .maxNodeCount rfl hcount
    exact ⟨maxLength, maxNodes, checkedLength, checkedCount, short,
      splitNodes_eq_ok_iff.2 ⟨split, proper⟩, few, hwritten⟩

theorem read_of_limits (hlength : options.maxPathLength.IsLimit m)
    (hcount : options.maxNodeCount.IsLimit n) :
    read raw options = (do
      if m < raw.length then throw (.limitExceeded (.pathLength raw.length m))
      let nodes ← splitNodes options.splitter raw
      if n < nodes.length then throw (.limitExceeded (.nodeCount nodes.length n))
      return { nodes, written := raw }) := by
  obtain ⟨_, checkedLength, rfl⟩ := Setting.check_of_isLimit .maxPathLength rfl hlength
  obtain ⟨_, checkedCount, rfl⟩ := Setting.check_of_isLimit .maxNodeCount rfl hcount
  rw [read, checkedLength, checkedCount]
  rfl

theorem Cleared.read (h : Cleared raw options m n) :
    Path.read raw options = (do
      let nodes ← splitNodes options.splitter raw
      if n < nodes.length then throw (.limitExceeded (.nodeCount nodes.length n))
      return { nodes, written := raw }) := by
  rw [read_of_limits h.maxLength h.maxNodes, if_neg (Nat.not_lt.2 h.short)]

theorem Cleared.read_of_error (h : Cleared raw options m n)
    (split : splitNodes options.splitter raw = .error error) :
    Path.read raw options = .error error := by
  rw [h.read, split]
  rfl

theorem Refused.read (h : Refused raw options error) : Path.read raw options = .error error := by
  cases h with
  | maxPathLength bad =>
    rw [Path.read, Setting.check_of_not_isLimit rfl bad]
    rfl
  | maxNodeCount good bad =>
    obtain ⟨_, checked, -⟩ := Setting.check_of_isLimit .maxPathLength rfl good
    rw [Path.read, checked, Setting.check_of_not_isLimit rfl bad]
    rfl
  | length hlength hcount long =>
    rw [read_of_limits hlength hcount, if_pos long]
    rfl
  | splitter cleared split =>
    exact cleared.read_of_error (splitNodes_eq_error_iff.2 (Or.inl split))
  | noNodes cleared split =>
    exact cleared.read_of_error (splitNodes_eq_error_iff.2 (Or.inr (Or.inl ⟨split, rfl⟩)))
  | emptyNode cleared split empty =>
    exact cleared.read_of_error
      (splitNodes_eq_error_iff.2 (Or.inr (Or.inr ⟨_, _, split, empty, rfl⟩)))
  | nodeCount cleared split proper many =>
    rw [cleared.read, splitNodes_eq_ok_iff.2 ⟨split, proper⟩]
    show (if _ then _ else _) = _
    rw [if_pos many]
    rfl

/-- A reading that fails has a rule that says so: the first whose check fails. -/
theorem refused_of_read (h : read raw options = .error error) : Refused raw options error := by
  by_cases badLength : ∀ m, ¬ options.maxPathLength.IsLimit m
  · have refused : Refused raw options _ := .maxPathLength badLength
    rw [refused.read] at h
    cases h
    exact refused
  obtain ⟨m, hlength⟩ := not_forall_not.1 badLength
  by_cases badCount : ∀ n, ¬ options.maxNodeCount.IsLimit n
  · have refused : Refused raw options _ := .maxNodeCount hlength badCount
    rw [refused.read] at h
    cases h
    exact refused
  obtain ⟨n, hcount⟩ := not_forall_not.1 badCount
  by_cases long : m < raw.length
  · have refused : Refused raw options _ := .length hlength hcount long
    rw [refused.read] at h
    cases h
    exact refused
  have cleared : Cleared raw options m n := ⟨hlength, hcount, Nat.not_lt.1 long⟩
  rw [cleared.read, Except.bind_eq_error_iff] at h
  rcases h with h | ⟨nodes, split, h⟩
  · rcases splitNodes_eq_error_iff.1 h with split | ⟨split, rfl⟩ | ⟨_, _, split, empty, rfl⟩
    · exact .splitter cleared split
    · exact .noNodes cleared split
    · exact .emptyNode cleared split empty
  · obtain ⟨split, proper⟩ := splitNodes_eq_ok_iff.1 split
    split at h
    · next many =>
      cases h
      exact .nodeCount cleared split proper many
    · contradiction

/-- **When a raw path is refused**, and why. -/
theorem read_eq_error_iff : read raw options = .error error ↔ Refused raw options error :=
  ⟨refused_of_read, Refused.read⟩

/-! ## What is logged -/

theorem readLog_error (logger : Logger) :
    readLog raw logger (.error error) =
      if error.isMalformed ∧ logger.warn then
        [⟨.warn, "[path] rejected " ++ Text.quoted raw ++ ": " ++ error.message⟩]
      else [] := by
  cases error with
  | malformedPath faulty cause =>
    simp [readLog, CatalogError.isMalformed, Logger.entry, Logger.hears]
  | _ => rfl

/-- **A raw path is read whole or not at all.**  It is read iff both limits are valid, its length
    and the number of its nodes keep them, and the splitter gives proper nodes; the path then has
    these nodes and is written as the raw path, and nothing is logged.  Otherwise the first check
    that fails gives the error, and one warning is logged if the path is malformed. -/
theorem parse_all_or_nothing (raw : Text) (options : ParseOptions) :
    (∀ p, (parse raw options).result = .ok p ↔ ∃ m n, Cleared raw options m n ∧
      options.splitter raw = .ok p.nodes ∧ p.nodes.Proper ∧ p.nodes.length ≤ n ∧
        p.written = some raw) ∧
    (∀ p, (parse raw options).result = .ok p → p.fullPath = raw ∧ (parse raw options).log = []) ∧
    (∀ error, (parse raw options).result = .error error ↔ Refused raw options error) ∧
    ∀ error, (parse raw options).result = .error error →
      (parse raw options).log =
        if error.isMalformed ∧ options.logger.warn then
          [⟨.warn, "[path] rejected " ++ Text.quoted raw ++ ": " ++ error.message⟩]
        else [] := by
  refine ⟨fun p => read_eq_ok_iff_cleared, fun p h => ⟨?_, ?_⟩, fun error => read_eq_error_iff,
    fun error h => ?_⟩
  · rw [fullPath, (of_read h).2]
    rfl
  · show readLog raw options.logger (read raw options) = []
    rw [show read raw options = .ok p from h]
    rfl
  · show readLog raw options.logger (read raw options) = _
    rw [show read raw options = .error error from h, readLog_error]

/-- A path with an empty node and too many nodes is malformed first. -/
example : parse "a..b" { maxNodeCount := 1, logger := { warn := true } } =
    { result := .error (.malformedPath "a..b" (.emptyNode 2)),
      log := [⟨.warn,
        "[path] rejected \"a..b\": Illegal path \"a..b\": empty node at position 2"⟩] } := by
  cbv

end Path

end SeriesCatalog
