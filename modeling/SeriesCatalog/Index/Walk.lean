/-
  Series catalog — looking up a path.

  A lookup walks down from the root: in the device tier towards the device of
  the path, below a device leaf towards its measurement.  It stops at a page
  of the wrong tier, and at the depth to which it is limited.

  * `walk` gives the outcome of a walk, which depends on the tree and the two
    keys alone;
  * `Walker.locate` turns an outcome into an answer: a misplaced page is an
    error to a strict walker, and only logged by a lenient one.
-/
import SeriesCatalog.AnyPath
import SeriesCatalog.Index.Page
import SeriesCatalog.Index.Search
import SeriesCatalog.Log

namespace SeriesCatalog

variable {α : Type}

/-! ## Walks -/

/-- How a walk ends. -/
inductive Outcome (α : Type) where
  | found (record : α)
  | absent
  /-- A page of the kind `kind` was met in the tier `tier`, `depth` pages below the root. -/
  | misplaced (tier : Tier) (depth : Nat) (kind : PageKind)
  /-- No page may be visited any more. -/
  | tooDeep
deriving DecidableEq

/-- Walks on from `page`, which stands `depth` pages below the root, and visits at most `budget`
    pages. -/
def walk (device measurement : Text) (tier : Tier) (depth : Nat) :
    (budget : Nat) → Page α → Outcome α
  | 0, _ => .tooDeep
  | budget + 1, page =>
    if page.kind.tier ≠ tier then .misplaced tier depth page.kind
    else
      match page with
      | .measurementLeaf entries =>
        match exactMatch? RecordEntry.name measurement entries with
        | some entry => .found entry.record
        | none => .absent
      | .deviceLeaf entries =>
        match exactMatch? ChildEntry.name device entries with
        | some entry => walk device measurement .measurement (depth + 1) budget entry.child
        | none => .absent
      | .internal _ entries =>
        let key := match tier with
          | .device => device
          | .measurement => measurement
        match floorMatch? ChildEntry.name key entries with
        | some entry => walk device measurement tier (depth + 1) budget entry.child
        | none => .absent

/-! ## Walkers -/

/-- What a walker does about a page of the wrong tier. -/
inductive IntegrityMode where
  /-- The lookup fails. -/
  | strict
  /-- The lookup finds nothing, and a warning is logged. -/
  | lenient
deriving DecidableEq

/-- How lookups are done. -/
structure WalkOptions where
  mode : IntegrityMode := .strict
  /-- The most pages that one lookup may visit. -/
  maxDepth : Number := .ofNat Setting.maxDepth.standard.toNat
  logger : Logger := {}

/-- A reader of indexes. -/
structure Walker where
  mode : IntegrityMode := .strict
  /-- The most pages that one lookup may visit. -/
  maxDepth : Setting.Value .maxDepth := Setting.maxDepth.standard
  logger : Logger := {}
deriving DecidableEq

namespace Walker

/-- The walker with given options. -/
def ofOptions (options : WalkOptions) : Except CatalogError Walker := do
  let maxDepth ← Setting.maxDepth.check options.maxDepth
  return { mode := options.mode, maxDepth, logger := options.logger }

/-- How the walk for a path ends.  A path without a device is never indexed. -/
def outcome (w : Walker) (root : Page α) (path : AnyPath) : Outcome α :=
  if path.devicePrefix.isEmpty then .absent
  else walk path.devicePrefix path.terminal .device 0 w.maxDepth.toNat root

/-- The answer of a walker to an outcome. -/
def answer (w : Walker) (path : AnyPath) : Outcome α → Logged (Option α)
  | .found record => { result := .ok (some record) }
  | .absent => { result := .ok none }
  | .misplaced tier depth kind =>
    let fault : IndexFault := .misplaced tier depth path.fullPath kind
    match w.mode with
    | .strict => { result := .error (.corruptIndex fault) }
    | .lenient =>
      { result := .ok none, log := w.logger.entry .warn ("[index] " ++ fault.message) }
  | .tooDeep => { result := .error (.limitExceeded (.depth path.fullPath w.maxDepth.toNat)) }

/-- Looks up the record of a path. -/
def locate (w : Walker) (root : Page α) (path : AnyPath) : Logged (Option α) :=
  w.answer path (w.outcome root path)

end Walker

end SeriesCatalog
