/-
  Series catalog — numeric settings.

  Four settings bound the work of the catalog.  Each is given as a number of
  any kind; `Setting.value?` accepts those that are whole and large enough.
-/
import SeriesCatalog.Number.Basic
import SeriesCatalog.Text.Basic

namespace SeriesCatalog

/-- What can be bounded. -/
inductive Setting where
  /-- The number of units of a raw path. -/
  | maxPathLength
  /-- The number of nodes of a path. -/
  | maxNodeCount
  /-- The number of entries of an index page. -/
  | maxDegree
  /-- The number of pages that one lookup may visit. -/
  | maxDepth
deriving DecidableEq

namespace Setting

/-- The name of a setting, as messages give it. -/
def name : Setting → Text
  | maxPathLength => "maxPathLength"
  | maxNodeCount => "maxNodeCount"
  | maxDegree => "maxDegree"
  | maxDepth => "maxDepth"

/-- The least value that makes sense: an index page needs two entries to spread, everything else
    at least one. -/
def least : Setting → Nat
  | maxDegree => 2
  | maxPathLength | maxNodeCount | maxDepth => 1

/-- A value that a setting may have. -/
structure Value (setting : Setting) where
  toNat : Nat
  least_le : setting.least ≤ toNat
deriving DecidableEq

/-- The value of a setting that is not given. -/
def standard (setting : Setting) : Value setting where
  toNat := match setting with
    | maxPathLength => 64 * 1024
    | maxNodeCount => 1024
    | maxDegree => 256
    | maxDepth => 64
  least_le := by cases setting <;> decide

/-- The value meant by `x`, if it is whole and large enough. -/
def value? (setting : Setting) (x : Number) : Option (Value setting) :=
  match x.toNat? with
  | some n => if least_le : setting.least ≤ n then some ⟨n, least_le⟩ else none
  | none => none

end Setting

end SeriesCatalog
