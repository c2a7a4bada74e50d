/-
  Series catalog — kinds of index pages.

  An index has two tiers: the device tier leads from device names to the
  measurement tier of one device, and that one leads from measurement names to
  records.  In either tier internal pages stand above leaf pages.

  * `PageKind.toByte` and `PageKind.ofByte?` give the one-byte code of a kind.
-/
import SeriesCatalog.Number.Basic
import SeriesCatalog.Text.Basic

namespace SeriesCatalog

/-- A tier of the index. -/
inductive Tier where
  | device
  | measurement
deriving DecidableEq

/-- The name of a tier. -/
def Tier.name : Tier → Text
  | .device => "device"
  | .measurement => "measurement"

/-- The kind of an index page: its tier, and whether it is a leaf of that tier. -/
inductive PageKind where
  | internal (tier : Tier)
  | leaf (tier : Tier)
deriving DecidableEq

namespace PageKind

/-- The tier that a page belongs to. -/
def tier : PageKind → Tier
  | internal tier | leaf tier => tier

/-- Whether a page is a leaf of its tier. -/
def isLeaf : PageKind → Bool
  | internal _ => false
  | leaf _ => true

/-- Whether a page stands above other pages of its tier. -/
def isInternal (kind : PageKind) : Bool := !kind.isLeaf

/-- The name of a kind, as messages give it. -/
def name : PageKind → Text
  | internal .device => "INTERNAL_DEVICE"
  | leaf .device => "LEAF_DEVICE"
  | internal .measurement => "INTERNAL_MEASUREMENT"
  | leaf .measurement => "LEAF_MEASUREMENT"

/-- The code of a kind. -/
def toByte : PageKind → UInt8
  | internal .device => 0
  | leaf .device => 1
  | internal .measurement => 2
  | leaf .measurement => 3

/-- The kind with a given code. -/
def ofByte? (byte : Number) : Option PageKind :=
  match byte.toInt? with
  | some 0 => some (internal .device)
  | some 1 => some (leaf .device)
  | some 2 => some (internal .measurement)
  | some 3 => some (leaf .measurement)
  | _ => none

end PageKind

end SeriesCatalog
