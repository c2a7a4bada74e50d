/-
  Series catalog — paths under aliases.

  An `Aliased` path shows a path to readers under up to two other names for
  its measurement.  Each alias is set at most once, the empty text being an
  alias like any other, and the path itself never changes.
-/
import SeriesCatalog.Path.Basic

namespace SeriesCatalog

/-- A path with its aliases. -/
structure Aliased where
  path : Path
  displayAlias : Option Text := none
  queryAlias : Option Text := none
deriving DecidableEq

namespace Aliased

/-- The alias in a slot, if it was set. -/
def alias? (a : Aliased) : AliasSlot → Option Text
  | .display => a.displayAlias
  | .query => a.queryAlias

/-- The same path with the alias `name` in a slot, whatever it held. -/
def withAlias (a : Aliased) (slot : AliasSlot) (name : Text) : Aliased :=
  match slot with
  | .display => { a with displayAlias := name }
  | .query => { a with queryAlias := name }

/-- Sets an alias, unless its slot holds one. -/
def setAlias (a : Aliased) (slot : AliasSlot) (name : Text) : Except CatalogError Aliased :=
  match a.alias? slot with
  | some current => .error (.invalidState (.aliasTaken slot a.path.fullPath current))
  | none => .ok (a.withAlias slot name)

/-- The device of the path, with the display alias in place of the measurement. -/
def fullPathWithAlias (a : Aliased) : Except CatalogError Text :=
  match a.displayAlias with
  | some name => .ok (a.path.devicePrefix ++ separator :: name)
  | none => .error (.invalidState (.aliasMissing a.path.fullPath))

end Aliased

end SeriesCatalog
