/-
  Series catalog — shelves of aliased paths.

  An aliased path is shared by its readers: an alias that one of them sets is
  seen by all.  A `Shelf` keeps aliased paths in the order in which they were
  placed, and a reader holds the position of one.

  * `Shelf.place` puts a path on a shelf and gives its position;
  * `Shelf.setAlias` sets an alias at a position, and leaves the shelf as it
    was where the slot is taken.
-/
import SeriesCatalog.Aliased

namespace SeriesCatalog

/-- Aliased paths that are shared by position. -/
structure Shelf where
  places : List Aliased := []
deriving DecidableEq

namespace Shelf

/-- Puts a path without aliases on the shelf, and gives its position. -/
def place (s : Shelf) (path : Path) : Nat × Shelf :=
  (s.places.length, ⟨s.places ++ [{ path := path }]⟩)

/-- The aliased path at a position. -/
def at? (s : Shelf) (position : Nat) : Option Aliased := s.places[position]?

/-- Sets an alias of the path at a position.  On an empty position nothing happens. -/
def setAlias (position : Nat) (slot : AliasSlot) (name : Text) :
    EStateM CatalogError Shelf Unit := do
  let shelf ← get
  if let some aliased := shelf.at? position then
    match aliased.setAlias slot name with
    | .ok aliased => set (Shelf.mk (shelf.places.set position aliased))
    | .error error => throw error

end Shelf

end SeriesCatalog
