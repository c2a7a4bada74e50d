/-
  Series catalog — paths of any kind.

  A series is named by a path, by a device with a measurement, or by a path
  under aliases.  The three kinds share their order, which is that of the
  written paths, and their equality and hash, which are those of the nodes;
  aliases count in neither.
-/
import SeriesCatalog.Aliased

namespace SeriesCatalog

/-- A path of any kind. -/
inductive AnyPath where
  | plain (path : Path)
  | series (series : Series)
  | aliased (aliased : Aliased)
deriving DecidableEq

namespace AnyPath

/-- The nodes of a path; splitting the device of a series may fail. -/
def nodes : AnyPath → Except CatalogError Nodes
  | plain p => .ok p.nodes
  | series s => s.nodes
  | aliased a => .ok a.path.nodes

/-- The written path. -/
def fullPath : AnyPath → Text
  | plain p => p.fullPath
  | series s => s.fullPath
  | aliased a => a.path.fullPath

/-- The name of the device; empty where there is none. -/
def devicePrefix : AnyPath → Text
  | plain p => p.devicePrefix
  | series s => s.device
  | aliased a => a.path.devicePrefix

/-- The name of the measurement. -/
def terminal : AnyPath → Text
  | plain p => p.terminal
  | series s => s.measurement
  | aliased a => a.path.terminal

/-! ## Order, equality and hash -/

/-- The order of the written paths. -/
def compare (a b : AnyPath) : Ordering := Ord.compare a.fullPath b.fullPath

/-- Whether two paths have the same nodes; an error where one of them cannot be split, the left
    one first. -/
def equals (a b : AnyPath) : Except CatalogError Bool := do
  let left ← a.nodes
  let right ← b.nodes
  return left = right

/-- The hash of the path that has the same nodes. -/
def hash (a : AnyPath) : Except CatalogError Int32 :=
  a.nodes.map fun nodes => Path.hash { nodes := nodes }

/-- Paths in ascending order; those that are written alike keep the order they came in.  They may
    all be of one kind, and `view` takes them to paths of any kind. -/
def sortBy {β : Type} (view : β → AnyPath) (paths : List β) : List β :=
  paths.mergeSort fun a b => ((view a).compare (view b)).isLE

/-- Paths of any kind in ascending order. -/
def sort (paths : List AnyPath) : List AnyPath := sortBy id paths

theorem sortBy_eq_sortOn {β : Type} (view : β → AnyPath) (paths : List β) :
    sortBy view paths = Text.sortOn (fun p => (view p).fullPath) paths :=
  rfl

end AnyPath

end SeriesCatalog
