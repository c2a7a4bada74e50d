/-
  Series catalog — listing the paths of an index.

  Every measurement entry of a tree stands for the path of its device with the
  name of the entry behind it.  The device is that of the nearest device entry
  above: its stored nodes, or else its name, read as a raw path.

  * `Page.pathsBelow` lists the paths in tree order, up to the first entry
    that stands for none;
  * `Page.paths` gives them in ascending order.
-/
import SeriesCatalog.AnyPath
import SeriesCatalog.Index.Page
import SeriesCatalog.Path.Parse

namespace SeriesCatalog

variable {α : Type}

/-- The path of a device entry. -/
def ChildEntry.devicePath {Below : Type} (entry : ChildEntry Below) : Except CatalogError Path :=
  match entry.deviceNodes with
  | some nodes => Path.ofNodes nodes
  | none => Path.read entry.name {}

namespace Page

mutual

/-- The paths of a tree that stands below a device, or below none. -/
def pathsBelow (device : Option Path) : Page α → Except CatalogError (List Path)
  | internal _ entries => pathsOfChildren device entries
  | deviceLeaf entries => pathsOfDevices entries
  | measurementLeaf entries =>
    match device with
    | none => .error (.corruptIndex .noDevice)
    | some device => entries.mapM fun entry => device.push entry.name

/-- The paths below entries of an internal page. -/
def pathsOfChildren (device : Option Path) :
    List (ChildEntry (Page α)) → Except CatalogError (List Path)
  | [] => .ok []
  | ⟨_, child, _⟩ :: entries => do
    let first ← child.pathsBelow device
    let others ← pathsOfChildren device entries
    return first ++ others

/-- The paths below entries of a device leaf, each of which brings a device of its own. -/
def pathsOfDevices : List (ChildEntry (Page α)) → Except CatalogError (List Path)
  | [] => .ok []
  | ⟨name, child, deviceNodes⟩ :: entries => do
    let device ← ChildEntry.devicePath ⟨name, child, deviceNodes⟩
    let first ← child.pathsBelow (some device)
    let others ← pathsOfDevices entries
    return first ++ others

end

/-- All paths of an index, in ascending order. -/
def paths (root : Page α) : Except CatalogError (List Path) :=
  (root.pathsBelow none).map (AnyPath.sortBy .plain)

end Page

end SeriesCatalog
