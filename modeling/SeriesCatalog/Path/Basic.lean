/-
  Series catalog — paths.

  A `Path` is a list of nodes, and the text it was read from if it was read
  from one.  Order and display use that text; equality and hash use the nodes
  alone, so that paths with equal nodes are one path however they were
  written.

  * `Path.ofNodes`, `Path.append`, `Path.push` and `Path.devicePath` make
    paths from nodes and from other paths;
  * `Path.devicePrefix` and `Path.terminal` are the two keys under which the
    index files a path.
-/
import SeriesCatalog.Series

namespace SeriesCatalog

/-- A prefix, a suffix or the whole of a series path. -/
structure Path where
  nodes : Nodes
  /-- The text that the path was read from. -/
  written : Option Text := none
deriving DecidableEq

namespace Path

/-! ## Making paths -/

/-- The path of given nodes.  There must be one, and none may be empty; whether they need quotes
    is not looked at. -/
def ofNodes (nodes : Nodes) : Except CatalogError Path := do
  if nodes.isEmpty then throw (.invalidArgument .pathWithoutNodes)
  if let some index := nodes.firstEmpty? then throw (.invalidArgument (.emptyNode index))
  return { nodes := nodes }

/-- The nodes of `p`, followed by those of `q`. -/
def append (p q : Path) : Path := { nodes := p.nodes ++ q.nodes }

instance : Append Path := ⟨append⟩

/-- The nodes of `p`, followed by one more node. -/
def push (p : Path) (node : Text) : Except CatalogError Path :=
  if node.isEmpty then .error (.invalidArgument .emptyLastNode)
  else .ok { nodes := p.nodes ++ [node] }

/-! ## Parts of a path -/

/-- The written path: the text it was read from, or else its nodes joined. -/
def fullPath (p : Path) : Text :=
  p.written.getD p.nodes.join

/-- All nodes but the last, joined; empty for a single node. -/
def devicePrefix (p : Path) : Text := p.nodes.device.join

/-- The last node. -/
def terminal (p : Path) : Text := p.nodes.terminal

/-- The first node. -/
def firstNode (p : Path) : Text := p.nodes.headD []

/-- The path of all nodes but the last. -/
def devicePath (p : Path) : Except CatalogError Path :=
  if p.nodes.length ≤ 1 then .error (.invalidArgument (.noDevice p.fullPath))
  else .ok { nodes := p.nodes.device }

/-- The series that a path names. -/
def toSeries (p : Path) : Except CatalogError Series := Series.ofNodes p.nodes

/-! ## Prefixes and hash -/

/-- Whether the nodes of `p` start with the nodes `front`. -/
def startsWith (p : Path) (front : Nodes) : Bool := front.isPrefixOf p.nodes

/-- The hash of a path, which depends on its nodes alone. -/
def hash (p : Path) : Int32 := p.nodes.join.hash

end Path

end SeriesCatalog
