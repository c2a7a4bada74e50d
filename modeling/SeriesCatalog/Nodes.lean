/-
  Series catalog — lists of nodes.

  A path is a list of nodes, outermost first.  The last node names the
  measurement, the nodes before it name the device.

  * `Nodes.join` writes nodes in one text, with the separator between them;
  * `Nodes.slice` cuts out a run of nodes, with positions that may count from
    the end.
-/
import SeriesCatalog.Text.Basic

namespace SeriesCatalog

/-- The unit between two nodes of a written path: a full stop. -/
def separator : UInt16 := 0x2E

/-- The nodes of a path, outermost first. -/
abbrev Nodes := List Text

namespace Nodes

/-- The nodes in one text, with the separator between neighbours. -/
def join : Nodes → Text
  | [] => []
  | [node] => node
  | node :: next :: rest => node ++ separator :: join (next :: rest)

/-- The position meant by `i` in a list of `length` nodes: a negative position counts from the
    end, and none lies outside the list. -/
def position (length : Nat) (i : Int) : Nat :=
  if i < 0 then (length + i).toNat else min i.toNat length

/-- The nodes from `start` up to, and without, `stop`; up to the end if there is no `stop`. -/
def slice (nodes : Nodes) (start : Int := 0) (stop : Option Int := none) : Nodes :=
  let last := stop.elim nodes.length (position nodes.length)
  (nodes.take last).drop (position nodes.length start)

/-- The nodes of the device: all but the last. -/
def device (nodes : Nodes) : Nodes :=
  nodes.dropLast

/-- The last node, which names the measurement. -/
def terminal (nodes : Nodes) : Text :=
  nodes.getLastD []

/-- The index of the first node without any unit. -/
def firstEmpty? (nodes : Nodes) : Option Nat :=
  nodes.findIdx? List.isEmpty

end Nodes

end SeriesCatalog
