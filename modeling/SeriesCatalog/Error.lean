/-
  Series catalog — errors.

  A `CatalogError` is a cause of one of seven kinds, or a plain message.  The
  constructors say what went wrong, and all wording is in the functions
  `message`; each kind of cause also admits a text from outside, since
  splitters supplied by a caller report faults of their own.
-/
import SeriesCatalog.Nodes
import SeriesCatalog.Number.Decimal
import SeriesCatalog.PageKind.Basic
import SeriesCatalog.Setting

namespace SeriesCatalog

/-! ## Causes -/

/-- Why a raw path is not a list of nodes.  Positions count units from the start of the path. -/
inductive Malformation where
  | emptyPath
  /-- The quote at `position` is never closed. -/
  | unclosed (quote : UInt16) (position : Nat)
  /-- Something other than the separator follows a closing quote. -/
  | afterQuote (position : Nat)
  /-- The node that starts at `position` is empty. -/
  | emptyNode (position : Nat)
  /-- The node that starts at `position` is a quote and its closing, with nothing between. -/
  | emptyQuoted (position : Nat)
  | noNodes
  /-- The splitter found an empty node, with `index` nodes before it. -/
  | emptyAt (index : Nat)
  | other (text : Text)
deriving DecidableEq

/-- The two names that a caller may give to the measurement of a path. -/
inductive AliasSlot where
  /-- The name shown in place of the measurement. -/
  | display
  /-- The name that a query gives. -/
  | query
deriving DecidableEq

/-- Why an argument is refused. -/
inductive ArgumentFault where
  /-- A setting is not whole, or too small. -/
  | setting (setting : Setting) (got : Number)
  | pathWithoutNodes
  | seriesWithoutNodes
  /-- The node at `index` is empty. -/
  | emptyNode (index : Nat)
  /-- An empty node was to be put behind a path. -/
  | emptyLastNode
  /-- A series was to have the empty measurement. -/
  | emptyMeasurement
  /-- A path of a single node has no device. -/
  | noDevice (path : Text)
  /-- A path of a single node cannot be indexed. -/
  | notIndexable (path : Text)
  /-- The device and the measurement of a path were indexed before. -/
  | duplicate (path : Text)
  | noRecords
  | other (text : Text)
deriving DecidableEq

/-- Why something is refused at this moment. -/
inductive StateFault where
  | aliasTaken (slot : AliasSlot) (path current : Text)
  | aliasMissing (path : Text)
  | other (text : Text)
deriving DecidableEq

/-- Why a buffer is too short. -/
inductive DataFault where
  /-- There is no byte to read at `offset`. -/
  | truncated (offset : Number) (length : Nat)
  /-- There is no byte to write at `offset`. -/
  | noRoom (offset : Number) (length : Nat)
  | other (text : Text)
deriving DecidableEq

/-- Which limit is exceeded. -/
inductive LimitFault where
  | pathLength (length limit : Nat)
  | nodeCount (count limit : Nat)
  | depth (path : Text) (limit : Nat)
  | other (text : Text)
deriving DecidableEq

/-- What is wrong with an index. -/
inductive IndexFault where
  /-- The page at `depth` is of another tier than the one that is searched. -/
  | misplaced (tier : Tier) (depth : Nat) (path : Text) (found : PageKind)
  /-- Measurements stand outside every device. -/
  | noDevice
  | other (text : Text)
deriving DecidableEq

/-! ## Errors -/

/-- Everything that can go wrong. -/
inductive CatalogError where
  | general (text : Text)
  | malformedPath (raw : Text) (cause : Malformation)
  | invalidArgument (cause : ArgumentFault)
  /-- A byte that is the code of no page kind; `none` where there is no byte at all. -/
  | invalidEncoding (byte : Option Number)
  | invalidState (cause : StateFault)
  | incompleteData (cause : DataFault)
  | limitExceeded (cause : LimitFault)
  | corruptIndex (cause : IndexFault)
deriving DecidableEq

/-- An error of a caller, with whatever brought it about. -/
structure Reported (Origin : Type) where
  text : Text
  origin : Option Origin := none

def Reported.error {Origin : Type} (report : Reported Origin) : CatalogError :=
  .general report.text

/-- A numeric setting is read or refused. -/
def Setting.check (setting : Setting) (x : Number) : Except CatalogError setting.Value :=
  match setting.value? x with
  | some value => .ok value
  | none => .error (.invalidArgument (.setting setting x))

/-! ## Wording -/

def Malformation.message : Malformation → Text
  | emptyPath => "path is empty"
  | unclosed quote position => "unclosed " ++ [quote] ++ " at position " ++ Text.ofNat position
  | afterQuote position =>
    "unexpected character after quoted node at position " ++ Text.ofNat position
  | emptyNode position => "empty node at position " ++ Text.ofNat position
  | emptyQuoted position => "empty quoted node at position " ++ Text.ofNat position
  | noNodes => "no nodes"
  | emptyAt index => "node " ++ Text.ofNat index ++ " is empty"
  | other text => text

def AliasSlot.title : AliasSlot → Text
  | display => "Display alias"
  | query => "Query alias"

def ArgumentFault.message : ArgumentFault → Text
  | setting s got =>
    s.name ++ " must be an integer >= " ++ Text.ofNat s.least ++ ", got " ++ got.text
  | pathWithoutNodes => "PartialPath requires at least one node"
  | seriesWithoutNodes => "SeriesPath requires at least one node"
  | emptyNode index => "Node " ++ Text.ofNat index ++ " is empty"
  | emptyLastNode => "Cannot append an empty node"
  | emptyMeasurement => "SeriesPath measurement must not be empty"
  | noDevice path => "Path \"" ++ path ++ "\" has no device"
  | notIndexable path => "Path \"" ++ path ++ "\" has no device and cannot be indexed"
  | duplicate path => "Duplicate path \"" ++ path ++ "\""
  | noRecords => "Cannot build an index without records"
  | other text => text

def StateFault.message : StateFault → Text
  | aliasTaken slot path current =>
    slot.title ++ " of \"" ++ path ++ "\" is already set to \"" ++ current ++ "\""
  | aliasMissing path => AliasSlot.display.title ++ " of \"" ++ path ++ "\" is not set"
  | other text => text

def DataFault.message : DataFault → Text
  | truncated offset length =>
    "Truncated index node type at offset " ++ offset.text ++ " (length " ++ Text.ofNat length ++ ")"
  | noRoom offset length =>
    "No room for index node type at offset " ++ offset.text ++ " (length " ++ Text.ofNat length
      ++ ")"
  | other text => text

def LimitFault.message : LimitFault → Text
  | pathLength length limit =>
    "Path length " ++ Text.ofNat length ++ " exceeds limit " ++ Text.ofNat limit
  | nodeCount count limit =>
    "Path has " ++ Text.ofNat count ++ " nodes, limit is " ++ Text.ofNat limit
  | depth path limit =>
    "Index walk for \"" ++ path ++ "\" exceeded depth " ++ Text.ofNat limit
  | other text => text

def IndexFault.message : IndexFault → Text
  | misplaced tier depth path found =>
    "Expected a " ++ tier.name ++ "-tier page at depth " ++ Text.ofNat depth
      ++ " while locating \"" ++ path ++ "\", found " ++ found.name
  | noDevice => "Measurement leaf reached without a device"
  | other text => text

/-- The text of a byte that is the code of no page kind. -/
def CatalogError.byteText (byte : Option Number) : Text :=
  byte.elim "undefined" Number.text

def CatalogError.message : CatalogError → Text
  | general text => text
  | malformedPath raw cause => "Illegal path \"" ++ raw ++ "\": " ++ cause.message
  | invalidArgument cause => cause.message
  | invalidEncoding byte => "Invalid metadata index node type: " ++ byteText byte
  | invalidState cause => cause.message
  | incompleteData cause => cause.message
  | limitExceeded cause => cause.message
  | corruptIndex cause => cause.message

end SeriesCatalog
