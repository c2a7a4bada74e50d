/-
  Series catalog — index pages.

  An index is a tree of pages.  The entries of a page are named; those of a
  measurement leaf hold records, all others lead to a page below.  A tree may
  be built from records or put together by hand, so nothing is said here about
  the order of names or of tiers.
-/
import SeriesCatalog.Nodes
import SeriesCatalog.PageKind.Basic

namespace SeriesCatalog

/-- An entry that leads to a page below. -/
structure ChildEntry (Below : Type) where
  name : Text
  child : Below
  /-- The nodes behind the name of a device. -/
  deviceNodes : Option Nodes := none

/-- An entry that holds a record. -/
structure RecordEntry (α : Type) where
  name : Text
  record : α

/-- A page of an index, with all pages below it. -/
inductive Page (α : Type) where
  /-- Stands above other pages of its tier. -/
  | internal (tier : Tier) (entries : List (ChildEntry (Page α)))
  /-- Leads from devices to the measurements of each. -/
  | deviceLeaf (entries : List (ChildEntry (Page α)))
  /-- Leads from the measurements of one device to their records. -/
  | measurementLeaf (entries : List (RecordEntry α))

namespace Page

variable {α : Type}

/-- The kind of a page. -/
def kind : Page α → PageKind
  | internal tier _ => .internal tier
  | deviceLeaf _ => .leaf .device
  | measurementLeaf _ => .leaf .measurement

/-- The name of the first entry; empty for a page without entries. -/
def firstName : Page α → Text
  | internal _ entries | deviceLeaf entries => (entries.head?.map ChildEntry.name).getD []
  | measurementLeaf entries => (entries.head?.map RecordEntry.name).getD []

mutual

/-- The number of pages of a tree. -/
def pageCount : Page α → Nat
  | internal _ entries | deviceLeaf entries => 1 + pageCountBelow entries
  | measurementLeaf _ => 1

/-- The number of pages below the entries of a page. -/
def pageCountBelow : List (ChildEntry (Page α)) → Nat
  | [] => 0
  | ⟨_, child, _⟩ :: entries => child.pageCount + pageCountBelow entries

end

end Page

end SeriesCatalog
