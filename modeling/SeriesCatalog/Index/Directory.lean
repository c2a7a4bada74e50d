/-
  Series catalog — directories.

  A `Directory` files records under the name of their device and, within the
  device, under the name of their measurement.  Both are kept in the order of
  names, whatever order the records come in.

  * `Directory.insert` files one record, and refuses a path without a device
    and a pair of names that is taken;
  * `Directory.ofRecords` files records in turn, up to the first that is
    refused.
-/
import SeriesCatalog.Path.Basic
import Std.Data.TreeMap

namespace SeriesCatalog

open Std (TreeMap)

/-- The records of one device. -/
structure DeviceFile (α : Type) where
  /-- The nodes of the device, as the first path filed under it splits them. -/
  nodes : Nodes
  /-- The records by measurement. -/
  records : TreeMap Text α := ∅

/-- Records by device and measurement. -/
abbrev Directory (α : Type) := TreeMap Text (DeviceFile α)

namespace Directory

variable {α : Type}

/-- Files a record under a path. -/
def insert (directory : Directory α) (path : Path) (record : α) :
    Except CatalogError (Directory α) :=
  if path.nodes.length < 2 then .error (.invalidArgument (.notIndexable path.fullPath))
  else
    let file := directory.getD path.devicePrefix { nodes := path.nodes.device }
    if path.terminal ∈ file.records then .error (.invalidArgument (.duplicate path.fullPath))
    else
      let records := file.records.insert path.terminal record
      .ok (TreeMap.insert directory path.devicePrefix { file with records })

/-- Files all records, of which there must be one. -/
def ofRecords (records : List (Path × α)) : Except CatalogError (Directory α) := do
  let directory ← records.foldlM (fun directory (path, record) => directory.insert path record) ∅
  if records.isEmpty then throw (.invalidArgument .noRecords)
  return directory

end Directory

end SeriesCatalog
