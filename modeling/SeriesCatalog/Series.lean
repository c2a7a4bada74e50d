/-
  Series catalog — series.

  A `Series` is a device and a measurement, the form in which a data file
  names a time series.  Made from nodes it keeps them, so that nodes which
  hold separators or quotes stay as they were split; otherwise its nodes come
  from splitting the device in the standard way.
-/
import SeriesCatalog.Splitter

namespace SeriesCatalog

/-- A device with one of its measurements. -/
structure Series where
  device : Text
  measurement : Text
  /-- The nodes that the series was made from. -/
  given : Option Nodes := none
deriving DecidableEq

namespace Series

/-- The series of a device and a measurement, which may not be empty. -/
def ofPair (device measurement : Text) : Except CatalogError Series :=
  if measurement.isEmpty then .error (.invalidArgument .emptyMeasurement)
  else .ok { device := device, measurement := measurement }

/-- The series whose device joins all nodes but the last, and whose measurement is the last. -/
def ofNodes (nodes : Nodes) : Except CatalogError Series := do
  if nodes.isEmpty then throw (.invalidArgument .seriesWithoutNodes)
  let series ← ofPair nodes.device.join nodes.terminal
  return { series with given := nodes }

/-- The series of a written path, which is split in the standard way. -/
def ofFullPath (path : Text) : Except CatalogError Series := do
  let nodes ← Splitter.standard path
  ofPair nodes.device.join nodes.terminal

/-- The nodes of a series: those it was made from, or else the nodes of its device and its
    measurement. -/
def nodes (s : Series) : Except CatalogError Nodes :=
  match s.given with
  | some nodes => .ok nodes
  | none =>
    if s.device.isEmpty then .ok [s.measurement]
    else (Splitter.standard s.device).map (· ++ [s.measurement])

/-- The written path of a series. -/
def fullPath (s : Series) : Text :=
  if s.device.isEmpty then s.measurement else s.device ++ separator :: s.measurement

end Series

end SeriesCatalog
