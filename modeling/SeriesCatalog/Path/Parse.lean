/-
  Series catalog — reading raw paths.

  `Path.parse` splits a raw path and keeps the raw text beside the nodes.  It
  either gives a path or names the first thing that is wrong, and it logs
  exactly the raw paths that are malformed.
-/
import SeriesCatalog.Log
import SeriesCatalog.Path.Basic
import SeriesCatalog.Text.Quoted

namespace SeriesCatalog

/-- How raw paths are read. -/
structure ParseOptions where
  /-- The most units that a raw path may have. -/
  maxPathLength : Number := .ofNat Setting.maxPathLength.standard.toNat
  /-- The most nodes that a path may have. -/
  maxNodeCount : Number := .ofNat Setting.maxNodeCount.standard.toNat
  splitter : Splitter := Splitter.standard
  logger : Logger := {}

namespace Path

/-- The nodes that a splitter makes of a raw path: at least one, and none empty. -/
def splitNodes (splitter : Splitter) (raw : Text) : Except CatalogError Nodes := do
  let nodes ← splitter raw
  if nodes.isEmpty then throw (.malformedPath raw .noNodes)
  if let some index := nodes.firstEmpty? then throw (.malformedPath raw (.emptyAt index))
  return nodes

/-- Reads a raw path: the settings are checked before its length, its length before it is split,
    and the number of its nodes last. -/
def read (raw : Text) (options : ParseOptions) : Except CatalogError Path := do
  let maxLength ← Setting.maxPathLength.check options.maxPathLength
  let maxNodes ← Setting.maxNodeCount.check options.maxNodeCount
  if maxLength.toNat < raw.length then
    throw (.limitExceeded (.pathLength raw.length maxLength.toNat))
  let nodes ← splitNodes options.splitter raw
  if maxNodes.toNat < nodes.length then
    throw (.limitExceeded (.nodeCount nodes.length maxNodes.toNat))
  return { nodes, written := raw }

/-- What is logged of a reading: a warning that quotes the raw path, if it is malformed. -/
def readLog (raw : Text) (logger : Logger) : Except CatalogError Path → List LogEntry
  | .error (.malformedPath faulty cause) =>
    logger.entry .warn ("[path] rejected " ++ Text.quoted raw ++ ": "
      ++ (CatalogError.malformedPath faulty cause).message)
  | _ => []

/-- Reads a raw path and logs its rejection. -/
def parse (raw : Text) (options : ParseOptions := {}) : Logged Path where
  result := read raw options
  log := readLog raw options.logger (read raw options)

end Path

end SeriesCatalog
