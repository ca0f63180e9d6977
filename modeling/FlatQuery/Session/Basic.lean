import FlatQuery.Config.Basic
import FlatQuery.Files
import FlatQuery.Metrics
import FlatQuery.Scan.Basic
import FlatQuery.Session.Error

/-!
Sessions. A session opens the file of a table when it is scanned for the first time and keeps it
open. Each later scan goes back to the start of the file, if that is possible.
-/

namespace FlatQuery

-- An open file and how many bytes of it have been read.
@[ext]
structure Cursor where
  file : Nat
  offset : Nat
  deriving DecidableEq, Repr

structure Session where
  id : String
  config : Config
  delimiter : UInt8
  window : Window
  cursors : List (String × Cursor)
  metrics : Metrics
  journal : Log.Journal

namespace Session

def report (s : Session) (event : Log.Event) (fields : List (String × String)) : Session :=
  { s with journal := s.journal.report event fields }

-- Reports detail that is of interest only when a problem is searched for.
def trace (s : Session) (event : Log.Event) (fields : List (String × String)) : Session :=
  { s with journal := s.journal.add ⟨.trace, event.name, fields⟩ }

-- A session over a valid configuration. No file is touched.
def start (config : Config) (id openedAt : String) (j : Log.Journal) :
    Except ConfigError Session := do
  let (delimiter, j) ← config.check j
  let s : Session := {
    id, config, delimiter
    window := .start config.defaultLimit
    cursors := []
    metrics := {}
    journal := j
  }
  return s.report .sessionOpen [("opened_at", openedAt), ("path", config.path), ("session", id)]

def isOpen (s : Session) (table : String) : Bool :=
  (s.cursors.lookup table).isSome

def resetWindow (s : Session) : Session :=
  { s with window := s.window.reset }

-- The schema that is configured for a table.
def schema (s : Session) (table : String) : Except TableError Schema :=
  match s.config.tables.get? table with
  | some schema => .ok schema
  | none => .error (.unknown table)

-- A table name stands for one file directly in the directory of the configuration.
def isTableName (table : String) : Bool :=
  table != "" && table != "." && table != ".." &&
    !table.toList.any fun c => c == '/' || c == '\\' || c == '\x00'

def fileName (c : Config) (table : String) : String :=
  if c.extension = "" then table else table ++ "." ++ c.extension

def tablePath (s : Session) (table : String) : Except TableError String :=
  if isTableName table then .ok (Path.join s.config.path (fileName s.config table))
  else .error (.invalidName table)

-- Cursors with that of one table replaced or added.
def putCursor (table : String) (c : Cursor) : List (String × Cursor) → List (String × Cursor)
  | [] => [(table, c)]
  | e :: es => if e.1 = table then (table, c) :: es else e :: putCursor table c es

def setCursor (s : Session) (table : String) (c : Cursor) : Session :=
  { s with cursors := putCursor table c s.cursors }

-- The cursor of a table at the start of its file. One that cannot be rewound stays where it is.
def acquire (files : Files) (table path : String) (s : Session) :
    Except TableError Cursor × Session :=
  match s.cursors.lookup table with
  | some c =>
    match files.rewindFault c.file with
    | some fault => (.error (.notRewound table path fault), s)
    | none =>
      let c := { c with offset := 0 }
      let s := { s.setCursor table c with metrics := s.metrics.recordRewinding }
      (.ok c, s.trace .cursorRewind [("table", table)])
  | none =>
    match files.openPath path with
    | .error fault => (.error (.unavailable table path fault), s)
    | .ok file =>
      let s := { s.setCursor table ⟨file, 0⟩ with metrics := s.metrics.recordOpening }
      (.ok ⟨file, 0⟩, s.report .cursorOpen [("path", path), ("table", table)])

def malformedEntry (width : Nat) (row : Row) : Log.Entry where
  severity := .trace
  event := Log.Event.rowMalformed.name
  fields := [("cells", toString row.cells.length), ("expected", toString width),
    ("line", toString row.line)]

-- Scans the file behind a cursor from where the cursor is. The window moves even if the scan breaks.
def scan (files : Files) (table : String) (c : Cursor) (schema : Schema) (q : Query)
    (s : Session) : Except TableError Scan.Output × Session :=
  let source := files.contents c.file
  let window := s.window.forQuery q
  let run := Scan.run (.of schema s.delimiter q window) (source.drop c.offset)
  let left := run.reader.source.bytes.length
  let s := { s.setCursor table { c with offset := source.bytes.length - left } with
    window
    journal := s.journal.addAll
      (run.progress.malformed.toList.map (malformedEntry schema.width)) }
  ((run.output q.countOnly).mapError (.broken table), s)

-- Counts and reports how a scan went.
def finish (table : String) (s : Session) :
    Except TableError Scan.Output → Session
  | .ok output =>
    let n := output.stats
    let s := { s with
      metrics := s.metrics.recordScan n.linesRead n.malformed n.matched n.returned }
    s.report .scanComplete [
      ("lines", toString n.linesRead), ("malformed", toString n.malformed),
      ("matched", toString n.matched), ("returned", toString n.returned),
      ("session", s.id), ("table", table)]
  | .error e =>
    let s := { s with metrics := s.metrics.recordFailure }
    s.report .scanFailed [("code", e.code), ("session", s.id), ("table", table)]

-- Scans a table under a schema.
def read (files : Files) (table : String) (schema : Schema) (q : Query) (s : Session) :
    Except TableError Scan.Output × Session :=
  match s.tablePath table with
  | .error e => (.error e, s)
  | .ok path =>
    let w := s.window.forQuery q
    let s := s.trace .scanStart [
      ("limit", toString w.limit), ("page", toString w.page), ("session", s.id), ("table", table)]
    let (result, s) := match s.acquire files table path with
      | (.ok c, s) => s.scan files table c schema q
      | (.error e, s) => (.error e, s)
    (result, s.finish table result)

-- Scans a table under the schema that is configured for it.
def readTable (files : Files) (table : String) (q : Query) (s : Session) :
    Except TableError Scan.Output × Session :=
  match s.schema table with
  | .ok schema => s.read files table schema q
  | .error e => (.error e, s)

-- Closes the file of a table, and says whether it was open.
def closeTable (table : String) (s : Session) : Bool × Session :=
  if s.isOpen table then
    let s := { s with cursors := s.cursors.filter (·.1 ≠ table) }
    (true, s.report .cursorClose [("session", s.id), ("table", table)])
  else (false, s)

-- Closes all files. What remains of a session is its journal.
def close (s : Session) : Log.Journal :=
  (s.report .sessionClose [
    ("cursors", toString s.cursors.length), ("session", s.id)]).journal

end Session
end FlatQuery
