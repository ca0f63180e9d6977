import FlatQuery.Condition.Match
import FlatQuery.Row.Reader
import FlatQuery.Scan.Window

/-!
Scans: one page of the records of a stream that satisfy the conditions of a query.
-/

namespace FlatQuery.Scan

-- What a scan looks for. `positions` are those of the selected fields, or none if all are.
structure Plan where
  schema : Schema
  delimiter : UInt8
  conditions : List Condition
  positions : Option (List Nat)
  page : Nat
  limit : Nat

def Plan.of (schema : Schema) (delimiter : UInt8) (q : Query) (w : Window) : Plan where
  schema := schema
  delimiter := delimiter
  conditions := q.conditions
  positions := if q.selectsAll then none else some (schema.positionsOf q.fields)
  page := w.page
  limit := w.limit

-- The record that is returned for a row.
def Plan.view (p : Plan) (row : Row) : Record :=
  match p.positions with
  | none => .decode row.line p.schema row.cells
  | some positions => .project row.line p.schema row.cells positions

-- What a scan has found so far. Rows with fewer cells than the schema has names are malformed.
@[ext]
structure Progress where
  malformed : Array Row := #[]
  matched : Nat := 0
  page : Array Record := #[]

namespace Progress

-- Takes one more row. A matching record belongs to the page on which as many records as `limit`
-- were put for each page before it, and pages before the requested one are passed over.
def step (p : Plan) (s : Progress) (row : Row) : Progress :=
  if row.cells.length < p.schema.width then
    { s with malformed := s.malformed.push row }
  else if (Record.decode row.line p.schema row.cells).satisfies p.conditions then
    { s with
      matched := s.matched + 1
      page := if p.page ≤ s.matched / p.limit + 1 then s.page.push (p.view row) else s.page }
  else s

def isFull (p : Plan) (s : Progress) : Bool :=
  p.limit ≤ s.page.size

end Progress

-- How a scan ended: with the stream, with a full page, or with a break of the stream.
inductive Ending
  | done
  | full
  | broken (e : ReadError)
  deriving DecidableEq, Repr

-- A scan that has ended. Its reader is behind the last row that was read.
structure Run where
  progress : Progress
  ending : Ending
  reader : Row.Reader

-- Takes rows until the page is full.
def collect (p : Plan) (s : Progress) (r : Row.Reader) : Run :=
  match _h : r.next p.delimiter with
  | .done => ⟨s, .done, r⟩
  | .failed e => ⟨s, .broken e, r⟩
  | .row row r' =>
    let s := s.step p row
    if s.isFull p then ⟨s, .full, r'⟩ else collect p s r'
termination_by r.source.bytes.length
decreasing_by exact Row.Reader.length_next (by assumption)

-- The first row is a header and is passed over.
def run (p : Plan) (source : Source) : Run :=
  match Row.Reader.next p.delimiter ⟨source, 0⟩ with
  | .done => ⟨{}, .done, ⟨source, 0⟩⟩
  | .failed e => ⟨{}, .broken e, ⟨source, 0⟩⟩
  | .row _ r => collect p {} r

inductive Outcome
  | records (records : List Record)
  -- The number of records on the page, not of those in the table.
  | count (n : Nat)
  deriving DecidableEq, Repr

namespace Outcome

def records? : Outcome → Option (List Record)
  | records rs => some rs
  | count _ => none

def size : Outcome → Nat
  | records rs => rs.length
  | count n => n

def toJson : Outcome → Json
  | records rs => .array (rs.map Record.toJson)
  | count n => .object [("count", .ofNat n)]

end Outcome

-- `linesRead` counts physical lines, also that of the header.
structure Stats where
  linesRead : Nat
  malformed : Nat
  matched : Nat
  returned : Nat
  stoppedAtLimit : Bool
  deriving DecidableEq, Repr

structure Output where
  outcome : Outcome
  stats : Stats
  deriving DecidableEq, Repr

def Run.output (run : Run) (countOnly : Bool) : Except ReadError Output :=
  match run.ending with
  | .broken e => .error e
  | ending => .ok {
      outcome :=
        if countOnly then .count run.progress.page.size else .records run.progress.page.toList
      stats := {
        linesRead := run.reader.line
        malformed := run.progress.malformed.size
        matched := run.progress.matched
        returned := run.progress.page.size
        stoppedAtLimit := ending == .full
      }
    }

end FlatQuery.Scan
