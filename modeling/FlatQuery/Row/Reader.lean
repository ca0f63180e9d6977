import FlatQuery.Row.Cells

/-!
Reading a stream row by row.
-/

namespace FlatQuery

-- A row begins on a physical line. The first line is number 0.
structure Row where
  line : Nat
  cells : List String
  deriving DecidableEq, Repr

-- A stream broke while the line of this number was read.
structure ReadError where
  line : Nat
  fault : Fault
  deriving DecidableEq, Repr

namespace ReadError

def code : String := "CSVQ_READ_FAILED"

def message (e : ReadError) : String :=
  "Read failed at line " ++ toString e.line ++ ": " ++ e.fault.message

def display (e : ReadError) : String :=
  code ++ ": " ++ e.message

end ReadError

namespace Row

-- A stream of which `line` lines have been read.
structure Reader where
  source : Source
  line : Nat := 0
  deriving DecidableEq, Repr

namespace Reader

-- The next row and the reader behind it.
inductive Next
  | row (row : Row) (reader : Reader)
  | done
  | failed (e : ReadError)

def next (delimiter : UInt8) (r : Reader) : Next :=
  match gather none r.line r.source.fault r.source.bytes with
  | .row text line rest =>
    .row ⟨r.line, split delimiter text⟩ ⟨{ r.source with bytes := rest }, line⟩
  | .done => .done
  | .broken line fault => .failed ⟨line, fault⟩

theorem length_next {delimiter : UInt8} {r r' : Reader} {row : Row}
    (h : r.next delimiter = .row row r') : r'.source.bytes.length < r.source.bytes.length := by
  unfold next at h
  split at h
  case h_1 h' =>
    obtain ⟨_, rfl⟩ := Next.row.inj h
    simpa using length_gather h'
  all_goals simp at h

-- All rows that are left, with the break that ends them if there is one.
def rows (delimiter : UInt8) (r : Reader) : List Row × Option ReadError :=
  match _h : r.next delimiter with
  | .row row r' => let (rows, e) := rows delimiter r'; (row :: rows, e)
  | .done => ([], none)
  | .failed e => ([], some e)
termination_by r.source.bytes.length
decreasing_by exact length_next (by assumption)

end Reader
end Row
end FlatQuery
