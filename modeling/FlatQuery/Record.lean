import FlatQuery.Json.Basic
import FlatQuery.Schema

/-!
Records: the cells of a row under the names of its schema.
-/

namespace FlatQuery

-- A field that the schema names several times has several cells, in the order of the schema.
inductive FieldValue
  | single (cell : String)
  | multi (cells : List String)
  deriving DecidableEq, Repr

namespace FieldValue

def push (cell : String) : FieldValue → FieldValue
  | single first => multi [first, cell]
  | multi cells => multi (cells ++ [cell])

def cells : FieldValue → List String
  | single cell => [cell]
  | multi cells => cells

theorem cells_push (cell : String) (v : FieldValue) : (v.push cell).cells = v.cells ++ [cell] := by
  cases v <;> rfl

def toJson : FieldValue → Json
  | single cell => .string cell
  | multi cells => .strings cells

end FieldValue

-- The id of a record is the line on which its row begins. The header is on line 0.
@[ext]
structure Record where
  id : Nat
  fields : List (String × FieldValue)
  deriving DecidableEq, Repr

namespace Record

def empty (id : Nat) : Record :=
  ⟨id, []⟩

def get? (r : Record) (name : String) : Option FieldValue :=
  r.fields.lookup name

-- Adds a cell to the field of a name.
def insertField (name cell : String) : List (String × FieldValue) → List (String × FieldValue)
  | [] => [(name, .single cell)]
  | f :: fs => if f.1 = name then (f.1, f.2.push cell) :: fs else f :: insertField name cell fs

def insert (r : Record) (name cell : String) : Record :=
  { r with fields := insertField name cell r.fields }

def ofPairs (id : Nat) (pairs : List (String × String)) : Record :=
  pairs.foldl (fun r p => r.insert p.1 p.2) (empty id)

-- The record of a row. Cells that have no name are left out.
def decode (id : Nat) (schema : Schema) (cells : List String) : Record :=
  ofPairs id (schema.names.zip cells)

-- The record of a row with the given positions only.
def project (id : Nat) (schema : Schema) (cells : List String) (positions : List Nat) : Record :=
  ofPairs id <| positions.filterMap fun i => do return (← schema.name? i, ← cells[i]?)

-- The id comes first, unless there is a field with its name.
def toJson (r : Record) : Json :=
  let members := r.fields.map fun f => (f.1, f.2.toJson)
  .object (if (r.get? "id").isSome then members else ("id", .ofNat r.id) :: members)

end Record
end FlatQuery
