import FlatQuery.Text.Blank

/-!
The field names of a table, in the order of its columns.
-/

namespace FlatQuery

def isQuote (c : Char) : Bool :=
  c == '"' || c == '\''

-- A cell or a name without the quotes at its ends. Quotes further inside stay as they are.
def trimQuotes (s : String) : String :=
  .ofList (Text.strip isQuote s.toList)

theorem trimQuotes_idem (s : String) : trimQuotes (trimQuotes s) = trimQuotes s := by
  simp [trimQuotes, Text.strip_idem]

inductive SchemaError
  | empty
  | blank (position : Nat)
  deriving DecidableEq, Repr

namespace SchemaError

def code : SchemaError → String
  | empty => "CSVQ_SCHEMA_EMPTY"
  | blank _ => "CSVQ_SCHEMA_BLANK_FIELD"

def message : SchemaError → String
  | empty => "Schema must declare at least one field"
  | blank position =>
    "Field name at position " ++ toString position ++ " is empty after trimming quotes"

end SchemaError

-- A schema has at least one field. A name may occur several times, but none is blank or
-- has quotes at its ends.
@[ext]
structure Schema where
  names : List String
  names_ne_nil : names ≠ []
  trimmed : ∀ n ∈ names, n ≠ "" ∧ trimQuotes n = n
  deriving DecidableEq, Repr

namespace Schema

-- A blank name is reported before a missing one.
def ofNames (names : List String) : Except SchemaError Schema :=
  match h : names.findIdx? (trimQuotes · == "") with
  | some position => .error (.blank position)
  | none =>
    if h' : names = [] then .error .empty
    else .ok {
      names := names.map trimQuotes
      names_ne_nil := by simpa using h'
      trimmed := by
        simp only [List.findIdx?_eq_none_iff, beq_eq_false_iff_ne] at h
        intro n hn
        obtain ⟨m, hm, rfl⟩ := List.mem_map.mp hn
        exact ⟨h m hm, trimQuotes_idem m⟩
    }

-- The names of a schema make up the same schema again.
theorem ofNames_names (s : Schema) : ofNames s.names = .ok s := by
  have h : s.names.findIdx? (trimQuotes · == "") = none := by
    simp only [List.findIdx?_eq_none_iff, beq_eq_false_iff_ne]
    intro n hn
    simp [(s.trimmed n hn).2, (s.trimmed n hn).1]
  unfold ofNames
  split
  case h_1 _ h' => simp [h] at h'
  case h_2 =>
    simp only [s.names_ne_nil, ↓reduceDIte, Except.ok.injEq, Schema.ext_iff]
    rw [List.map_congr_left fun n hn => (s.trimmed n hn).2, List.map_id']

-- The number of cells that a row needs.
def width (s : Schema) : Nat :=
  s.names.length

def name? (s : Schema) (position : Nat) : Option String :=
  s.names[position]?

-- The positions of all fields with a requested name, in the order of the schema.
def positionsOf (s : Schema) (requested : List String) : List Nat :=
  s.names.zipIdx.filterMap fun (name, i) => if name ∈ requested then some i else none

end Schema
end FlatQuery
