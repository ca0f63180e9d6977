import FlatQuery.Condition.Basic

/-!
Queries: which fields of which records, and which page of them.
-/

namespace FlatQuery

inductive QueryError
  | notAnObject
  | invalidConditions (typeName : String)
  | invalidGroup (key : String)
  | invalidValue (key : String)
  | unknownOperator (key token : String)
  | invalidFields
  deriving DecidableEq, Repr

namespace QueryError

def code : QueryError → String :=
  fun _ => "CSVQ_INVALID_QUERY"

def message : QueryError → String
  | notAnObject => "Query must be a JSON object"
  | invalidConditions typeName => "Conditions must be a JSON object, got " ++ typeName
  | invalidGroup key => "Group '" ++ key ++ "' must contain an object or a list of objects"
  | invalidValue key => "Unsupported condition value for '" ++ key ++ "'"
  | unknownOperator key token =>
    "Unknown comparison operator '" ++ token ++ "' in condition key '" ++ key ++ "'"
  | invalidFields => "Field list must be an array of strings"

end QueryError

-- Without names all fields are selected. A page or a limit that is not set, or is zero, leaves
-- the one of the scan before.
structure Query where
  fields : List String := []
  conditions : List Condition := []
  page : Option Nat := none
  limit : Option Nat := none
  countOnly : Bool := false

namespace Query

def select (q : Query) (fields : List String) : Query :=
  { q with fields }

def filter (q : Query) (conditions : List Condition) : Query :=
  { q with conditions }

def positive? (n : Nat) : Option Nat :=
  if 0 < n then some n else none

def withPage (q : Query) (page : Nat) : Query :=
  { q with page := positive? page }

def withLimit (q : Query) (limit : Nat) : Query :=
  { q with limit := positive? limit }

def counting (q : Query) : Query :=
  { q with countOnly := true }

def selectsAll (q : Query) : Bool :=
  q.fields.isEmpty

end Query
end FlatQuery
