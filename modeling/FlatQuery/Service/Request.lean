import FlatQuery.Query.Reader
import FlatQuery.Service.Failure
import FlatQuery.Session.Basic

/-!
Requests: queries in JSON form together with the table that they ask about.
-/

namespace FlatQuery

inductive RequestError
  | empty
  | json (e : Json.Error)
  | notAnObject
  | tableType
  | tableMissing
  | schemaType

def RequestError.message : RequestError → String
  | empty => "Empty input"
  | json e => "Invalid request JSON: " ++ e.message
  | notAnObject => "Request must be a JSON object"
  | tableType => "'table' must be a string"
  | tableMissing => "Missing 'table'"
  | schemaType => "'schema' must be an array of field names"

def Failure.ofRequestError (e : RequestError) : Failure :=
  request e.message

namespace Request

-- A request from a line of input. There is none on a blank line.
def read (line : String) : Except RequestError Json :=
  if line.toList.all Text.isBlank then .error .empty
  else (Json.parse line).mapError .json

def members : Json → Except RequestError (List (String × Json))
  | .object members => .ok members
  | _ => .error .notAnObject

def table (members : List (String × Json)) : Except RequestError String :=
  match members.lookup "table" with
  | some (.string table) => .ok table
  | some _ => .error .tableType
  | none => .error .tableMissing

-- The schema of a request if it brings one.
def schema? (members : List (String × Json)) : Except Failure (Option Schema) :=
  match members.lookup "schema" with
  | none | some .null => .ok none
  | some v =>
    match v.strings? with
    | none => .error (.ofRequestError .schemaType)
    | some names => ((Schema.ofNames names).mapError .ofSchemaError).map some

-- The table, the query and the schema of a request. The first of them that is wrong is reported.
def parts (request : Json) : Except Failure (String × Query × Option Schema) := do
  let members ← (members request).mapError .ofRequestError
  let table ← (table members).mapError .ofRequestError
  let q ← (Query.read request).mapError .ofQueryError
  return (table, q, ← schema? members)

end Request

-- Answers a request with the data that it asks for.
def Session.handle (files : Files) (request : Json) (s : Session) : Except Failure Json × Session :=
  match Request.parts request with
  | .error e => (.error e, s)
  | .ok (table, q, schema) =>
    let (result, s) := match schema with
      | some schema => s.read files table schema q
      | none => s.readTable files table q
    ((result.mapError .ofTableError).map (·.outcome.toJson), s)

end FlatQuery
