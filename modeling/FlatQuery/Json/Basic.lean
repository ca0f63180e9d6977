import FlatQuery.Json.Number

/-!
JSON values. The members of an object have an order.
-/

namespace FlatQuery

inductive Json
  | null
  | bool (b : Bool)
  | number (n : Json.Number)
  | string (s : String)
  | array (items : List Json)
  | object (members : List (String × Json))

namespace Json

-- Gives a name a value: in its old place if there is one, at the end otherwise.
def put (k : String) (v : Json) : List (String × Json) → List (String × Json)
  | [] => [(k, v)]
  | m :: ms => if m.1 = k then (k, v) :: ms else m :: put k v ms

-- Members as they are read one after the other. A repeated name stays where it was first and has
-- the value that it got last.
def merge (ms : List (String × Json)) : List (String × Json) :=
  ms.foldl (fun acc m => put m.1 m.2 acc) []

def ofNat (n : Nat) : Json :=
  number (.whole n)

def strings (ss : List String) : Json :=
  array (ss.map string)

-- The texts of an array that holds nothing else.
def strings? : Json → Option (List String)
  | array items => items.mapM fun
    | string s => some s
    | _ => none
  | _ => none

def typeName : Json → String
  | null => "null"
  | bool _ => "boolean"
  | number _ => "number"
  | string _ => "string"
  | array _ => "array"
  | object _ => "object"

end Json
end FlatQuery
