import FlatQuery.Condition.Reader
import FlatQuery.Number.Decimal

/-!
Queries in JSON form.
-/

namespace FlatQuery.Query

def readFields : Json → Except QueryError (List String)
  | .null => .ok []
  | .string s => .ok [s]
  | v =>
    match v.strings? with
    | some names => .ok names
    | none => .error .invalidFields

-- The largest page and the largest limit.
def maxWindow : Nat := UInt64.size - 1

-- A page or a limit is a positive whole number, given as a number or as its text.
-- Any other value leaves it unset. The number just above the largest one counts as that.
def readWindow? (v : Json) : Option Nat := do
  let x ← match v with
    | .number n => some n.toBinary64
    | .string s => Decimal.read? (Text.strip Text.isBlank s.toList)
    | _ => none
  let n ← x.whole?
  if x.negative || n == 0 || maxWindow + 1 < n then none else some (min n maxWindow)

def isTruthy : Json → Bool
  | .null => false
  | .bool b => b
  | .number n => n.toBinary64.rank != 0
  | .string s => s != "" && s != "0"
  | .array items => !items.isEmpty
  | .object members => !members.isEmpty

-- A query counts if its `count` says so, or in the absence of that its `type`.
def readCountOnly (members : List (String × Json)) : Bool :=
  match members.lookup "count", members.lookup "type" with
  | none, some (.string kind) => kind == "count"
  | some .null, some (.string kind) => kind == "count"
  | some flag, _ => isTruthy flag
  | none, _ => false

-- Members of other names are ignored.
def read : Json → Except QueryError Query
  | .object members => do
    let fields ← ((members.lookup "fields").map readFields).getD (.ok [])
    let conditions ← ((members.lookup "conditions").map Condition.readTree).getD (.ok [])
    return {
      fields
      conditions
      page := (members.lookup "page").bind readWindow?
      limit := (members.lookup "limit").bind readWindow?
      countOnly := readCountOnly members
    }
  | _ => .error .notAnObject

end FlatQuery.Query
