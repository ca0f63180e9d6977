import FlatQuery.Json.Basic
import FlatQuery.Query.Basic
import FlatQuery.Text.Blank

/-!
Trees of conditions in JSON form. A tree is an object whose members are its entries in order.
The key of a member names a group or a field, the latter with an operator behind it or not.
-/

namespace FlatQuery.Condition

-- The part of a text before its last blank and the part behind it.
def splitLast? (s : List Char) : Option (List Char × List Char) :=
  match s.reverse.span (!Text.isBlank ·) with
  | (_, []) => none
  | (token, _ :: front) => some (front.reverse, token.reverse)

-- A last word of these characters alone is meant as an operator.
def isOperatorLike (token : List Char) : Bool :=
  token.all ("<>=!~".toList.contains ·)

-- The field and the operator that a key names. Without an operator it is equality on the whole key.
def splitKey (key : String) : Except QueryError (String × Operator) :=
  let key := Text.trim key
  match splitLast? key.toList with
  | none => .ok (key, .eq)
  | some (front, token) =>
    match Operator.ofToken? (.ofList token) with
    | some op => .ok (.ofList (Text.stripEnd Text.isBlank front), op)
    | none =>
      if isOperatorLike token then .error (.unknownOperator key (.ofList token))
      else .ok (key, .eq)

def readScalar (key : String) : Json → Except QueryError Operand
  | .null => .ok .null
  | .bool b => .ok (.bool b)
  | .number n => .ok (.number n.toBinary64)
  | .string s => .ok (.text s)
  | _ => .error (.invalidValue key)

def readOperand (key : String) : Json → Except QueryError Operand
  | .array items => (items.mapM (readScalar key)).map .list
  | v => readScalar key v

def readField (key : String) (v : Json) : Except QueryError Condition := do
  let (name, op) ← splitKey key
  return field name op (← readOperand key v)

def isOr (key : String) : Bool :=
  Text.sameIgnoringCase key "or"

def isAnd (key : String) : Bool :=
  Text.sameIgnoringCase key "and"

mutual

-- The entries of a group. A list of objects is a group of nested trees.
def readGroup (key : String) : Json → Except QueryError (List Condition)
  | .object members => readMembers members
  | .array items => readTrees key items
  | _ => .error (.invalidGroup key)

def readTrees (key : String) : List Json → Except QueryError (List Condition)
  | [] => .ok []
  | .object members :: items => do
    let tree ← readMembers members
    return .all tree :: (← readTrees key items)
  | _ :: _ => .error (.invalidGroup key)

def readMembers : List (String × Json) → Except QueryError (List Condition)
  | [] => .ok []
  | (key, v) :: members => do
    let c ←
      if isOr key then (readGroup key v).map .any
      else if isAnd key then (readGroup key v).map .all
      else readField key v
    return c :: (← readMembers members)

end

-- Nothing, no entries and an empty list all mean that there are no conditions.
def readTree : Json → Except QueryError (List Condition)
  | .null => .ok []
  | .array [] => .ok []
  | .object members => readMembers members
  | v => .error (.invalidConditions v.typeName)

end FlatQuery.Condition
