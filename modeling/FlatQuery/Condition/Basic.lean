import FlatQuery.Text.Ascii
import FlatQuery.Number.Binary64

/-!
Conditions on records.
-/

namespace FlatQuery

inductive Operator
  | eq
  | ne
  | gt
  | ge
  | lt
  | le
  | like
  deriving DecidableEq, Repr

namespace Operator

-- Two operators have a second spelling, and the letters of the last one may have any case.
def ofToken? (token : String) : Option Operator :=
  if token == "=" || token == "==" then some eq
  else if token == "!=" || token == "<>" then some ne
  else if token == ">" then some gt
  else if token == ">=" then some ge
  else if token == "<" then some lt
  else if token == "<=" then some le
  else if Text.sameIgnoringCase token "like" then some like
  else none

def token : Operator → String
  | eq => "="
  | ne => "!="
  | gt => ">"
  | ge => ">="
  | lt => "<"
  | le => "<="
  | like => "LIKE"

end Operator

-- What the cells of a field are compared with.
-- An absent value stands for the empty cell, and a list for any of its items.
inductive Operand
  | null
  | bool (b : Bool)
  | number (x : Binary64)
  | text (s : String)
  | list (items : List Operand)

-- One entry of a tree of conditions. `any` holds alternatives and `all` a nested tree.
inductive Condition
  | field (name : String) (op : Operator) (value : Operand)
  | any (alternatives : List Condition)
  | all (tree : List Condition)

end FlatQuery
