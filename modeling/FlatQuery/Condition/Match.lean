import FlatQuery.Condition.Basic
import FlatQuery.Condition.Like
import FlatQuery.Number.Decimal
import FlatQuery.Number.Shortest
import FlatQuery.Record

/-!
Which records satisfy a tree of conditions.
-/

namespace FlatQuery

-- The number that a cell is read as, if it is read as one.
def cellNumber? (cell : String) : Option Binary64 :=
  Decimal.read? (Text.strip Text.isBlank cell.toList)

-- The text that a number is compared by where a cell is no number.
-- Zero has no sign in it.
def Binary64.plainText (x : Binary64) : String :=
  match x.whole? with
  | some 0 => "0"
  | _ => x.text

namespace Operand

-- Whether a cell equals a value that is not a list.
def equals (cell : String) : Operand → Bool
  | null => cell == ""
  | bool true => cell == "1" || Text.sameIgnoringCase cell "true"
  | bool false => cell == "" || cell == "0" || Text.sameIgnoringCase cell "false"
  | number x => (cellNumber? cell).any fun y => y.compare? x == some .eq
  | text s => cell == s
  | list _ => false

-- How a cell stands to a number or a text. They compare as numbers if both are some,
-- and as texts otherwise.
def compare? (cell : String) : Operand → Option Ordering
  | number x =>
    match cellNumber? cell with
    | some y => y.compare? x
    | none => some (compare cell x.plainText)
  | text s =>
    match cellNumber? cell, cellNumber? s with
    | some y, some x => y.compare? x
    | _, _ => some (compare cell s)
  | _ => none

def like (cell : String) : Operand → Bool
  | text pattern => Like.accepts pattern cell
  | number x => Like.accepts x.plainText cell
  | _ => false

-- Equality with a list is equality with one of its items.
def equalsAny (cell : String) : Operand → Bool
  | list items => items.any (equals cell)
  | value => equals cell value

end Operand

-- Whether a cell satisfies a comparison.
def Operator.holds (op : Operator) (cell : String) (value : Operand) : Bool :=
  match op with
  | eq => value.equalsAny cell
  | ne => !value.equalsAny cell
  | like => value.like cell
  | gt => value.compare? cell == some .gt
  | ge => (value.compare? cell).any (· != .lt)
  | lt => value.compare? cell == some .lt
  | le => (value.compare? cell).any (· != .gt)

-- The cells of a field. A record without a field of this name has its id as `id`.
def Record.cells (r : Record) (name : String) : List String :=
  match r.get? name with
  | some v => v.cells
  | none => if name = "id" then [toString r.id] else []

mutual

def Condition.holds (r : Record) : Condition → Bool
  | .field name op value => (r.cells name).any (op.holds · value)
  | .any alternatives => anyHolds r alternatives
  | .all tree => treeHolds r true tree

def anyHolds (r : Record) : List Condition → Bool
  | [] => false
  | c :: cs => c.holds r || anyHolds r cs

-- Whether a record satisfies the entries of a tree, which are looked at in order.
-- Alternatives of which one holds accept the record whatever comes after them. If none holds
-- the record is refused unless later alternatives accept it.
def treeHolds (r : Record) (accepted : Bool) : List Condition → Bool
  | [] => accepted
  | .any alternatives :: cs => anyHolds r alternatives || treeHolds r false cs
  | c :: cs => c.holds r && treeHolds r accepted cs

end

-- Without conditions every record is accepted.
def Record.satisfies (r : Record) (tree : List Condition) : Bool :=
  treeHolds r true tree

end FlatQuery
