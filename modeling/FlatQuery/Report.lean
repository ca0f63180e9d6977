import FlatQuery.Fault

/-!
What is told about an error: a stable code, a message, and where it comes from.
-/

namespace FlatQuery

structure Report where
  code : String
  message : String
  table : Option String := none
  cause : Option Fault := none
  deriving DecidableEq, Repr

def Report.display (r : Report) : String :=
  r.code ++ ": " ++ r.message ++
    (match r.table with
    | some table => " (table: " ++ table ++ ")"
    | none => "") ++
    (match r.cause with
    | some fault => " (caused by: " ++ fault.message ++ ")"
    | none => "")

end FlatQuery
