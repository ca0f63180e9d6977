import FlatQuery.Report
import FlatQuery.Row.Reader

/-!
Why a table cannot be read.
-/

namespace FlatQuery

inductive TableError
  | unavailable (table path : String) (fault : Fault)
  | notRewound (table path : String) (fault : Fault)
  | broken (table : String) (e : ReadError)
  | invalidName (table : String)
  | unknown (table : String)
  deriving DecidableEq, Repr

namespace TableError

def code : TableError → String
  | unavailable .. => "CSVQ_SOURCE_UNAVAILABLE"
  | notRewound .. | broken .. => ReadError.code
  | invalidName _ => "CSVQ_INVALID_TABLE"
  | unknown _ => "CSVQ_UNKNOWN_TABLE"

def table : TableError → String
  | unavailable table .. | notRewound table .. | broken table _ | invalidName table
  | unknown table => table

def message : TableError → String
  | unavailable _ path _ => "Cannot open " ++ path
  | notRewound _ path _ => "Failed to rewind " ++ path
  | broken _ e => e.message
  | invalidName table =>
    if table = "" then "Table name is empty"
    else "Table name '" ++ table ++ "' must not contain path components"
  | unknown table => "No schema configured for table '" ++ table ++ "'"

def cause? : TableError → Option Fault
  | unavailable _ _ fault | notRewound _ _ fault => some fault
  | broken _ e => some e.fault
  | _ => none

def report (e : TableError) : Report where
  code := e.code
  message := e.message
  table := some e.table
  cause := e.cause?

end TableError
end FlatQuery
