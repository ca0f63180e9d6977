import FlatQuery.Config.Basic
import FlatQuery.Query.Basic
import FlatQuery.Session.Error

/-!
Errors as they are answered to requests or end the program.
-/

namespace FlatQuery

-- `domain` is an error with a code of its own, of a query, a schema or a table.
inductive Failure
  | config (message : String)
  | io (message : String)
  | request (message : String)
  | domain (code message : String)
  deriving DecidableEq, Repr

namespace Failure

def code : Failure → String
  | config _ => "CSVQ_CLI_CONFIG_ERROR"
  | io _ => "CSVQ_CLI_IO_ERROR"
  | request _ => "CSVQ_CLI_REQUEST_ERROR"
  | domain code _ => code

def message : Failure → String
  | config message | io message | request message | domain _ message => message

-- Errors that concern no single request end the program.
def isFatal : Failure → Bool
  | config _ | io _ => true
  | _ => false

def display (f : Failure) : String :=
  f.code ++ ": " ++ f.message

def ofConfigError (e : ConfigError) : Failure :=
  config e.report.display

def ofTableError (e : TableError) : Failure :=
  domain e.code e.message

def ofQueryError (e : QueryError) : Failure :=
  domain e.code e.message

def ofSchemaError (e : SchemaError) : Failure :=
  domain e.code e.message

def ofFault (f : Fault) : Failure :=
  io f.message

end Failure
end FlatQuery
