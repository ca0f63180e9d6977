import FlatQuery.Config.Tables
import FlatQuery.Json.Printer
import FlatQuery.Json.Reader
import FlatQuery.Log.Journal
import FlatQuery.Path
import FlatQuery.Report
import FlatQuery.Scan.Window

/-!
The configuration of a directory of table files.
-/

namespace FlatQuery

-- How a JSON value fails to be a configuration.
inductive ConfigShape
  | kind
  | unknownOption
  | repeatedOption
  | excess
  | wrongType
  | schema (e : SchemaError)
  deriving DecidableEq, Repr

def ConfigShape.message : ConfigShape → String
  | kind => "expected an object or an array of options"
  | unknownOption => "unknown option"
  | repeatedOption => "an option is given twice"
  | excess => "too many options"
  | wrongType => "an option has a value of the wrong type"
  | schema e => e.message

inductive ConfigError
  | unreadable (path : String) (fault : Fault)
  | json (e : Json.Error)
  | shape (s : ConfigShape)
  | recursive
  | delimiter (text : String)
  | zeroLimit
  | extension (text : String)

namespace ConfigError

def code : String := "CSVQ_CONFIG_INVALID"

def message : ConfigError → String
  | unreadable path fault => "Failed to read config " ++ path ++ ": " ++ fault.message
  | json e => "Invalid config JSON: " ++ e.message
  | shape s => "Invalid config JSON: " ++ s.message
  | recursive => "recursive = true is not supported"
  | delimiter text =>
    "Invalid delimiter: '" ++ text ++ "'. Must be a single ASCII character."
  | zeroLimit => "default_limit must be > 0"
  | extension text => "Invalid extension: '" ++ text ++ "'"

def report (e : ConfigError) : Report where
  code := code
  message := e.message

end ConfigError

-- Tables lie directly in the directory `path`, in files with the given extension. Nothing is ever
-- written to them, whether they are `readonly` or not, and directories inside are not searched.
structure Config where
  path : String := "."
  extension : String := "csv"
  readonly : Bool := true
  recursive : Bool := false
  delimiter : String := ";"
  defaultLimit : Nat := Window.usualLimit
  tables : Tables := .empty
  deriving DecidableEq, Repr

namespace Config

-- Two configurations are the same if they differ at most in the spelling of the path.
def same (c d : Config) : Bool :=
  Path.components c.path == Path.components d.path && { c with path := d.path } == d

-- A delimiter is one ASCII character that neither quotes a cell nor ends a line.
def delimiterByte? (c : Config) : Option UInt8 :=
  match c.delimiter.toList with
  | [d] =>
    if d.toNat < 0x80 && d != '"' && d != '\n' && d != '\r' then some d.toNat.toUInt8 else none
  | _ => none

def validate (c : Config) : Except ConfigError UInt8 :=
  if c.recursive then .error .recursive
  else
    match c.delimiterByte? with
    | none => .error (.delimiter c.delimiter)
    | some delimiter =>
      if c.defaultLimit = 0 then .error .zeroLimit
      else if c.extension.toList.any fun d => d == '/' || d == '\\' then
        .error (.extension c.extension)
      else .ok delimiter

-- A configuration that is found valid is reported if it asks for more than to be read.
def check (c : Config) (j : Log.Journal) : Except ConfigError (UInt8 × Log.Journal) := do
  let delimiter ← c.validate
  return (delimiter, if c.readonly then j else j.report .configWritable [("path", c.path)])

def toJson (c : Config) : Json :=
  .object [
    ("path", .string c.path),
    ("extension", .string c.extension),
    ("readonly", .bool c.readonly),
    ("recursive", .bool c.recursive),
    ("delimiter", .string c.delimiter),
    ("default_limit", .ofNat c.defaultLimit),
    ("tables", .object (c.tables.entries.map fun e => (e.1, .strings e.2.names)))]

def render (c : Config) : String :=
  c.toJson.render

end Config
end FlatQuery
