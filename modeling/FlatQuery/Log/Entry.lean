import FlatQuery.Json.Printer
import FlatQuery.Text.Ascii
import FlatQuery.Text.Utf8

/-!
The lines of a log. Each is a JSON object on one line and reports one event.
-/

namespace FlatQuery.Log

inductive Severity
  | trace
  | info
  | warn
  | error
  | fatal
  deriving DecidableEq, Repr

namespace Severity

def name : Severity → String
  | trace => "TRACE"
  | info => "INFO"
  | warn => "WARN"
  | error => "ERROR"
  | fatal => "FATAL"

def all : List Severity :=
  [trace, info, warn, error, fatal]

-- A severity by its name in letters of any case.
def ofName? (name : String) : Option Severity :=
  all.find? (Text.sameIgnoringCase name ·.name)

def rank : Severity → Nat
  | trace => 0
  | info => 1
  | warn => 2
  | error => 3
  | fatal => 4

end Severity

inductive Event
  | configLoaded
  | configWritable
  | sessionOpen
  | sessionClose
  | cursorOpen
  | cursorRewind
  | cursorClose
  | scanStart
  | scanComplete
  | scanFailed
  | rowMalformed
  | requestRejected
  | serving
  deriving DecidableEq, Repr

namespace Event

def name : Event → String
  | configLoaded => "CONFIG_LOADED"
  | configWritable => "CONFIG_WRITABLE_IGNORED"
  | sessionOpen => "SESSION_OPEN"
  | sessionClose => "SESSION_CLOSE"
  | cursorOpen => "CURSOR_OPEN"
  | cursorRewind => "CURSOR_REWIND"
  | cursorClose => "CURSOR_CLOSE"
  | scanStart => "SCAN_START"
  | scanComplete => "SCAN_COMPLETE"
  | scanFailed => "SCAN_FAILED"
  | rowMalformed => "ROW_MALFORMED"
  | requestRejected => "REQUEST_REJECTED"
  | serving => "CSVQUERY_SERVING"

def isFailure : Event → Bool
  | scanFailed | requestRejected => true
  | _ => false

-- How severe an event is unless the place where it arises says otherwise.
def severity (e : Event) : Severity :=
  if e.isFailure then .error else .info

end Event

structure Entry where
  severity : Severity
  event : String
  fields : List (String × String) := []
  deriving DecidableEq, Repr

namespace Entry

def isControl (c : Char) : Bool :=
  c.toNat < 0x20 || (0x7F ≤ c.toNat && c.toNat < 0xA0)

-- Quotes, backslashes and all control characters are escaped.
def escape (c : Char) : List Char :=
  if c = '"' then ['\\', '"']
  else if c = '\\' then ['\\', '\\']
  else if c = '\n' then ['\\', 'n']
  else if c = '\r' then ['\\', 'r']
  else if c = '\t' then ['\\', 't']
  else if isControl c then Json.unicodeEscape c
  else [c]

def quote (s : String) : List Char :=
  '"' :: (s.toList.flatMap escape ++ ['"'])

def member (m : String × String) : List Char :=
  quote m.1 ++ ':' :: quote m.2

-- Fields in the order of their keys. Those of one key stay in their order.
def sorted (fields : List (String × String)) : List (String × String) :=
  fields.mergeSort fun a b => !(b.1 < a.1)

-- The line of an entry written at the time `ts`, without a line feed.
def chars (ts : String) (e : Entry) : List Char :=
  let first := [("event", e.event), ("severity", e.severity.name)].map member
  let time := quote "ts" ++ ':' :: '"' :: (ts.toList ++ ['"'])
  let members := first ++ time :: (sorted e.fields).map member
  '\x7b' :: (members.intersperse [',']).flatten ++ ['\x7d']

def line (ts : String) (e : Entry) : String :=
  .ofList (e.chars ts)

-- What is written for an entry: its line in UTF-8, and a line feed that ends it.
def bytes (ts : String) (e : Entry) : List UInt8 :=
  Text.Utf8.encode ((e.line ts).toList ++ ['\n'])

end Entry
end FlatQuery.Log
