import FlatQuery.Log.Instant
import FlatQuery.Service.Program
import FlatQuery.Session.Identifier
import Std.Time.DateTime.Timestamp

/-!
The command line. Requests are answered one by one as they arrive.
-/

namespace FlatQuery.CommandLine

abbrev Handle := IO.FS.Handle

def usage : String :=
  "Usage: csvquery [--log-level <LEVEL>] <query|serve> [--config <PATH>]\n\n" ++
  "  query  Read one request from stdin and write one response\n" ++
  "  serve  Answer line-delimited requests from stdin over one session\n"

def describe : IO.Error → String
  | .noFileOrDirectory .. => "No such file or directory (os error 2)"
  | .permissionDenied .. => "Permission denied (os error 13)"
  | .inappropriateType _ code _ =>
    (if code = 20 then "Not a directory" else "Is a directory") ++
      " (os error " ++ toString code ++ ")"
  | e => toString e

def now : IO Log.Instant := do
  let t ← Std.Time.Timestamp.now
  return ⟨t.toNanosecondsSinceUnixEpoch.val.toNat⟩

-- A line that cannot be written is lost.
def logEntries (es : List Log.Entry) : IO Unit := do
  let err ← IO.getStderr
  for e in es do
    try
      err.write ⟨(e.bytes (← now).stamp).toArray⟩
      err.flush
    catch _ => pure ()

-- What is left to be read of a file, behind what was read of it before.
partial def contents (h : Handle) (before : ByteArray) : IO Source := do
  try
    let bytes ← h.read 0x10000
    if bytes.isEmpty then return ⟨before.toList, none⟩
    contents h (before ++ bytes)
  catch e =>
    return ⟨before.toList, some (.system (describe e))⟩

-- Files of which none can be opened.
def noFiles (fault : Fault) : Files where
  openFile := fun _ => .error fault
  contents := fun _ => ⟨[], none⟩

-- Opens a file under a number. No other file is seen beside it.
def openAs (n : Nat) (path : String) : IO (Files × Option Handle) := do
  try
    let h ← IO.FS.Handle.mk path .read
    let source ← contents h .empty
    return ({ openFile := fun _ => .ok n, contents := fun _ => source }, some h)
  catch e =>
    return (noFiles (.system (describe e)), none)

-- A file that is open already, from its start.
def reopen (h : Handle) : IO Files := do
  let files := noFiles (.system "")
  try
    h.rewind
    let source ← contents h .empty
    return { files with contents := fun _ => source }
  catch e =>
    return { files with rewindFault := fun _ => some (.system (describe e)) }

-- A session together with its open files.
structure Running where
  session : Session
  handles : List (Nat × Handle) := []
  opened : Nat := 0

-- Writes what the session has reported since.
def Running.flushLog (r : Running) : IO Running := do
  logEntries r.session.journal.entries
  return { r with session.journal.entries := [] }

-- The one file that a line asks for.
def Running.view (r : Running) (line : String) : IO (Files × Option Handle) := do
  let nothing := noFiles (.system "")
  let request := (Request.read line).mapError Failure.ofRequestError
  match request.bind Request.parts with
  | .error _ => return (nothing, none)
  | .ok (table, _, _) =>
    match (r.session.cursors.lookup table).bind fun c => r.handles.lookup c.file with
    | some h => return (← reopen h, none)
    | none =>
      match r.session.tablePath table with
      | .error _ => return (nothing, none)
      | .ok path => openAs r.opened path

-- Answers a line of input. A file that was opened for it stays open if the session has a cursor
-- for it.
def Running.answer (respond : Files → Source → Session → Sink → Option Failure × Session × Sink)
    (input : Source) (r : Running) : IO (Option Failure × Running) := do
  let line := match input.lines with
    | .ok line :: _ => line
    | _ => ""
  let (files, handle) ← r.view line
  let (failure, session, sink) := respond files input r.session {}
  let kept := session.cursors.any fun e => e.2.file == r.opened
  let handles := match handle with
    | some h => if kept then (r.opened, h) :: r.handles else r.handles
    | none => r.handles
  let r ← Running.flushLog { session, handles, opened := r.opened + 1 }
  let out ← IO.getStdout
  try
    out.write ⟨sink.written.toArray⟩
    out.flush
    return (failure, r)
  catch e =>
    return (some (.io ("Failed to write response: " ++ describe e)), r)

-- The next line of the input with its line feed.
partial def readLine (input : IO.FS.Stream) (line : ByteArray) : IO Source := do
  try
    let bytes ← input.read 1
    let line := line ++ bytes
    if bytes.isEmpty || bytes.toList = [Row.lf] then return ⟨line.toList, none⟩
    readLine input line
  catch e =>
    return ⟨line.toList, some (.system (describe e))⟩

partial def Running.serve (input : IO.FS.Stream) (r : Running) :
    IO (Option Failure × Running) := do
  let line ← readLine input .empty
  if line.bytes.isEmpty && line.fault.isNone then return (none, r)
  match ← r.answer (fun files line s k => s.serveLines files line.lines k) line with
  | (none, r) => r.serve input
  | (some failure, r) => return (some failure, r)

def run (i : Invocation) : IO (Option Failure) := do
  let input ← IO.getStdin
  match i.threshold with
  | .error e => return some e
  | .ok threshold =>
    let (files, _) ← openAs 0 i.config
    let id := Session.identifier (← IO.getRandomBytes 16).toList
    match Session.ofFile files i.config id (← now).full ⟨threshold, []⟩ with
    | .error e => return some (.ofConfigError e)
    | .ok session =>
      let (failure, r) ← match i.command with
        | .query => do
          let r ← Running.flushLog { session }
          r.answer (fun files line s k => s.query files line k) (← readLine input .empty)
        | .serve => do
          let r ← Running.flushLog { session := session.announce }
          r.serve input
      logEntries r.session.close.entries
      return failure

end FlatQuery.CommandLine

open FlatQuery in
def main (args : List String) : IO UInt32 := do
  match CommandLine.parse args with
  | .help =>
    IO.print CommandLine.usage
    return 0
  | .version =>
    IO.println "csvquery 0.1.0"
    return 0
  | .wrong =>
    IO.eprint CommandLine.usage
    return 2
  | .run i =>
    match ← CommandLine.run i with
    | none => return 0
    | some failure =>
      IO.eprintln failure.display
      return 1
