import FlatQuery.Config.Reader
import FlatQuery.Service.CommandLine
import FlatQuery.Service.Serve

/-!
What a command does from its start to its end.
-/

namespace FlatQuery

-- A session over the configuration in a file.
def Session.ofFile (files : Files) (path id openedAt : String) (j : Log.Journal) :
    Except ConfigError Session := do
  let (config, j) ← Config.load files path j
  start config id openedAt j

namespace Invocation

def threshold (i : Invocation) : Except Failure Log.Severity :=
  match Log.Severity.ofName? i.logLevel with
  | some severity => .ok severity
  | none => .error (.config ("Invalid log level: '" ++ i.logLevel ++ "'"))

-- Opens a session, answers what stands on the input, and closes the session.
def execute (files : Files) (input : Source) (id openedAt : String) (k : Sink) (i : Invocation) :
    Option Failure × List Log.Entry × Sink :=
  match i.threshold with
  | .error e => (some e, [], k)
  | .ok threshold =>
    match Session.ofFile files i.config id openedAt ⟨threshold, []⟩ with
    | .error e => (some (.ofConfigError e), [], k)
    | .ok s =>
      let (failure, s, k) := match i.command with
        | .query => s.query files input k
        | .serve => s.serve files input k
      (failure, s.close.entries, k)

end Invocation
end FlatQuery
