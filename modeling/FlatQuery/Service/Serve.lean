import FlatQuery.Service.Request
import FlatQuery.Service.Sink

/-!
Answering requests that stand on the lines of a stream, each with one line of JSON.
-/

namespace FlatQuery

namespace Response

def ok (data : Json) : Json :=
  .object [("status", .string "ok"), ("data", data)]

def error (f : Failure) : Json :=
  .object [("status", .string "error"), ("code", .string f.code), ("message", .string f.message)]

-- Writes a response and a line feed. Where it does not fit, this is returned as a failure. What is
-- written has reached the stream, so that no flush has to follow, and none can fail.
def write (response : Json) (k : Sink) : Option Failure × Sink :=
  match k.write (Text.Utf8.encode response.chars) with
  | (false, k) => (some (.io ("Failed to write response: " ++ k.fault.message)), k)
  | (true, k) =>
    match k.write [Row.lf] with
    | (false, k) => (some (.ofFault k.fault), k)
    | (true, k) => (none, k)

end Response

-- The lines of a stream as texts, without the line feed or the carriage return and line feed that
-- end them. Where a line cannot be read, or is no text, there is a fault.
-- Nothing follows a fault of the stream itself.
def Source.lines (s : Source) : List (Except Fault String) :=
  match _h : Row.splitLine s.bytes with
  | (line, some rest) => Files.decodeText (Row.dropCr line) :: lines { s with bytes := rest }
  | (line, none) =>
    match s.fault with
    | some f => [.error f]
    | none => if line = [] then [] else [Files.decodeText line]
termination_by s.bytes.length
decreasing_by exact Row.length_splitLine (by assumption)

-- The first line of a stream as a text, with all that ends it. An empty stream has an empty one.
def Source.firstLine (s : Source) : Except Fault String :=
  match Row.splitLine s.bytes with
  | (line, some _) => Files.decodeText (line ++ [Row.lf])
  | (line, none) =>
    match s.fault with
    | some f => .error f
    | none => Files.decodeText line

namespace Session

-- Writes the response to a request. A request that failed is reported, but a failure that ends the
-- program is not answered.
def respond (result : Except Failure Json) (s : Session) (k : Sink) :
    Option Failure × Session × Sink :=
  match result with
  | .ok data =>
    let (failure, k) := Response.write (Response.ok data) k
    (failure, s, k)
  | .error e =>
    if e.isFatal then (some e, s, k)
    else
      let entry : Log.Entry := {
        severity := .warn
        event := Log.Event.requestRejected.name
        fields := [("code", e.code), ("message", e.message)]
      }
      let (failure, k) := Response.write (Response.error e) k
      (failure, { s with journal := s.journal.add entry }, k)

-- Answers the request on a line.
def answer (files : Files) (line : String) (s : Session) (k : Sink) :
    Option Failure × Session × Sink :=
  match Request.read line with
  | .error e => s.respond (.error (.ofRequestError e)) k
  | .ok request =>
    let (result, s) := s.handle files request
    s.respond result k

-- Answers the requests on lines until one cannot be read or answered. Blank lines are passed over.
def serveLines (files : Files) (lines : List (Except Fault String)) (s : Session) (k : Sink) :
    Option Failure × Session × Sink :=
  match lines with
  | [] => (none, s, k)
  | .error fault :: _ =>
    let e := Failure.ofFault fault
    let (failure, k) := Response.write (Response.error e) k
    (some (failure.getD e), s, k)
  | .ok line :: lines =>
    if line.toList.all Text.isBlank then s.serveLines files lines k
    else
      match s.answer files line k with
      | (some e, s, k) => (some e, s, k)
      | (none, s, k) => s.serveLines files lines k

-- Reports that requests are served from now on.
def announce (s : Session) : Session :=
  s.report .serving [("session", s.id)]

-- Answers all requests of a stream.
def serve (files : Files) (input : Source) (s : Session) (k : Sink) :
    Option Failure × Session × Sink :=
  s.announce.serveLines files input.lines k

-- Answers the request on the first line of a stream.
def query (files : Files) (input : Source) (s : Session) (k : Sink) :
    Option Failure × Session × Sink :=
  match input.firstLine with
  | .error fault => s.respond (.error (.ofFault fault)) k
  | .ok line => s.answer files line k

end Session
end FlatQuery
