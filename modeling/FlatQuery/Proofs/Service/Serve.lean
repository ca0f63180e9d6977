import FlatQuery.Proofs.Json.Printer
import FlatQuery.Proofs.Service.Input
import FlatQuery.Proofs.Service.Request
import FlatQuery.Proofs.Text.Utf8

/-!
Serving requests line by line. Every line that is not blank gets one line of output, and a bad one
does not disturb those behind it. The main statement is `Session.serve_answers_every_line`.
-/

namespace FlatQuery

namespace Sink

-- A stream to which all of some bytes have been written.
def put (k : Sink) (bytes : List UInt8) : Sink :=
  { k with written := k.written ++ bytes }

theorem put_nil (k : Sink) : k.put [] = k := by
  simp only [put, List.append_nil]

theorem put_append (k : Sink) (as bs : List UInt8) : k.put (as ++ bs) = (k.put as).put bs := by
  simp only [put, List.append_assoc]

end Sink

namespace Response

-- What is answered to a request with some result.
def of : Except Failure Json → Json
  | .ok data => ok data
  | .error f => error f

-- A response as it is written.
def line (response : Json) : List UInt8 :=
  Text.Utf8.encode response.chars ++ [Row.lf]

theorem lf_not_mem_encode (response : Json) : Row.lf ∉ Text.Utf8.encode response.chars :=
  fun h => (Json.plain_chars response).lf_not_mem (Text.Utf8.mem_encode_iff (by decide) |>.mp h)

theorem lines_flatMap_line (responses : List Json) :
    Row.lines (responses.flatMap line) = responses.map line := by
  induction responses with
  | nil => rfl
  | cons r responses ih =>
    rw [List.flatMap_cons, line, List.append_assoc, List.singleton_append,
      Row.lines_append (lf_not_mem_encode r), ih, List.map_cons, line]

theorem write_unlimited {k : Sink} (h : k.room = none) (response : Json) :
    write response k = (none, k.put (line response)) := by
  simp [write, Sink.write, h, Sink.put, line]

end Response

namespace Session

-- The session behind some requests.
def afterRequests (files : Files) (s : Session) (requests : List Json) : Session :=
  requests.foldl (fun s request => (s.handle files request).2) s

-- The requests on some lines. A line that is no JSON text holds none.
def requestsOn (lines : List String) : List Json :=
  lines.filterMap fun line => (Json.parse line).toOption

-- What a session answers to a line that is not blank.
def answerTo (files : Files) (s : Session) (line : String) : Json :=
  match Json.parse line with
  | .error e    => Response.error (.ofRequestError (.json e))
  | .ok request => Response.of (s.handle files request).1

-- The answers to lines that are not blank. Each one is given by the session behind the requests on
-- the lines before.
def answers (files : Files) (s : Session) (lines : List String) : List Json :=
  lines.mapIdx fun i line => (s.afterRequests files (requestsOn (lines.take i))).answerTo files line

-- The lines that are not blank.
def nonBlank (lines : List String) : List String :=
  lines.filter fun line => !line.toList.all Text.isBlank

-- A service that comes to one response.
def responded (response : Json) (s : Session) (k : Sink) : Option Failure × Session × Sink :=
  ((Response.write response k).1, s, (Response.write response k).2)

-- Serves more lines behind a service that has not failed.
def andServe (files : Files) (lines : List (Except Fault String)) :
    Option Failure × Session × Sink → Option Failure × Session × Sink
  | (none, s, k)   => s.serveLines files lines k
  | (some f, s, k) => (some f, s, k)

-- Two ways to serve with the same output that leave sessions which are alike.
structure SameService (x y : Option Failure × Session × Sink) : Prop where
  failure : y.1 = x.1
  session : Alike x.2.1 y.2.1
  sink    : y.2.2 = x.2.2

theorem SameService.eq {x y : Option Failure × Session × Sink} (h : SameService x y) :
    y = (x.1, y.2.1, x.2.2) :=
  Prod.ext h.failure (Prod.ext rfl h.sink)

theorem SameService.trans {x y z : Option Failure × Session × Sink} (h : SameService x y)
    (h' : SameService y z) : SameService x z where
  failure := h'.failure.trans h.failure
  session := h.session.trans h'.session
  sink    := h'.sink.trans h.sink

variable {files : Files} {line : String} {s t : Session} {k : Sink}

section Alike

variable (h : Alike s t)
include h

theorem Alike.respond_congr (result : Except Failure Json) (k : Sink) :
    SameService (s.respond result k) (t.respond result k) := by
  cases result
  case ok data => exact ⟨rfl, h, rfl⟩
  case error f =>
    simp only [respond]
    split
    case isTrue  => exact ⟨rfl, h, rfl⟩
    case isFalse => exact ⟨rfl, (Alike.withJournal ..).symm.trans (h.trans (.withJournal ..)), rfl⟩

theorem Alike.answer_congr (files : Files) (line : String) (k : Sink) :
    SameService (s.answer files line k) (t.answer files line k) := by
  simp only [answer]
  cases Request.read line
  case error => exact h.respond_congr _ k
  case ok request =>
    obtain ⟨hr, ha⟩ := h.handle_congr files request
    simp only [hr]
    exact ha.respond_congr _ k

end Alike

theorem serveLines_of_blank (h : line.toList.all Text.isBlank) (lines : List (Except Fault String)) :
    s.serveLines files (.ok line :: lines) k = s.serveLines files lines k := by
  simp only [serveLines, h, ↓reduceIte]

theorem serveLines_of_not_blank (h : ¬line.toList.all Text.isBlank)
    (lines : List (Except Fault String)) :
    s.serveLines files (.ok line :: lines) k = andServe files lines (s.answer files line k) := by
  simp only [serveLines, h, Bool.false_eq_true, ↓reduceIte]
  obtain ⟨f, t, k'⟩ := s.answer files line k
  cases f <;> rfl

theorem serveLines_of_fault (fault : Fault) (lines : List (Except Fault String)) (s : Session)
    (k : Sink) :
    s.serveLines files (.error fault :: lines) k =
      let f := Failure.ofFault fault
      let x := s.responded (Response.error f) k
      (some (x.1.getD f), x.2) :=
  rfl

theorem SameService.andServe_of_forall {x y : Option Failure × Session × Sink}
    {lines : List (Except Fault String)} (h : SameService x y)
    (hl : ∀ (s t : Session) (k : Sink), Alike s t →
      SameService (s.serveLines files lines k) (t.serveLines files lines k)) :
    SameService (andServe files lines x) (andServe files lines y) := by
  obtain ⟨_, s, _⟩ := x
  obtain ⟨f, t, k⟩ := y
  obtain ⟨hf, ha, hk⟩ := h
  simp only at hf ha hk
  subst hf hk
  cases f
  case none   => exact hl s t k ha
  case some f => exact ⟨rfl, ha, rfl⟩

theorem Alike.serveLines_congr (h : Alike s t) (files : Files)
    (lines : List (Except Fault String)) (k : Sink) :
    SameService (s.serveLines files lines k) (t.serveLines files lines k) := by
  induction lines generalizing s t k with
  | nil => exact ⟨rfl, h, rfl⟩
  | cons line lines ih =>
    cases line
    case error fault => exact ⟨rfl, h, rfl⟩
    case ok line =>
      by_cases hb : line.toList.all Text.isBlank
      case pos => simpa only [serveLines_of_blank hb] using ih h k
      case neg =>
        simp only [serveLines_of_not_blank hb]
        exact (h.answer_congr files line k).andServe_of_forall fun _ _ k h => ih h k

theorem SameService.andServe {x y : Option Failure × Session × Sink} (h : SameService x y)
    (files : Files) (lines : List (Except Fault String)) :
    SameService (andServe files lines x) (andServe files lines y) :=
  h.andServe_of_forall fun _ _ k h => h.serveLines_congr files lines k

theorem serveLines_append (as bs : List (Except Fault String)) (s : Session) (k : Sink) :
    s.serveLines files (as ++ bs) k = andServe files bs (s.serveLines files as k) := by
  induction as generalizing s k with
  | nil => rfl
  | cons line as ih =>
    cases line
    case error => rfl
    case ok line =>
      by_cases hb : line.toList.all Text.isBlank
      case pos => simpa only [List.cons_append, serveLines_of_blank hb] using ih s k
      case neg =>
        simp only [List.cons_append, serveLines_of_not_blank hb]
        obtain ⟨f, t, k'⟩ := s.answer files line k
        cases f
        case none   => exact ih t k'
        case some f => rfl

theorem respond_responded (result : Except Failure Json)
    (hf : ∀ f, result = .error f → ¬f.isFatal) (s : Session) (k : Sink) :
    SameService (s.responded (Response.of result) k) (s.respond result k) := by
  cases result
  case ok data => exact ⟨rfl, .refl s, rfl⟩
  case error f =>
    simp only [respond, hf f rfl, Bool.false_eq_true, ↓reduceIte]
    exact ⟨rfl, .withJournal .., rfl⟩

-- A line that is not blank gets one response.
theorem answer_responded (hb : ¬line.toList.all Text.isBlank) (s : Session) (k : Sink) :
    SameService
      ((s.afterRequests files (requestsOn [line])).responded (s.answerTo files line) k)
      (s.answer files line k) := by
  simp only [answer, Request.read, hb, Bool.false_eq_true, ↓reduceIte, answerTo, requestsOn,
    List.filterMap_cons, List.filterMap_nil]
  cases Json.parse line
  case error e =>
    refine respond_responded (.error (.ofRequestError (.json e))) (fun f hf => ?_) s k
    exact Except.error.inj hf ▸ (Failure.Refusal.request (.json e)).not_isFatal
  case ok request =>
    refine respond_responded _ (fun f hf => ?_) _ k
    exact handle_not_isFatal (Prod.ext hf rfl)

theorem responded_unlimited (hk : k.room = none) (response : Json) (s : Session) :
    s.responded response k = (none, s, k.put (Response.line response)) := by
  rw [responded, Response.write_unlimited hk]

theorem answer_unlimited (hk : k.room = none) (hb : ¬line.toList.all Text.isBlank) (s : Session) :
    SameService
      (none, s.afterRequests files (requestsOn [line]),
        k.put (Response.line (s.answerTo files line)))
      (s.answer files line k) :=
  responded_unlimited hk .. ▸ answer_responded hb s k

theorem requestsOn_append (as bs : List String) :
    requestsOn (as ++ bs) = requestsOn as ++ requestsOn bs :=
  List.filterMap_append

theorem afterRequests_append (files : Files) (s : Session) (as bs : List Json) :
    s.afterRequests files (as ++ bs) = (s.afterRequests files as).afterRequests files bs :=
  List.foldl_append

theorem answers_cons (files : Files) (s : Session) (line : String) (lines : List String) :
    s.answers files (line :: lines) =
    s.answerTo files line :: (s.afterRequests files (requestsOn [line])).answers files lines := by
  simp only [answers, List.mapIdx_cons, List.take_zero, List.take_succ_cons]
  congr
  funext i l
  rw [←List.singleton_append, requestsOn_append, afterRequests_append]

-- Lines that can be read are answered one after the other.
theorem serveLines_unlimited (files : Files) (hk : k.room = none) (texts : List String)
    (s : Session) :
    SameService
      (none, s.afterRequests files (requestsOn (nonBlank texts)),
        k.put ((s.answers files (nonBlank texts)).flatMap Response.line))
      (s.serveLines files (texts.map .ok) k) := by
  induction texts generalizing s k with
  | nil => exact ⟨rfl, .refl s, (Sink.put_nil k).symm⟩
  -- The session behind the first answer is only alike to the one that the other answers come from,
  -- since a request that fails is reported.
  | cons text texts ih =>
    rw [List.map_cons]
    by_cases hb : text.toList.all Text.isBlank
    case pos =>
      have hw : nonBlank (text :: texts) = nonBlank texts := by simp [nonBlank, hb]
      rw [serveLines_of_blank hb, hw]
      exact ih hk s
    case neg =>
      have hw : nonBlank (text :: texts) = [text] ++ nonBlank texts := by simp [nonBlank, hb]
      have hk' : (k.put (Response.line (s.answerTo files text))).room = none := hk
      rw [serveLines_of_not_blank hb, hw, requestsOn_append, afterRequests_append,
        List.singleton_append, answers_cons, List.flatMap_cons, Sink.put_append]
      exact .trans (ih hk' _) ((answer_unlimited hk hb s).andServe files (texts.map .ok))

-- 1. Where every line can be read, serving comes to its end. There is one line of output for every
--    line that is not blank, and it holds the answer of the session behind the requests before.
-- 2. A line that cannot be read is reported on the last line of output and ends the program. What
--    stands behind it is not looked at.
-- 3. No request ends the program.
-- 4. Lines that have come to their end can be served before the others are there.
theorem serve_answers_every_line (files : Files) (input : Source) (s : Session) (k : Sink) :
    (∀ texts : List String, k.room = none → input.lines = texts.map .ok →
      ∃ output t, s.serve files input k = (none, t, { k with written := k.written ++ output }) ∧
        Row.lines output = (s.answers files (nonBlank texts)).map Response.line ∧
        Alike (s.afterRequests files (requestsOn (nonBlank texts))) t) ∧
    (∀ (texts : List String) (fault : Fault) (rest : List (Except Fault String)),
      k.room = none → input.lines = texts.map .ok ++ .error fault :: rest →
      ∃ output t f, s.serve files input k =
          (some f, t, { k with written := k.written ++ output }) ∧
        f = .ofFault fault ∧ f.isFatal ∧ f.code = "CSVQ_CLI_IO_ERROR" ∧
        Row.lines output =
          (s.answers files (nonBlank texts) ++ [Response.error f]).map Response.line ∧
        Alike (s.afterRequests files (requestsOn (nonBlank texts))) t) ∧
    (∀ (request : Json) (f : Failure) (t : Session),
      s.handle files request = (.error f, t) → ¬f.isFatal) ∧
    (∀ (a b : List UInt8) (fault : Option Fault), a.getLast? = some Row.lf →
      (∀ t k', s.serve files ⟨a, none⟩ k = (none, t, k') →
        SameService (t.serve files ⟨b, fault⟩ k') (s.serve files ⟨a ++ b, fault⟩ k)) ∧
      (∀ f t k', s.serve files ⟨a, none⟩ k = (some f, t, k') →
        s.serve files ⟨a ++ b, fault⟩ k = (some f, t, k'))) := by
  have ha : Alike s s.announce := .withJournal ..
  refine ⟨?readable, ?unreadable, fun _ _ _ h => handle_not_isFatal h, ?append⟩
  case readable =>
    intro texts hk hl
    have h := (serveLines_unlimited files hk texts s).trans
      (ha.serveLines_congr files _ k)
    simp only [serve, hl]
    exact ⟨_, _, h.eq, Response.lines_flatMap_line _, h.session⟩
  case unreadable =>
    intro texts fault rest hk hl
    -- The line that cannot be read is the first one behind those that can.
    have h := ((serveLines_unlimited files hk texts s).trans
      (ha.serveLines_congr files _ k)).andServe files (.error fault :: rest)
    have hk' : (k.put ((s.answers files (nonBlank texts)).flatMap Response.line)).room = none := hk
    rw [←serveLines_append, ←hl, andServe, serveLines, Response.write_unlimited hk',
      ←Sink.put_append] at h
    refine ⟨_, _, _, h.eq, rfl, rfl, rfl, ?_, h.session⟩
    rw [←Response.lines_flatMap_line, List.flatMap_append, List.flatMap_singleton]
    rfl
  case append =>
    intro a b fault h
    have hl : Source.lines ⟨a ++ b, fault⟩ = Source.lines ⟨a, none⟩ ++ Source.lines ⟨b, fault⟩ :=
      Source.lines_append (by simp [h])
    simp only [serve, hl, serveLines_append]
    refine ⟨fun t k' ht => ?_, fun f t k' ht => ?_⟩
    · rw [ht]
      exact (Alike.withJournal ..).symm.serveLines_congr files _ k'
    · rw [ht]
      rfl

-- A request without a table, a blank line and a line that is no JSON text. They are served alone, and
-- then with lines behind them of which the first one is no text at all.
theorem serve_answers_every_line_up_to_broken_one :
    let onLines (texts : List String) : List UInt8 :=
      texts.flatMap fun text => Text.Utf8.encode text.toList ++ [Row.lf]
    let files : Files := {
      openFile := fun _ => .error (.system "gone")
      contents := fun _ => ⟨[], none⟩
    }
    let good := onLines ["\x7b\x7d", " ", "x"]
    let bad := [0xFF, Row.lf] ++ onLines ["\x7b\x7d"]
    let answered := [Response.error (.ofRequestError .tableMissing),
      Response.error (.ofRequestError (.json ⟨.value, 0⟩))]
    let broken : Failure := .ofFault .notUtf8
    ∃ s t u output output', Session.start {} "" "" ⟨.fatal, []⟩ = .ok s ∧
      s.serve files ⟨good, none⟩ {} = (none, t, { written := output }) ∧
      Row.lines output = answered.map Response.line ∧
      s.serve files ⟨good ++ bad, none⟩ {} = (some broken, u, { written := output' }) ∧
      Row.lines output' = (answered ++ [Response.error broken]).map Response.line ∧
      SameService (t.serve files ⟨bad, none⟩ { written := output })
        (s.serve files ⟨good ++ bad, none⟩ {}) ∧
      s.serve files ⟨good ++ bad ++ good, none⟩ {} = (some broken, u, { written := output' }) := by
  intro onLines files good bad answered broken
  obtain ⟨s, hs⟩ : ∃ s, Session.start {} "" "" ⟨.fatal, []⟩ = .ok s := ⟨_, rfl⟩
  have hl (bytes : List UInt8) : Source.lines ⟨good ++ bytes, none⟩ =
      ["\x7b\x7d", " ", "x"].map .ok ++ Source.lines ⟨bytes, none⟩ :=
    Source.lines_written (by simp)
  have hg : Source.lines ⟨good, none⟩ = ["\x7b\x7d", " ", "x"].map .ok := by
    simpa [Source.lines_of_not_mem] using hl []
  have hb : Source.lines ⟨bad, none⟩ =
      .error .notUtf8 :: Source.lines ⟨onLines ["\x7b\x7d"], none⟩ := by
    have hn : Row.lf ∉ [0xFF] := by decide
    have hd : Files.decodeText [0xFF] = .error .notUtf8 := by
      simp [Files.decodeText, Text.Utf8.decode?, Text.Utf8.next]
    rw [←hd]
    exact Source.lines_cons hn
  have ha : s.answers files (nonBlank ["\x7b\x7d", " ", "x"]) = answered := rfl
  obtain ⟨readable, _⟩ := serve_answers_every_line files ⟨good, none⟩ s {}
  obtain ⟨_, unreadable, _, append⟩ := serve_answers_every_line files ⟨good ++ bad, none⟩ s {}
  obtain ⟨output, t, h₁, ho₁, _⟩ := readable _ rfl hg
  obtain ⟨output', u, _, h₂, rfl, _, _, ho₂, _⟩ := unreadable _ _ _ rfl (hb ▸ hl bad)
  refine ⟨s, t, u, output, output', hs, h₁, ha ▸ ho₁, h₂, ha ▸ ho₂, ?_, ?_⟩
  · exact (append good bad none rfl).left t _ h₁
  · exact (append (good ++ bad) good none rfl).right _ u _ h₂

end Session
end FlatQuery
