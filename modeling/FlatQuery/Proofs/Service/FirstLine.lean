import FlatQuery.Proofs.Json.Locality
import FlatQuery.Proofs.Service.Serve

/-!
The request on the first line of a stream. It is answered alone as it is answered by a service that
reads nothing but this line, although one of them reads the end of the line too and the other one
does not. The main statement is `Session.query_like_serve`.
-/

namespace FlatQuery

-- How a line of a stream can end. Where nothing ends it, nothing follows it.
inductive LineEnd
  | none
  | lf
  | crlf

def LineEnd.chars : LineEnd → List Char
  | none => []
  | lf   => ['\n']
  | crlf => ['\r', '\n']

variable {e : LineEnd} {text w : List Char} {rest : List UInt8} {fault : Option Fault}

theorem LineEnd.isBlank_chars : ∀ c ∈ e.chars, Json.isBlank c := by
  cases e <;> simp [LineEnd.chars, Json.isBlank]

namespace Text

theorem isBlank_of_json {c : Char} (h : Json.isBlank c) : isBlank c := by
  simp only [Json.isBlank, Bool.or_eq_true, beq_iff_eq, or_assoc] at h
  obtain rfl | rfl | rfl | rfl := h <;> decide

theorem all_isBlank_append (hw : ∀ c ∈ w, Json.isBlank c) :
    (text ++ w).all isBlank = text.all isBlank := by
  have hw : w.all isBlank := List.all_eq_true.mpr fun c hc => isBlank_of_json (hw c hc)
  rw [List.all_append, hw, Bool.and_true]

namespace Utf8

-- A carriage return is the last byte of a text only where it is the last character.
theorem dropCr_encode (s : List Char) :
    ∃ t w, s = t ++ w ∧ (∀ c ∈ w, Json.isBlank c) ∧ Row.dropCr (encode s) = encode t := by
  by_cases hl : (encode s).getLast? = some Row.cr
  case neg => exact ⟨s, [], by simp, by simp, if_neg hl⟩
  case pos =>
    obtain rfl | ⟨t, c, rfl⟩ := s.eq_nil_or_concat
    case inl => cases hl
    case inr =>
      have hc : c = '\r' := by
        have hm : Row.cr ∈ encodeChar c := by
          obtain ⟨b, bs, he, -⟩ := next_encodeChar c []
          rw [List.concat_eq_append, encode_append, encode_cons, List.getLast?_append] at hl
          apply List.mem_of_getLast?
          simpa [encode, he, List.getLast?_cons] using hl
        exact ((mem_encodeChar_iff (by decide)).mp hm).symm
      have he : encode (t.concat c) = encode t ++ [Row.cr] := by
        rw [hc, List.concat_eq_append, encode_append]
        rfl
      refine ⟨t, ['\r'], by simp [hc], by simp [Json.isBlank], ?_⟩
      rw [he, Row.dropCr_concat]

end Utf8
end Text

namespace Source

theorem firstLine_lf (h : '\n' ∉ text) (rest : List UInt8) (fault : Option Fault) :
    firstLine ⟨Text.Utf8.encode (text ++ ['\n']) ++ rest, fault⟩ =
    .ok (.ofList (text ++ ['\n'])) := by
  have he : Text.Utf8.encode (text ++ ['\n']) = Text.Utf8.encode text ++ [Row.lf] :=
    Text.Utf8.encode_append text ['\n']
  rw [←decodeText_encode, he, List.append_assoc, List.singleton_append,
    firstLine_cons (lf_not_mem_encode h)]

-- The first line is read with its end.
theorem firstLine_encode (h : '\n' ∉ text) (he : e = .none → rest = [] ∧ fault = none) :
    firstLine ⟨Text.Utf8.encode (text ++ e.chars) ++ rest, fault⟩ =
    .ok (.ofList (text ++ e.chars)) := by
  cases e
  case none =>
    obtain ⟨rfl, rfl⟩ := he rfl
    rw [LineEnd.chars, List.append_nil, List.append_nil,
      firstLine_of_not_mem (lf_not_mem_encode h), decodeText_encode]
  case lf   => exact firstLine_lf h rest fault
  case crlf =>
    have h : '\n' ∉ text ++ ['\r'] := by simpa using h
    simpa [LineEnd.chars] using firstLine_lf h rest fault

theorem lines_lf (h : '\n' ∉ text) :
    lines ⟨Text.Utf8.encode (text ++ ['\n']), none⟩ =
    [Files.decodeText (Row.dropCr (Text.Utf8.encode text))] := by
  have he : Text.Utf8.encode (text ++ ['\n']) = Text.Utf8.encode text ++ [Row.lf] :=
    Text.Utf8.encode_append text ['\n']
  rw [he, lines_cons (lf_not_mem_encode h), lines_of_not_mem List.not_mem_nil]
  rfl

-- A line that is served alone is read without its end, up to blanks.
theorem lines_encode (h : '\n' ∉ text) (hn : text ≠ []) (e : LineEnd) :
    ∃ t w, text = t ++ w ∧ (∀ c ∈ w, Json.isBlank c) ∧
      lines ⟨Text.Utf8.encode (text ++ e.chars), none⟩ = [.ok (.ofList t)] := by
  cases e
  case none =>
    have hne : Text.Utf8.encode text ≠ [] := fun he =>
      hn (by rw [←Text.Utf8.decodeLossy_encode text, he, Text.Utf8.decodeLossy])
    refine ⟨text, [], by simp, by simp, ?_⟩
    rw [LineEnd.chars, List.append_nil, lines_of_not_mem (lf_not_mem_encode h)]
    simp only [if_neg hne, decodeText_encode]
  case lf =>
    obtain ⟨t, w, ht, hw, hd⟩ := Text.Utf8.dropCr_encode text
    exact ⟨t, w, ht, hw, by rw [LineEnd.chars, lines_lf h, hd, decodeText_encode]⟩
  case crlf =>
    have h' : '\n' ∉ text ++ ['\r'] := by simpa using h
    have hl := lines_lf h'
    rw [List.append_assoc] at hl
    have he : Text.Utf8.encode (text ++ ['\r']) = Text.Utf8.encode text ++ [Row.cr] :=
      Text.Utf8.encode_append text ['\r']
    refine ⟨text, [], by simp, by simp, ?_⟩
    exact hl.trans (by rw [he, Row.dropCr_concat, decodeText_encode])

end Source

-- Two responses that say the same, in which at most the words about a line that is no JSON text
-- differ.
inductive SameResponse : Json → Json → Prop
  | refl (response : Json) : SameResponse response response
  | notJson (e e' : Json.Error) :
    SameResponse (Response.error (.ofRequestError (.json e)))
      (Response.error (.ofRequestError (.json e')))

namespace Session

theorem requestsOn_append_blanks (hw : ∀ c ∈ w, Json.isBlank c) :
    requestsOn [.ofList (text ++ w)] = requestsOn [.ofList text] := by
  simp only [requestsOn, List.filterMap_cons, List.filterMap_nil,
    Json.parse_append_blanks hw text]

theorem answerTo_append_blanks (hw : ∀ c ∈ w, Json.isBlank c) (files : Files) (s : Session) :
    SameResponse (s.answerTo files (.ofList (text ++ w))) (s.answerTo files (.ofList text)) := by
  have hp := Json.parse_append_blanks hw text
  simp only [answerTo]
  cases ht : Json.parse (.ofList text) <;> cases htw : Json.parse (.ofList (text ++ w)) <;>
    rw [ht, htw] at hp
  case error.error e e' => exact .notJson e' e
  case error.ok | ok.error => cases hp
  case ok.ok request request' =>
    cases hp
    exact .refl _

theorem andServe_nil (files : Files) (x : Option Failure × Session × Sink) :
    andServe files [] x = x := by
  obtain ⟨f, t, k⟩ := x
  cases f <;> rfl

theorem SameService.of_responded {response : Json} {s : Session} {k : Sink}
    {x : Option Failure × Session × Sink} (h : SameService (s.responded response k) x) :
    Alike s x.2.1 ∧ (x.1, x.2.2) = Response.write response k :=
  ⟨h.session, Prod.ext h.failure h.sink⟩

-- A query on the first line of a stream comes to the same as serving a stream of this line alone,
-- whatever ends the line in the two streams, and whatever follows it in the first one:
-- 1. The sessions that are left differ at most in what they have reported.
-- 2. Both write one response, and the responses say the same.
-- 3. A response is a single line.
-- 4. Where the output has room for everything, all of the response is written without a failure.
theorem query_like_serve (files : Files) (text : List Char) (h : '\n' ∉ text)
    (hb : ¬text.all Text.isBlank) (e e' : LineEnd) (rest : List UInt8) (fault : Option Fault)
    (he : e = .none → rest = [] ∧ fault = none) (s : Session) (k : Sink) :
    let query := s.query files ⟨Text.Utf8.encode (text ++ e.chars) ++ rest, fault⟩ k
    let serve := s.serve files ⟨Text.Utf8.encode (text ++ e'.chars), none⟩ k
    Alike query.2.1 serve.2.1 ∧
    ∃ response response', SameResponse response response' ∧
      (query.1, query.2.2) = Response.write response k ∧
      (serve.1, serve.2.2) = Response.write response' k ∧
      Row.lines (Response.line response) = [Response.line response] ∧
      Row.lines (Response.line response') = [Response.line response'] ∧
      (k.room = none →
        query.1 = none ∧ query.2.2 = k.put (Response.line response) ∧
        serve.1 = none ∧ serve.2.2 = k.put (Response.line response')) := by
  have hn : text ≠ [] := by
    rintro rfl
    exact hb rfl
  obtain ⟨t, w, rfl, hw, hl⟩ := Source.lines_encode h hn e'
  have hw' : ∀ c ∈ w ++ e.chars, Json.isBlank c := by
    intro c hc
    exact (List.mem_append.mp hc).elim (hw c) (LineEnd.isBlank_chars c)
  have hbs : ¬(String.ofList t).toList.all Text.isBlank := by
    rwa [String.toList_ofList, ←Text.all_isBlank_append hw]
  have hbq : ¬(String.ofList (t ++ (w ++ e.chars))).toList.all Text.isBlank := by
    rwa [String.toList_ofList, Text.all_isBlank_append hw', ←Text.all_isBlank_append hw]
  have ha : Alike s s.announce := .withJournal ..
  have hq : SameService _ (s.answer files _ k) := answer_responded hbq s k
  have hs : SameService _ (s.announce.answer files _ k) :=
    (answer_responded hbs s k).trans (ha.answer_congr files _ k)
  rw [requestsOn_append_blanks hw'] at hq
  simp only [query, serve, Source.firstLine_encode h he, hl, serveLines_of_not_blank hbs,
    andServe_nil]
  rw [List.append_assoc]
  obtain ⟨haq, hwq⟩ := hq.of_responded
  obtain ⟨has, hws⟩ := hs.of_responded
  refine ⟨haq.symm.trans has, _, _, answerTo_append_blanks hw' files s, hwq, hws, ?_, ?_,
    fun hk => ?_⟩
  · simpa using Response.lines_flatMap_line [_]
  · simpa using Response.lines_flatMap_line [_]
  · rw [responded_unlimited hk] at hq hs
    exact ⟨hq.failure, hq.sink, hs.failure, hs.sink⟩

-- What follows the line is no text, and then the stream breaks. Only the query comes across a line
-- break in looking for the closing bracket.
theorem query_like_serve_open_bracket :
    let files : Files := {
      openFile := fun _ => .error (.system "gone")
      contents := fun _ => ⟨[], none⟩
    }
    let onLine (e : LineEnd) : List UInt8 := Text.Utf8.encode (['['] ++ e.chars)
    let broken : Source := ⟨onLine .crlf ++ [0xFF], some (.system "broken")⟩
    let alone : Source := ⟨onLine .none, none⟩
    ∃ s response response', Session.start {} "" "" ⟨.fatal, []⟩ = .ok s ∧
      SameResponse response response' ∧
      (s.query files broken {}).1 = none ∧
      (s.query files broken {}).2.2.written = Response.line response ∧
      (s.serve files alone {}).1 = none ∧
      (s.serve files alone {}).2.2.written = Response.line response' ∧
      Alike (s.query files broken {}).2.1 (s.serve files alone {}).2.1 := by
  intro files onLine broken alone
  obtain ⟨s, hs⟩ : ∃ s, Session.start {} "" "" ⟨.fatal, []⟩ = .ok s := ⟨_, rfl⟩
  obtain ⟨ha, response, response', hr, -, -, -, -, hk⟩ := query_like_serve files ['[']
    (by decide) (by decide) .crlf .none [0xFF] (some (.system "broken")) (by simp) s {}
  obtain ⟨hq, hw, hv, hw'⟩ := hk rfl
  exact ⟨s, response, response', hs, hr, hq, congrArg Sink.written hw, hv,
    congrArg Sink.written hw', ha⟩

end Session
end FlatQuery
