import FlatQuery.Proofs.Service.Serve

/-!
Serving requests to a stream that has room for so many bytes only. Up to these bytes nothing is
different, and the request whose response does not fit is the last one that is handled. The main
statement is `Session.serve_limited`.
-/

namespace FlatQuery

namespace Sink

-- A stream that was given the same bytes, with room for `n` bytes in all.
def limit (k : Sink) (n : Nat) (fault : Fault) : Sink where
  written := k.written.take n
  room := some (n - k.written.length)
  fault := fault

variable {k : Sink} {n : Nat} {fault : Fault}

theorem limit_empty : limit {} n fault = { room := some n, fault } := by
  simp [limit]

-- It makes no difference in which pieces some bytes are written.
theorem write_append (k : Sink) (as bs : List UInt8) :
    k.write (as ++ bs) = if (k.write as).1 then (k.write as).2.write bs else k.write as := by
  cases hr : k.room
  case none => simp [write, hr]
  case some m =>
    by_cases hm : as.length ≤ m
    case pos =>
      simp [write, hr, hm, List.take_append, List.take_of_length_le hm, Nat.sub_sub,
        Nat.le_sub_iff_add_le' hm]
    case neg =>
      have h₁ : ¬as.length + bs.length ≤ m := by omega
      have h₂ : m - as.length = 0 := by omega
      have h₃ : m - (as.length + bs.length) = 0 := by omega
      simp [write, hr, hm, List.take_append, h₁, h₂, h₃]

theorem write_limit (h : k.written.length ≤ n) (bytes : List UInt8) :
    (k.limit n fault).write bytes =
    (decide ((k.put bytes).written.length ≤ n), (k.put bytes).limit n fault) := by
  simp [write, limit, put, List.take_append, Nat.sub_sub, Nat.le_sub_iff_add_le' h]

-- What comes behind the bytes that there is room for does not matter.
theorem limit_put (h : n ≤ k.written.length) (bytes : List UInt8) :
    (k.put bytes).limit n fault = k.limit n fault := by
  have h₁ : n - k.written.length = 0 := by omega
  have h₂ : n - (k.written.length + bytes.length) = 0 := by omega
  simp [limit, put, List.take_append, h₁, h₂]

end Sink

namespace Response

-- A response is written if its line fits.
theorem write_eq_write_line (response : Json) (k : Sink) :
    (write response k).2 = (k.write (line response)).2 ∧
    ((k.write (line response)).1 → (write response k).1 = none) ∧
    (¬(k.write (line response)).1 →
      ∃ f, (write response k).1 = some f ∧ f.code = "CSVQ_CLI_IO_ERROR") := by
  rw [line, Sink.write_append]
  simp only [write]
  split
  case h_1 k' hw => simp [hw]; rfl
  case h_2 k' hw =>
    simp only [hw, ↓reduceIte]
    split
    case h_1 k'' hw' => simp [hw']; rfl
    case h_2 k'' hw' => simp [hw']

end Response

namespace Session

-- What serving to a stream with room for `n` bytes comes to, where it comes to `x` without a limit.
structure Limited (n : Nat) (fault : Fault) (x y : Option Failure × Session × Sink) : Prop where
  session : y.2.1 = x.2.1
  sink    : y.2.2 = x.2.2.limit n fault
  fits    : x.2.2.written.length ≤ n → y.1 = x.1
  full    : n < x.2.2.written.length → ∃ f, y.1 = some f ∧ f.code = "CSVQ_CLI_IO_ERROR"

variable {files : Files} {s : Session} {k : Sink} {n : Nat} {line : String}

namespace Limited

variable {fault : Fault} {x y : Option Failure × Session × Sink}

theorem eq_of_fits (h : Limited n fault x y) (hx : x.2.2.written.length ≤ n) :
    y = (x.1, x.2.1, x.2.2.limit n fault) :=
  Prod.ext (h.fits hx) (Prod.ext h.session h.sink)

theorem eq_of_full (h : Limited n fault x y) (hx : n < x.2.2.written.length) :
    ∃ f, f.code = "CSVQ_CLI_IO_ERROR" ∧ y = (some f, x.2.1, x.2.2.limit n fault) := by
  obtain ⟨f, hf, hc⟩ := h.full hx
  exact ⟨f, hc, Prod.ext hf (Prod.ext h.session h.sink)⟩

end Limited

section

variable (hk : k.room = none) (hn : k.written.length ≤ n) (fault : Fault)
include hk hn

theorem Limited.responded (response : Json) (s : Session) :
    Limited n fault (s.responded response k) (s.responded response (k.limit n fault)) := by
  obtain ⟨hs, ho, hf⟩ := Response.write_eq_write_line response (k.limit n fault)
  rw [Sink.write_limit hn] at hs ho hf
  rw [responded_unlimited hk]
  exact ⟨rfl, hs, fun h => ho (by simpa using h), fun h => hf (by simpa using h)⟩

theorem Limited.respond (result : Except Failure Json) (s : Session) :
    Limited n fault (s.respond result k) (s.respond result (k.limit n fault)) := by
  cases result
  case ok data => exact .responded hk hn fault _ s
  case error e =>
    simp only [Session.respond]
    split
    case isTrue  => exact ⟨rfl, rfl, fun _ => rfl, fun h => absurd hn (Nat.not_le.mpr h)⟩
    case isFalse => exact .responded hk hn fault _ _

theorem Limited.answer (files : Files) (line : String) (s : Session) :
    Limited n fault (s.answer files line k) (s.answer files line (k.limit n fault)) := by
  simp only [Session.answer]
  cases Request.read line
  case error      => exact .respond hk hn fault _ s
  case ok request => exact .respond hk hn fault _ _

end

-- An answer with all the room it needs, and what is served behind it.
theorem answer_eq (hk : k.room = none) (hb : ¬line.toList.all Text.isBlank) (files : Files)
    (s : Session) :
    s.answer files line k =
    (none, (s.answer files line k).2.1, k.put (Response.line (s.answerTo files line))) :=
  (answer_unlimited hk hb s).eq

theorem serveLines_of_answer {t : Session} {k' : Sink} (hb : ¬line.toList.all Text.isBlank)
    (h : s.answer files line k = (none, t, k')) (lines : List (Except Fault String)) :
    s.serveLines files (.ok line :: lines) k = t.serveLines files lines k' := by
  rw [serveLines_of_not_blank hb, h, andServe]

-- A service only adds to its output.
theorem serveLines_put (hk : k.room = none) (files : Files) (lines : List (Except Fault String))
    (s : Session) : ∃ output, (s.serveLines files lines k).2.2 = k.put output := by
  induction lines generalizing s k with
  | nil => exact ⟨[], (k.put_nil).symm⟩
  | cons line lines ih =>
    cases line
    case error fault => exact ⟨_, by rw [serveLines, Response.write_unlimited hk]⟩
    case ok line =>
      by_cases hb : line.toList.all Text.isBlank
      case pos => simpa only [serveLines_of_blank hb] using ih hk s
      case neg =>
        rw [serveLines_of_answer hb (answer_eq hk hb files s)]
        obtain ⟨output, ho⟩ := ih (k := k.put _) hk _
        exact ⟨_, ho.trans (k.put_append ..).symm⟩

-- The limit is reached with the response to the line of number `j`, which is the last one that is
-- served.
structure StopsAt (files : Files) (n : Nat) (lines : List (Except Fault String)) (s : Session)
    (k : Sink) (y : Option Failure × Session × Sink) (j : Nat) : Prop where
  failure : ∃ f, y.1 = some f ∧ f.code = "CSVQ_CLI_IO_ERROR"
  session : y.2.1 = (s.serveLines files (lines.take (j + 1)) k).2.1
  before  : (s.serveLines files (lines.take j) k).2.2.written.length ≤ n
  behind  : n < (s.serveLines files (lines.take (j + 1)) k).2.2.written.length

-- What serving lines to a stream with room for `n` bytes comes to.
structure ServesUpTo (files : Files) (n : Nat) (fault : Fault)
    (lines : List (Except Fault String)) (s : Session) (k : Sink)
    (x y : Option Failure × Session × Sink) : Prop where
  sink  : y.2.2 = x.2.2.limit n fault
  fits  : x.2.2.written.length ≤ n → y.1 = x.1 ∧ y.2.1 = x.2.1
  stops : n < x.2.2.written.length → ∃ j, StopsAt files n lines s k y j

namespace ServesUpTo

variable {fault : Fault} {l : Except Fault String} {lines : List (Except Fault String)}
  {t : Session} {k' : Sink} {x y : Option Failure × Session × Sink}

-- The first line is served within the limit.
theorem cons (h : ServesUpTo files n fault lines t k' x y)
    (hl : ∀ ls, s.serveLines files (l :: ls) k = t.serveLines files ls k') :
    ServesUpTo files n fault (l :: lines) s k x y where
  sink := h.sink
  fits := h.fits
  stops hx := by
    obtain ⟨j, hf, hs, hb, ha⟩ := h.stops hx
    refine ⟨j + 1, hf, ?_, ?_, ?_⟩
    all_goals
      rw [List.take_succ_cons, hl]
      assumption

-- The response to the first line does not fit.
theorem head {f : Failure} {g : Option Failure} (hn : k.written.length ≤ n)
    (hl : s.serveLines files [l] k = (g, t, k')) (hk' : n < k'.written.length)
    (hx : ∃ output, x.2.2 = k'.put output) (hy : y = (some f, t, k'.limit n fault))
    (hf : f.code = "CSVQ_CLI_IO_ERROR") : ServesUpTo files n fault (l :: lines) s k x y := by
  obtain ⟨output, hx⟩ := hx
  have hlen : n < x.2.2.written.length := by
    rw [hx, Sink.put, List.length_append]
    omega
  have hl : s.serveLines files ((l :: lines).take 1) k = (g, t, k') := hl
  refine ⟨?_, fun h => absurd h (Nat.not_le.mpr hlen), fun _ => ⟨0, ⟨f, ?_, hf⟩, ?_, hn, ?_⟩⟩
  · rw [hx, hy, Sink.limit_put (Nat.le_of_lt hk')]
  · rw [hy]
  · rw [hy, hl]
  · rw [hl]
    exact hk'

end ServesUpTo

theorem serveLines_limit (hk : k.room = none) (hn : k.written.length ≤ n) (fault : Fault)
    (files : Files) (lines : List (Except Fault String)) (s : Session) :
    ServesUpTo files n fault lines s k (s.serveLines files lines k)
      (s.serveLines files lines (k.limit n fault)) := by
  induction lines generalizing s k with
  | nil => exact ⟨rfl, fun _ => ⟨rfl, rfl⟩, fun h => absurd hn (Nat.not_le.mpr h)⟩
  | cons l lines ih =>
    cases l
    case error e =>
      have hw := Limited.responded hk hn fault (Response.error (.ofFault e)) s
      simp only [serveLines_of_fault]
      by_cases h : (s.responded (Response.error (.ofFault e)) k).2.2.written.length ≤ n
      case pos =>
        rw [hw.eq_of_fits h]
        exact ⟨rfl, fun _ => ⟨rfl, rfl⟩, fun hl => absurd h (Nat.not_le.mpr hl)⟩
      case neg =>
        obtain ⟨f, hc, hy⟩ := hw.eq_of_full (Nat.not_le.mp h)
        rw [hy]
        exact .head hn (serveLines_of_fault ..) (Nat.not_le.mp h) ⟨[], (Sink.put_nil _).symm⟩ rfl hc
    case ok line =>
      by_cases hb : line.toList.all Text.isBlank
      case pos =>
        rw [serveLines_of_blank hb, serveLines_of_blank hb]
        exact (ih hk hn s).cons (serveLines_of_blank hb)
      case neg =>
        have ha := Limited.answer hk hn fault files line s
        rw [answer_eq hk hb files s] at ha
        have hs := serveLines_of_answer hb (answer_eq hk hb files s)
        by_cases h : (k.put (Response.line (s.answerTo files line))).written.length ≤ n
        case pos =>
          rw [hs, serveLines_of_answer hb (ha.eq_of_fits h)]
          exact (ih (k := k.put _) hk h _).cons hs
        case neg =>
          obtain ⟨f, hc, hy⟩ := ha.eq_of_full (Nat.not_le.mp h)
          refine .head hn (hs []) (Nat.not_le.mp h) ?_ ?_ hc
          · rw [hs]
            exact serveLines_put (k := k.put _) hk files lines _
          · rw [serveLines_of_not_blank hb, hy]
            rfl

-- Serving to a stream with room for `n` bytes in all, where `full` is what is written without a
-- limit:
-- (1) The first `n` bytes of `full` are written, which are all if there are no more.
-- (2) If there is room for `full`, there is no other difference.
-- (3) Otherwise the response to a line does not fit. This ends the program, and the session is that
--     behind this line: what comes next on the input is not served.
theorem serve_limited (files : Files) (input : Source) (s : Session) (n : Nat) (fault : Fault) :
    let unlimited := s.serve files input {}
    let limited := s.serve files input { room := some n, fault }
    let full := unlimited.2.2.written
    let firstLines (j : Nat) := s.announce.serveLines files (input.lines.take j) {}
    limited.2.2.written = full.take n ∧
    (full.length ≤ n → limited.1 = unlimited.1 ∧ limited.2.1 = unlimited.2.1) ∧
    (n < full.length → ∃ j f, limited.1 = some f ∧ f.code = "CSVQ_CLI_IO_ERROR" ∧
      (firstLines j).2.2.written.length ≤ n ∧ n < (firstLines (j + 1)).2.2.written.length ∧
      limited.2.1 = (firstLines (j + 1)).2.1) := by
  intro unlimited limited full firstLines
  have h := serveLines_limit (k := {}) rfl (Nat.zero_le n) fault files input.lines s.announce
  rw [Sink.limit_empty] at h
  refine ⟨congrArg Sink.written h.sink, h.fits, fun hf => ?_⟩
  obtain ⟨j, ⟨f, hy, hc⟩, hs, hb, ha⟩ := h.stops hf
  exact ⟨j, f, hy, hc, hb, ha, hs⟩

-- There is room for the first one of two responses, and for two bytes of the other.
theorem serve_limited_second_response :
    let files : Files := {
      openFile := fun _ => .error (.system "gone")
      contents := fun _ => ⟨[], none⟩
    }
    let input := ["\x7b\x7d", "x"].flatMap fun text => Text.Utf8.encode text.toList ++ [Row.lf]
    let first := Response.line (Response.error (.ofRequestError .tableMissing))
    let second := Response.line (Response.error (.ofRequestError (.json ⟨.value, 0⟩)))
    let room := first.length + 2
    ∃ s f t k, Session.start {} "" "" ⟨.fatal, []⟩ = .ok s ∧
      (s.serve files ⟨input, none⟩ {}).2.2.written = first ++ second ∧
      s.serve files ⟨input, none⟩ { room := some room } = (some f, t, k) ∧
      f.code = "CSVQ_CLI_IO_ERROR" ∧ k.written = first ++ second.take 2 := by
  intro files input first second room
  obtain ⟨s, hs⟩ : ∃ s, Session.start {} "" "" ⟨.fatal, []⟩ = .ok s := ⟨_, rfl⟩
  have hl (bytes : List UInt8) : Source.lines ⟨input ++ bytes, none⟩ =
      ["\x7b\x7d", "x"].map .ok ++ Source.lines ⟨bytes, none⟩ :=
    Source.lines_written (by simp)
  have hi : Source.lines ⟨input, none⟩ = ["\x7b\x7d", "x"].map .ok := by
    simpa [Source.lines_of_not_mem] using hl []
  have ha : s.announce.answers files (nonBlank ["\x7b\x7d", "x"]) =
      [Response.error (.ofRequestError .tableMissing),
        Response.error (.ofRequestError (.json ⟨.value, 0⟩))] := rfl
  have hf : (s.serve files ⟨input, none⟩ {}).2.2.written = first ++ second := by
    rw [serve, hi, (serveLines_unlimited files rfl ["\x7b\x7d", "x"] s.announce).sink, ha]
    simp [Sink.put, first, second]
  have hn : room < (s.serve files ⟨input, none⟩ {}).2.2.written.length := by
    have hs : second = 0x7B :: 0x22 :: 0x73 :: second.drop 3 := rfl
    rw [hf, hs]
    simp [room]
  obtain ⟨hk, _, hj⟩ := serve_limited files ⟨input, none⟩ s room (.system "")
  obtain ⟨_, f, hy, hc, _⟩ := hj hn
  refine ⟨s, f, _, _, hs, hf, Prod.ext hy rfl, hc, hk.trans ?_⟩
  rw [hf, List.take_append, List.take_of_length_le (Nat.le_add_right ..), Nat.add_sub_cancel_left]

end Session
end FlatQuery
