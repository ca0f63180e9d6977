import FlatQuery.Proofs.Session.History
import FlatQuery.Service.Request

/-!
Requests that fail, and what they leave behind. A request that is refused for what it says never
comes to a table. How far any other one came can be told from its code, but for one code, which a
file that cannot be rewound has in common with a stream that breaks. The main statement is
`Session.handle_failed`.
-/

namespace FlatQuery

theorem Metrics.recordFailure_recordCursor (m : Metrics) (wasOpen : Bool) :
    (m.recordCursor wasOpen).recordFailure =
    if wasOpen then
      { m with scansFailed := m.scansFailed + 1, cursorsRewound := m.cursorsRewound + 1 }
    else { m with scansFailed := m.scansFailed + 1, cursorsOpened := m.cursorsOpened + 1 } := by
  cases wasOpen <;> rfl

-- The failures for which nothing but the request itself is to blame.
inductive Failure.Refusal : Failure → Prop
  | request (e : RequestError) : Refusal (ofRequestError e)
  | query (e : QueryError) : Refusal (ofQueryError e)
  | schema (e : SchemaError) : Refusal (ofSchemaError e)

theorem Failure.Refusal.code_mem {f : Failure} (h : f.Refusal) :
    f.code ∈ ["CSVQ_CLI_REQUEST_ERROR", "CSVQ_INVALID_QUERY", "CSVQ_SCHEMA_EMPTY",
      "CSVQ_SCHEMA_BLANK_FIELD"] := by
  cases h
  case request  => simp [ofRequestError, code]
  case query    => simp [ofQueryError, code, QueryError.code]
  case schema e => cases e <;> simp [ofSchemaError, code, SchemaError.code]

theorem Failure.Refusal.not_isFatal {f : Failure} (h : f.Refusal) : ¬f.isFatal := by
  cases h <;> simp [isFatal, ofRequestError, ofQueryError, ofSchemaError]

-- The stream of a table broke while it was scanned.
def Failure.OfStream (f : Failure) : Prop :=
  ∃ table e, f = ofTableError (.broken table e)

-- The file of a table that is open could not be rewound, so that no scan began.
def Failure.OfRewinding (f : Failure) : Prop :=
  ∃ table path fault, f = ofTableError (.notRewound table path fault)

theorem Failure.OfStream.code_eq {f : Failure} (h : f.OfStream) : f.code = "CSVQ_READ_FAILED" := by
  obtain ⟨_, _, rfl⟩ := h
  rfl

theorem Failure.OfRewinding.code_eq {f : Failure} (h : f.OfRewinding) :
    f.code = "CSVQ_READ_FAILED" := by
  obtain ⟨_, _, _, rfl⟩ := h
  rfl

-- The two have different messages.
theorem Failure.OfStream.not_ofRewinding {f : Failure} (h : f.OfStream) : ¬f.OfRewinding := by
  obtain ⟨table, e, rfl⟩ := h
  rintro ⟨table', path, fault, h⟩
  have hm : "Read failed at line " ++ toString e.line ++ ": " ++ e.fault.message =
      "Failed to rewind " ++ path := congrArg message h
  simp [←String.toList_inj] at hm

-- What is said of the two goes without saying for a failure with another code.
theorem Failure.of_code_ne {f : Failure} (h : f.code ≠ "CSVQ_READ_FAILED") {P Q : Prop} :
    (f.code = "CSVQ_READ_FAILED" → f.OfStream ∨ f.OfRewinding) ∧ (f.OfRewinding → P) ∧
    (f.OfStream → Q) :=
  ⟨fun hc => absurd hc h, fun hr => absurd hr.code_eq h, fun hs => absurd hs.code_eq h⟩

namespace Request

variable {request : Json} {members : List (String × Json)} {f : Failure}

theorem schema?_refusal (h : schema? members = .error f) : f.Refusal := by
  simp only [schema?] at h
  split at h
  case h_1 | h_2 => cases h
  case h_3 v _ _ _ =>
    split at h
    case h_1 =>
      cases h
      exact .request _
    case h_2 names _ =>
      obtain ⟨e, _, rfl⟩ := error_of_mapError (error_of_map h)
      exact .schema e

theorem parts_refusal (h : parts request = .error f) : f.Refusal := by
  obtain h | ⟨members, _, h⟩ := error_of_bind h
  case inl =>
    obtain ⟨e, _, rfl⟩ := error_of_mapError h
    exact .request e
  obtain h | ⟨table, _, h⟩ := error_of_bind h
  case inl =>
    obtain ⟨e, _, rfl⟩ := error_of_mapError h
    exact .request e
  obtain h | ⟨q, _, h⟩ := error_of_bind h
  case inl =>
    obtain ⟨e, _, rfl⟩ := error_of_mapError h
    exact .query e
  obtain h | ⟨schema, _, h⟩ := error_of_bind h
  case inl => exact schema?_refusal h
  case inr => cases h

end Request

namespace Session

-- What has been reported does not show in the answer to a request.
theorem Alike.handle_congr {s t : Session} (h : Alike s t) (files : Files) (request : Json) :
    (t.handle files request).1 = (s.handle files request).1 ∧
    Alike (s.handle files request).2 (t.handle files request).2 := by
  simp only [handle]
  cases Request.parts request
  case error    => exact ⟨rfl, h⟩
  case ok parts =>
    obtain ⟨table, q, schema⟩ := parts
    cases schema
    case none =>
      obtain ⟨hr, ha⟩ := h.readTable_congr files table q
      simp only [hr]
      exact ⟨trivial, ha⟩
    case some schema =>
      obtain ⟨hr, ha⟩ := h.read_congr files table schema q
      simp only [hr]
      exact ⟨trivial, ha⟩

-- How a read of a table can fail, and what it has done to the session by then.
inductive FailedRead (s : Session) (table : String) (q : Query) : TableError → Session → Prop
  | invalidName : FailedRead s table q (.invalidName table) s
  | unknown : FailedRead s table q (.unknown table) s
  | unavailable {t : Session} (path : String) (fault : Fault) :
    Alike s.refused t → FailedRead s table q (.unavailable table path fault) t
  | notRewound {t : Session} (path : String) (fault : Fault) :
    s.isOpen table → Alike s.refused t → FailedRead s table q (.notRewound table path fault) t
  | broken {t : Session} (c : Cursor) (e : ReadError) :
    Alike { s with
      window  := s.window.forQuery q
      cursors := putCursor table c s.cursors
      metrics := (s.metrics.recordCursor (s.isOpen table)).recordFailure } t →
    FailedRead s table q (.broken table e) t

variable {files : Files} {request : Json} {table : String} {schema : Schema} {q : Query}
  {s t : Session} {e : TableError} {f : Failure}

theorem read_failed (h : s.read files table schema q = (.error e, t)) :
    FailedRead s table q e t := by
  cases s.readCase files table schema q
  case invalidName _ hr =>
    cases h.symm.trans hr
    exact .invalidName
  case refused _ _ hf hr ha =>
    simp only [h, Except.error.injEq] at hr ha
    rcases fileBehind_eq_error hf with ⟨c, fault, hc, -, rfl⟩ | ⟨fault, -, -, rfl⟩
    case inl => exact hr ▸ .notRewound _ fault (by simp [isOpen, hc]) ha
    case inr => exact hr ▸ .unavailable _ fault ha
  case scanned file _ _ hr ha =>
    simp only [h] at hr ha
    obtain ⟨e, _, rfl⟩ := error_of_mapError hr.symm
    simp only [Session.scanned, ←hr, Metrics.recordResult] at ha
    exact .broken _ e ha

theorem readTable_failed (h : s.readTable files table q = (.error e, t)) :
    FailedRead s table q e t := by
  cases hs : s.config.tables.get? table
  case none =>
    rw [readTable_of_none hs] at h
    cases h
    exact .unknown
  case some => exact read_failed (readTable_of_some hs ▸ h)

-- A request that fails is either refused or comes to a table.
theorem handle_failure (h : s.handle files request = (.error f, t)) :
    (f.Refusal ∧ t = s) ∨
    ∃ table q schema e, Request.parts request = .ok (table, q, schema) ∧ f = .ofTableError e ∧
      FailedRead s table q e t := by
  simp only [handle] at h
  split at h
  case h_1 hp =>
    cases h
    exact .inl ⟨Request.parts_refusal hp, rfl⟩
  case h_2 table q schema hp =>
    simp only [Prod.mk.injEq] at h
    obtain ⟨hr, ht⟩ := h
    obtain ⟨e, he, rfl⟩ := error_of_mapError (error_of_map hr)
    refine .inr ⟨table, q, schema, e, hp, rfl, ?_⟩
    cases schema
    case none        => exact readTable_failed (Prod.ext he ht)
    case some schema => exact read_failed (Prod.ext he ht)

-- No request ends the program.
theorem handle_not_isFatal (h : s.handle files request = (.error f, t)) : ¬f.isFatal := by
  obtain ⟨hf, _⟩ | ⟨_, _, _, _, _, rfl, _⟩ := handle_failure h
  case inl => exact hf.not_isFatal
  case inr => exact Bool.false_ne_true

-- What a request that fails has changed apart from reports:
-- 1. Nothing at all if it was refused or its table is not known.
-- 2. A table that is unavailable only counts as a failure.
-- 3. The code for what cannot be read has two meanings.
-- 4. A table that is open and cannot be rewound only counts as a failure.
-- 5. Where the stream of a table breaks, the window has moved and the table is open.
theorem handle_failed (h : s.handle files request = (.error f, t)) :
    (f.code ≠ "CSVQ_SOURCE_UNAVAILABLE" → f.code ≠ "CSVQ_READ_FAILED" → t = s) ∧
    (f.code = "CSVQ_SOURCE_UNAVAILABLE" →
      t = { s with
        metrics := { s.metrics with scansFailed := s.metrics.scansFailed + 1 }
        journal := t.journal }) ∧
    (f.code = "CSVQ_READ_FAILED" → f.OfStream ∨ f.OfRewinding) ∧
    (f.OfRewinding →
      ∃ table q schema, Request.parts request = .ok (table, q, schema) ∧ s.isOpen table ∧
        t = { s with
          metrics := { s.metrics with scansFailed := s.metrics.scansFailed + 1 }
          journal := t.journal }) ∧
    (f.OfStream →
      ∃ table q schema, Request.parts request = .ok (table, q, schema) ∧
        t = { s with
          window  := s.window.forQuery q
          cursors := t.cursors
          metrics :=
            if s.isOpen table then
              { s.metrics with
                scansFailed := s.metrics.scansFailed + 1
                cursorsRewound := s.metrics.cursorsRewound + 1 }
            else
              { s.metrics with
                scansFailed := s.metrics.scansFailed + 1
                cursorsOpened := s.metrics.cursorsOpened + 1 }
          journal := t.journal } ∧
        t.isOpen table ∧ ∀ name ≠ table, t.cursors.lookup name = s.cursors.lookup name) := by
  obtain ⟨hf, rfl⟩ | ⟨table, q, schema, e, hp, rfl, hr⟩ := handle_failure h
  case inl =>
    have hc := hf.code_mem
    refine ⟨fun _ _ => rfl, fun h => ?_, Failure.of_code_ne fun h => ?_⟩ <;> simp [h] at hc
  case inr =>
    have hc : (Failure.ofTableError e).code = e.code := rfl
    cases hr
    case invalidName | unknown =>
      refine ⟨fun _ _ => rfl, ?_, Failure.of_code_ne ?_⟩ <;> simp [hc, TableError.code]
    case unavailable ha =>
      refine ⟨fun h => absurd rfl h, fun _ => ha.eq_withJournal, Failure.of_code_ne ?_⟩
      simp [hc, TableError.code]
    case notRewound path fault ho ha =>
      have hw : (Failure.ofTableError (.notRewound table path fault)).OfRewinding := ⟨_, _, _, rfl⟩
      refine ⟨fun _ h => absurd rfl h, ?_, fun _ => .inr hw, fun _ => ?_,
        fun h => absurd hw h.not_ofRewinding⟩
      · simp [hc, TableError.code, ReadError.code]
      · exact ⟨table, q, schema, hp, ho, ha.eq_withJournal⟩
    case broken c e ha =>
      have hw : (Failure.ofTableError (.broken table e)).OfStream := ⟨_, _, rfl⟩
      refine ⟨fun _ h => absurd rfl h, ?_, fun _ => .inl hw,
        fun h => absurd h hw.not_ofRewinding, fun _ => ⟨table, q, schema, hp, ?_, ?_, ?_⟩⟩
      · simp [hc, TableError.code, ReadError.code]
      · rw [ha.cursors, ←Metrics.recordFailure_recordCursor]
        exact ha.eq_withJournal
      · simp [isOpen, ha.cursors, lookup_putCursor]
      · intro name hn
        simp [ha.cursors, lookup_putCursor, hn]

-- The table is still open when its stream breaks a second time, and stays open when it cannot be
-- rewound after that.
theorem handle_failed_thrice :
    let request : Json := .object [("table", .string "t"), ("schema", .array [.string "n"])]
    let broken : Files := {
      openFile := fun _ => .ok 0
      contents := fun _ => ⟨[], some (.system "broken")⟩
    }
    let piped : Files := { broken with rewindFault := fun _ => some (.system "piped") }
    ∃ s t u v f g, Session.start {} "" "" ⟨.fatal, []⟩ = .ok s ∧
      s.handle broken request = (.error f, t) ∧ t.handle broken request = (.error f, u) ∧
      u.handle piped request = (.error g, v) ∧ f.OfStream ∧ g.OfRewinding ∧
      f.code = "CSVQ_READ_FAILED" ∧ g.code = "CSVQ_READ_FAILED" ∧ t.isOpen "t" ∧ v.isOpen "t" ∧
      t.metrics = { scansFailed := 1, cursorsOpened := 1 } ∧
      u.metrics = { scansFailed := 2, cursorsOpened := 1, cursorsRewound := 1 } ∧
      v.metrics = { scansFailed := 3, cursorsOpened := 1, cursorsRewound := 1 } := by
  intro request broken piped
  obtain ⟨s, hs⟩ : ∃ s, Session.start {} "" "" ⟨.fatal, []⟩ = .ok s := ⟨_, rfl⟩
  obtain ⟨_, hc, _, hcs, hm⟩ := start_eq_ok hs
  have hp : Request.parts request = .ok ("t", {}, some ⟨["n"], by decide, by decide⟩) := rfl
  have breaks (t : Session) (ht : ∃ file, t.fileBehind broken "t" = .ok file) :
      (t.handle broken request).1 =
      .error (.ofTableError (.broken "t" ⟨0, .system "broken"⟩)) := by
    obtain ⟨file, hf⟩ := ht
    have hn (d : UInt8) : Row.Reader.next d ⟨broken.contents file, 0⟩ =
        .failed ⟨0, .system "broken"⟩ := by
      rw [Row.Reader.next, Row.gather.eq_def]
      rfl
    simp only [handle, hp, (read_of_file _ _ (by decide) hf).left, scanResult, Window.scan, Scan.run,
      hn]
    rfl
  have hf : s.fileBehind broken "t" = .ok 0 := by
    rw [fileBehind, hcs, filePath, hc]
    rfl
  have h₁ : s.handle broken request = (_, (s.handle broken request).2) :=
    Prod.ext (breaks s ⟨0, hf⟩) rfl
  generalize (s.handle broken request).2 = t at h₁
  obtain ⟨_, _, _, hp₁, he₁, ho₁, _⟩ := (handle_failed h₁).2.2.2.2 ⟨_, _, rfl⟩
  cases hp.symm.trans hp₁
  obtain ⟨c, hl⟩ := Option.isSome_iff_exists.mp ho₁
  have h₂ : t.handle broken request = (_, (t.handle broken request).2) :=
    Prod.ext (breaks t ⟨c.file, fileBehind_of_open hl⟩) rfl
  generalize (t.handle broken request).2 = u at h₂
  obtain ⟨_, _, _, hp₂, he₂, ho₂, _⟩ := (handle_failed h₂).2.2.2.2 ⟨_, _, rfl⟩
  cases hp.symm.trans hp₂
  obtain ⟨d, hl⟩ := Option.isSome_iff_exists.mp ho₂
  have hr : (u.handle piped request).1 =
      .error (.ofTableError (.notRewound "t" (u.filePath "t") (.system "piped"))) := by
    have he : u.fileBehind piped "t" = .error (.notRewound "t" _ (.system "piped")) :=
      fileBehind_of_open hl
    simp only [handle, hp, (read_of_error _ _ (by decide) he).left]
    rfl
  have h₃ : u.handle piped request = (_, (u.handle piped request).2) := Prod.ext hr rfl
  generalize (u.handle piped request).2 = v at h₃
  obtain ⟨_, _, _, hp₃, _, he₃⟩ := (handle_failed h₃).2.2.2.1 ⟨_, _, _, rfl⟩
  have hm₁ : t.metrics = { scansFailed := 1, cursorsOpened := 1 } := by
    rw [he₁, isOpen, hcs, hm]
    rfl
  have hm₂ : u.metrics = { scansFailed := 2, cursorsOpened := 1, cursorsRewound := 1 } := by
    rw [he₂, ho₁, hm₁]
    rfl
  refine ⟨s, t, u, v, _, _, hs, h₁, h₂, h₃, ⟨_, _, rfl⟩, ⟨_, _, _, rfl⟩, rfl, rfl, ho₁, ?_, hm₁,
    hm₂, ?_⟩
  · rw [he₃]
    exact ho₂
  · rw [he₃, hm₂]

end Session

end FlatQuery
