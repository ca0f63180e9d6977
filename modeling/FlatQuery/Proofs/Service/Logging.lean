import FlatQuery.Proofs.Session.Logging
import FlatQuery.Service.Program

/-!
The log threshold changes nothing but the log, whatever a session is used for. The main statement is
`Session.trial_sifted`.
-/

namespace FlatQuery

namespace Config

variable {high : Log.Severity} {j k : Log.Journal}

theorem read_agree (h : Log.Journal.Coarser high j k) (text : String) :
    SameOutcome (Log.Agree high) (Config.read text j) (Config.read text k) := by
  refine (SameOutcome.refl (parse text)).bind fun {c d} hc => ?_
  obtain rfl := hc
  exact (check_agree h c).bind fun {a b} ha => .ok ⟨rfl, ha.journal⟩

theorem load_agree (h : Log.Journal.Coarser high j k) (files : Files) (path : String) :
    SameOutcome (Log.Agree high) (load files path j) (load files path k) := by
  refine (SameOutcome.refl _).bind fun {text text'} ht => ?_
  obtain rfl := ht
  refine (read_agree h text).bind fun {a b} ha => .ok ?_
  obtain ⟨c, j⟩ := a
  obtain ⟨d, k⟩ := b
  obtain ⟨hc, h⟩ := ha
  obtain rfl : d = c := hc
  exact ⟨rfl, h.report .configLoaded rfl⟩

end Config

namespace Session

variable {high : Log.Severity}

-- The same failure and the same output of two sessions of which the second one has a coarser log.
structure Served (high : Log.Severity) (a b : Option Failure × Session × Sink) : Prop where
  failure : b.1 = a.1
  session : Coarser high a.2.1 b.2.1
  sink    : b.2.2 = a.2.2

theorem ofFile_coarser {j k : Log.Journal} (h : Log.Journal.Coarser high j k) (files : Files)
    (path id id' openedAt openedAt' : String) :
    SameOutcome (Coarser high) (ofFile files path id openedAt j)
      (ofFile files path id' openedAt' k) := by
  refine (Config.load_agree h files path).bind fun {a b} ha => ?_
  obtain ⟨c, j⟩ := a
  obtain ⟨d, k⟩ := b
  obtain ⟨hc, h⟩ := ha
  obtain rfl : d = c := hc
  exact start_coarser h d id id' openedAt openedAt'

namespace Coarser

variable {s t : Session}

theorem handle (h : Coarser high s t) (files : Files) (request : Json) :
    Agree high (s.handle files request) (t.handle files request) := by
  simp only [Session.handle]
  split
  case h_1 => exact ⟨rfl, h⟩
  case h_2 table q schema _ =>
    cases schema with
    | none =>
      obtain ⟨hr, hs⟩ : Agree high (s.readTable files table q) (t.readTable files table q) :=
        h.readTable
      exact ⟨by simp only [hr], hs⟩
    | some schema =>
      obtain ⟨hr, hs⟩ : Agree high (s.read files table schema q) (t.read files table schema q) :=
        h.read
      exact ⟨by simp only [hr], hs⟩

theorem respond (h : Coarser high s t) (result : Except Failure Json) (k : Sink) :
    Served high (s.respond result k) (t.respond result k) := by
  cases result
  case ok data => exact ⟨rfl, h, rfl⟩
  case error e =>
    simp only [Session.respond]
    split
    case isTrue  => exact ⟨rfl, h, rfl⟩
    case isFalse => exact ⟨rfl, { h with journal := h.journal.addAll rfl }, rfl⟩

theorem answer (h : Coarser high s t) (files : Files) (line : String) (k : Sink) :
    Served high (s.answer files line k) (t.answer files line k) := by
  simp only [Session.answer]
  split
  case h_1 => exact h.respond _ k
  case h_2 request _ =>
    obtain ⟨hr, hs⟩ := h.handle files request
    rw [hr]
    exact hs.respond _ k

theorem serveLines (h : Coarser high s t) (files : Files) (lines : List (Except Fault String))
    (k : Sink) : Served high (s.serveLines files lines k) (t.serveLines files lines k) := by
  induction lines generalizing s t k with
  | nil => exact ⟨rfl, h, rfl⟩
  | cons line lines ih =>
    cases line
    case error fault => exact ⟨rfl, h, rfl⟩
    case ok line     =>
      simp only [Session.serveLines]
      split
      case isTrue  => exact ih h k
      case isFalse =>
        have ha := h.answer files line k
        generalize s.answer files line k = a at ha ⊢
        generalize t.answer files line k = b at ha ⊢
        obtain ⟨f, s, k⟩ := a
        obtain ⟨f', t, k'⟩ := b
        obtain ⟨hf, hs, hk⟩ := ha
        obtain rfl : f' = f := hf
        obtain rfl : k' = k := hk
        cases f'
        case none   => exact ih hs k'
        case some e => exact ⟨rfl, hs, rfl⟩

theorem serve (h : Coarser high s t) (files : Files) (input : Source) (k : Sink) :
    Served high (s.serve files input k) (t.serve files input k) :=
  Coarser.serveLines (h.report .serving (by rfl)) files input.lines k

theorem query (h : Coarser high s t) (files : Files) (input : Source) (k : Sink) :
    Served high (s.query files input k) (t.query files input k) := by
  simp only [Session.query]
  split
  case h_1 => exact h.respond _ k
  case h_2 => exact h.answer files _ k

end Coarser

-- How a session comes about: over a configuration, or over one that is in a file.
inductive Opening
  | config (c : Config)
  | file (files : Files) (path : String)

def Opening.session (id openedAt : String) (j : Log.Journal) :
    Opening → Except ConfigError Session
  | config c        => start c id openedAt j
  | file files path => ofFile files path id openedAt j

-- What a session can be used for.
inductive Task
  | operation (files : Files) (op : Operation)
  | query (files : Files) (input : Source) (k : Sink)
  | serve (files : Files) (input : Source) (k : Sink)

inductive Answer
  | reply (r : Reply)
  | served (failure : Option Failure) (k : Sink)

def doTask (s : Session) : Task → Answer × Session
  | .operation files op  => (.reply (s.reply files op), s.perform files op)
  | .query files input k =>
    let (failure, s, k) := s.query files input k
    (.served failure k, s)
  | .serve files input k =>
    let (failure, s, k) := s.serve files input k
    (.served failure k, s)

-- Tasks one after another.
def doTasks (s : Session) : List Task → List Answer × Session
  | []            => ([], s)
  | task :: tasks =>
    let (answer, s) := s.doTask task
    let (answers, s) := s.doTasks tasks
    (answer :: answers, s)

-- What is seen of a session that has been used: its answers, and the state in which it is left.
structure Seen where
  answers : List Answer
  window : Window
  cursors : List (String × Cursor)
  metrics : Metrics

-- Opens a session, uses it and closes it. Apart from what is seen there is a log.
def trial (o : Opening) (tasks : List Task) (id openedAt : String) (threshold : Log.Severity) :
    Except ConfigError (Seen × List Log.Entry) := do
  let s ← o.session id openedAt ⟨threshold, []⟩
  let (answers, s) := s.doTasks tasks
  return (⟨answers, s.window, s.cursors, s.metrics⟩, s.close.entries)

namespace Coarser

variable {s t : Session}

theorem doTask (h : Coarser high s t) (task : Task) :
    Agree high (s.doTask task) (t.doTask task) := by
  cases task
  case operation files op =>
    obtain ⟨hr, hs⟩ := h.perform files op
    exact ⟨congrArg Answer.reply hr, hs⟩
  case query files input k =>
    obtain ⟨hf, hs, hk⟩ := h.query files input k
    exact ⟨by simp only [Session.doTask, hf, hk], hs⟩
  case serve files input k =>
    obtain ⟨hf, hs, hk⟩ := h.serve files input k
    exact ⟨by simp only [Session.doTask, hf, hk], hs⟩

theorem doTasks (h : Coarser high s t) (tasks : List Task) :
    Agree high (s.doTasks tasks) (t.doTasks tasks) := by
  induction tasks generalizing s t with
  | nil => exact ⟨rfl, h⟩
  | cons task tasks ih =>
    obtain ⟨hr, hs⟩ := h.doTask task
    obtain ⟨hrs, hs⟩ := ih hs
    exact ⟨by simp only [Session.doTasks, hr, hrs], hs⟩

end Coarser

theorem Opening.session_coarser {j k : Log.Journal} (h : Log.Journal.Coarser high j k) (o : Opening)
    (id id' openedAt openedAt' : String) :
    SameOutcome (Coarser high) (o.session id openedAt j) (o.session id' openedAt' k) := by
  cases o
  case config c        => exact start_coarser h c id id' openedAt openedAt'
  case file files path => exact ofFile_coarser h files path id id' openedAt openedAt'

-- Two trials of which the second one has the coarser log.
theorem trial_coarser (o : Opening) (tasks : List Task) (id id' openedAt openedAt' : String)
    {low : Log.Severity} (h : low.rank ≤ high.rank) :
    SameOutcome (fun a b => b.1 = a.1 ∧ b.2.map Log.Entry.masked =
        (a.2.filter (high.rank ≤ ·.severity.rank)).map Log.Entry.masked)
      (trial o tasks id openedAt low) (trial o tasks id' openedAt' high) := by
  refine (Opening.session_coarser (.start h) o id id' openedAt openedAt').bind fun {s t} hs => ?_
  obtain ⟨hr, hs⟩ := hs.doTasks tasks
  refine .ok ⟨?_, hs.close.entries⟩
  simp only [hr, hs.window, hs.cursors, hs.metrics]

-- A session does the same under all thresholds, whatever its id is and whenever it is opened:
-- (1) It is refused with the same error, or answers the same and is left in the same state.
-- (2) Its log has the entries of the log that keeps everything, in their order, save those that are
--     not severe enough.
theorem trial_sifted (o : Opening) (tasks : List Task) :
    (∀ (threshold threshold' : Log.Severity) (id id' openedAt openedAt' : String),
      (trial o tasks id openedAt threshold).map (·.1) =
      (trial o tasks id' openedAt' threshold').map (·.1)) ∧
    (∀ (threshold : Log.Severity) (id id' openedAt openedAt' : String),
      (trial o tasks id openedAt threshold).map (·.2.map Log.Entry.masked) =
      (trial o tasks id' openedAt' .trace).map fun r =>
        (r.2.filter (threshold.rank ≤ ·.severity.rank)).map Log.Entry.masked) := by
  have traced (threshold : Log.Severity) (id id' openedAt openedAt' : String) :=
    trial_coarser o tasks id' id openedAt' openedAt threshold.trace_rank_le
  refine ⟨?_, ?_⟩
  · intro threshold threshold' id id' openedAt openedAt'
    have h := (traced threshold id id openedAt openedAt).map_eq And.left
    have h' := (traced threshold' id' id openedAt' openedAt).map_eq And.left
    exact h.trans h'.symm
  · intro threshold id id' openedAt openedAt'
    exact (traced threshold id id' openedAt openedAt').map_eq And.right

-- A file that cannot be opened fails the scan. That is the one thing that is severe enough here.
example :
    let schema : Schema := ⟨["n"], by decide, by decide⟩
    let gone : Files := {
      openFile := fun _ => .error (.system "gone")
      contents := fun _ => ⟨[], none⟩
    }
    (trial (.config {}) [.operation gone (.read "t" schema {})] "1" "now" .error).map (·.2) =
      .ok [⟨.error, "SCAN_FAILED",
        [("code", "CSVQ_SOURCE_UNAVAILABLE"), ("session", "1"), ("table", "t")]⟩] := by
  rfl

end Session

-- The same goes for the whole program: for its failure, its log and its output.
theorem Invocation.execute_sifted (files : Files) (input : Source) (k : Sink) (i : Invocation)
    (id id' openedAt openedAt' : String) {severity : Log.Severity}
    (h : i.threshold = .ok severity) :
    let run := i.execute files input id openedAt k
    let traced := { i with logLevel := "trace" }.execute files input id' openedAt' k
    run.1 = traced.1 ∧ run.2.2 = traced.2.2 ∧
    run.2.1.map Log.Entry.masked =
      (traced.2.1.filter (severity.rank ≤ ·.severity.rank)).map Log.Entry.masked := by
  obtain ⟨command, config, logLevel⟩ := i
  have hn : Log.Severity.ofName? "trace" = some .trace := by decide
  have ht : threshold ⟨command, config, "trace"⟩ = .ok .trace := by simp only [threshold, hn]
  have ho := Session.ofFile_coarser (.start severity.trace_rank_le) files config id' id openedAt'
    openedAt
  simp only [execute, h, ht]
  generalize Session.ofFile files config id openedAt ⟨severity, []⟩ = x at ho ⊢
  generalize Session.ofFile files config id' openedAt' ⟨.trace, []⟩ = y at ho ⊢
  cases ho
  case error e => exact ⟨rfl, rfl, rfl⟩
  case ok s t ho =>
    cases command
    case query =>
      obtain ⟨hf, hs, hk⟩ := ho.query files input k
      exact ⟨hf, hk, hs.close.entries⟩
    case serve =>
      obtain ⟨hf, hs, hk⟩ := ho.serve files input k
      exact ⟨hf, hk, hs.close.entries⟩

end FlatQuery
