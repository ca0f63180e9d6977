import FlatQuery.Proofs.Log.Journal
import FlatQuery.Proofs.Session.History

/-!
Sessions that differ in their log thresholds and in what is different in each run: their ids and the
times at which they were opened. Whatever one of them does the other one does as well, and there is
one theorem that says so for each operation.
-/

namespace FlatQuery

namespace Config

variable {high : Log.Severity} {j k : Log.Journal}

theorem check_agree (h : Log.Journal.Coarser high j k) (c : Config) :
    SameOutcome (Log.Agree high) (c.check j) (c.check k) := by
  refine (SameOutcome.refl c.validate).bind fun {a b} hd => .ok ?_
  obtain rfl := hd
  split
  case isTrue  => exact ⟨rfl, h⟩
  case isFalse => exact ⟨rfl, h.report .configWritable rfl⟩

end Config

namespace Session

-- Two sessions in the same state. The second one has the coarser log, which keeps what is as severe
-- as `high`.
structure Coarser (high : Log.Severity) (s t : Session) : Prop where
  config    : t.config = s.config
  delimiter : t.delimiter = s.delimiter
  window    : t.window = s.window
  cursors   : t.cursors = s.cursors
  metrics   : t.metrics = s.metrics
  journal   : Log.Journal.Coarser high s.journal t.journal

-- The same result of two such sessions, which are such sessions again behind it.
structure Agree {α : Type} (high : Log.Severity) (a b : α × Session) : Prop where
  result  : b.1 = a.1
  session : Coarser high a.2 b.2

variable {high : Log.Severity} {s t : Session} {files : Files} {table path : String}
  {schema : Schema} {q : Query}

namespace Coarser

section

variable (h : Coarser high s t)
include h

theorem report (event : Log.Event) {fields fields' : List (String × String)}
    (hf : fields'.map Log.maskField = fields.map Log.maskField) :
    Coarser high (s.report event fields) (t.report event fields') :=
  { h with journal := h.journal.report event hf }

theorem trace (event : Log.Event) {fields fields' : List (String × String)}
    (hf : fields'.map Log.maskField = fields.map Log.maskField) :
    Coarser high (s.trace event fields) (t.trace event fields') :=
  { h with journal := h.journal.addAll (by simp [Log.Entry.masked, hf]) }

theorem setCursor (c : Cursor) : Coarser high (s.setCursor table c) (t.setCursor table c) :=
  { h with cursors := by simp only [Session.setCursor, h.cursors] }

theorem withMetrics (f : Metrics → Metrics) :
    Coarser high { s with metrics := f s.metrics } { t with metrics := f t.metrics } :=
  { h with metrics := by simp only [h.metrics] }

theorem acquire : Agree high (s.acquire files table path) (t.acquire files table path) := by
  simp only [Session.acquire, h.cursors]
  split
  case h_1 c _ =>
    split
    case h_1 => exact ⟨rfl, h⟩
    case h_2 =>
      exact ⟨rfl, ((h.setCursor _).withMetrics Metrics.recordRewinding).trace .cursorRewind rfl⟩
  case h_2 =>
    split
    case h_1 => exact ⟨rfl, h⟩
    case h_2 file _ =>
      exact ⟨rfl, ((h.setCursor _).withMetrics Metrics.recordOpening).report .cursorOpen rfl⟩

theorem scan (c : Cursor) :
    Agree high (s.scan files table c schema q) (t.scan files table c schema q) := by
  simp only [Session.scan, h.window, h.delimiter]
  exact ⟨rfl, { h.setCursor _ with window := rfl, journal := h.journal.addAll rfl }⟩

theorem finish (result : Except TableError Scan.Output) :
    Coarser high (s.finish table result) (t.finish table result) := by
  cases result
  case ok o =>
    exact (h.withMetrics fun m => m.recordScan o.stats.linesRead o.stats.malformed o.stats.matched
      o.stats.returned).report .scanComplete rfl
  case error e => exact (h.withMetrics Metrics.recordFailure).report .scanFailed rfl

end

end Coarser

theorem Agree.finish {a b : Except TableError Scan.Output × Session} (h : Agree high a b) :
    Agree high (a.1, a.2.finish table a.1) (b.1, b.2.finish table b.1) where
  result  := h.result
  session := by
    rw [h.result]
    exact h.session.finish a.1

-- How a read goes on when it has asked for a cursor.
def scanWith (files : Files) (table : String) (schema : Schema) (q : Query) :
    Except TableError Cursor × Session → Except TableError Scan.Output × Session
  | (.ok c, s)    => s.scan files table c schema q
  | (.error e, s) => (.error e, s)

theorem Agree.scanWith {a b : Except TableError Cursor × Session} (h : Agree high a b) :
    Agree high (scanWith files table schema q a) (scanWith files table schema q b) := by
  obtain ⟨a, s⟩ := a
  obtain ⟨b, t⟩ := b
  obtain ⟨hr, h⟩ := h
  obtain rfl : b = a := hr
  cases b
  case error e => exact ⟨rfl, h⟩
  case ok c    => exact h.scan c

namespace Coarser

section

variable (h : Coarser high s t)
include h

theorem read : Agree high (s.read files table schema q) (t.read files table schema q) := by
  have hp : t.tablePath table = s.tablePath table := by simp only [tablePath, h.config]
  simp only [Session.read, hp, h.window]
  split
  case h_1 => exact ⟨rfl, h⟩
  case h_2 path _ =>
    exact (Coarser.acquire (h.trace .scanStart (by rfl))).scanWith.finish

theorem readTable : Agree high (s.readTable files table q) (t.readTable files table q) := by
  have hs : t.schema table = s.schema table := by simp only [Session.schema, h.config]
  simp only [Session.readTable, hs]
  split
  case h_1 => exact h.read
  case h_2 => exact ⟨rfl, h⟩

theorem closeTable : Agree high (s.closeTable table) (t.closeTable table) := by
  have ho : t.isOpen table = s.isOpen table := by simp only [isOpen, h.cursors]
  simp only [Session.closeTable, ho]
  split
  case isTrue  =>
    have hc : Coarser high (s.closed table) (t.closed table) :=
      { h with cursors := by simp only [closed, h.cursors] }
    exact ⟨rfl, hc.report .cursorClose rfl⟩
  case isFalse => exact ⟨rfl, h⟩

theorem resetWindow : Coarser high s.resetWindow t.resetWindow :=
  { h with window := by simp only [Session.resetWindow, h.window] }

-- What remains of the two sessions.
theorem close : Log.Journal.Coarser high s.close t.close := by
  rw [Session.close, Session.close, h.cursors]
  exact (h.report .sessionClose (by rfl)).journal

end

end Coarser

-- Two sessions that are started over one configuration.
theorem start_coarser {j k : Log.Journal} (h : Log.Journal.Coarser high j k) (c : Config)
    (id id' openedAt openedAt' : String) :
    SameOutcome (Coarser high) (start c id openedAt j) (start c id' openedAt' k) := by
  refine (c.check_agree h).bind fun {a b} hd => ?_
  obtain ⟨d, j⟩ := a
  obtain ⟨d', k⟩ := b
  obtain ⟨hd, h⟩ := hd
  obtain rfl : d' = d := hd
  refine .ok (Coarser.report ?_ .sessionOpen ?_)
  · exact ⟨rfl, rfl, rfl, rfl, rfl, h⟩
  · rfl

-- What an operation answers.
inductive Reply
  | scanned (result : Except TableError Scan.Output)
  | closed (wasOpen : Bool)
  | reset

def reply (files : Files) (s : Session) : Operation → Reply
  | .read table schema q => .scanned (s.read files table schema q).1
  | .readTable table q   => .scanned (s.readTable files table q).1
  | .closeTable table    => .closed (s.closeTable table).1
  | .resetWindow         => .reset

namespace Coarser

theorem perform (h : Coarser high s t) (files : Files) (op : Operation) :
    t.reply files op = s.reply files op ∧
      Coarser high (s.perform files op) (t.perform files op) := by
  cases op
  case read table schema q =>
    obtain ⟨hr, hs⟩ : Agree high (s.read files table schema q) (t.read files table schema q) :=
      h.read
    exact ⟨congrArg Reply.scanned hr, hs⟩
  case readTable table q =>
    obtain ⟨hr, hs⟩ : Agree high (s.readTable files table q) (t.readTable files table q) :=
      h.readTable
    exact ⟨congrArg Reply.scanned hr, hs⟩
  case closeTable table =>
    obtain ⟨hr, hs⟩ : Agree high (s.closeTable table) (t.closeTable table) := h.closeTable
    exact ⟨congrArg Reply.closed hr, hs⟩
  case resetWindow => exact ⟨rfl, h.resetWindow⟩

end Coarser

end Session
end FlatQuery
