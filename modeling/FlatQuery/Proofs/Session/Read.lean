import FlatQuery.Proofs.Except
import FlatQuery.Proofs.Scan.Window
import FlatQuery.Proofs.Session.Cursors

/-!
What a read comes to. There are three ways for it to go, and one theorem for each: the name of the
table is refused, its file cannot be opened or rewound, or its file is scanned from the start. The
theorems leave out what is reported, and `Session.readCase` has all three of them.
-/

namespace FlatQuery

namespace Metrics

-- Counts a cursor that was acquired, of a table that was open already or was not.
def recordCursor (m : Metrics) (wasOpen : Bool) : Metrics :=
  if wasOpen then m.recordRewinding else m.recordOpening

def recordResult (m : Metrics) : Except TableError Scan.Output → Metrics
  | .ok ⟨_, n⟩ => m.recordScan n.linesRead n.malformed n.matched n.returned
  | .error _   => m.recordFailure

end Metrics

-- How many bytes of a stream a scan takes.
def Window.consumed (w : Window) (schema : Schema) (delimiter : UInt8) (q : Query)
    (source : Source) : Nat :=
  let run := Scan.run (.of schema delimiter q (w.forQuery q)) source
  source.bytes.length - run.reader.source.bytes.length

namespace Session

-- Two sessions that differ at most in what they have reported.
structure Alike (s t : Session) : Prop where
  id        : t.id = s.id
  config    : t.config = s.config
  delimiter : t.delimiter = s.delimiter
  window    : t.window = s.window
  cursors   : t.cursors = s.cursors
  metrics   : t.metrics = s.metrics

namespace Alike

variable {s t u : Session}

theorem refl (s : Session) : Alike s s :=
  ⟨rfl, rfl, rfl, rfl, rfl, rfl⟩

theorem symm (h : Alike s t) : Alike t s where
  id        := h.id.symm
  config    := h.config.symm
  delimiter := h.delimiter.symm
  window    := h.window.symm
  cursors   := h.cursors.symm
  metrics   := h.metrics.symm

theorem trans (h : Alike s t) (h' : Alike t u) : Alike s u where
  id        := h'.id.trans h.id
  config    := h'.config.trans h.config
  delimiter := h'.delimiter.trans h.delimiter
  window    := h'.window.trans h.window
  cursors   := h'.cursors.trans h.cursors
  metrics   := h'.metrics.trans h.metrics

-- Reports are all that two such sessions may differ in.
theorem withJournal (s : Session) (j : Log.Journal) : Alike s { s with journal := j } :=
  ⟨rfl, rfl, rfl, rfl, rfl, rfl⟩

theorem eq_withJournal (h : Alike s t) : t = { s with journal := t.journal } := by
  obtain ⟨_, _, _, _, _, _⟩ := h
  cases t
  simp_all

end Alike

-- The path of the file of a table with a valid name.
def filePath (s : Session) (table : String) : String :=
  Path.join s.config.path (fileName s.config table)

-- The file that a read goes through: the one behind the cursor of the table if it is open, and
-- otherwise the one at its path. The former has to be rewound and the latter to be opened.
def fileBehind (files : Files) (s : Session) (table : String) : Except TableError Nat :=
  match s.cursors.lookup table with
  | some c =>
    match files.rewindFault c.file with
    | some fault => .error (.notRewound table (s.filePath table) fault)
    | none       => .ok c.file
  | none => (files.openPath (s.filePath table)).mapError (.unavailable table (s.filePath table))

-- The session behind a read that cannot open the file, or cannot rewind it.
def refused (s : Session) : Session :=
  { s with metrics := s.metrics.recordFailure }

-- The session in which the cursor of a table stands at the start of a file.
def acquired (s : Session) (table : String) (file : Nat) : Session :=
  { s with
    cursors := putCursor table ⟨file, 0⟩ s.cursors
    metrics := s.metrics.recordCursor (s.isOpen table) }

def scanResult (s : Session) (table : String) (schema : Schema) (q : Query) (source : Source) :
    Except TableError Scan.Output :=
  (s.window.scan schema s.delimiter q source).1.mapError (.broken table)

-- The session behind a read that scans a file with some contents.
def scanned (s : Session) (table : String) (schema : Schema) (q : Query) (file : Nat)
    (source : Source) : Session :=
  { s with
    window  := s.window.forQuery q
    cursors := putCursor table ⟨file, s.window.consumed schema s.delimiter q source⟩ s.cursors
    metrics := (s.metrics.recordCursor (s.isOpen table)).recordResult
      (s.scanResult table schema q source) }

variable {files : Files} {table path : String} {schema : Schema} {q : Query} {s t : Session}
  {file : Nat} {e : TableError} {source : Source}

theorem fileBehind_of_open {c : Cursor} (h : s.cursors.lookup table = some c) :
    s.fileBehind files table =
      match files.rewindFault c.file with
      | some fault => .error (.notRewound table (s.filePath table) fault)
      | none       => .ok c.file := by
  simp only [fileBehind, h]

theorem fileBehind_of_closed (h : s.cursors.lookup table = none) :
    s.fileBehind files table =
      (files.openPath (s.filePath table)).mapError (.unavailable table (s.filePath table)) := by
  simp only [fileBehind, h]

-- The file of an open table is one that can be rewound.
theorem fileBehind_eq_ok (h : s.fileBehind files table = .ok file) :
    (∃ c, s.cursors.lookup table = some c ∧ c.file = file ∧ files.rewindFault file = none) ∨
      s.cursors.lookup table = none ∧ files.openPath (s.filePath table) = .ok file := by
  cases hc : s.cursors.lookup table
  case none =>
    rw [fileBehind_of_closed hc] at h
    exact .inr ⟨rfl, eq_ok_of_mapError h⟩
  case some c =>
    rw [fileBehind_of_open hc] at h
    split at h
    case h_1    => cases h
    case h_2 hr =>
      cases h
      exact .inl ⟨c, rfl, rfl, hr⟩

-- Without a file, an open table is one that cannot be rewound and a closed one cannot be opened.
theorem fileBehind_eq_error (h : s.fileBehind files table = .error e) :
    (∃ c fault, s.cursors.lookup table = some c ∧ files.rewindFault c.file = some fault ∧
        e = .notRewound table (s.filePath table) fault) ∨
      ∃ fault, s.cursors.lookup table = none ∧ files.openPath (s.filePath table) = .error fault ∧
        e = .unavailable table (s.filePath table) fault := by
  cases hc : s.cursors.lookup table
  case none =>
    rw [fileBehind_of_closed hc] at h
    obtain ⟨fault, ho, rfl⟩ := error_of_mapError h
    exact .inr ⟨fault, rfl, ho, rfl⟩
  case some c =>
    rw [fileBehind_of_open hc] at h
    split at h
    case h_1 fault hr =>
      cases h
      exact .inl ⟨c, fault, rfl, hr, rfl⟩
    case h_2 => cases h

namespace Alike

variable (h : Alike s t)
include h

theorem fileBehind : t.fileBehind files table = s.fileBehind files table := by
  simp only [Session.fileBehind, filePath, h.cursors, h.config]

theorem scanResult : t.scanResult table schema q source = s.scanResult table schema q source := by
  simp only [Session.scanResult, h.window, h.delimiter]

theorem refused : Alike s.refused t.refused :=
  { h with metrics := by simp only [Session.refused, h.metrics] }

theorem acquired : Alike (s.acquired table file) (t.acquired table file) :=
  { h with
    cursors := by simp only [Session.acquired, h.cursors]
    metrics := by simp only [Session.acquired, isOpen, h.cursors, h.metrics] }

theorem scanned :
    Alike (s.scanned table schema q file source) (t.scanned table schema q file source) :=
  { h with
    window  := by simp only [Session.scanned, h.window]
    cursors := by simp only [Session.scanned, h.cursors, h.window, h.delimiter]
    metrics := by simp only [Session.scanned, isOpen, h.cursors, h.metrics, h.scanResult] }

end Alike

theorem acquire_of_file (h : s.fileBehind files table = .ok file) :
    (s.acquire files table (s.filePath table)).1 = .ok ⟨file, 0⟩ ∧
    Alike (s.acquired table file) (s.acquire files table (s.filePath table)).2 := by
  simp only [acquire, acquired, isOpen, Metrics.recordCursor]
  rcases fileBehind_eq_ok h with ⟨c, hc, rfl, hr⟩ | ⟨hc, ho⟩
  case inl =>
    simp only [hc, hr]
    exact ⟨trivial, .withJournal ..⟩
  case inr =>
    simp only [hc, ho]
    exact ⟨trivial, .withJournal ..⟩

theorem acquire_of_error (h : s.fileBehind files table = .error e) :
    s.acquire files table (s.filePath table) = (.error e, s) := by
  rcases fileBehind_eq_error h with ⟨c, fault, hc, hr, rfl⟩ | ⟨fault, hc, ho, rfl⟩
  case inl => simp only [acquire, hc, hr]
  case inr => simp only [acquire, hc, ho]

theorem finish_alike (s : Session) (table : String) (result : Except TableError Scan.Output) :
    Alike { s with metrics := s.metrics.recordResult result } (s.finish table result) := by
  cases result <;> exact .withJournal ..

-- A scan through a cursor at the start of its file, and what is counted of it.
theorem finish_scan (files : Files) (table : String) (schema : Schema) (q : Query) (s : Session)
    (file : Nat) :
    Alike { s with
      window  := s.window.forQuery q
      cursors := putCursor table
        ⟨file, s.window.consumed schema s.delimiter q (files.contents file)⟩ s.cursors
      metrics := s.metrics.recordResult (s.scanResult table schema q (files.contents file)) }
      ((s.scan files table ⟨file, 0⟩ schema q).2.finish table
        (s.scan files table ⟨file, 0⟩ schema q).1) :=
  { finish_alike (s.scan files table ⟨file, 0⟩ schema q).2 table _ with }

theorem read_of_not_isTableName (h : ¬isTableName table) :
    s.read files table schema q = (.error (.invalidName table), s) := by
  simp only [read, tablePath, h, Bool.false_eq_true, ↓reduceIte]

theorem read_of_error (schema : Schema) (q : Query) (hn : isTableName table)
    (h : s.fileBehind files table = .error e) :
    (s.read files table schema q).1 = .error e ∧
    Alike s.refused (s.read files table schema q).2 := by
  have hp : s.tablePath table = .ok (s.filePath table) := if_pos hn
  simp only [read, hp]
  generalize ht : s.trace .scanStart _ = t
  have ht : Alike s t := ht ▸ .withJournal ..
  have ha : t.acquire files table (t.filePath table) = _ := acquire_of_error (ht.fileBehind.trans h)
  simp only [filePath, ht.config] at ha
  simp only [filePath, ha]
  exact ⟨trivial, ht.refused.trans (finish_alike t table (.error _))⟩

theorem read_of_file (schema : Schema) (q : Query) (hn : isTableName table)
    (h : s.fileBehind files table = .ok file) :
    (s.read files table schema q).1 = s.scanResult table schema q (files.contents file) ∧
    Alike (s.scanned table schema q file (files.contents file))
      (s.read files table schema q).2 := by
  have hp : s.tablePath table = .ok (s.filePath table) := if_pos hn
  simp only [read, hp]
  generalize ht : s.trace .scanStart _ = t
  have ht : Alike s t := ht ▸ .withJournal ..
  obtain ⟨hc, hu⟩ := acquire_of_file (ht.fileBehind.trans h)
  simp only [filePath, ht.config] at hc hu
  simp only [filePath]
  generalize t.acquire files table _ = p at hc hu ⊢
  obtain ⟨_, u⟩ := p
  cases hc
  have hu : Alike (s.acquired table file) u := ht.acquired.trans hu
  refine ⟨hu.scanResult, .trans ?_ (finish_scan files table schema q u file)⟩
  constructor
  case id        => exact hu.id
  case config    => exact hu.config
  case delimiter => exact hu.delimiter
  case window    => simp only [hu.window, Session.acquired, scanned]
  case cursors   =>
    simp only [hu.window, hu.delimiter, hu.cursors, Session.acquired, scanned, putCursor_putCursor]
  case metrics   =>
    rw [hu.metrics, hu.scanResult]
    rfl

-- The ways for a read to go, and what it comes to on each of them.
inductive ReadCase (files : Files) (table : String) (schema : Schema) (q : Query) (s : Session) :
    Prop
  | invalidName :
    ¬isTableName table → s.read files table schema q = (.error (.invalidName table), s) →
    ReadCase files table schema q s
  | refused (e : TableError) :
    isTableName table → s.fileBehind files table = .error e →
    (s.read files table schema q).1 = .error e →
    Alike s.refused (s.read files table schema q).2 →
    ReadCase files table schema q s
  | scanned (file : Nat) :
    isTableName table → s.fileBehind files table = .ok file →
    (s.read files table schema q).1 = s.scanResult table schema q (files.contents file) →
    Alike (s.scanned table schema q file (files.contents file))
      (s.read files table schema q).2 →
    ReadCase files table schema q s

theorem readCase (files : Files) (table : String) (schema : Schema) (q : Query) (s : Session) :
    ReadCase files table schema q s := by
  by_cases hn : isTableName table
  case neg => exact .invalidName hn (read_of_not_isTableName hn)
  case pos =>
    cases hf : s.fileBehind files table
    case error e =>
      obtain ⟨hr, ha⟩ := read_of_error schema q hn hf
      exact .refused e hn hf hr ha
    case ok file =>
      obtain ⟨hr, ha⟩ := read_of_file schema q hn hf
      exact .scanned file hn hf hr ha

theorem readTable_of_some (h : s.config.tables.get? table = some schema) :
    s.readTable files table q = s.read files table schema q := by
  simp only [readTable, Session.schema, h]

theorem readTable_of_none (h : s.config.tables.get? table = none) :
    s.readTable files table q = (.error (.unknown table), s) := by
  simp only [readTable, Session.schema, h]

namespace Alike

variable (h : Alike s t)
include h

-- What has been reported does not show in the result of a read.
theorem read_congr (files : Files) (table : String) (schema : Schema) (q : Query) :
    (t.read files table schema q).1 = (s.read files table schema q).1 ∧
    Alike (s.read files table schema q).2 (t.read files table schema q).2 := by
  cases s.readCase files table schema q
  case invalidName hn hr =>
    rw [hr, read_of_not_isTableName hn]
    exact ⟨rfl, h⟩
  case refused e hn hf hr ha =>
    obtain ⟨hr', ha'⟩ := read_of_error schema q hn (h.fileBehind.trans hf)
    exact ⟨hr'.trans hr.symm, ha.symm.trans (h.refused.trans ha')⟩
  case scanned file hn hf hr ha =>
    obtain ⟨hr', ha'⟩ := read_of_file schema q hn (h.fileBehind.trans hf)
    refine ⟨?_, ha.symm.trans (h.scanned.trans ha')⟩
    rw [hr, hr', h.scanResult]

theorem readTable_congr (files : Files) (table : String) (q : Query) :
    (t.readTable files table q).1 = (s.readTable files table q).1 ∧
    Alike (s.readTable files table q).2 (t.readTable files table q).2 := by
  cases hs : s.config.tables.get? table
  case none =>
    rw [readTable_of_none hs, readTable_of_none (h.config ▸ hs)]
    exact ⟨rfl, h⟩
  case some schema =>
    rw [readTable_of_some hs, readTable_of_some (h.config ▸ hs)]
    exact h.read_congr files table schema q

end Alike

end Session
end FlatQuery
