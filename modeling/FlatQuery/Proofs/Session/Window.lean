import FlatQuery.Proofs.Scan.Pages
import FlatQuery.Proofs.Session.History
import Mathlib.Data.List.Induction

/-!
The window of a session over a whole history. It is hidden state: a query that leaves the page or
the limit open gets the latest one that was set since the window was reset, for whatever table that
was. The main statement is `Session.window_after`.
-/

namespace FlatQuery.Session

-- What moves a window: a query whose scan has begun, or a reset.
inductive Move
  | query (q : Query)
  | reset

namespace Move

def query? : Move → Option Query
  | query q => some q
  | reset   => none

def apply (w : Window) : Move → Window
  | query q => w.forQuery q
  | reset   => w.reset

-- The queries behind the last reset. The most recent one is the first.
def sinceReset (moves : List Move) : List Query :=
  (moves.reverse.takeWhile (·.query?.isSome)).filterMap query?

-- The most recent positive value that a query since the last reset has set.
def latest? (value : Query → Option Nat) (moves : List Move) : Option Nat :=
  (sinceReset moves).findSome? fun q => (value q).filter (0 < ·)

variable {value : Query → Option Nat} {moves : List Move} {q : Query}

theorem latest?_query :
    latest? value (moves ++ [.query q]) =
    ((value q).filter (0 < ·)).or (latest? value moves) := by
  simp [latest?, sinceReset, query?, List.findSome?_cons]
  cases (value q).filter (0 < ·) <;> rfl

theorem latest?_reset : latest? value (moves ++ [.reset]) = none := by
  simp [latest?, sinceReset, query?]

-- Where moves lead from the window of a new session.
theorem foldl_apply (w : Window) (h : w.reset = w) (moves : List Move) :
    moves.foldl apply w =
      ⟨(latest? (·.page) moves).getD w.page, (latest? (·.limit) moves).getD w.limit,
        w.defaultLimit⟩ := by
  induction moves using List.reverseRecOn with
  | nil => rfl
  | append_singleton moves m ih =>
    rw [List.foldl_append, ih]
    cases m
    case query q =>
      simp only [List.foldl_cons, List.foldl_nil, apply, Window.forQuery, latest?_query,
        Option.getD_or]
    case reset =>
      rw [latest?_reset, latest?_reset]
      exact h

end Move

-- Whether a read of a table gets hold of a cursor: the name of the table is valid, and its file is
-- open and can be rewound, or it is not open and can be opened.
def canAcquire (files : Files) (s : Session) (table : String) : Bool :=
  isTableName table && (s.fileBehind files table).toBool

-- How an operation moves the window. A read does so if it gets hold of a cursor.
def move? (files : Files) (s : Session) : Operation → Option Move
  | .read table _ q    => if s.canAcquire files table then some (.query q) else none
  | .readTable table q =>
    if (s.config.tables.get? table).isSome && s.canAcquire files table then some (.query q)
    else none
  | .closeTable _      => none
  | .resetWindow       => some .reset

-- All moves of the window in a history, in their order.
def moves (s : Session) : History → List Move
  | []           => []
  | h :: history => (s.move? h.1 h.2).toList ++ (s.perform h.1 h.2).moves history

variable {files : Files} {table : String} {schema : Schema} {q : Query} {s : Session}

theorem canAcquire_iff :
    s.canAcquire files table ↔
    isTableName table ∧ ∃ file, s.fileBehind files table = .ok file := by
  rw [canAcquire, Bool.and_eq_true]
  cases s.fileBehind files table <;> simp [Except.toBool]

theorem read_window :
    (s.read files table schema q).2.window =
      if s.canAcquire files table then s.window.forQuery q else s.window := by
  cases s.readCase files table schema q
  case invalidName hn hr =>
    rw [hr, if_neg (by simp [canAcquire_iff, hn])]
  case refused _ hn hf _ ha =>
    rw [ha.window, if_neg (by simp [canAcquire_iff, hf])]
    rfl
  case scanned file hn hf _ ha =>
    rw [ha.window, if_pos (canAcquire_iff.mpr ⟨hn, file, hf⟩)]
    rfl

theorem readTable_window :
    (s.readTable files table q).2.window =
      if (s.config.tables.get? table).isSome && s.canAcquire files table
      then s.window.forQuery q else s.window := by
  cases hs : s.config.tables.get? table
  case none => simp [readTable_of_none hs]
  case some schema =>
    rw [readTable_of_some hs, read_window]
    simp

-- One operation moves the window as `move?` says.
theorem perform_window (files : Files) (s : Session) (op : Operation) :
    (s.perform files op).window = (s.move? files op).toList.foldl Move.apply s.window := by
  cases op
  case read table schema q =>
    rw [perform, read_window, move?]
    split <;> rfl
  case readTable table q =>
    rw [perform, readTable_window, move?]
    split <;> rfl
  case closeTable table =>
    rw [perform, closeTable]
    split <;> rfl
  case resetWindow => rfl

theorem after_window (s : Session) (history : History) :
    (s.after history).window = (s.moves history).foldl Move.apply s.window := by
  induction history generalizing s with
  | nil => rfl
  | cons h history ih => rw [after_cons, ih, moves, List.foldl_append, perform_window]

-- The window behind a read by the result of the read. Only a scan that has begun moves it. A file
-- that cannot be rewound is refused before that, with the code of a stream that breaks.
def windowBehind (w : Window) (q : Query) : Except TableError Scan.Output → Window
  | .ok _ | .error (.broken ..) => w.forQuery q
  | .error _ => w

theorem read_windowBehind :
    (s.read files table schema q).2.window =
    windowBehind s.window q (s.read files table schema q).1 := by
  cases s.readCase files table schema q
  case invalidName _ hr =>
    rw [hr]
    rfl
  case refused _ _ hf hr ha =>
    rw [hr, ha.window]
    rcases fileBehind_eq_error hf with ⟨_, _, -, -, rfl⟩ | ⟨_, -, -, rfl⟩ <;> rfl
  case scanned file _ _ hr ha =>
    rw [hr, ha.window, scanResult]
    cases (s.window.scan schema s.delimiter q (files.contents file)).1 <;> rfl

theorem readTable_windowBehind :
    (s.readTable files table q).2.window =
    windowBehind s.window q (s.readTable files table q).1 := by
  cases hs : s.config.tables.get? table
  case none =>
    rw [readTable_of_none hs]
    rfl
  case some schema => rw [readTable_of_some hs, read_windowBehind]

-- The window of a session behind any operations, from its start on:
-- 1. The page is the one that the latest read with a positive page has set since the last reset,
--    or 1 if there is no such read. The limit likewise, with the limit of the configuration. Only
--    reads count that got hold of a cursor.
-- 2. Page and limit are positive, and so is the limit that any scan divides by.
-- 3. The latter goes for every window to which scans lead, whatever its default limit is.
-- 4. A read that gets hold of no cursor leaves the window, be its table rejected or its file one that
--    cannot be opened or rewound. A read whose stream breaks moves it.
theorem window_after {config : Config} {id openedAt : String} {j : Log.Journal} {s : Session}
    (h : Session.start config id openedAt j = .ok s) :
    (∀ history, let t := s.after history
      t.window.page = (Move.latest? (·.page) (s.moves history)).getD 1 ∧
      t.window.limit = (Move.latest? (·.limit) (s.moves history)).getD config.defaultLimit ∧
      0 < t.window.page ∧ 0 < t.window.limit ∧
      ∀ schema q, 0 < (Scan.Plan.of schema t.delimiter q (t.window.forQuery q)).limit) ∧
    (∀ w : Window, w.Reachable → ∀ schema delimiter q,
      0 < (Scan.Plan.of schema delimiter q (w.forQuery q)).limit) ∧
    (∀ (t : Session) files table schema q,
      (t.read files table schema q).2.window =
        windowBehind t.window q (t.read files table schema q).1 ∧
      (t.readTable files table q).2.window =
        windowBehind t.window q (t.readTable files table q).1) := by
  have scans (w : Window) (hw : w.Reachable) (schema : Schema) (delimiter : UInt8) (q : Query) :
      0 < (Scan.Plan.of schema delimiter q (w.forQuery q)).limit :=
    ((hw.positive.forQuery q).plan schema delimiter q).limit
  refine ⟨?_, scans, fun t files table schema q => ⟨read_windowBehind, readTable_windowBehind⟩⟩
  intro history t
  obtain ⟨hv, _, hw, _⟩ := start_eq_ok h
  have hr : t.window.Reachable := (Reachable.start h).after history |>.window
  have hs : s.window = ⟨1, config.defaultLimit, config.defaultLimit⟩ := by
    rw [hw, Window.start, if_neg (Nat.ne_of_gt (Config.defaultLimit_pos hv))]
    rfl
  have ht : t.window = _ := s.after_window history
  rw [Move.foldl_apply s.window (hs ▸ rfl), hs] at ht
  exact ⟨ht ▸ rfl, ht ▸ rfl, hr.positive.page, hr.positive.limit,
    fun schema q => scans _ hr schema t.delimiter q⟩

-- The first read cannot open its file, the third one cannot rewind it and the fourth one names no
-- table, so that none of them counts. The other two break in the middle and count all the same. A
-- limit of zero sets nothing.
theorem window_after_broken_reads :
    let schema : Schema := ⟨["n"], by decide, by decide⟩
    let gone : Files := {
      openFile := fun _ => .error (.system "gone")
      contents := fun _ => ⟨[], none⟩
    }
    let broken : Files := {
      openFile := fun _ => .ok 0
      contents := fun _ => ⟨[], some (.system "broken")⟩
    }
    let piped : Files := { broken with rewindFault := fun _ => some (.system "piped") }
    let history : History := [
      (gone, .read "t" schema { page := some 7 }),
      (broken, .read "t" schema { page := some 2, limit := some 5 }),
      (piped, .read "t" schema { page := some 8 }),
      (broken, .read "../t" schema { page := some 9 }),
      (broken, .read "t" schema { page := some 3, limit := some 0 })]
    ∃ s, Session.start {} "" "" ⟨.fatal, []⟩ = .ok s ∧
      (s.after history).window.page = 3 ∧ (s.after history).window.limit = 5 := by
  intro schema gone broken piped history
  obtain ⟨s, hs⟩ : ∃ s, Session.start {} "" "" ⟨.fatal, []⟩ = .ok s := ⟨_, rfl⟩
  obtain ⟨_, hc, _, hcs, _⟩ := start_eq_ok hs
  have h₁ : s.canAcquire gone "t" = false := by
    rw [canAcquire, fileBehind, hcs, filePath, hc]
    rfl
  have h₂ (t : Session) (ht : t.config = {}) : t.canAcquire broken "t" := by
    rw [canAcquire, fileBehind, filePath, ht]
    cases t.cursors.lookup "t" <;> rfl
  have h₃ (t : Session) (ht : t.config = {}) (q : Query) :
      (t.perform broken (.read "t" schema q)).canAcquire piped "t" = false := by
    obtain ⟨hn, file, hf⟩ := canAcquire_iff.mp (h₂ t ht)
    have ha : Alike _ (t.perform broken (.read "t" schema q)) := (read_of_file _ _ hn hf).right
    rw [canAcquire, fileBehind, ha.cursors, scanned, lookup_putCursor]
    rfl
  have h₄ (t : Session) : t.canAcquire broken "../t" = false := by
    have hn : isTableName "../t" = false := by decide
    rw [canAcquire, hn, Bool.false_and]
  have hm : s.moves history =
      [.query { page := some 2, limit := some 5 }, .query { page := some 3, limit := some 0 }] := by
    simp only [history, moves, move?, h₁, h₂, h₃, h₄, hc, perform_preserves_config]
    rfl
  obtain ⟨hp, hl, _⟩ := (window_after hs).left history
  rw [hm] at hp hl
  exact ⟨s, hs, hp.trans (by decide), hl.trans (by decide)⟩

end FlatQuery.Session
