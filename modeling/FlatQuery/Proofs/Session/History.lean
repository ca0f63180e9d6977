import FlatQuery.Proofs.Session.Read

/-!
Histories of sessions: one operation after another, each with the files as they are at its time.
What a single operation can do to a session is said once, by `Step`.
-/

namespace FlatQuery

namespace Config

variable {c : Config} {delimiter : UInt8}

-- What a configuration is that is found valid.
theorem validate_eq_ok_iff :
    c.validate = .ok delimiter ↔
    c.recursive = false ∧ c.delimiterByte? = some delimiter ∧ 0 < c.defaultLimit ∧
      '/' ∉ c.extension.toList ∧ '\\' ∉ c.extension.toList := by
  have hs : (c.extension.toList.any fun d => d == '/' || d == '\\') = false ↔
      '/' ∉ c.extension.toList ∧ '\\' ∉ c.extension.toList := by
    simp only [List.any_eq_false, Bool.or_eq_true, beq_iff_eq]
    grind
  rw [←hs, Nat.pos_iff_ne_zero, validate]
  cases c.recursive <;> cases c.delimiterByte? <;> by_cases c.defaultLimit = 0 <;>
    cases c.extension.toList.any _ <;> simp [*]

theorem defaultLimit_pos (h : c.validate = .ok delimiter) : 0 < c.defaultLimit :=
  (validate_eq_ok_iff.mp h).right.right.left

end Config

namespace Session

inductive Operation
  | read (table : String) (schema : Schema) (q : Query)
  -- A read under the schema that is configured for the table.
  | readTable (table : String) (q : Query)
  | closeTable (table : String)
  | resetWindow

def perform (files : Files) (s : Session) : Operation → Session
  | .read table schema q => (s.read files table schema q).2
  | .readTable table q   => (s.readTable files table q).2
  | .closeTable table    => (s.closeTable table).2
  | .resetWindow         => s.resetWindow

abbrev History := List (Files × Operation)

-- The session behind all operations of a history.
def after (s : Session) (history : History) : Session :=
  history.foldl (fun s h => s.perform h.1 h.2) s

-- The sessions to which operations can lead under a configuration.
inductive Reachable (config : Config) : Session → Prop
  | start {id openedAt : String} {j : Log.Journal} {s : Session} :
    Session.start config id openedAt j = .ok s → Reachable config s
  | perform {s : Session} (files : Files) (op : Operation) :
    Reachable config s → Reachable config (s.perform files op)

def closed (s : Session) (table : String) : Session :=
  { s with cursors := s.cursors.filter (·.1 ≠ table) }

-- What an operation can do to a session apart from what it reports. A step `refuse` is a read whose
-- file could not be opened or rewound. A step `scan` is a read that got hold of the file of its
-- table, whether the stream of this file broke or not.
inductive Step (files : Files) (s : Session) : Session → Prop
  | stay : Step files s s
  | refuse : Step files s s.refused
  | scan {table : String} {file : Nat} (schema : Schema) (q : Query) :
    isTableName table → s.fileBehind files table = .ok file →
    Step files s (s.scanned table schema q file (files.contents file))
  | close (table : String) : Step files s (s.closed table)
  | reset : Step files s s.resetWindow

variable {files : Files} {s t : Session} {config : Config}

theorem after_cons (s : Session) (h : Files × Operation) (history : History) :
    s.after (h :: history) = (s.perform h.1 h.2).after history :=
  rfl

theorem after_append (s : Session) (as bs : History) :
    s.after (as ++ bs) = (s.after as).after bs :=
  List.foldl_append

theorem read_step (files : Files) (table : String) (schema : Schema) (q : Query) (s : Session) :
    ∃ t, Step files s t ∧ Alike t (s.read files table schema q).2 := by
  cases s.readCase files table schema q
  case invalidName _ hr        => exact ⟨s, .stay, hr ▸ .refl s⟩
  case refused _ _ _ _ ha      => exact ⟨_, .refuse, ha⟩
  case scanned file hn hf _ ha => exact ⟨_, .scan schema q hn hf, ha⟩

theorem perform_step (files : Files) (s : Session) (op : Operation) :
    ∃ t, Step files s t ∧ Alike t (s.perform files op) := by
  cases op
  case read table schema q => exact read_step files table schema q s
  case readTable table q =>
    rw [perform]
    cases hs : s.config.tables.get? table
    case none        => exact ⟨s, .stay, readTable_of_none hs ▸ .refl s⟩
    case some schema => exact readTable_of_some hs ▸ read_step files table schema q s
  case closeTable table =>
    simp only [perform, closeTable]
    split
    case isTrue  => exact ⟨s.closed table, .close table, .withJournal ..⟩
    case isFalse => exact ⟨s, .stay, .refl s⟩
  case resetWindow => exact ⟨s.resetWindow, .reset, .refl _⟩

namespace Step

variable (h : Step files s t)
include h

theorem preserves_config : t.config = s.config := by
  cases h <;> rfl

theorem preserves_delimiter : t.delimiter = s.delimiter := by
  cases h <;> rfl

end Step

theorem perform_preserves_config (files : Files) (s : Session) (op : Operation) :
    (s.perform files op).config = s.config := by
  obtain ⟨t, hs, ha⟩ := s.perform_step files op
  exact ha.config.trans hs.preserves_config

theorem perform_preserves_delimiter (files : Files) (s : Session) (op : Operation) :
    (s.perform files op).delimiter = s.delimiter := by
  obtain ⟨t, hs, ha⟩ := s.perform_step files op
  exact ha.delimiter.trans hs.preserves_delimiter

theorem after_preserves_config (s : Session) (history : History) :
    (s.after history).config = s.config := by
  induction history generalizing s with
  | nil => rfl
  | cons h history ih =>
    exact (ih _).trans (s.perform_preserves_config h.1 h.2)

theorem after_preserves_delimiter (s : Session) (history : History) :
    (s.after history).delimiter = s.delimiter := by
  induction history generalizing s with
  | nil => rfl
  | cons h history ih =>
    exact (ih _).trans (s.perform_preserves_delimiter h.1 h.2)

theorem Reachable.after (h : Reachable config s) (history : History) :
    Reachable config (s.after history) := by
  induction history generalizing s with
  | nil => exact h
  | cons e history ih => exact ih (h.perform e.1 e.2)

theorem exists_start {delimiter : UInt8} (h : config.validate = .ok delimiter)
    (id openedAt : String) (j : Log.Journal) :
    ∃ s, Session.start config id openedAt j = .ok s := by
  simp only [Session.start, Config.check, h, bind, Except.bind, pure, Except.pure]
  exact ⟨_, rfl⟩

-- A session that has just been started.
theorem start_eq_ok {id openedAt : String} {j : Log.Journal}
    (h : Session.start config id openedAt j = .ok s) :
    config.validate = .ok s.delimiter ∧ s.config = config ∧
    s.window = .start config.defaultLimit ∧ s.cursors = [] ∧ s.metrics = {} := by
  simp only [Session.start, Config.check] at h
  cases hv : config.validate
  case error e => simp [hv, bind, Except.bind] at h
  case ok d =>
    simp only [hv, bind, Except.bind, pure, Except.pure, Except.ok.injEq] at h
    subst h
    exact ⟨rfl, rfl, rfl, rfl, rfl⟩

-- All sessions of a configuration read their tables with the same delimiter.
theorem Reachable.validate (h : Reachable config s) : config.validate = .ok s.delimiter := by
  induction h
  case start h            => exact (start_eq_ok h).left
  case perform s f op _ ih => rw [ih, s.perform_preserves_delimiter]

-- The window of a session is one to which scans and resets lead.
theorem Reachable.window (h : Reachable config s) : s.window.Reachable := by
  induction h
  case start h =>
    rw [(start_eq_ok h).right.right.left]
    exact .start _
  case perform s files op _ ih =>
    obtain ⟨t, hs, ha⟩ := s.perform_step files op
    rw [ha.window]
    cases hs
    case stay | refuse | close => exact ih
    case scan file schema q _ _ => exact ih.scan schema s.delimiter q (files.contents file)
    case reset => exact ih.reset

end Session
end FlatQuery
