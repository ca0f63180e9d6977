import FlatQuery.Proofs.Scan.Stats
import FlatQuery.Proofs.Session.Window

/-!
What a session counts over a whole history, and which tables it has open. Each operation does one of
four things to the books (`Stage.Entry`), and all of them keep the balance. The main statement is
`Session.accounts_after`.
-/

namespace FlatQuery

-- Counters that bound each other:
-- 1. A scan that was executed had a cursor, which was opened or rewound for it alone. A cursor is
--    opened or rewound for a scan only.
-- 2. Only matches are returned, and a row that was counted was read.
structure Metrics.Balanced (m : Metrics) : Prop where
  executed_le : m.scansExecuted ≤ m.cursorsOpened + m.cursorsRewound
  acquired_le : m.cursorsOpened + m.cursorsRewound ≤ m.scansExecuted + m.scansFailed
  returned_le : m.rowsReturned ≤ m.rowsMatched
  found_le    : m.rowsMatched + m.rowsMalformed ≤ m.linesRead

namespace Metrics

variable {m : Metrics}

theorem Balanced.recordFailure (h : m.Balanced) : m.recordFailure.Balanced :=
  { h with acquired_le := Nat.le_succ_of_le h.acquired_le }

-- A scan with a cursor of its own. If it was executed its rows count.
theorem Balanced.recordScanned (h : m.Balanced) (wasOpen : Bool)
    {result : Except TableError Scan.Output} (hb : ∀ o, result = .ok o → o.stats.Bounded) :
    ((m.recordCursor wasOpen).recordResult result).Balanced := by
  obtain ⟨he, ha, hr, hf⟩ := h
  cases result
  case error =>
    cases wasOpen
    all_goals
      refine ⟨?_, ?_, hr, hf⟩
      all_goals
        simp only [recordResult, Metrics.recordFailure, recordCursor, recordRewinding,
          recordOpening, ↓reduceIte, Bool.false_eq_true]
        omega
  case ok o =>
    obtain ⟨hr', hf'⟩ := hb o rfl
    cases wasOpen
    all_goals
      constructor
      all_goals
        simp only [recordResult, recordScan, recordCursor, recordRewinding, recordOpening,
          ↓reduceIte, Bool.false_eq_true]
        omega

theorem scans_recordScanned (m : Metrics) (wasOpen : Bool)
    (result : Except TableError Scan.Output) :
    ((m.recordCursor wasOpen).recordResult result).scansExecuted +
      ((m.recordCursor wasOpen).recordResult result).scansFailed =
    m.scansExecuted + m.scansFailed + 1 := by
  cases wasOpen <;> cases result
  case false.ok | true.ok       => exact Nat.add_right_comm ..
  case false.error | true.error => rfl

theorem cursorsOpened_recordScanned (m : Metrics) (wasOpen : Bool)
    (result : Except TableError Scan.Output) :
    ((m.recordCursor wasOpen).recordResult result).cursorsOpened =
    if wasOpen then m.cursorsOpened else m.cursorsOpened + 1 := by
  cases wasOpen <;> cases result <;> rfl

end Metrics

namespace Session

-- An operation of a history, with the session and the files as they are before it.
structure Stage where
  session : Session
  files : Files
  operation : Operation

def stages (s : Session) : History → List Stage
  | []           => []
  | h :: history => ⟨s, h.1, h.2⟩ :: (s.perform h.1 h.2).stages history

namespace Stage

-- The session behind the operation.
def next (e : Stage) : Session :=
  e.session.perform e.files e.operation

-- The table that a read is about. A read of a table that is not configured does not get to look at
-- its name.
def target? (e : Stage) : Option String :=
  match e.operation with
  | .read table _ _    => some table
  | .readTable table _ => if (e.session.config.tables.get? table).isSome then some table else none
  | _                  => none

-- The table of a read by which its name was found valid.
def checked? (e : Stage) : Option String :=
  e.target?.filter isTableName

-- The table of a read that got hold of a cursor, which was opened or rewound for it.
def acquired? (e : Stage) : Option String :=
  e.target?.filter (e.session.canAcquire e.files)

-- The table that was closed by an operation and had been open.
def closed? (e : Stage) : Option String :=
  match e.operation with
  | .closeTable table => if (e.session.closeTable table).1 then some table else none
  | _                 => none

-- What an operation enters into the books of its session:
-- 1. nothing,
-- 2. a read that got hold of no cursor, since its file could not be opened or rewound,
-- 3. a read that got hold of a cursor, with its result, or
-- 4. a table that was closed.
inductive Entry (e : Stage) : Prop
  | none :
    e.checked? = .none → e.acquired? = .none → e.closed? = .none →
    e.next.cursors = e.session.cursors → e.next.metrics = e.session.metrics → Entry e
  | refused (table : String) :
    e.checked? = some table → e.acquired? = .none → e.closed? = .none →
    e.next.cursors = e.session.cursors →
    e.next.metrics = e.session.metrics.recordFailure → Entry e
  | scanned (table : String) (c : Cursor) (result : Except TableError Scan.Output) :
    e.checked? = some table → e.acquired? = some table → e.closed? = .none →
    (∀ o, result = .ok o → o.stats.Bounded) →
    e.next.cursors = putCursor table c e.session.cursors →
    e.next.metrics =
      (e.session.metrics.recordCursor (e.session.isOpen table)).recordResult result → Entry e
  | closed (table : String) :
    e.checked? = .none → e.acquired? = .none → e.closed? = some table →
    e.session.isOpen table → e.next.cursors = e.session.cursors.filter (·.1 ≠ table) →
    e.next.metrics = e.session.metrics → Entry e

end Stage

-- A table is held open if some read got hold of its cursor and it has not been closed since.
def IsHeld (es : List Stage) (table : String) : Prop :=
  ∃ before e later, es = before ++ e :: later ∧ e.acquired? = some table ∧
    ∀ e' ∈ later, e'.closed? ≠ some table

-- The tables that a session has open behind some operations. They are those that are held, have
-- valid names and one cursor each.
structure Holds (es : List Stage) (s : Session) : Prop where
  isOpen_iff  : ∀ table, s.isOpen table ↔ IsHeld es table
  names_valid : ∀ table, s.isOpen table → isTableName table
  names_nodup : (s.cursors.map (·.1)).Nodup

-- The books of a session behind some operations:
-- 1. Every read whose table has a valid name is a scan that was executed or one that failed.
-- 2. Every cursor that was opened is still open or was closed.
-- 3. The counters bound each other.
-- 4. The open tables are those that are held.
structure Accounts (es : List Stage) (s : Session) : Prop where
  scans    : s.metrics.scansExecuted + s.metrics.scansFailed =
    (es.filterMap Stage.checked?).length
  opened   : s.metrics.cursorsOpened = s.cursors.length + (es.filterMap Stage.closed?).length
  balanced : s.metrics.Balanced
  holds    : Holds es s

variable {es : List Stage} {e : Stage} {s : Session} {table : String}

-- A result of a scan counts rows that were read.
theorem scanResult_bounded {schema : Schema} {q : Query} {source : Source} {o : Scan.Output}
    (h : s.scanResult table schema q source = .ok o) : o.stats.Bounded := by
  simp only [scanResult] at h
  cases hr : (s.window.scan schema s.delimiter q source).1
  case error => simp [hr, Except.mapError] at h
  case ok    =>
    rw [hr] at h
    exact Window.scan_bounded (hr.trans (congrArg _ (Except.ok.inj h)))

namespace Stage

theorem closed?_closeTable (s : Session) (files : Files) (table : String) :
    closed? ⟨s, files, .closeTable table⟩ = if s.isOpen table then some table else none := by
  by_cases ho : s.isOpen table <;> simp [closed?, closeTable, ho]

theorem entry_of_read {schema : Schema} {q : Query} (ht : e.target? = some table)
    (hc : e.closed? = none) (hn : e.next = (e.session.read e.files table schema q).2) :
    e.Entry := by
  have hk : e.checked? = if isTableName table then some table else none := by
    simp [checked?, ht, Option.filter]
  have ha : e.acquired? = if e.session.canAcquire e.files table then some table else none := by
    simp [acquired?, ht, Option.filter]
  cases e.session.readCase e.files table schema q
  case invalidName hv hr =>
    have hq : ¬e.session.canAcquire e.files table := by simp [canAcquire_iff, hv]
    rw [if_neg hv] at hk
    rw [if_neg hq] at ha
    rw [hr] at hn
    exact .none hk ha hc (by rw [hn]) (by rw [hn])
  case refused hv hf _ hs =>
    have hq : ¬e.session.canAcquire e.files table := by simp [canAcquire_iff, hf]
    rw [if_pos hv] at hk
    rw [if_neg hq] at ha
    exact .refused table hk ha hc (hn ▸ hs.cursors) (hn ▸ hs.metrics)
  case scanned file hv hf _ hs =>
    have hq : e.session.canAcquire e.files table := canAcquire_iff.mpr ⟨hv, file, hf⟩
    rw [if_pos hv] at hk
    rw [if_pos hq] at ha
    exact .scanned table _ _ hk ha hc (fun _ => scanResult_bounded) (hn ▸ hs.cursors)
      (hn ▸ hs.metrics)

theorem entry (e : Stage) : e.Entry := by
  obtain ⟨s, files, op⟩ := e
  cases op
  case read table schema q => exact entry_of_read rfl rfl rfl
  case readTable table q =>
    cases hs : s.config.tables.get? table
    case none =>
      have ht : target? ⟨s, files, .readTable table q⟩ = none := by simp [target?, hs]
      have hn : next ⟨s, files, .readTable table q⟩ = s := by
        simp [next, perform, readTable_of_none hs]
      exact .none (by simp [checked?, ht]) (by simp [acquired?, ht]) rfl (by rw [hn]) (by rw [hn])
    case some schema =>
      have hn : next ⟨s, files, .readTable table q⟩ = (s.read files table schema q).2 := by
        simp [next, perform, readTable_of_some hs]
      exact entry_of_read (by simp [target?, hs]) rfl hn
  case closeTable table =>
    have hc := closed?_closeTable s files table
    by_cases ho : s.isOpen table
    case pos =>
      rw [if_pos ho] at hc
      exact .closed table rfl rfl hc ho (by simp [next, perform, closeTable, ho, report])
        (by simp [next, perform, closeTable, ho, report])
    case neg =>
      have hn : next ⟨s, files, .closeTable table⟩ = s := by simp [next, perform, closeTable, ho]
      rw [if_neg ho] at hc
      exact .none rfl rfl hc (by rw [hn]) (by rw [hn])
  case resetWindow => exact .none rfl rfl rfl rfl rfl

end Stage

theorem isHeld_append_singleton :
    IsHeld (es ++ [e]) table ↔
    e.acquired? = some table ∨ IsHeld es table ∧ e.closed? ≠ some table := by
  constructor
  case mp =>
    rintro ⟨before, e', later, hes, ha, hl⟩
    cases later.eq_nil_or_concat
    case inl hn =>
      rw [hn] at hes
      obtain ⟨-, he⟩ := List.append_inj' hes rfl
      exact .inl (List.singleton_inj.mp he ▸ ha)
    case inr hc =>
      obtain ⟨init, last, rfl⟩ := hc
      rw [List.concat_eq_append] at hes hl
      rw [←List.cons_append, ←List.append_assoc] at hes
      obtain ⟨hi, he⟩ := List.append_inj' hes rfl
      have he : e.closed? ≠ some table := by
        apply hl
        simp [List.singleton_inj.mp he]
      exact .inr ⟨⟨before, e', init, hi, ha, fun e he => hl e (List.mem_append_left _ he)⟩, he⟩
  case mpr =>
    rintro (ha | ⟨⟨before, e', later, rfl, ha, hl⟩, hc⟩)
    case inl => exact ⟨es, e, [], rfl, ha, by simp⟩
    case inr =>
      refine ⟨before, e', later ++ [e], by simp, ha, ?_⟩
      intro e'' he
      rcases List.mem_append.mp he with he | he
      · exact hl e'' he
      · exact List.mem_singleton.mp he ▸ hc

namespace Holds

variable {t : Session} {c : Cursor}

theorem same (h : Holds es s) (ha : e.acquired? = none) (hc : e.closed? = none)
    (ht : t.cursors = s.cursors) : Holds (es ++ [e]) t where
  isOpen_iff  := by simpa [isOpen, ht, isHeld_append_singleton, ha, hc] using h.isOpen_iff
  names_valid := by simpa [isOpen, ht] using h.names_valid
  names_nodup := ht ▸ h.names_nodup

theorem put (h : Holds es s) (ha : e.acquired? = some table) (hc : e.closed? = none)
    (hn : isTableName table) (ht : t.cursors = putCursor table c s.cursors) :
    Holds (es ++ [e]) t where
  isOpen_iff name  := by
    rw [isHeld_append_singleton, ha, hc, ←h.isOpen_iff]
    by_cases he : name = table
    case pos => simp [isOpen, ht, lookup_putCursor, he]
    case neg => simp [isOpen, ht, lookup_putCursor, he, Ne.symm he]
  names_valid name := by
    rw [isOpen, ht, lookup_putCursor]
    split
    case isTrue he => exact fun _ => he ▸ hn
    case isFalse   => exact h.names_valid name
  names_nodup      := ht ▸ nodup_putCursor h.names_nodup

theorem remove (h : Holds es s) (ha : e.acquired? = none) (hc : e.closed? = some table)
    (ht : t.cursors = s.cursors.filter (·.1 ≠ table)) : Holds (es ++ [e]) t where
  isOpen_iff name  := by
    rw [isHeld_append_singleton, ha, hc, ←h.isOpen_iff, isOpen, ht, lookup_filter_ne]
    by_cases he : name = table
    case pos => simp [he]
    case neg => simp [isOpen, he, Ne.symm he]
  names_valid name := by
    rw [isOpen, ht, lookup_filter_ne]
    split
    case isTrue  => simp
    case isFalse => exact h.names_valid name
  names_nodup      := ht ▸ h.names_nodup.sublist (List.filter_sublist.map _)

end Holds

namespace Accounts

theorem start (hc : s.cursors = []) (hm : s.metrics = {}) : Accounts [] s where
  scans    := by rw [hm]; rfl
  opened   := by rw [hm, hc]; rfl
  balanced := by
    rw [hm]
    constructor <;> exact Nat.le_refl 0
  holds    := by constructor <;> simp [isOpen, hc, IsHeld]

theorem step (h : Accounts es e.session) : Accounts (es ++ [e]) e.next := by
  have added (f : Stage → Option String) :
      ((es ++ [e]).filterMap f).length = (es.filterMap f).length + (f e).toList.length := by
    cases hf : f e <;> simp [hf]
  cases e.entry
  case none hk ha hc hcs hm =>
    constructor
    case scans    => rw [hm, added, hk]; exact h.scans
    case opened   => rw [hm, hcs, added, hc]; exact h.opened
    case balanced => exact hm ▸ h.balanced
    case holds    => exact h.holds.same ha hc hcs
  case refused table hk ha hc hcs hm =>
    constructor
    case scans    => rw [hm, added, hk]; exact congrArg Nat.succ h.scans
    case opened   => rw [hm, hcs, added, hc]; exact h.opened
    case balanced => exact hm ▸ h.balanced.recordFailure
    case holds    => exact h.holds.same ha hc hcs
  case scanned table c result hk ha hc hb hcs hm =>
    have hn : isTableName table := (Option.filter_eq_some_iff.mp hk).right
    constructor
    case scans    =>
      rw [hm, added, hk, Metrics.scans_recordScanned]
      exact congrArg Nat.succ h.scans
    case opened   =>
      have ho := h.opened
      rw [hm, hcs, added, hc, Metrics.cursorsOpened_recordScanned, length_putCursor, isOpen]
      split <;> simp <;> omega
    case balanced => exact hm ▸ h.balanced.recordScanned _ hb
    case holds    => exact h.holds.put ha hc hn hcs
  case closed table hk ha hc ho hcs hm =>
    constructor
    case scans    => rw [hm, added, hk]; exact h.scans
    case opened   =>
      have hl := length_filter_ne h.holds.names_nodup ho
      rw [hm, hcs, added, hc, h.opened, ←hl]
      exact Nat.add_right_comm ..
    case balanced => exact hm ▸ h.balanced
    case holds    => exact h.holds.remove ha hc hcs

end Accounts

theorem stages_append (s : Session) (as bs : History) :
    s.stages (as ++ bs) = s.stages as ++ (s.after as).stages bs := by
  induction as generalizing s with
  | nil => rfl
  | cons h as ih => rw [List.cons_append, stages, stages, ih, List.cons_append, after_cons]

-- The books of a session balance behind any operations from its start on.
theorem accounts_after {config : Config} {id openedAt : String} {j : Log.Journal} {s : Session}
    (h : Session.start config id openedAt j = .ok s) (history : History) :
    Accounts (s.stages history) (s.after history) := by
  induction history using List.reverseRecOn with
  | nil =>
    obtain ⟨_, _, _, hc, hm⟩ := start_eq_ok h
    exact .start hc hm
  | append_singleton history op ih =>
    rw [stages_append, after_append]
    exact ih.step (e := ⟨s.after history, op.1, op.2⟩)

-- The first read cannot open its file and the third one cannot rewind it. Only the second one has a
-- cursor, with which it fails, so that there are three scans but one cursor, which stays open. Only
-- the first of the two closings finds the table open.
theorem accounts_after_closing_twice :
    let schema : Schema := ⟨["n"], by decide, by decide⟩
    let gone : Files := {
      openFile := fun _ => .error (.system "gone")
      contents := fun _ => ⟨[], none⟩
    }
    let broken : Files := {
      openFile := fun _ => .ok 0
      contents := fun _ => ⟨[], some (.system "broken")⟩
    }
    let piped : Files := { broken with rewindFault := fun _ => some (.system "piped") }
    let reads : History := [
      (gone, .read "t" schema {}), (broken, .read "t" schema {}), (piped, .read "t" schema {})]
    let closings : History := [(broken, .closeTable "t"), (broken, .closeTable "t")]
    ∃ s, Session.start {} "" "" ⟨.fatal, []⟩ = .ok s ∧
      (s.after reads).isOpen "t" ∧
      (s.after reads).metrics.scansExecuted + (s.after reads).metrics.scansFailed = 3 ∧
      ¬(s.after (reads ++ closings)).isOpen "t" ∧
      (s.after (reads ++ closings)).metrics.cursorsOpened =
        (s.after (reads ++ closings)).cursors.length + 1 := by
  intro schema gone broken piped reads closings
  obtain ⟨s, hs⟩ : ∃ s, Session.start {} "" "" ⟨.fatal, []⟩ = .ok s := ⟨_, rfl⟩
  obtain ⟨_, hc, _⟩ := start_eq_ok hs
  have ha (t : Session) (ht : t.config = {}) : t.canAcquire broken "t" := by
    rw [canAcquire, fileBehind, filePath, ht]
    cases t.cursors.lookup "t" <;> rfl
  have hr := accounts_after hs reads
  have ht := accounts_after hs (reads ++ closings)
  have hheld : IsHeld (s.stages reads) "t" := by
    refine ⟨[_], _, [_], rfl, ?_, by simp [Stage.closed?]⟩
    have hq := ha (s.perform gone (.read "t" schema {})) (hc ▸ perform_preserves_config ..)
    simp [Stage.acquired?, Stage.target?, hq]
  have ho := (hr.holds.isOpen_iff "t").mpr hheld
  have hclosed : ¬((s.after reads).closeTable "t").2.isOpen "t" := by
    rw [closeTable, if_pos ho]
    simp [isOpen, report]
  have h₁ := Stage.closed?_closeTable (s.after reads) broken "t"
  have h₂ := Stage.closed?_closeTable ((s.after reads).closeTable "t").2 broken "t"
  rw [if_pos ho] at h₁
  rw [if_neg hclosed] at h₂
  have hst : s.stages (reads ++ closings) =
      s.stages reads ++ [⟨s.after reads, broken, .closeTable "t"⟩] ++
        [⟨((s.after reads).closeTable "t").2, broken, .closeTable "t"⟩] := by
    rw [stages_append, List.append_assoc]
    rfl
  rw [hst] at ht
  refine ⟨s, hs, ho, hr.scans, ?_, ?_⟩
  · rw [ht.holds.isOpen_iff, isHeld_append_singleton, isHeld_append_singleton, h₁]
    simp [Stage.acquired?, Stage.target?]
  · rw [ht.opened, List.filterMap_append, List.filterMap_append]
    simp only [List.filterMap_cons, h₁, h₂]
    rfl

end Session
end FlatQuery
