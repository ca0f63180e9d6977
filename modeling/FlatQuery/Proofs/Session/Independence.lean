import FlatQuery.Proofs.Scan.Pages
import FlatQuery.Proofs.Session.History

/-!
The result of a read does not depend on what the session did before. It is settled by the contents
of the file and by the window that the read uses: a cursor goes back to the start of its file, so
that nothing of an earlier scan is left in it. The main statement is
`Session.read_independent_of_history`.
-/

namespace FlatQuery

namespace Window

theorem forQuery_forQuery (w : Window) (q : Query) : (w.forQuery q).forQuery q = w.forQuery q := by
  simp only [forQuery]
  cases q.page.filter (0 < ·) <;> cases q.limit.filter (0 < ·) <;> rfl

-- The default limit of a window does not matter for a scan.
theorem scan_fst_congr {w w' : Window} {q : Query} (hp : (w.forQuery q).page = (w'.forQuery q).page)
    (hl : (w.forQuery q).limit = (w'.forQuery q).limit) (schema : Schema) (delimiter : UInt8)
    (source : Source) :
    (w.scan schema delimiter q source).1 = (w'.scan schema delimiter q source).1 := by
  simp only [scan, Scan.Plan.of, hp, hl]

-- A query that sets the page and the limit leaves nothing to the window.
theorem forQuery_of_positive {q : Query} {page limit : Nat} (hp : q.page = some page)
    (hl : q.limit = some limit) (h₀ : 0 < page) (h₁ : 0 < limit) (w : Window) :
    (w.forQuery q).page = page ∧ (w.forQuery q).limit = limit := by
  simp [forQuery, hp, hl, Option.filter, h₀, h₁]

end Window

namespace Session

variable {files files' : Files} {table : String} {schema : Schema} {q : Query} {s t : Session}
  {file : Nat} {source : Source} {views : List Files}

-- A read of the table finds a file with these contents. For a table that is open this is the file
-- of its cursor, wherever the cursor stands in it, and the cursor can be rewound.
def Finds (files : Files) (table : String) (source : Source) (s : Session) : Prop :=
  isTableName table → ∃ file, s.fileBehind files table = .ok file ∧ files.contents file = source

-- A file has some contents each time it is read from its start, and can be read so again.
structure Keeps (files : Files) (file : Nat) (source : Source) : Prop where
  contents    : files.contents file = source
  rewindFault : files.rewindFault file = none

-- In all views of the files the table has the same contents.
structure Unchanging (views : List Files) (table : String) (source : Source) (s : Session) :
    Prop where
  open_file : ∀ c, s.cursors.lookup table = some c → ∀ files ∈ views, Keeps files c.file source
  new_file  : isTableName table → ∀ files ∈ views,
    ∃ file, files.openPath (s.filePath table) = .ok file ∧
      ∀ files' ∈ views, Keeps files' file source

theorem read_fst_of_finds (h : s.Finds files table source) :
    (s.read files table schema q).1 =
      if isTableName table then s.scanResult table schema q source
      else .error (.invalidName table) := by
  split
  case isTrue hn  =>
    obtain ⟨file, hf, hc⟩ := h hn
    rw [(read_of_file _ _ hn hf).left, hc]
  case isFalse hn => rw [read_of_not_isTableName hn]

theorem scanResult_congr (hd : s.delimiter = t.delimiter)
    (hp : (s.window.forQuery q).page = (t.window.forQuery q).page)
    (hl : (s.window.forQuery q).limit = (t.window.forQuery q).limit) :
    s.scanResult table schema q source = t.scanResult table schema q source := by
  simp only [scanResult, hd, Window.scan_fst_congr hp hl]

theorem fileBehind_scanned (h : files.rewindFault file = none) :
    (s.scanned table schema q file source).fileBehind files table = .ok file := by
  simp only [fileBehind, scanned, lookup_putCursor, ↓reduceIte, h]

theorem scanResult_scanned :
    (s.scanned table schema q file source).scanResult table schema q source =
    s.scanResult table schema q source :=
  scanResult_congr rfl (by rw [scanned, Window.forQuery_forQuery])
    (by rw [scanned, Window.forQuery_forQuery])

-- The second read goes through the file of the first one, which has to be rewound for it.
theorem read_twice (schema : Schema) (q : Query)
    (h : ∀ file, s.fileBehind files table = .ok file → files.rewindFault file = none) :
    ((s.read files table schema q).2.read files table schema q).1 =
    (s.read files table schema q).1 := by
  cases s.readCase files table schema q
  case invalidName _ hr => simp only [hr]
  case refused e hn hf hr ha =>
    have hf' := ha.fileBehind.trans hf
    rw [hr, (read_of_error _ _ hn hf').left]
  case scanned file hn hf hr ha =>
    have hf' : fileBehind files (s.read files table schema q).2 table = .ok file :=
      ha.fileBehind.trans (fileBehind_scanned (h file hf))
    rw [hr, (read_of_file _ _ hn hf').left, ha.scanResult, scanResult_scanned]

namespace Unchanging

theorem finds (h : s.Unchanging views table source) (hv : files ∈ views) :
    s.Finds files table source := by
  intro hn
  cases hc : s.cursors.lookup table
  case some c =>
    obtain ⟨hs, hr⟩ := h.open_file c hc files hv
    exact ⟨c.file, by rw [fileBehind_of_open hc, hr], hs⟩
  case none =>
    obtain ⟨file, ho, hk⟩ := h.new_file hn files hv
    exact ⟨file, by rw [fileBehind_of_closed hc, ho]; rfl, (hk files hv).contents⟩

theorem alike (h : s.Unchanging views table source) (ha : Alike s t) :
    t.Unchanging views table source where
  open_file := ha.cursors ▸ h.open_file
  new_file  := by
    simp only [filePath, ha.config]
    exact h.new_file

-- A cursor only ever comes to a file of the table in one of the views.
theorem step (h : s.Unchanging views table source) (hv : files ∈ views) (hs : Step files s t) :
    t.Unchanging views table source := by
  cases hs
  case stay   => exact h
  case refuse => exact { h with }
  case reset  => exact { h with }
  case close  =>
    refine { h with open_file := fun c hc => h.open_file c ?_ }
    rw [closed, lookup_filter_ne] at hc
    split at hc
    · cases hc
    · exact hc
  case scan table' file schema q hn hf =>
    refine { h with open_file := fun c hc files' hv' => ?_ }
    rw [scanned, lookup_putCursor] at hc
    split at hc
    case isFalse => exact h.open_file c hc files' hv'
    case isTrue he =>
      cases hc
      cases he
      rcases fileBehind_eq_ok hf with ⟨c, hc, rfl, -⟩ | ⟨-, hf⟩
      · exact h.open_file c hc files' hv'
      · obtain ⟨file', ho, hc⟩ := h.new_file hn files hv
        cases ho.symm.trans hf
        exact hc files' hv'

theorem after (h : s.Unchanging views table source) (history : History)
    (hv : ∀ e ∈ history, e.1 ∈ views) : (s.after history).Unchanging views table source := by
  induction history generalizing s with
  | nil => exact h
  | cons e history ih =>
    obtain ⟨he, hv⟩ := List.forall_mem_cons.mp hv
    obtain ⟨t, hs, ha⟩ := s.perform_step e.1 e.2
    exact ih ((h.step he hs).alike ha) hv

end Unchanging

-- What a read results in, whatever happened in the session before:
-- 1. Two sessions of one configuration that find the same contents and use the same page and limit
--    get the same result.
-- 2. A read that is done twice in a row has the same result twice, if the file that it goes through
--    can be rewound.
-- 3. A query that sets the page and the limit has the same result before and behind any operations,
--    if the contents of the table do not change and its files can be opened and rewound.
theorem read_independent_of_history (table : String) (schema : Schema) (q : Query) :
    (∀ (config : Config) (s t : Session) (files files' : Files) (source : Source),
      Reachable config s → Reachable config t →
      s.Finds files table source → t.Finds files' table source →
      (s.window.forQuery q).page = (t.window.forQuery q).page →
      (s.window.forQuery q).limit = (t.window.forQuery q).limit →
      (s.read files table schema q).1 = (t.read files' table schema q).1) ∧
    (∀ (s : Session) (files : Files),
      (∀ file, s.fileBehind files table = .ok file → files.rewindFault file = none) →
      ((s.read files table schema q).2.read files table schema q).1 =
      (s.read files table schema q).1) ∧
    (∀ (s : Session) (views : List Files) (source : Source) (history : History) (page limit : Nat),
      s.Unchanging views table source → (∀ e ∈ history, e.1 ∈ views) →
      q.page = some page → q.limit = some limit → 0 < page → 0 < limit →
      ∀ files ∈ views, ∀ files' ∈ views,
      ((s.after history).read files' table schema q).1 = (s.read files table schema q).1) := by
  refine ⟨?same, fun s files => read_twice schema q, ?unchanging⟩
  case same =>
    intro config s t files files' source hs ht hf hf' hp hl
    have hd : s.delimiter = t.delimiter := by
      simpa using hs.validate.symm.trans ht.validate
    rw [read_fst_of_finds hf, read_fst_of_finds hf', scanResult_congr hd hp hl]
  case unchanging =>
    intro s views source history page limit hu hv hp hl h₀ h₁ files hf files' hf'
    have hd := s.after_preserves_delimiter history
    obtain ⟨hp₁, hl₁⟩ := Window.forQuery_of_positive hp hl h₀ h₁ s.window
    obtain ⟨hp₂, hl₂⟩ := Window.forQuery_of_positive hp hl h₀ h₁ (s.after history).window
    rw [read_fst_of_finds (hu.finds hf), read_fst_of_finds ((hu.after history hv).finds hf'),
      scanResult_congr hd (hp₂.trans hp₁.symm) (hl₂.trans hl₁.symm)]

-- A scan that stopped at a full page leaves the cursor behind the third line and the window on the
-- second page. Neither shows in the next read, nor in the one behind it.
theorem read_independent_of_history_behind_full_page :
    let schema : Schema := ⟨["n"], by decide, by decide⟩
    let source : Source := ⟨[0x6E, 0x0A, 0x31, 0x0A, 0x32, 0x0A, 0x33, 0x0A], none⟩
    let files : Files := { openFile := fun _ => .ok 0, contents := fun _ => source }
    let earlier : Operation := .read "t" schema { page := some 2, limit := some 1 }
    let q : Query := { page := some 1, limit := some 2 }
    ∃ s stats, Session.start {} "" "" ⟨.fatal, []⟩ = .ok s ∧
      (s.Finds files "t" source ∧ (s.perform files earlier).Finds files "t" source ∧
        (s.perform files earlier).window.page = 2 ∧
        ((s.perform files earlier).read files "t" schema q).1 =
          .ok ⟨.records [⟨1, [("n", .single "1")]⟩, ⟨2, [("n", .single "2")]⟩], stats⟩) ∧
      ((∀ file, s.fileBehind files "t" = .ok file → files.rewindFault file = none) ∧
        ((s.read files "t" schema q).2.read files "t" schema q).1 =
          .ok ⟨.records [⟨1, [("n", .single "1")]⟩, ⟨2, [("n", .single "2")]⟩], stats⟩) ∧
      (s.Unchanging [files] "t" source ∧
        ((s.after [(files, earlier), (files, .closeTable "t")]).read files "t" schema q).1 =
          .ok ⟨.records [⟨1, [("n", .single "1")]⟩, ⟨2, [("n", .single "2")]⟩], stats⟩) := by
  intro schema source files earlier q
  obtain ⟨s, hs⟩ : ∃ s, Session.start {} "" "" ⟨.fatal, []⟩ = .ok s := ⟨_, rfl⟩
  obtain ⟨hv, hc, hw, hcs, _⟩ := start_eq_ok hs
  have hd : s.delimiter = 0x3B := Except.ok.inj (hv.symm.trans rfl)
  have hu : s.Unchanging [files] "t" source := by
    refine ⟨by simp [hcs], fun _ f hf => ⟨0, ?_, ?_⟩⟩
    · rw [List.mem_singleton.mp hf, filePath, hc]
      rfl
    · intro f hf
      rw [List.mem_singleton.mp hf]
      exact ⟨rfl, rfl⟩
  have hv : ∀ e ∈ [(files, earlier), (files, .closeTable "t")], e.1 ∈ [files] := by simp
  have hm : files ∈ [files] := List.mem_singleton_self _
  have ht : (s.perform files earlier).Unchanging [files] "t" source :=
    hu.after [(files, earlier)] (by simp)
  have hr : Scan.dataRows 0x3B source.bytes = [⟨1, ["1"]⟩, ⟨2, ["2"]⟩, ⟨3, ["3"]⟩] := by
    have hc : ({} : Config).delimiterByte? = some 0x3B := by decide
    have hr := Row.WrittenRow.rows_flatMap (Row.delimits_of_delimiterByte? hc) [
      ⟨[.bare "n" (by simp)], false, by decide, by decide⟩,
      ⟨[.bare "1" (by simp)], false, by decide, by decide⟩,
      ⟨[.bare "2" (by simp)], false, by decide, by decide⟩,
      ⟨[.bare "3" (by simp)], false, by decide, by decide⟩] 0
    exact congrArg (·.1.tail) hr
  obtain ⟨stats, hp⟩ := Window.scan_positive (.start 99999) schema 0x3B q source.bytes
  rw [hr] at hp
  have hq : (s.read files "t" schema q).1 =
      .ok ⟨.records [⟨1, [("n", .single "1")]⟩, ⟨2, [("n", .single "2")]⟩], stats⟩ := by
    rw [read_fst_of_finds (hu.finds hm), if_pos (by decide), scanResult, hd, hw]
    exact congrArg (fun r => r.1.mapError (TableError.broken "t")) hp
  have hpage : (s.perform files earlier).window.page = 2 := by
    obtain ⟨file, hf, _⟩ := hu.finds hm (by decide)
    rw [perform, (read_of_file _ _ (by decide) hf).right.window]
    rfl
  obtain ⟨same, twice, unchanging⟩ := read_independent_of_history "t" schema q
  have hrewind : ∀ file, s.fileBehind files "t" = .ok file → files.rewindFault file = none :=
    fun _ _ => rfl
  refine ⟨s, stats, hs, ⟨hu.finds hm, ht.finds hm, hpage, ?_⟩, ⟨hrewind, ?_⟩, hu, ?_⟩
  · rw [←hq]
    exact same {} _ s files files source (.perform files earlier (.start hs)) (.start hs)
      (ht.finds hm) (hu.finds hm) rfl rfl
  · rw [←hq]
    exact twice s files hrewind
  · rw [←hq]
    exact unchanging s [files] source _ 1 2 hu hv rfl rfl (by decide) (by decide) files hm files hm

end Session
end FlatQuery
