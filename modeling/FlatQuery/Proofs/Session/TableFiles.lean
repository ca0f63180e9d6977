import FlatQuery.Proofs.Path
import FlatQuery.Proofs.Session.History
import FlatQuery.Service.Request
import Mathlib.Data.List.Induction

/-!
The files of the tables. A valid configuration has no separator in its extension, and a valid name
of a table has none either, so that the file of a table is an entry of the directory that is
configured. Different tables have different files, and no other file is opened. The main statement
is `Session.tables_confined`.
-/

namespace FlatQuery.Session

variable {config : Config} {delimiter : UInt8} {table table' path : String} {s t : Session}
  {files files' : Files}

theorem isTableName_iff :
    isTableName table ↔ table ≠ "" ∧ table ≠ "." ∧ table ≠ ".." ∧
      '/' ∉ table.toList ∧ '\\' ∉ table.toList ∧ '\x00' ∉ table.toList := by
  simp only [isTableName, Bool.and_eq_true, bne_iff_ne, Bool.not_eq_true', List.any_eq_false,
    Bool.or_eq_true, beq_iff_eq]
  grind

-- The extension cannot make a lone dot or two of a name, since there is something before its dot.
theorem isEntry_fileName (hv : config.validate = .ok delimiter) (hn : isTableName table) :
    Path.IsEntry (fileName config table) := by
  obtain ⟨he, hd, hds, hs, hb, -⟩ := isTableName_iff.mp hn
  obtain ⟨-, -, -, hs', hb'⟩ := Config.validate_eq_ok_iff.mp hv
  simp only [fileName]
  split
  case isTrue     => exact ⟨he, hd, hds, hs, hb⟩
  case isFalse hx =>
    have hl : 3 ≤ (table ++ "." ++ config.extension).toList.length := by
      have ht : table.toList.length ≠ 0 := by simpa using he
      have hx : config.extension.toList.length ≠ 0 := by simpa using hx
      have hp : ".".toList.length = 1 := rfl
      rw [String.toList_append, String.toList_append, List.length_append, List.length_append]
      omega
    have ne {other : String} (ho : other.toList.length < 3) :
        table ++ "." ++ config.extension ≠ other := by
      rintro rfl
      exact Nat.not_le_of_gt ho hl
    constructor
    case ne_empty     => exact ne (by decide)
    case ne_dot       => exact ne (by decide)
    case ne_dots      => exact ne (by decide)
    case no_slash     => simp [hs, hs']
    case no_backslash => simp [hb, hb']

theorem fileName_injective (h : fileName config table = fileName config table') :
    table = table' := by
  simp only [fileName] at h
  split at h
  case isTrue  => exact h
  case isFalse => simpa [←String.toList_inj] using h

theorem tablePath_eq_ok_iff :
    s.tablePath table = .ok path ↔ isTableName table ∧ s.filePath table = path := by
  by_cases hn : isTableName table <;> simp [tablePath, hn, filePath]

theorem tablePath_eq_error_iff {e : TableError} :
    s.tablePath table = .error e ↔ ¬isTableName table ∧ .invalidName table = e := by
  by_cases hn : isTableName table <;> simp [tablePath, hn]

-- Two views of the files in which some paths lead to the same contents, and in which the files that
-- a session has open hold the same and can or cannot be rewound alike. What is at other paths may
-- differ.
structure SameFiles (paths : String → Prop) (files files' : Files) (s : Session) : Prop where
  openFile : ∀ path, paths path → files'.openFile path = files.openFile path
  contents : ∀ path file, paths path → files.openFile path = .ok file →
    files'.contents file = files.contents file
  cursors  : ∀ e ∈ s.cursors, files'.contents e.2.file = files.contents e.2.file
  rewound  : ∀ e ∈ s.cursors, files'.rewindFault e.2.file = files.rewindFault e.2.file

theorem SameFiles.mono {paths paths' : String → Prop} (h : s.SameFiles paths files files')
    (hp : ∀ path, paths' path → paths path) : s.SameFiles paths' files files' where
  openFile path hq      := h.openFile path (hp path hq)
  contents path file hq := h.contents path file (hp path hq)
  cursors               := h.cursors
  rewound               := h.rewound

theorem openPath_eq_ok {file : Nat} (h : files.openPath path = .ok file) :
    files.openFile path = .ok file := by
  simp only [Files.openPath] at h
  split at h
  · cases h
  · exact h

theorem acquire_congr_files (ho : files'.openFile path = files.openFile path)
    (hr : ∀ e ∈ s.cursors, files'.rewindFault e.2.file = files.rewindFault e.2.file) :
    s.acquire files' table path = s.acquire files table path := by
  simp only [acquire, Files.openPath, ho]
  split
  case h_1 c hc => rw [hr (table, c) (mem_of_lookup hc)]
  case h_2      => rfl

theorem scan_congr_files {c : Cursor} {schema : Schema} {q : Query}
    (h : files'.contents c.file = files.contents c.file) (s : Session) :
    s.scan files' table c schema q = s.scan files table c schema q := by
  simp only [scan, h]

-- A cursor that is acquired was there already, or its file is the one at the path.
theorem acquire_eq_ok {c : Cursor} (h : (s.acquire files table path).1 = .ok c) :
    (∃ e ∈ s.cursors, e.2.file = c.file) ∨ files.openPath path = .ok c.file := by
  simp only [acquire] at h
  split at h
  case h_1 c' hc =>
    split at h
    case h_1 => cases h
    case h_2 =>
      cases h
      exact .inl ⟨(table, c'), mem_of_lookup hc, rfl⟩
  case h_2 =>
    split at h
    case h_1    => cases h
    case h_2 ho =>
      cases h
      exact .inr ho

theorem read_congr_files (schema : Schema) (q : Query)
    (h : s.SameFiles (s.tablePath table = .ok ·) files files') :
    s.read files' table schema q = s.read files table schema q := by
  simp only [read]
  split
  case h_1 => rfl
  case h_2 path hp =>
    generalize ht : s.trace .scanStart _ = t
    have ht : t.cursors = s.cursors := by rw [←ht]; rfl
    have ha : t.acquire files' table path = t.acquire files table path :=
      acquire_congr_files (h.openFile path hp) (ht ▸ h.rewound)
    rw [ha]
    cases hc : t.acquire files table path with
    | mk result u =>
      cases result
      case error => rfl
      case ok c  =>
        have hf : files'.contents c.file = files.contents c.file := by
          rcases acquire_eq_ok (congrArg Prod.fst hc) with ⟨e, he, hf⟩ | ho
          · exact hf ▸ h.cursors e (ht ▸ he)
          · exact h.contents path c.file hp (openPath_eq_ok ho)
        simp only [scan_congr_files hf]

theorem readTable_congr_files (q : Query)
    (h : s.SameFiles (s.tablePath table = .ok ·) files files') :
    s.readTable files' table q = s.readTable files table q := by
  cases hs : s.config.tables.get? table
  case none        => rw [readTable_of_none hs, readTable_of_none hs]
  case some schema => rw [readTable_of_some hs, readTable_of_some hs, read_congr_files schema q h]

-- A request looks at the path of its table and at no other, whichever schema it uses.
theorem handle_congr_files (request : Json) {paths : String → Prop}
    (h : s.SameFiles paths files files')
    (hp : ∀ table path, s.tablePath table = .ok path → paths path) :
    s.handle files' request = s.handle files request := by
  simp only [handle]
  split
  case h_1 => rfl
  case h_2 table q given _ =>
    have h : s.SameFiles (s.tablePath table = .ok ·) files files' := h.mono (hp table)
    cases given with
    | none        => simp only [readTable_congr_files q h]
    | some schema => simp only [read_congr_files schema q h]

theorem tablePath_liesIn (hv : s.config.validate = .ok delimiter)
    (h : s.tablePath table = .ok path) : Path.LiesIn s.config.path path := by
  obtain ⟨hn, rfl⟩ := tablePath_eq_ok_iff.mp h
  exact (isEntry_fileName hv hn).liesIn

theorem tablePath_distinct {path' : String} (hv : s.config.validate = .ok delimiter)
    (h : s.tablePath table = .ok path) (h' : s.tablePath table' = .ok path')
    (hne : table ≠ table') : Path.components path ≠ Path.components path' := by
  obtain ⟨hn, rfl⟩ := tablePath_eq_ok_iff.mp h
  obtain ⟨hn', rfl⟩ := tablePath_eq_ok_iff.mp h'
  rw [filePath, filePath, Path.components_join (isEntry_fileName hv hn),
    Path.components_join (isEntry_fileName hv hn')]
  intro he
  exact hne (fileName_injective (List.singleton_inj.mp (List.append_cancel_left he)))

-- The cursors that a session has behind some operations. There is one for a table at most, with the
-- file that was found at the path of the table when it was opened.
structure Opened (history : History) (s : Session) : Prop where
  names_nodup : (s.cursors.map (·.1)).Nodup
  of_path     : ∀ e ∈ s.cursors, isTableName e.1 ∧
    ∃ h ∈ history, h.1.openPath (s.filePath e.1) = .ok e.2.file

namespace Opened

variable {history history' : History} {h : Files × Operation}

theorem mono (ho : Opened history s) (hh : ∀ h ∈ history, h ∈ history') : Opened history' s where
  names_nodup  := ho.names_nodup
  of_path e he := by
    obtain ⟨hn, h, hm, hf⟩ := ho.of_path e he
    exact ⟨hn, h, hh h hm, hf⟩

theorem alike (ho : Opened history s) (ha : Alike s t) : Opened history t where
  names_nodup := ha.cursors ▸ ho.names_nodup
  of_path     := by
    simp only [filePath, ha.config, ha.cursors]
    exact ho.of_path

-- A scan is with the file of the cursor that was there, or with one that is opened for it.
theorem step (ho : Opened history s) (hm : h ∈ history) (hs : Step h.1 s t) :
    Opened history t := by
  cases hs
  case stay   => exact ho
  case refuse => exact { ho with }
  case reset  => exact { ho with }
  case close table =>
    constructor
    case names_nodup => exact ho.names_nodup.sublist (List.filter_sublist.map _)
    case of_path     => exact fun e he => ho.of_path e (List.mem_of_mem_filter he)
  case scan table file schema q hn hf =>
    constructor
    case names_nodup => exact nodup_putCursor ho.names_nodup
    case of_path     =>
      intro e he
      rcases mem_putCursor he with rfl | he
      case inr => exact ho.of_path e he
      case inl =>
        refine ⟨hn, ?_⟩
        rcases fileBehind_eq_ok hf with ⟨c, hc, rfl, -⟩ | ⟨-, hf⟩
        · exact (ho.of_path (table, c) (mem_of_lookup hc)).right
        · exact ⟨h, hm, hf⟩

theorem after (h : s.cursors = []) (history : History) : Opened history (s.after history) := by
  induction history using List.reverseRecOn with
  | nil =>
    have hc : (s.after []).cursors = [] := h
    exact ⟨by simp [hc], by simp [hc]⟩
  | append_singleton history h ih =>
    rw [after_append]
    obtain ⟨t, hs, ha⟩ := (s.after history).perform_step h.1 h.2
    exact ((ih.mono fun _ => List.mem_append_left _).step (by simp) hs).alike ha

theorem cursors_distinct (ho : Opened history s) (hv : s.config.validate = .ok delimiter) :
    s.cursors.Pairwise fun e e' => ∀ path path',
      s.tablePath e.1 = .ok path → s.tablePath e'.1 = .ok path' →
      Path.components path ≠ Path.components path' :=
  (List.pairwise_map.mp ho.names_nodup).imp fun hne _ _ h h' => tablePath_distinct hv h h' hne

end Opened

-- How the tables of a session stand to the files, behind some operations:
-- 1. Names that are empty, that stand for the directory or the one above it, or that have a
--    separator or a NUL in them, are refused, and no others.
-- 2. The path of a table leads to an entry of the directory.
-- 3. Different tables have different paths.
-- 4. The cursor of a table has a file that was found at the path of the table.
-- 5. Different cursors are of tables with different paths.
-- 6. A read of a table looks at no other path than that of the table.
-- 7. A request looks at no path that leads out of the directory, whichever schema it uses.
structure Confined (history : History) (s : Session) : Prop where
  refused_iff : ∀ table,
    (s.tablePath table).toBool = false ↔
    table = "" ∨ table = "." ∨ table = ".." ∨
      '/' ∈ table.toList ∨ '\\' ∈ table.toList ∨ '\x00' ∈ table.toList
  refused     : ∀ table e, s.tablePath table = .error e → e.code = "CSVQ_INVALID_TABLE"
  inside      : ∀ table path, s.tablePath table = .ok path → Path.LiesIn s.config.path path
  distinct    : ∀ table table' path path',
    s.tablePath table = .ok path → s.tablePath table' = .ok path' → table ≠ table' →
    Path.components path ≠ Path.components path'
  opened      : ∀ e ∈ s.cursors, ∃ path, s.tablePath e.1 = .ok path ∧
    ∃ h ∈ history, h.1.openPath path = .ok e.2.file
  cursors     : s.cursors.Pairwise fun e e' => ∀ path path',
    s.tablePath e.1 = .ok path → s.tablePath e'.1 = .ok path' →
    Path.components path ≠ Path.components path'
  read        : ∀ table files files', s.SameFiles (s.tablePath table = .ok ·) files files' →
    (∀ schema q, s.read files' table schema q = s.read files table schema q) ∧
    (∀ q, s.readTable files' table q = s.readTable files table q)
  handle      : ∀ files files', s.SameFiles (Path.LiesIn s.config.path) files files' →
    ∀ request, s.handle files' request = s.handle files request

theorem Opened.confined {history : History} (ho : Opened history s)
    (hv : s.config.validate = .ok delimiter) : Confined history s where
  refused_iff table       := by
    have ht : (s.tablePath table).toBool = isTableName table := by
      cases hn : isTableName table <;> simp [tablePath, hn, Except.toBool]
    rw [ht, ←Bool.not_eq_true, isTableName_iff]
    grind
  refused table e h       := by
    obtain ⟨-, rfl⟩ := tablePath_eq_error_iff.mp h
    rfl
  inside table path       := tablePath_liesIn hv
  distinct _ _ _ _        := tablePath_distinct hv
  opened e he             := by
    obtain ⟨hn, hf⟩ := ho.of_path e he
    exact ⟨_, tablePath_eq_ok_iff.mpr ⟨hn, rfl⟩, hf⟩
  cursors                 := ho.cursors_distinct hv
  read table files files' h :=
    ⟨fun schema q => read_congr_files schema q h, fun q => readTable_congr_files q h⟩
  handle files files' h request :=
    handle_congr_files request h fun _ _ => tablePath_liesIn hv

-- Behind any operations from its start on, a session over a valid configuration keeps to the
-- directory of the configuration, and its tables do not collide.
theorem tables_confined (h : config.validate = .ok delimiter) (id openedAt : String)
    (j : Log.Journal) :
    ∃ s, Session.start config id openedAt j = .ok s ∧
      ∀ history, (s.after history).config = config ∧ Confined history (s.after history) := by
  obtain ⟨s, hs⟩ := exists_start h id openedAt j
  obtain ⟨-, hc, -, hcs, -⟩ := start_eq_ok hs
  refine ⟨s, hs, fun history => ?_⟩
  have hc' := (s.after_preserves_config history).trans hc
  exact ⟨hc', (Opened.after hcs history).confined (hc'.symm ▸ h)⟩

-- Without an extension three dots are a name like any other, while two of them are refused.
theorem tables_confined_without_extension :
    let config : Config := { path := "data/", extension := "" }
    let schema : Schema := ⟨["n"], by decide, by decide⟩
    let files : Files := {
      openFile := fun path => .ok path.length
      contents := fun _ => ⟨[], none⟩
    }
    let history : History := [(files, .read "..." schema {}), (files, .read "t" schema {})]
    ∃ s, Session.start config "" "" ⟨.fatal, []⟩ = .ok s ∧
      Confined history (s.after history) ∧
      (s.after history).tablePath "..." = .ok "data/..." ∧
      (s.after history).tablePath ".." = .error (.invalidName "..") ∧
      (s.after history).cursors.map (·.1) = ["...", "t"] := by
  intro config schema files history
  have hv : config.validate = .ok 0x3B := Config.validate_eq_ok_iff.mpr (by decide)
  obtain ⟨s, hs, hc⟩ := tables_confined hv "" "" ⟨.fatal, []⟩
  obtain ⟨hc', hh⟩ := hc history
  obtain ⟨-, hc, -, hcs, -⟩ := start_eq_ok hs
  have hp₁ : Path.join config.path (fileName config "...") = "data/..." := by decide
  have hp₂ : Path.join config.path (fileName config "t") = "data/t" := by decide
  refine ⟨s, hs, hh, ?path, rfl, ?cursors⟩
  case path => exact tablePath_eq_ok_iff.mpr ⟨by decide, by rw [filePath, hc', hp₁]⟩
  case cursors =>
    have hf₁ : s.fileBehind files "..." = .ok 8 := by
      rw [fileBehind, hcs, filePath, hc, hp₁]
      rfl
    obtain ⟨-, ha₁⟩ := read_of_file schema {} (by decide) hf₁
    have hf₂ : (s.read files "..." schema {}).2.fileBehind files "t" = .ok 6 := by
      have hl : (s.read files "..." schema {}).2.cursors.lookup "t" = none := by
        rw [ha₁.cursors, scanned, lookup_putCursor, hcs]
        rfl
      rw [fileBehind, hl, filePath, ha₁.config, scanned, hc, hp₂]
      rfl
    obtain ⟨-, ha₂⟩ := read_of_file schema {} (by decide) hf₂
    have hn : (s.after history).cursors = _ := ha₂.cursors
    rw [hn, scanned, ha₁.cursors, scanned, hcs]
    rfl

end FlatQuery.Session
