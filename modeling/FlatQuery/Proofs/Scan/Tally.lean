import FlatQuery.Proofs.Row.Partition
import FlatQuery.Proofs.Scan.Breaks
import FlatQuery.Proofs.Scan.Ids

/-!
How the counts of a scan add up, and that a scan which has filled its page depends on the lines that
it has read alone. The main statement is `Window.scan_tally`.
-/

namespace FlatQuery

open Row (lf quote lines bytesBetween Closed)
open Row.Reader (Reads)

namespace Scan

namespace Plan

def isMalformed (p : Plan) (row : Row) : Bool :=
  row.cells.length < p.schema.width

-- Whether a row has enough cells, but does not satisfy the conditions.
def isRejected (p : Plan) (row : Row) : Bool :=
  p.schema.width ≤ row.cells.length &&
    !(Record.decode row.line p.schema row.cells).satisfies p.conditions

variable {p : Plan}

-- Every row is malformed, rejected or a match.
theorem length_eq_add (p : Plan) (rows : List Row) :
    rows.length = rows.countP p.isMalformed + rows.countP p.isRejected + rows.countP p.isMatch := by
  induction rows with
  | nil => rfl
  | cons row rows ih =>
    have hr :
        [row].countP p.isMalformed + [row].countP p.isRejected + [row].countP p.isMatch = 1 := by
      by_cases hw : row.cells.length < p.schema.width
      case pos => simp [isMalformed, isRejected, isMatch, Scan.isMatch, hw, Nat.not_le.mpr hw]
      case neg =>
        cases hs : (Record.decode row.line p.schema row.cells).satisfies p.conditions
        all_goals simp [isMalformed, isRejected, isMatch, Scan.isMatch, hw, hs]
    rw [←List.singleton_append, List.length_append, List.countP_append, List.countP_append,
      List.countP_append, ih, List.length_singleton]
    omega

end Plan

variable {p : Plan} {s : Progress} {r r' : Row.Reader} {rows : List Row}

namespace Progress

theorem foldl_step_malformed (p : Plan) (s : Progress) (rows : List Row) :
    (rows.foldl (step p) s).malformed.size = s.malformed.size + rows.countP p.isMalformed := by
  induction rows generalizing s with
  | nil => rfl
  | cons row rows ih =>
    have hs : (s.step p row).malformed.size =
        s.malformed.size + if p.isMalformed row then 1 else 0 := by
      simp only [step, Plan.isMalformed, decide_eq_true_eq]
      split
      · simp
      · split <;> rfl
    rw [List.foldl_cons, ih, hs, List.countP_cons]
    omega

-- The page is full behind the last of some rows, and not before.
inductive FilledBy (p : Plan) : Progress → List Row → Prop
  | last {s row} : ((s.step p row).isFull p) → FilledBy p s [row]
  | cons {s row rows} :
    (¬(s.step p row).isFull p) → (FilledBy p (s.step p row) rows) → FilledBy p s (row :: rows)

namespace FilledBy

theorem ne_nil (h : s.FilledBy p rows) : rows ≠ [] := by
  cases h <;> simp

-- The row that fills a page adds its last record.
theorem size_page (h : s.FilledBy p rows) (hs : ¬s.isFull p) :
    (rows.foldl (step p) s).page.size = p.limit := by
  induction h
  case cons hn _ ih   => exact ih hn
  case last s row hf =>
    have hle : (s.step p row).page.size ≤ s.page.size + 1 := size_step_le
    simp only [isFull, decide_eq_true_eq] at hf hs
    rw [List.foldl_cons, List.foldl_nil]
    omega

end FilledBy
end Progress

-- What a scan does with the rows that it takes from a reader.
structure Takes (p : Plan) (s : Progress) (r : Row.Reader) (rows : List Row) (run : Run) :
    Prop where
  reads       : Reads p.delimiter r rows run.reader
  progress_eq : run.progress = rows.foldl (Progress.step p) s
  filled      : run.ending = .full → s.FilledBy p rows
  all_taken   : run.ending = .done → run.reader.next p.delimiter = .done
  not_full    : run.ending = .done → ¬s.isFull p → ¬run.progress.isFull p

namespace Takes

theorem of_done (h : r.next p.delimiter = .done) : Takes p s r [] ⟨s, .done, r⟩ where
  reads        := .refl
  progress_eq  := rfl
  filled he    := by cases he
  all_taken _  := h
  not_full _ h := h

theorem of_failed (e : ReadError) : Takes p s r [] ⟨s, .broken e, r⟩ where
  reads        := .refl
  progress_eq  := rfl
  filled he    := by cases he
  all_taken he := by cases he
  not_full he  := by cases he

theorem of_full {row : Row} (h : r.next p.delimiter = .row row r')
    (hf : (s.step p row).isFull p) : Takes p s r [row] ⟨s.step p row, .full, r'⟩ where
  reads        := .step h .refl
  progress_eq  := rfl
  filled _     := .last hf
  all_taken he := by cases he
  not_full he  := by cases he

theorem cons {row : Row} {run : Run} (h : r.next p.delimiter = .row row r')
    (hf : ¬(s.step p row).isFull p) (ht : Takes p (s.step p row) r' rows run) :
    Takes p s r (row :: rows) run where
  reads         := .step h ht.reads
  progress_eq   := ht.progress_eq
  filled he     := .cons hf (ht.filled he)
  all_taken     := ht.all_taken
  not_full he _ := ht.not_full he hf

end Takes

theorem collect_takes (p : Plan) (s : Progress) (r : Row.Reader) :
    ∃ rows, Takes p s r rows (collect p s r) := by
  fun_induction collect p s r with
  | case1 s r hn => exact ⟨[], .of_done hn⟩
  | case2 s r e hn => exact ⟨[], .of_failed e⟩
  | case3 s r row r' hn s' hf => exact ⟨[row], .of_full hn hf⟩
  | case4 s r row r' hn s' hf ih =>
    obtain ⟨rows, ht⟩ := ih
    exact ⟨row :: rows, ht.cons hn hf⟩

-- A scan does not look behind the row that fills its page.
theorem collect_of_filledBy (h : Reads p.delimiter r rows r') (hf : s.FilledBy p rows) :
    collect p s r = ⟨rows.foldl (Progress.step p) s, .full, r'⟩ := by
  induction hf generalizing r
  case last hf =>
    cases h
    case step hn hs => cases hs; rw [collect_of_row hn, if_pos hf]; rfl
  case cons hf _ ih =>
    cases h
    case step hn hs => rw [collect_of_row hn, if_neg hf, ih hs]; rfl

-- What a scan does with the rows of a stream. The first of them is the header.
structure Consumes (p : Plan) (source : Source) (consumed : List Row) : Prop where
  reads       : Reads p.delimiter ⟨source, 0⟩ consumed (run p source).reader
  progress_eq : (run p source).progress = consumed.tail.foldl (Progress.step p) {}
  filled      : (run p source).ending = .full → Progress.FilledBy p {} consumed.tail
  all_taken   : (run p source).ending = .done → (run p source).reader.next p.delimiter = .done
  not_full    : (run p source).ending = .done → ¬(run p source).progress.isFull p

theorem exists_consumes (h : p.Positive) (source : Source) :
    ∃ consumed, Consumes p source consumed := by
  cases hn : Row.Reader.next p.delimiter ⟨source, 0⟩
  case done =>
    have hr : run p source = ⟨{}, .done, ⟨source, 0⟩⟩ := by simp [run, hn]
    exact ⟨[], by rw [hr]; exact .refl, by rw [hr]; rfl, by simp [hr], by simp [hr, hn],
      by simp [hr, Progress.not_isFull_empty h]⟩
  case failed e =>
    have hr : run p source = ⟨{}, .broken e, ⟨source, 0⟩⟩ := by simp [run, hn]
    exact ⟨[], by rw [hr]; exact .refl, by rw [hr]; rfl, by simp [hr], by simp [hr], by simp [hr]⟩
  case row header r =>
    have hr : run p source = collect p {} r := by simp [run, hn]
    obtain ⟨rows, ht⟩ := collect_takes p {} r
    rw [←hr] at ht
    exact ⟨header :: rows, .step hn ht.reads, ht.progress_eq, ht.filled, ht.all_taken,
      fun he => ht.not_full he (Progress.not_isFull_empty h)⟩

-- A scan that fills its page with a closed row does so whatever comes behind this row.
theorem run_append {consumed : List Row} {source : Source}
    (h : Reads p.delimiter ⟨source, 0⟩ consumed r) (hf : Progress.FilledBy p {} consumed.tail)
    (hc : ∀ last ∈ consumed.getLast?, Closed (bytesBetween (lines source.bytes) last.line r.line))
    (post : List UInt8) (fault : Option Fault) :
    run p ⟨bytesBetween (lines source.bytes) 0 r.line ++ post, fault⟩ =
    ⟨consumed.tail.foldl (Progress.step p) {}, .full, ⟨⟨post, fault⟩, r.line⟩⟩ := by
  have ha := h.append (.start source) hc post fault
  cases consumed
  case nil => exact absurd rfl hf.ne_nil
  case cons header rows =>
    obtain ⟨r₂, hn, hs⟩ := ha.of_cons
    simp only [run, hn]
    exact collect_of_filledBy hs hf

theorem Run.of_output_eq_ok {run : Run} {countOnly : Bool} {o : Output}
    (h : run.output countOnly = .ok o) :
    (run.ending = .full ∨ run.ending = .done) ∧ o.outcome.size = run.progress.page.size ∧
    o.stats = ⟨run.reader.line, run.progress.malformed.size, run.progress.matched,
      run.progress.page.size, run.ending == .full⟩ := by
  simp only [output] at h
  split at h
  case h_1 => cases h
  case h_2 he =>
    cases h
    refine ⟨?_, ?_, rfl⟩
    · cases hr : run.ending <;> simp_all
    · cases countOnly <;> rfl

namespace Consumes

variable {source : Source} {consumed : List Row}

theorem malformed_eq (h : Consumes p source consumed) :
    (run p source).progress.malformed.size = consumed.tail.countP p.isMalformed := by
  rw [h.progress_eq, Progress.foldl_step_malformed]
  exact Nat.zero_add _

theorem matched_eq (h : Consumes p source consumed) (hp : p.Positive) :
    (run p source).progress.matched = consumed.tail.countP p.isMatch := by
  rw [h.progress_eq, (Progress.foldl_step hp _).left, List.countP_eq_length_filter]

theorem size_page (h : Consumes p source consumed) (hp : p.Positive) :
    (run p source).progress.page.size = (run p source).progress.matched - p.offset := by
  rw [h.matched_eq hp, h.progress_eq, ←Array.length_toList, (Progress.foldl_step hp _).right,
    List.length_map, List.length_drop, List.countP_eq_length_filter]

theorem size_page_of_full (h : Consumes p source consumed) (hp : p.Positive)
    (he : (run p source).ending = .full) : (run p source).progress.page.size = p.limit := by
  rw [h.progress_eq]
  exact (h.filled he).size_page (Progress.not_isFull_empty hp)

theorem size_page_of_done (h : Consumes p source consumed)
    (he : (run p source).ending = .done) : (run p source).progress.page.size < p.limit := by
  simpa [Progress.isFull] using h.not_full he

-- No more matches are found than there are in the whole stream, and all of them if it is read to
-- its end.
theorem matched_le (h : Consumes p source consumed) (hp : p.Positive) :
    (run p source).progress.matched ≤ (dataRows p.delimiter source.bytes).countP p.isMatch := by
  have hr := Row.Reader.rows_prefix p.delimiter source.bytes source.fault
  rw [h.reads.rows_eq] at hr
  have hc := (List.prefix_append ..).trans hr
  rw [h.matched_eq hp]
  exact (List.Sublist.tail hc.sublist).countP_le

theorem matched_of_done (h : Consumes p source consumed) (hp : p.Positive)
    (he : (run p source).ending = .done) :
    (run p source).progress.matched = (dataRows p.delimiter source.bytes).countP p.isMatch := by
  have hs := Row.Reader.source_of_next_eq_done (h.all_taken he)
  have hf : source.fault = none := by rw [←h.reads.preserves_fault, hs]
  have hn : source = ⟨source.bytes, none⟩ := by cases source; cases hf; rfl
  have hr := h.reads.rows_eq
  rw [Row.Reader.rows_of_done (h.all_taken he), List.append_nil] at hr
  rw [h.matched_eq hp, dataRows, ←hn, hr]

end Consumes

-- How the output of a scan goes together with the rows that it has consumed.
structure Tally (p : Plan) (bytes : List UInt8) (consumed : List Row) (o : Output) : Prop where
  -- Behind the header, every row is malformed, rejected or a match.
  length_eq : consumed ≠ [] → consumed.length =
    1 + o.stats.malformed + consumed.tail.countP p.isRejected + o.stats.matched
  malformed_eq : o.stats.malformed = consumed.tail.countP p.isMalformed
  -- The line behind the last row that was consumed.
  lines_read : Row.Covers p.delimiter (lines bytes) 0 consumed o.stats.linesRead
  matched_eq : o.stats.matched =
    min (p.page * p.limit) ((dataRows p.delimiter bytes).countP p.isMatch)
  returned_eq : o.stats.returned = o.stats.matched - (p.page - 1) * p.limit
  size_eq : o.outcome.size = o.stats.returned
  stopped_iff : o.stats.stoppedAtLimit ↔ o.stats.returned = p.limit

theorem Consumes.tally {source : Source} {consumed : List Row} {countOnly : Bool} {o : Output}
    (h : Consumes p source consumed) (hp : p.Positive)
    (ho : (run p source).output countOnly = .ok o) : Tally p source.bytes consumed o := by
  obtain ⟨he, hz, hs⟩ := Run.of_output_eq_ok ho
  obtain ⟨outcome, stats⟩ := o
  cases hs
  have hsize := h.size_page hp
  have hle := h.matched_le hp
  have hn := p.offset_add_limit hp
  have hl := hp.limit
  refine ⟨?length, h.malformed_eq, (h.reads.covers (.start source)).left, ?matched, hsize, hz,
    ?stopped⟩
  case length =>
    intro hne
    have ht := p.length_eq_add consumed.tail
    rw [List.length_tail, ←h.malformed_eq, ←h.matched_eq hp] at ht
    have := List.length_pos_iff.mpr hne
    simp only
    omega
  case matched =>
    simp only
    cases he
    case inl he =>
      have := h.size_page_of_full hp he
      omega
    case inr he =>
      have := h.size_page_of_done he
      have := h.matched_of_done hp he
      omega
  case stopped =>
    cases he
    case inl he => simp [he, h.size_page_of_full hp he]
    case inr he => simp [he, Nat.ne_of_lt (h.size_page_of_done he)]

end Scan

namespace Window

open Scan

-- A scan that succeeds has consumed some rows, with which its output goes together. If its page is
-- full and the last of these rows is closed, the output is the same for all bytes behind this row.
theorem scan_tally {w : Window} (hw : w.Reachable) {schema : Schema} {delimiter : UInt8} {q : Query}
    {source : Source} {o : Output} (ho : (w.scan schema delimiter q source).1 = .ok o) :
    let p := Plan.of schema delimiter q (w.forQuery q)
    let ls := lines source.bytes
    ∃ consumed, Reads delimiter ⟨source, 0⟩ consumed (run p source).reader ∧
      Tally p source.bytes consumed o ∧
      (o.stats.stoppedAtLimit →
        (∀ last ∈ consumed.getLast?, Closed (bytesBetween ls last.line o.stats.linesRead)) →
        ∀ post fault, (w.scan schema delimiter q
          ⟨bytesBetween ls 0 o.stats.linesRead ++ post, fault⟩).1 = .ok o) := by
  intro p ls
  have hp : p.Positive := (hw.positive.forQuery q).plan schema delimiter q
  obtain ⟨consumed, hc⟩ := exists_consumes hp source
  refine ⟨consumed, hc.reads, hc.tally hp ho, ?_⟩
  obtain ⟨he, _, hs⟩ := Run.of_output_eq_ok ho
  rw [hs]
  intro hstop hclosed post fault
  have hfull : (run p source).ending = .full := by simpa using hstop
  have hr := run_append hc.reads (hc.filled hfull) hclosed post fault
  have houtput : (run p source).output q.countOnly = .ok o := ho
  change (run p _).output q.countOnly = _
  rw [hr, ←houtput]
  simp [Run.output, hfull, hc.progress_eq]

-- One row is malformed, one is rejected and takes up two lines, and the next one fills the page.
theorem scan_tally_stopped :
    let bytes := [0x61, 0x3B, 0x62, lf, 0x31, lf,
      0x78, 0x3B, quote, 0x70, lf, 0x71, quote, lf, 0x79, 0x3B, 0x32, lf]
    let schema : Schema := ⟨["a", "b"], by decide, by decide⟩
    let q : Query := { conditions := [.field "a" .eq (.text "y")], limit := some 1 }
    let o : Output := ⟨.records [⟨4, [("a", .single "y"), ("b", .single "2")]⟩], ⟨5, 1, 1, 1, true⟩⟩
    (start 0).Reachable ∧
    ((start 0).scan schema 0x3B q ⟨bytes ++ [0x79, 0x3B, 0x33, lf], none⟩).1 = .ok o ∧
    ∀ post fault, ((start 0).scan schema 0x3B q ⟨bytes ++ post, fault⟩).1 = .ok o := by
  intro bytes schema q o
  let p := Plan.of schema 0x3B q ((start 0).forQuery q)
  let source : Source := ⟨bytes ++ [0x79, 0x3B, 0x33, lf], none⟩
  have next_row (text : List UInt8) (texts : List (List Char)) (n : Nat) (rest : List UInt8)
      (hp : Row.parity false text = some false)
      (hc : Row.rawCells 0x3B (Row.dropReturns Row.cr lf (text ++ [lf])).dropLast =
        texts.map Text.Utf8.encode) :
      Row.Reader.next 0x3B ⟨⟨text ++ lf :: rest, none⟩, n⟩ =
      .row ⟨n, texts.map fun text => trimQuotes (.ofList text)⟩
        ⟨⟨rest, none⟩, n + text.count lf + 1⟩ := by
    rw [Row.Reader.next_of_parity hp n none rest, Row.split_of_rawCells hc]
  have h₀ := next_row [0x61, 0x3B, 0x62] ["a".toList, "b".toList] 0 (source.bytes.drop 4)
    (by decide) (by decide)
  have h₁ := next_row [0x31] ["1".toList] 1 (source.bytes.drop 6) (by decide) (by decide)
  have h₂ := next_row [0x78, 0x3B, quote, 0x70, lf, 0x71, quote] ["x".toList, "p\nq".toList] 2
    (source.bytes.drop 14) (by decide) (by decide)
  have h₃ := next_row [0x79, 0x3B, 0x32] ["y".toList, "2".toList] 4 (source.bytes.drop 18)
    (by decide) (by decide)
  let data : List Row := [⟨1, ["1"]⟩, ⟨2, ["x", "p\nq"]⟩, ⟨4, ["y", "2"]⟩]
  let r : Row.Reader := ⟨⟨[0x79, 0x3B, 0x33, lf], none⟩, 5⟩
  have hdata : Reads 0x3B ⟨⟨source.bytes.drop 4, none⟩, 1⟩ data r :=
    .step h₁ (.step h₂ (.step h₃ .refl))
  have hreads : Reads 0x3B ⟨source, 0⟩ (⟨0, ["a", "b"]⟩ :: data) r := .step h₀ hdata
  have hrun : run p source = ⟨data.foldl (Progress.step p) {}, .full, r⟩ := by
    have hn : Row.Reader.next p.delimiter ⟨source, 0⟩ = .row _ _ := h₀
    simp only [run, hn]
    exact collect_of_filledBy hdata (.cons (by decide) (.cons (by decide) (.last (by decide))))
  have ho : ((start 0).scan schema 0x3B q source).1 = .ok o := by
    change (run p source).output q.countOnly = _
    rw [hrun]
    decide
  obtain ⟨consumed, hc, _, ht⟩ := scan_tally (.start 0) ho
  have hc : Reads 0x3B ⟨source, 0⟩ consumed (run p source).reader := hc
  rw [hrun] at hc
  obtain rfl := hc.deterministic hreads
  refine ⟨.start 0, ho, ht rfl ?_⟩
  intro last hl
  cases hl
  exact ⟨by decide, by decide⟩

end Window
end FlatQuery
