import FlatQuery.Proofs.Row.LineEnds
import FlatQuery.Proofs.Row.RawRows
import FlatQuery.Proofs.Scan.Pages

/-!
Scans of streams that differ in how their lines end. Two readers with the same texts in front of
them find the same rows, so that the two scans find the same and stop on the same row. The main
statement is `Window.scan_line_ends`.
-/

namespace FlatQuery

open Row (lf cr)

namespace Scan

-- Two scans that found the same, and read the same number of lines.
structure Run.Alike (a b : Run) : Prop where
  progress : b.progress = a.progress
  ending   : b.ending = a.ending
  line     : b.reader.line = a.reader.line

theorem Run.Alike.output {a b : Run} (h : a.Alike b) (countOnly : Bool) :
    b.output countOnly = a.output countOnly := by
  simp only [Run.output, h.progress, h.ending, h.line]

theorem collect_alike {r t : Row.Reader} (h : r.SameTexts t) (p : Plan) (s : Progress) :
    (collect p s r).Alike (collect p s t) := by
  cases h.next p.delimiter
  case done hr ht =>
    rw [collect_of_done hr, collect_of_done ht]
    exact ⟨rfl, rfl, h.line⟩
  case failed hr ht =>
    rw [collect_of_failed hr, collect_of_failed ht]
    exact ⟨rfl, rfl, h.line⟩
  case row row r' t' hr ht h' =>
    rw [collect_of_row hr, collect_of_row ht]
    split
    case isTrue  => exact ⟨rfl, rfl, h'.line⟩
    case isFalse => exact collect_alike h' p (s.step p row)
termination_by r.source.bytes.length
decreasing_by exact Row.Reader.length_next (by assumption)

theorem run_alike {s t : Source} (h : Row.SameTexts s t) (p : Plan) :
    (run p s).Alike (run p t) := by
  have hs : Row.Reader.SameTexts ⟨s, 0⟩ ⟨t, 0⟩ := ⟨h, rfl⟩
  cases hs.next p.delimiter
  case done hr ht =>
    simp only [run, hr, ht]
    exact ⟨rfl, rfl, rfl⟩
  case failed hr ht =>
    simp only [run, hr, ht]
    exact ⟨rfl, rfl, rfl⟩
  case row hr ht h' =>
    simp only [run, hr, ht]
    exact collect_alike h' p {}

end Scan

namespace Window

theorem scan_congr {s t : Source} (h : Row.SameTexts s t) (w : Window) (schema : Schema)
    (delimiter : UInt8) (q : Query) :
    w.scan schema delimiter q t = w.scan schema delimiter q s := by
  simp only [scan, (Scan.run_alike h _).output]

-- What a scan returns, and the window that it leaves, do not depend on how the lines end:
-- (1) A carriage return in front of each line feed changes nothing, inside of quoted cells as well,
--     and also if the stream breaks.
-- (2) A line feed behind the last line changes nothing, even where a quoted cell is still open.
theorem scan_line_ends (w : Window) (schema : Schema) (delimiter : UInt8) (q : Query)
    (bytes : List UInt8) :
    (cr ∉ bytes → ∀ fault, w.scan schema delimiter q ⟨Row.withReturns bytes, fault⟩ =
      w.scan schema delimiter q ⟨bytes, fault⟩) ∧
    (bytes ≠ [] → bytes.getLast? ≠ some lf →
      w.scan schema delimiter q ⟨bytes ++ [lf], none⟩ =
      w.scan schema delimiter q ⟨bytes, none⟩) where
  left h fault := scan_congr (.withReturns h fault) w schema delimiter q
  right hn hl  := scan_congr (.append_lf hn hl) w schema delimiter q

-- A cell that spans a blank line, and that is not closed before the stream ends.
theorem scan_line_ends_open_cell :
    let bytes := [0x6E, lf, Row.quote, 0x61, lf, lf, 0x62]
    let scan := fun bytes => (start 0).scan ⟨["n"], by decide, by decide⟩ 0x3B {} ⟨bytes, none⟩
    ∃ stats w,
      scan bytes = (.ok ⟨.records [⟨1, [("n", .single "a\n\nb")]⟩], stats⟩, w) ∧
      scan [0x6E, cr, lf, Row.quote, 0x61, cr, lf, cr, lf, 0x62] = scan bytes ∧
      scan (bytes ++ [lf]) = scan bytes := by
  intro bytes scan
  have hr : (Row.Reader.rows 0x3B ⟨⟨bytes, none⟩, 0⟩).1 = [⟨0, ["n"]⟩, ⟨1, ["a\n\nb"]⟩] := by
    have h₁ : Row.rawCells 0x3B [0x6E] = ["n".toList].map Text.Utf8.encode := by decide
    have h₂ : Row.rawCells 0x3B [Row.quote, 0x61, lf, lf, 0x62] =
      ["a\n\nb".toList].map Text.Utf8.encode := by decide
    have hw : Row.rawRows bytes = [[0x6E, lf], [Row.quote, 0x61, lf, lf, 0x62]] := by decide
    rw [Row.Reader.rows_eq_mapIdx_rawRows, hw]
    change [Row.mk 0 (Row.split 0x3B [0x6E]),
      Row.mk 1 (Row.split 0x3B [Row.quote, 0x61, lf, lf, 0x62])] = _
    rw [Row.split_of_rawCells h₁, Row.split_of_rawCells h₂]
    rfl
  obtain ⟨stats, hs⟩ := scan_positive (.start 0) ⟨["n"], by decide, by decide⟩ 0x3B {} bytes
  rw [Scan.dataRows, hr] at hs
  obtain ⟨hc, hf⟩ := scan_line_ends (start 0) ⟨["n"], by decide, by decide⟩ 0x3B {} bytes
  exact ⟨stats, _, hs, hc (by decide) none, hf (by decide) (by decide)⟩

end Window
end FlatQuery
