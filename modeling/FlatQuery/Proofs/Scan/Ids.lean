import FlatQuery.Proofs.Record.Restriction
import FlatQuery.Proofs.Row.Breaks
import FlatQuery.Proofs.Row.Partition
import FlatQuery.Proofs.Scan.Pages

/-!
The ids of records. A record has the number of the line on which its row begins, so that the ids of
a page follow from how the rows cover the lines of the stream. The main statement is
`rows_partition_lines`.
-/

namespace FlatQuery

namespace Scan

open Row (lf lines)
open Row.Reader (Reads)

theorem id_recordOf (schema : Schema) (q : Query) (row : Row) :
    (recordOf schema q row).id = row.line := by
  simp only [recordOf]
  split <;> exact Record.id_ofPairs ..

namespace Progress

theorem step_sublist (p : Plan) (s : Progress) (row : Row) :
    ∃ taken : List Row, taken.Sublist [row] ∧
      (s.step p row).page.toList = s.page.toList ++ taken.map p.view := by
  by_cases hm : p.isMatch row
  case neg => exact ⟨[], by simp, by simp [(step_of_not_isMatch hm).right]⟩
  case pos =>
    rw [(step_of_isMatch hm).right]
    split
    case isTrue  => exact ⟨[row], .refl _, by simp⟩
    case isFalse => exact ⟨[], by simp, by simp⟩

-- The records on a page are those of some of the rows, in the order of these.
theorem takeRows_sublist (p : Plan) (s : Progress) (rows : List Row) :
    ∃ taken : List Row, taken.Sublist rows ∧
      (s.takeRows p rows).1.page.toList = s.page.toList ++ taken.map p.view := by
  induction rows generalizing s with
  | nil => exact ⟨[], .slnil, by simp [takeRows]⟩
  | cons row rows ih =>
    obtain ⟨first, hf, hp⟩ := s.step_sublist p row
    obtain ⟨taken, ht, hr⟩ := ih (s.step p row)
    simp only [takeRows]
    split
    case isTrue  => exact ⟨first, hf.trans (by simp), hp⟩
    case isFalse => exact ⟨first ++ taken, hf.append ht, by simp [hr, hp]⟩

end Progress

end Scan

-- A stream that breaks has some of the rows that it would have had.
theorem Row.Reader.rows_prefix (delimiter : UInt8) (bytes : List UInt8) (fault : Option Fault) :
    (rows delimiter ⟨⟨bytes, fault⟩, 0⟩).1 <+: (rows delimiter ⟨⟨bytes, none⟩, 0⟩).1 := by
  cases fault
  case none   => exact List.prefix_refl _
  case some f => simpa using (@rows_of_break delimiter bytes [] 0 f none).left

namespace Window

open Scan

-- What a scan returns are records of different rows, in the order of the stream.
theorem scan_sublist {w : Window} {schema : Schema} {delimiter : UInt8} {q : Query}
    {bytes : List UInt8} {fault : Option Fault} {o : Output} {rs : List Record}
    (h : (w.scan schema delimiter q ⟨bytes, fault⟩).1 = .ok o) (ho : o.outcome = .records rs) :
    ∃ taken : List Row, taken.Sublist (Row.Reader.rows delimiter ⟨⟨bytes, none⟩, 0⟩).1 ∧
      rs = taken.map (recordOf schema q) := by
  have hr := (run_eq_takeRows (.of schema delimiter q (w.forQuery q)) ⟨bytes, fault⟩).left
  obtain ⟨taken, ht, hp⟩ := Progress.takeRows_sublist (.of schema delimiter q (w.forQuery q)) {}
    (Row.Reader.rows delimiter ⟨⟨bytes, fault⟩, 0⟩).1.tail
  have hs := (ht.trans (List.tail_sublist _)).trans
    (Row.Reader.rows_prefix delimiter bytes fault).sublist
  refine ⟨taken, hs, ?_⟩
  rw [Plan.view_of] at hp
  simp only [scan, Run.output] at h
  split at h
  case h_1 => cases h
  case h_2 =>
    cases h
    simp only at ho
    split at ho
    case isTrue  => cases ho
    case isFalse =>
      cases ho
      exact hr ▸ hp.trans (List.nil_append _)

end Window

namespace Scan

open Row (lf lines)
open Row.Reader (Reads)

-- The rows of a stream, and the records of a scan of it:
-- (1) The reader comes to an end, and has counted all lines then.
-- (2) The rows cover these lines one behind another, each up to the first line behind which the
--     number of its quotes is even.
-- (3) The ids of the records on a page increase, and each is the number of line feeds before the
--     row of its record.
theorem rows_partition_lines (delimiter : UInt8) (bytes : List UInt8) :
    let ls := lines bytes
    let rows := (Row.Reader.rows delimiter ⟨⟨bytes, none⟩, 0⟩).1
    ls.length = bytes.count lf + (if bytes = [] ∨ bytes.getLast? = some lf then 0 else 1) ∧
    (∃ r, Reads delimiter ⟨⟨bytes, none⟩, 0⟩ rows r ∧ r.next delimiter = .done ∧
      r.line = ls.length) ∧
    Row.Covers delimiter ls 0 rows ls.length ∧
    (∀ row ∈ rows, row.cells ≠ []) ∧
    (∀ (w : Window) (schema : Schema) (q : Query) (fault : Option Fault) (o : Output)
      (rs : List Record), (w.scan schema delimiter q ⟨bytes, fault⟩).1 = .ok o →
      o.outcome = .records rs →
      rs.Pairwise (·.id < ·.id) ∧
      ∀ r ∈ rs, ∃ row ∈ rows, r = recordOf schema q row ∧
        r.id = (ls.take row.line).flatten.count lf) := by
  intro ls rows
  obtain ⟨r, hr, hd, hl, hc⟩ := Row.Reader.rows_cover delimiter bytes
  refine ⟨Row.length_lines bytes, ⟨r, hr, hd, hl⟩, hc, ?cells, ?ids⟩
  case cells =>
    intro row hrow
    rw [(hc.eq_rowAt hrow).right.right]
    exact Row.split_ne_nil delimiter _
  case ids =>
    intro w schema q fault o rs h ho
    obtain ⟨taken, ht, rfl⟩ := Window.scan_sublist h ho
    refine ⟨?_, ?_⟩
    · rw [List.pairwise_map]
      simp only [id_recordOf]
      exact hc.pairwise.sublist ht
    · intro r hr
      obtain ⟨row, hrow, rfl⟩ := List.mem_map.mp hr
      have hrow := ht.subset hrow
      have hlt := (hc.eq_rowAt hrow).right.left
      exact ⟨row, hrow, rfl, by rw [id_recordOf, Row.count_lf_take hlt]⟩

-- The second row takes up two lines, and the last one has no line feed.
theorem rows_partition_lines_unfinished :
    let bytes := [0x6E, lf, Row.quote, 0x61, lf, 0x62, Row.quote, lf, 0x63]
    let rs : List Record := [⟨1, [("n", .single "a\nb")]⟩, ⟨3, [("n", .single "c")]⟩]
    (∃ stats, ((Window.start 0).scan ⟨["n"], by decide, by decide⟩ 0x3B {} ⟨bytes, none⟩).1 =
      .ok ⟨.records rs, stats⟩) ∧
    rs.Pairwise (·.id < ·.id) ∧
    Row.Covers 0x3B (lines bytes) 0 [⟨0, ["n"]⟩, ⟨1, ["a\nb"]⟩, ⟨3, ["c"]⟩] 4 := by
  intro bytes rs
  have hr : (Row.Reader.rows 0x3B ⟨⟨bytes, none⟩, 0⟩).1 =
      [⟨0, ["n"]⟩, ⟨1, ["a\nb"]⟩, ⟨3, ["c"]⟩] := by
    have h₁ : Row.rawCells 0x3B [0x6E] = ["n".toList].map Text.Utf8.encode := by decide
    have h₂ : Row.rawCells 0x3B [Row.quote, 0x61, lf, 0x62, Row.quote] =
      ["a\nb".toList].map Text.Utf8.encode := by decide
    have h₃ : Row.rawCells 0x3B [0x63] = ["c".toList].map Text.Utf8.encode := by decide
    have hw : Row.rawRows bytes =
      [[0x6E, lf], [Row.quote, 0x61, lf, 0x62, Row.quote, lf], [0x63]] := by decide
    rw [Row.Reader.rows_eq_mapIdx_rawRows, hw]
    change [Row.mk 0 (Row.split 0x3B [0x6E]),
      Row.mk 1 (Row.split 0x3B [Row.quote, 0x61, lf, 0x62, Row.quote]),
      Row.mk 3 (Row.split 0x3B [0x63])] = _
    rw [Row.split_of_rawCells h₁, Row.split_of_rawCells h₂, Row.split_of_rawCells h₃]
    rfl
  obtain ⟨stats, hs⟩ := Window.scan_positive (.start 0) ⟨["n"], by decide, by decide⟩ 0x3B {} bytes
  rw [dataRows, hr] at hs
  have hs := congrArg Prod.fst hs
  obtain ⟨_, _, hc, _, hi⟩ := rows_partition_lines 0x3B bytes
  rw [hr] at hc
  exact ⟨⟨stats, hs⟩, (hi _ _ _ _ _ _ hs rfl).left, hc⟩

end Scan
end FlatQuery
