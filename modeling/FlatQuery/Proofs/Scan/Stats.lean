import FlatQuery.Proofs.Row.Boundaries
import FlatQuery.Proofs.Scan.Window

/-!
What a scan counts. Every row that it takes is on a line of its own, and is malformed or a match or
neither, so that the counts bound each other.
-/

namespace FlatQuery

namespace Scan

-- A progress for which no more than some lines were read, each row on at least one of them.
structure Progress.Bounded (s : Progress) (lines : Nat) : Prop where
  page_le  : s.page.size ≤ s.matched
  found_le : s.matched + s.malformed.size ≤ lines

namespace Progress.Bounded

variable {s : Progress} {m n : Nat}

theorem empty (n : Nat) : Bounded {} n where
  page_le  := Nat.zero_le _
  found_le := Nat.zero_le _

theorem mono (h : s.Bounded m) (hn : m ≤ n) : s.Bounded n :=
  { h with found_le := Nat.le_trans h.found_le hn }

theorem step (h : s.Bounded n) (p : Plan) (row : Row) : (s.step p row).Bounded (n + 1) := by
  obtain ⟨hp, hf⟩ := h
  simp only [Progress.step]
  split
  case isTrue => exact ⟨hp, by simp only [Array.size_push]; omega⟩
  case isFalse =>
    split
    case isFalse => exact ⟨hp, Nat.le_succ_of_le hf⟩
    case isTrue =>
      refine ⟨?_, by simp only; omega⟩
      split
      · simpa using hp
      · exact Nat.le_succ_of_le hp

end Progress.Bounded

theorem collect_bounded (p : Plan) (s : Progress) (r : Row.Reader) (h : s.Bounded r.line) :
    (collect p s r).progress.Bounded (collect p s r).reader.line := by
  fun_induction collect p s r with
  | case1 | case2 => exact h
  | case3 s r row r' hn => exact (h.step p row).mono (Row.Reader.line_lt_of_next hn)
  | case4 s r row r' hn _ _ ih =>
    exact ih ((h.step p row).mono (Row.Reader.line_lt_of_next hn))

theorem run_bounded (p : Plan) (source : Source) :
    (run p source).progress.Bounded (run p source).reader.line := by
  simp only [run]
  split
  case h_1 | h_2 => exact .empty _
  case h_3 r _   => exact collect_bounded p {} r (.empty _)

-- Statistics in which no row is counted that was not read.
structure Stats.Bounded (n : Stats) : Prop where
  returned_le : n.returned ≤ n.matched
  found_le    : n.matched + n.malformed ≤ n.linesRead

end Scan

theorem Window.scan_bounded {w : Window} {schema : Schema} {delimiter : UInt8} {q : Query}
    {source : Source} {o : Scan.Output} (h : (w.scan schema delimiter q source).1 = .ok o) :
    o.stats.Bounded := by
  have hb := Scan.run_bounded (.of schema delimiter q (w.forQuery q)) source
  simp only [scan, Scan.Run.output] at h
  split at h
  case h_1 => cases h
  case h_2 =>
    cases h
    exact ⟨hb.page_le, hb.found_le⟩

end FlatQuery
