import FlatQuery.Proofs.Row.Reader
import FlatQuery.Scan.Basic

/-!
Scans as runs over a list of rows. A scan takes rows one after another, and what it has found in
some rows does not depend on where they were read from.
-/

namespace FlatQuery

namespace Scan

-- Takes rows until the page is full, and says whether it is.
def Progress.takeRows (p : Plan) (s : Progress) : List Row → Progress × Bool
  | [] => (s, false)
  | row :: rows =>
    if (s.step p row).isFull p then (s.step p row, true)
    else (s.step p row).takeRows p rows

-- The ending of a scan that is not stopped by a full page.
def Ending.ofError? : Option ReadError → Ending
  | none => .done
  | some e => .broken e

variable {p : Plan} {r r' : Row.Reader}

theorem collect_of_done (h : r.next p.delimiter = .done) (s : Progress) :
    collect p s r = ⟨s, .done, r⟩ := by
  rw [collect]
  split <;> simp_all

theorem collect_of_failed {e : ReadError} (h : r.next p.delimiter = .failed e) (s : Progress) :
    collect p s r = ⟨s, .broken e, r⟩ := by
  rw [collect]
  split <;> simp_all

theorem collect_of_row {row : Row} (h : r.next p.delimiter = .row row r') (s : Progress) :
    collect p s r =
    if (s.step p row).isFull p then ⟨s.step p row, .full, r'⟩ else collect p (s.step p row) r' := by
  rw [collect]
  split <;> simp_all

theorem collect_eq_takeRows (p : Plan) (s : Progress) (r : Row.Reader) :
    (collect p s r).progress = (s.takeRows p (r.rows p.delimiter).1).1 ∧
    (collect p s r).ending =
      if (s.takeRows p (r.rows p.delimiter).1).2 then .full
      else .ofError? (r.rows p.delimiter).2 := by
  fun_induction collect p s r with
  | case1 s r hn => simp [Row.Reader.rows_of_done hn, Progress.takeRows, Ending.ofError?]
  | case2 s r e hn => simp [Row.Reader.rows_of_failed hn, Progress.takeRows, Ending.ofError?]
  | case3 s r row r' hn s' hf =>
    have hf : (s.step p row).isFull p := hf
    simp [Row.Reader.rows_of_row hn, Progress.takeRows, hf, s']
  | case4 s r row r' hn s' hf ih =>
    have hf : ¬(s.step p row).isFull p := hf
    simpa [Row.Reader.rows_of_row hn, Progress.takeRows, hf] using ih

-- The first row is the header, if there is one.
theorem run_eq_takeRows (p : Plan) (source : Source) :
    (run p source).progress =
      (Progress.takeRows p {} (Row.Reader.rows p.delimiter ⟨source, 0⟩).1.tail).1 ∧
    (run p source).ending =
      if (Progress.takeRows p {} (Row.Reader.rows p.delimiter ⟨source, 0⟩).1.tail).2 then .full
      else .ofError? (Row.Reader.rows p.delimiter ⟨source, 0⟩).2 := by
  simp only [run]
  split
  case h_1 hn => simp [Row.Reader.rows_of_done hn, Progress.takeRows, Ending.ofError?]
  case h_2 hn => simp [Row.Reader.rows_of_failed hn, Progress.takeRows, Ending.ofError?]
  case h_3 hn => simpa [Row.Reader.rows_of_row hn] using collect_eq_takeRows p {} _

end Scan
end FlatQuery
