import FlatQuery.Row.Reader
import FlatQuery.Proofs.Text.Utf8

/-!
The rows of a stream, one behind another, and the only reason why there may be no next one.
-/

namespace FlatQuery

-- A row can only be broken by the fault of its stream.
theorem Row.fault_of_gather_eq_broken {row : Option (List UInt8)} {n m : Nat} {bytes : List UInt8}
    {fault : Option Fault} {f : Fault} (h : gather row n fault bytes = .broken m f) :
    fault = some f := by
  fun_induction gather row n fault bytes with
  | case1 _ _ _ _ _ _ _ _ ih => exact ih h
  | case2 | case4 | case5 | case6 => simp at h
  | case3 => cases h; assumption

-- Only at the end of a stream there is no row.
theorem Row.of_gather_eq_done {row : Option (List UInt8)} {n : Nat} {bytes : List UInt8}
    {fault : Option Fault} (h : gather row n fault bytes = .done) :
    row = none ∧ fault = none ∧ bytes = [] := by
  fun_induction gather row n fault bytes with
  | case1 _ _ _ _ _ _ _ _ ih =>
    have ho := (ih h).left
    simp at ho
  | case2 | case3 | case4 | case5 => simp at h
  | case6 _ bytes text hs hf ht =>
    obtain rfl := splitLine_none hs
    exact ⟨rfl, hf, Decidable.not_not.mp ht⟩

-- The cells of a row whose raw cells are some texts.
theorem Row.split_of_rawCells {delimiter : UInt8} {row : List UInt8} {texts : List (List Char)}
    (h : rawCells delimiter row = texts.map Text.Utf8.encode) :
    split delimiter row = texts.map fun text => trimQuotes (.ofList text) := by
  simp [split, h, cellText, Text.Utf8.decodeLossy_encode]

namespace Row.Reader

variable {delimiter : UInt8} {r r' : Row.Reader}

theorem next_of_gather {text rest : List UInt8} {line : Nat}
    (h : gather none r.line r.source.fault r.source.bytes = .row text line rest) :
    r.next delimiter =
    .row ⟨r.line, split delimiter text⟩ ⟨{ r.source with bytes := rest }, line⟩ := by
  simp [next, h]

theorem fault_of_next_eq_failed {e : ReadError} (h : r.next delimiter = .failed e) :
    r.source.fault = some e.fault := by
  simp only [next] at h
  split at h
  case h_3 hg =>
    cases Next.failed.inj h
    exact fault_of_gather_eq_broken hg
  all_goals simp at h

theorem next_preserves_fault {row : Row} (h : r.next delimiter = .row row r') :
    r'.source.fault = r.source.fault := by
  simp only [next] at h
  split at h
  case h_1 => cases (Next.row.inj h).2; rfl
  all_goals simp at h

-- A row is found on the line that is read next.
theorem line_of_next {row : Row} (h : r.next delimiter = .row row r') : row.line = r.line := by
  simp only [next] at h
  split at h
  case h_1 => cases (Next.row.inj h).1; rfl
  all_goals simp at h

theorem source_of_next_eq_done (h : r.next delimiter = .done) : r.source = ⟨[], none⟩ := by
  simp only [next] at h
  split at h
  case h_2 hg =>
    obtain ⟨_, hf, hb⟩ := of_gather_eq_done hg
    cases hr : r.source
    simp_all
  all_goals simp at h

theorem next_nil (n : Nat) : next delimiter ⟨⟨[], none⟩, n⟩ = .done := by
  rw [next, gather.eq_def]
  rfl

theorem rows_of_row {row : Row} (h : r.next delimiter = .row row r') :
    r.rows delimiter = (row :: (r'.rows delimiter).1, (r'.rows delimiter).2) := by
  rw [rows]
  split <;> simp_all

theorem rows_of_done (h : r.next delimiter = .done) : r.rows delimiter = ([], none) := by
  rw [rows]
  split <;> simp_all

theorem rows_of_failed {e : ReadError} (h : r.next delimiter = .failed e) :
    r.rows delimiter = ([], some e) := by
  rw [rows]
  split <;> simp_all

theorem rows_snd_eq_none (h : r.source.fault = none) : (r.rows delimiter).2 = none := by
  fun_induction rows delimiter r with
  | case1 r row r' hn rows e he ih => simpa [he] using ih (next_preserves_fault hn ▸ h)
  | case2 => rfl
  | case3 r e hn => simp [fault_of_next_eq_failed hn] at h

end Row.Reader

end FlatQuery
