import FlatQuery.Proofs.Row.Breaks

/-!
Reading several rows, as a relation between two states of a reader. A row that is closed is read in
the same way whatever comes behind it.
-/

namespace FlatQuery.Row

-- The bytes of a row that cannot go on: they end with a line feed, and the number of quotes in them
-- is even.
structure Closed (row : List UInt8) : Prop where
  ends : row.getLast? = some lf
  even : ¬isOpen row

namespace Reader

-- The rows that are read one after another, from one state of a reader to a later one.
inductive Reads (delimiter : UInt8) : Reader → List Row → Reader → Prop
  | refl {r} : Reads delimiter r [] r
  | step {r₁ r₂ r₃ row rows} :
    (r₁.next delimiter = .row row r₂) → (Reads delimiter r₂ rows r₃) →
    Reads delimiter r₁ (row :: rows) r₃

variable {delimiter : UInt8} {r r' : Reader} {row : Row}

theorem Reads.of_cons {rows : List Row} (h : Reads delimiter r (row :: rows) r') :
    ∃ r₂, r.next delimiter = .row row r₂ ∧ Reads delimiter r₂ rows r' := by
  cases h
  case step r₂ hn hs => exact ⟨r₂, hn, hs⟩

theorem Reads.preserves_fault {rows : List Row} (h : Reads delimiter r rows r') :
    r'.source.fault = r.source.fault := by
  induction h
  case refl         => rfl
  case step hn _ ih => exact ih.trans (next_preserves_fault hn)

theorem Reads.rows_eq {rows : List Row} (h : Reads delimiter r rows r') :
    r.rows delimiter = (rows ++ (r'.rows delimiter).1, (r'.rows delimiter).2) := by
  induction h
  case refl         => rfl
  case step hn _ ih => rw [rows_of_row hn, ih]; rfl

-- The rows of a stream that does not break are read up to its end.
theorem exists_reads_rows (h : r.source.fault = none) :
    ∃ r', Reads delimiter r (r.rows delimiter).1 r' ∧ r'.next delimiter = .done := by
  fun_induction rows delimiter r with
  | case1 r row r' hn rows e he ih =>
    obtain ⟨r'', hr, hd⟩ := ih (next_preserves_fault hn ▸ h)
    rw [he] at hr
    exact ⟨r'', .step hn hr, hd⟩
  | case2 r hn => exact ⟨r, .refl, hn⟩
  | case3 r e hn => simp [fault_of_next_eq_failed hn] at h

-- Only the last row of a stream may not be closed.
theorem next_eq_append (h : r.next delimiter = .row row r') :
    ∃ bytes, r.source.bytes = bytes ++ r'.source.bytes ∧
      (r'.source.bytes ≠ [] → Closed bytes) ∧
      (Closed bytes → ∀ post fault, next delimiter ⟨⟨bytes ++ post, fault⟩, r.line⟩ =
        .row row ⟨⟨post, fault⟩, r'.line⟩) := by
  obtain ⟨⟨bytes, fault⟩, n⟩ := r
  cases hp : parity false bytes
  case none =>
    obtain ⟨text, rest, rfl, ht⟩ := exists_of_parity_eq_none hp
    cases (next_of_parity ht n fault rest).symm.trans h
    have ho : isOpen (text ++ [lf]) = false := by
      rw [isOpen_append, isOpen_of_parity ht]
      rfl
    refine ⟨text ++ [lf], by simp, fun _ => ⟨by simp, by simp [ho]⟩, fun _ post fault => ?_⟩
    rw [List.append_assoc, List.singleton_append, next_of_parity ht n fault post]
  case some odd =>
    cases fault
    case some f => cases (next_of_open hp n f).symm.trans h
    case none   =>
      have hb : bytes ≠ [] := by
        rintro rfl
        cases (next_nil n).symm.trans h
      have hg : parity (isOpen (none.getD [])) bytes = some odd := hp
      cases (next_of_gather (gather_last hg (.inl hb) n)).symm.trans h
      refine ⟨bytes, by simp, by simp, fun hc => ?_⟩
      exact absurd (isOpen_of_getLast? hp hc.ends) hc.even

end Reader

end FlatQuery.Row
