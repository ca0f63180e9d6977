import FlatQuery.Proofs.Row.RoundTrip
import FlatQuery.Proofs.Scan.Rows
import FlatQuery.Proofs.Scan.Window
import Mathlib.Data.List.Induction

/-!
A page is a slice of the matching rows. A scan computes no offset: it counts the matches, and
passes those over that belong to earlier pages. The main statement is `Window.scan_eq_slice`.
-/

namespace FlatQuery

namespace Scan

-- The rows behind the header of a stream that does not break.
def dataRows (delimiter : UInt8) (bytes : List UInt8) : List Row :=
  (Row.Reader.rows delimiter ⟨⟨bytes, none⟩, 0⟩).1.tail

-- Whether a row has enough cells, and satisfies some conditions.
def isMatch (schema : Schema) (conditions : List Condition) (row : Row) : Bool :=
  schema.width ≤ row.cells.length && (Record.decode row.line schema row.cells).satisfies conditions

-- The record by which a row is returned.
def recordOf (schema : Schema) (q : Query) (row : Row) : Record :=
  if q.selectsAll then .decode row.line schema row.cells
  else .project row.line schema row.cells (schema.positionsOf q.fields)

def returned : Except ReadError Output → List Record
  | .ok ⟨.records rs, _⟩ => rs
  | _ => []

namespace Plan

def isMatch (p : Plan) (row : Row) : Bool :=
  Scan.isMatch p.schema p.conditions row

-- The number of matches before the requested page.
def offset (p : Plan) : Nat :=
  (p.page - 1) * p.limit

structure Positive (p : Plan) : Prop where
  page  : 0 < p.page
  limit : 0 < p.limit

theorem view_of (schema : Schema) (delimiter : UInt8) (q : Query) (w : Window) :
    (Plan.of schema delimiter q w).view = recordOf schema q := by
  funext row
  by_cases h : q.selectsAll <;> simp [Plan.of, Plan.view, recordOf, h]

-- The page of the match behind `n` others is not before the requested page just if this match
-- is not before the offset.
theorem page_le_iff {p : Plan} (h : p.Positive) (n : Nat) :
    p.page ≤ n / p.limit + 1 ↔ p.offset ≤ n := by
  rw [offset, ←Nat.le_div_iff_mul_le h.limit]
  exact Nat.sub_le_iff_le_add.symm

theorem offset_add_limit {p : Plan} (h : p.Positive) : p.offset + p.limit = p.page * p.limit := by
  rw [offset, ←Nat.succ_mul, Nat.succ_eq_add_one, Nat.sub_add_cancel h.page]

end Plan

namespace Progress

variable {p : Plan} {s : Progress} {row : Row} {rows : List Row}

theorem step_of_not_isMatch (h : ¬p.isMatch row) :
    (s.step p row).matched = s.matched ∧ (s.step p row).page = s.page := by
  simp only [step]
  split
  case isTrue => exact ⟨rfl, rfl⟩
  case isFalse hw =>
    have hm : ¬(Record.decode row.line p.schema row.cells).satisfies p.conditions := by
      simpa [Plan.isMatch, Scan.isMatch, Nat.not_lt.mp hw] using h
    simp [hm]

theorem step_of_isMatch (h : p.isMatch row) :
    (s.step p row).matched = s.matched + 1 ∧
    (s.step p row).page =
      if p.page ≤ s.matched / p.limit + 1 then s.page.push (p.view row) else s.page := by
  simp only [Plan.isMatch, Scan.isMatch, Bool.and_eq_true, decide_eq_true_eq] at h
  simp [step, Nat.not_lt.mpr h.left, h.right]

-- What is found in some rows, however full the page is.
theorem foldl_step (h : p.Positive) (rows : List Row) :
    (rows.foldl (step p) {}).matched = (rows.filter p.isMatch).length ∧
    (rows.foldl (step p) {}).page.toList =
      ((rows.filter p.isMatch).drop p.offset).map p.view := by
  induction rows using List.reverseRecOn with
  | nil => simp
  | append_singleton rows row ih =>
    rw [List.foldl_append, List.filter_append]
    simp only [List.foldl_cons, List.foldl_nil]
    by_cases hm : p.isMatch row
    case neg =>
      obtain ⟨h₁, h₂⟩ := step_of_not_isMatch (s := rows.foldl (step p) {}) hm
      simpa [hm, h₁, h₂] using ih
    case pos =>
      obtain ⟨h₁, h₂⟩ := step_of_isMatch (s := rows.foldl (step p) {}) hm
      refine ⟨by simp [h₁, hm, ih.left], ?_⟩
      simp only [h₂, ih.left, p.page_le_iff h]
      split
      case isTrue ho  => simp [hm, ih.right, List.drop_append_of_le_length ho]
      case isFalse ho =>
        have ho : (rows.filter p.isMatch).length + 1 ≤ p.offset := by omega
        simp [hm, ih.right, List.drop_eq_nil_of_le, ho]
        omega

-- A row adds at most one record to a page.
theorem size_step_le : (s.step p row).page.size ≤ s.page.size + 1 := by
  by_cases hm : p.isMatch row
  case neg => simp [(step_of_not_isMatch hm).right]
  case pos =>
    rw [(step_of_isMatch hm).right]
    split <;> simp

-- A scan that is stopped has filled its page with the last row, and any other has taken all rows.
theorem takeRows_eq_foldl (h : ¬s.isFull p) (rows : List Row) :
    ∃ pre post, rows = pre ++ post ∧ (s.takeRows p rows).1 = pre.foldl (step p) s ∧
      (((s.takeRows p rows).2 ∧ (s.takeRows p rows).1.page.size = p.limit) ∨
      (¬(s.takeRows p rows).2 ∧ post = [] ∧ (s.takeRows p rows).1.page.size < p.limit)) := by
  have isFull_iff (s : Progress) : s.isFull p ↔ p.limit ≤ s.page.size := by simp [isFull]
  induction rows generalizing s with
  | nil =>
    rw [isFull_iff] at h
    exact ⟨[], [], rfl, rfl, .inr ⟨by simp [takeRows], rfl, by simpa [takeRows] using h⟩⟩
  | cons row rows ih =>
    by_cases hf : (s.step p row).isFull p
    case pos =>
      refine ⟨[row], rows, rfl, by simp [takeRows, hf], .inl ⟨by simp [takeRows, hf], ?_⟩⟩
      have : (s.step p row).page.size ≤ s.page.size + 1 := size_step_le
      have := (isFull_iff _).mp hf
      have := (isFull_iff _).not.mp h
      simp only [takeRows, hf, ↓reduceIte]
      omega
    case neg =>
      obtain ⟨pre, post, he, ht, hc⟩ := ih hf
      exact ⟨row :: pre, post, by simp [he], by simpa [takeRows, hf] using ht,
        by simpa [takeRows, hf] using hc⟩

theorem not_isFull_empty (h : p.Positive) : ¬isFull p {} := by
  simpa [isFull] using Nat.ne_of_gt h.limit

-- The page of a scan that takes what rows it needs.
theorem takeRows_page (h : p.Positive) (rows : List Row) :
    (takeRows p {} rows).1.page.toList =
    ((rows.filter p.isMatch).extract ((p.page - 1) * p.limit) (p.page * p.limit)).map p.view := by
  obtain ⟨pre, post, he, ht, hc⟩ := takeRows_eq_foldl (not_isFull_empty h) rows
  obtain ⟨_, hp⟩ := foldl_step h pre
  have hlen : (takeRows p {} rows).1.page.size = (pre.filter p.isMatch).length - p.offset := by
    rw [ht, ←Array.length_toList, hp]
    simp
  have hsub : p.page * p.limit - (p.page - 1) * p.limit = p.limit := by
    rw [←p.offset_add_limit h, Plan.offset, Nat.add_sub_cancel_left]
  rw [ht, hp, List.extract_eq_take_drop, hsub, he, List.filter_append]
  rw [hlen] at hc
  change _ = List.map p.view (List.take p.limit (List.drop p.offset _))
  cases hc
  case inl hc =>
    have hl := h.limit
    rw [List.drop_append_of_le_length (by omega), List.take_append_of_le_length (by simp; omega),
      List.take_of_length_le (by simp; omega)]
  case inr hc =>
    have hl : ((pre.filter p.isMatch).drop p.offset).length ≤ p.limit := by
      rw [List.length_drop]
      omega
    rw [hc.right.left, List.filter_nil, List.append_nil, List.take_of_length_le hl]

end Progress

-- The output of a scan of a stream that does not break.
theorem run_output (p : Plan) (bytes : List UInt8) (countOnly : Bool) :
    ∃ stats, (run p ⟨bytes, none⟩).output countOnly = .ok {
      outcome :=
        if countOnly then .count (run p ⟨bytes, none⟩).progress.page.size
        else .records (run p ⟨bytes, none⟩).progress.page.toList
      stats := stats } := by
  obtain ⟨_, he⟩ := run_eq_takeRows p ⟨bytes, none⟩
  rw [Row.Reader.rows_snd_eq_none rfl, Ending.ofError?] at he
  have hb : ∀ e, (run p ⟨bytes, none⟩).ending ≠ .broken e := by
    intro e
    rw [he]
    split <;> simp
  unfold Run.output
  split
  case h_1 e h => exact absurd h (hb e)
  case h_2     => exact ⟨_, rfl⟩

end Scan

namespace Window

variable {w : Window}

theorem Positive.plan (h : w.Positive) (schema : Schema) (delimiter : UInt8) (q : Query) :
    (Scan.Plan.of schema delimiter q w).Positive where
  page  := h.page
  limit := h.limit

theorem scan_positive (h : w.Positive) (schema : Schema) (delimiter : UInt8) (q : Query)
    (bytes : List UInt8) :
    let found := (Scan.dataRows delimiter bytes).filter (Scan.isMatch schema q.conditions)
    let w' := w.forQuery q
    let slice := found.extract ((w'.page - 1) * w'.limit) (w'.page * w'.limit)
    ∃ stats, w.scan schema delimiter q ⟨bytes, none⟩ = (.ok {
      outcome :=
        if q.countOnly then .count slice.length
        else .records (slice.map (Scan.recordOf schema q))
      stats := stats }, w') := by
  intro found w' slice
  have hp := (h.forQuery q).plan schema delimiter q
  obtain ⟨stats, ho⟩ := Scan.run_output (.of schema delimiter q w') bytes q.countOnly
  have hr := (Scan.run_eq_takeRows (.of schema delimiter q w') ⟨bytes, none⟩).left
  have ht := Scan.Progress.takeRows_page hp (Scan.dataRows delimiter bytes)
  rw [Scan.Plan.view_of] at ht
  have hs : (Scan.run (.of schema delimiter q w') ⟨bytes, none⟩).progress.page.toList =
      slice.map (Scan.recordOf schema q) := hr ▸ ht
  rw [←Array.length_toList, hs, List.length_map] at ho
  exact ⟨stats, congrArg (·, w') ho⟩

-- The first pages of the records that a query finds, asked for one after another.
def scanPages (w : Window) (schema : Schema) (delimiter : UInt8) (q : Query) (source : Source) :
    Nat → List Record × Window
  | 0 => ([], w)
  | k + 1 =>
    let first := w.scanPages schema delimiter q source k
    let next := first.2.scan schema delimiter (q.withPage (k + 1)) source
    (first.1 ++ Scan.returned next.1, next.2)

theorem limit_forQuery_withPage (w : Window) (q : Query) (page : Nat) :
    ((w.forQuery (q.withPage page)).forQuery q).limit = (w.forQuery q).limit := by
  simp only [forQuery, Query.withPage]
  cases q.limit.filter (0 < ·) <;> rfl

theorem page_forQuery_withPage (w : Window) (q : Query) (k : Nat) :
    (w.forQuery (q.withPage (k + 1))).page = k + 1 := by
  simp [forQuery, Query.withPage, Query.positive?, Option.filter]

-- The limit stays that of the first page.
theorem scanPages_snd (h : w.Positive) (schema : Schema) (delimiter : UInt8) (q : Query)
    (source : Source) (k : Nat) :
    (w.scanPages schema delimiter q source k).2.Positive ∧
    ((w.scanPages schema delimiter q source k).2.forQuery q).limit = (w.forQuery q).limit := by
  induction k with
  | zero => exact ⟨h, rfl⟩
  | succ k ih => exact ⟨ih.left.forQuery _, (limit_forQuery_withPage ..).trans ih.right⟩

theorem take_append_extract {α : Type} (xs : List α) (k n : Nat) :
    xs.take (k * n) ++ xs.extract (k * n) ((k + 1) * n) = xs.take ((k + 1) * n) := by
  rw [List.extract_eq_take_drop, Nat.succ_mul, Nat.add_sub_cancel_left, ←List.take_add]

-- What a scan of a stream returns, in every window that can be reached: the records of the matching
-- rows from `(page - 1) * limit` up to `page * limit`. Taken together, the first `k` pages are the
-- first `k * limit` matches.
theorem scan_eq_slice (hw : w.Reachable) (schema : Schema) (delimiter : UInt8) (q : Query)
    (bytes : List UInt8) :
    let found := (Scan.dataRows delimiter bytes).filter (Scan.isMatch schema q.conditions)
    let w' := w.forQuery q
    let slice := found.extract ((w'.page - 1) * w'.limit) (w'.page * w'.limit)
    (∃ stats, w.scan schema delimiter q ⟨bytes, none⟩ = (.ok {
      outcome :=
        if q.countOnly then .count slice.length
        else .records (slice.map (Scan.recordOf schema q))
      stats := stats }, w')) ∧
    (¬q.countOnly → ∀ k, (w.scanPages schema delimiter q ⟨bytes, none⟩ k).1 =
      (found.take (k * w'.limit)).map (Scan.recordOf schema q)) := by
  intro found w' slice
  refine ⟨scan_positive hw.positive schema delimiter q bytes, ?_⟩
  intro hq k
  induction k with
  | zero => simp [scanPages]
  | succ k ih =>
    obtain ⟨hp, hl⟩ := scanPages_snd hw.positive schema delimiter q ⟨bytes, none⟩ k
    obtain ⟨stats, hs⟩ := scan_positive hp schema delimiter (q.withPage (k + 1)) bytes
    have hq : ¬(q.withPage (k + 1)).countOnly := hq
    rw [page_forQuery_withPage, Nat.add_sub_cancel, if_neg hq] at hs
    simp only [scanPages, hs, ih, Scan.returned]
    rw [←take_append_extract, List.map_append]
    simp only [w', ←hl]
    rfl

-- Pages of one row each, of a table of three rows. The first row is the one that is left out.
theorem scan_eq_slice_second_page :
    (start 0).Reachable ∧
    (∃ stats, (start 0).scan ⟨["n"], by decide, by decide⟩ 0x3B
      { conditions := [.field "n" .ne (.text "1")], page := some 2, limit := some 1 }
      ⟨[0x6E, 0x0A, 0x31, 0x0A, 0x32, 0x0A, 0x33, 0x0A], none⟩ =
      (.ok ⟨.records [⟨3, [("n", .single "3")]⟩], stats⟩, ⟨2, 1, 99999⟩)) ∧
    ((start 0).scanPages ⟨["n"], by decide, by decide⟩ 0x3B
      { conditions := [.field "n" .ne (.text "1")], page := some 2, limit := some 1 }
      ⟨[0x6E, 0x0A, 0x31, 0x0A, 0x32, 0x0A, 0x33, 0x0A], none⟩ 2).1 =
      [⟨2, [("n", .single "2")]⟩, ⟨3, [("n", .single "3")]⟩] := by
  obtain ⟨⟨stats, h₁⟩, h₂⟩ := scan_eq_slice (.start 0) ⟨["n"], by decide, by decide⟩ 0x3B
    { conditions := [.field "n" .ne (.text "1")], page := some 2, limit := some 1 }
    [0x6E, 0x0A, 0x31, 0x0A, 0x32, 0x0A, 0x33, 0x0A]
  have hd : Scan.dataRows 0x3B [0x6E, 0x0A, 0x31, 0x0A, 0x32, 0x0A, 0x33, 0x0A] =
      [⟨1, ["1"]⟩, ⟨2, ["2"]⟩, ⟨3, ["3"]⟩] := by
    have hc : ({} : Config).delimiterByte? = some 0x3B := by decide
    have hr := Row.WrittenRow.rows_flatMap (Row.delimits_of_delimiterByte? hc) [
      ⟨[.bare "n" (by simp)], false, by decide, by decide⟩,
      ⟨[.bare "1" (by simp)], false, by decide, by decide⟩,
      ⟨[.bare "2" (by simp)], false, by decide, by decide⟩,
      ⟨[.bare "3" (by simp)], false, by decide, by decide⟩] 0
    exact congrArg (·.1.tail) hr
  rw [hd] at h₁ h₂
  exact ⟨.start 0, ⟨stats, h₁⟩, (h₂ (by decide) 2).trans (by decide)⟩

end Window
end FlatQuery
