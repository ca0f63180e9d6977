import FlatQuery.Proofs.Row.Breaks
import FlatQuery.Proofs.Scan.Pages

/-!
Scans of streams that break. If the page is full before the break, the scan does not come to it.
Otherwise it fails, and nothing of the page is returned. The main statement is `Window.scan_break`.
-/

namespace FlatQuery

open Row (lf)

namespace Scan

-- A page is filled with the row of this number, the last match that belongs to it.
def Plan.FillsPage (p : Plan) (rows : List Row) (i : Nat) : Prop :=
  ∃ row, rows[i]? = some row ∧ p.isMatch row ∧
    (rows.take i).countP p.isMatch + 1 = p.page * p.limit

-- There are as many elements with a property just if one of them is the last of so many.
theorem le_countP_iff {α : Type} {P : α → Bool} {n : Nat} (h : 0 < n) (xs : List α) :
    n ≤ xs.countP P ↔ ∃ i x, xs[i]? = some x ∧ P x ∧ (xs.take i).countP P + 1 = n := by
  induction xs generalizing n with
  | nil => simp; omega
  | cons y ys ih =>
    rw [←Nat.or_exists_add_one]
    by_cases hy : P y
    case neg => simp [hy, ih h]
    case pos =>
      by_cases hn : n = 1
      case pos => simp [hn, hy]
      case neg =>
        have hm : 0 < n - 1 := by omega
        have hs : n ≤ ys.countP P + 1 ↔ n - 1 ≤ ys.countP P := by omega
        have hc (c : Nat) : c + 1 = n - 1 ↔ c + 1 + 1 = n := by omega
        rw [List.countP_cons_of_pos hy, hs, ih hm]
        simp [hc, hy, Ne.symm hn]

variable {p : Plan}

theorem Progress.takeRows_snd_iff (h : p.Positive) (rows : List Row) :
    (takeRows p {} rows).2 ↔ p.page * p.limit ≤ rows.countP p.isMatch := by
  have hs : (takeRows p {} rows).1.page.size =
      min (p.page * p.limit - p.offset) (rows.countP p.isMatch - p.offset) := by
    rw [←Array.length_toList, takeRows_page h, List.length_map, List.extract_eq_take_drop,
      List.length_take, List.length_drop, List.countP_eq_length_filter, Plan.offset]
  have hn := p.offset_add_limit h
  have hl := h.limit
  obtain ⟨_, _, _, _, ⟨ht, hc⟩ | ⟨ht, _, hc⟩⟩ := takeRows_eq_foldl (not_isFull_empty h) rows
  case inl => exact iff_of_true ht (by omega)
  case inr => exact iff_of_false ht (by omega)

theorem run_full_iff (h : p.Positive) (source : Source) :
    (run p source).ending = .full ↔
    p.page * p.limit ≤ (Row.Reader.rows p.delimiter ⟨source, 0⟩).1.tail.countP p.isMatch := by
  rw [(run_eq_takeRows p source).right, ←Progress.takeRows_snd_iff h]
  split
  case isTrue ht => simp [ht]
  case isFalse hf =>
    cases (Row.Reader.rows p.delimiter ⟨source, 0⟩).2 <;> simp [hf, Ending.ofError?]

-- What a scan does up to a break does not depend on what would have come behind it.
theorem collect_break (p : Plan) (pre post : List UInt8) (s : Progress) (n : Nat) (f : Fault)
    (fault : Option Fault) :
    ((collect p s ⟨⟨pre, some f⟩, n⟩).ending = .full ∧
      ∀ b, (collect p s ⟨⟨pre, some f⟩, n⟩).output b =
        (collect p s ⟨⟨pre ++ post, fault⟩, n⟩).output b) ∨
    (collect p s ⟨⟨pre, some f⟩, n⟩).ending = .broken ⟨n + pre.count lf, f⟩ := by
  induction pre using Row.row_induction generalizing s n with
  | last pre odd h => exact .inr (by rw [collect_of_failed (Row.Reader.next_of_open h n f)])
  | cons text rest h ih =>
    rw [List.append_assoc, List.cons_append,
      collect_of_row (Row.Reader.next_of_parity h n (some f) rest),
      collect_of_row (Row.Reader.next_of_parity h n fault (rest ++ post))]
    split
    case isTrue  => exact .inl ⟨rfl, fun b => rfl⟩
    case isFalse =>
      rw [Row.add_count_lf]
      exact ih _ _

theorem run_break (p : Plan) (pre post : List UInt8) (f : Fault) (fault : Option Fault) :
    ((run p ⟨pre, some f⟩).ending = .full ∧
      ∀ b, (run p ⟨pre, some f⟩).output b = (run p ⟨pre ++ post, fault⟩).output b) ∨
    (run p ⟨pre, some f⟩).ending = .broken ⟨pre.count lf, f⟩ := by
  induction pre using Row.row_induction with
  | last pre odd h =>
    simp [run, Row.Reader.next_of_open h 0 f]
  | cons text rest h =>
    rw [←Nat.zero_add ((text ++ lf :: rest).count lf), Row.add_count_lf, List.append_assoc,
      List.cons_append]
    simp only [run, Row.Reader.next_of_parity h 0]
    exact collect_break p rest post {} _ f fault

theorem exists_fillsPage_iff (h : p.Positive) {rows : List Row} (n : Nat) :
    p.page * p.limit ≤ (rows.take n).countP p.isMatch ↔ ∃ i, p.FillsPage rows i ∧ i < n := by
  rw [le_countP_iff (Nat.mul_pos h.page h.limit)]
  refine exists_congr fun i => ?_
  by_cases hi : i < n
  case neg =>
    rw [List.getElem?_take_eq_none (Nat.le_of_not_lt hi)]
    simp [hi]
  case pos =>
    rw [List.getElem?_take_of_lt hi, List.take_take, Nat.min_eq_left (Nat.le_of_lt hi)]
    simp [Plan.FillsPage, hi]

-- A scan fills its page before the stream breaks just if the row that fills it ends before.
theorem run_break_full_iff (h : p.Positive) (pre post : List UInt8) (f : Fault) :
    (run p ⟨pre, some f⟩).ending = .full ↔
    ∃ i, p.FillsPage (dataRows p.delimiter (pre ++ post)) i ∧
      Row.EndsWithin (pre ++ post) pre.length (i + 1) := by
  obtain ⟨hp, _⟩ := Row.Reader.rows_of_break pre post 0 f none
  have ht : (Row.Reader.rows p.delimiter ⟨⟨pre, some f⟩, 0⟩).1.tail =
      (dataRows p.delimiter (pre ++ post)).take
        ((Row.Reader.rows p.delimiter ⟨⟨pre, some f⟩, 0⟩).1.length - 1) := by
    rw [dataRows, ←List.drop_one, ←List.drop_one, ←List.drop_take, ←List.prefix_iff_eq_take.mp hp]
  rw [run_full_iff h, ht, exists_fillsPage_iff h]
  refine exists_congr fun i => and_congr_right fun _ => ?_
  rw [←Row.Reader.lt_length_rows_iff, Nat.lt_sub_iff_add_lt]

theorem Run.output_of_full {r : Run} (h : r.ending = .full) (countOnly : Bool) :
    ∃ o, r.output countOnly = .ok o := by
  simp [output, h]

theorem Run.output_of_broken {r : Run} {e : ReadError} (h : r.ending = .broken e)
    (countOnly : Bool) : r.output countOnly = .error e := by
  simp [output, h]

end Scan

namespace Window

variable {w : Window}

-- A scan of a stream that breaks behind the first `k` bytes of some data:
-- (1) If the row that fills the page is complete within these bytes, it has the same output as the
--     scan of all the data.
-- (2) Otherwise it fails with the fault of the stream, on the line of the break, wherever in a row
--     that is.
-- The window is moved in both cases.
theorem scan_break (hw : w.Reachable) (schema : Schema) (delimiter : UInt8) (q : Query)
    (data : List UInt8) {k : Nat} (hk : k ≤ data.length) (f : Fault) :
    let p := Scan.Plan.of schema delimiter q (w.forQuery q)
    let broken := w.scan schema delimiter q ⟨data.take k, some f⟩
    let whole := w.scan schema delimiter q ⟨data, none⟩
    let e : ReadError := ⟨(data.take k).count lf, f⟩
    let filled :=
      ∃ i, p.FillsPage (Scan.dataRows delimiter data) i ∧ Row.EndsWithin data k (i + 1)
    broken.2 = w.forQuery q ∧
    (filled → ∃ o, broken.1 = .ok o ∧ whole.1 = .ok o) ∧
    (¬filled → broken.1 = .error e) ∧
    e.display = "CSVQ_READ_FAILED: Read failed at line " ++ toString ((data.take k).count lf) ++
      ": " ++ f.message := by
  intro p broken whole e filled
  have hp : p.Positive := (hw.positive.forQuery q).plan schema delimiter q
  have hf := Scan.run_break_full_iff hp (data.take k) (data.drop k) f
  have hb := Scan.run_break p (data.take k) (data.drop k) f none
  rw [List.take_append_drop, List.length_take_of_le hk] at hf
  rw [List.take_append_drop] at hb
  refine ⟨rfl, ?_, ?_, rfl⟩
  case refine_1 =>
    intro hi
    have he := hf.mpr hi
    obtain ⟨o, ho⟩ := Scan.Run.output_of_full he q.countOnly
    obtain ⟨_, heq⟩ | hb := hb
    case inl => exact ⟨o, ho, (heq q.countOnly).symm.trans ho⟩
    case inr => cases he.symm.trans hb
  case refine_2 =>
    intro hi
    obtain ⟨he, _⟩ | hb := hb
    case inl => exact absurd (hf.mp he) hi
    case inr => exact Scan.Run.output_of_broken hb q.countOnly

-- A page of one row is filled with the last byte of this row, and not before.
theorem scan_break_behind_row :
    (start 0).Reachable ∧
    (∃ stats, (start 0).scan ⟨["n"], by decide, by decide⟩ 0x3B { limit := some 1 }
      ⟨[0x6E, lf, 0x31, lf], some .notUtf8⟩ =
      (.ok ⟨.records [⟨1, [("n", .single "1")]⟩], stats⟩, ⟨1, 1, 99999⟩)) ∧
    (start 0).scan ⟨["n"], by decide, by decide⟩ 0x3B { limit := some 1 }
      ⟨[0x6E, lf, 0x31], some .notUtf8⟩ = (.error ⟨1, .notUtf8⟩, ⟨1, 1, 99999⟩) := by
  have hd : Scan.dataRows 0x3B [0x6E, lf, 0x31, lf, 0x32, lf] = [⟨1, ["1"]⟩, ⟨2, ["2"]⟩] := by
    have hc : ({} : Config).delimiterByte? = some 0x3B := by decide
    have hr := Row.WrittenRow.rows_flatMap (Row.delimits_of_delimiterByte? hc) [
      ⟨[.bare "n" (by simp)], false, by decide, by decide⟩,
      ⟨[.bare "1" (by simp)], false, by decide, by decide⟩,
      ⟨[.bare "2" (by simp)], false, by decide, by decide⟩] 0
    exact congrArg (·.1.tail) hr
  obtain ⟨stats, hw⟩ := scan_positive (.start 0) ⟨["n"], by decide, by decide⟩ 0x3B
    { limit := some 1 } [0x6E, lf, 0x31, lf, 0x32, lf]
  rw [hd] at hw
  obtain ⟨hv, h₁, _⟩ := scan_break (.start 0) ⟨["n"], by decide, by decide⟩ 0x3B
    { limit := some 1 } [0x6E, lf, 0x31, lf, 0x32, lf] (k := 4) (by decide) .notUtf8
  obtain ⟨hv', _, h₂, _⟩ := scan_break (.start 0) ⟨["n"], by decide, by decide⟩ 0x3B
    { limit := some 1 } [0x6E, lf, 0x31, lf, 0x32, lf] (k := 3) (by decide) .notUtf8
  refine ⟨.start 0, ⟨stats, ?_⟩, Prod.ext (h₂ ?_) hv'⟩
  case refine_1 =>
    obtain ⟨o, ho, ho'⟩ := h₁ ⟨0, ⟨⟨1, ["1"]⟩, by rw [hd]; rfl, by decide, by decide⟩,
      ⟨[0x31, lf], by decide, by decide, by decide, by decide⟩⟩
    cases (congrArg Prod.fst hw).symm.trans ho'
    exact Prod.ext ho hv
  case refine_2 =>
    rintro ⟨i, ⟨row, hr, _, hc⟩, ⟨_, _, _, _, hk⟩⟩
    rw [hd] at hr hc
    match i with
    | 0     => exact absurd hk (by decide)
    | 1     => exact absurd hc (by decide)
    | i + 2 => simp at hr

end Window
end FlatQuery
