import FlatQuery.Proofs.Row.Boundaries
import FlatQuery.Proofs.Row.Reads

/-!
Rows cover the physical lines of a stream without gaps or overlaps. A row begins on the line on
which the one before it ended, and takes up the fewest lines, but at least one, after which the
number of quotes in it is even. The main statement is `Reader.rows_cover`.
-/

namespace FlatQuery.Row

-- How many lines make up the row that begins with the first of some lines: the smallest positive
-- number of them that have an even number of quotes, or all of them if there is none.
def rowLength (ls : List (List UInt8)) : Nat :=
  ((List.range' 1 ls.length).find? fun n => !isOpen (ls.take n).flatten).getD ls.length

-- The row that begins on the line of this number.
def rowAt (delimiter : UInt8) (ls : List (List UInt8)) (n : Nat) : Row :=
  ⟨n, split delimiter (rowText ((ls.drop n).take (rowLength (ls.drop n))))⟩

-- The bytes of the lines from one number up to another.
def bytesBetween (ls : List (List UInt8)) (m n : Nat) : List UInt8 :=
  ((ls.take n).drop m).flatten

-- Rows that cover the lines from one number up to another.
inductive Covers (delimiter : UInt8) (ls : List (List UInt8)) : Nat → List Row → Nat → Prop
  | nil {n} : Covers delimiter ls n [] n
  | cons {n rows stop} :
    (n < ls.length) → (Covers delimiter ls (n + rowLength (ls.drop n)) rows stop) →
    Covers delimiter ls n (rowAt delimiter ls n :: rows) stop

variable {delimiter : UInt8} {bytes line : List UInt8} {ls : List (List UInt8)}

theorem length_lines (bytes : List UInt8) :
    (lines bytes).length =
    bytes.count lf + if bytes = [] ∨ bytes.getLast? = some lf then 0 else 1 := by
  induction bytes using line_induction with
  | last line h =>
    have hl : line.getLast? ≠ some lf := fun hl => h (List.mem_of_getLast? hl)
    by_cases he : line = []
    case pos => simp [he, lines]
    case neg => simp [lines_of_not_mem h he, List.count_eq_zero.mpr h, he, hl]
  | cons line rest h ih =>
    have hl : (line ++ lf :: rest).getLast? = some lf ↔ rest = [] ∨ rest.getLast? = some lf := by
      cases rest <;> simp [List.getLast?_append, List.getLast?_cons]
    rw [lines_append h, List.length_cons, ih, List.count_append, List.count_cons_self,
      List.count_eq_zero.mpr h]
    simp only [hl, List.append_eq_nil_iff, reduceCtorEq, and_false, false_or]
    omega

-- The lines behind the first ones are lines of their own.
theorem lines_flatten_drop (bytes : List UInt8) (n : Nat) :
    lines ((lines bytes).drop n).flatten = (lines bytes).drop n := by
  induction bytes using line_induction generalizing n with
  | last line h =>
    by_cases he : line = []
    case pos => simp [he, lines]
    case neg => cases n <;> simp [lines_of_not_mem h he, lines]
  | cons line rest h ih =>
    cases n
    case zero   => rw [List.drop_zero, flatten_lines]
    case succ n => rw [lines_append h, List.drop_succ_cons, ih]

-- In front of any line there are as many line feeds as lines.
theorem count_lf_take {n : Nat} (h : n < (lines bytes).length) :
    ((lines bytes).take n).flatten.count lf = n := by
  induction bytes using line_induction generalizing n with
  | last line hl =>
    by_cases he : line = []
    case pos => simp [he, lines] at h
    case neg =>
      simp only [lines_of_not_mem hl he, List.length_singleton, Nat.lt_one_iff] at h
      simp [h]
  | cons line rest hl ih =>
    rw [lines_append hl, List.length_cons] at h
    cases n
    case zero   => simp
    case succ n =>
      rw [lines_append hl, List.take_succ_cons, List.flatten_cons, List.count_append, ih (by omega),
        List.count_append, List.count_eq_zero.mpr hl, List.count_singleton_self]
      omega

theorem isOpen_lineText (line : List UInt8) : isOpen (lineText line) = isOpen line := by
  rw [lineText, isOpen_dropCr, dropLf]
  split
  case isFalse  => rfl
  case isTrue h => exact isOpen_dropLast h (by decide)

-- What the reader of rows leaves out of the lines of a row are no quotes.
theorem isOpen_rowText (ls : List (List UInt8)) : isOpen (rowText ls) = isOpen ls.flatten := by
  induction ls with
  | nil => rfl
  | cons line ls ih =>
    rw [List.flatten_cons, isOpen_append, ←ih]
    by_cases hl : ls = []
    case pos =>
      have hn : isOpen [] = false := rfl
      simp [hl, rowText, isOpen_lineText, hn]
    case neg =>
      have hf : isOpen [lf] = false := rfl
      rw [rowText_cons hl, isOpen_append, isOpen_lineText, ←List.singleton_append, isOpen_append,
        hf, Bool.false_xor]

theorem Completes.eq_rowLength {n : Nat} (h : Completes none ls n) : n = rowLength ls := by
  have hp := h.pos rfl
  have ho m (h₀ : 0 < m) (hm : m < n) : isOpen (ls.take m).flatten := by
    rw [←isOpen_rowText]
    exact h.open_before m h₀ hm
  rw [rowLength]
  cases hf : (List.range' 1 ls.length).find? fun n => !isOpen (ls.take n).flatten
  case none =>
    rw [List.find?_range'_eq_none] at hf
    have hn : ¬n < ls.length := by
      intro hl
      apply h.closed_at hl
      have := hf n hp (by omega)
      simpa [extend, isOpen_rowText] using this
    have := h.le_length
    simp only [Option.getD_none]
    omega
  case some m =>
    rw [List.find?_range'_eq_some, List.mem_range'_1] at hf
    obtain ⟨hm, hr, hb⟩ := hf
    have h₁ : ¬m < n := fun hl => by simp [ho m (by omega) hl] at hm
    have h₂ : ¬n < m := by
      intro hl
      apply h.closed_at (by omega)
      have := hb n hp hl
      simpa [extend, isOpen_rowText] using this
    simp only [Option.getD_some]
    omega

theorem rowLength_pos (h : ls ≠ []) : 0 < rowLength ls := by
  rw [rowLength]
  cases hf : (List.range' 1 ls.length).find? fun n => !isOpen (ls.take n).flatten
  case none   => exact List.length_pos_iff.mpr h
  case some n =>
    rw [List.find?_range'_eq_some, List.mem_range'_1] at hf
    exact hf.right.left.left

theorem cellsFrom_ne_nil (delimiter : UInt8) (place : Place) (bytes : List UInt8) :
    cellsFrom delimiter place bytes ≠ [] := by
  have push_ne_nil (b : UInt8) (cells : List (List UInt8)) : push b cells ≠ [] := by
    cases cells <;> simp [push]
  induction bytes generalizing place with
  | nil => simp [cellsFrom]
  | cons b bytes ih =>
    cases place
    all_goals
      simp only [cellsFrom]
      split_ifs
      all_goals simp [push_ne_nil, ih]

-- Every row has at least one cell.
theorem split_ne_nil (delimiter : UInt8) (row : List UInt8) : split delimiter row ≠ [] := by
  rw [split, ne_eq, List.map_eq_nil_iff, rawCells]
  split
  case h_1 => simp
  case h_2 => exact cellsFrom_ne_nil delimiter .start _

theorem bytesBetween_self (ls : List (List UInt8)) (n : Nat) : bytesBetween ls n n = [] := by
  simp [bytesBetween]

theorem bytesBetween_length (ls : List (List UInt8)) (n : Nat) :
    bytesBetween ls n ls.length = (ls.drop n).flatten := by
  rw [bytesBetween, List.take_length]

theorem bytesBetween_append {m n k : Nat} (hm : m ≤ n) (hn : n ≤ k) :
    bytesBetween ls m n ++ bytesBetween ls n k = bytesBetween ls m k := by
  have ht : (ls.take n).drop m = ((ls.take k).drop m).take (n - m) := by
    rw [←List.drop_take, List.take_take, Nat.min_eq_left hn]
  have hd : (ls.take k).drop n = ((ls.take k).drop m).drop (n - m) := by
    rw [List.drop_drop, Nat.add_sub_cancel' hm]
  rw [bytesBetween, bytesBetween, bytesBetween, ht, hd, ←List.flatten_append,
    List.take_append_drop]

namespace Covers

variable {n stop : Nat} {rows : List Row}

theorem eq_rowAt (h : Covers delimiter ls n rows stop) {row : Row} (hr : row ∈ rows) :
    n ≤ row.line ∧ row.line < ls.length ∧ row = rowAt delimiter ls row.line := by
  induction h
  case nil => cases hr
  case cons hn _ ih =>
    cases hr
    case head    => exact ⟨Nat.le_refl _, hn, rfl⟩
    case tail hr =>
      obtain ⟨hl, hm⟩ := ih hr
      exact ⟨by omega, hm⟩

-- Each row begins on a later line than those before it.
theorem pairwise (h : Covers delimiter ls n rows stop) : rows.Pairwise (·.line < ·.line) := by
  induction h
  case nil => exact .nil
  case cons n rows stop hn hc ih =>
    have hp : 0 < rowLength (ls.drop n) := rowLength_pos (by simp [hn])
    refine .cons ?_ ih
    intro row hr
    have hl := (hc.eq_rowAt hr).left
    simp only [rowAt]
    omega

end Covers

namespace Reader

-- The reader has read the lines in front of its own one, and has those behind it left.
structure IsOn (ls : List (List UInt8)) (r : Reader) : Prop where
  lines_left : lines r.source.bytes = ls.drop r.line
  line_le    : r.line ≤ ls.length

variable {r r' : Reader} {row : Row} {rows : List Row}

namespace IsOn

theorem start (source : Source) : IsOn (lines source.bytes) ⟨source, 0⟩ where
  lines_left := rfl
  line_le    := Nat.zero_le _

theorem bytes_left (h : r.IsOn ls) : r.source.bytes = bytesBetween ls r.line ls.length := by
  rw [bytesBetween_length, ←h.lines_left, flatten_lines]

-- What the next row is, and which line the reader is on behind it.
theorem next (h : r.IsOn ls) (hn : r.next delimiter = .row row r') :
    r.line < ls.length ∧ row = rowAt delimiter ls r.line ∧
    r'.line = r.line + rowLength (ls.drop r.line) ∧ r'.IsOn ls := by
  obtain ⟨n, hc, hl, hb, hs⟩ := r.next_eq_row hn
  rw [h.lines_left] at hc hb hs
  have hp := hc.pos rfl
  have hle := hc.le_length
  rw [List.length_drop] at hle
  obtain rfl := hc.eq_rowLength
  have hrow : row = rowAt delimiter ls r.line := by
    cases row
    cases line_of_next hn
    cases hs
    rfl
  refine ⟨by omega, hrow, hl, ?_, by omega⟩
  rw [hb, ←h.lines_left, lines_flatten_drop, h.lines_left, List.drop_drop, hl]

-- A closed row is read in the same way whatever comes behind it, and only the last row of a stream
-- may not be closed.
theorem next_closed (h : r.IsOn ls) (hn : r.next delimiter = .row row r') :
    (r'.line < ls.length → Closed (bytesBetween ls r.line r'.line)) ∧
    (Closed (bytesBetween ls r.line r'.line) → ∀ post fault,
      Reader.next delimiter ⟨⟨bytesBetween ls r.line r'.line ++ post, fault⟩, r.line⟩ =
      .row row ⟨⟨post, fault⟩, r'.line⟩) := by
  obtain ⟨_, _, hl, h'⟩ := h.next hn
  obtain ⟨bytes, hb, hc, ht⟩ := next_eq_append hn
  have he : bytes = bytesBetween ls r.line r'.line := by
    suffices hr : bytes ++ r'.source.bytes =
        bytesBetween ls r.line r'.line ++ r'.source.bytes from List.append_cancel_right hr
    rw [←hb, h.bytes_left, h'.bytes_left, bytesBetween_append (by omega) h'.line_le]
  rw [←he]
  refine ⟨fun hlt => hc ?_, ht⟩
  intro hn
  have hd := h'.lines_left
  rw [hn] at hd
  exact absurd (List.drop_eq_nil_iff.mp hd.symm) (by omega)

theorem line_of_done (h : r.IsOn ls) (hd : r.next delimiter = .done) : r.line = ls.length := by
  have hl := h.lines_left
  rw [source_of_next_eq_done hd] at hl
  have := List.drop_eq_nil_iff.mp hl.symm
  exact Nat.le_antisymm h.line_le this

end IsOn

namespace Reads

theorem covers (h : Reads delimiter r rows r') (hr : r.IsOn ls) :
    Covers delimiter ls r.line rows r'.line ∧ r'.IsOn ls := by
  induction h
  case refl => exact ⟨.nil, hr⟩
  case step hn _ ih =>
    obtain ⟨hl, he, hl', hr'⟩ := hr.next hn
    obtain ⟨hc, hi⟩ := ih hr'
    rw [hl'] at hc
    exact ⟨he ▸ .cons hl hc, hi⟩

theorem line_le (h : Reads delimiter r rows r') : r.line ≤ r'.line := by
  induction h
  case refl         => exact Nat.le_refl _
  case step hn _ ih => exact Nat.le_trans (Nat.le_of_lt (line_lt_of_next hn)) ih

-- What was read is known from where a reader was and is.
theorem deterministic {rows' : List Row} (h : Reads delimiter r rows r')
    (h' : Reads delimiter r rows' r') : rows = rows' := by
  induction h generalizing rows'
  case refl =>
    cases rows'
    case nil  => rfl
    case cons =>
      obtain ⟨_, hn, hs⟩ := h'.of_cons
      exact absurd hs.line_le (Nat.not_le_of_lt (line_lt_of_next hn))
  case step hn hs ih =>
    cases rows'
    case nil =>
      cases h'
      exact absurd hs.line_le (Nat.not_le_of_lt (line_lt_of_next hn))
    case cons =>
      obtain ⟨_, hn', hs'⟩ := h'.of_cons
      cases hn.symm.trans hn'
      rw [ih hs']

-- Rows of which the last one is closed are read in the same way whatever comes behind them.
theorem append (h : Reads delimiter r rows r') (hr : r.IsOn ls)
    (hc : ∀ last ∈ rows.getLast?, Closed (bytesBetween ls last.line r'.line))
    (post : List UInt8) (fault : Option Fault) :
    Reads delimiter ⟨⟨bytesBetween ls r.line r'.line ++ post, fault⟩, r.line⟩ rows
      ⟨⟨post, fault⟩, r'.line⟩ := by
  induction h
  case refl => rw [bytesBetween_self]; exact .refl
  case step r₁ r₂ r₃ row rows hn hs ih =>
    obtain ⟨hl, he, hl', hr₂⟩ := hr.next hn
    obtain ⟨hcl, ht⟩ := hr.next_closed hn
    have hle := hs.line_le
    have hr : Closed (bytesBetween ls r₁.line r₂.line) := by
      cases hs
      case refl          => exact line_of_next hn ▸ hc row rfl
      case step hn' _ => exact hcl (hr₂.next hn').left
    have hrest := ih hr₂ fun last hm => hc last (by cases rows <;> simp_all)
    rw [←bytesBetween_append (by omega) hle, List.append_assoc]
    exact .step (ht hr _ fault) hrest

end Reads

-- The rows of a stream cover all its lines, and the reader counts them.
theorem rows_cover (delimiter : UInt8) (bytes : List UInt8) :
    ∃ r, Reads delimiter ⟨⟨bytes, none⟩, 0⟩ (Reader.rows delimiter ⟨⟨bytes, none⟩, 0⟩).1 r ∧
      r.next delimiter = .done ∧ r.line = (lines bytes).length ∧
      Covers delimiter (lines bytes) 0 (Reader.rows delimiter ⟨⟨bytes, none⟩, 0⟩).1
        (lines bytes).length := by
  obtain ⟨r, hr, hd⟩ := @exists_reads_rows delimiter ⟨⟨bytes, none⟩, 0⟩ rfl
  obtain ⟨hc, hi⟩ := hr.covers (.start _)
  have hl := hi.line_of_done hd
  exact ⟨r, hr, hd, hl, hl ▸ hc⟩

end Reader

end FlatQuery.Row
