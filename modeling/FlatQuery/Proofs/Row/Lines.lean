import FlatQuery.Row.Reader

/-!
Physical lines as a list, and which of them make up a row: the fewest, but at least one, after which
the number of quotes is even, or all of them if there is no such number.
-/

namespace FlatQuery.Row

-- The physical lines of a stream, each with the line feed that ends it.
-- Only the last one may have none.
def lines : List UInt8 → List (List UInt8)
  | [] => []
  | b :: bytes =>
    if b = lf then [b] :: lines bytes
    else
      match lines bytes with
      | [] => [[b]]
      | line :: rest => (b :: line) :: rest

-- A line without the line feed that ends it.
def dropLf (line : List UInt8) : List UInt8 :=
  if line.getLast? = some lf then line.dropLast else line

-- What a line adds to the text of a row.
def lineText (line : List UInt8) : List UInt8 :=
  dropCr (dropLf line)

-- The text of the row that some lines make up.
def rowText : List (List UInt8) → List UInt8
  | [] => []
  | line :: ls => lineText line ++ ls.flatMap (lf :: lineText ·)

-- The text of a row so far, if there is one, with more lines behind it.
def extend (row : Option (List UInt8)) (ls : List (List UInt8)) : List UInt8 :=
  match row with
  | none     => rowText ls
  | some row => row ++ ls.flatMap (lf :: lineText ·)

variable {bytes line rest : List UInt8} {row : Option (List UInt8)} {ls : List (List UInt8)}

theorem splitLine_some (h : splitLine bytes = (line, some rest)) :
    bytes = line ++ lf :: rest ∧ lf ∉ line := by
  induction bytes generalizing line with
  | nil => simp [splitLine] at h
  | cons b bytes ih =>
    simp only [splitLine] at h
    split at h
    case isTrue hb =>
      simp only [Prod.mk.injEq, Option.some.injEq] at h
      simp [←h.left, ←h.right, hb]
    case isFalse hb =>
      simp only [Prod.mk.injEq] at h
      obtain ⟨he, hn⟩ := ih (Prod.ext rfl h.right)
      rw [←h.left, List.cons_append, ←he]
      exact ⟨rfl, by simp [Ne.symm hb, hn]⟩

theorem splitLine_append (h : lf ∉ line) : splitLine (line ++ lf :: rest) = (line, some rest) := by
  induction line with
  | nil => simp [splitLine]
  | cons b line ih =>
    simp only [List.mem_cons, not_or] at h
    simp [splitLine, Ne.symm h.left, ih h.right]

theorem not_mem_of_splitLine_none (h : splitLine bytes = (line, none)) : lf ∉ bytes := by
  intro hm
  obtain ⟨as, bs, he, hn⟩ := List.eq_append_cons_of_mem hm
  simp [he, splitLine_append hn] at h

theorem lines_append (h : lf ∉ line) :
    lines (line ++ lf :: rest) = (line ++ [lf]) :: lines rest := by
  induction line with
  | nil => simp [lines]
  | cons b line ih =>
    simp only [List.mem_cons, not_or] at h
    simp [lines, Ne.symm h.left, ih h.right]

theorem lines_of_not_mem (h : lf ∉ line) (hn : line ≠ []) : lines line = [line] := by
  induction line with
  | nil => contradiction
  | cons b line ih =>
    simp only [List.mem_cons, not_or] at h
    cases line
    case nil  => simp [lines, Ne.symm h.left]
    case cons =>
      rw [lines, ih h.right (by simp)]
      simp [Ne.symm h.left]

-- Bytes are one line without a line feed, or a line with its line feed and more bytes.
@[elab_as_elim]
theorem line_induction {motive : List UInt8 → Prop} (last : ∀ line, lf ∉ line → motive line)
    (cons : ∀ line rest, lf ∉ line → motive rest → motive (line ++ lf :: rest))
    (bytes : List UInt8) : motive bytes := by
  match h : splitLine bytes with
  | (line, none) =>
    exact last bytes (not_mem_of_splitLine_none h)
  | (line, some rest) =>
    have hs := splitLine_some h
    rw [hs.left]
    exact cons line rest hs.right (line_induction last cons rest)
termination_by bytes.length
decreasing_by exact length_splitLine h

theorem flatten_lines (bytes : List UInt8) : (lines bytes).flatten = bytes := by
  induction bytes with
  | nil => rfl
  | cons b bytes ih =>
    simp only [lines]
    split
    case isTrue => simp [ih]
    case isFalse =>
      split
      case h_1 h => simp [h] at ih; simp [←ih]
      case h_2 h => simp [h] at ih; simp [ih]

theorem dropLf_cons {b : UInt8} (h : b ≠ lf) (line : List UInt8) :
    dropLf (b :: line) = b :: dropLf line := by
  cases line
  case nil  => simp [dropLf, h]
  case cons => simp only [dropLf, List.getLast?_cons_cons, List.dropLast_cons_cons]; split <;> rfl

theorem dropLf_append (line : List UInt8) : dropLf (line ++ [lf]) = line := by
  simp [dropLf]

theorem dropLf_of_not_mem (h : lf ∉ line) : dropLf line = line := by
  have hl : line.getLast? ≠ some lf := fun hl => h (List.mem_of_getLast? hl)
  simp [dropLf, hl]

-- Only the last byte of a line may be a line feed.
theorem lf_not_mem_dropLf (h : line ∈ lines bytes) : lf ∉ dropLf line := by
  induction bytes generalizing line with
  | nil => simp [lines] at h
  | cons b bytes ih =>
    simp only [lines] at h
    split at h
    case isTrue hb =>
      cases h
      case head   => simp [dropLf, hb]
      case tail h => exact ih h
    case isFalse hb =>
      split at h
      case h_1 => simp_all [dropLf, Ne.symm hb]
      case h_2 first ls hl =>
        cases h
        case tail h => exact ih (hl ▸ List.mem_cons_of_mem first h)
        case head   =>
          have hf := ih (hl ▸ List.mem_cons_self)
          simp [dropLf_cons hb, Ne.symm hb, hf]

theorem dropCr_cons (b : UInt8) (h : line ≠ []) : dropCr (b :: line) = b :: dropCr line := by
  cases line
  case nil  => contradiction
  case cons => simp only [dropCr, List.getLast?_cons_cons, List.dropLast_cons_cons]; split <;> rfl

theorem mem_of_mem_dropCr {b : UInt8} (h : b ∈ dropCr line) : b ∈ line := by
  simp only [dropCr] at h
  split at h
  · exact (List.dropLast_sublist line).subset h
  · exact h

theorem lf_not_mem_lineText (h : line ∈ lines bytes) : lf ∉ lineText line :=
  fun hm => lf_not_mem_dropLf h (mem_of_mem_dropCr hm)

theorem extend_cons : extend row (line :: ls) = extend (some (extend row [line])) ls := by
  cases row <;> simp [extend, rowText]

theorem join_eq_extend (row : Option (List UInt8)) (line : List UInt8) :
    join row line = extend row [line ++ [lf]] := by
  cases row <;> simp [join, extend, rowText, lineText, dropLf_append]

theorem join_eq_extend_of_not_mem (h : lf ∉ line) : join row line = extend row [line] := by
  cases row <;> simp [join, extend, rowText, lineText, dropLf_of_not_mem h]

-- A number of lines that make up a row, behind a row so far if there is one.
structure Completes (row : Option (List UInt8)) (ls : List (List UInt8)) (n : Nat) : Prop where
  le_length   : n ≤ ls.length
  pos         : row = none → 0 < n
  open_before : ∀ m, 0 < m → m < n → isOpen (extend row (ls.take m))
  closed_at   : n < ls.length → ¬isOpen (extend row (ls.take n))

namespace Completes

theorem one (h : ls ≠ [] → ¬isOpen (extend row [line])) : Completes row (line :: ls) 1 where
  le_length    := by simp
  pos          := by simp
  open_before  := by omega
  closed_at hl := by simpa using h (by simpa [List.length_pos_iff] using hl)

-- An open row is complete at the end of the stream.
theorem of_nil {row : List UInt8} : Completes (some row) [] 0 where
  le_length   := by simp
  pos         := by simp
  open_before := by omega
  closed_at   := by simp

theorem succ {n : Nat} (h : Completes (some (extend row [line])) ls n)
    (ho : isOpen (extend row [line])) : Completes row (line :: ls) (n + 1) where
  le_length := by simpa using h.le_length
  pos       := by simp
  open_before m _ hm := by
    cases m with
    | zero => contradiction
    | succ m =>
      rw [List.take_succ_cons, extend_cons]
      cases m with
      | zero   => simpa [extend] using ho
      | succ m => apply h.open_before <;> omega
  closed_at hl := by
    rw [List.take_succ_cons, extend_cons]
    apply h.closed_at
    simpa using hl

end Completes

-- What one more line comes to.
theorem gather_line (h : lf ∉ line) (n : Nat) (fault : Option Fault) :
    gather row n fault (line ++ lf :: rest) =
      if isOpen (join row line) then gather (some (join row line)) (n + 1) fault rest
      else .row (join row line) (n + 1) rest := by
  have hs : splitLine (line ++ lf :: rest) = (line, some rest) := splitLine_append h
  conv => lhs; rw [gather.eq_def]
  split
  case h_1 he => cases hs.symm.trans he; rfl
  case h_2 he => cases hs.symm.trans he

-- What is found where there is no further line feed.
theorem gather_of_not_mem (h : lf ∉ line) (n : Nat) (fault : Option Fault) :
    gather row n fault line =
      match fault with
      | some f => .broken n f
      | none =>
        if line ≠ [] then .row (join row line) (n + 1) []
        else
          match row with
          | some row => .row row n []
          | none => .done := by
  rw [gather.eq_def]
  split
  case h_1 hs => exact absurd (splitLine_some hs).left (by rintro rfl; simp at h)
  case h_2 hs => cases splitLine_none hs; rfl

theorem gather_eq_row {n n' : Nat} {fault : Option Fault} {text : List UInt8}
    (h : gather row n fault bytes = .row text n' rest) :
    ∃ k, Completes row (lines bytes) k ∧ text = extend row ((lines bytes).take k) ∧
      n' = n + k ∧ rest = ((lines bytes).drop k).flatten := by
  fun_induction gather row n fault bytes with
  | case1 row n bytes line rest' hs row' ho ih =>
    obtain ⟨he, hl⟩ := splitLine_some hs
    have hj : row' = extend row [line ++ [lf]] := join_eq_extend row line
    obtain ⟨k, hk, ht, hn, hr⟩ := ih h
    rw [hj] at ho hk ht
    rw [he, lines_append hl]
    exact ⟨k + 1, hk.succ ho, ht.trans extend_cons.symm, by omega, by simpa using hr⟩
  | case2 row n bytes line rest' hs row' ho =>
    obtain ⟨he, hl⟩ := splitLine_some hs
    have hj : row' = extend row [line ++ [lf]] := join_eq_extend row line
    obtain ⟨ht, hn, hr⟩ := Gathered.row.inj h
    rw [hj] at ho ht
    rw [he, lines_append hl]
    exact ⟨1, .one fun _ => ho, ht.symm, hn.symm, by simp [flatten_lines, hr]⟩
  | case3 => simp at h
  | case4 row n bytes line hs _ hne =>
    have hl := not_mem_of_splitLine_none hs
    obtain ⟨ht, hn, hr⟩ := Gathered.row.inj h
    cases splitLine_none hs
    rw [join_eq_extend_of_not_mem hl] at ht
    rw [lines_of_not_mem hl hne]
    exact ⟨1, .one (by simp), ht.symm, hn.symm, by simp [←hr]⟩
  | case5 n bytes line hs _ hne row =>
    obtain ⟨ht, hn, hr⟩ := Gathered.row.inj h
    cases splitLine_none hs
    cases Decidable.not_not.mp hne
    exact ⟨0, .of_nil, by simp [extend, ht], hn.symm, by simp [lines, ←hr]⟩
  | case6 => simp at h

end FlatQuery.Row

namespace FlatQuery.Source

-- The physical lines of a stream that are read up to their end. If the stream breaks, a line ends
-- with its line feed only.
def wholeLines (s : Source) : List (List UInt8) :=
  match s.fault with
  | none   => Row.lines s.bytes
  | some _ => (Row.lines s.bytes).filter (·.getLast? = some Row.lf)

variable {line rest : List UInt8} {fault : Option Fault}

theorem wholeLines_of_not_mem (h : Row.lf ∉ line) :
    wholeLines ⟨line, fault⟩ = if fault.isSome ∨ line = [] then [] else [line] := by
  by_cases hl : line = []
  case pos => cases fault <;> simp [wholeLines, hl, Row.lines]
  case neg =>
    have he : line.getLast? ≠ some Row.lf := fun he => h (List.mem_of_getLast? he)
    cases fault <;> simp [wholeLines, Row.lines_of_not_mem h hl, he, hl]

theorem wholeLines_cons (h : Row.lf ∉ line) :
    wholeLines ⟨line ++ Row.lf :: rest, fault⟩ =
    (line ++ [Row.lf]) :: wholeLines ⟨rest, fault⟩ := by
  cases fault <;> simp [wholeLines, Row.lines_append h]

end FlatQuery.Source
