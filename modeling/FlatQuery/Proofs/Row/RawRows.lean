import FlatQuery.Proofs.Row.RoundTrip

/-!
The bytes of each row of a stream, found by the quotes and line feeds among them alone. The reader
of rows goes through them one by one. The main statement is `Reader.rows_eq_mapIdx_rawRows`.
-/

namespace FlatQuery.Row

-- The bytes of the rows that begin here, each up to the first line feed behind an even number of
-- quotes. `odd` says whether the quotes of the first row before these bytes are odd in number.
def rawRowsFrom (odd : Bool) : List UInt8 → List (List UInt8)
  | [] => []
  | b :: bytes =>
    if b = lf ∧ !odd then [b] :: rawRowsFrom false bytes
    else
      match rawRowsFrom (odd ^^ b == quote) bytes with
      | [] => [[b]]
      | row :: rows => (b :: row) :: rows

-- The bytes of the rows of a stream. Only those of the last row may end without a line feed, or
-- with an odd number of quotes.
def rawRows (bytes : List UInt8) : List (List UInt8) :=
  rawRowsFrom false bytes

variable {odd odd' : Bool} {b : UInt8} {bytes text : List UInt8} {row : Option (List UInt8)}

theorem parity_cons_eq_some_iff :
    parity odd (b :: bytes) = some odd' ↔
    ¬(b = lf ∧ !odd) ∧ parity (odd ^^ b == quote) bytes = some odd' := by
  by_cases hq : b = quote
  case pos =>
    have hl : quote ≠ lf := by decide
    simp [parity, hq, hl]
  case neg =>
    by_cases hl : b = lf ∧ !odd
    case pos => simp_all [parity]
    case neg =>
      have hq' : (odd ^^ b == quote) = odd := by
        rw [beq_false_of_ne hq, Bool.xor_false]
      rw [parity_cons hq (by simpa using hl), hq', and_iff_right hl]

theorem isOpen_of_parity (h : parity odd bytes = some odd') : isOpen bytes = (odd ^^ odd') := by
  induction bytes generalizing odd with
  | nil => cases h; simp [isOpen]
  | cons b bytes ih =>
    have hb : isOpen [b] = (b == quote) := by by_cases hq : b = quote <;> simp [isOpen, hq]
    rw [←List.singleton_append, isOpen_append, ih (parity_cons_eq_some_iff.mp h).right, hb]
    cases odd <;> cases odd' <;> cases b == quote <;> rfl

-- The first line feed behind an even number of quotes.
theorem exists_of_parity_eq_none (h : parity odd bytes = none) :
    ∃ text rest, bytes = text ++ lf :: rest ∧ parity odd text = some false := by
  induction bytes generalizing odd with
  | nil => cases h
  | cons b bytes ih =>
    by_cases hb : b = lf ∧ !odd
    case pos => exact ⟨[], bytes, by simp [hb.left], by simpa [parity] using hb.right⟩
    case neg =>
      have hn : parity (odd ^^ b == quote) bytes = none := by
        cases hp : parity (odd ^^ b == quote) bytes
        case none   => rfl
        case some o => simp [parity_cons_eq_some_iff.mpr ⟨hb, hp⟩] at h
      obtain ⟨text, rest, he, hp⟩ := ih hn
      exact ⟨b :: text, rest, by simp [he], parity_cons_eq_some_iff.mpr ⟨hb, hp⟩⟩

-- Bytes are part of one row that may go on, or a row that ends with its last line feed and more
-- bytes.
@[elab_as_elim]
theorem row_induction {motive : List UInt8 → Prop}
    (last : ∀ bytes odd, parity false bytes = some odd → motive bytes)
    (cons : ∀ text rest, parity false text = some false → motive rest → motive (text ++ lf :: rest))
    (bytes : List UInt8) : motive bytes := by
  match h : parity false bytes with
  | some odd => exact last bytes odd h
  | none =>
    obtain ⟨text, rest, he, hp⟩ := exists_of_parity_eq_none h
    rw [he]
    exact cons text rest hp (row_induction last cons rest)
termination_by bytes.length
decreasing_by simp [he]; omega

theorem rawRowsFrom_append (h : parity odd text = some false) (rest : List UInt8) :
    rawRowsFrom odd (text ++ lf :: rest) = (text ++ [lf]) :: rawRows rest := by
  induction text generalizing odd with
  | nil => cases h; simp [rawRowsFrom, rawRows]
  | cons b text ih =>
    obtain ⟨hb, hp⟩ := parity_cons_eq_some_iff.mp h
    rw [List.cons_append, rawRowsFrom, if_neg hb, ih hp]
    rfl

theorem rawRowsFrom_of_parity (h : parity odd bytes = some odd') (hn : bytes ≠ []) :
    rawRowsFrom odd bytes = [bytes] := by
  induction bytes generalizing odd with
  | nil => contradiction
  | cons b bytes ih =>
    obtain ⟨hb, hp⟩ := parity_cons_eq_some_iff.mp h
    rw [rawRowsFrom, if_neg hb]
    by_cases hn : bytes = []
    case pos => simp [hn, rawRowsFrom]
    case neg => simp [ih hp hn]

theorem rawRows_append (h : parity false text = some false) (rest : List UInt8) :
    rawRows (text ++ lf :: rest) = (text ++ [lf]) :: rawRows rest :=
  rawRowsFrom_append h rest

theorem add_count_lf (n : Nat) (text rest : List UInt8) :
    n + (text ++ lf :: rest).count lf = n + text.count lf + 1 + rest.count lf := by
  rw [List.count_append, List.count_cons_self]
  omega

theorem rawRows_of_parity (h : parity false bytes = some odd) (hn : bytes ≠ []) :
    rawRows bytes = [bytes] :=
  rawRowsFrom_of_parity h hn

theorem lines_ne_nil (h : bytes ≠ []) : lines bytes ≠ [] := by
  intro hl
  have hf := flatten_lines bytes
  rw [hl] at hf
  exact h hf.symm

theorem rowText_cons {line : List UInt8} {ls : List (List UInt8)} (h : ls ≠ []) :
    rowText (line :: ls) = lineText line ++ lf :: rowText ls := by
  cases ls
  case nil  => contradiction
  case cons => simp [rowText]

-- The reader of rows drops the carriage returns at the ends of the lines of a row, and its last
-- line feed.
theorem dropLast_dropReturns (text : List UInt8) :
    (dropReturns cr lf (text ++ [lf])).dropLast = rowText (lines (text ++ [lf])) := by
  induction text using line_induction with
  | last line h =>
    rw [dropReturns_append_lf h, lines_append h]
    simp [dropReturns, lines, rowText, lineText, dropLf_append]
  | cons line rest h ih =>
    rw [List.append_assoc, List.cons_append, dropReturns_append_lf h, lines_append h,
      List.dropLast_append_of_ne_nil (by simp),
      List.dropLast_cons_of_ne_nil (dropReturns_ne_nil (by simp)), ih,
      rowText_cons (lines_ne_nil (by simp)), lineText, dropLf_append]

-- A line behind which a row goes on is joined to it.
theorem gather_of_open_line {line rest : List UInt8} (hl : lf ∉ line)
    (h : parity (isOpen (row.getD [])) (line ++ lf :: rest) = some odd) (n : Nat)
    (fault : Option Fault) :
    gather row n fault (line ++ lf :: rest) = gather (some (join row line)) (n + 1) fault rest ∧
    parity (isOpen ((some (join row line)).getD [])) rest = some odd := by
  rw [parity_append, parity_of_lf_not_mem hl, Option.bind_some, ←isOpen_join] at h
  obtain ⟨ho, hp⟩ := parity_cons_eq_some_iff.mp h
  have ho : isOpen (join row line) := by simpa using ho
  exact ⟨by rw [gather_line hl, if_pos ho], by simpa [quote, lf] using hp⟩

-- At the end of the stream an open row is complete as well.
theorem gather_last (h : parity (isOpen (row.getD [])) bytes = some odd)
    (hn : bytes ≠ [] ∨ row.isSome) (n : Nat) :
    gather row n none bytes = .row (extend row (lines bytes)) (n + (lines bytes).length) [] := by
  induction bytes using line_induction generalizing row n with
  | last line hl =>
    rw [gather_of_not_mem hl]
    by_cases he : line = []
    case neg => simp [he, lines_of_not_mem hl he, join_eq_extend_of_not_mem hl]
    case pos =>
      obtain ⟨text, rfl⟩ := Option.isSome_iff_exists.mp (hn.resolve_left (by simp [he]))
      simp [he, lines, extend]
  | cons line rest hl ih =>
    obtain ⟨hg, hp⟩ := gather_of_open_line hl h n none
    rw [hg, ih hp (.inr rfl), lines_append hl, extend_cons, join_eq_extend, List.length_cons,
      Nat.add_right_comm]
    rfl

namespace Reader

variable {delimiter : UInt8}

theorem next_of_parity (h : parity false text = some false) (n : Nat) (fault : Option Fault)
    (rest : List UInt8) :
    next delimiter ⟨⟨text ++ lf :: rest, fault⟩, n⟩ =
    .row ⟨n, split delimiter (dropReturns cr lf (text ++ [lf])).dropLast⟩
      ⟨⟨rest, fault⟩, n + text.count lf + 1⟩ := by
  have hp : parity (isOpen (none.getD [])) text = some false := h
  exact next_of_gather (gather_of_parity hp n fault rest)

-- The rows of a stream that does not break: one for each piece, on the line behind those before it.
theorem rows_eq_mapIdx_rawRows (bytes : List UInt8) (n : Nat) :
    (rows delimiter ⟨⟨bytes, none⟩, n⟩).1 =
    (rawRows bytes).mapIdx fun i row =>
      ⟨n + ((rawRows bytes).take i).flatten.count lf, split delimiter (rowText (lines row))⟩ := by
  induction bytes using row_induction generalizing n with
  | last bytes odd h =>
    by_cases hb : bytes = []
    case pos =>
      rw [hb, rows_of_done (next_nil n)]
      rfl
    case neg =>
      have hp : parity (isOpen (none.getD [])) bytes = some odd := h
      rw [rows_of_row (next_of_gather (gather_last hp (.inl hb) n)), rows_of_done (next_nil _),
        rawRows_of_parity h hb]
      simp [extend]
  | cons text rest h ih =>
    rw [rows_of_row (next_of_parity h n none rest), ih, rawRows_append h, dropLast_dropReturns]
    simp [List.mapIdx_cons, Nat.add_assoc, Nat.add_comm 1]

end Reader

end FlatQuery.Row
