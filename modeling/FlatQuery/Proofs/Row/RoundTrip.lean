import FlatQuery.Proofs.Row.Lines
import FlatQuery.Proofs.Row.Reader
import FlatQuery.Proofs.Row.Record
import FlatQuery.Proofs.Row.Written

/-!
Rows are read as they were written. The reader of rows finds each of them on its own, the reader of
cells takes it apart. The main statement is `Reader.rows_written`.
-/

namespace FlatQuery.Row

open Text.Utf8

variable {delimiter : String} {d : UInt8} {row : Option (List UInt8)}
  {line bytes rest : List UInt8}

theorem isOpen_append (as bs : List UInt8) : isOpen (as ++ bs) = (isOpen as ^^ isOpen bs) := by
  have hm := Nat.mod_two_eq_zero_or_one
  cases hm (as.count quote) <;> cases hm (bs.count quote)
  all_goals simp_all [isOpen, List.count_append, Nat.add_mod]

theorem isOpen_dropLast {c : UInt8} (h : line.getLast? = some c) (hc : c ≠ quote) :
    isOpen line.dropLast = isOpen line := by
  obtain ⟨text, rfl⟩ := List.getLast?_eq_some_iff.mp h
  have hn : isOpen [c] = false := by simp [isOpen, hc]
  rw [List.dropLast_concat, isOpen_append, hn, Bool.xor_false]

theorem isOpen_dropCr (line : List UInt8) : isOpen (dropCr line) = isOpen line := by
  simp only [dropCr]
  split
  case isFalse  => rfl
  case isTrue h => exact isOpen_dropLast h (by decide)

theorem isOpen_join (row : Option (List UInt8)) (line : List UInt8) :
    isOpen (join row line) = (isOpen (row.getD []) ^^ isOpen line) := by
  cases row
  case none     => simpa [join, isOpen_dropCr] using isOpen_append [] line
  case some row =>
    have hl : isOpen (lf :: dropCr line) = isOpen (dropCr line) :=
      (isOpen_append [lf] (dropCr line)).trans (Bool.false_xor _)
    rw [join, isOpen_append, hl, isOpen_dropCr]
    rfl

theorem dropReturns_append_lf (h : lf ∉ line) :
    dropReturns cr lf (line ++ lf :: rest) = dropCr line ++ lf :: dropReturns cr lf rest := by
  induction line with
  | nil => rfl
  | cons b line ih =>
    simp only [List.mem_cons, not_or] at h
    rw [List.cons_append, dropReturns, ih h.right]
    cases line
    case nil =>
      by_cases hb : b = cr <;> simp [hb, dropCr]
    case cons c line =>
      simp only [List.mem_cons, not_or] at h
      simp [dropCr_cons, Ne.symm h.right.left]

theorem dropReturns_ne_nil (h : bytes ≠ []) : dropReturns cr lf bytes ≠ [] := by
  induction bytes with
  | nil => contradiction
  | cons b bytes ih =>
    simp only [dropReturns]
    split
    case isTrue hb =>
      apply ih
      rintro rfl
      simp at hb
    case isFalse   => simp

theorem parity_of_lf_not_mem {odd : Bool} (h : lf ∉ line) :
    parity odd line = some (odd ^^ isOpen line) := by
  induction line generalizing odd with
  | nil => simp [parity, isOpen]
  | cons b line ih =>
    simp only [List.mem_cons, not_or] at h
    have hc := isOpen_append [b] line
    by_cases hb : b = quote
    case pos =>
      have ho : isOpen [b] = true := hb ▸ rfl
      have hq : parity odd (b :: line) = parity (!odd) line := by simp [parity, hb]
      rw [hq, ih h.right, ←List.singleton_append, hc, ho]
      cases odd <;> simp
    case neg =>
      have ho : isOpen [b] = false := by simp [isOpen, hb]
      rw [parity_cons hb (absurd · (Ne.symm h.left)), ih h.right, ←List.singleton_append, hc, ho,
        Bool.false_xor]

-- The text of a row so far, with the line feed behind it that joins it to what follows.
def lead (row : Option (List UInt8)) : List UInt8 :=
  row.elim [] (· ++ [lf])

theorem join_eq_lead_append (row : Option (List UInt8)) (line : List UInt8) :
    join row line = lead row ++ dropCr line := by
  cases row <;> simp [join, lead]

-- Lines are joined up to the first line feed behind an even number of quotes.
theorem gather_of_parity (h : parity (isOpen (row.getD [])) bytes = some false) (n : Nat)
    (fault : Option Fault) (rest : List UInt8) :
    gather row n fault (bytes ++ lf :: rest) =
    .row (lead row ++ (dropReturns cr lf (bytes ++ [lf])).dropLast) (n + bytes.count lf + 1)
      rest := by
  induction hc : bytes.count lf generalizing row bytes n with
  | zero =>
    have hn : lf ∉ bytes := List.count_eq_zero.mp hc
    rw [parity_of_lf_not_mem hn, ←isOpen_join] at h
    rw [gather_line hn, Option.some.inj h, dropReturns_append_lf hn, join_eq_lead_append]
    simp [dropReturns]
  | succ k ih =>
    have hm : lf ∈ bytes := List.count_pos_iff.mp (by omega)
    obtain ⟨line, bytes', he, hn⟩ := List.eq_append_cons_of_mem hm
    rw [he, parity_append, parity_of_lf_not_mem hn, Option.bind_some, ←isOpen_join] at h
    have ho : isOpen (join row line) = true := by
      by_contra ho
      simp [Bool.not_eq_true _ ▸ ho, parity, quote, lf] at h
    have hp : parity (isOpen ((some (join row line)).getD [])) bytes' = some false := by
      rw [ho, parity_cons (by decide) (fun _ => rfl), ←ho] at h
      exact h
    have hne : dropReturns cr lf (bytes' ++ [lf]) ≠ [] := dropReturns_ne_nil (by simp)
    have hk : bytes'.count lf = k := by
      simp [he, List.count_eq_zero.mpr hn] at hc
      exact hc
    have hb : bytes ++ lf :: rest = line ++ lf :: (bytes' ++ lf :: rest) := by simp [he]
    have hl : lead (some (join row line)) = lead row ++ dropCr line ++ [lf] := by
      rw [←join_eq_lead_append]
      rfl
    have ht : (dropReturns cr lf (bytes ++ [lf])).dropLast =
        dropCr line ++ lf :: (dropReturns cr lf (bytes' ++ [lf])).dropLast := by
      rw [he, List.append_assoc, List.cons_append, dropReturns_append_lf hn,
        List.dropLast_append_of_ne_nil (by simp), List.dropLast_cons_of_ne_nil hne]
    rw [hb, gather_line hn, if_pos ho, ih hp (n + 1) hk, ht, hl]
    congr 1
    · simp
    · omega

theorem cellsFrom_bare_append (hd : d ∉ bytes) (hr : cr ∉ bytes) (hl : lf ∉ bytes)
    (rest : List UInt8) :
    cellsFrom d .bare (bytes ++ rest) = bytes.foldr push (cellsFrom d .bare rest) := by
  induction bytes with
  | nil => rfl
  | cons b bytes ih =>
    simp only [List.mem_cons, not_or] at hd hr hl
    have hb : isBreak b = false := by simp [isBreak, Ne.symm hr.left, Ne.symm hl.left]
    simp [cellsFrom, Ne.symm hd.left, hb, ih hd.right hr.right hl.right]

theorem cellsFrom_quoted_escape (bytes rest : List UInt8) :
    cellsFrom d .quoted (escape bytes ++ quote :: rest) =
    bytes.foldr push (cellsFrom d .closed rest) := by
  induction bytes with
  | nil => rfl
  | cons b bytes ih =>
    by_cases hb : b = quote
    case pos => simp [hb, escape_quote, cellsFrom, ih]
    case neg => simp [escape_of_ne hb, cellsFrom, hb, ih]

-- Without a quote in front, a cell is read as a bare one, at its first byte as behind its last one.
theorem cellsFrom_eq_bare {place : Place} (hp : place ≠ .quoted) (h : rest.head? ≠ some quote) :
    cellsFrom d place rest = cellsFrom d .bare rest := by
  cases rest
  case nil => rfl
  case cons b rest =>
    have hb : b ≠ quote := by simpa using h
    cases place <;> simp [cellsFrom, hb] at hp ⊢

theorem foldr_push (bytes cell : List UInt8) (cells : List (List UInt8)) :
    bytes.foldr push (cell :: cells) = (bytes ++ cell) :: cells := by
  induction bytes with
  | nil => rfl
  | cons b bytes ih => rw [List.foldr_cons, ih]; rfl

theorem WrittenCell.cellsFrom_bytes_append (hd : Delimits delimiter d)
    (cell : WrittenCell delimiter) {rest : List UInt8} (h : rest.head? ≠ some quote) :
    cellsFrom d .start (cell.bytes ++ rest) =
    (encode cell.text.toList).foldr push (cellsFrom d .bare rest) := by
  cases cell
  case quoted text =>
    have hs (bytes : List UInt8) :
      cellsFrom d .start (quote :: bytes) = cellsFrom d .quoted bytes := by simp [cellsFrom]
    simp only [bytes, List.cons_append, List.append_assoc, List.nil_append]
    rw [hs, cellsFrom_quoted_escape, cellsFrom_eq_bare (by simp) h]
    rfl
  case bare text plain =>
    obtain ⟨hq, hr, hl⟩ := not_mem_encode_of_plain plain
    have hd := hd.not_mem text.toList (fun c hc hm => plain c hc (List.mem_append_left _ hm))
    have hs : (encode text.toList ++ rest).head? ≠ some quote := by
      intro hh
      cases he : encode text.toList
      case nil =>
        apply h
        simpa [he] using hh
      case cons =>
        simp only [he, List.cons_append, List.head?_cons, Option.some.injEq] at hh
        exact hq (he ▸ hh ▸ List.mem_cons_self)
    simp only [bytes]
    rw [cellsFrom_eq_bare (by simp) hs, cellsFrom_bare_append hd hr hl]
    rfl

theorem cellsFrom_delimited (hd : Delimits delimiter d) {cells : List (WrittenCell delimiter)}
    (h : cells ≠ []) :
    cellsFrom d .start (delimited cells) = cells.map fun cell => encode cell.text.toList := by
  induction cells with
  | nil => contradiction
  | cons cell cells ih =>
    by_cases hc : cells = []
    case pos =>
      have hn : ([] : List UInt8).head? ≠ some quote := by simp
      have hr := cell.cellsFrom_bytes_append hd hn
      rw [List.append_nil] at hr
      simp [hc, delimited, hr, cellsFrom, foldr_push]
    case neg =>
      have hq : (d :: delimited cells).head? ≠ some quote := by simp [hd.ne_quote]
      rw [delimited_cons hd _ hc, cell.cellsFrom_bytes_append hd hq]
      simp [cellsFrom, foldr_push, ih hc]

theorem decodeLossy_byteOrderMark_append (bytes : List UInt8) :
    decodeLossy (byteOrderMark ++ bytes) = '\uFEFF' :: decodeLossy bytes :=
  decodeLossy_encode_append ['\uFEFF'] bytes

namespace WrittenCell

-- A byte order mark in front of a row can only come from the first character of its first cell.
theorem not_mark_prefix {cell : WrittenCell delimiter} (h : ¬cell.isMarked)
    (hr : ∀ b ∈ rest.head?, b < 0x80) : ¬byteOrderMark <+: cell.bytes ++ rest := by
  rintro ⟨bytes, hb⟩
  cases cell
  case quoted text => simp [WrittenCell.bytes, byteOrderMark, quote] at hb
  case bare text plain =>
    rw [WrittenCell.bytes] at hb
    cases ht : text.toList
    case nil =>
      rw [ht] at hb
      have hm : rest.head? = some 0xEF := (congrArg List.head? hb).symm
      exact absurd (hr _ hm) (by decide)
    case cons c s =>
      have hs := congrArg decodeLossy hb
      rw [decodeLossy_byteOrderMark_append, decodeLossy_encode_append, ht] at hs
      have hc : c = '\uFEFF' := (List.cons.inj hs).left.symm
      apply h
      simp [isMarked, ht, hc]

theorem not_isBreak_head (cell : WrittenCell delimiter) (hr : ∀ b ∈ rest.head?, ¬isBreak b) :
    ∀ b ∈ (cell.bytes ++ rest).head?, ¬isBreak b := by
  intro b hb
  cases cell
  case quoted text =>
    simp only [WrittenCell.bytes, List.cons_append, List.head?_cons] at hb
    cases hb
    decide
  case bare text plain =>
    obtain ⟨_, hcr, hlf⟩ := not_mem_encode_of_plain plain
    rw [WrittenCell.bytes] at hb
    cases ht : encode text.toList
    case nil =>
      rw [ht] at hb
      exact hr b hb
    case cons c bytes =>
      rw [ht] at hb hcr hlf
      cases hb
      simp only [List.mem_cons, not_or] at hcr hlf
      simp [isBreak, Ne.symm hcr.left, Ne.symm hlf.left]

end WrittenCell

-- Behind its first cell, a row is at its end or goes on with a delimiter.
theorem delimited_eq_head_append (hd : Delimits delimiter d) {cells : List (WrittenCell delimiter)}
    (h : cells ≠ []) :
    ∃ rest, delimited cells = (cells.head h).bytes ++ rest ∧ ∀ b ∈ rest.head?, b = d := by
  cases cells
  case nil => contradiction
  case cons cell cells =>
    by_cases h : cells = []
    case pos => exact ⟨[], by simp [delimited, h], by simp⟩
    case neg => exact ⟨d :: delimited cells, delimited_cons hd cell h, by simp⟩

namespace WrittenRow

variable (w : WrittenRow delimiter) (hd : Delimits delimiter d)
include hd

-- Nothing is left out in front of a written row.
theorem recordText_delimited : recordText (delimited w.cells) = delimited w.cells := by
  obtain ⟨rest, he, hr⟩ := delimited_eq_head_append hd w.cells_ne_nil
  have hm : ¬byteOrderMark.isPrefixOf (delimited w.cells) := by
    rw [List.isPrefixOf_iff_prefix, he]
    apply WrittenCell.not_mark_prefix w.not_isMarked
    exact fun b hb => hr b hb ▸ hd.lt
  have hb : ∀ b ∈ (delimited w.cells).head?, ¬isBreak b := by
    rw [he]
    apply WrittenCell.not_isBreak_head
    intro b hb
    simp [hr b hb, isBreak, hd.ne_cr, hd.ne_lf]
  rw [recordText, dropMark, if_neg hm]
  cases hw : delimited w.cells
  case nil  => rfl
  case cons => exact List.dropWhile_cons_of_neg (hb _ (by simp [hw]))

theorem rawCells_delimited :
    rawCells d (delimited w.cells) = w.cells.map fun cell => encode cell.text.toList := by
  rw [←record_fst, record, recordFrom_fst, w.recordText_delimited hd,
    cellsFrom_delimited hd w.cells_ne_nil]

theorem gather_bytes_append (n : Nat) (fault : Option Fault) (rest : List UInt8) :
    gather none n fault (w.bytes ++ rest) =
    .row (delimited w.unify.cells) (n + w.bytes.count lf) rest := by
  obtain ⟨ret, hb, hp, hu⟩ : ∃ ret, w.bytes = delimited w.cells ++ ret ++ [lf] ∧
      parity false ret = some false ∧ dropReturns cr lf (ret ++ [lf]) = [lf] := by
    cases hc : w.crlf
    case true  => exact ⟨[cr], by simp [bytes, hc], rfl, rfl⟩
    case false => exact ⟨[], by simp [bytes, hc], rfl, rfl⟩
  have hp : parity (isOpen (none.getD [])) (delimited w.cells ++ ret) = some false := by
    rw [parity_append, show isOpen (none.getD []) = false from rfl, parity_delimited hd,
      Option.bind_some, hp]
  have hg := gather_of_parity hp n fault rest
  have ht : dropReturns cr lf (delimited w.cells ++ ret ++ [lf]) =
      delimited w.unify.cells ++ [lf] := by
    rw [List.append_assoc, dropReturns_delimited_append hd, hu]
    rfl
  rw [ht, List.dropLast_concat] at hg
  have hc : w.bytes.count lf = (delimited w.cells ++ ret).count lf + 1 := by
    simp [hb, Nat.add_assoc]
  rw [hc, hb, List.append_assoc, List.singleton_append, hg]
  rfl

-- A row is read as it is written, whatever comes behind it.
theorem next_bytes_append (n : Nat) (fault : Option Fault) (rest : List UInt8) :
    Reader.next d ⟨⟨w.bytes ++ rest, fault⟩, n⟩ =
    .row (w.read n) ⟨⟨rest, fault⟩, n + w.bytes.count lf⟩ := by
  have hc : rawCells d (delimited w.unify.cells) =
      (w.unify.cells.map (·.text.toList)).map encode := by
    rw [w.unify.rawCells_delimited hd, List.map_map]
    rfl
  rw [Reader.next_of_gather (w.gather_bytes_append hd n fault rest), split_of_rawCells hc]
  simp [read, unify, WrittenCell.text_unify]

theorem rows_flatMap (table : List (WrittenRow delimiter)) (n : Nat) :
    Reader.rows d ⟨⟨table.flatMap WrittenRow.bytes, none⟩, n⟩ =
    (table.mapIdx fun i w => w.read (n + ((table.take i).flatMap WrittenRow.bytes).count lf),
      none) := by
  induction table generalizing n with
  | nil => exact Reader.rows_of_done (Reader.next_nil n)
  | cons w table ih =>
    rw [List.flatMap_cons, Reader.rows_of_row (w.next_bytes_append hd n none _), ih]
    simp [List.mapIdx_cons, Nat.add_assoc]

end WrittenRow

-- What is read from a table, of which the first row may be a header, are its rows. Every cell comes
-- back as it was written, apart from carriage returns before line feeds and quotes at its ends, and
-- every row with the number of the lines before it.
theorem Reader.rows_written {config : Config} (h : config.delimiterByte? = some d)
    (table : List (WrittenRow config.delimiter)) :
    Reader.rows d ⟨⟨table.flatMap WrittenRow.bytes, none⟩, 0⟩ =
    (table.mapIdx fun i w => w.read (((table.take i).flatMap WrittenRow.bytes).count lf),
      none) := by
  simpa using WrittenRow.rows_flatMap (delimits_of_delimiterByte? h) table 0

-- A cell with a quote and a line break in it takes up two lines. The quote stays, as it is not at
-- an end of the cell.
theorem rows_written_on_two_lines :
    ({} : Config).delimiterByte? = some 0x3B ∧
    Reader.rows 0x3B ⟨⟨[
      0x6E, lf,
      quote, 0x61, cr, lf, quote, quote, 0x62, quote, 0x3B, cr, lf,
      0x63, lf], none⟩, 0⟩ =
    ([⟨0, ["n"]⟩, ⟨1, ["a\n\"b", ""]⟩, ⟨3, ["c"]⟩], none) := by
  have hd : ({} : Config).delimiterByte? = some 0x3B := by decide
  have hr := Reader.rows_written hd [
    ⟨[.bare "n" (by simp)], false, by decide, by decide⟩,
    ⟨[.quoted "a\r\n\"b", .bare "" (by simp)], true, by decide, by decide⟩,
    ⟨[.bare "c" (by simp)], false, by decide, by decide⟩]
  exact ⟨hd, hr.trans (by decide)⟩

end FlatQuery.Row
