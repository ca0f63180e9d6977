import FlatQuery.Config.Basic
import FlatQuery.Row.Reader
import FlatQuery.Proofs.Text.Utf8

/-!
Rows as they are written: cells in quotes or bare, with a delimiter between them and a line break
at the end. A line break in a cell only stands where the number of quotes before it is odd.
-/

namespace FlatQuery.Row

open Text.Utf8

-- Leaves out every `cr` that has an `lf` right behind it.
def dropReturns {α : Type} [DecidableEq α] (cr lf : α) : List α → List α
  | [] => []
  | a :: as =>
    if a = cr ∧ as.head? = some lf then dropReturns cr lf as
    else a :: dropReturns cr lf as

def unified (text : String) : String :=
  .ofList (dropReturns '\r' '\n' text.toList)

-- Writes every quote twice.
def escape (bytes : List UInt8) : List UInt8 :=
  bytes.flatMap fun b => if b = quote then [quote, quote] else [b]

-- A cell in quotes, or a bare one, in which no character means anything outside of quotes.
inductive WrittenCell (delimiter : String)
  | quoted (text : String)
  | bare (text : String) (plain : ∀ c ∈ text.toList, c ∉ delimiter.toList ++ ['"', '\r', '\n'])

namespace WrittenCell

variable {delimiter : String}

def text : WrittenCell delimiter → String
  | quoted text => text
  | bare text _ => text

def bytes : WrittenCell delimiter → List UInt8
  | quoted text => quote :: escape (encode text.toList) ++ [quote]
  | bare text _ => encode text.toList

-- Whether the first character of the cell would be taken for a byte order mark in front of a row.
def isMarked : WrittenCell delimiter → Bool
  | quoted _ => false
  | bare text _ => text.toList.head? = some '\uFEFF'

end WrittenCell

-- A row of one or more cells, and which line break ends it.
structure WrittenRow (delimiter : String) where
  cells : List (WrittenCell delimiter)
  crlf : Bool
  cells_ne_nil : cells ≠ []
  not_isMarked : ¬(cells.head cells_ne_nil).isMarked

-- Cells with the delimiter between them.
def delimited {delimiter : String} (cells : List (WrittenCell delimiter)) : List UInt8 :=
  (encode delimiter.toList).intercalate (cells.map WrittenCell.bytes)

namespace WrittenRow

variable {delimiter : String}

def bytes (w : WrittenRow delimiter) : List UInt8 :=
  delimited w.cells ++ if w.crlf then [cr, lf] else [lf]

-- What should be read where a row was written behind some lines.
def read (w : WrittenRow delimiter) (line : Nat) : Row where
  line := line
  cells := w.cells.map fun cell => trimQuotes (unified cell.text)

end WrittenRow

-- What the byte of a delimiter is known to be. It is that of its only character, and of no other.
structure Delimits (delimiter : String) (d : UInt8) : Prop where
  encode_eq : encode delimiter.toList = [d]
  lt        : d < 0x80
  ne_quote  : d ≠ quote
  ne_cr     : d ≠ cr
  ne_lf     : d ≠ lf
  not_mem   : ∀ s : List Char, (∀ c ∈ s, c ∉ delimiter.toList) → d ∉ encode s

theorem delimits_of_delimiterByte? {config : Config} {d : UInt8}
    (h : config.delimiterByte? = some d) : Delimits config.delimiter d := by
  simp only [Config.delimiterByte?] at h
  split at h
  case h_2 => simp at h
  case h_1 a ha =>
    split at h
    case isFalse => simp at h
    case isTrue hn =>
      simp only [Bool.and_eq_true, decide_eq_true_eq, bne_iff_ne] at hn
      obtain ⟨⟨⟨hn, hq⟩, hl⟩, hr⟩ := hn
      cases h
      have ne {b : Char} (hb : b.toNat < 0x80) (h : a ≠ b) : a.toNat.toUInt8 ≠ b.toNat.toUInt8 := by
        intro he
        have hm := mem_encodeChar_iff (c := b) hn |>.mp (by simp [encodeChar_of_lt hb, he])
        exact h hm
      exact {
        encode_eq := by simp [ha, encode, encodeChar_of_lt hn]
        lt := by simpa [UInt8.lt_iff_toNat_lt, toNat_toUInt8 (Nat.lt_trans hn (by decide))] using hn
        ne_quote := ne (b := '"') (by decide) hq
        ne_cr := ne (b := '\r') (by decide) hr
        ne_lf := ne (b := '\n') (by decide) hl
        not_mem := by
          intro s hs hm
          exact hs a (mem_encode_iff hn |>.mp hm) (ha ▸ List.mem_singleton_self a)
      }

section DropReturns

variable {α : Type} [DecidableEq α] {cr lf b : α} {as bs : List α}

theorem dropReturns_cons_of_ne (h : b ≠ cr) :
    dropReturns cr lf (b :: bs) = b :: dropReturns cr lf bs :=
  if_neg (h ·.left)

theorem dropReturns_append_of_not_mem (lf : α) (h : cr ∉ as) (bs : List α) :
    dropReturns cr lf (as ++ bs) = as ++ dropReturns cr lf bs := by
  induction as with
  | nil => rfl
  | cons a as ih =>
    simp only [List.mem_cons, not_or] at h
    simp [dropReturns, Ne.symm h.left, ih h.right]

theorem dropReturns_of_not_mem (h : cr ∉ as) : dropReturns cr lf as = as := by
  simpa [dropReturns] using dropReturns_append_of_not_mem lf h []

theorem dropReturns_append_cons (h : b ≠ lf) :
    dropReturns cr lf (as ++ b :: bs) = dropReturns cr lf as ++ dropReturns cr lf (b :: bs) := by
  induction as with
  | nil => rfl
  | cons a as ih =>
    have hh : (as ++ b :: bs).head? = some lf ↔ as.head? = some lf := by
      cases as <;> simp [h]
    simp only [List.cons_append, dropReturns, hh, ih]
    split <;> simp

end DropReturns

theorem dropReturns_encode (s : List Char) :
    dropReturns cr lf (encode s) = encode (dropReturns '\r' '\n' s) := by
  induction s with
  | nil => rfl
  | cons c s ih =>
    have hr : cr ∈ encodeChar c ↔ '\r' = c := mem_encodeChar_iff (a := '\r') (by decide)
    have hl : (encode s).head? = some lf ↔ s.head? = some '\n' :=
      head?_encode_iff (a := '\n') (by decide)
    by_cases hc : '\r' = c
    case pos =>
      subst hc
      have he : encode ('\r' :: s) = cr :: encode s := rfl
      simp only [he, dropReturns, hl, ih, true_and]
      split <;> rfl
    case neg =>
      rw [encode_cons, dropReturns_append_of_not_mem lf (mt hr.mp hc), ih]
      simp [dropReturns, Ne.symm hc, encode_cons]

theorem escape_quote (bytes : List UInt8) :
    escape (quote :: bytes) = quote :: quote :: escape bytes :=
  rfl

theorem escape_of_ne {b : UInt8} (h : b ≠ quote) (bytes : List UInt8) :
    escape (b :: bytes) = b :: escape bytes := by
  simp [escape, h]

theorem head?_escape (bytes : List UInt8) : (escape bytes).head? = bytes.head? := by
  cases bytes
  case nil       => rfl
  case cons b bs => by_cases hb : b = quote <;> simp [hb, escape_quote, escape_of_ne]

theorem dropReturns_escape (bytes : List UInt8) :
    dropReturns cr lf (escape bytes) = escape (dropReturns cr lf bytes) := by
  induction bytes with
  | nil => rfl
  | cons b bytes ih =>
    by_cases hb : b = quote
    case pos =>
      have hq : quote ≠ cr := by decide
      rw [hb, escape_quote, dropReturns_cons_of_ne hq, dropReturns_cons_of_ne hq,
        dropReturns_cons_of_ne hq, ih, escape_quote]
    case neg =>
      rw [escape_of_ne hb, dropReturns, dropReturns, head?_escape, ih]
      split <;> simp [escape_of_ne hb]

variable {delimiter : String} {d : UInt8}

namespace WrittenCell

-- The same cell without the carriage returns that are not read.
def unify : WrittenCell delimiter → WrittenCell delimiter
  | quoted text => quoted (unified text)
  | bare text plain => bare text plain

theorem not_mem_of_plain {text : String}
    (h : ∀ c ∈ text.toList, c ∉ delimiter.toList ++ ['"', '\r', '\n']) :
    '"' ∉ text.toList ∧ '\r' ∉ text.toList ∧ '\n' ∉ text.toList := by
  have hn {a : Char} (ha : a ∈ ['"', '\r', '\n']) : a ∉ text.toList :=
    fun hm => h a hm (List.mem_append_right _ ha)
  exact ⟨hn (by simp), hn (by simp), hn (by simp)⟩

theorem not_mem_encode_of_plain {text : String}
    (h : ∀ c ∈ text.toList, c ∉ delimiter.toList ++ ['"', '\r', '\n']) :
    quote ∉ encode text.toList ∧ cr ∉ encode text.toList ∧ lf ∉ encode text.toList := by
  obtain ⟨hq, hr, hl⟩ := not_mem_of_plain h
  exact ⟨mt (mem_encode_iff (a := '"') (by decide)).mp hq,
    mt (mem_encode_iff (a := '\r') (by decide)).mp hr,
    mt (mem_encode_iff (a := '\n') (by decide)).mp hl⟩

theorem text_unify (cell : WrittenCell delimiter) : cell.unify.text = unified cell.text := by
  cases cell
  case quoted text     => rfl
  case bare text plain =>
    have hr := (not_mem_of_plain plain).right.left
    simp [unify, WrittenCell.text, unified, dropReturns_of_not_mem hr]

theorem dropReturns_bytes_append (cell : WrittenCell delimiter) (rest : List UInt8) :
    dropReturns cr lf (cell.bytes ++ rest) = cell.unify.bytes ++ dropReturns cr lf rest := by
  cases cell
  case quoted text =>
    have hq : quote ≠ cr := by decide
    have hl : quote ≠ lf := by decide
    simp only [bytes, unify, unified, String.toList_ofList, ←dropReturns_encode,
      ←dropReturns_escape, List.cons_append, List.append_assoc, List.nil_append]
    rw [dropReturns_cons_of_ne hq, dropReturns_append_cons hl, dropReturns_cons_of_ne hq]
  case bare text plain =>
    exact dropReturns_append_of_not_mem lf (not_mem_encode_of_plain plain).right.left rest

end WrittenCell

-- The same row without the carriage returns that are not read.
def WrittenRow.unify (w : WrittenRow delimiter) : WrittenRow delimiter where
  cells := w.cells.map WrittenCell.unify
  crlf := false
  cells_ne_nil := by simpa using w.cells_ne_nil
  not_isMarked := by
    have h := w.not_isMarked
    rw [List.head_map]
    cases hc : w.cells.head w.cells_ne_nil
    case quoted => simp [WrittenCell.unify, WrittenCell.isMarked]
    case bare   => simpa [WrittenCell.unify, hc] using h

theorem delimited_cons (hd : Delimits delimiter d) (cell : WrittenCell delimiter)
    {cells : List (WrittenCell delimiter)} (h : cells ≠ []) :
    delimited (cell :: cells) = cell.bytes ++ d :: delimited cells := by
  rw [delimited, List.map_cons, List.intercalate_cons_of_ne_nil (by simpa using h)]
  simp [delimited, hd.encode_eq]

theorem dropReturns_delimited_append (hd : Delimits delimiter d)
    (cells : List (WrittenCell delimiter)) (rest : List UInt8) :
    dropReturns cr lf (delimited cells ++ rest) =
    delimited (cells.map WrittenCell.unify) ++ dropReturns cr lf rest := by
  induction cells with
  | nil => rfl
  | cons cell cells ih =>
    by_cases h : cells = []
    case pos => simp [h, delimited, WrittenCell.dropReturns_bytes_append]
    case neg =>
      rw [delimited_cons hd _ h, List.map_cons, delimited_cons hd _ (by simpa using h)]
      simp only [List.append_assoc, List.cons_append]
      rw [WrittenCell.dropReturns_bytes_append, dropReturns_cons_of_ne hd.ne_cr, ih]

-- Counts quotes modulo two, and stops at a line feed behind an even number of them.
def parity (odd : Bool) (bytes : List UInt8) : Option Bool :=
  bytes.foldlM (fun odd b =>
    if b = quote then some !odd
    else if b = lf ∧ !odd then none
    else some odd) odd

theorem parity_append (odd : Bool) (as bs : List UInt8) :
    parity odd (as ++ bs) = (parity odd as).bind (parity · bs) :=
  List.foldlM_append

theorem parity_cons {odd : Bool} {b : UInt8} (hq : b ≠ quote) (hl : b = lf → odd)
    (bytes : List UInt8) : parity odd (b :: bytes) = parity odd bytes := by
  have hl : ¬(b = lf ∧ odd = false) := by simpa using hl
  simp [parity, hq, hl]

theorem parity_of_not_mem {odd : Bool} {bytes : List UInt8} (hq : quote ∉ bytes) (hl : lf ∉ bytes) :
    parity odd bytes = some odd := by
  induction bytes with
  | nil => rfl
  | cons b bytes ih =>
    simp only [List.mem_cons, not_or] at hq hl
    rw [parity_cons (Ne.symm hq.left) (absurd · (Ne.symm hl.left)), ih hq.right hl.right]

theorem parity_escape (bytes : List UInt8) : parity true (escape bytes) = some true := by
  induction bytes with
  | nil => rfl
  | cons b bytes ih =>
    by_cases hb : b = quote
    case pos => rw [hb, escape_quote]; exact ih
    case neg => rw [escape_of_ne hb, parity_cons hb (fun _ => rfl), ih]

theorem WrittenCell.parity_bytes (cell : WrittenCell delimiter) :
    parity false cell.bytes = some false := by
  cases cell
  case quoted text =>
    have hq : parity false [quote] = some true := rfl
    have hc : parity true [quote] = some false := rfl
    rw [bytes, ←List.singleton_append, parity_append, parity_append, hq, Option.bind_some,
      parity_escape, Option.bind_some, hc]
  case bare text plain =>
    obtain ⟨hq, _, hl⟩ := not_mem_encode_of_plain plain
    exact parity_of_not_mem hq hl

-- A line break in a written row is either inside of a quoted cell or at the end.
theorem parity_delimited (hd : Delimits delimiter d) (cells : List (WrittenCell delimiter)) :
    parity false (delimited cells) = some false := by
  induction cells with
  | nil => rfl
  | cons cell cells ih =>
    by_cases h : cells = []
    case pos => simpa [h, delimited] using cell.parity_bytes
    case neg =>
      rw [delimited_cons hd _ h, parity_append, cell.parity_bytes, Option.bind_some,
        parity_cons hd.ne_quote (absurd · hd.ne_lf), ih]

end FlatQuery.Row
