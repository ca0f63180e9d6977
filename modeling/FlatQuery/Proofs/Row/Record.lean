import FlatQuery.Row.Cells
import Mathlib.Tactic.ByContra
import Mathlib.Tactic.SplitIfs

/-!
The reader of cells as an automaton: its place behind each byte, the bytes that it leaves unread,
and the quotes that neither open nor close a cell.
-/

namespace FlatQuery.Row

-- The place behind a byte, or none if this byte ends the record.
def Place.after? (delimiter : UInt8) (place : Place) (b : UInt8) : Option Place :=
  match place with
  | .start =>
    if b = quote then some .quoted
    else if b = delimiter then some .start
    else if isBreak b then none
    else some .bare
  | .bare =>
    if b = delimiter then some .start
    else if isBreak b then none
    else some .bare
  | .quoted =>
    if b = quote then some .closed else some .quoted
  | .closed =>
    if b = quote then some .quoted
    else if b = delimiter then some .start
    else if isBreak b then none
    else some .bare

-- Whether the byte between two places is a quote around a cell, which is no part of the cell.
def Place.encloses : Place → Place → Bool
  | .start, .quoted | .quoted, .closed => true
  | _, _ => false

-- The cells of a record, as in `cellsFrom`, together with the bytes behind the record.
def recordFrom (delimiter : UInt8) (place : Place) :
    List UInt8 → List (List UInt8) × List UInt8
  | [] => ([[]], [])
  | b :: bytes =>
    match place.after? delimiter b with
    | none => ([[]], bytes)
    | some next =>
      let (cells, rest) := recordFrom delimiter next bytes
      if next = .start then ([] :: cells, rest)
      else if place.encloses next then (cells, rest)
      else (push b cells, rest)

-- The place behind some bytes. There is none once the record has ended.
def follow (delimiter : UInt8) (place : Option Place) (bytes : List UInt8) : Option Place :=
  bytes.foldl (fun place b => place.bind (·.after? delimiter b)) place

-- The quotes that stand inside of a bare cell or behind the end of the record.
def strays (delimiter : UInt8) (place : Option Place) : List UInt8 → Nat
  | [] => 0
  | b :: bytes =>
    (if b = quote ∧ (place = none ∨ place = some .bare) then 1 else 0) +
      strays delimiter (place.bind (·.after? delimiter b)) bytes

-- The text of a row from where its first record begins.
def recordText (row : List UInt8) : List UInt8 :=
  (dropMark row).dropWhile isBreak

-- The first record of a row and what is left of the row behind it.
def record (delimiter : UInt8) (row : List UInt8) : List (List UInt8) × List UInt8 :=
  recordFrom delimiter .start (recordText row)

-- Whether the text of a row ends inside of a quoted cell of its first record.
def InQuotes (delimiter : UInt8) (row : List UInt8) : Prop :=
  follow delimiter (some .start) (recordText row) = some .quoted

def strayQuotes (delimiter : UInt8) (row : List UInt8) : Nat :=
  strays delimiter (some .start) (recordText row)

variable {delimiter b : UInt8} {bytes row : List UInt8} {place : Place}

theorem recordFrom_fst (delimiter : UInt8) (place : Place) (bytes : List UInt8) :
    (recordFrom delimiter place bytes).1 = cellsFrom delimiter place bytes := by
  induction bytes generalizing place with
  | nil => cases place <;> rfl
  | cons b bytes ih =>
    cases place
    all_goals
      simp only [recordFrom, cellsFrom, Place.after?]
      split_ifs
      all_goals simp [Place.encloses, ih]

theorem record_fst (delimiter : UInt8) (row : List UInt8) :
    (record delimiter row).1 = rawCells delimiter row := by
  simp only [record, rawCells, recordFrom_fst, recordText]
  split
  case h_1 h => simp [h, cellsFrom]
  case h_2   => rfl

theorem follow_cons (place : Option Place) (b : UInt8) (bytes : List UInt8) :
    follow delimiter place (b :: bytes) =
    follow delimiter (place.bind (·.after? delimiter b)) bytes :=
  rfl

-- Only a line break outside of a quoted cell ends a record.
theorem after?_eq_none_iff (h : ¬isBreak delimiter) :
    place.after? delimiter b = none ↔ isBreak b ∧ place ≠ .quoted := by
  have hq : isBreak quote = false := rfl
  cases place
  all_goals
    simp only [Place.after?]
    split_ifs
    all_goals simp_all

-- The record goes on up to the last byte if every line break before it is inside of a quoted cell.
theorem recordFrom_snd_eq_nil_iff (h : ¬isBreak delimiter) :
    (recordFrom delimiter place bytes).2 = [] ↔
    ∀ pre b post, bytes = pre ++ b :: post → post ≠ [] → isBreak b →
      follow delimiter (some place) pre = some .quoted := by
  induction bytes generalizing place with
  | nil => simp [recordFrom]
  | cons c bytes ih =>
    cases ha : place.after? delimiter c
    case none =>
      obtain ⟨hb, hp⟩ := (after?_eq_none_iff h).mp ha
      simp only [recordFrom, ha]
      constructor
      case mp =>
        intro hn pre b post he hne
        simp only [hn] at he
        cases pre <;> simp_all
      case mpr =>
        intro hall
        by_contra hne
        exact hp (Option.some.inj (hall [] c bytes rfl hne hb))
    case some next =>
      have hr :
          (recordFrom delimiter place (c :: bytes)).2 = (recordFrom delimiter next bytes).2 := by
        simp only [recordFrom, ha]
        split_ifs <;> rfl
      rw [hr, ih]
      constructor
      case mp =>
        intro hall pre b post he hne hb
        cases pre
        case nil =>
          simp only [List.nil_append, List.cons.injEq] at he
          have hs : place.after? delimiter c ≠ none := by simp [ha]
          simp [after?_eq_none_iff h, he.left, hb] at hs
          simp [follow, hs]
        case cons hd pre =>
          simp only [List.cons_append, List.cons.injEq] at he
          have := hall pre b post he.right hne hb
          simpa [follow_cons, ←he.left, ha] using this
      case mpr =>
        intro hall pre b post he hne hb
        have := hall (c :: pre) b post (by simp [he]) hne hb
        simpa [follow_cons, ha] using this

end FlatQuery.Row
