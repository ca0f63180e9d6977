import FlatQuery.Fault

/-!
Physical lines, and the rows that they make up. A row ends with the first line after which it has
an even number of quotes.
-/

namespace FlatQuery.Row

def lf : UInt8 := 0x0A
def cr : UInt8 := 0x0D
def quote : UInt8 := 0x22

-- The bytes before the first line feed, and those behind it if there is one.
def splitLine : List UInt8 → List UInt8 × Option (List UInt8)
  | [] => ([], none)
  | b :: bytes =>
    if b = lf then ([], some bytes)
    else let (line, rest) := splitLine bytes; (b :: line, rest)

theorem length_splitLine {bytes line rest : List UInt8} (h : splitLine bytes = (line, some rest)) :
    rest.length < bytes.length := by
  induction bytes generalizing line rest with
  | nil => simp [splitLine] at h
  | cons b bytes ih =>
    simp only [splitLine] at h
    split at h
    · simp_all
    · have := @ih (splitLine bytes).1 rest (by simp_all [Prod.ext_iff])
      simp only [List.length_cons]
      omega

-- A line without the carriage return that may end it.
def dropCr (line : List UInt8) : List UInt8 :=
  if line.getLast? = some cr then line.dropLast else line

-- Whether an odd number of quotes leaves a cell open.
def isOpen (row : List UInt8) : Bool :=
  row.count quote % 2 == 1

-- A row so far, if there is one, together with its next line.
def join (row : Option (List UInt8)) (line : List UInt8) : List UInt8 :=
  match row with
  | none => dropCr line
  | some row => row ++ lf :: dropCr line

-- What is found where a row should begin: its text, with how many lines were read up to its end and
-- the bytes behind it; or the end of the stream; or its break, with the number of the line that
-- could not be read.
inductive Gathered
  | row (text : List UInt8) (line : Nat) (rest : List UInt8)
  | done
  | broken (line : Nat) (fault : Fault)

-- Adds lines to a row until it is complete. `line` lines have been read before.
-- At the end of the stream an open row is complete as well.
def gather (row : Option (List UInt8)) (line : Nat) (fault : Option Fault) (bytes : List UInt8) :
    Gathered :=
  match _h : splitLine bytes with
  | (text, some rest) =>
    let row := join row text
    if isOpen row then gather (some row) (line + 1) fault rest else .row row (line + 1) rest
  | (text, none) =>
    match fault with
    | some f => .broken line f
    | none =>
      if text ≠ [] then .row (join row text) (line + 1) []
      else
        match row with
        | some row => .row row line []
        | none => .done
termination_by bytes.length
decreasing_by exact length_splitLine (by assumption)

-- A line without a line feed is the last one.
theorem splitLine_none {bytes line : List UInt8} (h : splitLine bytes = (line, none)) :
    line = bytes := by
  induction bytes generalizing line with
  | nil => simp_all [splitLine]
  | cons b bytes ih =>
    simp only [splitLine] at h
    split at h
    · simp at h
    · have := @ih (splitLine bytes).1 (by simp_all [Prod.ext_iff])
      simp_all

-- A row that begins here takes at least one byte.
theorem length_gather {row : Option (List UInt8)} {line line' : Nat} {fault : Option Fault}
    {bytes text rest : List UInt8} (h : gather row line fault bytes = .row text line' rest) :
    rest.length < bytes.length ∨ rest = bytes ∧ row.isSome := by
  fun_induction gather row line fault bytes with
  | case1 _ _ _ _ _ h' _ _ ih =>
    have := length_splitLine h'
    rcases ih h with ih | ⟨rfl, _⟩
    · exact .inl (by omega)
    · exact .inl this
  | case2 _ _ _ _ _ h' =>
    have := length_splitLine h'
    obtain ⟨_, _, rfl⟩ := Gathered.row.inj h
    exact .inl this
  | case3 => simp at h
  | case4 _ _ bytes text h' _ ht =>
    obtain ⟨_, _, rfl⟩ := Gathered.row.inj h
    obtain rfl := splitLine_none h'
    exact .inl (List.length_pos_iff.mpr ht)
  | case5 _ bytes text h' ht =>
    obtain ⟨_, _, rfl⟩ := Gathered.row.inj h
    obtain rfl := splitLine_none h'
    simp_all
  | case6 => simp at h

end FlatQuery.Row
