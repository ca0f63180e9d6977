import FlatQuery.Text.Blank
import FlatQuery.Number.Binary64

/-!
Numbers written in decimal.
-/

namespace FlatQuery.Decimal

-- The number that a run of decimal digits stands for.
def natOf (digits : List Char) : Nat :=
  digits.foldl (fun n c => 10 * n + (c.toNat - '0'.toNat)) 0

-- The digits at the start of a text, and the rest of it.
def digits (s : List Char) : List Char × List Char :=
  (s.takeWhile Char.isDigit, s.dropWhile Char.isDigit)

-- The number nearest to `m * 10 ^ e`, where `m` has at most `width` digits.
-- What is above 10 ^ 400 or below 10 ^ -400 is out of range, and its power of ten is not computed.
def nearest (negative : Bool) (m : Nat) (width : Nat) (e : Int) : Binary64 :=
  if m = 0 || e + width < -400 then .zero negative
  else if 400 < e then .infinity negative
  else if 0 ≤ e then .nearest negative (m * Nat.pow 10 e.toNat * Binary64.one) 1
  else .nearest negative (m * Binary64.one) (Nat.pow 10 (-e).toNat)

-- An optional sign: whether it is a minus, and the rest of the text.
def sign : List Char → Bool × List Char
  | '-' :: s => (true, s)
  | '+' :: s => (false, s)
  | s => (false, s)

-- What may follow the digits of a number: nothing, or `e` and a whole number.
def exponent? : List Char → Option Int
  | [] => some 0
  | c :: s =>
    let (negative, s) := sign s
    let (ds, s) := digits s
    if (c == 'e' || c == 'E') && ds != [] && s == [] then
      some (if negative then -natOf ds else natOf ds)
    else none

-- A finite number: a sign, digits with or without a point among them, and an exponent, of which
-- only the digits are needed. The value is correctly rounded.
def read? (s : List Char) : Option Binary64 := do
  let (negative, s) := sign s
  let (whole, s) := digits s
  let (fraction, s) := match s with
    | '.' :: s => digits s
    | s => ([], s)
  let e ← exponent? s
  let ds := whole ++ fraction
  let x := nearest negative (natOf ds) ds.length (e - fraction.length)
  if ds != [] && x.isFinite then some x else none

end FlatQuery.Decimal
