import FlatQuery.Number.Decimal

/-!
The numbers of JSON texts. A literal is a whole number if it is written as one and fits a word of
64 bits, signed or unsigned; every other literal is a binary floating-point number.
-/

namespace FlatQuery.Json

inductive Number
  | whole (n : Int)
  | binary (x : Binary64)
  deriving DecidableEq, Repr

namespace Number

def toBinary64 : Number → Binary64
  | whole n => .ofInt n
  | binary x => x

def maxWord : Nat := UInt64.size - 1

-- Takes digits into `m` as long as it fits a word, and says which digits are left.
def absorb (m : Nat) : List Char → Nat × List Char
  | [] => (m, [])
  | d :: ds =>
    let m' := 10 * m + (d.toNat - '0'.toNat)
    if m' ≤ maxWord then absorb m' ds else (m, d :: ds)

-- A power of ten as the nearest number.
def pow10 (e : Nat) : Binary64 :=
  .ofNat (Nat.pow 10 e)

-- The largest exponent whose power of ten is finite.
def maxExponent : Nat := 308

-- Scales by a power of ten in one step that rounds. Below the least power it takes several steps.
-- What grows out of the finite range has no value.
def scale (x : Binary64) (e : Int) : Option Binary64 :=
  if x.rank = 0 then some x
  else if maxExponent < e then none
  else if e < -maxExponent then scale (x.dividedBy (pow10 maxExponent)) (e + maxExponent)
  else
    let y := if 0 ≤ e then x.times (pow10 e.toNat) else x.dividedBy (pow10 (-e).toNat)
    if y.isFinite then some y else none
termination_by (-e).toNat
decreasing_by simp only [maxExponent] at *; omega

-- The number of a literal: its sign, the digits before the point, those after it if there is one,
-- and the exponent if there is one. Its first digits that fit a word are rounded to a number, which
-- is then scaled. Digits before the point that do not fit count as zeros, and those after it
-- not at all.
def ofLiteral? (negative : Bool) (whole : List Char) (fraction : Option (List Char))
    (exponent : Option Int) : Option Number :=
  let (m, cut) := absorb 0 whole
  let scaled (m : Nat) (e : Int) := (scale (.nearest negative (m * Binary64.one) 1) e).map binary
  match fraction, exponent with
  | none, none =>
    if cut ≠ [] then scaled m cut.length
    else if !negative then some (.whole m)
    else if 0 < m ∧ 2 * m ≤ UInt64.size then some (.whole (-m))
    else scaled m 0
  | _, _ =>
    let (m, cut') := absorb m (fraction.getD [])
    scaled m (exponent.getD 0 + cut.length - ((fraction.getD []).length - cut'.length))

end Number
end FlatQuery.Json
