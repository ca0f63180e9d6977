import FlatQuery.Number.Binary64

/-!
The shortest decimal text of a number: the fewest digits that read back as it, without an exponent.
-/

namespace FlatQuery

namespace Shortest

-- A grid is the set of multiples of `10 ^ e`. In units of half the least positive number
-- its step is the quotient of these two.
def stepNum (e : Int) : Nat := 2 * Nat.pow 10 e.toNat * Binary64.one
def stepDen (e : Int) : Nat := Nat.pow 10 (-e).toNat

-- The numbers that round to the rank lie between the midpoints to its neighbours.
-- The midpoints themselves round to it if it is even.
def rounds (rank : Nat) (c : Nat) (e : Int) : Bool :=
  let low := (Binary64.unitsOf (rank - 1) + Binary64.unitsOf rank) * stepDen e
  let high := (Binary64.unitsOf rank + Binary64.unitsOf (rank + 1)) * stepDen e
  let x := c * stepNum e
  if rank % 2 == 0 then low ≤ x && x ≤ high else low < x && x < high

-- Of the two multiples of `10 ^ e` around the number the nearer one that rounds to it.
-- Of two that are equally near it is the upper one.
def onGrid? (rank : Nat) (e : Int) : Option Nat :=
  let x := 2 * Binary64.unitsOf rank * stepDen e
  let c := x / stepNum e
  let lower := rounds rank c e
  let upper := rounds rank (c + 1) e
  if lower && (!upper || 2 * (x % stepNum e) < stepNum e) then some c
  else if upper then some (c + 1)
  else none

-- The first grid with a hit, from `10 ^ (e + n)` down to `10 ^ e`.
def search (rank : Nat) (e : Int) : Nat → Nat × Int
  | 0 => (2 * Binary64.unitsOf rank * stepDen e / stepNum e, e)
  | n + 1 =>
    match onGrid? rank (e + (n + 1 : Nat)) with
    | some c => (c, e + (n + 1 : Nat))
    | none => search rank e n

-- Digits `c` and exponent `e` of the shortest decimal `c * 10 ^ e`. The grid of `10 ^ -1074` holds
-- every number, and a grid above `10 ^ top` none.
def digits (rank : Nat) : Nat × Int :=
  let log : Int := (Binary64.unitsOf rank).log2 - 1074
  let top := log * 30103 / 100000 + 3
  search rank (-1074) (top + 1074).toNat

-- The text of `c * 10 ^ e` without an exponent.
def positional (c : Nat) (e : Int) : String :=
  let ds := (toString c).toList
  if 0 ≤ e then .ofList (ds ++ .replicate e.toNat '0')
  else
    let places := (-e).toNat
    let ds := .replicate (places + 1 - ds.length) '0' ++ ds
    .ofList (ds.take (ds.length - places) ++ '.' :: ds.drop (ds.length - places))

end Shortest

-- The text of a number. Whole numbers have no point.
def Binary64.text (x : Binary64) : String :=
  if x.isNaN then "NaN"
  else
    let magnitude :=
      if x.rank == infinityRank then "inf"
      else if x.rank == 0 then "0"
      else let (c, e) := Shortest.digits x.rank; Shortest.positional c e
    if x.negative then "-" ++ magnitude else magnitude

end FlatQuery
