/-!
Binary floating-point numbers of 64 bits. A number is a sign and a rank: the place of its magnitude
among all magnitudes, which is also its word of 63 bits. So the order of magnitudes is the order of
ranks, neighbours differ by one, and rounding chooses a rank.
-/

namespace FlatQuery

@[ext]
structure Binary64 where
  negative : Bool
  rank : Nat
  rank_lt : rank < 0x8000000000000000
  deriving DecidableEq, Repr

namespace Binary64

-- The bit of a word that tells the sign.
def signBit : Nat := 0x8000000000000000

-- How many fractions there are.
def fractions : Nat := 0x10000000000000

-- Ranks up to here are finite. This one is infinity, and those above are no numbers.
def infinityRank : Nat := 0x7FF * fractions

def ofBits (bits : UInt64) : Binary64 where
  negative := signBit ≤ bits.toNat
  rank := bits.toNat % signBit
  rank_lt := Nat.mod_lt _ (by decide)

def toBits (x : Binary64) : UInt64 :=
  .ofNat (x.rank + if x.negative then signBit else 0)

def zero (negative : Bool) : Binary64 :=
  ⟨negative, 0, by decide⟩

def infinity (negative : Bool) : Binary64 :=
  ⟨negative, infinityRank, by decide⟩

def isNaN (x : Binary64) : Bool :=
  infinityRank < x.rank

def isFinite (x : Binary64) : Bool :=
  x.rank < infinityRank

-- The magnitude of a rank, counted in units of the least positive number, which is 2 ^ -1074.
-- The lowest 52 bits of a rank are a fraction; those above it tell how far the fraction is shifted.
def unitsOf (rank : Nat) : Nat :=
  if rank < fractions then rank
  else (fractions + rank % fractions) <<< (rank / fractions - 1)

def units (x : Binary64) : Nat :=
  unitsOf x.rank

-- How many units make 1.
def one : Nat := 1 <<< 1074

-- The rank nearest to the magnitude of `num / den` units. The fraction keeps 53 bits, and a half
-- goes to the even neighbour.
def nearestRank (num den : Nat) : Nat :=
  let shift := (num / den).log2 - 52
  let step := den <<< shift
  let half := 2 * (num % step)
  let up := step < half || (step == half && num / step % 2 == 1)
  min (shift * fractions + num / step + up.toNat) infinityRank

-- The number nearest to `num / den` units, with the given sign.
def nearest (negative : Bool) (num den : Nat) : Binary64 where
  negative := negative
  rank := nearestRank num den
  rank_lt := Nat.lt_of_le_of_lt (Nat.min_le_right ..) (by decide)

def ofInt (n : Int) : Binary64 :=
  nearest (n < 0) (n.natAbs * one) 1

def ofNat (n : Nat) : Binary64 :=
  nearest false (n * one) 1

-- The product and the quotient of two finite numbers, each rounded once.
def times (x y : Binary64) : Binary64 :=
  nearest (x.negative != y.negative) (x.units * y.units) one

def dividedBy (x y : Binary64) : Binary64 :=
  nearest (x.negative != y.negative) (x.units * one) y.units

-- The place of a number in the order of all numbers. Both zeros have the same.
def key (x : Binary64) : Int :=
  if x.negative then -x.rank else x.rank

-- What is no number compares with nothing.
def compare? (x y : Binary64) : Option Ordering :=
  if x.isNaN || y.isNaN then none else some (compare x.key y.key)

-- The magnitude of a finite number without a fractional part.
def whole? (x : Binary64) : Option Nat :=
  if x.isFinite && x.units % one == 0 then some (x.units / one) else none

end Binary64
end FlatQuery
