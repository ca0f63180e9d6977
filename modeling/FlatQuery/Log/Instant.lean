/-!
Points in time, and how they are written: as a date and a time of day in UTC.
-/

namespace FlatQuery.Log

-- Nanoseconds since the beginning of 1970.
structure Instant where
  nanoseconds : Nat
  deriving DecidableEq, Repr

namespace Instant

-- Year, month and day, from the days since the beginning of 1970.
-- A year is taken to begin in March, so that a leap day is the last day of its year. The months then
-- follow the pattern of 153 days in five months, and the years that of 146097 days in 400 years.
def date (days : Nat) : Nat × Nat × Nat :=
  let n := days + 719468
  let day := n % 146097
  let year := (day - day / 1460 + day / 36524 - day / 146096) / 365
  let day := day - (365 * year + year / 4 - year / 100)
  let month := (5 * day + 2) / 153
  let year := year + n / 146097 * 400
  let day := day - (153 * month + 2) / 5 + 1
  if month < 10 then (year, month + 3, day) else (year + 1, month - 9, day)

-- The last digits of a number, as many as asked for.
def digits : Nat → Nat → String
  | 0, _ => ""
  | count + 1, n => (digits count (n / 10)).push (Nat.digitChar (n % 10))

def seconds (t : Instant) : String :=
  let s := t.nanoseconds / 1000000000
  let (year, month, day) := date (s / 86400)
  digits 4 year ++ "-" ++ digits 2 month ++ "-" ++ digits 2 day ++ "T" ++
    digits 2 (s / 3600 % 24) ++ ":" ++ digits 2 (s / 60 % 60) ++ ":" ++ digits 2 (s % 60)

-- The time of an entry, to the millisecond.
def stamp (t : Instant) : String :=
  t.seconds ++ "." ++ digits 3 (t.nanoseconds / 1000000) ++ "Z"

-- A time with its offset from UTC. It has three, six or nine decimals, or none, as it needs.
def full (t : Instant) : String :=
  let n := t.nanoseconds
  let decimals :=
    if n % 1000000000 = 0 then ""
    else if n % 1000000 = 0 then "." ++ digits 3 (n / 1000000)
    else if n % 1000 = 0 then "." ++ digits 6 (n / 1000)
    else "." ++ digits 9 n
  t.seconds ++ decimals ++ "+00:00"

end Instant
end FlatQuery.Log
