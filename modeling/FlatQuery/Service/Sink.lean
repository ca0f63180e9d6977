import FlatQuery.Fault

/-!
Streams that are written to. A stream may have room for so many bytes only.
-/

namespace FlatQuery

@[ext]
structure Sink where
  written : List UInt8 := []
  room : Option Nat := none
  -- What goes wrong when there is no room left.
  fault : Fault := .system ""
  deriving DecidableEq, Repr

namespace Sink

-- Writes as many bytes as there is room for, and says whether that was all.
def write (k : Sink) (bytes : List UInt8) : Bool × Sink :=
  match k.room with
  | none => (true, { k with written := k.written ++ bytes })
  | some n =>
    (bytes.length ≤ n,
      { k with written := k.written ++ bytes.take n, room := some (n - bytes.length) })

end Sink
end FlatQuery
