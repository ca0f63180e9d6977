import FlatQuery.Json.Printer

/-!
Identifiers of sessions. They are made from random bytes, so that no two sessions share one.
-/

namespace FlatQuery.Session

def hexByte (b : UInt8) : List Char :=
  [Json.hexDigit (b.toNat / 16), Json.hexDigit (b.toNat % 16)]

-- Sixteen bytes as hexadecimal digits in five groups. Six bits say that the others are random.
def identifier (bytes : List UInt8) : String :=
  let bytes := bytes.modify 6 (fun b => b &&& 0x0F ||| 0x40)
  let bytes := bytes.modify 8 (fun b => b &&& 0x3F ||| 0x80)
  let group (start stop : Nat) : String :=
    .ofList (((bytes.take stop).drop start).flatMap hexByte)
  "-".intercalate [group 0 4, group 4 6, group 6 8, group 8 10, group 10 16]

end FlatQuery.Session
