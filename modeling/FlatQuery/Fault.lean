/-!
What can go wrong with a file or a stream, and streams that may break.
-/

namespace FlatQuery

-- `system` carries the description that the operating system gives.
inductive Fault
  | system (description : String)
  | notUtf8
  | nulInPath
  deriving DecidableEq, Repr

def Fault.message : Fault → String
  | system description => description
  | notUtf8 => "stream did not contain valid UTF-8"
  | nulInPath => "file name contained an unexpected NUL byte"

-- A stream hands out its bytes in order. After the last one it ends,
-- or it breaks if there is a fault.
structure Source where
  bytes : List UInt8
  fault : Option Fault := none
  deriving DecidableEq, Repr

namespace Source

-- What is left of a stream behind its first `n` bytes.
def drop (s : Source) (n : Nat) : Source :=
  { s with bytes := s.bytes.drop n }

-- The bytes of a stream that does not break.
def readAll (s : Source) : Except Fault (List UInt8) :=
  match s.fault with
  | some f => .error f
  | none => .ok s.bytes

end Source
end FlatQuery
