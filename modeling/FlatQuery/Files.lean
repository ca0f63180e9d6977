import FlatQuery.Fault
import FlatQuery.Text.Utf8

/-!
Files as a program sees them at one moment.
-/

namespace FlatQuery

-- What opening a path gives, and what is in a file that is open. A file that is open has a number.
structure Files where
  openFile : String → Except Fault Nat
  contents : Nat → Source
  -- What keeps an open file from being read from its start once more. Pipes can be read only once.
  rewindFault : Nat → Option Fault := fun _ => none

namespace Files

-- No path holds a NUL.
def openPath (files : Files) (path : String) : Except Fault Nat :=
  if path.toList.contains '\x00' then .error .nulInPath else files.openFile path

def decodeText (bytes : List UInt8) : Except Fault String :=
  match Text.Utf8.decode? bytes with
  | some s => .ok (.ofList s)
  | none => .error .notUtf8

-- The whole text of a file.
def readText (files : Files) (path : String) : Except Fault String := do
  let file ← files.openPath path
  decodeText (← (files.contents file).readAll)

end Files
end FlatQuery
