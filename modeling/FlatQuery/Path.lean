/-!
Paths of files. A path is a text in which slashes separate components.
-/

namespace FlatQuery.Path

def isAbsolute (path : String) : Bool :=
  path.toList.head? == some '/'

-- A path behind another one. There is a slash between them if the first one does not end in one.
-- An absolute path replaces the one before it.
def join (base path : String) : String :=
  if isAbsolute path then path
  else if base = "" then path
  else if base.toList.getLast? = some '/' then base ++ path
  else base ++ "/" ++ path

-- The texts between the slashes.
def segments : List Char → List (List Char)
  | [] => [[]]
  | c :: cs =>
    if c = '/' then [] :: segments cs
    else
      match segments cs with
      | [] => [[c]]
      | s :: ss => (c :: s) :: ss

-- What a path consists of: the root if it is absolute, and then the segments that are neither empty
-- nor a lone dot. A dot counts where a relative path begins with it.
def components (path : String) : List String :=
  let all := segments path.toList
  let inner := (all.filter fun s => s ≠ [] && s ≠ ['.']).map .ofList
  match path.toList, all with
  | '/' :: _, _ => "/" :: inner
  | _, ['.'] :: _ => "." :: inner
  | _, _ => inner

end FlatQuery.Path
