import FlatQuery.Json.Basic
import FlatQuery.Number.Shortest

/-!
Compact JSON text.
-/

namespace FlatQuery.Json

def hexDigit (n : Nat) : Char :=
  if n < 10 then .ofNat ('0'.toNat + n) else .ofNat ('a'.toNat + (n - 10))

-- A character by its code in four hexadecimal digits.
def unicodeEscape (c : Char) : List Char :=
  let n := c.toNat
  ['\\', 'u', hexDigit (n / 4096 % 16), hexDigit (n / 256 % 16), hexDigit (n / 16 % 16),
    hexDigit (n % 16)]

-- Quotes, backslashes and the control characters below U+0020 are escaped, and nothing else.
def escape (c : Char) : List Char :=
  if c = '"' then ['\\', '"']
  else if c = '\\' then ['\\', '\\']
  else if c = '\x08' then ['\\', 'b']
  else if c = '\t' then ['\\', 't']
  else if c = '\n' then ['\\', 'n']
  else if c = '\x0c' then ['\\', 'f']
  else if c = '\r' then ['\\', 'r']
  else if c.toNat < 0x20 then unicodeEscape c
  else [c]

def quote (s : String) : List Char :=
  '"' :: (s.toList.flatMap escape ++ ['"'])

-- The text of `c * 10 ^ e`. It has a point, from `10 ^ -5` on and below `10 ^ 16`. Elsewhere it has
-- an exponent, and the point stands behind the first digit if there is another one.
def Number.decimal (c : Nat) (e : Int) : List Char :=
  let ds := Nat.toDigits 10 c
  let place := ds.length + e
  if -5 < place ∧ place ≤ 16 then
    (Shortest.positional c e).toList ++ if 0 ≤ e then ".0".toList else []
  else
    ds.take 1 ++ (if 1 < ds.length then '.' :: ds.drop 1 else []) ++
      'e' :: (toString (place - 1)).toList

-- A floating-point number has the fewest digits that read back as it, and is null if it has none.
def Number.text : Number → List Char
  | whole n => (toString n).toList
  | binary x =>
    if !x.isFinite then "null".toList
    else
      let magnitude :=
        if x.rank = 0 then "0.0".toList
        else let (c, e) := Shortest.digits x.rank; decimal c e
      if x.negative then '-' :: magnitude else magnitude

mutual

def chars : Json → List Char
  | null => "null".toList
  | bool true => "true".toList
  | bool false => "false".toList
  | number n => n.text
  | string s => quote s
  | array items => '[' :: (charsOfItems items ++ [']'])
  | object members => '\x7b' :: (charsOfMembers members ++ ['\x7d'])

def charsOfItems : List Json → List Char
  | [] => []
  | [v] => v.chars
  | v :: vs => v.chars ++ ',' :: charsOfItems vs

def charsOfMembers : List (String × Json) → List Char
  | [] => []
  | [(k, v)] => quote k ++ ':' :: v.chars
  | (k, v) :: ms => quote k ++ ':' :: (v.chars ++ ',' :: charsOfMembers ms)

end

def render (v : Json) : String :=
  .ofList v.chars

end FlatQuery.Json
