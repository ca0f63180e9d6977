/-!
UTF-8: characters as bytes, and bytes as characters. Bytes that are no character are either refused
(`decode?`) or stand for the replacement character (`decodeLossy`).
-/

namespace FlatQuery.Text.Utf8

def encodeChar (c : Char) : List UInt8 :=
  let n := c.toNat
  if n < 0x80 then [n.toUInt8]
  else if n < 0x800 then [(0xC0 + n / 64).toUInt8, (0x80 + n % 64).toUInt8]
  else if n < 0x10000 then
    [(0xE0 + n / 4096).toUInt8, (0x80 + n / 64 % 64).toUInt8, (0x80 + n % 64).toUInt8]
  else
    [(0xF0 + n / 262144).toUInt8, (0x80 + n / 4096 % 64).toUInt8, (0x80 + n / 64 % 64).toUInt8,
      (0x80 + n % 64).toUInt8]

def encode (s : List Char) : List UInt8 :=
  s.flatMap encodeChar

-- Reads `n` continuation bytes, of which the first lies in `lo .. hi`, after a character has begun
-- with the bits `acc`. At a byte that does not continue it the character is given up, and this byte
-- is left to begin the next one.
def complete (n : Nat) (lo hi : UInt8) (acc : Nat) (bytes : List UInt8) :
    Option Char × List UInt8 :=
  match n, bytes with
  | 0, bytes => (some (Char.ofNat acc), bytes)
  | _ + 1, [] => (none, [])
  | n + 1, b :: bytes =>
    if lo ≤ b && b ≤ hi then complete n 0x80 0xBF (acc * 64 + (b.toNat - 0x80)) bytes
    else (none, b :: bytes)

-- The character that begins with the byte `b`, if there is one, and the bytes after it.
-- The limits on the second byte keep out overlong forms, surrogates and code points that do not
-- exist.
def next (b : UInt8) (bytes : List UInt8) : Option Char × List UInt8 :=
  if b < 0x80 then (some (Char.ofNat b.toNat), bytes)
  else if b < 0xC2 then (none, bytes)
  else if b < 0xE0 then complete 1 0x80 0xBF (b.toNat - 0xC0) bytes
  else if b = 0xE0 then complete 2 0xA0 0xBF 0 bytes
  else if b = 0xED then complete 2 0x80 0x9F 13 bytes
  else if b < 0xF0 then complete 2 0x80 0xBF (b.toNat - 0xE0) bytes
  else if b = 0xF0 then complete 3 0x90 0xBF 0 bytes
  else if b < 0xF4 then complete 3 0x80 0xBF (b.toNat - 0xF0) bytes
  else if b = 0xF4 then complete 3 0x80 0x8F 4 bytes
  else (none, bytes)

theorem length_complete (n : Nat) (lo hi : UInt8) (acc : Nat) (bytes : List UInt8) :
    (complete n lo hi acc bytes).2.length ≤ bytes.length := by
  fun_induction complete n lo hi acc bytes with
  | case1 => simp
  | case2 => simp
  | case3 _ _ _ _ _ _ _ h => simp only [List.length_cons]; omega
  | case4 => simp

theorem length_next (b : UInt8) (bytes : List UInt8) :
    (next b bytes).2.length ≤ bytes.length := by
  unfold next
  repeat' split
  all_goals simp [length_complete]

-- Every maximal run of bytes that begins a character without completing it becomes one U+FFFD.
def decodeLossy (bytes : List UInt8) : List Char :=
  match bytes with
  | [] => []
  | b :: bytes => (next b bytes).1.getD '\uFFFD' :: decodeLossy (next b bytes).2
termination_by bytes.length
decreasing_by simp only [List.length_cons]; have := length_next b bytes; omega

def decode? (bytes : List UInt8) : Option (List Char) :=
  match bytes with
  | [] => some []
  | b :: bytes =>
    match (next b bytes).1 with
    | some c => (decode? (next b bytes).2).map (c :: ·)
    | none => none
termination_by bytes.length
decreasing_by simp only [List.length_cons]; have := length_next b bytes; omega

end FlatQuery.Text.Utf8
