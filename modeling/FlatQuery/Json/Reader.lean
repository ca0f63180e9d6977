import FlatQuery.Json.Basic

/-!
Reading JSON text. It is one value between blanks, and arrays and objects nest at most 127 deep.
-/

namespace FlatQuery.Json

inductive Cause
  | value
  | string
  | number
  | name
  | colon
  | separator
  | tooDeep
  | trailing

def Cause.message : Cause → String
  | value => "expected a value"
  | string => "expected the rest of a string"
  | number => "expected a number in range"
  | name => "expected a member name in quotes"
  | colon => "expected a colon"
  | separator => "expected a comma or a closing bracket"
  | tooDeep => "nested too deep"
  | trailing => "expected the end of the text"

structure Error where
  cause : Cause
  -- How many characters were read before it.
  position : Nat

def Error.message (e : Error) : String :=
  e.cause.message ++ " after " ++ toString e.position ++ " characters"

def isBlank (c : Char) : Bool :=
  c == ' ' || c == '\t' || c == '\n' || c == '\r'

def skipBlank (s : List Char) : List Char :=
  s.dropWhile isBlank

def hexValue? (c : Char) : Option Nat :=
  if '0' ≤ c ∧ c ≤ '9' then some (c.toNat - '0'.toNat)
  else if 'a' ≤ c ∧ c ≤ 'f' then some (c.toNat - 'a'.toNat + 10)
  else if 'A' ≤ c ∧ c ≤ 'F' then some (c.toNat - 'A'.toNat + 10)
  else none

-- The 16-bit unit that four hexadecimal digits stand for.
def unit? (a b c d : Char) : Option Nat := do
  return (((← hexValue? a) * 16 + (← hexValue? b)) * 16 + (← hexValue? c)) * 16 + (← hexValue? d)

def escaped? : Char → Option Char
  | '"' => some '"'
  | '\\' => some '\\'
  | '/' => some '/'
  | 'b' => some '\x08'
  | 'f' => some '\x0c'
  | 'n' => some '\n'
  | 'r' => some '\r'
  | 't' => some '\t'
  | _ => none

-- A character above U+FFFF is escaped by two units, and neither half of such a pair stands alone.
def isLead (n : Nat) : Bool := 0xD800 ≤ n && n < 0xDC00
def isTrail (n : Nat) : Bool := 0xDC00 ≤ n && n < 0xE000

-- The character of the unit `n`, which may need a second unit from the text behind it.
def ofUnit? (n : Nat) (s : List Char) : Option (Char × List Char) :=
  if isLead n then
    match s with
    | '\\' :: 'u' :: a :: b :: c :: d :: s => do
      let m ← unit? a b c d
      if isTrail m then some (.ofNat (0x10000 + (n - 0xD800) * 0x400 + (m - 0xDC00)), s) else none
    | _ => none
  else if isTrail n then none
  else some (.ofNat n, s)

-- One character of a string, escaped or not, and what follows it.
def char? : List Char → Option (Char × List Char)
  | [] => none
  | '\\' :: 'u' :: a :: b :: c :: d :: s => (unit? a b c d).bind (ofUnit? · s)
  | '\\' :: c :: s => (escaped? c).map (·, s)
  | c :: s => if c.toNat < 0x20 || c == '\\' || c == '"' then none else some (c, s)

theorem length_ofUnit? {n : Nat} {s r : List Char} {c : Char} (h : ofUnit? n s = some (c, r)) :
    r.length ≤ s.length := by
  unfold ofUnit? at h
  repeat' split at h
  all_goals simp_all [Option.bind_eq_some_iff]
  obtain ⟨_, _, _, _, h⟩ := h
  simp only [← h]
  omega

theorem length_char? {s r : List Char} {c : Char} (h : char? s = some (c, r)) :
    r.length < s.length := by
  unfold char? at h
  split at h
  case h_1 => simp at h
  case h_2 =>
    obtain ⟨_, _, h⟩ := Option.bind_eq_some_iff.mp h
    have := length_ofUnit? h
    simp only [List.length_cons]
    omega
  case h_3 =>
    obtain ⟨_, _, h⟩ := Option.map_eq_some_iff.mp h
    obtain ⟨_, rfl⟩ := Prod.mk.inj h
    simp only [List.length_cons]
    omega
  case h_4 =>
    split at h
    · simp at h
    · simp_all

-- The characters of a string up to its closing quote, and what follows it.
def stringRest? (s : List Char) : Option (List Char × List Char) :=
  match s with
  | '"' :: s => some ([], s)
  | s =>
    match _h : char? s with
    | none => none
    | some (c, r) => (stringRest? r).map fun (cs, r) => (c :: cs, r)
termination_by s.length
decreasing_by exact length_char? (by assumption)

-- The digits at the start of a text if there are any.
def digits? (s : List Char) : Option (List Char × List Char) :=
  match Decimal.digits s with
  | ([], _) => none
  | (ds, r) => some (ds, r)

def fraction? : List Char → Option (Option (List Char) × List Char)
  | '.' :: s => (digits? s).map fun (ds, r) => (some ds, r)
  | s => some (none, s)

def exponent? : List Char → Option (Option Int × List Char)
  | c :: s =>
    if c == 'e' || c == 'E' then
      let (negative, s) := Decimal.sign s
      (digits? s).map fun (ds, r) =>
        (some (if negative then -Decimal.natOf ds else Decimal.natOf ds), r)
    else some (none, c :: s)
  | [] => some (none, [])

-- A number. Only zero begins with a zero.
def number? (s : List Char) : Option (Number × List Char) := do
  let (negative, s) := match s with
    | '-' :: s => (true, s)
    | s => (false, s)
  let (whole, s) ← digits? s
  let (fraction, s) ← fraction? s
  let (exponent, s) ← exponent? s
  if whole.head? == some '0' && whole.length != 1 then none
  else (Number.ofLiteral? negative whole fraction exponent).map (·, s)

-- What a reader returns: a value and the text behind it, or a cause and the text where it arose.
abbrev Reading (α : Type) := Except (Cause × List Char) (α × List Char)

-- One or more items with commas between them, up to the closing bracket.
def items (close : Char) (item : List Char → Reading α) (s : List Char) : Reading (List α) :=
  match item s with
  | .error e => .error e
  | .ok (v, r) =>
    match skipBlank r with
    | ',' :: r =>
      if r.length < s.length then
        (items close item r).map fun (vs, r) => (v :: vs, r)
      else .error (.separator, r)
    | c :: r => if c = close then .ok ([v], r) else .error (.separator, c :: r)
    | [] => .error (.separator, [])
termination_by s.length

-- What follows an opening bracket.
def bracket (close : Char) (item : List Char → Reading α) (s : List Char) : Reading (List α) :=
  match skipBlank s with
  | c :: r => if c = close then .ok ([], r) else items close item (c :: r)
  | [] => .error (.separator, [])

-- A member of an object: a name, a colon and a value.
def member (value : List Char → Reading Json) (s : List Char) : Reading (String × Json) :=
  match skipBlank s with
  | '"' :: s =>
    match stringRest? s with
    | none => .error (.string, s)
    | some (k, s) =>
      match skipBlank s with
      | ':' :: s => (value s).map fun (v, r) => ((.ofList k, v), r)
      | s => .error (.colon, s)
  | s => .error (.name, s)

-- A value in which arrays and objects nest at most `depth` deep.
-- The members of an object go through `tidy`.
def value (tidy : List (String × Json) → List (String × Json)) (depth : Nat) (s : List Char) :
    Reading Json :=
  match skipBlank s with
  | 'n' :: 'u' :: 'l' :: 'l' :: r => .ok (null, r)
  | 't' :: 'r' :: 'u' :: 'e' :: r => .ok (bool true, r)
  | 'f' :: 'a' :: 'l' :: 's' :: 'e' :: r => .ok (bool false, r)
  | '"' :: r =>
    match stringRest? r with
    | some (cs, r) => .ok (string (.ofList cs), r)
    | none => .error (.string, r)
  | '[' :: r =>
    match depth with
    | 0 => .error (.tooDeep, r)
    | depth + 1 =>
      (bracket ']' (value tidy depth) r).map fun (vs, r) => (array vs, r)
  | '\x7b' :: r =>
    match depth with
    | 0 => .error (.tooDeep, r)
    | depth + 1 =>
      (bracket '\x7d' (member (value tidy depth)) r).map fun (ms, r) => (object (tidy ms), r)
  | c :: r =>
    if c == '-' || c.isDigit then
      match number? (c :: r) with
      | some (n, r) => .ok (number n, r)
      | none => .error (.number, c :: r)
    else .error (.value, c :: r)
  | [] => .error (.value, [])

def maxDepth : Nat := 127

def parseWith (tidy : List (String × Json) → List (String × Json)) (s : String) :
    Except Error Json :=
  let failed (cause : Cause) (rest : List Char) : Except Error Json :=
    .error ⟨cause, s.length - rest.length⟩
  match value tidy maxDepth s.toList with
  | .error (cause, rest) => failed cause rest
  | .ok (v, rest) =>
    match skipBlank rest with
    | [] => .ok v
    | rest => failed .trailing rest

-- A repeated member name has the value that it got last.
def parse (s : String) : Except Error Json :=
  parseWith merge s

end FlatQuery.Json
