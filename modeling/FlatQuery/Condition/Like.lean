/-!
Patterns in which `%` stands for any text and `_` for any character.
-/

namespace FlatQuery.Like

-- The language of a pattern.
def Matches : List Char → List Char → Prop
  | [], text => text = []
  | '%' :: pattern, text => ∃ rest, rest <:+ text ∧ Matches pattern rest
  | '_' :: pattern, text => ∃ c rest, text = c :: rest ∧ Matches pattern rest
  | c :: pattern, text => ∃ rest, text = c :: rest ∧ Matches pattern rest

-- A search is at one place in the text and one in the pattern. Where it fails it tries again
-- behind the last `%` that it has met: `retry` holds the place of that `%` and the place in the
-- text from where it was tried last.
structure Search where
  text : Nat
  pattern : Nat
  retry : Option (Nat × Nat)
  deriving DecidableEq, Repr

namespace Search

def start : Search :=
  ⟨0, 0, none⟩

-- What is left of the text behind the place from where the last `%` was tried.
def untried (s : Search) (length : Nat) : Nat :=
  match s.retry with
  | none => length + 1
  | some (_, tried) => length - min tried s.text

-- The next state of a search that is not at the end of its text,
-- or none if the text does not match.
def step (text pattern : Array Char) (s : Search) (h : s.text < text.size) : Option Search :=
  if hp : s.pattern < pattern.size then
    if pattern[s.pattern] == '_' || pattern[s.pattern] == text[s.text] then
      some { s with text := s.text + 1, pattern := s.pattern + 1 }
    else if pattern[s.pattern] == '%' then
      some { s with pattern := s.pattern + 1, retry := some (s.pattern, s.text) }
    else again
  else again
where
  again : Option Search :=
    s.retry.map fun (percent, tried) => ⟨tried + 1, percent + 1, some (percent, tried + 1)⟩

-- A step leaves less text untried, or as much of it and less text or pattern behind its places.
theorem step_decreases {text pattern : Array Char} {s s' : Search} {h : s.text < text.size}
    (hs : step text pattern s h = some s') :
    s'.untried text.size < s.untried text.size ∨
    s'.untried text.size = s.untried text.size ∧
      (text.size - s'.text < text.size - s.text ∨
      text.size - s'.text = text.size - s.text ∧
        pattern.size - s'.pattern < pattern.size - s.pattern) := by
  have again_decreases : step.again s = some s' → s'.untried text.size < s.untried text.size := by
    intro hs
    obtain ⟨⟨percent, tried⟩, hr, rfl⟩ := Option.map_eq_some_iff.mp hs
    simp only [untried, hr]
    omega
  unfold step at hs
  split at hs
  case isFalse => exact .inl (again_decreases hs)
  case isTrue hp =>
    split at hs
    case isTrue =>
      obtain rfl := Option.some.inj hs
      cases hr : s.retry <;> (simp only [untried, hr, true_and]; omega)
    case isFalse =>
      split at hs
      case isTrue =>
        obtain rfl := Option.some.inj hs
        cases hr : s.retry <;> (simp only [untried, hr, true_and]; omega)
      case isFalse => exact .inl (again_decreases hs)

-- Whether the rest of the text matches the rest of the pattern.
def run (text pattern : Array Char) (s : Search) : Bool :=
  if h : s.text < text.size then
    match _h : step text pattern s h with
    | some s' => run text pattern s'
    | none => false
  else (pattern.toList.drop s.pattern).all (· == '%')
termination_by (s.untried text.size, text.size - s.text, pattern.size - s.pattern)
decreasing_by
  have := step_decreases (by assumption)
  simp only [Prod.lex_def]
  exact this

end Search

def accepts (pattern text : String) : Bool :=
  Search.start.run text.toList.toArray pattern.toList.toArray

end FlatQuery.Like
