/-!
White space, and texts without what stands at their ends.
-/

namespace FlatQuery.Text

-- The characters of the Unicode property White_Space.
def isBlank (c : Char) : Bool :=
  let n := c.toNat
  (9 ≤ n && n ≤ 13) || n == 0x20 || n == 0x85 || n == 0xA0 || n == 0x1680 ||
  (0x2000 ≤ n && n ≤ 0x200A) || n == 0x2028 || n == 0x2029 || n == 0x202F || n == 0x205F ||
  n == 0x3000

def stripEnd (p : Char → Bool) (s : List Char) : List Char :=
  (s.reverse.dropWhile p).reverse

-- The text without the characters of class `p` that stand at its ends.
-- Those further inside stay.
def strip (p : Char → Bool) (s : List Char) : List Char :=
  stripEnd p (s.dropWhile p)

def trim (s : String) : String :=
  .ofList (strip isBlank s.toList)

theorem dropWhile_idem (p : Char → Bool) (s : List Char) :
    (s.dropWhile p).dropWhile p = s.dropWhile p := by
  induction s with
  | nil => rfl
  | cons c s h => by_cases hc : p c <;> simp [hc, h]

theorem stripEnd_idem (p : Char → Bool) (s : List Char) :
    stripEnd p (stripEnd p s) = stripEnd p s := by
  simp [stripEnd, dropWhile_idem]

-- Cutting at the end does not uncover a character of the class at the start.
theorem dropWhile_stripEnd (p : Char → Bool) (s : List Char) :
    (stripEnd p (s.dropWhile p)).dropWhile p = stripEnd p (s.dropWhile p) := by
  cases h : s.dropWhile p with
  | nil => rfl
  | cons c t =>
    have hc : p c = false := by
      have h' := dropWhile_idem p s
      rw [h] at h'
      by_cases hc : p c
      · have hl := congrArg List.length h'
        have := (List.dropWhile_sublist p (l := t)).length_le
        simp [hc] at hl
        omega
      · simpa using hc
    rw [stripEnd, List.reverse_cons, List.dropWhile_append]
    split <;> simp [hc]

theorem strip_idem (p : Char → Bool) (s : List Char) : strip p (strip p s) = strip p s := by
  simp [strip, dropWhile_stripEnd, stripEnd_idem]

end FlatQuery.Text
