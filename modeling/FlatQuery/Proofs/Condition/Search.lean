import FlatQuery.Proofs.Condition.Like

/-!
How long a search for a pattern goes on and where it looks. When the last `%` is tried again, the
places in the text and in the pattern both may go back, so neither of them tells how much is left to
do. The main statement is `search_ends_in_range`.
-/

namespace FlatQuery.Like

namespace Search

-- The states that a search comes to.
inductive Reached (text pattern : Array Char) : Search → Prop
  | start : Reached text pattern start
  | step {s s' : Search} (h : s.text < text.size) :
    Reached text pattern s → step text pattern s h = some s' → Reached text pattern s'

-- The invariant of the places. What `retry` holds is the place of a `%` and a place in the text
-- that the search is at or behind.
structure InRange (text pattern : Array Char) (s : Search) : Prop where
  text_le    : s.text ≤ text.size
  pattern_le : s.pattern ≤ pattern.size
  percent    : ∀ percent tried, s.retry = some (percent, tried) → pattern[percent]? = some '%'
  tried_le   : ∀ percent tried, s.retry = some (percent, tried) → tried ≤ s.text

-- A bound on the steps that are left. From each place in the text where the last `%` was not tried
-- yet, the search may go through the whole pattern before it takes a step to try the next one.
def remaining (text pattern : Array Char) (s : Search) : Nat :=
  s.untried text.size * (pattern.size + 1) + (pattern.size - s.pattern)

-- Why a search that has a limit, and looks at places that need not exist, comes to no verdict.
inductive Abort
  | outOfRange
  | outOfSteps
  deriving DecidableEq, Repr

def charAt (chars : Array Char) (i : Nat) : Except Abort Char :=
  if h : i < chars.size then .ok chars[i] else .error .outOfRange

def charsFrom (chars : Array Char) (i : Nat) : Except Abort (List Char) :=
  if i ≤ chars.size then .ok (chars.toList.drop i) else .error .outOfRange

-- The next state as in `step`, but with characters that are looked up. The one of the text is looked
-- up for a `_` too.
def lookupStep (text pattern : Array Char) (s : Search) : Except Abort (Option Search) := do
  if s.pattern < pattern.size then
    let c ← charAt pattern s.pattern
    let d ← charAt text s.text
    if c == '_' || c == d then
      return some { s with text := s.text + 1, pattern := s.pattern + 1 }
    else if c == '%' then
      return some { s with pattern := s.pattern + 1, retry := some (s.pattern, s.text) }
    else return step.again s
  else return step.again s

-- The verdict of a search that comes to so many states at most.
def runWithin (text pattern : Array Char) : Nat → Search → Except Abort Bool
  | 0, _ => .error .outOfSteps
  | n + 1, s => do
    if s.text < text.size then
      match ← lookupStep text pattern s with
      | some s' => runWithin text pattern n s'
      | none => return false
    else
      let rest ← charsFrom pattern s.pattern
      return rest.all (· == '%')

variable {text pattern : Array Char} {s s' : Search}

theorem remaining_lt_of_pattern_lt (hu : s'.untried text.size ≤ s.untried text.size)
    (hp : pattern.size - s'.pattern < pattern.size - s.pattern) :
    s'.remaining text pattern < s.remaining text pattern :=
  Nat.add_lt_add_of_le_of_lt (Nat.mul_le_mul_right _ hu) hp

-- What is left of the pattern counts less than a place where the last `%` was not tried.
theorem remaining_lt_of_untried_lt (hu : s'.untried text.size < s.untried text.size) :
    s'.remaining text pattern < s.remaining text pattern := by
  calc s'.remaining text pattern
    _ < s'.untried text.size * (pattern.size + 1) + (pattern.size + 1) := by
      rw [remaining]
      omega
    _ = (s'.untried text.size + 1) * (pattern.size + 1) := (Nat.succ_mul ..).symm
    _ ≤ s.untried text.size * (pattern.size + 1) := Nat.mul_le_mul_right _ hu
    _ ≤ s.remaining text pattern := Nat.le_add_right ..

theorem remaining_start_lt :
    start.remaining text pattern < (text.size + 2) * (pattern.size + 1) := by
  rw [Nat.succ_mul]
  simp only [remaining, untried, start]
  omega

theorem getElem?_of_drop {a : Array Char} {i : Nat} {c : Char} {rest : List Char}
    (h : a.toList.drop i = c :: rest) : a[i]? = some c := by
  rw [←Array.getElem?_toList, ←List.head?_drop, h, List.head?_cons]

theorem lt_size_of_getElem? {a : Array Char} {i : Nat} {c : Char} (h : a[i]? = some c) :
    i < a.size := by
  obtain ⟨hi, _⟩ := Array.getElem?_eq_some_iff.mp h
  exact hi

theorem InRange.percent_lt {percent tried : Nat} (h : s.InRange text pattern)
    (hr : s.retry = some (percent, tried)) : percent < pattern.size :=
  lt_size_of_getElem? (h.percent percent tried hr)

theorem InRange.tried_lt {percent tried : Nat} (h : s.InRange text pattern)
    (hr : s.retry = some (percent, tried)) (ht : s.text < text.size) : tried < text.size :=
  Nat.lt_of_le_of_lt (h.tried_le percent tried hr) ht

theorem InRange.start : InRange text pattern start where
  text_le    := Nat.zero_le _
  pattern_le := Nat.zero_le _
  percent    := by rintro _ _ ⟨⟩
  tried_le   := by rintro _ _ ⟨⟩

namespace StepCase

theorem remaining_lt (h : StepCase text pattern s (some s')) (ht : s.text < text.size) :
    s'.remaining text pattern < s.remaining text pattern := by
  cases h
  -- The last `%` is the same or was not met before, and the pattern gets shorter.
  case agree hp _ _ | percent hp _ _ =>
    have hp := lt_size_of_getElem? (getElem?_of_drop hp)
    apply remaining_lt_of_pattern_lt
    case hu => cases hr : s.retry <;> (simp only [untried, hr]; omega)
    case hp => dsimp only; omega
  case again percent tried _ hr =>
    apply remaining_lt_of_untried_lt
    simp only [untried, hr]
    omega

theorem inRange (h : StepCase text pattern s (some s')) (ht : s.text < text.size)
    (hs : s.InRange text pattern) : s'.InRange text pattern := by
  cases h
  case agree hp _ _ =>
    exact {
      text_le    := ht
      pattern_le := lt_size_of_getElem? (getElem?_of_drop hp)
      percent    := hs.percent
      tried_le   := fun percent tried hr => Nat.le_succ_of_le (hs.tried_le percent tried hr)
    }
  case percent hp _ _ =>
    have hp := getElem?_of_drop hp
    exact {
      text_le    := hs.text_le
      pattern_le := lt_size_of_getElem? hp
      percent    := by rintro _ _ ⟨⟩; exact hp
      tried_le   := by rintro _ _ ⟨⟩; exact Nat.le_refl _
    }
  case again percent tried _ hr =>
    exact {
      text_le    := hs.tried_lt hr ht
      pattern_le := hs.percent_lt hr
      percent    := by rintro _ _ ⟨⟩; exact hs.percent percent tried hr
      tried_le   := by rintro _ _ ⟨⟩; exact Nat.le_refl _
    }

end StepCase

theorem step_remaining_lt {h : s.text < text.size} (hs : step text pattern s h = some s') :
    s'.remaining text pattern < s.remaining text pattern := by
  have hc : StepCase text pattern s (some s') := hs ▸ stepCase h
  exact hc.remaining_lt h

theorem InRange.step {h : s.text < text.size} (hr : s.InRange text pattern)
    (hs : step text pattern s h = some s') : s'.InRange text pattern := by
  have hc : StepCase text pattern s (some s') := hs ▸ stepCase h
  exact hc.inRange h hr

theorem Reached.inRange (h : Reached text pattern s) : s.InRange text pattern := by
  induction h with
  | start          => exact .start
  | step _ _ hs ih => exact ih.step hs

theorem lookupStep_eq (h : s.text < text.size) :
    lookupStep text pattern s = .ok (step text pattern s h) := by
  unfold lookupStep step
  split
  case isFalse => rfl
  case isTrue hp =>
    simp only [charAt, dif_pos hp, dif_pos h, bind, Except.bind]
    split
    case isTrue  => rfl
    case isFalse => split <;> rfl

-- A search whose places are in range finds all that it looks up, and comes to its verdict if the
-- limit leaves it the time.
theorem runWithin_eq {n : Nat} (hr : s.InRange text pattern) (hn : s.remaining text pattern < n) :
    runWithin text pattern n s = .ok (run text pattern s) := by
  induction n generalizing s with
  | zero => exact absurd hn (Nat.not_lt_zero _)
  | succ n ih =>
    rw [runWithin, run]
    by_cases ht : s.text < text.size
    case neg =>
      rw [if_neg ht, dif_neg ht, charsFrom, if_pos hr.pattern_le]
      rfl
    case pos =>
      rw [if_pos ht, dif_pos ht, lookupStep_eq ht]
      cases hs : step text pattern s ht
      case none => rfl
      case some s' =>
        have hlt := step_remaining_lt hs
        exact ih (hr.step hs) (by omega)

end Search

open Search

-- How the search for a pattern in a text goes:
-- 1. Each step leaves less to do, although it may move the search back in the text and the pattern.
-- 2. In each state that the search comes to, neither of its places is behind the end. The last `%`
--    is one of the pattern, and while there is text left it was tried from a place in the text.
-- 3. The search comes to its verdict, and finds all that it looks up. It takes no more states than
--    there are pairs of a place in the text and one in the pattern, ends included, and one more
--    round through the pattern.
theorem search_ends_in_range (pattern text : String) :
    let ps := pattern.toList.toArray
    let ts := text.toList.toArray
    (∀ (s s' : Search) (h : s.text < ts.size), step ts ps s h = some s' →
      s'.remaining ts ps < s.remaining ts ps) ∧
    (∀ s, Reached ts ps s → s.text ≤ ts.size ∧ s.pattern ≤ ps.size ∧
      ∀ percent tried, s.retry = some (percent, tried) →
        percent < ps.size ∧ (s.text < ts.size → tried < ts.size)) ∧
    ∀ n, (ts.size + 2) * (ps.size + 1) ≤ n →
      runWithin ts ps n start = .ok (accepts pattern text) := by
  intro ps ts
  refine ⟨fun s s' h hs => step_remaining_lt hs, fun s hs => ?_, fun n hn => ?_⟩
  case refine_1 =>
    have hr := hs.inRange
    exact ⟨hr.text_le, hr.pattern_le, fun _ _ h => ⟨hr.percent_lt h, hr.tried_lt h⟩⟩
  case refine_2 =>
    exact runWithin_eq .start (Nat.lt_of_lt_of_le remaining_start_lt hn)

-- A `%` is tried again, two characters back in the pattern and one in the text.
theorem search_ends_in_range_second_try :
    let ps := "%aab".toList.toArray
    let ts := "aaab".toList.toArray
    let s : Search := ⟨2, 3, some (0, 0)⟩
    let s' : Search := ⟨1, 1, some (0, 1)⟩
    step ts ps s (by decide) = some s' ∧ s'.remaining ts ps < s.remaining ts ps ∧
    Reached ts ps s' ∧ s'.pattern ≤ ps.size ∧ 0 < ps.size ∧ 1 < ts.size ∧
    runWithin ts ps 30 start = .ok (accepts "%aab" "aaab") := by
  intro ps ts s s'
  obtain ⟨decreases, places, verdict⟩ := search_ends_in_range "%aab" "aaab"
  have hs : step ts ps s (by decide) = some s' := by decide
  have hr : Reached ts ps s := by
    have h₁ : Reached ts ps ⟨0, 1, some (0, 0)⟩ := .step (by decide) .start (by decide)
    have h₂ : Reached ts ps ⟨1, 2, some (0, 0)⟩ := .step (by decide) h₁ (by decide)
    exact .step (by decide) h₂ (by decide)
  have hr' : Reached ts ps s' := .step (by decide) hr hs
  obtain ⟨_, hp, hretry⟩ := places s' hr'
  obtain ⟨hpercent, htried⟩ := hretry 0 1 rfl
  exact ⟨hs, decreases s s' (by decide) hs, hr', hp, hpercent, htried (by decide),
    verdict 30 (by decide)⟩

end FlatQuery.Like
