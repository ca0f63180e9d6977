import FlatQuery.Condition.Like

/-!
What the search for a pattern finds. A `%` of the pattern that meets a `%` of the text takes this one
character, and nothing else is tried for it. So every text that is accepted is in the language of
the pattern, but a text with a `%` in it may be in the language and not be accepted. The main
statement is `accepts_language`.
-/

namespace FlatQuery.Like

-- The language of a pattern as far as it is found: as in `Matches`, but a `%` in front of a `%` of
-- the text stands for nothing else.
def Found : List Char → List Char → Prop
  | [], text => text = []
  | '%' :: pattern, '%' :: text => Found pattern text
  | '%' :: pattern, text => ∃ rest, rest <:+ text ∧ Found pattern rest
  | '_' :: pattern, text => ∃ c rest, text = c :: rest ∧ Found pattern rest
  | c :: pattern, text => ∃ rest, text = c :: rest ∧ Found pattern rest

-- Some end of the text is found.
def FoundIn (pattern text : List Char) : Prop :=
  ∃ rest, rest <:+ text ∧ Found pattern rest

-- Whether a character of the pattern may stand for just this character of the text.
def Agrees (c d : Char) : Prop :=
  c = '_' ∨ c = d

variable {c d : Char} {pattern text : List Char}

theorem matches_cons_iff (h : c ≠ '%') :
    Matches (c :: pattern) text ↔
      ∃ d rest, Agrees c d ∧ text = d :: rest ∧ Matches pattern rest := by
  by_cases hu : c = '_' <;> simp [Matches, Agrees, hu]

theorem found_cons_iff (h : c ≠ '%') :
    Found (c :: pattern) text ↔ ∃ d rest, Agrees c d ∧ text = d :: rest ∧ Found pattern rest := by
  by_cases hu : c = '_' <;> simp [Found, Agrees, h, hu]

theorem found_percent_cons_iff (h : d ≠ '%') :
    Found ('%' :: pattern) (d :: text) ↔ FoundIn pattern (d :: text) := by
  simp [Found, FoundIn, h]

theorem found_cons_cons_iff (h : Agrees c d) :
    Found (c :: pattern) (d :: text) ↔ Found pattern text := by
  by_cases hc : c = '%'
  case neg =>
    rw [found_cons_iff hc]
    constructor
    case mp =>
      rintro ⟨_, _, _, he, hf⟩
      cases he
      exact hf
    case mpr => exact fun hf => ⟨d, text, h, rfl, hf⟩
  case pos =>
    have hd : d = '%' := hc ▸ (h.resolve_left (by simp [hc])).symm
    simp [hc, hd, Found]

-- At the end of the text each `%` stands for nothing.
theorem found_nil_iff : Found pattern [] ↔ pattern.all (· == '%') := by
  induction pattern with
  | nil => simp [Found]
  | cons c pattern ih =>
    by_cases h : c = '%'
    case pos => simp [h, Found, ih]
    case neg => simp [found_cons_iff h, h]

theorem FoundIn.of_suffix {text' : List Char} (h : FoundIn pattern text) (hs : text <:+ text') :
    FoundIn pattern text' := by
  obtain ⟨rest, hr, hf⟩ := h
  exact ⟨rest, hr.trans hs, hf⟩

theorem foundIn_nil_iff : FoundIn pattern [] ↔ Found pattern [] := by
  simp [FoundIn]

theorem foundIn_cons_iff :
    FoundIn pattern (d :: text) ↔ Found pattern (d :: text) ∨ FoundIn pattern text := by
  simp [FoundIn, List.suffix_cons_iff, or_and_right, exists_or]

theorem foundIn_drop_iff (i : Nat) :
    FoundIn pattern (text.drop i) ↔
    Found pattern (text.drop i) ∨ FoundIn pattern (text.drop (i + 1)) := by
  rw [←List.tail_drop]
  cases text.drop i
  case nil  => simp [foundIn_nil_iff]
  case cons => exact foundIn_cons_iff

-- What a pattern has behind its first character is found behind what this one stands for.
theorem Found.tail (h : Found (c :: pattern) text) : FoundIn pattern text := by
  by_cases hc : c = '%'
  case neg =>
    obtain ⟨d, rest, _, rfl, hf⟩ := (found_cons_iff hc).mp h
    exact ⟨rest, List.suffix_cons d rest, hf⟩
  case pos =>
    subst hc
    cases text
    case nil         => simpa [Found, FoundIn] using h
    case cons d text =>
      by_cases hd : d = '%'
      case neg => exact (found_percent_cons_iff hd).mp h
      case pos =>
        have hf : Found pattern text := (found_cons_cons_iff (.inr hd.symm)).mp h
        exact ⟨text, List.suffix_cons d text, hf⟩

theorem FoundIn.tail (h : FoundIn (c :: pattern) text) : FoundIn pattern text := by
  obtain ⟨rest, hs, hf⟩ := h
  exact hf.tail.of_suffix hs

-- A later end of the text does not get by with less of it than the first one, which comes one
-- character further with each character of the pattern.
theorem FoundIn.of_agrees (h : FoundIn (c :: pattern) (d :: text)) (ha : Agrees c d) :
    FoundIn pattern text := by
  cases foundIn_cons_iff.mp h
  case inl hf => exact ⟨text, List.suffix_rfl, (found_cons_cons_iff ha).mp hf⟩
  case inr hf => exact hf.tail

theorem Found.matches {text : List Char} (h : Found pattern text) : Matches pattern text := by
  induction pattern generalizing text with
  | nil => exact h
  | cons c pattern ih =>
    by_cases hc : c = '%'
    case neg =>
      obtain ⟨d, rest, ha, ht, hf⟩ := (found_cons_iff hc).mp h
      exact (matches_cons_iff hc).mpr ⟨d, rest, ha, ht, ih hf⟩
    case pos =>
      obtain ⟨rest, hs, hf⟩ := h.tail
      subst hc
      exact ⟨rest, hs, ih hf⟩

-- In a text without a `%` there is nothing that a `%` of the pattern could be mistaken for.
theorem Matches.found {text : List Char} (h : Matches pattern text) (hp : '%' ∉ text) :
    Found pattern text := by
  induction pattern generalizing text with
  | nil => exact h
  | cons c pattern ih =>
    by_cases hc : c = '%'
    case neg =>
      obtain ⟨d, rest, ha, rfl, hm⟩ := (matches_cons_iff hc).mp h
      exact (found_cons_iff hc).mpr ⟨d, rest, ha, rfl, ih hm (List.not_mem_of_not_mem_cons hp)⟩
    case pos =>
      subst hc
      obtain ⟨rest, hs, hm⟩ := h
      have hf : FoundIn pattern text := ⟨rest, hs, ih hm (hp <| hs.subset ·)⟩
      cases text
      case nil         => simpa [Found, FoundIn] using hf
      case cons d text => exact (found_percent_cons_iff (by simp_all [eq_comm])).mpr hf

theorem matches_replicate_append_iff (n : Nat) :
    Matches (.replicate n '_' ++ pattern) text ↔
      n ≤ text.length ∧ Matches pattern (text.drop n) := by
  induction n generalizing text with
  | zero => simp
  | succ n ih => cases text <;> simp [List.replicate_succ, Matches, and_assoc, ih]

theorem found_replicate_append_iff (n : Nat) :
    Found (.replicate n '_' ++ pattern) text ↔ n ≤ text.length ∧ Found pattern (text.drop n) := by
  induction n generalizing text with
  | zero => simp
  | succ n ih => cases text <;> simp [List.replicate_succ, Found, and_assoc, ih]

namespace Search

variable {text pattern : Array Char} {s s' : Search}

-- The search succeeds from where it is.
def SucceedsHere (text pattern : Array Char) (s : Search) : Prop :=
  Found (pattern.toList.drop s.pattern) (text.toList.drop s.text)

-- The search succeeds when it tries the last `%` again.
def SucceedsLater (text pattern : Array Char) (s : Search) : Prop :=
  ∃ percent tried, s.retry = some (percent, tried) ∧
    FoundIn (pattern.toList.drop (percent + 1)) (text.toList.drop (tried + 1))

def Succeeds (text pattern : Array Char) (s : Search) : Prop :=
  s.SucceedsHere text pattern ∨ s.SucceedsLater text pattern

theorem succeedsLater_iff {percent tried : Nat} (h : s.retry = some (percent, tried)) :
    s.SucceedsLater text pattern ↔
    FoundIn (pattern.toList.drop (percent + 1)) (text.toList.drop (tried + 1)) := by
  simp [SucceedsLater, h, and_assoc]

-- The invariant of a search: a try of the last `%` that succeeds gets past the place where the search
-- is. So it does no harm to forget this `%` for another one at this place.
def Covers (text pattern : Array Char) (s : Search) : Prop :=
  ∀ percent tried, s.retry = some (percent, tried) →
    FoundIn (pattern.toList.drop (percent + 1)) (text.toList.drop tried) →
    FoundIn (pattern.toList.drop s.pattern) (text.toList.drop s.text)

theorem Covers.of_succeedsLater (hc : s.Covers text pattern) (h : s.SucceedsLater text pattern) :
    FoundIn (pattern.toList.drop s.pattern) (text.toList.drop s.text) := by
  obtain ⟨percent, tried, hr, hf⟩ := h
  exact hc percent tried hr (hf.of_suffix (List.drop_suffix_drop_left _ (Nat.le_succ tried)))

-- What a step comes to, by what is left of the pattern and of the text.
inductive StepCase (text pattern : Array Char) (s : Search) : Option Search → Prop
  | agree (c d : Char) :
    pattern.toList.drop s.pattern = c :: pattern.toList.drop (s.pattern + 1) →
    text.toList.drop s.text = d :: text.toList.drop (s.text + 1) → Agrees c d →
    StepCase text pattern s (some { s with text := s.text + 1, pattern := s.pattern + 1 })
  | percent (d : Char) :
    pattern.toList.drop s.pattern = '%' :: pattern.toList.drop (s.pattern + 1) →
    text.toList.drop s.text = d :: text.toList.drop (s.text + 1) → d ≠ '%' →
    StepCase text pattern s
      (some { s with pattern := s.pattern + 1, retry := some (s.pattern, s.text) })
  | again (percent tried : Nat) :
    ¬s.SucceedsHere text pattern → s.retry = some (percent, tried) →
    StepCase text pattern s (some ⟨tried + 1, percent + 1, some (percent, tried + 1)⟩)
  | fail : ¬s.SucceedsHere text pattern → s.retry = none → StepCase text pattern s none

theorem drop_toList {a : Array Char} {i : Nat} (h : i < a.size) :
    a.toList.drop i = a[i] :: a.toList.drop (i + 1) := by
  rw [List.drop_eq_getElem_cons (by simpa using h), Array.getElem_toList]

theorem stepCase_again (h : ¬s.SucceedsHere text pattern) :
    StepCase text pattern s (step.again s) := by
  rw [step.again]
  cases hr : s.retry
  case none       => exact .fail h hr
  case some retry => exact .again retry.1 retry.2 h hr

theorem stepCase (h : s.text < text.size) : StepCase text pattern s (step text pattern s h) := by
  have ht := drop_toList h
  unfold step
  split
  case isFalse hp =>
    apply stepCase_again
    rw [SucceedsHere, List.drop_eq_nil_of_le (by simpa using hp), ht]
    exact List.cons_ne_nil _ _
  case isTrue hp =>
    have hq := drop_toList hp
    split
    case isTrue ha => exact .agree _ _ hq ht (by simpa [Agrees] using ha)
    case isFalse ha =>
      have ha : ¬Agrees pattern[s.pattern] text[s.text] := by simpa [Agrees] using ha
      split
      case isTrue hc =>
        have hc : pattern[s.pattern] = '%' := by simpa using hc
        exact .percent _ (hc ▸ hq) ht fun hd => ha (.inr (hc.trans hd.symm))
      case isFalse hc =>
        have hc : pattern[s.pattern] ≠ '%' := by simpa using hc
        apply stepCase_again
        rw [SucceedsHere, hq, ht, found_cons_iff hc]
        rintro ⟨_, _, had, he, _⟩
        cases he
        exact ha had

namespace StepCase

theorem covers (h : StepCase text pattern s (some s')) (hc : s.Covers text pattern) :
    s'.Covers text pattern := by
  cases h
  case agree c d hp ht ha =>
    intro percent tried hr hf
    have hf := hc percent tried hr hf
    rw [hp, ht] at hf
    exact hf.of_agrees ha
  -- The search is behind the last `%` and where this is tried from.
  case percent | again =>
    rintro _ _ ⟨⟩ hf
    exact hf

theorem succeeds_iff (h : StepCase text pattern s (some s')) (hc : s.Covers text pattern) :
    s'.Succeeds text pattern ↔ s.Succeeds text pattern := by
  simp only [Succeeds]
  cases h
  case agree c d hp ht ha =>
    have hh : s.SucceedsHere text pattern ↔ _ := hp ▸ ht ▸ found_cons_cons_iff ha
    exact or_congr_left hh.symm
  case percent d hp ht hd =>
    have hh : s.SucceedsHere text pattern ↔
        FoundIn (pattern.toList.drop (s.pattern + 1)) (text.toList.drop s.text) := by
      rw [SucceedsHere, hp, ht, found_percent_cons_iff hd]
    have hl : s.SucceedsLater text pattern → s.SucceedsHere text pattern := by
      intro hl
      have hf := hc.of_succeedsLater hl
      rw [hp] at hf
      exact hh.mpr hf.tail
    rw [or_iff_left_of_imp hl, hh, foundIn_drop_iff, succeedsLater_iff rfl]
    rfl
  case again percent tried hf hr =>
    rw [or_iff_right hf, succeedsLater_iff hr, foundIn_drop_iff, succeedsLater_iff rfl]
    rfl

theorem not_succeeds (h : StepCase text pattern s none) : ¬s.Succeeds text pattern := by
  cases h
  case fail hr hf => simp [Succeeds, SucceedsLater, hr, hf]

end StepCase

theorem run_iff (h : s.Covers text pattern) : run text pattern s ↔ s.Succeeds text pattern := by
  fun_induction run text pattern s
  case case1 s ht s' hs ih =>
    have hc : StepCase text pattern s (some s') := hs ▸ stepCase ht
    rw [ih (hc.covers h), hc.succeeds_iff h]
  case case2 s ht hs =>
    have hc : StepCase text pattern s none := hs ▸ stepCase ht
    simpa using hc.not_succeeds
  case case3 s ht =>
    have hn : text.toList.drop s.text = [] := List.drop_eq_nil_of_le (by simpa using ht)
    have hh : s.SucceedsHere text pattern ↔ (pattern.toList.drop s.pattern).all (· == '%') := by
      rw [SucceedsHere, hn, found_nil_iff]
    have hl : s.SucceedsLater text pattern → s.SucceedsHere text pattern := by
      intro hl
      have hf := h.of_succeedsLater hl
      rw [hn, foundIn_nil_iff] at hf
      rwa [SucceedsHere, hn]
    rw [Succeeds, or_iff_left_of_imp hl, hh]

end Search

theorem accepts_iff_found (pattern text : String) :
    accepts pattern text ↔ Found pattern.toList text.toList := by
  have hc : Search.start.Covers text.toList.toArray pattern.toList.toArray := by
    rintro _ _ ⟨⟩
  rw [accepts, Search.run_iff hc]
  simp [Search.Succeeds, Search.SucceedsHere, Search.SucceedsLater, Search.start]

-- Behind a `%` that is taken for the one in the text, too little of the text is left.
theorem exists_matches_not_found (h : '%' ∈ text) :
    ∃ pattern, Matches pattern text ∧ ¬Found pattern text := by
  obtain ⟨front, rest, rfl⟩ := List.append_of_mem h
  refine ⟨.replicate front.length '_' ++ '%' :: (.replicate (rest.length + 1) '_' ++ []), ?_, ?_⟩
  case refine_1 =>
    rw [matches_replicate_append_iff, List.drop_left]
    refine ⟨by simp, '%' :: rest, List.suffix_rfl, ?_⟩
    rw [matches_replicate_append_iff]
    simp [Matches]
  case refine_2 =>
    rw [found_replicate_append_iff, List.drop_left, found_cons_cons_iff (.inr rfl),
      found_replicate_append_iff]
    rintro ⟨-, hl, -⟩
    exact Nat.not_succ_le_self _ hl

-- What is accepted as like a pattern:
-- 1. A pattern accepts the texts that it finds.
-- 2. Every text that a pattern accepts is in its language.
-- 3. A text is accepted by all patterns to whose languages it belongs just if there is no `%` in it.
theorem accepts_language (text : String) :
    (∀ pattern : String, accepts pattern text ↔ Found pattern.toList text.toList) ∧
    (∀ pattern : String, accepts pattern text → Matches pattern.toList text.toList) ∧
    ((∀ pattern : String, Matches pattern.toList text.toList → accepts pattern text) ↔
      '%' ∉ text.toList) := by
  refine ⟨fun pattern => accepts_iff_found pattern text, fun pattern h => ?_, ?_⟩
  case refine_1 => exact ((accepts_iff_found pattern text).mp h).matches
  case refine_2 =>
    constructor
    case mp =>
      intro h hp
      obtain ⟨pattern, hm, hf⟩ := exists_matches_not_found hp
      have ha := h (.ofList pattern) (by simpa using hm)
      rw [accepts_iff_found] at ha
      exact hf (by simpa using ha)
    case mpr =>
      intro hp pattern hm
      exact (accepts_iff_found pattern text).mpr (hm.found hp)

-- A pattern with both signs, and a text in its language.
theorem accepts_language_of_name :
    '%' ∉ "Alice".toList ∧ Matches "A_i%e".toList "Alice".toList ∧ accepts "A_i%e" "Alice" := by
  have hp : '%' ∉ "Alice".toList := by decide
  have hm : Matches "A_i%e".toList "Alice".toList :=
    ⟨['l', 'i', 'c', 'e'], rfl, 'l', ['i', 'c', 'e'], rfl, ['c', 'e'], rfl, ['e'], by decide, [],
      rfl, rfl⟩
  exact ⟨hp, hm, (accepts_language "Alice").right.right.mpr hp "A_i%e" hm⟩

-- A lone `%` does not accept each text.
theorem not_accepts_percent_in_front :
    ¬∀ pattern text : String, accepts pattern text ↔ Matches pattern.toList text.toList := by
  intro h
  have hm : Matches "%".toList "%a".toList := ⟨[], by decide, rfl⟩
  have hf : Found "%".toList "%a".toList := (accepts_iff_found "%" "%a").mp ((h "%" "%a").mpr hm)
  exact List.cons_ne_nil _ _ hf

end FlatQuery.Like
