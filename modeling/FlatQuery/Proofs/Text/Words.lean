import FlatQuery.Text.Ascii
import FlatQuery.Text.Blank
import Mathlib.Data.List.TakeWhile

/-!
Texts as words with blanks between them, and texts without blanks at their ends.
-/

namespace FlatQuery.Text

-- The words of a text: what stands between its blanks.
def words (s : List Char) : List (List Char) :=
  (s.splitOnP isBlank).filter (!·.isEmpty)

-- The last word of a text if another word stands before it.
def trailingWord? (s : List Char) : Option (List Char) :=
  match (words s).reverse with
  | word :: _ :: _ => some word
  | _              => none

structure IsTrimmed (s : List Char) : Prop where
  start : ∀ c, s.head? = some c → isBlank c = false
  stop  : ∀ c, s.getLast? = some c → isBlank c = false

variable {s front rest word blanks : List Char} {b c : Char}

theorem words_of_forall_not_blank (h : ∀ c ∈ word, isBlank c = false) :
    words word = if word.isEmpty then [] else [word] := by
  rw [words, List.splitOnP_eq_singleton h]
  cases word <;> simp

theorem words_append_cons (hb : isBlank b) :
    words (front ++ b :: rest) = words front ++ words rest := by
  simp only [words, List.splitOnP_append_cons _ _ hb, List.filter_append]

-- A text that starts with a word has one.
theorem words_cons_ne_nil (hc : isBlank c = false) : words (c :: s) ≠ [] := by
  rw [words, List.splitOnP_cons_eq_if_modifyHead, hc]
  cases hs : s.splitOnP isBlank with
  | nil => exact absurd hs (List.splitOnP_ne_nil _ _)
  | cons w ws => simp

theorem dropWhile_eq_self (h : ∀ c, s.head? = some c → isBlank c = false) :
    s.dropWhile isBlank = s := by
  cases s with
  | nil => rfl
  | cons c s => simp [h c rfl]

-- Blanks at the end of a text that has no others there.
theorem stripEnd_append (h : ∀ c, s.getLast? = some c → isBlank c = false)
    (hb : ∀ c ∈ blanks, isBlank c) : stripEnd isBlank (s ++ blanks) = s := by
  rw [stripEnd, List.reverse_append, List.dropWhile_append_of_pos (by simpa using hb),
    dropWhile_eq_self (by simpa using h), List.reverse_reverse]

theorem strip_of_isTrimmed (h : IsTrimmed s) : strip isBlank s = s := by
  rw [strip, dropWhile_eq_self h.start]
  simpa using stripEnd_append h.stop (List.forall_mem_nil _)

theorem isTrimmed_of_forall (h : ∀ c ∈ s, isBlank c = false) : IsTrimmed s where
  start c hc := h c (List.mem_of_head? hc)
  stop c hc  := h c (List.mem_of_getLast? hc)

-- Blanks around a text are cut off.
theorem strip_between (h : IsTrimmed s) (hn : s ≠ []) (hf : ∀ c ∈ front, isBlank c)
    (hb : ∀ c ∈ blanks, isBlank c) : strip isBlank (front ++ s ++ blanks) = s := by
  have hs : ∀ c, (s ++ blanks).head? = some c → isBlank c = false := by
    cases s with
    | nil      => contradiction
    | cons d s => exact h.start
  rw [strip, List.append_assoc, List.dropWhile_append_of_pos hf, dropWhile_eq_self hs,
    stripEnd_append h.stop hb]

-- The ends of a text are in its first part and in its last one.
theorem IsTrimmed.append (h : IsTrimmed s) (hs : s ≠ []) (rest : List Char) (hw : word ≠ [])
    (hb : ∀ c ∈ word, isBlank c = false) : IsTrimmed (s ++ rest ++ word) where
  start c hc := by
    cases s with
    | nil      => contradiction
    | cons d s => exact h.start c hc
  stop c hc := by
    rw [List.getLast?_append, List.getLast?_eq_some_getLast hw, Option.some_or,
      Option.some.injEq] at hc
    exact hb c (hc ▸ List.getLast_mem hw)

theorem not_blank_of_head?_dropWhile (h : (s.dropWhile isBlank).head? = some c) :
    isBlank c = false := by
  have hd := List.head?_dropWhile_not isBlank s
  simpa [h] using hd

theorem isTrimmed_strip (s : List Char) : IsTrimmed (strip isBlank s) where
  start c h := by
    rw [strip, ← dropWhile_stripEnd] at h
    exact not_blank_of_head?_dropWhile h
  stop c h := by
    rw [strip, stripEnd, List.getLast?_reverse] at h
    exact not_blank_of_head?_dropWhile h

-- The printed characters of ASCII, with all of its letters.
theorem not_blank_of_le (hl : 33 ≤ c.toNat) (hu : c.toNat ≤ 126) : isBlank c = false := by
  simp only [isBlank, Bool.or_eq_false_iff, Bool.and_eq_false_iff, decide_eq_false_iff_not,
    beq_eq_false_iff_ne]
  omega

theorem isBlank_toLower (c : Char) : isBlank c.toLower = isBlank c := by
  unfold Char.toLower
  split
  case isFalse => rfl
  case isTrue h =>
    obtain ⟨hl, hu⟩ : 65 ≤ c.toNat ∧ c.toNat ≤ 90 := h
    have hc : (c.val + ('a'.val - 'A'.val)).toNat = c.toNat + 32 := by
      rw [UInt32.toNat_add]
      exact Nat.mod_eq_of_lt (show c.toNat + 32 < _ by omega)
    rw [not_blank_of_le (c := c) (by omega) (by omega)]
    exact not_blank_of_le (by rw [Char.toNat, hc]; omega) (by rw [Char.toNat, hc]; omega)

-- Texts of the same letters have blanks in the same places.
theorem any_isBlank_of_sameIgnoringCase {s t : String} (h : sameIgnoringCase s t) :
    s.toList.any isBlank = t.toList.any isBlank := by
  have key (s : String) : s.toList.any isBlank = (caseKey s).any isBlank := by
    simp [caseKey, List.any_map, Function.comp_def, isBlank_toLower]
  rw [key s, key t, sameIgnoringCase_iff.mp h]

end FlatQuery.Text
