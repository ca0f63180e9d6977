import FlatQuery.Condition.Reader
import FlatQuery.Proofs.Text.Words
import Mathlib.Data.List.TakeDrop

/-!
How the key of an entry is split into a field and an operator, and a tree into its entries.
-/

namespace FlatQuery.Condition

open Text

variable {s front word : List Char} {b : Char} {name key : String} {op : Operator}

theorem splitLast?_append_cons (hb : isBlank b) (hw : ∀ c ∈ word, isBlank c = false) :
    splitLast? (front ++ b :: word) = some (front, word) := by
  have hw' : ∀ c ∈ word.reverse, (!isBlank c) = true := by simpa using hw
  have hs : (front ++ b :: word).reverse = word.reverse ++ b :: front.reverse := by simp
  rw [splitLast?, hs, List.span_eq_takeWhile_dropWhile, List.takeWhile_append_of_pos hw',
    List.dropWhile_append_of_pos hw']
  simp [hb]

theorem splitLast?_eq_none (h : ∀ c ∈ s, isBlank c = false) : splitLast? s = none := by
  have hd : s.reverse.dropWhile (!isBlank ·) = [] := by simpa using h
  rw [splitLast?, List.span_eq_takeWhile_dropWhile, hd]

-- A text has a last blank or none.
theorem last_blank (s : List Char) :
    (∀ c ∈ s, isBlank c = false) ∨
    ∃ front b word, s = front ++ b :: word ∧ isBlank b ∧ ∀ c ∈ word, isBlank c = false := by
  induction s with
  | nil => simp
  | cons c s hi =>
    rcases hi with h | ⟨front, b, word, rfl, hb, hw⟩
    case inl =>
      by_cases hc : isBlank c
      case pos => exact .inr ⟨[], c, s, rfl, hc, h⟩
      case neg => exact .inl (by simpa [hc] using h)
    case inr => exact .inr ⟨c :: front, b, word, rfl, hb, hw⟩

-- A text without blanks at its ends is split before its last word.
theorem splitLast?_of_isTrimmed (h : IsTrimmed s) :
    (splitLast? s).map Prod.snd = trailingWord? s := by
  rcases last_blank s with hs | ⟨front, b, word, rfl, hb, hw⟩
  case inl =>
    rw [splitLast?_eq_none hs, trailingWord?, words_of_forall_not_blank hs]
    cases s <;> rfl
  case inr =>
    have hf : words front ≠ [] := by
      cases front with
      | nil => exact absurd hb (by simp [h.start b rfl])
      | cons c front => exact words_cons_ne_nil (h.start c rfl)
    have hn : word ≠ [] := by
      rintro rfl
      exact absurd hb (by simp [h.stop b (by simp)])
    rw [splitLast?_append_cons hb hw, trailingWord?, words_append_cons hb,
      words_of_forall_not_blank hw, if_neg (by simpa using hn)]
    cases hr : (words front).reverse with
    | nil => exact absurd (by simpa using hr) hf
    | cons w ws => simp [hr]

-- The spellings of the operators that have no letters.
def operators : List String :=
  ["=", "==", "!=", "<>", ">", ">=", "<", "<="]

theorem ofToken?_of_mem {token : String} (h : token ∈ operators) :
    (Operator.ofToken? token).isSome := by
  simp only [operators, List.mem_cons, List.not_mem_nil, or_false] at h
  rcases h with rfl | rfl | rfl | rfl | rfl | rfl | rfl | rfl <;> rfl

-- Any other spelling is one of `like`.
theorem ofToken?_of_not_mem {token : String} (h : token ∉ operators) :
    Operator.ofToken? token = if sameIgnoringCase token "like" then some .like else none := by
  simp only [operators, List.mem_cons, List.not_mem_nil, or_false, not_or] at h
  simp only [Operator.ofToken?, beq_iff_eq, h, or_self, ↓reduceIte, Bool.or_eq_true]

-- A word that looks like an operator is one if it is spelled without letters.
theorem ofToken?_of_isOperatorLike (h : isOperatorLike word) :
    Operator.ofToken? (.ofList word) = none ↔ String.ofList word ∉ operators := by
  by_cases hm : String.ofList word ∈ operators
  case pos =>
    obtain ⟨op, ho⟩ := Option.isSome_iff_exists.mp (ofToken?_of_mem hm)
    simp [ho, hm]
  case neg =>
    have hl : sameIgnoringCase (.ofList word) "like" = false := by
      rw [Bool.eq_false_iff, ne_eq, sameIgnoringCase_iff]
      intro hk
      have hc : 'l' ∈ caseKey (.ofList word) := hk ▸ by decide
      simp only [caseKey, String.toList_ofList, List.mem_map] at hc
      obtain ⟨c, hc, hlc⟩ := hc
      have ho : ("<>=!~".toList.all (·.toLower != 'l')) = true := by decide
      have hn := List.all_eq_true.mp ho c (List.contains_iff_mem.mp (List.all_eq_true.mp h c hc))
      simp [hlc] at hn
    simp [ofToken?_of_not_mem hm, hl, hm]

-- The spelling of an operator is a single word.
theorem word_of_ofToken? {token : String} (h : Operator.ofToken? token = some op) :
    token.toList ≠ [] ∧ ∀ c ∈ token.toList, isBlank c = false := by
  by_cases hm : token ∈ operators
  case pos =>
    have ho : ∀ t ∈ operators, t.toList ≠ [] ∧ t.toList.any isBlank = false := by decide
    simpa using ho token hm
  case neg =>
    rw [ofToken?_of_not_mem hm] at h
    split at h
    case isFalse => simp at h
    case isTrue hl =>
      constructor
      case left =>
        intro hn
        have hk := sameIgnoringCase_iff.mp hl
        simp [caseKey, hn] at hk
      case right =>
        have hb := (any_isBlank_of_sameIgnoringCase hl).trans (by decide : _ = false)
        simpa using hb

-- What names a group.
def isGroupKey (key : String) : Bool :=
  isOr key || isAnd key

-- A name that can be told apart from what is written around it.
structure IsFieldName (name : String) : Prop where
  nonempty : name ≠ ""
  trimmed  : IsTrimmed name.toList

-- The name of a field, blanks, and a spelling of an operator.
inductive KeyOf (name : String) (op : Operator) : String → Prop
  | mk {blanks token : String} :
    (blanks ≠ "") → (∀ c ∈ blanks.toList, isBlank c) → (Operator.ofToken? token = some op) →
    KeyOf name op (name ++ blanks ++ token)

namespace KeyOf

-- It is split at the last of the blanks.
theorem exists_split (h : KeyOf name op key) :
    ∃ front b word, key.toList = name.toList ++ front ++ b :: word ∧
      (∀ c ∈ front, isBlank c) ∧ isBlank b ∧ Operator.ofToken? (.ofList word) = some op := by
  obtain @⟨blanks, token, hn, hb, ht⟩ := h
  rcases List.eq_nil_or_concat blanks.toList with hf | ⟨front, b, hf⟩
  case inl => exact absurd (by simpa using hf) hn
  case inr =>
    simp only [hf, List.concat_eq_append, List.forall_mem_append, List.forall_mem_singleton] at hb
    refine ⟨front, b, token.toList, ?_, hb.left, hb.right, by simpa using ht⟩
    simp [hf]

theorem splitKey_eq (h : KeyOf name op key) (hn : IsFieldName name) :
    splitKey key = .ok (name, op) := by
  obtain ⟨front, b, word, hk, hf, hb, ho⟩ := h.exists_split
  obtain ⟨hw, hw'⟩ := word_of_ofToken? ho
  simp only [String.toList_ofList] at hw hw'
  have hkt : IsTrimmed key.toList := by
    have hs := hn.trimmed.append (by simpa using hn.nonempty) (front ++ [b]) hw hw'
    simpa [hk] using hs
  have hs : splitLast? key.toList = some (name.toList ++ front, word) := by
    rw [hk]
    exact splitLast?_append_cons hb hw'
  simp only [splitKey, trim, strip_of_isTrimmed hkt, hs, ho,
    stripEnd_append hn.trimmed.stop hf, String.ofList_toList]

theorem not_isGroupKey (h : KeyOf name op key) : ¬isGroupKey key := by
  obtain ⟨front, b, word, hk, _, hb, _⟩ := h.exists_split
  have hn : key.toList.any isBlank = true := by simp [hk, hb]
  simp only [isGroupKey, Bool.or_eq_true, not_or]
  constructor <;> intro hg
  case left  => exact absurd (hn.symm.trans (any_isBlank_of_sameIgnoringCase hg)) (by decide)
  case right => exact absurd (hn.symm.trans (any_isBlank_of_sameIgnoringCase hg)) (by decide)

end KeyOf

def readEntry (key : String) (v : Json) : Except QueryError Condition :=
  if isOr key then (readGroup key v).map .any
  else if isAnd key then (readGroup key v).map .all
  else readField key v

variable {v : Json} {members : List (String × Json)} {items : List Json}

theorem readEntry_any (h : isOr key) : readEntry key v = (readGroup key v).map .any :=
  if_pos h

theorem readEntry_all (h : isAnd key) : readEntry key v = (readGroup key v).map .all := by
  have ho : ¬isOr key := by
    intro ho
    have hk := (sameIgnoringCase_iff.mp ho).symm.trans (sameIgnoringCase_iff.mp h)
    exact absurd hk (by decide)
  rw [readEntry, if_neg ho, if_pos h]

theorem readEntry_field (h : ¬isGroupKey key) : readEntry key v = readField key v := by
  simp only [isGroupKey, Bool.or_eq_true, not_or] at h
  simp [readEntry, h]

theorem readMembers_cons :
    readMembers ((key, v) :: members) =
    readEntry key v >>= fun c => (readMembers members).map (c :: ·) := by
  rw [readMembers, readEntry]
  split
  case isTrue  => rfl
  case isFalse => split <;> rfl

theorem readTrees_cons :
    readTrees key (.object members :: items) =
    readMembers members >>= fun tree => (readTrees key items).map (.all tree :: ·) := by
  rw [readTrees]
  rfl

end FlatQuery.Condition
