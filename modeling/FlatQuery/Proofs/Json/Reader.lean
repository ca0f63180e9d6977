import FlatQuery.Json.Reader
import FlatQuery.Proofs.Except
import Mathlib.Data.List.TakeWhile

/-!
The ways to read a value from JSON text, one for each kind of value, and what a value that was read
is like: it does not nest too deep, and every whole number in it fits a word. The main statement is
`within_of_parseWith`.
-/

namespace FlatQuery

namespace Json

-- The whole numbers that a word of 64 bits can hold, signed or unsigned.
def Number.Fits : Number → Prop
  | whole n => -(UInt64.size / 2) ≤ n ∧ n ≤ maxWord
  | binary _ => True

-- Values in which arrays and objects nest at most so deep, and whose numbers have a property.
inductive Within (P : Number → Prop) : Nat → Json → Prop
  | null {depth} : Within P depth null
  | bool {depth} (b : Bool) : Within P depth (bool b)
  | number {depth} {n : Number} : P n → Within P depth (number n)
  | string {depth} (s : String) : Within P depth (string s)
  | array {depth} {vs : List Json} :
    (∀ v ∈ vs, Within P depth v) → Within P (depth + 1) (array vs)
  | object {depth} {ms : List (String × Json)} :
    (∀ m ∈ ms, Within P depth m.2) → Within P (depth + 1) (object ms)

namespace Number

theorem absorb_le {m : Nat} (h : m ≤ maxWord) (ds : List Char) : (absorb m ds).1 ≤ maxWord := by
  induction ds generalizing m with
  | nil => exact h
  | cons d ds ih =>
    simp only [absorb]
    split
    case isTrue hm  => exact ih hm
    case isFalse hm => exact h

theorem fits_binary_of_map {o : Option Binary64} {n : Number} (h : o.map binary = some n) :
    n.Fits := by
  obtain ⟨x, _, rfl⟩ := Option.map_eq_some_iff.mp h
  trivial

theorem fits_of_ofLiteral? {negative : Bool} {whole : List Char} {fraction : Option (List Char)}
    {exponent : Option Int} {n : Number}
    (h : ofLiteral? negative whole fraction exponent = some n) : n.Fits := by
  have hm := absorb_le (Nat.zero_le maxWord) whole
  simp only [ofLiteral?] at h
  split at h
  case h_2 => exact fits_binary_of_map h
  case h_1 =>
    split at h
    case isTrue  => exact fits_binary_of_map h
    case isFalse =>
      split at h
      case isTrue =>
        cases h
        simp only [Fits]
        omega
      case isFalse =>
        split at h
        case isTrue hs =>
          cases h
          simp only [Fits]
          omega
        case isFalse => exact fits_binary_of_map h

end Number

theorem fits_of_number? {s r : List Char} {n : Number} (h : number? s = some (n, r)) : n.Fits := by
  simp only [number?, bind, Option.bind_eq_some_iff] at h
  obtain ⟨_, _, _, _, _, _, h⟩ := h
  split at h
  case isTrue  => cases h
  case isFalse =>
    obtain ⟨_, hn, he⟩ := Option.map_eq_some_iff.mp h
    cases he
    exact Number.fits_of_ofLiteral? hn

section

variable {α : Type} {close : Char} {item : List Char → Reading α} {s r : List Char} {as : List α}
  {P : α → Prop} (hi : ∀ {s a r}, item s = .ok (a, r) → P a)
include hi

theorem forall_mem_items (h : items close item s = .ok (as, r)) : ∀ a ∈ as, P a := by
  fun_induction items close item s generalizing as r with
  | case1 | case3 | case5 | case6 => cases h
  | case2 s a t hs r' ht hl ih =>
    obtain ⟨⟨as', r''⟩, h', he⟩ := exists_of_map_eq_ok h
    cases he
    exact List.forall_mem_cons.mpr ⟨hi hs, ih h'⟩
  | case4 s a t hs r' ht hc =>
    cases h
    simpa using hi hs

theorem forall_mem_bracket (h : bracket close item s = .ok (as, r)) : ∀ a ∈ as, P a := by
  simp only [bracket] at h
  split at h
  case h_2 => cases h
  case h_1 =>
    split at h
    case isTrue  =>
      cases h
      simp
    case isFalse => exact forall_mem_items hi h

end

theorem member_eq_ok_iff {value : List Char → Reading Json} {s r : List Char} {m : String × Json} :
    member value s = .ok (m, r) ↔
    ∃ t u w cs, skipBlank s = '"' :: t ∧ stringRest? t = some (cs, u) ∧ skipBlank u = ':' :: w ∧
      value w = .ok (m.2, r) ∧ m.1 = .ofList cs := by
  constructor
  case mp =>
    intro h
    simp only [member] at h
    split at h
    case h_2 => cases h
    case h_1 ht =>
      split at h
      case h_1 => cases h
      case h_2 hk =>
        split at h
        case h_2 => cases h
        case h_1 hw =>
          obtain ⟨_, hv, he⟩ := exists_of_map_eq_ok h
          cases he
          exact ⟨_, _, _, _, ht, hk, hw, hv, rfl⟩
  case mpr =>
    obtain ⟨k, v⟩ := m
    rintro ⟨t, u, w, cs, ht, hk, hw, hv, rfl⟩
    simp only [member, ht, hk, hw, hv]
    rfl

theorem of_member {value : List Char → Reading Json} {P : Json → Prop} {s r : List Char}
    {m : String × Json} (hv : ∀ {s v r}, value s = .ok (v, r) → P v)
    (h : member value s = .ok (m, r)) : P m.2 := by
  obtain ⟨_, _, _, _, -, -, -, h, -⟩ := member_eq_ok_iff.mp h
  exact hv h

-- What a number begins with, and no other value.
def BeginsNumber (c : Char) : Prop :=
  c = '-' ∨ c.isDigit

theorem BeginsNumber.ne {c d : Char} (h : BeginsNumber c) (hm : d ≠ '-') (hd : ¬d.isDigit) :
    c ≠ d := by
  rintro rfl
  exact h.elim hm hd

theorem BeginsNumber.not_isBlank {c : Char} (h : BeginsNumber c) : isBlank c = false := by
  have hs := h.ne (d := ' ') (by decide) (by decide)
  have ht := h.ne (d := '\t') (by decide) (by decide)
  have hn := h.ne (d := '\n') (by decide) (by decide)
  have hr := h.ne (d := '\r') (by decide) (by decide)
  simp [isBlank, hs, ht, hn, hr]

-- What a value can be that is read from a text up to a rest. The last character that is taken of a
-- word stands apart from those before it.
inductive ReadsValue (tidy : List (String × Json) → List (String × Json)) :
    Nat → List Char → Json → List Char → Prop
  | null {depth s r} : skipBlank s = ['n', 'u', 'l'] ++ 'l' :: r → ReadsValue tidy depth s null r
  | true {depth s r} :
    skipBlank s = ['t', 'r', 'u'] ++ 'e' :: r → ReadsValue tidy depth s (bool true) r
  | false {depth s r} :
    skipBlank s = ['f', 'a', 'l', 's'] ++ 'e' :: r → ReadsValue tidy depth s (bool false) r
  | string {depth s t r cs} :
    skipBlank s = '"' :: t → stringRest? t = some (cs, r) →
    ReadsValue tidy depth s (string (.ofList cs)) r
  | array {depth s t r vs} :
    skipBlank s = '[' :: t → bracket ']' (value tidy depth) t = .ok (vs, r) →
    ReadsValue tidy (depth + 1) s (array vs) r
  | object {depth s t r ms} :
    skipBlank s = '\x7b' :: t → bracket '\x7d' (member (value tidy depth)) t = .ok (ms, r) →
    ReadsValue tidy (depth + 1) s (object (tidy ms)) r
  | number {depth s c t r n} :
    BeginsNumber c → skipBlank s = c :: t → number? (c :: t) = some (n, r) →
    ReadsValue tidy depth s (number n) r

section

variable {tidy : List (String × Json) → List (String × Json)} {depth : Nat} {s r : List Char}
  {v : Json}

theorem readsValue_of_value (h : value tidy depth s = .ok (v, r)) :
    ReadsValue tidy depth s v r := by
  rw [value] at h
  split at h
  case h_1 hs => cases h; exact .null hs
  case h_2 hs => cases h; exact .true hs
  case h_3 hs => cases h; exact .false hs
  case h_4 hs =>
    split at h
    case h_1 hc => cases h; exact .string hs hc
    case h_2    => cases h
  case h_5 hs =>
    split at h
    case h_1 => cases h
    case h_2 =>
      obtain ⟨_, hb, he⟩ := exists_of_map_eq_ok h
      cases he
      exact .array hs hb
  case h_6 hs =>
    split at h
    case h_1 => cases h
    case h_2 =>
      obtain ⟨_, hb, he⟩ := exists_of_map_eq_ok h
      cases he
      exact .object hs hb
  case h_7 hs =>
    split at h
    case isFalse => cases h
    case isTrue hd =>
      split at h
      case h_1 hn => cases h; exact .number (by simpa [BeginsNumber] using hd) hs hn
      case h_2    => cases h
  case h_8 => cases h

theorem ReadsValue.value (h : ReadsValue tidy depth s v r) : value tidy depth s = .ok (v, r) := by
  cases h
  case null hs | true hs | false hs => simp only [Json.value, hs, List.cons_append, List.nil_append]
  case string hs hc                 => simp only [Json.value, hs, hc]
  case array hs hb | object hs hb   => simp only [Json.value, hs, hb]; rfl
  case number c _ _ hc hs hn =>
    have hd : c == '-' || c.isDigit := by simpa [BeginsNumber] using hc
    rw [value.eq_def, hs]
    split
    case h_7 _ he =>
      cases he
      rw [if_pos hd, hn]
    case h_8 he => cases he
    all_goals
      rename_i he
      cases he
      exact absurd hd (by decide)

theorem value_eq_ok_iff : value tidy depth s = .ok (v, r) ↔ ReadsValue tidy depth s v r :=
  ⟨readsValue_of_value, ReadsValue.value⟩

end

theorem within_of_value (depth : Nat) {s r : List Char} {v : Json}
    (h : value id depth s = .ok (v, r)) : Within Number.Fits depth v := by
  cases value_eq_ok_iff.mp h with
  | null         => exact .null
  | true | false => exact .bool _
  | string       => exact .string _
  | number _ _ h => exact .number (fits_of_number? h)
  | array _ h    => exact .array (forall_mem_bracket (within_of_value _) h)
  | object _ h   => exact .object (forall_mem_bracket (of_member (within_of_value _)) h)

-- A text is read where nothing but blanks follow its value.
theorem parseWith_eq_ok_iff {tidy : List (String × Json) → List (String × Json)} {s : String}
    {v : Json} :
    parseWith tidy s = .ok v ↔
    ∃ r, value tidy maxDepth s.toList = .ok (v, r) ∧ ∀ c ∈ r, isBlank c := by
  have hb {r : List Char} : skipBlank r = [] ↔ ∀ c ∈ r, isBlank c := List.dropWhile_eq_nil_iff
  rw [parseWith]
  constructor
  case mp =>
    intro h
    split at h
    case h_1 => cases h
    case h_2 u r hv =>
      split at h
      case h_1 hr =>
        cases h
        exact ⟨r, hv, hb.mp hr⟩
      case h_2 => cases h
  case mpr =>
    rintro ⟨r, hv, hr⟩
    simp only [hv, hb.mpr hr]

theorem within_of_parseWith {s : String} {v : Json} (h : parseWith id s = .ok v) :
    Within Number.Fits maxDepth v := by
  obtain ⟨r, hv, -⟩ := parseWith_eq_ok_iff.mp h
  exact within_of_value maxDepth hv

end Json
end FlatQuery
