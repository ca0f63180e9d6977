import FlatQuery.Query.Reader
import FlatQuery.Proofs.Json.RoundTrip
import FlatQuery.Proofs.Lookup
import FlatQuery.Proofs.Number.Decimal
import FlatQuery.Proofs.Number.Nearest
import FlatQuery.Proofs.Text.Words

/-!
Pages and limits that are given as whole numbers, and when they are the same as those that a query
is built with. The main statement is `Query.sets_window_iff`.
-/

namespace FlatQuery

namespace Json.Number

variable {negative : Bool} {ds : List Char} {n : Number}

theorem negative_scale {x y : Binary64} {e : Int} (he : 0 ≤ e) (h : scale x e = some y) :
    y.negative = x.negative := by
  have hm : ¬e < -(maxExponent : Int) := by
    simp only [maxExponent]
    omega
  rw [scale, if_neg hm, if_pos he] at h
  split at h
  case isTrue  => cases h; rfl
  case isFalse =>
    split at h
    case isTrue  => cases h
    case isFalse =>
      simp only [Option.ite_none_right_eq_some, Option.some.injEq] at h
      obtain ⟨-, rfl⟩ := h
      exact Bool.xor_false _

theorem negative_of_ofLiteral? (h : ofLiteral? true ds none none = some n) :
    n.toBinary64.negative := by
  have scaled {m : Nat} {e : Int} (he : 0 ≤ e)
      (h : (scale (.nearest true (m * Binary64.one) 1) e).map binary = some n) :
      n.toBinary64.negative := by
    obtain ⟨x, hx, rfl⟩ := Option.map_eq_some_iff.mp h
    exact negative_scale he hx
  simp only [ofLiteral?] at h
  split at h
  case isTrue  => exact scaled (Int.natCast_nonneg _) h
  case isFalse =>
    rw [if_neg (by decide)] at h
    split at h
    case isTrue hm  =>
      cases h
      exact decide_eq_true (by omega)
    case isFalse => exact scaled (Int.le_refl 0) h

end Json.Number

namespace Query

open Binary64

-- What a query is with a value under a name: as without it, but built with the number.
def Sets (name : String) (build : Query → Nat → Query) (v : Json) (n : Nat) : Prop :=
  ∀ members, members.lookup name = some v →
    read (.object members) = (read (.object (members.filter (·.1 ≠ name)))).map (build · n)

-- A value that gives a whole number: as a literal of JSON without a point and an exponent, or as a
-- text of its decimal digits, with or without blanks around them.
inductive Denotes : Int → Json → Prop
  | literal {negative : Bool} {ds : List Char} {number : Json.Number} :
    Json.Number.ofLiteral? negative ds none none = some number →
    Denotes (if negative then -Decimal.natOf ds else Decimal.natOf ds) (.number number)
  | text {n : Int} {before behind : List Char} :
    (∀ c ∈ before, Text.isBlank c) → (∀ c ∈ behind, Text.isBlank c) →
    Denotes n (.string (.ofList (before ++ (toString n).toList ++ behind)))

-- A number that is not changed by rounding it to 53 binary digits, or that is the largest one.
def IsKept (n : Nat) : Prop :=
  gap n ∣ n ∨ n = maxWindow

section Members

variable {v : Json} {n : Nat} {members : List (String × Json)} {name : String}

theorem readCountOnly_filter (hc : "count" ≠ name) (ht : "type" ≠ name) :
    readCountOnly (members.filter (·.1 ≠ name)) = readCountOnly members := by
  simp only [readCountOnly, lookup_filter_ne, if_neg hc, if_neg ht]

theorem read_page (members : List (String × Json)) :
    read (.object members) = (read (.object (members.filter (·.1 ≠ "page")))).map fun q =>
      { q with page := (members.lookup "page").bind readWindow? } := by
  have hc : readCountOnly (members.filter (·.1 ≠ "page")) = readCountOnly members :=
    readCountOnly_filter (by decide) (by decide)
  simp only [read, lookup_filter_ne, hc, String.reduceEq, ↓reduceIte]
  cases ((members.lookup "fields").map readFields).getD (.ok []) <;>
  cases ((members.lookup "conditions").map Condition.readTree).getD (.ok []) <;> rfl

theorem read_limit (members : List (String × Json)) :
    read (.object members) = (read (.object (members.filter (·.1 ≠ "limit")))).map fun q =>
      { q with limit := (members.lookup "limit").bind readWindow? } := by
  have hc : readCountOnly (members.filter (·.1 ≠ "limit")) = readCountOnly members :=
    readCountOnly_filter (by decide) (by decide)
  simp only [read, lookup_filter_ne, hc, String.reduceEq, ↓reduceIte]
  cases ((members.lookup "fields").map readFields).getD (.ok []) <;>
  cases ((members.lookup "conditions").map Condition.readTree).getD (.ok []) <;> rfl

theorem sets_page_iff : Sets "page" withPage v n ↔ readWindow? v = positive? n := by
  constructor
  case mp  =>
    intro h
    exact congrArg Query.page (Except.ok.inj (h [("page", v)] rfl))
  case mpr =>
    intro h members hm
    rw [read_page, hm, Option.bind_some, h]
    rfl

theorem sets_limit_iff : Sets "limit" withLimit v n ↔ readWindow? v = positive? n := by
  constructor
  case mp  =>
    intro h
    exact congrArg Query.limit (Except.ok.inj (h [("limit", v)] rfl))
  case mpr =>
    intro h members hm
    rw [read_limit, hm, Option.bind_some, h]
    rfl

end Members

section Values

variable {v : Json} {n m : Nat} {i : Int} {x : Binary64}

-- The binary number of a value that gives one.
def binary? : Json → Option Binary64
  | .number n => some n.toBinary64
  | .string s => Decimal.read? (Text.strip Text.isBlank s.toList)
  | _         => none

theorem readWindow?_eq (v : Json) :
    readWindow? v = (binary? v).bind fun x => x.whole?.bind fun n =>
      if x.negative || n == 0 || maxWindow + 1 < n then none else some (min n maxWindow) := by
  cases v <;> rfl

theorem not_blank_of_mem_toDigits {c : Char} (h : c ∈ Nat.toDigits 10 n) :
    Text.isBlank c = false := by
  have hc : 48 ≤ c.toNat ∧ c.toNat ≤ 57 :=
    Char.isDigit_iff_toNat.mp (Nat.isDigit_of_mem_toDigits (by decide) (by decide) h)
  exact Text.not_blank_of_le (by omega) (by omega)

theorem toList_toString_ofNat (n : Nat) : (toString (n : Int)).toList = Nat.toDigits 10 n :=
  Json.text_ofNat n

theorem toList_toString_negSucc (n : Nat) :
    (toString (Int.negSucc n)).toList = '-' :: Nat.toDigits 10 (n + 1) :=
  Json.text_negSucc n

theorem isTrimmed_toString (i : Int) : Text.IsTrimmed (toString i).toList := by
  refine Text.isTrimmed_of_forall fun c hc => ?_
  cases i with
  | ofNat n   => exact not_blank_of_mem_toDigits (toList_toString_ofNat n ▸ hc)
  | negSucc n =>
    rw [toList_toString_negSucc] at hc
    obtain rfl | hc := List.mem_cons.mp hc
    case inl => decide
    case inr => exact not_blank_of_mem_toDigits hc

theorem toList_toString_ne_nil (i : Int) : (toString i).toList ≠ [] := by
  cases i with
  | ofNat n   => exact (toList_toString_ofNat n).trans_ne Nat.toDigits_ne_nil
  | negSucc n => exact (toList_toString_negSucc n).trans_ne (List.cons_ne_nil _ _)

theorem binary?_text {before behind : List Char} (hb : ∀ c ∈ before, Text.isBlank c)
    (he : ∀ c ∈ behind, Text.isBlank c) (i : Int) :
    binary? (.string (.ofList (before ++ (toString i).toList ++ behind))) =
      Decimal.read? (toString i).toList := by
  rw [binary?, String.toList_ofList,
    Text.strip_between (isTrimmed_toString i) (toList_toString_ne_nil i) hb he]

-- Either form of a number that fits a word is read as the binary number nearest to it.
theorem binary?_of_pos (h : Denotes n v) (hl : 0 < n) (hu : n ≤ maxWindow) :
    binary? v = some (.ofNat n) := by
  generalize hi : (n : Int) = i at h
  cases h with
  | @literal negative ds number hv =>
    cases negative with
    | true  =>
      rw [if_pos rfl] at hi
      omega
    | false =>
      have hn : n = Decimal.natOf ds := Int.ofNat_inj.mp hi
      subst hn
      cases (Json.Number.ofLiteral?_of_le hu).symm.trans hv
      rfl
  | text hb he =>
    subst hi
    have hd (c) (hc : c ∈ Nat.toDigits 10 n) : c.isDigit :=
      Nat.isDigit_of_mem_toDigits (by decide) (by decide) hc
    have hf : (ofNat (Decimal.natOf (Nat.toDigits 10 n))).isFinite := by
      rw [Decimal.natOf_toDigits]
      exact (whole?_ofNat (Nat.lt_succ_of_le hu)).left
    rw [binary?_text hb he, toList_toString_ofNat,
      Decimal.read?_digits Nat.toDigits_ne_nil hd (by rwa [Decimal.natOf_toDigits]) hf,
      Decimal.natOf_toDigits]

theorem binary?_of_nonpos (h : Denotes i v) (hi : i ≤ 0) (hx : binary? v = some x) :
    x.negative ∨ x = .ofNat 0 := by
  cases h with
  | @literal negative ds number hv =>
    cases hx
    cases negative with
    | true  => exact .inl (Json.Number.negative_of_ofLiteral? hv)
    | false =>
      have h₀ : Decimal.natOf ds = 0 := Nat.le_zero.mp (Int.ofNat_le.mp hi)
      have hm : Decimal.natOf ds ≤ Json.Number.maxWord := h₀ ▸ Nat.zero_le _
      cases (Json.Number.ofLiteral?_of_le hm).symm.trans hv
      rw [h₀]
      exact .inr rfl
  | text hb he =>
    rw [binary?_text hb he] at hx
    cases i with
    | ofNat n   =>
      have h₀ : n = 0 := Nat.le_zero.mp (Int.ofNat_le.mp hi)
      subst h₀
      have hz : Decimal.read? (toString (Int.ofNat 0)).toList = some (.ofNat 0) := by
        decide +kernel
      exact .inr (Option.some.inj (hx.symm.trans hz))
    | negSucc n =>
      rw [toList_toString_negSucc] at hx
      exact .inl (Decimal.of_read? hx).right

-- The number that a value is read as. The binary number nearest to the largest one is above it.
def rounded (n : Nat) : Nat :=
  min (roundTo (gap n) n) maxWindow

theorem readWindow?_of_pos (h : Denotes n v) (hl : 0 < n) (hu : n ≤ maxWindow) :
    readWindow? v = some (rounded n) := by
  have hn : n < maxWindow + 1 := Nat.lt_succ_of_le hu
  have hw : (ofNat n).whole? = some (roundTo (gap n) n) := (whole?_ofNat hn).right
  have hs : (ofNat n).negative = false := rfl
  have hp : roundTo (gap n) n ≠ 0 := Nat.ne_of_gt (roundTo_pos (gap_pos n) (gap_le hl))
  have hd : gap n ∣ maxWindow + 1 := gap_dvd (k := 64) hl hn
  have hm : ¬maxWindow + 1 < roundTo (gap n) n := Nat.not_lt.mpr (roundTo_le hd hn)
  rw [readWindow?_eq, binary?_of_pos h hl hu, Option.bind_some, hw, Option.bind_some, hs, if_neg]
  case hnc => simp [hp, hm]
  rfl

theorem readWindow?_of_nonpos (h : Denotes i v) (hi : i ≤ 0) : readWindow? v = none := by
  simp only [readWindow?_eq, Option.bind_eq_none_iff]
  intro x hx n hn
  have hz : x.negative ∨ n = 0 := by
    obtain hs | rfl := binary?_of_nonpos h hi hx
    case inl => exact .inl hs
    case inr =>
      have hw := (whole?_ofNat (n := 0) (by decide)).right
      rw [roundTo_of_dvd (Nat.dvd_zero _) (gap_pos 0)] at hw
      exact .inr (Option.some.inj (hn.symm.trans hw))
  refine if_pos ?_
  simp [hz]

theorem rounded_eq_self_iff (hu : n ≤ maxWindow) : rounded n = n ↔ IsKept n := by
  constructor
  case mp  =>
    intro h
    by_cases hr : roundTo (gap n) n ≤ maxWindow
    case pos =>
      rw [rounded, Nat.min_eq_left hr] at h
      exact .inl ((roundTo_eq_self_iff (gap_pos n)).mp h)
    case neg =>
      rw [rounded, Nat.min_eq_right (Nat.le_of_not_le hr)] at h
      exact .inr h.symm
  case mpr =>
    rintro (hd | rfl)
    case inl => rw [rounded, roundTo_of_dvd hd (gap_pos n), Nat.min_eq_left hu]
    case inr => decide +kernel

-- All numbers of 53 binary digits are kept, and the one behind them.
theorem isKept_of_le (h : n ≤ 2 ^ 53) : IsKept n := by
  rcases Nat.lt_or_eq_of_le h with hl | rfl
  case inl =>
    rw [IsKept, gap_of_lt hl]
    exact .inl (Nat.one_dvd n)
  case inr => exact .inl (by decide +kernel)

-- What is not positive counts as zero.
theorem readWindow?_eq_positive? (h : Denotes i v) (hu : i ≤ maxWindow) :
    readWindow? v = positive? (rounded i.toNat) := by
  by_cases hi : 0 < i
  case pos =>
    obtain ⟨n, rfl⟩ := Int.eq_ofNat_of_zero_le (Int.le_of_lt hi)
    have hl : 0 < n := Int.natCast_pos.mp hi
    have hr := roundTo_pos (gap_pos n) (gap_le hl)
    have hp : 0 < rounded n := Nat.lt_min.mpr ⟨hr, by decide⟩
    rw [readWindow?_of_pos h hl (Int.ofNat_le.mp hu), Int.toNat_natCast, positive?, if_pos hp]
  case neg =>
    have hi : i ≤ 0 := Int.not_lt.mp hi
    have hz : rounded 0 = 0 := (rounded_eq_self_iff (Nat.zero_le _)).mpr (isKept_of_le (by decide))
    rw [readWindow?_of_nonpos h hi, Int.toNat_of_nonpos hi, hz]
    rfl

theorem positive?_inj : positive? n = positive? m ↔ n = m := by
  simp only [positive?]
  split <;> split <;> simp <;> omega

-- The whole numbers that a JSON text can give are denoted by their values.
theorem denotes_whole (h : (Json.Number.whole i).IsWord) : Denotes i (.number (.whole i)) := by
  obtain ⟨hl, hu⟩ := h
  cases i with
  | ofNat n   =>
    have hd := Denotes.literal (Json.Number.ofLiteral?_toDigits (Int.ofNat_le.mp hu))
    rwa [Decimal.natOf_toDigits] at hd
  | negSucc n =>
    have hn : 2 * (n + 1) ≤ UInt64.size := by omega
    have hd := Denotes.literal (Json.Number.ofLiteral?_toDigits_negative (Nat.succ_pos n) hn)
    rwa [Decimal.natOf_toDigits] at hd

-- A page or a limit that is given as a whole number, be it as a literal or as a text:
-- 1. It is what the builder makes of the nearest number that has a place among the binary ones.
-- 2. It is what the builder makes of the number itself if and only if this number is kept.
-- Numbers below zero are the same as zero.
theorem sets_window_iff (i : Int) (v : Json) (h : Denotes i v) (hu : i ≤ maxWindow) :
    (Sets "page" withPage v (rounded i.toNat) ∧ Sets "limit" withLimit v (rounded i.toNat)) ∧
    (Sets "page" withPage v i.toNat ↔ IsKept i.toNat) ∧
    (Sets "limit" withLimit v i.toNat ↔ IsKept i.toNat) := by
  have hv : readWindow? v = positive? (rounded i.toNat) := readWindow?_eq_positive? h hu
  have hk : readWindow? v = positive? i.toNat ↔ IsKept i.toNat := by
    rw [hv, positive?_inj, rounded_eq_self_iff (Int.toNat_le.mpr hu)]
  exact ⟨⟨sets_page_iff.mpr hv, sets_limit_iff.mpr hv⟩, sets_page_iff.trans hk,
    sets_limit_iff.trans hk⟩

-- A text with blanks around it, the largest number, and a negative one.
theorem sets_window_iff_text_of_25 :
    Denotes 25 (.string " 25\n") ∧ Sets "page" withPage (.string " 25\n") 25 ∧
    Denotes maxWindow (.number (.whole maxWindow)) ∧
    Sets "limit" withLimit (.number (.whole maxWindow)) maxWindow ∧
    Denotes (-4) (.number (.whole (-4))) ∧ Sets "page" withPage (.number (.whole (-4))) 0 := by
  have ht : Denotes 25 (.string " 25\n") :=
    @Denotes.text 25 [' '] ['\n'] (by simp [Text.isBlank]) (by simp [Text.isBlank])
  have hm : Denotes maxWindow (.number (.whole maxWindow)) := denotes_whole ⟨by decide, by decide⟩
  have hn : Denotes (-4) (.number (.whole (-4))) := denotes_whole ⟨by decide, by decide⟩
  obtain ⟨-, hp, -⟩ := sets_window_iff 25 _ ht (by decide)
  obtain ⟨-, -, hl⟩ := sets_window_iff maxWindow _ hm (Int.le_refl _)
  obtain ⟨-, hz, -⟩ := sets_window_iff (-4) _ hn (by decide)
  exact ⟨ht, hp.mpr (isKept_of_le (by decide)), hm, hl.mpr (.inr rfl), hn,
    hz.mpr (isKept_of_le (by decide))⟩

-- An odd number of 54 binary digits is rounded to an even one.
theorem not_sets_page_of_54_digits :
    ¬∀ (i : Int) (v : Json), Denotes i v → i ≤ maxWindow →
      Sets "page" withPage v i.toNat ∧ Sets "limit" withLimit v i.toNat := by
  intro h
  have hd : Denotes 9007199254740993 (.number (.whole 9007199254740993)) :=
    denotes_whole ⟨by decide, by decide⟩
  have hs : Sets "page" withPage (.number (.whole 9007199254740993)) 9007199254740993 :=
    (h _ _ hd (by decide)).left
  have hr : readWindow? (.number (.whole 9007199254740993)) = some 9007199254740992 := by
    decide +kernel
  have he := hr.symm.trans (sets_page_iff.mp hs)
  exact absurd he (by decide)

end Values

end Query
end FlatQuery
