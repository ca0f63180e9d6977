import FlatQuery.Text.Utf8
import Mathlib.Tactic.SplitIfs

/-!
What is encoded can be decoded again, and the byte of an ASCII character stands for nothing else.
-/

namespace FlatQuery.Text.Utf8

variable {c : Char} {n : Nat} {b : UInt8} {bytes : List UInt8}

theorem toNat_toUInt8 (h : n < 256) : n.toUInt8.toNat = n := by
  simpa using h

theorem toNat_lt (c : Char) : c.toNat < 0x110000 := by
  cases c.valid
  case inl hv => exact Nat.lt_trans hv (by decide)
  case inr hv => exact hv.right

theorem encodeChar_of_lt (h : c.toNat < 0x80) : encodeChar c = [c.toNat.toUInt8] :=
  if_pos h

-- All bytes of a character that is not ASCII lie outside of ASCII.
theorem le_of_mem_encodeChar (h : 0x80 ≤ c.toNat) (hb : b ∈ encodeChar c) : 0x80 ≤ b.toNat := by
  have hv : c.toNat < 0x110000 := toNat_lt c
  have lead {n m : Nat} (h : n + m < 256) (hn : 0x80 ≤ n) : 0x80 ≤ (n + m).toUInt8.toNat := by
    rw [toNat_toUInt8 h]
    omega
  simp only [encodeChar, Nat.not_lt.mpr h, ↓reduceIte] at hb
  split at hb <;> try split at hb
  all_goals
    simp only [List.mem_cons, List.not_mem_nil, or_false] at hb
    rcases hb with rfl | rfl | rfl | rfl <;> exact lead (by omega) (by omega)

-- A byte that continues a character, within the limits put on it.
theorem complete_toUInt8 {lo hi : UInt8} {acc x : Nat} (hl : lo.toNat ≤ 0x80 + x)
    (hh : 0x80 + x ≤ hi.toNat) :
    complete (n + 1) lo hi acc ((0x80 + x).toUInt8 :: bytes) =
    complete n 0x80 0xBF (acc * 64 + x) bytes := by
  have hb := toNat_toUInt8 (Nat.lt_of_le_of_lt hh hi.toNat_lt)
  simp only [complete, UInt8.le_iff_toNat_le, hb, hl, hh, Nat.add_sub_cancel_left]
  rfl

theorem complete_continuation {acc x : Nat} (h : x < 64) :
    complete (n + 1) 0x80 0xBF acc ((0x80 + x).toUInt8 :: bytes) =
    complete n 0x80 0xBF (acc * 64 + x) bytes :=
  complete_toUInt8 (by simp) (Nat.le_of_lt_succ (Nat.add_lt_add_left h 0x80))

theorem next_toUInt8 (h : n < 256) :
    next n.toUInt8 bytes =
      if n < 0x80 then (some (Char.ofNat n), bytes)
      else if n < 0xC2 then (none, bytes)
      else if n < 0xE0 then complete 1 0x80 0xBF (n - 0xC0) bytes
      else if n = 0xE0 then complete 2 0xA0 0xBF 0 bytes
      else if n = 0xED then complete 2 0x80 0x9F 13 bytes
      else if n < 0xF0 then complete 2 0x80 0xBF (n - 0xE0) bytes
      else if n = 0xF0 then complete 3 0x90 0xBF 0 bytes
      else if n < 0xF4 then complete 3 0x80 0xBF (n - 0xF0) bytes
      else if n = 0xF4 then complete 3 0x80 0x8F 4 bytes
      else (none, bytes) := by
  simp only [next, UInt8.lt_iff_toNat_lt, ←UInt8.toNat_inj, toNat_toUInt8 h]
  rfl

theorem next_two {x : Nat} (h₁ : 2 ≤ x) (h₂ : x < 32) :
    next (0xC0 + x).toUInt8 bytes = complete 1 0x80 0xBF x bytes := by
  rw [next_toUInt8 (by omega), if_neg (by omega), if_neg (by omega), if_pos (by omega),
    Nat.add_sub_cancel_left]

theorem next_three {x : Nat} (h : x < 16) :
    next (0xE0 + x).toUInt8 bytes =
    complete 2 (if x = 0 then 0xA0 else 0x80) (if x = 13 then 0x9F else 0xBF) x bytes := by
  rw [next_toUInt8 (by omega), if_neg (by omega), if_neg (by omega), if_neg (by omega)]
  by_cases h₁ : x = 0
  case pos => simp [h₁]
  by_cases h₂ : x = 13
  case pos => simp [h₂]
  rw [if_neg (by omega), if_neg (by omega), if_pos (by omega), if_neg h₁, if_neg h₂,
    Nat.add_sub_cancel_left]

theorem next_four {x : Nat} (h : x < 5) :
    next (0xF0 + x).toUInt8 bytes =
    complete 3 (if x = 0 then 0x90 else 0x80) (if x = 4 then 0x8F else 0xBF) x bytes := by
  rw [next_toUInt8 (by omega), if_neg (by omega), if_neg (by omega), if_neg (by omega),
    if_neg (by omega), if_neg (by omega), if_neg (by omega)]
  by_cases h₁ : x = 0
  case pos => simp [h₁]
  by_cases h₂ : x = 4
  case pos => simp [h₂]
  rw [if_neg (by omega), if_pos (by omega), if_neg h₁, if_neg h₂, Nat.add_sub_cancel_left]

-- The limits by which `next` refuses a second byte are kept by every character.
theorem next_encodeChar (c : Char) (bytes : List UInt8) :
    ∃ b bs, encodeChar c = b :: bs ∧ next b (bs ++ bytes) = (some c, bytes) := by
  have hv : c.toNat < 0xD800 ∨ 0xDFFF < c.toNat ∧ c.toNat < 0x110000 := c.valid
  have hc {n : Nat} (h : n = c.toNat) : (some (Char.ofNat n), bytes) = (some c, bytes) := by
    rw [h, Char.ofNat_toNat]
  have ite_toNat {p : Prop} [Decidable p] {a b : UInt8} :
      (if p then a else b).toNat = if p then a.toNat else b.toNat := by
    split <;> rfl
  simp only [encodeChar]
  split_ifs
  case pos h =>
    refine ⟨_, _, rfl, ?_⟩
    rw [next_toUInt8 (by omega), if_pos h]
    exact hc rfl
  case pos =>
    refine ⟨_, _, rfl, ?_⟩
    rw [next_two (by omega) (by omega)]
    simp only [List.cons_append, List.nil_append]
    rw [complete_continuation (by omega), complete]
    apply hc
    omega
  case pos =>
    refine ⟨_, _, rfl, ?_⟩
    rw [next_three (by omega)]
    simp only [List.cons_append, List.nil_append]
    rw [complete_toUInt8, complete_continuation (by omega), complete]
    · apply hc
      omega
    · simp only [ite_toNat, UInt8.reduceToNat]
      split <;> omega
    · simp only [ite_toNat, UInt8.reduceToNat]
      split <;> omega
  case neg =>
    refine ⟨_, _, rfl, ?_⟩
    rw [next_four (by omega)]
    simp only [List.cons_append, List.nil_append]
    rw [complete_toUInt8, complete_continuation (by omega), complete_continuation (by omega),
      complete]
    · apply hc
      omega
    · simp only [ite_toNat, UInt8.reduceToNat]
      split <;> omega
    · simp only [ite_toNat, UInt8.reduceToNat]
      split <;> omega

theorem encode_cons (c : Char) (s : List Char) : encode (c :: s) = encodeChar c ++ encode s :=
  List.flatMap_cons

theorem encode_append (s t : List Char) : encode (s ++ t) = encode s ++ encode t :=
  List.flatMap_append

section Ascii

variable {a : Char} (ha : a.toNat < 0x80)
include ha

theorem mem_encodeChar_iff : a.toNat.toUInt8 ∈ encodeChar c ↔ a = c where
  mp h := by
    by_cases hc : c.toNat < 0x80
    case pos =>
      rw [encodeChar_of_lt hc, List.mem_singleton, ←UInt8.toNat_inj, toNat_toUInt8 (by omega),
        toNat_toUInt8 (by omega)] at h
      exact Char.toNat_inj.mp h
    case neg =>
      have hl := le_of_mem_encodeChar (Nat.not_lt.mp hc) h
      rw [toNat_toUInt8 (by omega)] at hl
      omega
  mpr h := by
    rw [←h, encodeChar_of_lt ha]
    exact List.mem_singleton_self _

theorem mem_encode_iff {s : List Char} : a.toNat.toUInt8 ∈ encode s ↔ a ∈ s := by
  simp [encode, mem_encodeChar_iff ha]

theorem head?_encode_iff {s : List Char} :
    (encode s).head? = some a.toNat.toUInt8 ↔ s.head? = some a := by
  cases s
  case nil => simp [encode]
  case cons c s =>
    obtain ⟨b, bs, he, _⟩ := next_encodeChar c []
    rw [encode_cons, he]
    simp only [List.cons_append, List.head?_cons, Option.some.injEq]
    constructor
    case mp  =>
      intro h
      exact (mem_encodeChar_iff ha |>.mp (he ▸ h ▸ List.mem_cons_self)).symm
    case mpr =>
      intro h
      rw [h, encodeChar_of_lt ha] at he
      exact (List.cons.inj he).left.symm

end Ascii

theorem decodeLossy_encode_append (s : List Char) (bytes : List UInt8) :
    decodeLossy (encode s ++ bytes) = s ++ decodeLossy bytes := by
  induction s with
  | nil => rfl
  | cons c s ih =>
    obtain ⟨b, bs, he, hn⟩ := next_encodeChar c (encode s ++ bytes)
    have he : encode (c :: s) ++ bytes = b :: (bs ++ (encode s ++ bytes)) := by
      simp [encode, he]
    rw [he, decodeLossy, hn, ih]
    rfl

theorem decodeLossy_encode (s : List Char) : decodeLossy (encode s) = s := by
  have h := decodeLossy_encode_append s []
  rwa [List.append_nil, decodeLossy, List.append_nil] at h

theorem decode?_encode (s : List Char) : decode? (encode s) = some s := by
  induction s with
  | nil => simp [encode, decode?]
  | cons c s ih =>
    obtain ⟨b, bs, he, hn⟩ := next_encodeChar c (encode s)
    have he : encode (c :: s) = b :: (bs ++ encode s) := by simp [encode, he]
    rw [he, decode?, hn, ih]
    rfl

theorem encode_injective {s t : List Char} (h : encode s = encode t) : s = t := by
  have hs := decode?_encode s
  rw [h, decode?_encode] at hs
  exact (Option.some.inj hs).symm

end FlatQuery.Text.Utf8
