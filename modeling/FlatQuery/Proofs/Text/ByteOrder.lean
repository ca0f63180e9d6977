import FlatQuery.Proofs.Text.Utf8
import Mathlib.Data.Char
import Mathlib.Data.List.Lex

/-!
The order of texts is the order of their bytes in UTF-8.
-/

namespace FlatQuery.Text.Utf8

variable {c d : Char} {n m : Nat} {s t : List Char}

theorem cons_toUInt8_lt_iff (hn : n < 256) (hm : m < 256) {x y : List UInt8} :
    n.toUInt8 :: x < m.toUInt8 :: y ↔ n < m ∨ n = m ∧ x < y := by
  rw [List.cons_lt_cons_iff, UInt8.lt_iff_toNat_lt, ←UInt8.toNat_inj, toNat_toUInt8 hn,
    toNat_toUInt8 hm]

-- Longer characters have greater first bytes. Those of one length differ in the digits of a number,
-- of which the first one weighs most.
theorem encodeChar_append_lt (h : c < d) (x y : List UInt8) :
    encodeChar c ++ x < encodeChar d ++ y := by
  have hn : c.toNat < d.toNat := h
  have hd : d.toNat < 0x110000 := toNat_lt d
  simp only [encodeChar]
  split_ifs
  all_goals
    simp (disch := omega) only [List.cons_append, List.nil_append, cons_toUInt8_lt_iff]
    omega

theorem encode_lt (h : s < t) : encode s < encode t := by
  induction h with
  | @nil d t =>
    obtain ⟨b, bs, he, _⟩ := next_encodeChar d []
    rw [encode_cons, he, List.cons_append]
    exact List.nil_lt_cons ..
  | rel h   => exact encodeChar_append_lt h ..
  | cons _ ih => exact List.append_left_lt ih

theorem encode_lt_iff : encode s < encode t ↔ s < t where
  mpr := encode_lt
  mp h := by
    rcases lt_trichotomy s t with hl | rfl | hg
    case inl     => exact hl
    case inr.inl => exact absurd h (List.lt_irrefl _)
    case inr.inr => exact absurd h (List.lt_asymm (encode_lt hg))

theorem encode_le_iff : encode s ≤ encode t ↔ ¬t < s :=
  List.not_lt.symm.trans encode_lt_iff.not

end FlatQuery.Text.Utf8
