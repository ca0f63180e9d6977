import FlatQuery.Number.Decimal
import Mathlib.Data.List.TakeWhile

/-!
What is known of a number that is read from a decimal text, and the numbers of whole texts.
-/

namespace FlatQuery

namespace Binary64

variable {x y : Binary64}

theorem not_isNaN_of_isFinite (h : x.isFinite) : ¬x.isNaN := by
  simp only [isFinite, isNaN, decide_eq_true_eq] at h ⊢
  omega

theorem compare?_isSome (hx : ¬x.isNaN) (hy : ¬y.isNaN) : (x.compare? y).isSome := by
  simp [compare?, hx, hy]

end Binary64

namespace Decimal

variable {s : List Char} {x : Binary64}

theorem sign_of_isDigit {c : Char} (hc : c.isDigit) : sign (c :: s) = (false, c :: s) := by
  have hm : c ≠ '-' := by
    rintro rfl
    cases hc
  have hp : c ≠ '+' := by
    rintro rfl
    cases hc
  unfold sign
  split <;> simp_all

theorem digits_of_forall (h : ∀ c ∈ s, c.isDigit) : digits s = (s, []) := by
  rw [digits, List.takeWhile_eq_self_iff.mpr h, List.dropWhile_eq_nil_iff.mpr h]

theorem negative_nearest (negative : Bool) (m width : Nat) (e : Int) :
    (nearest negative m width e).negative = negative := by
  unfold nearest
  repeat' split
  all_goals rfl

-- The number of a text is finite, and its sign is that of the text.
theorem of_read? (h : read? s = some x) : x.isFinite ∧ x.negative = (sign s).1 := by
  simp only [read?, bind, Option.bind_eq_some_iff, Option.ite_none_right_eq_some,
    Option.some.injEq] at h
  obtain ⟨_, _, hx, rfl⟩ := h
  exact ⟨(Bool.and_eq_true_iff.mp hx).right, negative_nearest ..⟩

theorem natOf_toDigits (n : Nat) : natOf (Nat.toDigits 10 n) = n :=
  Nat.ofDigitChars_ten_toDigits

-- Digits alone are read as the number that they stand for.
theorem read?_digits (hn : s ≠ []) (h : ∀ c ∈ s, c.isDigit) (hp : 0 < natOf s)
    (hf : (Binary64.ofNat (natOf s)).isFinite) : read? s = some (.ofNat (natOf s)) := by
  have hs : sign s = (false, s) := by
    cases s
    case nil      => contradiction
    case cons c s => exact sign_of_isDigit (h c List.mem_cons_self)
  have hx : nearest false (natOf s) s.length 0 = .ofNat (natOf s) := by
    have hw : ¬((s.length : Int) < -400) := by omega
    simp [nearest, Nat.ne_of_gt hp, hw, Binary64.ofNat]
  simp only [read?, hs, digits_of_forall h, exponent?, bind, Option.bind_some, List.append_nil,
    List.length_nil, Int.natCast_zero, Int.sub_zero, hx, hf, Bool.and_true, bne_iff_ne, ne_eq, hn,
    not_false_eq_true, if_true]

end Decimal
end FlatQuery
