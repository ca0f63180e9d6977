import FlatQuery.Number.Binary64
import Mathlib.Tactic.Ring

/-!
Whole numbers as binary numbers. Those with more than 53 digits are rounded to the nearest multiple
of a power of two. The main statement is `Binary64.whole?_ofNat`.
-/

namespace FlatQuery.Binary64

-- Whether the next multiple of the step is nearer, or is the even one of two that are equally near.
def roundsUp (step n : Nat) : Bool :=
  step < 2 * (n % step) || (step == 2 * (n % step) && n / step % 2 == 1)

-- The multiple of a step that is nearest to a number.
def roundTo (step n : Nat) : Nat :=
  (n / step + (roundsUp step n).toNat) * step

-- How far apart the numbers of 53 binary digits are that are as large as `n`.
def gap (n : Nat) : Nat :=
  2 ^ (n.log2 - 52)

section Rounding

variable {step n m : Nat}

theorem roundTo_of_dvd (h : step ∣ n) (hs : 0 < step) : roundTo step n = n := by
  have hm : n % step = 0 := Nat.mod_eq_zero_of_dvd h
  have hu : roundsUp step n = false := by simp [roundsUp, hm, Nat.ne_of_gt hs]
  rw [roundTo, hu]
  exact Nat.div_mul_cancel h

theorem roundTo_eq_self_iff (hs : 0 < step) : roundTo step n = n ↔ step ∣ n where
  mp h  := h ▸ Nat.dvd_mul_left ..
  mpr h := roundTo_of_dvd h hs

-- A number stays on its side of every multiple of the step.
theorem roundTo_le (h : step ∣ m) (hn : n < m) : roundTo step n ≤ m := by
  obtain ⟨q, rfl⟩ := h
  have hq : n / step < q := Nat.div_lt_of_lt_mul hn
  have hu := (roundsUp step n).toNat_le
  rw [roundTo, Nat.mul_comm step]
  exact Nat.mul_le_mul_right step (by omega)

theorem roundTo_pos (hs : 0 < step) (hn : step ≤ n) : 0 < roundTo step n :=
  Nat.mul_pos (Nat.add_pos_left (Nat.div_pos hn hs) _) hs

theorem roundTo_mul_right (step n : Nat) (hm : 0 < m) :
    roundTo (step * m) (n * m) = roundTo step n * m := by
  have hl : step * m < 2 * (n % step * m) ↔ step < 2 * (n % step) := by
    rw [←Nat.mul_assoc, Nat.mul_lt_mul_right hm]
  have he : step * m = 2 * (n % step * m) ↔ step = 2 * (n % step) := by
    rw [←Nat.mul_assoc, Nat.mul_left_inj (Nat.ne_of_gt hm)]
  have hu : roundsUp (step * m) (n * m) = roundsUp step n := by
    simp only [roundsUp, Nat.mul_div_mul_right _ _ hm, Nat.mul_mod_mul_right, Bool.beq_eq_decide_eq,
      hl, he]
  rw [roundTo, hu, Nat.mul_div_mul_right _ _ hm, roundTo, Nat.mul_assoc]

theorem gap_pos (n : Nat) : 0 < gap n :=
  Nat.two_pow_pos _

theorem gap_le (hn : 0 < n) : gap n ≤ n :=
  (Nat.pow_le_pow_right Nat.two_pos (Nat.sub_le ..)).trans (Nat.log2_self_le (Nat.ne_of_gt hn))

theorem gap_dvd {k : Nat} (hn : 0 < n) (h : n < 2 ^ k) : gap n ∣ 2 ^ k := by
  have hl := (Nat.log2_lt (Nat.ne_of_gt hn)).mpr h
  exact Nat.pow_dvd_pow 2 (by omega)

theorem gap_of_lt (h : n < 2 ^ 53) : gap n = 1 := by
  by_cases hn : n = 0
  case pos => rw [hn]; rfl
  case neg =>
    have hl := (Nat.log2_lt hn).mpr h
    rw [gap, Nat.sub_eq_zero_of_le (by omega), Nat.pow_zero]

-- Around a large number its first 53 digits count the gaps.
theorem digits_bounds (h : fractions ≤ n) : fractions ≤ n / gap n ∧ n / gap n < 2 * fractions := by
  have hn : n ≠ 0 := by
    rintro rfl
    exact absurd h (by decide)
  have hl : 52 ≤ n.log2 := (Nat.le_log2 hn).mpr h
  have hp (k : Nat) : 2 ^ (52 + k) * gap n = 2 ^ (n.log2 + k) := by
    rw [gap, ←Nat.pow_add]
    congr 1
    omega
  constructor
  case left  =>
    exact (Nat.le_div_iff_mul_le (gap_pos n)).mpr ((hp 0).trans_le (Nat.log2_self_le hn))
  case right =>
    exact (Nat.div_lt_iff_lt_mul (gap_pos n)).mpr (Nat.lt_log2_self.trans_eq (hp 1).symm)

end Rounding

section Ranks

variable {n r k : Nat}

theorem unitsOf_of_lt (h : r < fractions) : unitsOf r = r :=
  if_pos h

-- A rank is a shift and a fraction, and a fraction that is full makes the next shift.
theorem unitsOf_add (hl : fractions ≤ r) (hu : r ≤ 2 * fractions) :
    unitsOf (k * fractions + r) = r * 2 ^ k := by
  have hf : 0 < fractions := by decide
  rw [unitsOf, if_neg (by omega), Nat.shiftLeft_eq]
  by_cases hr : r = 2 * fractions
  case pos =>
    have he : k * fractions + r = (k + 2) * fractions := by rw [hr, Nat.add_mul]
    rw [he, Nat.mul_mod_left, Nat.mul_div_cancel _ hf, hr]
    simp only [Nat.add_zero, Nat.add_succ_sub_one, Nat.pow_succ]
    ring
  case neg =>
    have he : k * fractions + r = (k + 1) * fractions + (r - fractions) := by
      rw [Nat.add_mul]
      omega
    have hd : ((k + 1) * fractions + (r - fractions)) / fractions = k + 1 := by
      rw [Nat.add_comm, Nat.add_mul_div_right _ _ hf, Nat.div_eq_of_lt (by omega), Nat.zero_add]
    have hm : ((k + 1) * fractions + (r - fractions)) % fractions = r - fractions := by
      rw [Nat.add_comm, Nat.add_mul_mod_self_right, Nat.mod_eq_of_lt (by omega)]
    rw [he, hd, hm, Nat.add_sub_cancel' hl, Nat.add_sub_cancel]

theorem nearestRank_one (n : Nat) :
    nearestRank n 1 =
    min ((n.log2 - 52) * fractions + (n / gap n + (roundsUp (gap n) n).toNat)) infinityRank := by
  simp only [nearestRank, gap, roundsUp, Nat.div_one, Nat.shiftLeft_eq, Nat.one_mul, Nat.add_assoc]
  rfl

-- The number at the nearest rank is the nearest multiple of the gap.
theorem unitsOf_nearestRank (h : n.log2 ≤ 2000) :
    nearestRank n 1 < infinityRank ∧ unitsOf (nearestRank n 1) = roundTo (gap n) n := by
  have hf : fractions = 2 ^ 52 := rfl
  have hi : infinityRank = 2047 * fractions := rfl
  have hs : (n.log2 - 52) * fractions ≤ 1948 * fractions :=
    Nat.mul_le_mul_right _ (by omega)
  by_cases hn : n < fractions
  case pos =>
    have hg : gap n = 1 := gap_of_lt (by omega)
    have hl : n.log2 - 52 = 0 := by
      have hp : 2 ^ (n.log2 - 52) = 2 ^ 0 := hg
      exact Nat.pow_right_injective (Nat.le_refl 2) hp
    have hu : (roundsUp 1 n).toNat = 0 := by simp [roundsUp, Nat.mod_one]
    have hr : nearestRank n 1 = n := by
      rw [nearestRank_one, hg, hl, hu, Nat.div_one]
      omega
    rw [hr, hg, unitsOf_of_lt hn, roundTo_of_dvd (Nat.one_dvd n) Nat.one_pos]
    exact ⟨by omega, rfl⟩
  case neg =>
    obtain ⟨hl, hu⟩ := digits_bounds (Nat.not_lt.mp hn)
    have hb := (roundsUp (gap n) n).toNat_le
    have hr : nearestRank n 1 =
        (n.log2 - 52) * fractions + (n / gap n + (roundsUp (gap n) n).toNat) := by
      rw [nearestRank_one]
      omega
    rw [hr, unitsOf_add (by omega) (by omega)]
    exact ⟨by omega, rfl⟩

end Ranks

section Whole

variable {n : Nat}

-- How often 1 can be halved until it is the least positive number.
def halvings : Nat := 1074

theorem one_eq : one = 2 ^ halvings :=
  Nat.one_shiftLeft halvings

theorem one_pos : 0 < one := by
  rw [one_eq]
  exact Nat.two_pow_pos _

theorem log2_mul_one (hn : n ≠ 0) : (n * one).log2 = n.log2 + halvings := by
  have hp : n * one ≠ 0 := Nat.mul_ne_zero hn (Nat.ne_of_gt one_pos)
  rw [Nat.log2_eq_iff hp, one_eq, Nat.pow_add, Nat.add_right_comm, Nat.pow_add]
  exact ⟨Nat.mul_le_mul_right _ (Nat.log2_self_le hn),
    Nat.mul_lt_mul_of_pos_right Nat.lt_log2_self (Nat.two_pow_pos _)⟩

-- Below 53 digits there is room for all of them, so that the unit is of no account.
theorem roundTo_mul_one (n : Nat) :
    roundTo (gap (n * one)) (n * one) = roundTo (gap n) n * one := by
  by_cases hn : n < 2 ^ 53
  case pos =>
    have hd : gap (n * one) ∣ n * one := by
      by_cases h₀ : n = 0
      case pos => simp [h₀]
      case neg =>
        have hl := (Nat.log2_lt h₀).mpr hn
        rw [gap, log2_mul_one h₀, one_eq]
        exact Nat.dvd_mul_left_of_dvd (Nat.pow_dvd_pow 2 (by omega)) n
    rw [roundTo_of_dvd hd (gap_pos _), gap_of_lt hn, roundTo_of_dvd (Nat.one_dvd n) Nat.one_pos]
  case neg =>
    have h₀ : n ≠ 0 := by omega
    have hl := (Nat.le_log2 h₀).mpr (Nat.not_lt.mp hn)
    have hg : gap (n * one) = gap n * one := by
      rw [gap, gap, log2_mul_one h₀, one_eq, ←Nat.pow_add]
      congr 1
      omega
    rw [hg, roundTo_mul_right _ _ one_pos]

-- A whole number is rounded to the nearest one that has 53 binary digits.
theorem whole?_ofNat (h : n < 2 ^ 64) :
    (ofNat n).isFinite ∧ (ofNat n).whole? = some (roundTo (gap n) n) := by
  have hl : (n * one).log2 ≤ 2000 := by
    by_cases h₀ : n = 0
    case pos => simp [h₀]
    case neg =>
      have hn := (Nat.log2_lt h₀).mpr h
      have hh : halvings = 1074 := rfl
      rw [log2_mul_one h₀]
      omega
  obtain ⟨hr, hu⟩ := unitsOf_nearestRank hl
  have hf : (ofNat n).isFinite := decide_eq_true hr
  have hx : (ofNat n).units = roundTo (gap n) n * one := hu.trans (roundTo_mul_one n)
  refine ⟨hf, ?_⟩
  rw [whole?, hf, hx, Nat.mul_mod_left, Nat.mul_div_cancel _ one_pos]
  rfl

end Whole

end FlatQuery.Binary64
