import Mathlib.Data.Int.Log
import Mathlib.Data.Rat.Floor

/-!
# Rounding to binary64

A `double` is a rational number here, and an operation on doubles is the exact operation
followed by `Binary64.round`: to the nearest multiple of the unit in the last place of a
53-bit significand, and to the even one if there are two.  The range of the exponent is
left out.  What a development needs of it are two facts: integers up to `2 ^ 53` are not
changed (`round_intCast`), and nothing is changed by more than one part in `2 ^ 53`
(`abs_round_sub_le`).
-/

namespace Binary64

variable (x : ℚ)

/-- The exponent of the unit in the last place. -/
def ulpExponent : ℤ :=
  Int.log 2 |x| - 52

/-- The nearest integer, and the even one halfway between two. -/
def roundEven : ℤ :=
  if x - ⌊x⌋ < 1 / 2 then ⌊x⌋
  else if 1 / 2 < x - ⌊x⌋ then ⌊x⌋ + 1
  else if ⌊x⌋ % 2 = 0 then ⌊x⌋
  else ⌊x⌋ + 1

/-- The double nearest to `x`. -/
def round : ℚ :=
  roundEven (x / 2 ^ ulpExponent x) * 2 ^ ulpExponent x

/-- The nearest integer, away from zero halfway between two (the C function `round`). -/
def roundAway : ℤ :=
  if 0 ≤ x then ⌊x + 1 / 2⌋ else -⌊-x + 1 / 2⌋

theorem roundEven_intCast (n : ℤ) : roundEven n = n := by
  rw [roundEven, Int.floor_intCast, sub_self, if_pos (by norm_num)]

theorem abs_roundEven_sub_le : |(roundEven x : ℚ) - x| ≤ 1 / 2 := by
  have hfloor := Int.floor_le x
  have hnext := Int.lt_floor_add_one x
  rw [abs_le, roundEven]
  split_ifs with hbelow habove heven
  · constructor <;> linarith
  · push_cast
    constructor <;> linarith
  · constructor <;> linarith
  · push_cast
    constructor <;> linarith

@[simp] theorem round_zero : round 0 = 0 := by
  rw [round, zero_div, ← Int.cast_zero, roundEven_intCast, Int.cast_zero, zero_mul]

/-- What is a multiple of its unit in the last place is not changed. -/
theorem round_of_multiple {x : ℚ} {m : ℤ} (h : x = m * 2 ^ ulpExponent x) : round x = x := by
  have hunit : (2 : ℚ) ^ ulpExponent x ≠ 0 := zpow_ne_zero _ two_ne_zero
  have hquot : x / 2 ^ ulpExponent x = m := by
    rw [div_eq_iff hunit]
    exact h
  rw [round, hquot, roundEven_intCast]
  exact h.symm

/-- An integer whose unit in the last place is at most one. -/
theorem round_intCast_of_exponent {n : ℤ} (h : ulpExponent n ≤ 0) : round n = n := by
  obtain ⟨k, hk⟩ := Int.eq_ofNat_of_zero_le (neg_nonneg.mpr h)
  have hexp : ulpExponent n = -(k : ℤ) := by omega
  apply round_of_multiple (m := n * 2 ^ k)
  rw [hexp, zpow_neg, zpow_natCast]
  push_cast
  field_simp

/-- **Integers up to `2 ^ 53` are doubles.** -/
theorem round_intCast {n : ℤ} (hn : |n| ≤ 2 ^ 53) : round n = n := by
  rcases lt_or_eq_of_le hn with hlt | htop
  · by_cases hzero : n = 0
    · rw [hzero, Int.cast_zero, round_zero]
    apply round_intCast_of_exponent
    have hpos : (0 : ℚ) < |(n : ℚ)| := abs_pos.mpr (Int.cast_ne_zero.mpr hzero)
    have hlog : Int.log 2 |(n : ℚ)| < 53 := by
      rw [← Int.lt_zpow_iff_log_lt one_lt_two hpos, ← Int.cast_abs]
      exact_mod_cast hlt
    unfold ulpExponent
    omega
  · -- The largest two have an even significand.
    rcases eq_or_eq_neg_of_abs_eq htop with rfl | rfl
    · decide +kernel
    · decide +kernel

theorem round_natCast {n : ℕ} (hn : n ≤ 2 ^ 53) : round n = n := by
  have h := round_intCast (n := (n : ℤ)) (by rw [Nat.abs_cast]; exact_mod_cast hn)
  simpa using h

/-- **Relative error.**  Rounding changes nothing by more than one part in `2 ^ 53`. -/
theorem abs_round_sub_le : |round x - x| ≤ |x| / 2 ^ 53 := by
  by_cases hzero : x = 0
  · simp [hzero]
  have hunit : (0 : ℚ) < 2 ^ ulpExponent x := zpow_pos two_pos _
  have hscale : round x - x =
      (roundEven (x / 2 ^ ulpExponent x) - x / 2 ^ ulpExponent x) * 2 ^ ulpExponent x := by
    rw [sub_mul, div_mul_cancel₀ _ hunit.ne']
    rfl
  have hlog : (2 : ℚ) ^ Int.log 2 |x| ≤ |x| := by
    have := Int.zpow_log_le_self (b := 2) one_lt_two (abs_pos.mpr hzero)
    exact_mod_cast this
  have hulp : (2 : ℚ) ^ ulpExponent x = 2 ^ Int.log 2 |x| / 2 ^ 52 := by
    rw [ulpExponent, zpow_sub₀ two_ne_zero]
    rfl
  calc |round x - x|
      = |(roundEven (x / 2 ^ ulpExponent x) : ℚ) - x / 2 ^ ulpExponent x| *
          2 ^ ulpExponent x := by rw [hscale, abs_mul, abs_of_pos hunit]
    _ ≤ 1 / 2 * 2 ^ ulpExponent x :=
        mul_le_mul_of_nonneg_right (abs_roundEven_sub_le _) hunit.le
    _ = 2 ^ Int.log 2 |x| / 2 ^ 53 := by rw [hulp]; ring
    _ ≤ |x| / 2 ^ 53 := by gcongr

theorem round_bounds {x : ℚ} (hx : 0 ≤ x) :
    x - x / 2 ^ 53 ≤ round x ∧ round x ≤ x + x / 2 ^ 53 := by
  have herror := abs_le.mp (abs_round_sub_le x)
  rw [abs_of_nonneg hx] at herror
  constructor <;> linarith [herror.1, herror.2]

theorem le_abs_round : |x| - |x| / 2 ^ 53 ≤ |round x| := by
  have herror := abs_round_sub_le x
  have htriangle := abs_sub_abs_le_abs_sub x (round x)
  rw [abs_sub_comm] at htriangle
  linarith

/-- Near an integer, `roundAway` gives it. -/
theorem roundAway_eq_of_near {x : ℚ} {n : ℤ} (h : |x - n| < 1 / 2) : roundAway x = n := by
  rw [abs_lt] at h
  unfold roundAway
  split_ifs with hsign
  · rw [Int.floor_eq_iff]
    constructor <;> linarith
  have hfloor : ⌊-x + 1 / 2⌋ = -n := by
    rw [Int.floor_eq_iff]
    push_cast
    constructor <;> linarith
  rw [hfloor, neg_neg]

end Binary64
