import Ephemeral.ItchAdapter

/-!
# ITCH prices as doubles

A price of the feed is a 32-bit number of ten-thousandths, divided by `10000.0` and then
quantized.  Both steps round.  The errors are far below the distance of two prices, so
that the canonical forms of different prices are different, come in the same order
(`levelKey_lt_iff`) and are told apart by the tolerance of the book
(`separated_levelKey`).
-/

namespace Eph.Book

open Itch Binary64

variable (raw : UInt32)

/-- The price under which the builder keeps the orders at a raw price. -/
def levelKey : ℚ :=
  quantize Binary64.round (itchPrice Binary64.round raw)

theorem raw_bounds : (0 : ℚ) ≤ raw.toNat ∧ (raw.toNat : ℚ) ≤ 2 ^ 32 := by
  refine ⟨Nat.cast_nonneg _, ?_⟩
  exact_mod_cast raw.toNat_lt.le

theorem itchPrice_bounds :
    (raw.toNat : ℚ) / 10 ^ 4 * (1 - 1 / 2 ^ 53) ≤ itchPrice Binary64.round raw ∧
      itchPrice Binary64.round raw ≤ (raw.toNat : ℚ) / 10 ^ 4 * (1 + 1 / 2 ^ 53) := by
  have hraw := raw_bounds raw
  have hbounds := round_bounds (x := raw.toNat / 10 ^ 4) (by positivity)
  have hdivisor : kItchPriceDivisor = 10 ^ 4 := by norm_num [kItchPriceDivisor]
  rw [itchPrice, hdivisor]
  constructor <;> linarith [hbounds.1, hbounds.2]

theorem kTickQuantum_bounds :
    (1 : ℚ) / 10 ^ 9 * (1 - 1 / 2 ^ 53) ≤ kTickQuantum Binary64.round ∧
      kTickQuantum Binary64.round ≤ 1 / 10 ^ 9 * (1 + 1 / 2 ^ 53) := by
  have hbounds := round_bounds (x := 1 / 10 ^ 9) (by positivity)
  rw [kTickQuantum]
  constructor <;> linarith [hbounds.1, hbounds.2]

/-- So many ticks, in dollars. -/
theorem mul_kTickQuantum_bounds :
    raw.toNat * (1 / 10 ^ 9 * (1 - 1 / 2 ^ 53)) ≤ raw.toNat * kTickQuantum Binary64.round ∧
      raw.toNat * kTickQuantum Binary64.round ≤ raw.toNat * (1 / 10 ^ 9 * (1 + 1 / 2 ^ 53)) := by
  have htick := kTickQuantum_bounds
  constructor <;> gcongr
  · exact htick.1
  · exact htick.2

/-- The number of ticks is found exactly. -/
theorem ticks_itchPrice :
    Binary64.roundAway
        (Binary64.round (itchPrice Binary64.round raw / kTickQuantum Binary64.round)) =
      raw.toNat * 10 ^ 5 := by
  have hraw := raw_bounds raw
  have hprice := itchPrice_bounds raw
  have htick := kTickQuantum_bounds
  have hticks := mul_kTickQuantum_bounds raw
  apply roundAway_eq_of_near
  push_cast
  generalize itchPrice round raw = p at hprice ⊢
  generalize kTickQuantum round = t at htick hticks ⊢
  generalize (raw.toNat : ℚ) = x at hraw hprice hticks ⊢
  have ht : 0 < t := by linarith [htick.1]
  -- Before it is rounded, the quotient is within an eighth of the number of ticks.
  have hquot : x * 10 ^ 5 - 1 / 8 ≤ p / t ∧ p / t ≤ x * 10 ^ 5 + 1 / 8 := by
    rw [le_div_iff₀ ht, div_le_iff₀ ht]
    constructor <;> linarith [hraw.2, hprice.1, hprice.2, htick.1, htick.2, hticks.1, hticks.2]
  have hnonneg : 0 ≤ p / t := by
    apply div_nonneg _ ht.le
    linarith [hprice.1, hraw.1]
  have hround := round_bounds hnonneg
  rw [abs_lt]
  constructor <;> linarith [hround.1, hround.2, hquot.1, hquot.2, hraw.1, hraw.2]

/-- The canonical price is within `10 ^ -9` of the price in dollars. -/
theorem levelKey_bounds :
    (raw.toNat : ℚ) / 10 ^ 4 - 1 / 10 ^ 9 ≤ levelKey raw ∧
      levelKey raw ≤ (raw.toNat : ℚ) / 10 ^ 4 + 1 / 10 ^ 9 := by
  have hraw := raw_bounds raw
  have htick := kTickQuantum_bounds
  have hticks := mul_kTickQuantum_bounds raw
  rw [levelKey, quantize, ticks_itchPrice]
  push_cast
  generalize kTickQuantum round = t at htick hticks ⊢
  generalize (raw.toNat : ℚ) = x at hraw hticks ⊢
  have ht : 0 < t := by linarith [htick.1]
  have hround := round_bounds (x := x * 10 ^ 5 * t)
    (mul_nonneg (mul_nonneg hraw.1 (by positivity)) ht.le)
  constructor <;> linarith [hround.1, hround.2, hraw.2, hticks.1, hticks.2]

variable {a b : UInt32}

/-- Different raw prices are at least one ten-thousandth apart. -/
theorem raw_lt (h : a < b) : (a.toNat : ℚ) / 10 ^ 4 + 1 / 10 ^ 4 ≤ (b.toNat : ℚ) / 10 ^ 4 := by
  have hnat : a.toNat + 1 ≤ b.toNat := h
  have hcast : (a.toNat : ℚ) + 1 ≤ b.toNat := by exact_mod_cast hnat
  linarith

theorem levelKey_lt (h : a < b) : levelKey a + 1 / 10 ^ 5 < levelKey b := by
  have hraw := raw_lt h
  have ha := levelKey_bounds a
  have hb := levelKey_bounds b
  linarith [ha.2, hb.1]

/-- What grows with the raw price tells raw prices apart. -/
theorem injective_of_increasing {f : UInt32 → ℚ}
    (hf : ∀ {a b : UInt32}, a < b → f a < f b) : Function.Injective f := by
  intro a b h
  by_contra hne
  rcases UInt32.lt_or_lt_of_ne hne with hlt | hgt
  · exact (hf hlt).ne h
  · exact (hf hgt).ne' h

theorem lt_iff_of_increasing {f : UInt32 → ℚ} (hf : ∀ {a b : UInt32}, a < b → f a < f b) :
    f a < f b ↔ a < b := by
  refine ⟨fun hlt => ?_, hf⟩
  rcases UInt32.lt_or_lt_of_ne (fun heq => hlt.ne (congrArg f heq)) with h | h
  · exact h
  · exact absurd hlt (hf h).not_gt

theorem levelKey_lt_iff : levelKey a < levelKey b ↔ a < b := by
  apply lt_iff_of_increasing
  intro a b h
  linarith [levelKey_lt h]

/-- The canonical forms of different prices are different. -/
theorem levelKey_injective : Function.Injective levelKey :=
  injective_of_increasing levelKey_lt_iff.mpr

theorem itchPrice_lt_iff : itchPrice Binary64.round a < itchPrice Binary64.round b ↔ a < b := by
  apply lt_iff_of_increasing
  intro a b h
  have hraw := raw_lt h
  have ha := itchPrice_bounds a
  have hb := itchPrice_bounds b
  linarith [ha.2, hb.1, (raw_bounds a).2, (raw_bounds b).2]

theorem itchPrice_injective : Function.Injective (itchPrice Binary64.round) :=
  injective_of_increasing itchPrice_lt_iff.mpr

theorem kEps_bounds : 0 < kEps Binary64.round ∧ kEps Binary64.round ≤ 1 / 10 ^ 11 := by
  have hbounds := round_bounds (x := 1 / 10 ^ 12) (by positivity)
  rw [kEps]
  constructor <;> linarith [hbounds.1, hbounds.2]

/-- Different canonical prices are further apart than rounding and tolerance together. -/
theorem levelKey_far (h : levelKey a ≠ levelKey b) : 1 / 10 ^ 5 < |levelKey a - levelKey b| := by
  rcases UInt32.lt_or_lt_of_ne (fun heq => h (congrArg levelKey heq)) with hlt | hgt
  · exact lt_abs.mpr (.inr (by linarith [levelKey_lt hlt]))
  · exact lt_abs.mpr (.inl (by linarith [levelKey_lt hgt]))

theorem levelKey_abs_le : |levelKey raw| ≤ 10 ^ 6 := by
  have hkey := levelKey_bounds raw
  have hraw := raw_bounds raw
  rw [abs_le]
  constructor <;> linarith [hkey.1, hkey.2, hraw.1, hraw.2]

/-- A canonical price moved by the tolerance, and rounded. -/
theorem levelKey_shift {eps : ℚ} (heps : |eps| ≤ 1 / 10 ^ 11) :
    |Binary64.round (levelKey raw + eps) - levelKey raw| ≤ 1 / 10 ^ 8 := by
  have hkey := levelKey_abs_le raw
  have hsum := abs_add_le (levelKey raw) eps
  have herror := Binary64.abs_round_sub_le (levelKey raw + eps)
  have hsplit := abs_add_le (Binary64.round (levelKey raw + eps) - (levelKey raw + eps)) eps
  rw [show Binary64.round (levelKey raw + eps) - (levelKey raw + eps) + eps =
    Binary64.round (levelKey raw + eps) - levelKey raw by ring] at hsplit
  linarith

/-- **The tolerance tells prices apart.** -/
theorem separated_levelKey : Separated Binary64.round (Set.range levelKey) where
  eq_iff := by
    rintro _ _ ⟨a, rfl⟩ ⟨b, rfl⟩
    have heps := kEps_bounds
    rw [priceEq, decide_eq_true_eq]
    constructor
    · intro hclose
      by_contra hne
      have hfar := levelKey_far hne
      linarith [le_abs_round (levelKey a - levelKey b), heps.2]
    · intro heq
      rw [heq, sub_self, round_zero, abs_zero]
      exact heps.1
  above := by
    rintro _ _ ⟨a, rfl⟩ ⟨b, rfl⟩ hne
    have heps := kEps_bounds
    have hshift := abs_le.mp (levelKey_shift a
      (show |kEps round| ≤ 1 / 10 ^ 11 by rw [abs_of_pos heps.1]; exact heps.2))
    have hfar := lt_abs.mp (levelKey_far hne)
    constructor
    · intro h
      rcases hfar with hfar | hfar
      · linarith [hshift.1]
      · linarith
    · intro h
      rcases hfar with hfar | hfar
      · linarith
      · linarith [hshift.2]
  below := by
    rintro _ _ ⟨a, rfl⟩ ⟨b, rfl⟩ hne
    have heps := kEps_bounds
    have hshift := abs_le.mp (levelKey_shift a (show |-kEps round| ≤ 1 / 10 ^ 11 by
        rw [abs_neg, abs_of_pos heps.1]; exact heps.2))
    rw [← sub_eq_add_neg] at hshift
    have hfar := lt_abs.mp (levelKey_far hne)
    constructor
    · intro h
      rcases hfar with hfar | hfar
      · linarith
      · linarith [hshift.2]
    · intro h
      rcases hfar with hfar | hfar
      · linarith [hshift.1]
      · linarith

end Eph.Book
