import Ephemeral.FixBuilder
import Ephemeral.ParseNumber

/-!
# Prices

`set_price` writes a mantissa as a decimal fraction: a sign, the digits before the point, the
point, zeros down to the first digit of the fraction, and the rest of the fraction.  The text
denotes the mantissa scaled by the number of decimals, with as many digits behind the point.
-/

namespace Eph.Fix

open ByteOrder Decimal List Core

/-- The magnitude of a number with its sign is the number. -/
theorem signed_magnitude (v : Int64) : signed (decide (v < 0)) (magnitude v).toNat = v.toInt := by
  have hlt := v.toUInt64.toNat_lt
  have hcond : v.toInt = if 2 * v.toUInt64.toNat < 2 ^ 64 then (v.toUInt64.toNat : Int)
      else (v.toUInt64.toNat : Int) - (2 ^ 64 : Nat) :=
    BitVec.toInt_eq_toNat_cond v.toUInt64.toBitVec
  have hneg : (-v.toUInt64).toNat = (2 ^ 64 - v.toUInt64.toNat) % 2 ^ 64 := UInt64.toNat_neg ..
  have hzero : v < 0 ↔ v.toInt < 0 := Int64.lt_iff_toInt_lt
  unfold signed magnitude
  by_cases h : v < 0
  · rw [decide_eq_true h, if_pos rfl, if_pos h, hneg]
    rw [hzero] at h
    split at hcond <;> omega
  · rw [decide_eq_false h, if_neg Bool.false_ne_true, if_neg h]
    rw [hzero] at h
    split at hcond <;> omega

/-- The digits behind the point: as many as there are decimals, and they denote the fraction. -/
theorem fraction_digits (d frac : Nat) (hd : d ≤ 18) (hfrac : frac < 10 ^ d) :
    ∃ digits, leadingZeros d (10 ^ d / 10) frac ++ (if frac > 0 then formatUint frac else []) =
        digits ∧ digits.length = d ∧ (∀ c ∈ digits, isDigit c = true) ∧ value 0 digits = frac := by
  induction d with
  | zero =>
    obtain rfl : frac = 0 := by simpa using hfrac
    exact ⟨[], rfl, rfl, nofun, rfl⟩
  | succ d ih =>
    have hpow : 10 ^ (d + 1) / 10 = 10 ^ d := by
      rw [Nat.pow_succ, Nat.mul_div_cancel _ (by decide)]
    have hpos : 0 < 10 ^ d := Nat.pow_pos (by decide)
    rw [hpow, leadingZeros]
    by_cases hsmall : frac < 10 ^ d
    · obtain ⟨digits, htext, hlen, hdigits, hvalue⟩ := ih (by omega) hsmall
      refine ⟨48 :: digits, ?_, by rw [length_cons, hlen],
        forall_mem_cons.mpr ⟨by decide, hdigits⟩, hvalue⟩
      rw [if_pos (by simp [hpos, hsmall]), ← htext]
      rfl
    · -- no zeros are missing: the fraction has all its digits
      refine ⟨formatUint frac, ?_, length_render (by omega) (by omega) hfrac,
        fun _ hc => isDigit_of_mem_formatUint hc, value_formatUint ?_⟩
      · rw [if_neg (by simp [hsmall]), if_pos (by omega)]
        rfl
      · exact Nat.lt_of_lt_of_le hfrac
          (Nat.le_trans (Nat.pow_le_pow_right (by decide) (show d + 1 ≤ 18 by omega)) (by decide))

/-- **The price is exact.**  The digits before and behind the point denote the mantissa in units
of the last decimal. -/
theorem set_price_exact (mantissa : Int64) (decimals : UInt8) (hdecimals : decimals ≤ 18) :
    ∃ whole frac : Bytes,
      (∀ (b : MessageBuilder) (t : UInt32), b.setPrice t mantissa decimals = b.setTrusted t
        (sign (decide (mantissa < 0)) ++ whole ++ if decimals = 0 then [] else 46 :: frac)) ∧
      whole ≠ [] ∧ (∀ c ∈ whole ++ frac, isDigit c = true) ∧ frac.length = decimals.toNat ∧
      signed (decide (mantissa < 0)) (value 0 whole * 10 ^ decimals.toNat + value 0 frac) =
        mantissa.toInt := by
  have hlt := (magnitude mantissa).toNat_lt
  have hsign : (if mantissa < 0 then [45] else []) = sign (decide (mantissa < 0)) := by
    simp [sign]
  have hd : decimals.toNat ≤ 18 := UInt8.le_iff_toNat_le.mp hdecimals
  by_cases hzero : decimals = 0
  · refine ⟨formatUint (magnitude mantissa).toNat, [], fun b t => ?_, render_ne_nil (by decide),
      fun c hc => isDigit_of_mem_formatUint (by simpa using hc), by rw [hzero]; rfl, ?_⟩
    · rw [MessageBuilder.setPrice, priceText, if_pos hzero, if_pos hzero, formatInt, hsign,
        append_nil]
    · rw [hzero, value_formatUint hlt, value_nil, ← signed_magnitude]
      simp
  · have hpow : 0 < 10 ^ decimals.toNat := Nat.pow_pos (by decide)
    obtain ⟨frac, htext, hlen, hdigits, hvalue⟩ := fraction_digits decimals.toNat
      ((magnitude mantissa).toNat % 10 ^ decimals.toNat) hd (Nat.mod_lt _ hpow)
    refine ⟨formatUint ((magnitude mantissa).toNat / 10 ^ decimals.toNat), frac, fun b t => ?_,
      render_ne_nil (by decide), forall_mem_append.mpr ⟨fun _ hc => isDigit_of_mem_formatUint hc,
        hdigits⟩, hlen, ?_⟩
    · have hmost : ¬ decimals > 18 := UInt8.not_lt.mpr hdecimals
      rw [MessageBuilder.setPrice, priceText, if_neg hzero, if_neg hzero, if_neg hmost, ← htext,
        hsign]
      simp
    · rw [value_formatUint (Nat.lt_of_le_of_lt (Nat.div_le_self ..) hlt), hvalue,
        Nat.mul_comm, Nat.div_add_mod, signed_magnitude]

/-- The smallest integer, in units of `10 ^ -18`. -/
theorem set_price_smallest :
    ∃ whole frac : Bytes,
      (∀ (b : MessageBuilder) (t : UInt32), b.setPrice t Int64.minValue 18 =
        b.setTrusted t ([45] ++ whole ++ 46 :: frac)) ∧
      whole ≠ [] ∧ frac.length = 18 ∧
      signed true (value 0 whole * 10 ^ 18 + value 0 frac) = Int64.minValue.toInt := by
  obtain ⟨whole, frac, htext, hne, -, hlen, hvalue⟩ :=
    set_price_exact Int64.minValue 18 (by decide)
  exact ⟨whole, frac, htext, hne, hlen, hvalue⟩

end Eph.Fix
