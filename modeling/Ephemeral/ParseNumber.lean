import Ephemeral.Decimal
import Mathlib.Algebra.Group.Int.Defs

/-!
# Reading integers

`parse_int` reads an optional minus sign and decimal digits into an `int64_t`.
Its overflow guard divides where the generic reader multiplies;
`parseIntLoop_eq_bounded` shows that the two accept the same texts.
-/

namespace Eph.Core

open ByteOrder Decimal List

/-- The digit loop of `parse_int`. -/
def parseIntLoop (limit : Nat) : Nat → Bytes → Option Nat
  | result, [] => some result
  | result, c :: cs =>
    if !isDigit c then none
    else if result > (limit - digitVal c) / 10 then none
    else parseIntLoop limit (result * 10 + digitVal c) cs

/-- `parse_int`. -/
def parseInt (text : Bytes) : Option Int64 :=
  let negative := text.head? == some 45
  let digits := if negative then text.tail else text
  if digits.isEmpty then none
  else
    let limit := if negative then 2 ^ 63 else 2 ^ 63 - 1
    (parseIntLoop limit 0 digits).map fun result =>
      -- negated as unsigned, so that the smallest integer can be read
      if negative then (~~~(UInt64.ofNat result) + 1).toInt64 else (UInt64.ofNat result).toInt64

/-- The guard of `parse_int` is the comparison after the multiplication. -/
theorem parseIntLoop_eq_bounded {limit : Nat} (hlimit : 9 ≤ limit) (acc : Nat) (cs : Bytes) :
    parseIntLoop limit acc cs = bounded limit acc cs := by
  induction cs generalizing acc with
  | nil => rfl
  | cons c cs ih =>
    by_cases hc : isDigit c = true
    · have hd := digitVal_le hc
      have hguard : acc > (limit - digitVal c) / 10 ↔ acc * 10 + digitVal c > limit := by
        generalize digitVal c = d at hd ⊢
        omega
      simp only [parseIntLoop, bounded, hc, hguard, ih]
    · simp [parseIntLoop, bounded, hc]

/-- The sign of a number in decimal. -/
def sign (negative : Bool) : Bytes := if negative then [45] else []

/-- The number that a sign and a magnitude stand for. -/
def signed (negative : Bool) (n : Nat) : Int := if negative then -n else n

/-- On a sign and digits, `parse_int` compares once. -/
theorem parseInt_signed (negative : Bool) {digits : Bytes} (hne : digits ≠ [])
    (hdigits : ∀ c ∈ digits, isDigit c = true) :
    parseInt (sign negative ++ digits) =
      if -2 ^ 63 ≤ signed negative (value 0 digits) ∧ signed negative (value 0 digits) < 2 ^ 63 then
        some (Int64.ofInt (signed negative (value 0 digits)))
      else none := by
  have hempty : digits.isEmpty = false := isEmpty_eq_false_iff.mpr hne
  have hloop : ∀ limit, 9 ≤ limit → parseIntLoop limit 0 digits =
      if value 0 digits ≤ limit then some (value 0 digits) else none := fun limit hlimit =>
    (parseIntLoop_eq_bounded hlimit 0 digits).trans (bounded_eq hdigits (Nat.zero_le limit))
  cases negative with
  | true =>
    have hhead : ((45 :: digits).head? == some 45) = true := rfl
    have hrange : (-2 ^ 63 ≤ -(value 0 digits : Int) ∧ -(value 0 digits : Int) < 2 ^ 63) ↔
        value 0 digits ≤ 2 ^ 63 := by omega
    simp only [sign, signed, cons_append, nil_append, parseInt, hhead, tail_cons,
      hempty, if_true, Bool.false_eq_true, if_false, hloop (2 ^ 63) (by decide), hrange,
      ← UInt64.neg_eq_not_add, UInt64.toInt64_neg, UInt64.toInt64_ofNat', Int64.ofInt_neg,
      Int64.ofInt_eq_ofNat]
    split <;> rfl
  | false =>
    have hhead : (digits.head? == some 45) = false := by
      cases digits with
      | nil => rfl
      | cons c cs =>
        simpa using ne_of_isDigit (hdigits c mem_cons_self) (by decide : isDigit 45 = false)
    have hrange : (-2 ^ 63 ≤ (value 0 digits : Int) ∧ (value 0 digits : Int) < 2 ^ 63) ↔
        value 0 digits ≤ 2 ^ 63 - 1 := by omega
    simp only [sign, signed, nil_append, parseInt, hhead, hempty, Bool.false_eq_true, if_false,
      hloop (2 ^ 63 - 1) (by decide), hrange, UInt64.toInt64_ofNat', Int64.ofInt_eq_ofNat]
    split <;> rfl

/-- The text is an optional minus sign and one or more digits, and denotes `n`. -/
def Denotes (text : Bytes) (n : Int) : Prop :=
  ∃ negative digits, text = sign negative ++ digits ∧ digits ≠ [] ∧
    (∀ c ∈ digits, isDigit c = true) ∧ n = signed negative (value 0 digits)

/-- **The reader is exact.**  It returns the number that the text denotes, if there is one in the
range. -/
theorem parse_int_exact (text : Bytes) (v : Int64) :
    parseInt text = some v ↔ Denotes text v.toInt := by
  constructor
  · intro h
    -- the sign is split off, and the loop reads the rest
    obtain ⟨negative, digits, rfl, hne, limit, n, hlimit, hloop⟩ : ∃ negative digits,
        text = sign negative ++ digits ∧ digits ≠ [] ∧
          ∃ limit n, 9 ≤ limit ∧ parseIntLoop limit 0 digits = some n := by
      unfold parseInt at h
      dsimp only at h
      split at h
      · rename_i hneg
        obtain ⟨hempty, hread⟩ := Option.ite_none_left_eq_some.mp h
        obtain ⟨n, hloop, -⟩ := Option.map_eq_some_iff.mp hread
        obtain ⟨digits, rfl⟩ := head?_eq_some_iff.mp (beq_iff_eq.mp hneg)
        exact ⟨true, digits, rfl, by simpa using hempty, _, n, by decide, hloop⟩
      · obtain ⟨hempty, hread⟩ := Option.ite_none_left_eq_some.mp h
        obtain ⟨n, hloop, -⟩ := Option.map_eq_some_iff.mp hread
        exact ⟨false, text, rfl, by simpa using hempty, _, n, by decide, hloop⟩
    have hdigits := isDigit_of_bounded ((parseIntLoop_eq_bounded hlimit 0 digits).symm.trans hloop)
    rw [parseInt_signed negative hne hdigits] at h
    split at h
    · rename_i hrange
      refine ⟨negative, digits, rfl, hne, hdigits, ?_⟩
      rw [← Option.some.inj h, Int64.toInt_ofInt_of_le hrange.1 hrange.2]
    · cases h
  · rintro ⟨negative, digits, rfl, hne, hdigits, hv⟩
    rw [parseInt_signed negative hne hdigits, ← hv, if_pos ⟨v.le_toInt, v.toInt_lt⟩,
      Int64.ofInt_toInt]

end Eph.Core
