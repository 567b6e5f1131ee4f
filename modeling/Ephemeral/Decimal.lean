import Ephemeral.ByteOrder

/-!
# Decimal numerals in ASCII

Text protocols write numbers as ASCII digits and read them back with a guard
against overflow in every round.  `render` writes a number, `value` is the
number a digit string denotes, and `bounded` is the guarded reader: it gives up
as soon as the number read so far passes a limit.  `bounded_eq` says that this
is the same as reading the whole numeral and comparing once, which is what
makes differently phrased guards comparable.
-/

namespace Decimal

open ByteOrder List

/-- The characters `0` to `9`. -/
def isDigit (c : UInt8) : Bool :=
  48 ≤ c && c ≤ 57

/-- The character of a digit. -/
def digitChar (d : Nat) : UInt8 :=
  UInt8.ofNat (48 + d)

/-- What a digit character stands for. -/
def digitVal (c : UInt8) : Nat :=
  c.toNat - 48

theorem isDigit_iff {c : UInt8} : isDigit c = true ↔ 48 ≤ c.toNat ∧ c.toNat ≤ 57 := by
  simp [isDigit, UInt8.le_iff_toNat_le]

theorem digitVal_le {c : UInt8} (h : isDigit c = true) : digitVal c ≤ 9 := by
  rw [isDigit_iff] at h
  unfold digitVal
  omega

theorem toNat_digitChar {d : Nat} (h : d < 10) : (digitChar d).toNat = 48 + d := by
  rw [digitChar, UInt8.toNat_ofNat']
  omega

@[simp] theorem isDigit_digitChar {d : Nat} (h : d < 10) : isDigit (digitChar d) = true := by
  rw [isDigit_iff, toNat_digitChar h]
  omega

@[simp] theorem digitVal_digitChar {d : Nat} (h : d < 10) : digitVal (digitChar d) = d := by
  rw [digitVal, toNat_digitChar h]
  omega

/-- A digit is none of the separators of a text protocol. -/
theorem ne_of_isDigit {c x : UInt8} (h : isDigit c = true) (hx : isDigit x = false) : c ≠ x := by
  rintro rfl
  rw [h] at hx
  cases hx

/-- The number a digit string denotes when `acc` has been read before it. -/
def value (acc : Nat) (cs : Bytes) : Nat :=
  cs.foldl (fun acc c => acc * 10 + digitVal c) acc

@[simp] theorem value_nil (acc : Nat) : value acc [] = acc := rfl

@[simp] theorem value_cons (acc : Nat) (c : UInt8) (cs : Bytes) :
    value acc (c :: cs) = value (acc * 10 + digitVal c) cs := by
  simp only [value, foldl_cons]

theorem value_append (acc : Nat) (cs ds : Bytes) : value acc (cs ++ ds) = value (value acc cs) ds :=
  foldl_append

/-- Reading on never makes the number smaller. -/
theorem le_value (acc : Nat) (cs : Bytes) : acc ≤ value acc cs := by
  induction cs generalizing acc with
  | nil => exact Nat.le_refl acc
  | cons c cs ih =>
    have h := ih (acc * 10 + digitVal c)
    rw [value_cons]
    omega

/-- The guarded reader: `none` on a character that is no digit, and as soon as
the number passes `limit`. -/
def bounded (limit : Nat) : Nat → Bytes → Option Nat
  | acc, [] => some acc
  | acc, c :: cs =>
    if !isDigit c then none
    else if acc * 10 + digitVal c > limit then none
    else bounded limit (acc * 10 + digitVal c) cs

/-- A numeral the guarded reader accepts consists of digits. -/
theorem isDigit_of_bounded {limit acc n : Nat} {cs : Bytes} (h : bounded limit acc cs = some n) :
    ∀ c ∈ cs, isDigit c = true := by
  induction cs generalizing acc with
  | nil => exact nofun
  | cons c cs ih =>
    rw [bounded] at h
    split at h
    · cases h
    split at h
    · cases h
    · rename_i hdigit _
      exact forall_mem_cons.mpr ⟨by simpa using hdigit, ih h⟩

/-- **One comparison is enough.**  On digits, the guarded reader returns the
value exactly when the value is within the limit. -/
theorem bounded_eq {limit acc : Nat} {cs : Bytes} (hcs : ∀ c ∈ cs, isDigit c = true)
    (hacc : acc ≤ limit) :
    bounded limit acc cs = if value acc cs ≤ limit then some (value acc cs) else none := by
  induction cs generalizing acc with
  | nil => simp [bounded, hacc]
  | cons c cs ih =>
    have hc : isDigit c = true := hcs c (by simp)
    by_cases hover : acc * 10 + digitVal c > limit
    · have hgrow := le_value (acc * 10 + digitVal c) cs
      rw [value_cons, if_neg (by omega)]
      simp [bounded, hc, hover]
    · rw [value_cons, ← ih (fun d hd => hcs d (by simp [hd])) (by omega)]
      simp [bounded, hc, hover]

/-- The digits of `n`, least significant first, at most `width` of them. -/
def revDigits : Nat → Nat → Bytes
  | 0, _ => []
  | width + 1, n => if n = 0 then [] else digitChar (n % 10) :: revDigits width (n / 10)

/-- A number in decimal, in a scratch buffer of `width` characters. -/
def render (width n : Nat) : Bytes :=
  if n = 0 then [digitChar 0] else (revDigits width n).reverse

theorem isDigit_of_mem_render {width n : Nat} {c : UInt8} (h : c ∈ render width n) :
    isDigit c = true := by
  have hrev : ∀ width n, ∀ c ∈ revDigits width n, isDigit c = true := by
    intro width
    induction width with
    | zero => simp [revDigits]
    | succ width ih =>
      intro n c hc
      rw [revDigits] at hc
      split at hc
      · cases hc
      rcases mem_cons.mp hc with rfl | hc
      · exact isDigit_digitChar (Nat.mod_lt n (by decide))
      · exact ih (n / 10) c hc
  unfold render at h
  split at h
  · rw [mem_singleton.mp h]
    decide
  · exact hrev width n c (mem_reverse.mp h)

/-- **Round trip.**  A number that fits the buffer is read back. -/
theorem value_render {width n : Nat} (h : n < 10 ^ width) : value 0 (render width n) = n := by
  have hrev : ∀ width n, n < 10 ^ width → value 0 (revDigits width n).reverse = n := by
    intro width
    induction width with
    | zero =>
      intro n hn
      rw [Nat.pow_zero] at hn
      simp [revDigits]
      omega
    | succ width ih =>
      intro n hn
      rw [revDigits]
      split
      · simp_all
      rw [Nat.pow_succ] at hn
      have hdiv : n / 10 < 10 ^ width := by omega
      rw [reverse_cons, value_append, ih _ hdiv, value, foldl_cons, foldl_nil,
        digitVal_digitChar (Nat.mod_lt n (by decide))]
      omega
  unfold render
  split
  · simp_all [value, digitVal, digitChar]
  · exact hrev width n h

/-- A number has as many digits as the powers of ten it lies between say. -/
theorem length_render {width k n : Nat} (hk : k < width) (hlow : 10 ^ k ≤ n)
    (hhigh : n < 10 ^ (k + 1)) : (render width n).length = k + 1 := by
  have hrev : ∀ width k n, k < width → 10 ^ k ≤ n → n < 10 ^ (k + 1) →
      (revDigits width n).length = k + 1 := by
    intro width
    induction width with
    | zero => exact fun _ _ hk => absurd hk (Nat.not_lt_zero _)
    | succ width ih =>
      intro k n hk hlow hhigh
      have hpos : 0 < 10 ^ k := Nat.pow_pos (by decide)
      rw [revDigits, if_neg (by omega), length_cons]
      cases k with
      | zero =>
        have hlast : n / 10 = 0 := by omega
        cases width <;> simp [revDigits, hlast]
      | succ k =>
        rw [Nat.pow_succ] at hlow hhigh
        rw [ih k (n / 10) (by omega) (by omega) (by omega)]
  have hpos : 0 < 10 ^ k := Nat.pow_pos (by decide)
  rw [render, if_neg (by omega), length_reverse, hrev width k n hk hlow hhigh]

theorem render_ne_nil {width n : Nat} (hw : 0 < width) : render width n ≠ [] := by
  obtain ⟨w, rfl⟩ : ∃ w, width = w + 1 := ⟨width - 1, by omega⟩
  unfold render
  split
  · simp
  · simp [revDigits, *]

end Decimal
