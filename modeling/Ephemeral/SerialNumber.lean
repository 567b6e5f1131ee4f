import Mathlib.Algebra.GroupWithZero.Nat
import Mathlib.Tactic.Common

/-!
# Serial-number arithmetic on 32 bits

Sequence numbers live on a circle of `2 ^ 32` positions, and the order between
two of them is read off the sign of their difference.  Seen from a base, every
position has an `offset`, and over a stretch shorter than half the circle the
serial order is the order of the offsets: `after_iff_offset`, `offset_inj` and
`offset_add` turn statements about wrapped numbers into statements about natural
numbers.
-/

namespace Serial

/-- `a` lies after `b`: the wrapped difference is positive as a signed word. -/
def after (a b : UInt32) : Bool :=
  decide (0 < (a - b).toInt32.toInt)

variable (base : UInt32)

/-- The position `n` steps after `base`. -/
def fromBase (n : Nat) : UInt32 :=
  base + UInt32.ofNat n

/-- How far `a` lies from `base`, going forward. -/
def offset (base a : UInt32) : Nat :=
  (a - base).toNat

/-- The signed comparison reads the top bit of the wrapped difference. -/
theorem after_iff (a b : UInt32) :
    after a b = true ↔ 0 < (a - b).toNat ∧ (a - b).toNat < 2 ^ 31 := by
  have hlt := (a - b).toNat_lt
  have hint : (a - b).toInt32.toInt = (a - b).toBitVec.toInt := rfl
  have hnat : (a - b).toBitVec.toNat = (a - b).toNat := rfl
  rw [after, decide_eq_true_iff, hint, BitVec.toInt_eq_toNat_cond, hnat]
  split <;> omega

@[simp] theorem offset_self : offset base base = 0 := by
  simp [offset]

theorem fromBase_add (i l : Nat) : fromBase base i + UInt32.ofNat l = fromBase base (i + l) := by
  rw [fromBase, fromBase, UInt32.ofNat_add, UInt32.add_assoc]

/-- A position is recovered from its offset. -/
theorem fromBase_offset (base a : UInt32) : fromBase base (offset base a) = a := by
  rw [fromBase, offset, UInt32.ofNat_toNat, UInt32.add_comm, UInt32.sub_add_cancel]

theorem offset_inj (base a b : UInt32) : offset base a = offset base b ↔ a = b := by
  constructor
  · intro h
    rw [← fromBase_offset base a, h, fromBase_offset]
  · intro h
    rw [h]

/-- Stepping forward adds to the offset as long as it does not wrap. -/
theorem offset_add (base a : UInt32) {l : Nat} (h : offset base a + l < 2 ^ 32) :
    offset base (a + UInt32.ofNat l) = offset base a + l := by
  have hbase := base.toNat_lt
  have ha := a.toNat_lt
  simp only [offset, UInt32.toNat_sub, UInt32.toNat_add, UInt32.toNat_ofNat'] at h ⊢
  omega

theorem offset_fromBase {n : Nat} (h : n < 2 ^ 32) : offset base (fromBase base n) = n := by
  rw [fromBase, offset_add base base (by rw [offset_self]; omega), offset_self, Nat.zero_add]

/-- The wrapped difference in terms of the offsets. -/
theorem toNat_sub_eq_offset (base a b : UInt32) :
    (a - b).toNat = (2 ^ 32 + offset base a - offset base b) % 2 ^ 32 := by
  have hbase := base.toNat_lt
  have ha := a.toNat_lt
  have hb := b.toNat_lt
  simp only [offset, UInt32.toNat_sub]
  omega

/-- Within half the circle the serial order is the order of the offsets. -/
theorem after_iff_offset {a b : UInt32} (ha : offset base a < 2 ^ 31)
    (hb : offset base b < 2 ^ 31) : after a b = true ↔ offset base b < offset base a := by
  rw [after_iff, toNat_sub_eq_offset base]
  omega

end Serial
