import Mathlib.Data.Int.ModEq
import Mathlib.Data.List.Basic
import Mathlib.Data.Nat.Bitwise

/-!
# Rings of slots and the values standing in them

A ring of `n` slots is read at positions that are counted without bound and
taken modulo `n`.  The window `window ring start count` lists the `count`
values found from position `start` on.  As long as a window is shorter than
the ring, writing the position right after it leaves it alone, which is all a
bounded queue ever does to its buffer.

Machine code keeps such positions in a wrapping 64-bit index and masks it with
the ring's size, a power of two.  `Capacity` is such a size, and
`Capacity.slot_ofNat` says that masking the wrapped index finds the slot of the
unbounded position: wrapping modulo `2 ^ 64` is invisible because the ring's
size divides `2 ^ 64`.
-/

namespace Ring

open List

variable {α : Type*} {n : ℕ}

/-! ## Positions -/

/-- Two positions less than one revolution apart lie in different slots. -/
theorem ofNat_ne [NeZero n] {i j : ℕ} (hlt : i < j) (hnear : j < i + n) :
    Fin.ofNat n j ≠ Fin.ofNat n i := by
  intro hsame
  have hmod : j % n = i % n := congrArg Fin.val hsame
  have hdiv : n ∣ j - i := (Nat.modEq_iff_dvd' hlt.le).mp hmod.symm
  have hle : n ≤ j - i := Nat.le_of_dvd (by omega) hdiv
  omega

/-! ## Windows -/

/-- The values in `count` consecutive positions from `start` on. -/
def window [NeZero n] (ring : Fin n → α) (start count : ℕ) : List α :=
  (List.range count).map fun i => ring (Fin.ofNat n (start + i))

section

variable (ring : Fin n → α)

@[simp] theorem length_window [NeZero n] (start count : ℕ) :
    (window ring start count).length = count := by
  simp [window]

theorem getElem?_window [NeZero n] {start count i : ℕ} (h : i < count) :
    (window ring start count)[i]? = some (ring (Fin.ofNat n (start + i))) := by
  simp [window, h]

/-- Dropping the oldest values moves the start of the window. -/
theorem drop_window [NeZero n] (start count k : ℕ) :
    (window ring start count).drop k = window ring (start + k) (count - k) := by
  apply ext_getElem?
  intro i
  rw [getElem?_drop]
  by_cases hi : k + i < count
  · rw [getElem?_window ring hi, getElem?_window ring (by omega), Nat.add_assoc]
  · rw [getElem?_eq_none (by simpa using hi),
      getElem?_eq_none (by simp only [length_window]; omega)]

/-- **One more value.**  Writing the position after the window extends the window by the value
written. -/
theorem window_push [NeZero n] (start : ℕ) {count : ℕ} (h : count < n) (value : α) :
    window (Function.update ring (Fin.ofNat n (start + count)) value) start (count + 1) =
      window ring start count ++ [value] := by
  rw [window, range_succ, map_append, map_singleton, Function.update_self]
  congr 1
  apply map_congr_left
  intro i hi
  have hi : i < count := mem_range.mp hi
  exact Function.update_of_ne (ofNat_ne (by omega) (by omega)).symm _ _

end

/-! ## Power-of-two rings behind a wrapping index -/

/-- A ring size that is a power of two and is held in 64 bits. -/
structure Capacity where
  /-- The number of slots. -/
  value : UInt64
  /-- Exactly one bit is set. -/
  single_bit : ∃ k, value.toNat = 2 ^ k

namespace Capacity

variable (c : Capacity)

/-- The number of slots, as a natural number. -/
def size : ℕ := c.value.toNat

/-- The mask that takes an index to its slot. -/
def mask : UInt64 := c.value - 1

theorem size_pos : 0 < c.size := by
  obtain ⟨k, hk⟩ := c.single_bit
  rw [size, hk]
  exact Nat.two_pow_pos k

instance (c : Capacity) : NeZero c.size := ⟨c.size_pos.ne'⟩

theorem size_lt : c.size < 2 ^ 64 := c.value.toNat_lt

/-- The ring's size divides the period of the index. -/
theorem size_dvd : c.size ∣ 2 ^ 64 := by
  obtain ⟨k, hk⟩ := c.single_bit
  have hlt : 2 ^ k < 2 ^ 64 := hk ▸ c.size_lt
  rw [size, hk]
  exact Nat.pow_dvd_pow 2 ((Nat.pow_lt_pow_iff_right (by decide)).mp hlt).le

theorem toNat_and_mask (index : UInt64) : (index &&& c.mask).toNat = index.toNat % c.size := by
  obtain ⟨k, hk⟩ := c.single_bit
  have hone : (1 : UInt64) ≤ c.value := by
    rw [UInt64.le_iff_toNat_le]
    exact c.size_pos
  rw [UInt64.toNat_and, mask, UInt64.toNat_sub_of_le _ _ hone, size, hk]
  exact Nat.and_two_pow_sub_one_eq_mod _ k

/-- The slot a 64-bit index is masked to. -/
def slot (index : UInt64) : Fin c.size :=
  ⟨(index &&& c.mask).toNat, by
    rw [toNat_and_mask]
    exact Nat.mod_lt _ c.size_pos⟩

/-- **Wrapping is invisible.**  The wrapped index of an unbounded position finds that position's
slot. -/
theorem slot_ofNat (position : ℕ) : c.slot (UInt64.ofNat position) = Fin.ofNat c.size position := by
  apply Fin.ext
  change ((UInt64.ofNat position) &&& c.mask).toNat = position % c.size
  rw [toNat_and_mask, UInt64.toNat_ofNat']
  exact Nat.mod_mod_of_dvd position c.size_dvd

end Capacity

theorem toNat_pos {x : UInt64} (h : ¬x = 0) : 0 < x.toNat := by
  apply Nat.pos_of_ne_zero
  intro hzero
  exact h (UInt64.toNat_inj.mp (by rw [hzero, UInt64.toNat_zero]))

/-- A counter below another one does not wrap when it is incremented. -/
theorem toNat_succ {x y : UInt64} (h : x.toNat < y.toNat) : (x + 1).toNat = x.toNat + 1 := by
  have hlt := y.toNat_lt
  rw [UInt64.toNat_add, UInt64.toNat_one]
  exact Nat.mod_eq_of_lt (by omega)

/-- The distance between two wrapped indices is the distance of their positions, when that is
less than one period. -/
theorem toNat_ofNat_sub {a b : ℕ} (hle : b ≤ a) (hnear : a - b < 2 ^ 64) :
    (UInt64.ofNat a - UInt64.ofNat b).toNat = a - b := by
  rw [← UInt64.ofNat_sub hle]
  exact UInt64.toNat_ofNat_of_lt' hnear

end Ring
