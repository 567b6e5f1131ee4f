import Mathlib.Algebra.GroupWithZero.Nat
import Mathlib.Data.List.Induction

/-!
# Checked byte spans and big-endian integers

Raw memory is a `List UInt8`.  A C pointer that is dereferenced at an offset
becomes a *checked* read: `span data off len` is the sub-range
`data[off .. off + len)` and is `none` as soon as one byte of it lies outside
`data`.  A parser written with these reads and shown never to return `none`
therefore touches nothing but its input.  `poke` is the checked write.

Big-endian integers are read through `beNat`, the value of a byte string in
base 256, and written by `toBe`; `beNat_toBe` is the round trip.
-/

namespace ByteOrder

open List

/-- A byte string, most significant position first where it is a number. -/
abbrev Bytes := List UInt8

/-- The sub-range `data[off .. off + len)`, or `none` when it leaves `data`. -/
def span (data : Bytes) (off len : Nat) : Option Bytes :=
  if off + len ≤ data.length then some ((data.drop off).take len) else none

variable {data : Bytes}

theorem span_of_le {off len : Nat} (h : off + len ≤ data.length) :
    span data off len = some ((data.drop off).take len) :=
  if_pos h

/-- A checked write: `src` over `mem` from `off` on, or `none` when a byte of it
would land outside. -/
def poke (mem : Bytes) (off : Nat) (src : Bytes) : Option Bytes :=
  if off + src.length ≤ mem.length then
    some (mem.take off ++ src ++ mem.drop (off + src.length))
  else none

theorem poke_of_le {mem : Bytes} {off : Nat} {src : Bytes} (h : off + src.length ≤ mem.length) :
    poke mem off src = some (mem.take off ++ src ++ mem.drop (off + src.length)) :=
  if_pos h

theorem length_of_poke {mem mem' : Bytes} {off : Nat} {src : Bytes}
    (h : poke mem off src = some mem') : mem'.length = mem.length := by
  unfold poke at h
  split at h
  · cases h
    simp only [length_append, length_take, length_drop]
    omega
  · cases h

theorem exists_poke {mem : Bytes} {off : Nat} {src : Bytes} (h : off + src.length ≤ mem.length) :
    ∃ mem', poke mem off src = some mem' ∧ mem'.length = mem.length :=
  ⟨_, poke_of_le h, length_of_poke (poke_of_le h)⟩

/-- Writing over the middle part of a memory of three parts. -/
theorem poke_middle {a old c src : Bytes} {off : Nat} (hoff : off = a.length)
    (h : src.length = old.length) : poke (a ++ (old ++ c)) off src = some (a ++ (src ++ c)) := by
  subst hoff
  have hfits : a.length + src.length ≤ (a ++ (old ++ c)).length := by
    simp only [length_append]
    omega
  have hdrop : (a ++ (old ++ c)).drop (a.length + src.length) = c := by
    rw [← append_assoc]
    exact drop_left' (by rw [length_append, h])
  rw [poke_of_le hfits, take_left' rfl, hdrop, append_assoc]

/-- A write behind what was written before. -/
theorem poke_behind {written old src mem : Bytes} {off : Nat} (hoff : off = written.length)
    (h : poke (written ++ old) off src = some mem) : ∃ old', mem = (written ++ src) ++ old' := by
  subst hoff
  unfold poke at h
  split at h
  · refine ⟨(written ++ old).drop (written.length + src.length), ?_⟩
    rw [← Option.some.inj h, take_left]
  · cases h

/-- Two writes of which the second goes behind the first. -/
theorem poke_append {mem mem₁ mem₂ first second : Bytes} {off : Nat}
    (h₁ : poke mem off first = some mem₁) (h₂ : poke mem₁ (off + first.length) second = some mem₂) :
    poke mem off (first ++ second) = some mem₂ := by
  have hlen := length_of_poke h₁
  unfold poke at h₁ h₂
  split at h₁
  · rename_i hfirst
    cases h₁
    split at h₂
    · rename_i hsecond
      cases h₂
      have hfront : (mem.take off ++ first).length = off + first.length := by
        rw [length_append, length_take_of_le (by omega)]
      rw [poke_of_le (by rw [length_append]; omega), take_left' hfront, ← hfront,
        drop_length_add_append, drop_drop, hfront, length_append, Nat.add_assoc, append_assoc,
        append_assoc, append_assoc, append_assoc]
    · cases h₂
  · cases h₁

/-- Two writes from the start of the buffer on. -/
theorem poke_two {buf head body mem mem' : Bytes} {w : Nat} (hw : head.length = w)
    (hhead : poke buf 0 head = some mem) (hbody : poke mem w body = some mem') :
    mem'.take (w + body.length) = head ++ body := by
  obtain ⟨old, rfl⟩ := @poke_behind [] _ _ _ _ rfl hhead
  obtain ⟨old', rfl⟩ := poke_behind hw.symm hbody
  exact take_left' (by rw [length_append, hw])

/-- The value of a byte string read as a base-256 numeral. -/
def beNat (bs : Bytes) : Nat :=
  bs.foldl (fun acc b => acc * 256 + b.toNat) 0

@[simp] theorem beNat_nil : beNat [] = 0 := rfl

theorem beNat_concat (bs : Bytes) (b : UInt8) : beNat (bs ++ [b]) = beNat bs * 256 + b.toNat := by
  simp [beNat]

/-- The `w` base-256 digits of `n`, most significant first. -/
def toBe : Nat → Nat → Bytes
  | 0, _ => []
  | w + 1, n => toBe w (n / 256) ++ [UInt8.ofNat n]

@[simp] theorem length_toBe (w n : Nat) : (toBe w n).length = w := by
  induction w generalizing n with
  | zero => rfl
  | succ w ih => simp [toBe, ih]

/-- **Round trip.**  Writing `n` on `w` bytes and reading it back gives `n`
modulo `256 ^ w`. -/
theorem beNat_toBe (w n : Nat) : beNat (toBe w n) = n % 256 ^ w := by
  induction w generalizing n with
  | zero => simp [toBe, Nat.mod_one]
  | succ w ih =>
    have hb : (UInt8.ofNat n).toNat = n % 256 := by simp
    rw [toBe, beNat_concat, ih, hb, Nat.pow_succ, Nat.mul_comm (256 ^ w), Nat.mod_mul]
    omega

/-- Writing back what was read. -/
theorem toBe_beNat (bs : Bytes) : toBe bs.length (beNat bs) = bs := by
  induction bs using reverseRecOn with
  | nil => rfl
  | append_singleton bs b ih =>
    have hlt := b.toNat_lt
    have hquot : (beNat bs * 256 + b.toNat) / 256 = beNat bs := by omega
    rw [length_append, length_singleton, beNat_concat, toBe, hquot, ih]
    simp

/-- The digits of an exclusive or. -/
theorem toBe_xor (w m n : Nat) : toBe w (m ^^^ n) = zipWith (· ^^^ ·) (toBe w m) (toBe w n) := by
  induction w generalizing m n with
  | zero => rfl
  | succ w ih =>
    have hquot : (m ^^^ n) / 256 = m / 256 ^^^ n / 256 := Nat.xor_div_two_pow (n := 8)
    simp [toBe, hquot, ih, zipWith_append]

/-- The byte at `off`, zero past the end: for reads already guarded by a
length check. -/
def u8At (data : Bytes) (off : Nat) : UInt8 :=
  data.getD off 0

/-- The big-endian 16-bit word at `off`, for guarded reads. -/
def be16At (data : Bytes) (off : Nat) : UInt16 :=
  UInt16.ofNat (beNat ((data.drop off).take 2))

/-- The big-endian 32-bit word at `off`, for guarded reads. -/
def be32At (data : Bytes) (off : Nat) : UInt32 :=
  UInt32.ofNat (beNat ((data.drop off).take 4))

/-- The big-endian 64-bit word at `off`, for guarded reads. -/
def be64At (data : Bytes) (off : Nat) : UInt64 :=
  UInt64.ofNat (beNat ((data.drop off).take 8))

variable (b : UInt8) (c : Bytes)

@[simp] theorem u8At_zero : u8At (b :: c) 0 = b := rfl

/-- A byte inside a part is the byte of the whole. -/
theorem u8At_take {n i : Nat} (h : i < n) : u8At (data.take n) i = u8At data i := by
  simp [u8At, getD_eq_getElem?_getD, getElem?_take_of_lt h]

/-- A read behind the first byte is a read of the rest. -/
@[simp] theorem u8At_cons (off : Nat) : u8At (b :: c) (off + 1) = u8At c off := rfl

@[simp] theorem be16At_cons (off : Nat) : be16At (b :: c) (off + 1) = be16At c off := rfl

@[simp] theorem be32At_cons (off : Nat) : be32At (b :: c) (off + 1) = be32At c off := rfl

@[simp] theorem be64At_cons (off : Nat) : be64At (b :: c) (off + 1) = be64At c off := rfl

variable {off : Nat}

/-- A read behind the first part of the data is a read of the second. -/
@[simp] theorem u8At_append {a c : Bytes} (h : a.length ≤ off) :
    u8At (a ++ c) off = u8At c (off - a.length) := by
  rw [u8At, u8At, getD_eq_getElem?_getD, getD_eq_getElem?_getD, getElem?_append_right h]

@[simp] theorem be16At_append {a c : Bytes} (h : a.length ≤ off) :
    be16At (a ++ c) off = be16At c (off - a.length) := by
  rw [be16At, be16At, drop_append, drop_eq_nil_of_le h, nil_append]

@[simp] theorem be32At_append {a c : Bytes} (h : a.length ≤ off) :
    be32At (a ++ c) off = be32At c (off - a.length) := by
  rw [be32At, be32At, drop_append, drop_eq_nil_of_le h, nil_append]

/-- Reading back a word that was written. -/
@[simp] theorem be16At_toBe (n : Nat) (c : Bytes) : be16At (toBe 2 n ++ c) 0 = UInt16.ofNat n := by
  rw [be16At, drop_zero, take_left' (length_toBe ..), beNat_toBe]
  exact UInt16.ofNat_mod_size

@[simp] theorem be32At_toBe (n : Nat) (c : Bytes) : be32At (toBe 4 n ++ c) 0 = UInt32.ofNat n := by
  rw [be32At, drop_zero, take_left' (length_toBe ..), beNat_toBe]
  exact UInt32.ofNat_mod_size

@[simp] theorem be64At_toBe (n : Nat) (c : Bytes) : be64At (toBe 8 n ++ c) 0 = UInt64.ofNat n := by
  rw [be64At, drop_zero, take_left' (length_toBe ..), beNat_toBe]
  exact UInt64.ofNat_mod_size

/-- Big-endian 16-bit read at `off`. -/
def readBe16 (data : Bytes) (off : Nat) : Option UInt16 :=
  (span data off 2).map fun s => UInt16.ofNat (beNat s)

/-- Big-endian 64-bit read at `off`. -/
def readBe64 (data : Bytes) (off : Nat) : Option UInt64 :=
  (span data off 8).map fun s => UInt64.ofNat (beNat s)

theorem readBe16_of_le (h : off + 2 ≤ data.length) : ∃ v, readBe16 data off = some v := by
  simp [readBe16, span_of_le h]

theorem readBe64_of_le (h : off + 8 ≤ data.length) : ∃ v, readBe64 data off = some v := by
  simp [readBe64, span_of_le h]

end ByteOrder
