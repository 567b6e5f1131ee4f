import Ephemeral.ByteOrder

/-!
# The reassembly buffer

The stream collects received bytes in one linear buffer with a read and a write
offset.  `ReasmBuffer` carries the bounds of the offsets as fields.  Its meaning is
its `content`, the unread bytes in order: writing extends it at the back, consuming
shortens it at the front, and compacting, which moves the unread bytes inside the
storage, does not change it.
-/

namespace Eph.Net

open ByteOrder List

/-- A linear receive buffer with the unread window `[head, tail)`. -/
structure ReasmBuffer where
  buf : Bytes
  head : Nat
  tail : Nat
  head_le : head ≤ tail
  tail_le : tail ≤ buf.length

namespace ReasmBuffer

/-- A buffer of `cap` bytes, empty. -/
def create (cap : Nat) : ReasmBuffer :=
  ⟨List.replicate cap 0, 0, 0, Nat.le_refl 0, Nat.zero_le _⟩

variable (b : ReasmBuffer)

/-- The number of unread bytes. -/
def readable : Nat := b.tail - b.head

def capacity : Nat := b.buf.length

def writableCapacity : Nat := b.buf.length - b.tail

/-- The unread bytes. -/
def content : Bytes := (b.buf.drop b.head).take b.readable

theorem length_content : b.content.length = b.readable := by
  have h1 := b.head_le
  have h2 := b.tail_le
  rw [content, readable, length_take, length_drop]
  omega

theorem length_content_le : b.content.length ≤ b.capacity := by
  have h1 := b.head_le
  have h2 := b.tail_le
  rw [length_content, readable, capacity]
  omega

/-- Move the unread bytes to the front of the storage. -/
def moveToFront : ReasmBuffer :=
  ⟨b.content ++ b.buf.drop b.readable, 0, b.readable, Nat.zero_le _, by
    rw [length_append, length_content]
    omega⟩

/-- `compact`. -/
def compact : ReasmBuffer :=
  if b.head = 0 then b
  else if b.readable = 0 then ⟨b.buf, 0, 0, Nat.le_refl 0, Nat.zero_le _⟩
  else b.moveToFront

/-- `consume`: skip `n` unread bytes, or all of them. -/
def consume (n : Nat) : ReasmBuffer :=
  if n ≥ b.readable then ⟨b.buf, b.tail, b.tail, Nat.le_refl _, b.tail_le⟩
  else ⟨b.buf, min (b.head + n) b.tail, b.tail, Nat.min_le_right .., b.tail_le⟩

/-- Copy `src` behind the unread bytes and commit it. -/
def write (src : Bytes) (h : src.length ≤ b.writableCapacity) : ReasmBuffer :=
  ⟨b.buf.take b.tail ++ src ++ b.buf.drop (b.tail + src.length), b.head, b.tail + src.length,
    Nat.le_trans b.head_le (Nat.le_add_right ..), by
      have htail := b.tail_le
      have hfits : src.length ≤ b.buf.length - b.tail := h
      simp only [length_append, length_take, length_drop]
      omega⟩

/-- `append`: compact if need be, and fail without effect on the content if there is
still not enough room. -/
def append (src : Bytes) : Option ReasmBuffer :=
  if h : src.length ≤ b.writableCapacity then some (b.write src h)
  else if h : src.length ≤ b.compact.writableCapacity then some (b.compact.write src h)
  else none

@[simp] theorem content_compact : b.compact.content = b.content := by
  unfold compact
  split_ifs with hhead hread
  · rfl
  · have hb : b.content = [] := length_eq_zero_iff.mp (by rw [length_content, hread])
    rw [hb]
    rfl
  · have hmoved :
        b.moveToFront.content = (b.content ++ b.buf.drop b.readable).take b.readable := rfl
    rw [hmoved, take_left' (length_content b)]

theorem capacity_compact : b.compact.capacity = b.capacity := by
  have h1 := b.head_le
  have h2 := b.tail_le
  unfold compact
  split_ifs
  · rfl
  · rfl
  · simp only [moveToFront, capacity, length_append, length_content, length_drop, readable]
    omega

/-- There is nothing to consume in an empty window. -/
theorem consume_of_empty {b : ReasmBuffer} (h : b.content = []) (n : Nat) : b.consume n = b := by
  rw [← length_eq_zero_iff, length_content] at h
  obtain ⟨buf, head, tail, hle, hlen⟩ := b
  obtain rfl : head = tail := Nat.le_antisymm hle (Nat.le_of_sub_eq_zero h)
  rw [consume, if_pos (by omega)]

section

variable (b : ReasmBuffer)

theorem content_write {src : Bytes} (h : src.length ≤ b.writableCapacity) :
    (b.write src h).content = b.content ++ src := by
  have h1 := b.head_le
  have h2 := b.tail_le
  have htake : (b.buf.take b.tail).length = b.tail := by rw [length_take]; omega
  have hread : b.tail + src.length - b.head = b.readable + src.length := by
    rw [readable]
    omega
  have hsplit : (b.buf.take b.tail).drop b.head = b.content := by
    rw [content, readable, drop_take]
  rw [content, readable]
  unfold write
  dsimp only
  rw [hread, append_assoc, drop_append_of_le_length (by omega), hsplit, ← append_assoc]
  exact take_left' (by rw [length_append, length_content])

theorem capacity_write {src : Bytes} (h : src.length ≤ b.writableCapacity) :
    (b.write src h).capacity = b.capacity := by
  have h2 := b.tail_le
  unfold writableCapacity at h
  simp only [write, capacity, length_append, length_take, length_drop]
  omega

/-- After compaction everything but the unread bytes is free. -/
theorem writableCapacity_compact : b.compact.writableCapacity = b.capacity - b.readable := by
  have h1 := b.head_le
  have h2 := b.tail_le
  unfold compact
  split_ifs with hhead hread
  · simp only [writableCapacity, capacity, readable]
    omega
  · simp only [writableCapacity, capacity, hread]
  · have hcap := capacity_compact b
    simp only [compact, hhead, hread, if_false, capacity] at hcap
    have htail : b.moveToFront.tail = b.readable := rfl
    rw [writableCapacity, hcap, htail, capacity]

/-- **A byte queue.**  An append extends the content, and fails exactly when the
content would exceed the capacity. -/
theorem append_spec (src : Bytes) :
    if b.content.length + src.length ≤ b.capacity then
      ∃ b', b.append src = some b' ∧ b'.content = b.content ++ src ∧ b'.capacity = b.capacity
    else b.append src = none := by
  have h1 := b.head_le
  have h2 := b.tail_le
  have hcompact := writableCapacity_compact b
  rw [length_content]
  unfold append
  by_cases hfit : src.length ≤ b.writableCapacity
  · rw [dif_pos hfit, if_pos (by
      simp only [writableCapacity] at hfit
      simp only [readable, capacity]
      omega)]
    exact ⟨_, rfl, content_write b hfit, capacity_write b hfit⟩
  · rw [dif_neg hfit]
    by_cases hfit' : src.length ≤ b.compact.writableCapacity
    · rw [dif_pos hfit', if_pos (by simp only [readable, capacity] at *; omega)]
      refine ⟨_, rfl, ?_, ?_⟩
      · rw [content_write, content_compact]
      · rw [capacity_write, capacity_compact]
    · rw [dif_neg hfit', if_neg (by
        omega)]

end

theorem append_of_fits {b : ReasmBuffer} {src : Bytes}
    (h : b.content.length + src.length ≤ b.capacity) :
    ∃ b', b.append src = some b' ∧ b'.content = b.content ++ src ∧ b'.capacity = b.capacity := by
  have hspec := append_spec b src
  rwa [if_pos h] at hspec

/-- Consuming drops a prefix of the content. -/
theorem content_consume (n : Nat) : (b.consume n).content = b.content.drop n := by
  have h1 := b.head_le
  have h2 := b.tail_le
  unfold consume
  split_ifs with hall
  · rw [drop_eq_nil_of_le (by rw [length_content]; exact hall)]
    simp [content, readable]
  simp only [readable] at hall
  have hhead : min (b.head + n) b.tail = b.head + n := by omega
  simp only [content, readable, hhead, drop_take, drop_drop]
  congr 1
  omega

end ReasmBuffer

end Eph.Net
