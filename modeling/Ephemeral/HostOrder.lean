import Ephemeral.ByteOrder

/-!
# Words in the memory of a little-endian host

A machine word that is stored as it is lies in memory with its least significant byte first
(`toLe16`, `le16At`).

Loops that go over memory a word at a time give the same on either kind of host: `xorWord` is
one round of such a loop.
-/

namespace ByteOrder

/-! ## Memory -/

/-- A 16-bit word as it lies in memory. -/
def toLe16 (n : UInt16) : Bytes :=
  [UInt8.ofNat n.toNat, UInt8.ofNat (n.toNat / 256)]

/-- The 16-bit word in memory at the start of the data. -/
def le16At (data : Bytes) : UInt16 :=
  UInt16.ofNat ((u8At data 1).toNat * 256 + (u8At data 0).toNat)

theorem le16At_toLe16 (n : UInt16) (rest : Bytes) : le16At (toLe16 n ++ rest) = n := by
  have hlt := n.toNat_lt
  apply UInt16.toNat.inj
  simp only [toLe16, le16At, List.cons_append, List.nil_append, u8At_cons, u8At_zero,
    UInt16.toNat_ofNat', UInt8.toNat_ofNat']
  omega

/-! ## Either byte order -/

open List

/-- The byte order of the hosts that the library is built for. -/
def hostLittle : Bool := true

variable (little : Bool)

/-- The bytes of a word in memory, from the most significant first, or the other way. -/
def inMemory (bytes : Bytes) : Bytes :=
  if little then bytes.reverse else bytes

/-- The word that lies in memory as `block`. -/
def loadWord (block : Bytes) : Nat :=
  beNat (inMemory little block)

/-- A block is loaded as a word, combined with `mask` and stored. -/
def xorWord (mask : Nat) (block : Bytes) : Bytes :=
  inMemory little (toBe block.length (loadWord little block ^^^ mask))

/-- The exclusive or of two words is that of their bytes. -/
theorem xorWord_eq {block bytes : Bytes} (h : block.length = bytes.length) :
    xorWord little (loadWord little bytes) block = zipWith (· ^^^ ·) block bytes := by
  have hback : ∀ bs : Bytes, bs.length = bytes.length → toBe bytes.length (beNat bs) = bs :=
    fun bs hlen => hlen ▸ toBe_beNat bs
  cases little with
  | false | true => simp [xorWord, loadWord, inMemory, toBe_xor, h, hback, reverse_zipWith]

end ByteOrder
