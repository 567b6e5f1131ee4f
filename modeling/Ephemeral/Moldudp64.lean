import Ephemeral.CoreTypes

/-!
# MoldUDP64 packets

The header parser and the message loop of `eph/itch/moldudp64.hpp`.  Every
dereference of the packet is a checked read, so a result `none` would be an
access outside the datagram; `parseMoldudp64_spec` shows that it never
happens, and that the messages handed to the callback carry consecutive
sequence numbers that do not wrap.
-/

namespace Eph.Itch

open ByteOrder Option List

/-- Length of the session identifier. -/
def kSessionLen : Nat := 10

/-- Header length: 10 session, 8 sequence number, 2 message count. -/
def kHeaderLen : Nat := 20

/-- Message count that announces the end of the session. -/
def kEndOfSession : UInt16 := 0xFFFF

/-- Failures of the ITCH parsers. -/
inductive ParseError
  | kIncomplete
  | kUnknownType
  | kTruncated
  deriving DecidableEq

/-- A parsed MoldUDP64 packet header. -/
structure MoldUDP64Header where
  session : Bytes
  sequenceNumber : UInt64
  messageCount : UInt16
  deriving DecidableEq

/-- One callback invocation: the sequence number and the message bytes. -/
structure Frame where
  seqNum : UInt64
  payload : Bytes
  deriving DecidableEq

variable (data : Bytes)

/-- `parse_moldudp64_header`; the outer `none` is an out-of-bounds read. -/
def parseMoldudp64Header : Option (Except ParseError MoldUDP64Header) :=
  if data.length < kHeaderLen then
    some (.error .kTruncated)
  else do
    let session ← span data 0 kSessionLen
    let seq ← readBe64 data kSessionLen
    let count ← readBe16 data (kSessionLen + 8)
    some (.ok ⟨session, seq, count⟩)

/-- The message loop of `parse_moldudp64`, with `n` messages still to read,
`i` the loop counter and `offset` the read position.  A truncated length
prefix or body ends the loop. -/
def deliverMessages (data : Bytes) (seq : UInt64) : Nat → Nat → Nat → Option (List Frame)
  | 0, _, _ => some []
  | n + 1, i, offset =>
    if offset + 2 > data.length then
      some []
    else do
      let msgLen ← readBe16 data offset
      if offset + 2 + msgLen.toNat > data.length then
        some []
      else do
        let payload ← span data (offset + 2) msgLen.toNat
        let rest ← deliverMessages data seq n (i + 1) (offset + 2 + msgLen.toNat)
        some (⟨seq + UInt64.ofNat i, payload⟩ :: rest)

/-- `parse_moldudp64`: the callback invocations, in order. -/
def parseMoldudp64 : Option (List Frame) := do
  match ← parseMoldudp64Header data with
  | .error _ => some []
  | .ok hdr =>
    if hdr.messageCount = kEndOfSession then
      some []
    else if hdr.sequenceNumber > UInt64.ofNat (2 ^ 64 - 1) - hdr.messageCount.toUInt64 then
      some []
    else if data.length < kHeaderLen + hdr.messageCount.toNat * 2 then
      some []
    else
      deliverMessages data hdr.sequenceNumber hdr.messageCount.toNat 0 kHeaderLen

/-- The header parser reads only inside the datagram, and fails exactly on
datagrams shorter than a header. -/
theorem parseMoldudp64Header_spec :
    (data.length < kHeaderLen ∧ parseMoldudp64Header data = some (.error .kTruncated)) ∨
      (kHeaderLen ≤ data.length ∧ ∃ hdr, parseMoldudp64Header data = some (.ok hdr)) := by
  by_cases hlen : data.length < kHeaderLen
  · exact .inl ⟨hlen, by simp [parseMoldudp64Header, hlen]⟩
  have hge : 20 ≤ data.length := Nat.le_of_not_lt hlen
  obtain ⟨seq, hseq⟩ := readBe64_of_le
    (show kSessionLen + 8 ≤ data.length by unfold kSessionLen; omega)
  obtain ⟨count, hcount⟩ := readBe16_of_le
    (show kSessionLen + 8 + 2 ≤ data.length by unfold kSessionLen; omega)
  have hsession := span_of_le (show 0 + kSessionLen ≤ data.length by unfold kSessionLen; omega)
  refine .inr ⟨hge, ⟨(data.drop 0).take kSessionLen, seq, count⟩, ?_⟩
  simp only [parseMoldudp64Header, hlen, if_false, hsession, hseq, hcount, bind_eq_bind, bind_some]

/-- The message loop reads only inside the datagram, delivers at most `n`
messages, and numbers them consecutively from `seq + i`. -/
theorem deliverMessages_spec (seq : UInt64) (n i offset : Nat)
    (hwrap : seq.toNat + i + n < 2 ^ 64) :
    ∃ frames, deliverMessages data seq n i offset = some frames ∧ frames.length ≤ n ∧
      frames.map (·.seqNum.toNat) = range' (seq.toNat + i) frames.length := by
  induction n generalizing i offset with
  | zero => exact ⟨[], rfl, Nat.le_refl 0, rfl⟩
  | succ n ih =>
    by_cases hprefix : offset + 2 > data.length
    · exact ⟨[], by simp [deliverMessages, hprefix], by simp, rfl⟩
    obtain ⟨msgLen, hmsg⟩ := readBe16_of_le (show offset + 2 ≤ data.length by omega)
    by_cases hbody : offset + 2 + msgLen.toNat > data.length
    · exact ⟨[], by simp [deliverMessages, hprefix, hmsg, hbody], by simp, rfl⟩
    have hspan := span_of_le (show offset + 2 + msgLen.toNat ≤ data.length by omega)
    obtain ⟨rest, hrest, hcount, hseqs⟩ := ih (i + 1) (offset + 2 + msgLen.toNat) (by omega)
    refine ⟨⟨seq + UInt64.ofNat i, (data.drop (offset + 2)).take msgLen.toNat⟩ :: rest, ?_,
      by simpa using hcount, ?_⟩
    · simp only [deliverMessages, hprefix, if_false, hmsg, hbody, hspan, hrest,
        bind_eq_bind, bind_some]
    have hi : (UInt64.ofNat i).toNat = i := by
      rw [UInt64.toNat_ofNat']
      omega
    have hadd : (seq + UInt64.ofNat i).toNat = seq.toNat + i := by
      rw [UInt64.toNat_add, hi]
      omega
    rw [map_cons, length_cons, range'_succ, hseqs, hadd]
    rfl

/-- **Specification of the packet parser.**  It never reads outside the
datagram; with a well-formed header the delivered messages are numbered
consecutively from the header's sequence number, without wrapping. -/
theorem parseMoldudp64_spec {hdr : MoldUDP64Header}
    (hhdr : parseMoldudp64Header data = some (.ok hdr)) :
    ∃ frames, parseMoldudp64 data = some frames ∧
      hdr.sequenceNumber.toNat + frames.length < 2 ^ 64 ∧
      frames.map (·.seqNum.toNat) = range' hdr.sequenceNumber.toNat frames.length := by
  have hseq := hdr.sequenceNumber.toNat_lt
  have hempty : ∃ frames : List Frame, some [] = some frames ∧
      hdr.sequenceNumber.toNat + frames.length < 2 ^ 64 ∧
      frames.map (·.seqNum.toNat) = range' hdr.sequenceNumber.toNat frames.length :=
    ⟨[], rfl, by simpa using hseq, rfl⟩
  simp only [parseMoldudp64, hhdr, bind_eq_bind, bind_some]
  split_ifs with hend hwrap hshort
  · exact hempty
  · exact hempty
  · exact hempty
  have hcount := hdr.messageCount.toNat_lt
  have hle : hdr.sequenceNumber.toNat + hdr.messageCount.toNat < 2 ^ 64 := by
    have hsub : (UInt64.ofNat (2 ^ 64 - 1) - hdr.messageCount.toUInt64).toNat =
        2 ^ 64 - 1 - hdr.messageCount.toNat := by
      rw [UInt64.toNat_sub_of_le _ _ (by rw [UInt64.le_iff_toNat_le]; simp; omega)]
      simp
    rw [gt_iff_lt, UInt64.lt_iff_toNat_lt, hsub] at hwrap
    omega
  obtain ⟨frames, hframes, hlen, hseqs⟩ :=
    deliverMessages_spec data hdr.sequenceNumber hdr.messageCount.toNat 0 kHeaderLen
      (by omega)
  exact ⟨frames, hframes, by omega, by simpa using hseqs⟩

end Eph.Itch
