import Mathlib.Algebra.BigOperators.Group.List.Basic
import Mathlib.Data.List.Intervals
import Ephemeral.Moldudp64

/-!
# The MoldUDP64 datagram codec and its gap accounting

`Mold64Codec` tracks the next expected sequence number and counts the numbers
it saw skipped.  The frontier `expectedSeq` only moves forward: a datagram
ahead of it contributes a gap, a datagram that reaches past it contributes
newly delivered numbers, and a replay below it contributes neither.

`decode_accounts` is the step statement: the numbers a datagram adds to the
accounts, gaps first and deliveries after them, are exactly the stretch by which
the frontier moved.  `mold64_gap_accounting` is the same statement for every
finite sequence of datagrams.
-/

namespace Eph.Codec

open ByteOrder Core Itch List

/-- The codec state. -/
structure Mold64Codec where
  expectedSeq : UInt64
  gaps : UInt64
  deriving DecidableEq

open Mold64Codec

/-- The constructor: `initial_expected_seq` is the only configuration. -/
def Mold64Codec.create (initialExpectedSeq : UInt64) : Mold64Codec :=
  ⟨initialExpectedSeq, 0⟩

@[simp] theorem Mold64Codec.create_expectedSeq (initial : UInt64) :
    (create initial).expectedSeq = initial := rfl

@[simp] theorem Mold64Codec.create_gaps (initial : UInt64) :
    (create initial).gaps = 0 := rfl

/-- What one call of `decode` leaves behind: the codec, the bytes of the
datagram view not yet consumed, the frames given to the sink, and the result. -/
structure Decoded where
  codec : Mold64Codec
  dgram : Bytes
  frames : List Frame
  result : Except ErrorInfo Nat

variable (c : Mold64Codec)

/-- `Mold64Codec::decode`.  `sink` says whether the callback is callable; the
outer `none` is a read outside the datagram. -/
def Mold64Codec.decode (dgram : Bytes) (sink : Bool) : Option Decoded :=
  if !sink then
    some ⟨c, dgram, [], .error ⟨.invalidConfig, "Mold64Codec::decode: sink is empty"⟩⟩
  else do
    match ← parseMoldudp64Header dgram with
    | .error _ =>
      some ⟨c, [], [], .error ⟨.codecBad, "Mold64Codec: malformed MoldUDP64 header"⟩⟩
    | .ok hdr =>
      if hdr.messageCount = kEndOfSession then
        some ⟨c, [], [], .ok 0⟩
      else do
        let gaps :=
          if hdr.sequenceNumber > c.expectedSeq then
            c.gaps + (hdr.sequenceNumber - c.expectedSeq)
          else c.gaps
        let frames ← parseMoldudp64 dgram
        let delivered := UInt64.ofNat frames.length
        let expectedSeq :=
          if hdr.sequenceNumber + delivered > c.expectedSeq then
            hdr.sequenceNumber + delivered
          else c.expectedSeq
        some ⟨⟨expectedSeq, gaps⟩, [], frames, .ok frames.length⟩

/-- One call of `decode` in a run: the codec before and after it, and the
frames the caller received. -/
structure DecodeStep where
  before : Mold64Codec
  after : Mold64Codec
  frames : List Frame

/-- The sequence numbers a call counted as gaps: as many as the gap counter
grew by, from the frontier on. -/
def DecodeStep.gapSeqs (s : DecodeStep) : List Nat :=
  range' s.before.expectedSeq.toNat (s.after.gaps.toNat - s.before.gaps.toNat)

/-- The sequence numbers a call delivered at or above the frontier. -/
def DecodeStep.newSeqs (s : DecodeStep) : List Nat :=
  (s.frames.map (·.seqNum.toNat)).filter (s.before.expectedSeq.toNat ≤ ·)

/-- A run of `decode` calls, each on a datagram with a callable sink or not. -/
def Mold64Codec.decodeAll (c : Mold64Codec) : List (Bytes × Bool) → Option (List DecodeStep)
  | [] => some []
  | (dgram, sink) :: rest => do
    let d ← c.decode dgram sink
    let steps ← d.codec.decodeAll rest
    some (⟨c, d.codec, d.frames⟩ :: steps)

/-- The codec a run ends with. -/
def finalCodec (steps : List DecodeStep) : Mold64Codec :=
  (steps.getLast?.map (·.after)).getD c

/-- What a call can do.  Either it rejects the datagram or meets the end of the
session, and then neither the codec nor the caller sees anything; or it
delivers consecutive numbers from some `seq`, counts the distance from the
frontier to `seq` as a gap, and moves the frontier past the batch. -/
theorem decode_cases (dgram : Bytes) (sink : Bool) :
    ∃ d, c.decode dgram sink = some d ∧
      ((d.codec = c ∧ d.frames = []) ∨ ∃ seq : UInt64, seq.toNat + d.frames.length < 2 ^ 64 ∧
          d.frames.map (·.seqNum.toNat) = range' seq.toNat d.frames.length ∧
          d.codec.gaps = (if seq > c.expectedSeq then c.gaps + (seq - c.expectedSeq) else c.gaps) ∧
          d.codec.expectedSeq = (if seq + UInt64.ofNat d.frames.length > c.expectedSeq then
            seq + UInt64.ofNat d.frames.length else c.expectedSeq)) := by
  cases sink with
  | false => exact ⟨_, rfl, .inl ⟨rfl, rfl⟩⟩
  | true =>
    obtain ⟨-, herr⟩ | ⟨-, hdr, hhdr⟩ := parseMoldudp64Header_spec dgram
    · simp only [decode, herr, Option.bind_eq_bind, Option.bind_some]
      exact ⟨_, rfl, .inl ⟨rfl, rfl⟩⟩
    obtain ⟨frames, hframes, hwrap, hseqs⟩ := parseMoldudp64_spec dgram hhdr
    simp only [decode, hhdr, hframes, Option.bind_eq_bind, Option.bind_some]
    by_cases hend : hdr.messageCount = kEndOfSession
    · rw [if_pos hend]
      exact ⟨_, rfl, .inl ⟨rfl, rfl⟩⟩
    · rw [if_neg hend]
      exact ⟨_, rfl, .inr ⟨hdr.sequenceNumber, hwrap, hseqs, rfl, rfl⟩⟩

/-- Advancing the frontier is a maximum: the addition cannot wrap. -/
theorem toNat_advance {seq e : UInt64} {k : Nat} (h : seq.toNat + k < 2 ^ 64) :
    (if seq + UInt64.ofNat k > e then seq + UInt64.ofNat k else e).toNat =
      max (seq.toNat + k) e.toNat := by
  have hk : (UInt64.ofNat k).toNat = k := by
    rw [UInt64.toNat_ofNat']
    omega
  have hadd : (seq + UInt64.ofNat k).toNat = seq.toNat + k := by
    rw [UInt64.toNat_add, hk]
    omega
  split_ifs with hgt
  all_goals
    rw [gt_iff_lt, UInt64.lt_iff_toNat_lt, hadd] at hgt
    omega

/-- Counting a gap adds the distance to the frontier: while the counter is at
most the frontier the addition cannot wrap. -/
theorem toNat_countGap {seq e g : UInt64} (h : g.toNat ≤ e.toNat) :
    (if seq > e then g + (seq - e) else g).toNat = g.toNat + (seq.toNat - e.toNat) := by
  have hseq := seq.toNat_lt
  split_ifs with hgt
  all_goals rw [gt_iff_lt, UInt64.lt_iff_toNat_lt] at hgt
  · rw [UInt64.toNat_add,
      UInt64.toNat_sub_of_le _ _ (UInt64.le_iff_toNat_le.mpr (Nat.le_of_lt hgt))]
    omega
  · omega

/-- The part of a block of consecutive numbers that lies at or above `e`. -/
theorem range'_filter_le (e s k : Nat) :
    (range' s k).filter (e ≤ ·) = range' (max s e) (s + k - max s e) := by
  have hblock := List.Ico.filter_le s (s + k) e
  rwa [List.Ico, List.Ico, Nat.add_sub_cancel_left] at hblock

/-- **Step accounting.**  While the gap counter does not exceed the frontier, a
call reads only inside its datagram, never moves the frontier or the counter
back, and accounts for exactly the numbers the frontier passed. -/
theorem decode_accounts {c : Mold64Codec} (hinv : c.gaps.toNat ≤ c.expectedSeq.toNat)
    (dgram : Bytes) (sink : Bool) :
    ∃ d, c.decode dgram sink = some d ∧
      c.expectedSeq.toNat ≤ d.codec.expectedSeq.toNat ∧
      c.gaps.toNat ≤ d.codec.gaps.toNat ∧
      d.codec.gaps.toNat ≤ d.codec.expectedSeq.toNat ∧
      (DecodeStep.mk c d.codec d.frames).gapSeqs ++ (DecodeStep.mk c d.codec d.frames).newSeqs =
        range' c.expectedSeq.toNat
          (d.codec.expectedSeq.toNat - c.expectedSeq.toNat) := by
  obtain ⟨d, hd, ⟨hcodec, hframes⟩ | ⟨seq, hwrap, hseqs, hgaps, hexp⟩⟩ := decode_cases c dgram sink
  · exact ⟨d, hd, by simp [DecodeStep.gapSeqs, DecodeStep.newSeqs, hcodec, hframes, hinv]⟩
  have hg : d.codec.gaps.toNat =
      c.gaps.toNat + (seq.toNat - c.expectedSeq.toNat) := by
    rw [hgaps, toNat_countGap hinv]
  have he : d.codec.expectedSeq.toNat =
      max (seq.toNat + d.frames.length) c.expectedSeq.toNat := by
    rw [hexp, toNat_advance hwrap]
  refine ⟨d, hd, by omega, by omega, by omega, ?_⟩
  -- the gap ends where the batch, or the frontier, begins
  have hstart : max seq.toNat c.expectedSeq.toNat =
      c.expectedSeq.toNat + 1 * (d.codec.gaps.toNat - c.gaps.toNat) := by omega
  simp only [DecodeStep.gapSeqs, DecodeStep.newSeqs, hseqs, range'_filter_le]
  rw [hstart, range'_append]
  congr 1
  omega

/-- The codec after a run is the codec after its first call, run on. -/
@[simp] theorem finalCodec_cons (s : DecodeStep) (steps : List DecodeStep) :
    finalCodec c (s :: steps) = finalCodec s.after steps := by
  cases steps with
  | nil => rfl
  | cons t steps => simp [finalCodec, getLast?_cons]

/-- **Run accounting**, from any codec whose gap counter does not exceed its
frontier. -/
theorem decodeAll_accounts {c : Mold64Codec} (hinv : c.gaps.toNat ≤ c.expectedSeq.toNat)
    (dgrams : List (Bytes × Bool)) :
    ∃ steps, c.decodeAll dgrams = some steps ∧
      (∀ s ∈ steps, s.before.expectedSeq.toNat ≤ s.after.expectedSeq.toNat) ∧
      c.expectedSeq.toNat ≤ (finalCodec c steps).expectedSeq.toNat ∧
      c.gaps.toNat ≤ (finalCodec c steps).gaps.toNat ∧
      steps.flatMap (fun s => s.gapSeqs ++ s.newSeqs) =
        range' c.expectedSeq.toNat
          ((finalCodec c steps).expectedSeq.toNat - c.expectedSeq.toNat) ∧
      (finalCodec c steps).gaps.toNat - c.gaps.toNat = (steps.flatMap (·.gapSeqs)).length := by
  induction dgrams generalizing c with
  | nil => exact ⟨[], rfl, by simp [finalCodec]⟩
  | cons head dgrams ih =>
    obtain ⟨d, hd, hexp, hgaps, hinv', hacc⟩ := decode_accounts hinv head.1 head.2
    obtain ⟨steps, hsteps, hmono, hexp', hgaps', hacc', hcount⟩ := ih hinv'
    refine ⟨⟨c, d.codec, d.frames⟩ :: steps, ?_, ?_, ?_, ?_, ?_, ?_⟩
    · simp only [decodeAll, hd, hsteps, Option.bind_eq_bind, Option.bind_some]
    · simpa using ⟨hexp, hmono⟩
    · rw [finalCodec_cons]
      exact Nat.le_trans hexp hexp'
    · rw [finalCodec_cons]
      exact Nat.le_trans hgaps hgaps'
    · rw [flatMap_cons, hacc, hacc', finalCodec_cons]
      have hjoin : d.codec.expectedSeq.toNat = c.expectedSeq.toNat +
          1 * (d.codec.expectedSeq.toNat - c.expectedSeq.toNat) := by omega
      rw [← Nat.sub_add_sub_cancel hexp' hexp, Nat.add_comm, ← range'_append, ← hjoin]
    · rw [flatMap_cons, length_append, ← hcount, finalCodec_cons]
      simp only [DecodeStep.gapSeqs, length_range']
      omega

/-- **Gap accounting.**  From any initial expected number and for any finite
sequence of datagrams, every read lies inside its datagram, the frontier never
moves back, the gaps and the new deliveries of the calls, put one after the
other, list each number from the initial to the final frontier exactly once,
and the distance the frontier moved is the gap counter plus the number of new
deliveries. -/
theorem mold64_gap_accounting (initial : UInt64) (dgrams : List (Bytes × Bool)) :
    ∃ steps, (create initial).decodeAll dgrams = some steps ∧
      (∀ s ∈ steps, s.before.expectedSeq.toNat ≤ s.after.expectedSeq.toNat) ∧
      steps.flatMap (fun s => s.gapSeqs ++ s.newSeqs) =
        range' initial.toNat
          ((finalCodec (.create initial) steps).expectedSeq.toNat - initial.toNat) ∧
      (finalCodec (.create initial) steps).expectedSeq.toNat - initial.toNat =
        (finalCodec (.create initial) steps).gaps.toNat +
          (steps.flatMap (·.newSeqs)).length := by
  have hinv : (create initial).gaps.toNat ≤
      (create initial).expectedSeq.toNat := by simp
  obtain ⟨steps, hsteps, hmono, -, -, hacc, hcount⟩ := decodeAll_accounts hinv dgrams
  refine ⟨steps, hsteps, hmono, hacc, ?_⟩
  have hlen := congrArg length hacc
  rw [length_range', length_flatMap] at hlen
  have hgaps : (finalCodec (.create initial) steps).gaps.toNat =
      (steps.flatMap (·.gapSeqs)).length := by simpa using hcount
  rw [hgaps, length_flatMap, length_flatMap, ← sum_map_add]
  simpa only [length_append, create_expectedSeq] using hlen.symm

/-- `Mold64Codec::encode` into `buf`: the memory it leaves and the result; the
outer `none` is a write outside the buffer. -/
def Mold64Codec.encode (buf : Bytes) (frame : Frame) : Option (Bytes × Except ErrorInfo Nat) :=
  if frame.payload.length > 0xFFFF then
    some (buf, .error ⟨.codecOverflow, "Mold64Codec::encode: payload exceeds 65535 bytes"⟩)
  else if kHeaderLen + 2 + frame.payload.length > buf.length then
    some (buf, .error ⟨.bufferFull, "Mold64Codec::encode: destination buffer too small"⟩)
  else do
    -- session, number, count of one and message length, one behind the other
    let buf ← poke buf 0 (replicate kSessionLen 0 ++ toBe 8 frame.seqNum.toNat ++ [0x00, 0x01] ++
      toBe 2 frame.payload.length)
    let buf ← poke buf (kHeaderLen + 2) frame.payload
    some (buf, .ok (kHeaderLen + 2 + frame.payload.length))

/-- The datagram of one frame. -/
def singleDatagram (frame : Frame) : Bytes :=
  replicate kSessionLen 0 ++ toBe 8 frame.seqNum.toNat ++ [0x00, 0x01] ++
    toBe 2 frame.payload.length ++ frame.payload

@[simp] theorem length_singleDatagram (frame : Frame) :
    (singleDatagram frame).length = 22 + frame.payload.length := by
  simp [singleDatagram, kSessionLen]
  omega

/-- Its header reads back as it was written. -/
theorem header_singleDatagram (frame : Frame) : parseMoldudp64Header (singleDatagram frame) =
    some (.ok ⟨replicate kSessionLen 0, frame.seqNum, 1⟩) := by
  have hlen := length_singleDatagram frame
  unfold parseMoldudp64Header readBe64 readBe16
  rw [if_neg (by unfold kHeaderLen; omega), span_of_le (by unfold kSessionLen; omega),
    span_of_le (by unfold kSessionLen; omega), span_of_le (by unfold kSessionLen; omega)]
  simp [singleDatagram, take_append, drop_append, beNat_toBe]
  rfl

/-- Its message is the frame, where the number behind it is still a number. -/
theorem messages_singleDatagram {frame : Frame} (hseq : frame.seqNum.toNat < 2 ^ 64 - 1)
    (hpay : frame.payload.length ≤ 65535) :
    parseMoldudp64 (singleDatagram frame) = some [frame] := by
  have hlen := length_singleDatagram frame
  have hmsgLen : readBe16 (singleDatagram frame) 20 =
      some (UInt16.ofNat frame.payload.length) := by
    rw [readBe16, span_of_le (by omega), singleDatagram, append_assoc,
      drop_left' (by simp [kSessionLen]), take_left' (length_toBe ..), Option.map_some, beNat_toBe]
    exact congrArg some UInt16.ofNat_mod_size
  have hpayload : ByteOrder.span (singleDatagram frame) 22 frame.payload.length =
      some frame.payload := by
    rw [span_of_le (by omega), singleDatagram, drop_left' (by simp [kSessionLen]), take_length]
  have hwrap : ¬ frame.seqNum > UInt64.ofNat (2 ^ 64 - 1) - UInt16.toUInt64 1 := by
    rw [gt_iff_lt, UInt64.lt_iff_toNat_lt]
    exact Nat.not_lt.mpr (Nat.le_of_lt_succ hseq)
  unfold parseMoldudp64
  rw [header_singleDatagram]
  dsimp only [Option.bind_eq_bind, Option.bind_some]
  rw [if_neg (by decide), if_neg hwrap, if_neg (by simp [kHeaderLen, hlen])]
  change deliverMessages (singleDatagram frame) frame.seqNum 1 0 20 = some [frame]
  rw [deliverMessages, if_neg (by omega), hmsgLen, Option.bind_eq_bind, Option.bind_some,
    UInt16.toNat_ofNat_of_lt' (Nat.lt_succ_of_le hpay), if_neg (by omega), hpayload]
  simp [deliverMessages]

/-- **Round trip.**  A frame whose number is not the largest and whose payload
fits the length prefix is encoded into any buffer with room for it, and the
datagram, decoded by a codec that expects no later number, delivers exactly that
frame and moves the frontier past it.  The header carries the NUL session. -/
theorem mold64_round_trip {frame : Frame} {buf : Bytes} {c : Mold64Codec}
    (hseq : frame.seqNum.toNat < 2 ^ 64 - 1) (hpay : frame.payload.length ≤ 65535)
    (hroom : 22 + frame.payload.length ≤ buf.length) (hexp : c.expectedSeq ≤ frame.seqNum) :
    ∃ mem n, encode buf frame = some (mem, .ok n) ∧
      parseMoldudp64Header (mem.take n) =
        some (.ok ⟨replicate kSessionLen 0, frame.seqNum, 1⟩) ∧
      c.decode (mem.take n) true =
        some ⟨⟨frame.seqNum + 1, c.gaps + (frame.seqNum - c.expectedSeq)⟩, [], [frame], .ok 1⟩ := by
  obtain ⟨m₁, hhead, hlen⟩ := @exists_poke buf 0 (replicate kSessionLen 0 ++
    toBe 8 frame.seqNum.toNat ++ [0x00, 0x01] ++ toBe 2 frame.payload.length)
    (by simp [kSessionLen]; omega)
  obtain ⟨mem, hbody, -⟩ := exists_poke (hlen ▸ hroom)
  have hwire : mem.take (22 + frame.payload.length) = singleDatagram frame :=
    poke_two (by simp [kSessionLen]) hhead hbody
  refine ⟨mem, 22 + frame.payload.length, ?_, ?_⟩
  · unfold encode
    rw [if_neg (by omega), if_neg (by unfold kHeaderLen; omega), hhead]
    simp only [Option.bind_eq_bind, Option.bind_some]
    exact hbody ▸ rfl
  rw [hwire, decode, header_singleDatagram, messages_singleDatagram hseq hpay]
  have hgap : (if frame.seqNum > c.expectedSeq then c.gaps + (frame.seqNum - c.expectedSeq)
      else c.gaps) = c.gaps + (frame.seqNum - c.expectedSeq) := by
    split
    · rfl
    · rename_i h
      rw [UInt64.le_antisymm (UInt64.not_lt.mp h) hexp, UInt64.sub_self, UInt64.add_zero]
  have hnext : frame.seqNum + 1 > c.expectedSeq := by
    rw [UInt64.le_iff_toNat_le] at hexp
    rw [gt_iff_lt, UInt64.lt_iff_toNat_lt, UInt64.toNat_add]
    simp
    omega
  simp only [Option.bind_eq_bind, Option.bind_some]
  rw [if_neg (by decide), if_neg (by decide), hgap, if_pos (by exact hnext)]
  exact ⟨trivial, rfl⟩

/-- One message, behind a gap of one. -/
theorem mold64_round_trip_two : ∃ mem n, encode (replicate 30 0) ⟨2, [65]⟩ =
      some (mem, .ok n) ∧
    parseMoldudp64Header (mem.take n) = some (.ok ⟨replicate kSessionLen 0, 2, 1⟩) ∧
    (create 1).decode (mem.take n) true =
      some ⟨⟨2 + 1, 0 + (2 - 1)⟩, [], [⟨2, [65]⟩], .ok 1⟩ :=
  mold64_round_trip (by decide) (by decide) (by decide) (by decide)

/-- No session identifier but the NUL one comes back. -/
theorem mold64_session_lost : ¬ ∀ session : Bytes, session.length = kSessionLen →
    ∃ mem n, encode (replicate 22 0) ⟨1, []⟩ = some (mem, .ok n) ∧
      parseMoldudp64Header (mem.take n) = some (.ok ⟨session, 1, 1⟩) := by
  intro h
  obtain ⟨mem, n, henc, hheader⟩ := h (replicate kSessionLen 1) (by decide)
  cases henc
  cases hheader

end Eph.Codec
