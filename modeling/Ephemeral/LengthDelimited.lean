import Ephemeral.ChunkedReceive
import Ephemeral.FixFramer
import Ephemeral.StreamCodecs

/-!
# Length-delimited transports

Three formats of the library put the length of a message in front of it.
`LengthPrefixCodec` writes four bytes and takes messages up to 16 MiB, empty ones
included; `LengthPrefixFramer` writes two bytes and has no empty messages, because it
reports the first byte of the payload as the message type; `SoupBinTcpFramer` writes
two bytes that count a type byte as well, and a message without payload is a heartbeat.

Encoders and decoders are modelled with every access to memory checked.  Where the
decoder knows the end of a message from its head, an encoding delimits itself
(`headed_delimits`), and the three formats make a round trip under any chunking
(`length_delimited_round_trip`).
-/

namespace Eph

open ByteOrder Codec Core List Net Option Format
open Fix (FrameError)

variable {x : Bytes × UInt8} {out : OutputBuffer}

/-! ## The formats -/

namespace Codec

/-- `LengthPrefixCodec::encode`. -/
def lengthPrefixEncode (buf payload : Bytes) : Option (Bytes × Except ErrorInfo Nat) :=
  if payload.length > kMaxFrameLen then
    some (buf, .error ⟨.codecOverflow, "LengthPrefixCodec: payload exceeds kMaxFrameLen"⟩)
  else if 4 + payload.length > buf.length then
    some (buf, .error ⟨.bufferFull, "LengthPrefixCodec::encode: destination buffer too small"⟩)
  else do
    let buf ← poke buf 0 (toBe 4 payload.length)
    let buf ← poke buf 4 payload
    some (buf, .ok (4 + payload.length))

/-- `LengthPrefixCodec::decode` with its reads checked. -/
def lengthPrefixReads (view : Bytes) (out : OutputBuffer) : Option (Net.Decoded Unit) :=
  if view.length < 4 then some ⟨(), 0, out, .ok none⟩
  else do
    let payloadLen ← (span view 0 4).map beNat
    if payloadLen > kMaxFrameLen then
      some ⟨(), 0, out, .error ⟨.codecOverflow,
        "LengthPrefixCodec: frame length exceeds kMaxFrameLen"⟩⟩
    else if view.length < 4 + payloadLen then some ⟨(), 0, out, .ok none⟩
    else do
      let frame ← span view 4 payloadLen
      some ⟨(), 4 + payloadLen, out, .ok (some frame)⟩

/-- **The codec reads nothing but its view.** -/
theorem lengthPrefixReads_eq (view : Bytes) (out : OutputBuffer) :
    lengthPrefixReads view out = some (lengthPrefixCodec.decode () view out) := by
  unfold lengthPrefixReads lengthPrefixCodec
  dsimp only
  by_cases hshort : view.length < 4
  · rw [if_pos hshort, if_pos hshort]
  rw [if_neg hshort, if_neg hshort, span_of_le (by omega)]
  simp only [drop_zero, map_some, bind_eq_bind, bind_some]
  split_ifs with hlarge hpart
  · rfl
  · rfl
  · rw [span_of_le (by omega)]
    rfl

end Codec

namespace Core

/-- `DecodedFrame` of the message framers. -/
structure FramedMessage where
  payload : Bytes
  msgType : UInt8
  isControl : Bool
  totalLen : Nat
  deriving DecidableEq

namespace LengthPrefixFramer

def kMaxPayloadLen : Nat := 65535

/-- `LengthPrefixFramer::encode`; the message type is not used, and 0 is returned for a
payload that is refused. -/
def encode (out data : Bytes) (_msgType : UInt8) : Option (Bytes × Nat) :=
  if data.length > kMaxPayloadLen ∨ data.length = 0 then some (out, 0)
  else do
    let out ← poke out 0 (toBe 2 data.length)
    let out ← poke out 2 data
    some (out, 2 + data.length)

/-- `LengthPrefixFramer::decode`. -/
def decode (data : Bytes) : Option (Except FrameError FramedMessage) :=
  if data.length < 2 then some (.error .kIncomplete)
  else do
    let msgLen ← readBe16 data 0
    if msgLen = 0 then some (.error .kInvalidFormat)
    else if data.length < 2 + msgLen.toNat then some (.error .kIncomplete)
    else do
      let payload ← span data 2 msgLen.toNat
      let msgType ← data[2]?
      some (.ok ⟨payload, msgType, false, 2 + msgLen.toNat⟩)

end LengthPrefixFramer

end Core

namespace Itch

namespace Soupbin

def kServerHeartbeat : UInt8 := 72

def kClientHeartbeat : UInt8 := 82

def isHeartbeat (type : UInt8) : Bool :=
  type == kServerHeartbeat || type == kClientHeartbeat

end Soupbin

namespace SoupBinTcpFramer

def kMaxPayloadLen : Nat := 65534

/-- `SoupBinTcpFramer::encode`; the length counts the type byte. -/
def encode (out data : Bytes) (msgType : UInt8) : Option (Bytes × Nat) :=
  if data.length > kMaxPayloadLen then some (out, 0)
  else do
    let wireLen := data.length + 1
    let out ← poke out 0 (toBe 2 wireLen)
    let out ← poke out 2 [msgType]
    let out ← (if data.length > 0 then poke out 3 data else some out)
    some (out, 3 + data.length)

/-- `SoupBinTcpFramer::decode`. -/
def decode (data : Bytes) : Option (Except FrameError FramedMessage) :=
  if data.length < 2 then some (.error .kIncomplete)
  else do
    let msgLen ← readBe16 data 0
    if msgLen < 1 then some (.error .kInvalidFormat)
    else
      let total := 2 + msgLen.toNat
      if data.length < total then some (.error .kIncomplete)
      else do
        let type ← data[2]?
        let payloadLen := msgLen.toNat - 1
        let payload ← (if payloadLen > 0 then span data 3 payloadLen else some [])
        some (.ok ⟨payload, type, Soupbin.isHeartbeat type, total⟩)

end SoupBinTcpFramer

end Itch

/-! ## As a receive loop sees them -/

/-- A framer's verdict: it waits while a message is incomplete. -/
def framerVerdict : Except FrameError FramedMessage →
    Except FrameError (Option (FramedMessage × Nat))
  | .ok f => .ok (some (f, f.totalLen))
  | .error .kIncomplete => .ok none
  | .error e => .error e

/-- A codec's verdict: the bytes it took are the length of the frame. -/
def codecVerdict (d : Net.Decoded Unit) : Except ErrorInfo (Option (Bytes × Nat)) :=
  d.result.map fun frame => frame.map fun payload => (payload, d.consumed)

/-- `LengthPrefixCodec` on memory. -/
def lengthPrefixFormat (out : OutputBuffer) : Format UInt8 Bytes Bytes ErrorInfo where
  encode := fun buf payload =>
    (Codec.lengthPrefixEncode buf payload).map fun r => (r.1, r.2.toOption)
  decode := fun view => (Codec.lengthPrefixReads view out).map codecVerdict

/-- A `MessageFramer` on memory; a return value of 0 is a refusal. -/
def framerFormat (encode : Bytes → Bytes → UInt8 → Option (Bytes × Nat))
    (decode : Bytes → Option (Except FrameError FramedMessage)) :
    Format UInt8 (Bytes × UInt8) FramedMessage FrameError where
  encode := fun buf x =>
    (encode buf x.1 x.2).map fun r => (r.1, if r.2 > 0 then some r.2 else none)
  decode := fun data => (decode data).map framerVerdict

def lengthPrefixFramerFormat : Format UInt8 (Bytes × UInt8) FramedMessage FrameError :=
  framerFormat LengthPrefixFramer.encode LengthPrefixFramer.decode

def soupBinTcpFormat : Format UInt8 (Bytes × UInt8) FramedMessage FrameError :=
  framerFormat Itch.SoupBinTcpFramer.encode Itch.SoupBinTcpFramer.decode

/-- What `LengthPrefixFramer` makes of an encoded payload. -/
def framedPayload (x : Bytes × UInt8) : FramedMessage :=
  ⟨x.1, u8At x.1 0, false, 2 + x.1.length⟩

/-- What `SoupBinTcpFramer` makes of an encoded packet. -/
def soupPacket (x : Bytes × UInt8) : FramedMessage :=
  ⟨x.1, x.2, Itch.Soupbin.isHeartbeat x.2, 3 + x.1.length⟩

/-! ## Encodings -/

/-- Two writes that fill the buffer, on a buffer that already has these contents. -/
theorem poke_again {head body : Bytes} {w : Nat} (hw : head.length = w) :
    poke (head ++ body) 0 head = some (head ++ body) ∧
      poke (head ++ body) w body = some (head ++ body) := by
  refine ⟨@poke_middle [] head body head 0 rfl rfl, ?_⟩
  have hbody := @poke_middle head body [] body w hw.symm rfl
  rwa [append_nil] at hbody

/-- `LengthPrefixCodec` writes the length on four bytes, then the payload. -/
theorem lengthPrefix_encodes_iff {payload text : Bytes} :
    (lengthPrefixFormat out).Encodes payload text ↔
      payload.length ≤ kMaxFrameLen ∧ text = toBe 4 payload.length ++ payload := by
  constructor
  swap
  · rintro ⟨hmax, rfl⟩
    obtain ⟨hhead, hbody⟩ := @poke_again _ payload 4 (length_toBe 4 payload.length)
    refine ⟨toBe 4 payload.length ++ payload, _, 4 + payload.length, ?_,
      (take_of_length_le (by simp)).symm⟩
    unfold lengthPrefixFormat Codec.lengthPrefixEncode
    dsimp only
    rw [if_neg (by omega), if_neg (by simp), hhead, bind_eq_bind, bind_some, hbody]
    rfl
  rintro ⟨buf, mem, n, henc, rfl⟩
  obtain ⟨r, hr, heq⟩ := map_eq_some_iff.mp henc
  unfold Codec.lengthPrefixEncode at hr
  split_ifs at hr with hlarge hfull
  · cases hr
    cases heq
  · cases hr
    cases heq
  obtain ⟨mem₁, hhead, hr⟩ := bind_eq_some_iff.mp hr
  obtain ⟨mem₂, hbody, hr⟩ := bind_eq_some_iff.mp hr
  cases hr
  obtain ⟨rfl, hn⟩ := Prod.mk.inj heq
  cases hn
  exact ⟨by omega, poke_two (length_toBe ..) hhead hbody⟩

/-- A framer's encoding is what it wrote, as far as it says. -/
theorem framer_encodes_iff {encode : Bytes → Bytes → UInt8 → Option (Bytes × Nat)}
    {decode : Bytes → Option (Except FrameError FramedMessage)}
    {text : Bytes} : (framerFormat encode decode).Encodes x text ↔
      ∃ buf mem n, encode buf x.1 x.2 = some (mem, n) ∧ 0 < n ∧ text = mem.take n := by
  constructor
  swap
  · rintro ⟨buf, mem, n, henc, hpos, rfl⟩
    refine ⟨buf, mem, n, ?_, rfl⟩
    unfold framerFormat
    dsimp only
    rw [henc, map_some, if_pos hpos]
  rintro ⟨buf, mem, n, henc, rfl⟩
  obtain ⟨⟨mem', n'⟩, hr, heq⟩ := map_eq_some_iff.mp henc
  obtain ⟨rfl, hn⟩ := Prod.mk.inj heq
  split_ifs at hn with hpos
  cases hn
  exact ⟨buf, mem', n', hr, hpos, rfl⟩

/-- `LengthPrefixFramer` writes the length on two bytes, then the payload. -/
theorem lengthPrefixFramer_encodes_iff {text : Bytes} :
    lengthPrefixFramerFormat.Encodes x text ↔
      0 < x.1.length ∧ x.1.length < 2 ^ 16 ∧ text = toBe 2 x.1.length ++ x.1 := by
  constructor
  swap
  · rintro ⟨hpos, hmax, rfl⟩
    obtain ⟨hhead, hbody⟩ := @poke_again _ x.1 2 (length_toBe 2 x.1.length)
    refine framer_encodes_iff.mpr ⟨toBe 2 x.1.length ++ x.1, _, 2 + x.1.length, ?_, by omega,
      (take_of_length_le (by simp)).symm⟩
    unfold LengthPrefixFramer.encode LengthPrefixFramer.kMaxPayloadLen
    rw [if_neg (by omega), hhead, bind_eq_bind, bind_some, hbody]
    rfl
  intro h
  obtain ⟨buf, mem, n, hr, hpos, rfl⟩ := framer_encodes_iff.mp h
  unfold LengthPrefixFramer.encode at hr
  split_ifs at hr with hrefused
  · cases hr
    cases hpos
  obtain ⟨mem₁, hhead, hr⟩ := bind_eq_some_iff.mp hr
  obtain ⟨mem₂, hbody, hr⟩ := bind_eq_some_iff.mp hr
  cases hr
  unfold LengthPrefixFramer.kMaxPayloadLen at hrefused
  exact ⟨by omega, by omega, poke_two (length_toBe ..) hhead hbody⟩

/-- `SoupBinTcpFramer` writes the length of type and payload on two bytes, then both. -/
theorem soupBinTcp_encodes_iff {text : Bytes} :
    soupBinTcpFormat.Encodes x text ↔
      x.1.length + 1 < 2 ^ 16 ∧ text = toBe 2 (x.1.length + 1) ++ x.2 :: x.1 := by
  constructor
  swap
  · rintro ⟨hmax, rfl⟩
    obtain ⟨hhead, -⟩ := @poke_again _ (x.2 :: x.1) 2 (length_toBe 2 (x.1.length + 1))
    have htype := @poke_middle (toBe 2 (x.1.length + 1)) [x.2] x.1 [x.2] 2 (by simp) rfl
    have hbody := (@poke_again (toBe 2 (x.1.length + 1) ++ [x.2]) x.1 3 (by simp)).2
    rw [append_assoc] at hbody
    refine framer_encodes_iff.mpr ⟨toBe 2 (x.1.length + 1) ++ x.2 :: x.1, _, 3 + x.1.length, ?_,
      by omega,
      (take_of_length_le (by simp; omega)).symm⟩
    unfold Itch.SoupBinTcpFramer.encode Itch.SoupBinTcpFramer.kMaxPayloadLen
    rw [if_neg (by omega)]
    dsimp only
    rw [hhead, bind_eq_bind, bind_some]
    rw [show x.2 :: x.1 = [x.2] ++ x.1 from rfl, htype]
    simp only [bind_some]
    split_ifs
    · rw [hbody]
      rfl
    · rfl
  intro h
  obtain ⟨buf, mem, n, hr, hpos, rfl⟩ := framer_encodes_iff.mp h
  unfold Itch.SoupBinTcpFramer.encode at hr
  by_cases hrefused : x.1.length > Itch.SoupBinTcpFramer.kMaxPayloadLen
  · rw [if_pos hrefused] at hr
    cases hr
    cases hpos
  rw [if_neg hrefused] at hr
  obtain ⟨mem₁, hhead, hr⟩ := bind_eq_some_iff.mp hr
  obtain ⟨mem₂, htype, hr⟩ := bind_eq_some_iff.mp hr
  obtain ⟨mem₃, hbody, hr⟩ := bind_eq_some_iff.mp hr
  obtain ⟨rfl, rfl⟩ := Prod.mk.inj (Option.some.inj hr)
  unfold Itch.SoupBinTcpFramer.kMaxPayloadLen at hrefused
  refine ⟨by omega, ?_⟩
  obtain ⟨old, rfl⟩ := @poke_behind [] _ _ _ _ rfl hhead
  obtain ⟨old', rfl⟩ := poke_behind (length_toBe ..).symm htype
  -- without a payload nothing is written behind the type byte
  have hlast : ∃ old'', mem₃ = (toBe 2 (x.1.length + 1) ++ [x.2] ++ x.1) ++ old'' := by
    split_ifs at hbody with hsome
    · exact poke_behind (by simp) hbody
    obtain rfl := Option.some.inj hbody
    have hnil : x.1 = [] := eq_nil_of_length_eq_zero (by omega)
    exact ⟨old', by rw [hnil]; simp⟩
  obtain ⟨old'', rfl⟩ := hlast
  rw [take_left' (by simp; omega), append_assoc]
  rfl

/-! ## Decoding an encoding -/

/-- **A text with its length in its head delimits itself**: the decoder waits for the head,
then for the body that the head announces. -/
theorem headed_delimits {α μ ε : Type} {F : Format UInt8 α μ ε} {head body : Bytes} {m : μ}
    {f : Bytes → μ} (hpos : 0 < head.length)
    (hshort : ∀ data : Bytes, data.length < head.length → F.decode data = some (.ok none))
    (hhead : ∀ tail, F.decode (head ++ tail) = some (.ok (if tail.length < body.length then none
      else some (f tail, head.length + body.length))))
    (hwhole : ∀ rest, f (body ++ rest) = m) : F.decoder.Delimits (head ++ body) m where
  pos := by
    rw [length_append]
    omega
  whole := by
    intro rest
    rw [append_assoc, decoder, hhead, if_neg (by simp), getD_some, hwhole, length_append]
  part := by
    intro n hn
    rw [length_append] at hn
    rcases Nat.lt_or_ge n head.length with hlt | hge
    · rw [decoder, hshort _ (by rw [length_take]; omega), getD_some]
    · rw [take_append, take_of_length_le hge, decoder, hhead,
        if_pos (by rw [length_take]; omega), getD_some]

/-- `LengthPrefixCodec` on a head and what has arrived behind it. -/
theorem lengthPrefix_decode_head {n : Nat} (hn : n ≤ kMaxFrameLen) (tail : Bytes) :
    (lengthPrefixFormat out).decode (toBe 4 n ++ tail) =
      some (.ok (if tail.length < n then none else some (tail.take n, 4 + n))) := by
  have hlen : beNat (toBe 4 n) = n := by
    rw [beNat_toBe, Nat.mod_eq_of_lt]
    unfold kMaxFrameLen at hn
    omega
  unfold lengthPrefixFormat
  dsimp only
  rw [Codec.lengthPrefixReads_eq, map_some]
  unfold lengthPrefixCodec
  dsimp only
  rw [take_left' (length_toBe ..), drop_left' (length_toBe ..), hlen,
    if_neg (by simp), if_neg (by omega), length_append, length_toBe]
  by_cases hpart : tail.length < n
  · rw [if_pos (by omega), if_pos hpart]
    rfl
  · rw [if_neg (by omega), if_neg hpart]
    rfl

theorem lengthPrefix_decode_short {data : Bytes} (h : data.length < 4) :
    (lengthPrefixFormat out).decode data = some (.ok none) := by
  unfold lengthPrefixFormat
  dsimp only
  rw [Codec.lengthPrefixReads, if_pos h]
  rfl

/-- The 16-bit length in the head of a frame. -/
theorem readBe16_head {n : Nat} (tail : Bytes) :
    readBe16 (toBe 2 n ++ tail) 0 = some (UInt16.ofNat n) := by
  rw [readBe16, span_of_le (by simp)]
  exact congrArg some (be16At_toBe n tail)

/-- `LengthPrefixFramer` on a head and what has arrived behind it. -/
theorem lengthPrefixFramer_decode_head {n : Nat} (hpos : 0 < n) (hn : n < 2 ^ 16) (tail : Bytes) :
    lengthPrefixFramerFormat.decode (toBe 2 n ++ tail) =
      some (.ok (if tail.length < n then none
        else some (⟨tail.take n, u8At tail 0, false, 2 + n⟩, 2 + n))) := by
  have hnat : (UInt16.ofNat n).toNat = n := UInt16.toNat_ofNat_of_lt' hn
  have hzero : ¬UInt16.ofNat n = 0 := by
    intro h
    rw [h] at hnat
    exact absurd hnat (by simp; omega)
  unfold lengthPrefixFramerFormat framerFormat LengthPrefixFramer.decode
  dsimp only
  rw [if_neg (by rw [length_append, length_toBe]; omega), readBe16_head,
    bind_eq_bind, bind_some, if_neg hzero, hnat, length_append, length_toBe]
  by_cases hpart : tail.length < n
  · rw [if_pos (by omega), if_pos hpart]
    rfl
  rw [if_neg (by omega), if_neg hpart, span_of_le (by simp; omega),
    drop_left' (length_toBe ..), getElem?_append_right (by simp), length_toBe]
  cases tail with
  | nil => exact absurd hpos (by simpa using hpart)
  | cons b tail => rfl

/-- `SoupBinTcpFramer` on a head and what has arrived behind it. -/
theorem soupBinTcp_decode_head {n : Nat} (hn : n + 1 < 2 ^ 16) (tail : Bytes) :
    soupBinTcpFormat.decode (toBe 2 (n + 1) ++ tail) =
      some (.ok (if tail.length < n + 1 then none
        else some (⟨(tail.drop 1).take n, u8At tail 0, Itch.Soupbin.isHeartbeat (u8At tail 0),
          2 + (n + 1)⟩, 2 + (n + 1)))) := by
  have hnat : (UInt16.ofNat (n + 1)).toNat = n + 1 := UInt16.toNat_ofNat_of_lt' hn
  have hone : ¬UInt16.ofNat (n + 1) < 1 := by
    rw [UInt16.lt_iff_toNat_lt, hnat]
    simp
  unfold soupBinTcpFormat framerFormat Itch.SoupBinTcpFramer.decode
  dsimp only
  rw [if_neg (by rw [length_append, length_toBe]; omega), readBe16_head,
    bind_eq_bind, bind_some, if_neg hone, hnat, length_append, length_toBe]
  by_cases hpart : tail.length < n + 1
  · rw [if_pos (by omega), if_pos hpart]
    rfl
  rw [if_neg (by omega), if_neg hpart, getElem?_append_right (by simp), length_toBe]
  cases tail with
  | nil => exact absurd (Nat.zero_lt_succ n) hpart
  | cons b tail =>
    have hpayload : (if n + 1 - 1 > 0 then
        span (toBe 2 (n + 1) ++ b :: tail) 3 (n + 1 - 1) else some []) =
        some (tail.take n) := by
      rw [length_cons] at hpart
      rw [Nat.add_sub_cancel]
      split_ifs with hsome
      · rw [span_of_le (by simp; omega), append_cons, drop_left' (by simp)]
      · rw [show n = 0 by omega, take_zero]
    simp only [Nat.sub_self, getElem?_cons_zero, bind_eq_bind, bind_some, hpayload]
    rfl

/-- A framer waits for the two bytes of its length. -/
theorem framer_decode_short {data : Bytes} (h : data.length < 2) :
    lengthPrefixFramerFormat.decode data = some (.ok none) ∧
      soupBinTcpFormat.decode data = some (.ok none) := by
  unfold lengthPrefixFramerFormat soupBinTcpFormat framerFormat LengthPrefixFramer.decode
    Itch.SoupBinTcpFramer.decode
  dsimp only
  rw [if_pos h, if_pos h]
  exact ⟨rfl, rfl⟩

/-- Every byte string of two bytes or more has a head. -/
theorem exists_head {data : Bytes} (h : ¬data.length < 2) :
    ∃ n tail, n < 2 ^ 16 ∧ data = toBe 2 n ++ tail := by
  match data with
  | [] => exact absurd (by decide) h
  | [a] => exact absurd (Nat.lt_succ_self 1) h
  | a :: b :: tail =>
    refine ⟨a.toNat * 256 + b.toNat, tail, ?_, ?_⟩
    · have := a.toNat_lt
      have := b.toNat_lt
      omega
    have hb := b.toNat_lt
    have ha : (a.toNat * 256 + b.toNat) / 256 = a.toNat := by omega
    have hlow : UInt8.ofNat (a.toNat * 256 + b.toNat) = b := by
      apply UInt8.toNat.inj
      rw [UInt8.toNat_ofNat']
      omega
    simp only [toBe, ha, hlow, UInt8.ofNat_toNat]
    rfl

/-- **The framers read nothing but their data.** -/
theorem framer_decode_reads (data : Bytes) :
    lengthPrefixFramerFormat.decode data ≠ none ∧ soupBinTcpFormat.decode data ≠ none := by
  by_cases hshort : data.length < 2
  · rw [(framer_decode_short hshort).1, (framer_decode_short hshort).2]
    exact ⟨nofun, nofun⟩
  obtain ⟨n, tail, hn, rfl⟩ := exists_head hshort
  cases n with
  | zero =>
    -- a zero length is refused before anything else is read
    unfold lengthPrefixFramerFormat soupBinTcpFormat framerFormat LengthPrefixFramer.decode
      Itch.SoupBinTcpFramer.decode
    dsimp only
    rw [if_neg hshort, if_neg hshort, readBe16_head]
    exact ⟨nofun, nofun⟩
  | succ n =>
    rw [lengthPrefixFramer_decode_head (Nat.zero_lt_succ n) hn, soupBinTcp_decode_head hn]
    exact ⟨nofun, nofun⟩

/-! ## The round trips -/

theorem lengthPrefix_roundTrip (out : OutputBuffer) : (lengthPrefixFormat out).RoundTrip id := by
  refine roundTrip_of_delimits ?_ ?_
  · intro view
    unfold lengthPrefixFormat
    dsimp only
    rw [Codec.lengthPrefixReads_eq]
    exact nofun
  · intro payload text h
    obtain ⟨hmax, rfl⟩ := lengthPrefix_encodes_iff.mp h
    exact headed_delimits (by simp)
      (fun data hdata => lengthPrefix_decode_short (by simpa using hdata))
      (lengthPrefix_decode_head hmax) fun rest => take_left' rfl

theorem lengthPrefixFramer_roundTrip : lengthPrefixFramerFormat.RoundTrip framedPayload := by
  refine roundTrip_of_delimits (fun data => (framer_decode_reads data).1) ?_
  rintro ⟨payload, msgType⟩ text h
  obtain ⟨hpos, hmax, rfl⟩ := lengthPrefixFramer_encodes_iff.mp h
  refine headed_delimits (by simp)
    (fun data hdata => (framer_decode_short (by simpa using hdata)).1)
    (lengthPrefixFramer_decode_head hpos hmax) fun rest => ?_
  rw [take_left' rfl, framedPayload]
  cases payload with
  | nil => cases hpos
  | cons b payload => rfl

theorem soupBinTcp_roundTrip : soupBinTcpFormat.RoundTrip soupPacket := by
  refine roundTrip_of_delimits (fun data => (framer_decode_reads data).2) ?_
  rintro ⟨payload, msgType⟩ text h
  obtain ⟨hmax, rfl⟩ := soupBinTcp_encodes_iff.mp h
  refine headed_delimits (by simp)
    (fun data hdata => (framer_decode_short (by simpa using hdata)).2)
    (soupBinTcp_decode_head hmax) fun rest => ?_
  rw [cons_append, drop_one, tail_cons, take_left' rfl, u8At_zero, soupPacket,
    show 3 + payload.length = 2 + (payload.length + 1) by omega]

/-- **Length-delimited transports make a round trip.**  For `LengthPrefixCodec`,
`LengthPrefixFramer` and `SoupBinTcpFramer`: the encodings of accepted messages, one behind the
other and in any chunks, are decoded to the payloads (and, with SoupBinTCP, the packet types) in
order; every strict part of one encoding is incomplete; and the decoders read nothing but the
bytes supplied. -/
theorem length_delimited_round_trip (out : OutputBuffer) :
    (lengthPrefixFormat out).RoundTrip id ∧ lengthPrefixFramerFormat.RoundTrip framedPayload ∧
      soupBinTcpFormat.RoundTrip soupPacket :=
  ⟨lengthPrefix_roundTrip out, lengthPrefixFramer_roundTrip, soupBinTcp_roundTrip⟩

example : Itch.SoupBinTcpFramer.encode [0, 0, 0, 0] [] 82 = some ([0, 1, 82, 0], 3) := by decide

example : Itch.SoupBinTcpFramer.decode [0, 1, 82, 0] = some (.ok ⟨[], 82, true, 3⟩) := by decide

end Eph
