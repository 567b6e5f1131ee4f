import Ephemeral.CoreTypes
import Ephemeral.HostOrder

/-!
# WebSocket frames: the wire layer

`decode_frame` reads one RFC 6455 frame from the head of a byte buffer and
`encode_frame` writes a masked client frame.  Both are modelled with every
error path of the source; the 64-bit payload length is a natural number, the
decoder only ever building values below `2 ^ 64`.

The stream results rest on two facts about the decoder.
`decodeFrame_rawFrame` reads a well-formed frame back whatever follows it, and
`decodeFrame_take` says that every strict prefix of a decodable frame is
reported as incomplete, never as malformed.
-/

namespace Eph.Net

open ByteOrder List

/-- Frame opcodes. -/
def kContinuation : UInt8 := 0x0
def kText : UInt8 := 0x1
def kBinary : UInt8 := 0x2
def kClose : UInt8 := 0x8
def kPing : UInt8 := 0x9
def kPong : UInt8 := 0xA

/-- Close status codes the codec sends. -/
def kNormal : UInt16 := 1000
def kProtocolError : UInt16 := 1002

/-- FIN bit of byte 0 and MASK bit of byte 1. -/
def kFinBit : UInt8 := 0x80
def kMaskBit : UInt8 := 0x80

/-- The most significant bit of the 64-bit length must be zero. -/
def kMaxPayloadLen : Nat := 2 ^ 63 - 1

def kMaxControlPayloadLen : Nat := 125

/-- Two base bytes, eight of extended length and four of key. -/
def kMaxFrameHeaderLen : Nat := 14

/-- `is_valid_close_code`. -/
def isValidCloseCode (code : UInt16) : Bool :=
  (1000 ≤ code && code ≤ 1003) || (1007 ≤ code && code ≤ 1011) ||
    (3000 ≤ code && code ≤ 4999)

/-- What `decode_frame` reports instead of a frame. -/
inductive DecodeError
  | kIncomplete
  | kReservedBits
  | kFragmentedControl
  | kControlPayloadTooLarge
  | kInvalidOpcode
  | kInvalidLengthEncoding
  | kInvalidCloseFrame
  deriving DecidableEq

/-- `decode_error_name`. -/
def decodeErrorName : DecodeError → String
  | .kIncomplete => "incomplete"
  | .kReservedBits => "non-zero RSV bits without negotiated extension"
  | .kFragmentedControl => "fragmented control frame"
  | .kControlPayloadTooLarge => "control frame payload exceeds 125 bytes"
  | .kInvalidOpcode => "reserved opcode (RFC 6455 §5.2)"
  | .kInvalidLengthEncoding => "invalid extended length encoding (RFC 6455 §5.2)"
  | .kInvalidCloseFrame => "close frame payload must be 0 or >= 2 bytes (RFC 6455 §5.5.1)"

/-! ## Masking -/

/-- A masking key: four bytes, applied cyclically. -/
structure MaskKey where
  m0 : UInt8
  m1 : UInt8
  m2 : UInt8
  m3 : UInt8
  deriving DecidableEq

/-- `mask[i & 3]`. -/
def MaskKey.byte (k : MaskKey) (i : Nat) : UInt8 :=
  match i % 4 with
  | 0 => k.m0
  | 1 => k.m1
  | 2 => k.m2
  | _ => k.m3

def MaskKey.toBytes (k : MaskKey) : Bytes :=
  [k.m0, k.m1, k.m2, k.m3]

/-- The key `decode_frame` leaves in place for an unmasked frame. -/
def MaskKey.zero : MaskKey :=
  ⟨0, 0, 0, 0⟩

section Masks

variable (k : MaskKey)

/-- The byte loop over all of `data`. -/
def maskBytes (data : Bytes) : Bytes :=
  data.mapIdx fun i x => x ^^^ k.byte i

/-- The key comes round after four bytes. -/
theorem maskBytes_block (a b c d : UInt8) (rest : Bytes) :
    maskBytes k (a :: b :: c :: d :: rest) =
      (a ^^^ k.m0) :: (b ^^^ k.m1) :: (c ^^^ k.m2) :: (d ^^^ k.m3) :: maskBytes k rest := by
  simp [maskBytes, mapIdx_cons, MaskKey.byte, Nat.add_assoc]

/-- Masking twice with one key gives the payload back. -/
theorem maskBytes_maskBytes (data : Bytes) : maskBytes k (maskBytes k data) = data := by
  refine ext_getElem (by simp only [maskBytes, length_mapIdx]) fun i _ _ => ?_
  simp only [maskBytes, getElem_mapIdx, UInt8.xor_assoc, UInt8.xor_self, UInt8.xor_zero]

@[simp] theorem length_maskBytes (data : Bytes) : (maskBytes k data).length = data.length :=
  length_mapIdx

/-! ## Masking by words

`little` is the byte order of the host. -/

variable (little : Bool)

/-- `mask32`. -/
def MaskKey.mask32 : Nat := loadWord little k.toBytes

/-- `mask64`. -/
def MaskKey.mask64 : Nat := k.mask32 little <<< 32 ||| k.mask32 little

/-- The key twice, as a word. -/
theorem MaskKey.mask64_eq : k.mask64 little = loadWord little (k.toBytes ++ k.toBytes) := by
  have h0 := k.m0.toNat_lt
  have h1 := k.m1.toNat_lt
  have h2 := k.m2.toNat_lt
  have h3 := k.m3.toNat_lt
  have hlt : k.mask32 little < 2 ^ 32 := by
    cases little <;> simp [mask32, loadWord, inMemory, toBytes, beNat] <;> omega
  rw [mask64, ← Nat.shiftLeft_add_eq_or_of_lt hlt]
  cases little <;> simp [mask32, loadWord, inMemory, toBytes, beNat, Nat.shiftLeft_eq] <;> omega

/-- `apply_mask`: whole four-byte blocks first, as words in memory, then the tail byte by
byte. -/
def applyMask : Bytes → Bytes
  | a :: b :: c :: d :: rest =>
    xorWord little (k.mask32 little) [a, b, c, d] ++ applyMask rest
  | tail => maskBytes k tail

/-- `masked_copy`: eight-byte blocks, at most one four-byte block, then bytes. -/
def maskedCopy : Bytes → Bytes
  | a :: b :: c :: d :: e :: f :: g :: h :: rest =>
    xorWord little (k.mask64 little) [a, b, c, d, e, f, g, h] ++ maskedCopy rest
  | a :: b :: c :: d :: tail => xorWord little (k.mask32 little) [a, b, c, d] ++ maskBytes k tail
  | tail => maskBytes k tail

/-- A block of four bytes, combined with the key as a word. -/
theorem xorWord_mask32 (a b c d : UInt8) : xorWord little (k.mask32 little) [a, b, c, d] =
    [a ^^^ k.m0, b ^^^ k.m1, c ^^^ k.m2, d ^^^ k.m3] :=
  xorWord_eq little rfl

/-- Masking in place is masking by bytes. -/
theorem applyMask_eq : ∀ data, applyMask k little data = maskBytes k data
  | a :: b :: c :: d :: rest => by
    rw [applyMask, maskBytes_block, xorWord_mask32, applyMask_eq rest]
    rfl
  | [] | [a] | [a, b] | [a, b, c] => rfl

/-- The fused copy writes the bytes that masking in place would leave. -/
theorem maskedCopy_eq (data : Bytes) : maskedCopy k little data = maskBytes k data := by
  fun_induction maskedCopy k little data with
  | case1 a b c d e f g h rest ih =>
    rw [maskBytes_block, maskBytes_block, ih, k.mask64_eq, xorWord_eq] <;> rfl
  | case2 a b c d tail =>
    rw [maskBytes_block, xorWord_mask32]
    rfl
  | case3 tail => rfl

/-- **Masking by words is masking by bytes**, in either byte order, and twice gives the payload
back. -/
theorem masking_bytewise (payload : Bytes) :
    maskedCopy k little payload = payload.mapIdx (fun i x => x ^^^ k.byte i) ∧
      applyMask k little payload = payload.mapIdx (fun i x => x ^^^ k.byte i) ∧
      maskedCopy k little (maskedCopy k little payload) = payload ∧
      applyMask k little (applyMask k little payload) = payload := by
  simp only [maskedCopy_eq, applyMask_eq, maskBytes_maskBytes, and_self, and_true]
  rfl

end Masks

/-! ## The encoder -/

/-- Byte 1 and the extended length: the shortest of the three forms.
`maskBit` is set in client frames. -/
def lengthField (maskBit : UInt8) (n : Nat) : Bytes :=
  if n < 126 then [maskBit ||| UInt8.ofNat n]
  else if n ≤ 65535 then (maskBit ||| 126) :: toBe 2 n
  else (maskBit ||| 127) :: toBe 8 n

variable (key : Option MaskKey) (f : DecodedFrame) (opcode : UInt8) (payload : Bytes)

/-- `is_valid_payload_len`. -/
def isValidPayloadLen (n : Nat) : Bool :=
  n ≤ kMaxPayloadLen && (opcode &&& 0x08 == 0 || n ≤ kMaxControlPayloadLen)

/-- `encode_frame_header`: the header bytes, none when the length is invalid. -/
def encodeFrameHeader (n : Nat) (fin : Bool) (k : MaskKey) : Bytes :=
  if !isValidPayloadLen opcode n then []
  else
    [(if fin then kFinBit else 0) ||| (opcode &&& 0x0F)] ++ lengthField kMaskBit n ++ k.toBytes

/-- `encode_frame` with the key drawn for it: the bytes written, none when the
header is refused. -/
def encodeFrame (fin : Bool) (k : MaskKey) : Bytes :=
  match encodeFrameHeader opcode payload.length fin k with
  | [] => []
  | header => header ++ maskedCopy k hostLittle payload

/-- `build_close_frame`: the status code and at most 123 bytes of reason. -/
def buildCloseFrame (code : UInt16) (reason : Bytes) (k : MaskKey) : Bytes :=
  encodeFrame kClose (toBe 2 code.toNat ++ reason.take 123) true k

/-- `build_pong_frame`. -/
def buildPongFrame (k : MaskKey) : Bytes :=
  encodeFrame kPong payload true k

/-! ## The decoder -/

/-- A decoded frame.  `payload` is the payload as it lies in the buffer. -/
structure DecodedFrame where
  opcode : UInt8
  fin : Bool
  rsv1 : Bool
  masked : Bool
  payload : Bytes
  maskKey : MaskKey
  totalLen : Nat
  deriving DecidableEq

def DecodedFrame.isData : Bool :=
  f.opcode == kText || f.opcode == kBinary || f.opcode == kContinuation

def DecodedFrame.isPing : Bool := f.opcode == kPing

def DecodedFrame.isPong : Bool := f.opcode == kPong

def DecodedFrame.isClose : Bool := f.opcode == kClose

def DecodedFrame.isControl : Bool := f.opcode &&& 0x08 != 0

/-- The payload with the mask taken off, which every consumer of a masked frame
does before using it. -/
def DecodedFrame.unmasked : Bytes :=
  if f.masked then applyMask f.maskKey hostLittle f.payload else f.payload

/-- `close_status_code`, zero when there is none. -/
def DecodedFrame.closeStatusCode : UInt16 :=
  if !f.isClose || f.payload.length < 2 then 0
  else be16At f.unmasked 0

/-- The payload length and the offset after it; `lenByte` is byte 1 without its
MASK bit. -/
def decodeLength (wire : Bytes) (lenByte : UInt8) : Except DecodeError (Nat × Nat) :=
  if lenByte < 126 then .ok (lenByte.toNat, 2)
  else if lenByte == 126 then
    if wire.length < 2 + 2 then .error .kIncomplete
    else
      let n := beNat ((wire.drop 2).take 2)
      if n < 126 then .error .kInvalidLengthEncoding else .ok (n, 2 + 2)
  else
    if wire.length < 2 + 8 then .error .kIncomplete
    else
      let n := beNat ((wire.drop 2).take 8)
      if n > kMaxPayloadLen then .error .kInvalidLengthEncoding
      else if n ≤ 65535 then .error .kInvalidLengthEncoding
      else .ok (n, 2 + 8)

/-- The masking key and the offset after it. -/
def decodeKey (wire : Bytes) (masked : Bool) (pos : Nat) : Except DecodeError (MaskKey × Nat) :=
  if !masked then .ok (.zero, pos)
  else if wire.length < pos + 4 then .error .kIncomplete
  else
    .ok (⟨u8At wire pos, u8At wire (pos + 1), u8At wire (pos + 2), u8At wire (pos + 3)⟩, pos + 4)

/-- The checks made once the whole frame is in the buffer. -/
def checkFrame (fin : Bool) (n : Nat) : Except DecodeError Unit :=
  if (0x3 ≤ opcode && opcode ≤ 0x7) || (0xB ≤ opcode && opcode ≤ 0xF) then
    .error .kInvalidOpcode
  else if opcode &&& 0x08 != 0 then
    if !fin then .error .kFragmentedControl
    else if n > 125 then .error .kControlPayloadTooLarge
    else if opcode == kClose && n == 1 then .error .kInvalidCloseFrame
    else .ok ()
  else .ok ()

/-- Reserved bits set in byte 0 that no negotiated extension explains. -/
def reservedBits (byte0 : UInt8) (allowRsv1 : Bool) : Bool :=
  let rsvBits := byte0 &&& 0x70
  let allowedMask : UInt8 := if allowRsv1 then 0x40 else 0x00
  rsvBits != 0 && (rsvBits &&& ~~~allowedMask) != 0

/-- `decode_frame`. -/
def decodeFrame (wire : Bytes) (allowRsv1 : Bool) : Except DecodeError DecodedFrame :=
  if wire.length < 2 then .error .kIncomplete
  else do
    let byte0 := u8At wire 0
    if reservedBits byte0 allowRsv1 then .error .kReservedBits
    else do
      let masked := u8At wire 1 &&& kMaskBit != 0
      let (n, pos) ← decodeLength wire (u8At wire 1 &&& 0x7F)
      let (key, pos) ← decodeKey wire masked pos
      if pos > wire.length || n > wire.length - pos then .error .kIncomplete
      else do
        let opcode := byte0 &&& 0x0F
        let fin := byte0 &&& kFinBit != 0
        checkFrame opcode fin n
        .ok ⟨opcode, fin, byte0 &&& 0x70 != 0, masked, (wire.drop pos).take n, key, pos + n⟩

/-! ## Reading a frame back -/

/-- The key field of a frame, empty in a server frame. -/
def keyField : Bytes :=
  (key.map MaskKey.toBytes).getD []

/-- A payload as it lies on the wire. -/
def wirePayload : Bytes :=
  match key with
  | some k => maskBytes k payload
  | none => payload

@[simp] theorem length_wirePayload : (wirePayload key payload).length = payload.length := by
  cases key <;> simp [wirePayload]

/-- A frame on the wire, masked exactly when a key is given. -/
def rawFrame (fin : Bool) (key : Option MaskKey) (payload : Bytes) : Bytes :=
  ((if fin then kFinBit else 0) ||| (opcode &&& 0x0F)) ::
    (lengthField (if key.isSome then kMaskBit else 0) payload.length ++
      (keyField key ++ wirePayload key payload))

/-- Frames the decoder's checks accept. -/
def FrameOk (fin : Bool) (n : Nat) : Prop :=
  opcode < 16 ∧ n ≤ kMaxPayloadLen ∧ checkFrame opcode fin n = .ok ()

variable {opcode : UInt8}

/-- A data frame is fine at any length the format can express. -/
theorem frameOk_data {fin : Bool} {n : Nat}
    (hop : opcode = kContinuation ∨ opcode = kText ∨ opcode = kBinary) (hn : n ≤ kMaxPayloadLen) :
    FrameOk opcode fin n := by
  rcases hop with rfl | rfl | rfl <;> exact ⟨by decide, hn, rfl⟩

/-- A Ping or Pong is fine when final and short. -/
theorem frameOk_control {n : Nat} (hop : opcode = kPing ∨ opcode = kPong)
    (hn : n ≤ kMaxControlPayloadLen) : FrameOk opcode true n := by
  have hshort : ¬ n > 125 := Nat.not_lt.mpr hn
  refine ⟨?_, Nat.le_trans hn (by decide), ?_⟩
  · rcases hop with rfl | rfl <;> decide
  · rcases hop with rfl | rfl <;> simp [checkFrame, kPing, kPong, kClose, hshort]

/-- Byte 0 carries no reserved bit, the opcode and the FIN bit. -/
private theorem byte0_fields (h : opcode < 16) (fin : Bool) :
    let byte0 := (if fin then kFinBit else 0) ||| (opcode &&& 0x0F)
    byte0 &&& 0x70 = 0 ∧ byte0 &&& 0x0F = opcode ∧ (byte0 &&& kFinBit != 0) = fin := by
  have table : ∀ (i : Fin 16) (fin : Bool),
      let byte0 := (if fin then kFinBit else 0) ||| (UInt8.ofNat i &&& 0x0F)
      byte0 &&& 0x70 = 0 ∧ byte0 &&& 0x0F = UInt8.ofNat i ∧
        (byte0 &&& kFinBit != 0) = fin := by decide
  have h16 : opcode.toNat < 16 := UInt8.lt_iff_toNat_lt.mp h
  simpa using table ⟨opcode.toNat, h16⟩ fin

/-- Byte 1 carries the seven-bit length and the MASK bit. -/
private theorem byte1_fields {n : Nat} (h : n < 128) (masked : Bool) :
    let byte1 := (if masked then kMaskBit else 0) ||| UInt8.ofNat n
    byte1 &&& 0x7F = UInt8.ofNat n ∧ (byte1 &&& kMaskBit != 0) = masked := by
  have table : ∀ (i : Fin 128) (masked : Bool),
      let byte1 := (if masked then kMaskBit else 0) ||| UInt8.ofNat i
      byte1 &&& 0x7F = UInt8.ofNat i ∧ (byte1 &&& kMaskBit != 0) = masked := by decide
  exact table ⟨n, h⟩ masked

/-- The length is read back from each of its three forms. -/
private theorem decodeLength_lengthField (byte0 : UInt8) (masked : Bool) {n : Nat}
    (hn : n ≤ kMaxPayloadLen) (rest : Bytes) :
    let wire := byte0 :: (lengthField (if masked then kMaskBit else 0) n ++ rest)
    decodeLength wire (u8At wire 1 &&& 0x7F) =
      .ok (n, 1 + (lengthField (if masked then kMaskBit else 0) n).length) := by
  unfold kMaxPayloadLen at hn
  by_cases h7 : n < 126
  · have hbyte : _ &&& 0x7F = UInt8.ofNat n := (byte1_fields (by omega) masked).1
    have hlt : UInt8.ofNat n < 126 := by
      rw [UInt8.lt_iff_toNat_lt, UInt8.toNat_ofNat']
      exact Nat.lt_of_le_of_lt (Nat.mod_le _ _) h7
    simp [lengthField, h7, u8At, hbyte, decodeLength, hlt]
    omega
  · by_cases h16 : n ≤ 65535
    · have hbyte : ((if masked then kMaskBit else 0) ||| 126) &&& 0x7F = (126 : UInt8) :=
        (byte1_fields (n := 126) (by omega) masked).1
      have hval : beNat (toBe 2 n) = n := by
        rw [beNat_toBe]
        omega
      simp [lengthField, h7, h16, u8At, hbyte, decodeLength, hval]
    · have hbyte : ((if masked then kMaskBit else 0) ||| 127) &&& 0x7F = (127 : UInt8) :=
        (byte1_fields (n := 127) (by omega) masked).1
      have hval : beNat (toBe 8 n) = n := by
        rw [beNat_toBe]
        omega
      simp [lengthField, h7, h16, u8At, hbyte, decodeLength, hval, kMaxPayloadLen]
      rw [if_neg (by omega), if_neg (by omega)]

variable {wire : Bytes}

variable {payload : Bytes}

/-- **Frames are read back.**  A well-formed frame decodes to itself whatever
bytes follow it. -/
theorem decodeFrame_rawFrame {fin : Bool} (h : FrameOk opcode fin payload.length)
    (key : Option MaskKey) (rest : Bytes) (allowRsv1 : Bool) :
    decodeFrame (rawFrame opcode fin key payload ++ rest) allowRsv1 =
      .ok ⟨opcode, fin, false, key.isSome, wirePayload key payload, key.getD .zero,
        (rawFrame opcode fin key payload).length⟩ := by
  obtain ⟨hop, hlen, hcheck⟩ := h
  obtain ⟨hrsv, hnib, hfin⟩ := byte0_fields hop fin
  let byte0 := (if fin then kFinBit else 0) ||| (opcode &&& 0x0F)
  let header := byte0 :: lengthField (if key.isSome then kMaskBit else 0) payload.length
  let wire := header ++ (keyField key ++ (wirePayload key payload ++ rest))
  have hwire : rawFrame opcode fin key payload ++ rest = wire := by
    simp [rawFrame, wire, header, byte0]
  have hfirst : u8At wire 0 = (if fin then kFinBit else 0) ||| (opcode &&& 0x0F) := rfl
  have hmask : (u8At wire 1 &&& kMaskBit != 0) = key.isSome := by
    dsimp only [wire, header]
    unfold lengthField
    split
    · exact (byte1_fields (by omega) key.isSome).2
    split
    · exact (byte1_fields (n := 126) (by omega) key.isSome).2
    · exact (byte1_fields (n := 127) (by omega) key.isSome).2
  have hlength : decodeLength wire (u8At wire 1 &&& 0x7F) =
      .ok (payload.length, header.length) := by
    rw [show header.length = 1 + (lengthField (if key.isSome then kMaskBit else 0)
      payload.length).length by simp [header, Nat.add_comm]]
    exact decodeLength_lengthField byte0 key.isSome hlen _
  have hkey : decodeKey wire key.isSome header.length =
      .ok (key.getD .zero, header.length + (keyField key).length) := by
    cases key with
    | none => rfl
    | some k => simp [wire, decodeKey, keyField, u8At, MaskKey.toBytes]
  have hfield : 1 ≤ (lengthField (if key.isSome then kMaskBit else 0) payload.length).length := by
    unfold lengthField
    split
    · simp
    · split <;> simp
  have hsize : wire.length =
      header.length + (keyField key).length + payload.length + rest.length := by
    simp [wire]
    omega
  have h2 : 2 ≤ wire.length := by
    simp [wire, header]
    omega
  have hfits : ¬ (header.length + (keyField key).length > wire.length ||
      payload.length > wire.length - (header.length + (keyField key).length)) := by
    simp
    omega
  have hpayload : (wire.drop (header.length + (keyField key).length)).take payload.length =
      wirePayload key payload := by
    simp only [wire]
    rw [← append_assoc, drop_left' (by simp), take_left' (by simp)]
  have htotal : header.length + (keyField key).length + payload.length =
      (rawFrame opcode fin key payload).length := by
    simp [rawFrame, header]
    omega
  rw [hwire]
  unfold decodeFrame
  rw [if_neg (by omega)]
  simp only [reservedBits, hfirst, hrsv, hnib, hfin, hmask, hlength, hkey, bne_self_eq_false,
    Bool.false_and, bind, Except.bind, Bool.false_eq_true, if_false]
  rw [if_neg hfits, hcheck, hpayload, htotal]

/-- A Pong is the raw frame with its key. -/
theorem buildPongFrame_eq (h : payload.length ≤ kMaxControlPayloadLen) (k : MaskKey) :
    buildPongFrame payload k = rawFrame kPong true (some k) payload := by
  have hmax : payload.length ≤ kMaxPayloadLen := Nat.le_trans h (by decide)
  have hvalid : isValidPayloadLen kPong payload.length = true := by
    simp [isValidPayloadLen, h, hmax]
  simp [buildPongFrame, encodeFrame, encodeFrameHeader, hvalid, rawFrame, keyField, wirePayload,
    maskedCopy_eq]

/-- Six header bytes suffice for a control frame. -/
theorem length_buildPongFrame (h : payload.length ≤ kMaxControlPayloadLen) (k : MaskKey) :
    (buildPongFrame payload k).length = payload.length + 6 := by
  have hshort : payload.length < 126 := Nat.lt_succ_of_le h
  simp [buildPongFrame_eq h, rawFrame, lengthField, hshort, keyField, MaskKey.toBytes]

/-! ## Bytes behind a frame and bytes missing from it -/

private theorem take_drop_take {m off len : Nat} (h : off + len ≤ m) :
    ((wire.take m).drop off).take len = (wire.drop off).take len := by
  rw [drop_take, take_take, Nat.min_eq_left (by omega)]

/-- What a successful decode has gone through. -/
theorem decodeFrame_inv {allowRsv1 : Bool} {f : DecodedFrame}
    (h : decodeFrame wire allowRsv1 = .ok f) :
    2 ≤ wire.length ∧
      ∃ n pos pos' key,
        decodeLength wire (u8At wire 1 &&& 0x7F) = .ok (n, pos) ∧
        decodeKey wire (u8At wire 1 &&& kMaskBit != 0) pos = .ok (key, pos') ∧
        pos' + n ≤ wire.length ∧ f.totalLen = pos' + n := by
  unfold decodeFrame at h
  split at h
  · cases h
  refine ⟨by omega, ?_⟩
  simp only [bind, Except.bind] at h
  split at h
  · cases h
  cases hlength : decodeLength wire (u8At wire 1 &&& 0x7F) with
  | error e => rw [hlength] at h; cases h
  | ok r =>
    rw [hlength] at h
    dsimp only at h
    cases hkey : decodeKey wire (u8At wire 1 &&& kMaskBit != 0) r.2 with
    | error e => rw [hkey] at h; cases h
    | ok r' =>
      rw [hkey] at h
      dsimp only at h
      split at h
      · cases h
      rename_i hfit
      split at h
      · cases h
      cases h
      simp only [gt_iff_lt, Bool.or_eq_true, decide_eq_true_eq, not_or] at hfit
      exact ⟨r.1, r.2, r'.2, r'.1, rfl, hkey, by omega, rfl⟩

private theorem decodeLength_of_take {lenByte : UInt8} {m : Nat}
    (h : decodeLength (wire.take m) lenByte ≠ .error .kIncomplete) :
    decodeLength wire lenByte = decodeLength (wire.take m) lenByte := by
  unfold decodeLength at h ⊢
  by_cases h7 : lenByte < 126
  · rw [if_pos h7, if_pos h7]
  rw [if_neg h7] at h
  rw [if_neg h7, if_neg h7]
  by_cases h16 : lenByte == 126
  · rw [if_pos h16] at h
    rw [if_pos h16, if_pos h16]
    by_cases hm : (wire.take m).length < 2 + 2
    · exact absurd (if_pos hm) h
    have hlen := hm
    rw [length_take] at hlen
    rw [if_neg hm, if_neg (by omega), take_drop_take (by omega)]
  · rw [if_neg h16] at h
    rw [if_neg h16, if_neg h16]
    by_cases hm : (wire.take m).length < 2 + 8
    · exact absurd (if_pos hm) h
    have hlen := hm
    rw [length_take] at hlen
    rw [if_neg hm, if_neg (by omega), take_drop_take (by omega)]

private theorem decodeKey_of_take {masked : Bool} {pos m : Nat}
    (h : decodeKey (wire.take m) masked pos ≠ .error .kIncomplete) :
    decodeKey wire masked pos = decodeKey (wire.take m) masked pos := by
  unfold decodeKey at h ⊢
  cases masked with
  | false => rfl
  | true =>
    by_cases hm : (wire.take m).length < pos + 4
    · exact absurd (by simp only [hm]; rfl) h
    have hlen := hm
    rw [length_take] at hlen
    rw [u8At_take (by omega), u8At_take (by omega), u8At_take (by omega), u8At_take (by omega)]
    simp only [hm, show ¬ wire.length < pos + 4 by omega]

/-- **Bytes behind a frame do not matter.**  Unless the decoder asks for more bytes, its
answer stands whatever follows. -/
theorem decodeFrame_append {allowRsv1 : Bool} (h : decodeFrame wire allowRsv1 ≠ .error .kIncomplete)
    (more : Bytes) : decodeFrame (wire ++ more) allowRsv1 = decodeFrame wire allowRsv1 := by
  obtain ⟨whole, m, rfl, hwhole⟩ :
      ∃ whole m, wire = whole.take m ∧ wire ++ more = whole :=
    ⟨wire ++ more, wire.length, (take_left' rfl).symm, rfl⟩
  rw [hwhole]
  unfold decodeFrame at h ⊢
  by_cases h2 : (whole.take m).length < 2
  · exact absurd (if_pos h2) h
  have hlen := h2
  rw [length_take] at hlen
  rw [if_neg h2] at h
  rw [if_neg h2, if_neg (by omega)]
  rw [u8At_take (by omega), u8At_take (by omega)] at h ⊢
  simp only [bind, Except.bind] at h ⊢
  by_cases hrsv : reservedBits (u8At whole 0) allowRsv1 = true
  · rw [if_pos hrsv, if_pos hrsv]
  rw [if_neg hrsv] at h
  rw [if_neg hrsv, if_neg hrsv]
  have hlength : decodeLength (whole.take m) (u8At whole 1 &&& 0x7F) ≠
      .error .kIncomplete := fun heq => by rw [heq] at h; exact h rfl
  rw [decodeLength_of_take hlength]
  cases hl : decodeLength (whole.take m) (u8At whole 1 &&& 0x7F) with
  | error e => rfl
  | ok r =>
    rw [hl] at h
    dsimp only at h ⊢
    have hkey : decodeKey (whole.take m) (u8At whole 1 &&& kMaskBit != 0) r.2 ≠
        .error .kIncomplete := fun heq => by rw [heq] at h; exact h rfl
    rw [decodeKey_of_take hkey]
    cases hk : decodeKey (whole.take m) (u8At whole 1 &&& kMaskBit != 0) r.2 with
    | error e => rfl
    | ok r' =>
      rw [hk] at h
      dsimp only at h ⊢
      by_cases hpart : (decide (r'.2 > (whole.take m).length) ||
          decide (r.1 > (whole.take m).length - r'.2)) = true
      · exact absurd (if_pos hpart) h
      rw [if_neg hpart]
      rw [Bool.or_eq_true, decide_eq_true_eq, decide_eq_true_eq, not_or] at hpart
      rw [length_take] at hpart
      rw [if_neg (by simp; omega), take_drop_take (by omega)]

/-- **Prefixes are incomplete.**  Cutting a decodable frame anywhere before its
end makes the decoder ask for more bytes. -/
theorem decodeFrame_take {allowRsv1 : Bool} {f : DecodedFrame} {m : Nat}
    (h : decodeFrame wire allowRsv1 = .ok f) (hm : m < f.totalLen) :
    decodeFrame (wire.take m) allowRsv1 = .error .kIncomplete := by
  by_contra hne
  -- Otherwise the part decodes to the frame, which is longer than the part.
  have hpart := decodeFrame_append hne (wire.drop m)
  rw [take_append_drop, h] at hpart
  obtain ⟨-, n, pos, pos', key, -, -, hfit, htotal⟩ := decodeFrame_inv hpart.symm
  rw [length_take] at hfit
  omega

end Eph.Net
