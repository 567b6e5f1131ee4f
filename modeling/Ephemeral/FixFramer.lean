import Ephemeral.FixParser

/-!
# The FIX framer

`FixFramer::decode` finds one message at the front of a byte buffer without
parsing its fields: it reads BodyLength, checks the CheckSum field, and scans
the body for the MsgType.  It is a second, independent reader of the same
header.
-/

namespace Eph.Fix

open ByteOrder Decimal MessageBuilder

inductive FrameError
  | kIncomplete
  | kInvalidFormat
  deriving DecidableEq

/-- A framed message; a FIX frame is never a control frame. -/
structure DecodedFrame where
  payload : Bytes
  msgType : UInt8
  totalLen : Nat
  deriving DecidableEq

/-- The BodyLength digits up to their delimiter, and what follows. -/
def frameBodyLength (maxBodyLength : Nat) : Nat → Bytes → Except FrameError (Nat × Bytes)
  | _, [] => .error .kIncomplete
  | bodyLength, c :: cs =>
    if c == SOH then .ok (bodyLength, cs)
    else if !isDigit c then .error .kInvalidFormat
    else if bodyLength > maxBodyLength / 10 then .error .kInvalidFormat
    else if bodyLength * 10 + digitVal c > maxBodyLength then .error .kInvalidFormat
    else frameBodyLength maxBodyLength (bodyLength * 10 + digitVal c) cs

/-- A tag number, read leniently: characters that are no digits are skipped and
the number wraps.  `none` at the end of the body. -/
def scanTag : UInt32 → Bytes → Option (UInt32 × Bytes)
  | _, [] => none
  | tag, c :: cs =>
    if c == 61 then some (tag, cs)
    else scanTag (if isDigit c then tag * 10 + UInt32.ofNat (digitVal c) else tag) cs

/-- The first character of the first non-empty MsgType value, zero without one. -/
def scanMsgType : Nat → Bytes → UInt8
  | 0, _ => 0
  | fuel + 1, body =>
    if body.isEmpty then 0
    else
      match scanTag 0 body with
      | none => 0
      | some (tag, p) =>
        match splitSoh p with
        | none => 0
        | some (value, rest) =>
          if tag == 35 && !value.isEmpty then u8At value 0 else scanMsgType fuel rest

/-- `decode` once BodyLength is known: `p` is the data after the header. -/
def frameBody (data p : Bytes) (bodyLength : Nat) : Except FrameError DecodedFrame :=
  let headerLen := data.length - p.length
  if data.length < headerLen + 7 || bodyLength > data.length - headerLen - 7 then
    .error .kIncomplete
  else
    let csField := p.drop bodyLength
    if csField.take 3 != [49, 48, 61] then .error .kInvalidFormat
    else if u8At csField 6 != SOH then .error .kInvalidFormat
    else
      match declaredChecksum csField with
      | none => .error .kInvalidFormat
      | some declared =>
        if computeChecksum (data.take (headerLen + bodyLength)) != UInt8.ofNat declared then
          .error .kInvalidFormat
        else
          let total := headerLen + bodyLength + 7
          .ok ⟨data.take total, scanMsgType (bodyLength + 1) (p.take bodyLength), total⟩

/-- `FixFramer::decode`. -/
def frameDecode (maxBodyLength : Nat) (data : Bytes) : Except FrameError DecodedFrame :=
  if data.length < 2 then .error .kIncomplete
  else if data.take 2 != [56, 61] then .error .kInvalidFormat
  else
    match splitSoh (data.drop 2) with
    | none => .error .kIncomplete
    | some (_, p) =>
      if p.length < 2 then .error .kIncomplete
      else if p.take 2 != [57, 61] then .error .kInvalidFormat
      else
        match frameBodyLength maxBodyLength 0 (p.drop 2) with
        | .error e => .error e
        | .ok (bodyLength, p) => frameBody data p bodyLength

/-- Two bytes are enough to look for a tag of one digit. -/
theorem not_short (a b : UInt8) (q : Bytes) : ¬ (a :: b :: q).length < 2 := by
  simp only [List.length_cons]
  omega

/-- On digits, the framer's BodyLength loop is the guarded reader. -/
theorem frameBodyLength_append {maxBodyLength : Nat} {ds : Bytes}
    (hds : ∀ c ∈ ds, isDigit c = true) (acc : Nat) (rest : Bytes) :
    frameBodyLength maxBodyLength acc (ds ++ rest) =
      match bounded maxBodyLength acc ds with
      | some n => frameBodyLength maxBodyLength n rest
      | none => .error .kInvalidFormat := by
  induction ds generalizing acc with
  | nil => rfl
  | cons c cs ih =>
    have hc : isDigit c = true := hds c (by simp)
    have hne : (c == SOH) = false := by simpa using ne_of_isDigit hc soh_not_digit
    have htail := ih (fun d hd => hds d (by simp [hd])) (acc * 10 + digitVal c)
    simp only [List.cons_append, frameBodyLength, bounded, hne, hc]
    by_cases hover : acc * 10 + digitVal c > maxBodyLength
    · simp [hover]
    · have hearly : ¬ acc > maxBodyLength / 10 := by omega
      simp [hover, hearly, htail]

end Eph.Fix
