import Ephemeral.TlsEncryptor

/-!
# Opening TLS records

There are two decryptors for the read direction.  `TlsInPlaceDecryptor` overwrites the
ciphertext in the receive buffer; `TlsDecryptor` writes into a buffer of its own, and
checks the record header itself.  Each has its own code for the three record formats.

What both compute from a record is `openBody`: the nonce and the additional data that the
format prescribes, from the decryptor's own record number, and the plaintext without what
the format has added.  `TlsInPlaceDecryptor.openInPlace_eq` and `TlsDecryptor.decrypt_eq`
say so, and nothing after them looks at the two decryptors again.
-/

namespace Eph.Net

open ByteOrder Core
open List hiding Vector

/-- `EVP_AEAD_CTX_open` under one key: nonce, additional data and the ciphertext with its
tag to the plaintext, or a failure. -/
abbrev Open := Bytes → Bytes → Bytes → Option Bytes

/-- A cipher that only adds a tag, to try things out. -/
def tagSeal : Seal := fun _ _ plaintext => some (plaintext ++ List.replicate kAuthTagLen 0)

def tagOpen : Open := fun _ _ c =>
  if c.drop (c.length - kAuthTagLen) = List.replicate kAuthTagLen 0 then
    some (c.take (c.length - kAuthTagLen))
  else none

def kExplicitNonceLen : Nat := 8

variable (format : TlsRecordFormat)

/-- `encrypted_size_for`, a 16-bit number. -/
def encryptedSizeFor (plaintextLen : Nat) : Nat :=
  match format with
  | .tls13 => (kRecordHeaderLen + plaintextLen + 1 + kAuthTagLen) % 2 ^ 16
  | .tls12AesGcm => (kRecordHeaderLen + kExplicitNonceLen + plaintextLen + kAuthTagLen) % 2 ^ 16
  | .tls12Chacha20 => (kRecordHeaderLen + plaintextLen + kAuthTagLen) % 2 ^ 16

/-- `plaintext_offset_for`. -/
def plaintextOffsetFor : Nat :=
  if format = .tls12AesGcm then kRecordHeaderLen + kExplicitNonceLen else kRecordHeaderLen

/-- `TlsInPlaceDecryptor`; the key is in the `Open` that its operations take. -/
structure TlsInPlaceDecryptor where
  recordFormat : TlsRecordFormat
  iv : Vector UInt8 kTls13NonceLen
  seq : UInt64
  deriving DecidableEq

/-- A record that was opened in place: the buffer afterwards, and the two results. -/
structure OpenedInPlace where
  buf : Bytes
  plaintextLen : Nat
  innerCt : UInt8
  deriving DecidableEq

/-- Write `data` into a buffer from position `off` on. -/
def overwrite (buf : Bytes) (off : Nat) (data : Bytes) : Bytes :=
  buf.take off ++ data ++ buf.drop (off + data.length)

namespace TlsInPlaceDecryptor

variable (aead : Open) (dec : TlsInPlaceDecryptor) (buf : Bytes)

/-- `open_tls13_`: the last byte of what was sealed is the content type. -/
def openTls13 : Option OpenedInPlace :=
  if buf.length < kRecordHeaderLen + kAuthTagLen + 1 then none
  else
    match aead (buildNonce dec.iv dec.seq) (buf.take kRecordHeaderLen)
        (buf.drop kRecordHeaderLen) with
    | none => none
    | some out =>
      let buf := overwrite buf kRecordHeaderLen out
      if out.length = 0 then none
      else some ⟨buf, out.length - 1, u8At buf (kRecordHeaderLen + out.length - 1)⟩

/-- `open_tls12_aes_gcm_`: the nonce is on the wire, the record number in the additional
data only. -/
def openTls12AesGcm : Option OpenedInPlace :=
  if buf.length < kRecordHeaderLen + kExplicitNonceLen + kAuthTagLen then none
  else
    let contentType := u8At buf 0
    let ctAndTagLen := buf.length - kRecordHeaderLen - kExplicitNonceLen
    let nonce := dec.iv.toList.take kImplicitIvLen ++
      (buf.drop kRecordHeaderLen).take kExplicitNonceLen
    let region := kRecordHeaderLen + kExplicitNonceLen
    match aead nonce (buildAad dec.seq contentType (ctAndTagLen - kAuthTagLen))
        (buf.drop region) with
    | none => none
    | some out => some ⟨overwrite buf region out, out.length, contentType⟩

/-- `open_tls12_chacha20_`. -/
def openTls12Chacha20 : Option OpenedInPlace :=
  if buf.length < kRecordHeaderLen + kAuthTagLen then none
  else
    let contentType := u8At buf 0
    let payloadLen := buf.length - kRecordHeaderLen
    match aead (buildNonceChacha20 dec.iv dec.seq)
        (buildAad dec.seq contentType (payloadLen - kAuthTagLen)) (buf.drop kRecordHeaderLen) with
    | none => none
    | some out => some ⟨overwrite buf kRecordHeaderLen out, out.length, contentType⟩

/-- The switch of `open_in_place` over the record format. -/
def openRecord : Option OpenedInPlace :=
  match dec.recordFormat with
  | .tls13 => dec.openTls13 aead buf
  | .tls12AesGcm => dec.openTls12AesGcm aead buf
  | .tls12Chacha20 => dec.openTls12Chacha20 aead buf

/-- `open_in_place`: the record number is spent only if the record was opened. -/
def openInPlace : Option OpenedInPlace × TlsInPlaceDecryptor :=
  if dec.seq ≥ kMaxSequenceNumber then (none, dec)
  else
    match dec.openRecord aead buf with
    | none => (none, dec)
    | some o => (some o, { dec with seq := dec.seq + 1 })

end TlsInPlaceDecryptor

/-- `TlsDecryptor`. -/
structure TlsDecryptor where
  recordFormat : TlsRecordFormat
  iv : Vector UInt8 kTls13NonceLen
  seq : UInt64
  deriving DecidableEq

namespace TlsDecryptor

variable (aead : Open) (dec : TlsDecryptor) (record : Bytes) (payloadLen : Nat)

/-- `decrypt_tls13_`. -/
def decryptTls13 : Option (Bytes × UInt8) :=
  if payloadLen < kAuthTagLen + 1 then none
  else
    match aead (buildNonce dec.iv dec.seq) (record.take kRecordHeaderLen)
        ((record.drop kRecordHeaderLen).take payloadLen) with
    | none => none
    | some out =>
      if out.length = 0 then none
      else some (out.take (out.length - 1), u8At out (out.length - 1))

/-- `decrypt_tls12_aes_gcm_`. -/
def decryptTls12AesGcm : Option (Bytes × UInt8) :=
  if payloadLen < kExplicitNonceLen + kAuthTagLen then none
  else
    let contentType := u8At record 0
    let explicitNonce := (record.drop kRecordHeaderLen).take kExplicitNonceLen
    let ctAndTagLen := payloadLen - kExplicitNonceLen
    match aead (dec.iv.toList.take kImplicitIvLen ++ explicitNonce)
        (buildAad dec.seq contentType (ctAndTagLen - kAuthTagLen))
        ((record.drop (kRecordHeaderLen + kExplicitNonceLen)).take ctAndTagLen) with
    | none => none
    | some out => some (out, contentType)

/-- `decrypt_tls12_chacha20_`. -/
def decryptTls12Chacha20 : Option (Bytes × UInt8) :=
  if payloadLen < kAuthTagLen then none
  else
    let contentType := u8At record 0
    match aead (buildNonceChacha20 dec.iv dec.seq)
        (buildAad dec.seq contentType (payloadLen - kAuthTagLen))
        ((record.drop kRecordHeaderLen).take payloadLen) with
    | none => none
    | some out => some (out, contentType)

/-- The switch of `decrypt` over the record format. -/
def decryptRecord : Option (Bytes × UInt8) :=
  match dec.recordFormat with
  | .tls13 => dec.decryptTls13 aead record payloadLen
  | .tls12AesGcm => dec.decryptTls12AesGcm aead record payloadLen
  | .tls12Chacha20 => dec.decryptTls12Chacha20 aead record payloadLen

/-- `decrypt`: the plaintext and its content type.  Bytes behind the payload are ignored. -/
def decrypt : Option (Bytes × UInt8) × TlsDecryptor :=
  if record.length < kRecordHeaderLen + kAuthTagLen then (none, dec)
  else if dec.seq ≥ kMaxSequenceNumber then (none, dec)
  else
    match parseRecordHeader record with
    | none => (none, dec)
    | some payloadLen =>
      if kRecordHeaderLen + payloadLen > record.length then (none, dec)
      else
        match dec.decryptRecord aead record payloadLen with
        | none => (none, dec)
        | some out => (some out, { dec with seq := dec.seq + 1 })

end TlsDecryptor

/-! ## What the two have in common -/

/-- What the format makes of the last record that was opened: under TLS 1.3 the content type
is its last byte. -/
def splitInner (out : Bytes) : Option (Bytes × UInt8) :=
  if out.length = 0 then none else some (out.take (out.length - 1), u8At out (out.length - 1))

@[simp] theorem length_writeRecordHeader (contentType : UInt8) (n : Nat) :
    (writeRecordHeader contentType n).length = kRecordHeaderLen := by
  simp [writeRecordHeader, kRecordHeaderLen]

@[simp] theorem splitInner_concat (plaintext : Bytes) (ct : UInt8) :
    splitInner (plaintext ++ [ct]) = some (plaintext, ct) := by
  simp [splitInner, u8At]

/-- Open the payload of a record under a format, an IV and a record number. -/
def openBody (aead : Open) (format : TlsRecordFormat) (iv : Vector UInt8 kTls13NonceLen)
    (seq : UInt64) (header payload : Bytes) : Option (Bytes × UInt8) :=
  match format with
  | .tls13 =>
    if payload.length < kAuthTagLen + 1 then none
    else (aead (buildNonce iv seq) header payload).bind splitInner
  | .tls12AesGcm =>
    if payload.length < kExplicitNonceLen + kAuthTagLen then none
    else (aead (iv.toList.take kImplicitIvLen ++ payload.take kExplicitNonceLen)
      (buildAad seq (u8At header 0) (payload.length - kExplicitNonceLen - kAuthTagLen))
      (payload.drop kExplicitNonceLen)).map (·, u8At header 0)
  | .tls12Chacha20 =>
    if payload.length < kAuthTagLen then none
    else (aead (buildNonceChacha20 iv seq)
      (buildAad seq (u8At header 0) (payload.length - kAuthTagLen)) payload).map
      (·, u8At header 0)

/-- What was written can be read back. -/
theorem drop_overwrite {buf data : Bytes} {off : Nat} (h : off ≤ buf.length) (n : Nat)
    (hn : n ≤ data.length) : ((overwrite buf off data).drop off).take n = data.take n := by
  have hlen : (buf.take off).length = off := by
    rw [length_take]
    omega
  rw [overwrite, append_assoc, drop_left' hlen, take_append_of_le_length hn]

theorem u8At_overwrite {buf data : Bytes} {off i : Nat} (h : off ≤ buf.length)
    (hi : i < data.length) : u8At (overwrite buf off data) (off + i) = u8At data i := by
  have hread := drop_overwrite h (i + 1) hi
  have hlast : u8At (data.take (i + 1)) i = u8At data i := u8At_take (Nat.lt_succ_self i)
  rw [← hlast, ← hread, u8At_take (Nat.lt_succ_self i), u8At, u8At,
    getD_eq_getElem?_getD, getD_eq_getElem?_getD, getElem?_drop]

/-- The plaintext that the caller finds in the buffer, and its content type. -/
def OpenedInPlace.content (o : OpenedInPlace) : Bytes × UInt8 :=
  ((o.buf.drop (plaintextOffsetFor format)).take o.plaintextLen, o.innerCt)

theorem OpenedInPlace.content_eq {buf out : Bytes} {n : Nat}
    (ct : UInt8) (h : plaintextOffsetFor format ≤ buf.length) (hn : n ≤ out.length) :
    (OpenedInPlace.mk (overwrite buf (plaintextOffsetFor format) out) n ct).content format =
      (out.take n, ct) :=
  congrArg (Prod.mk · ct) (drop_overwrite h n hn)

theorem OpenedInPlace.content_whole {buf out : Bytes} (ct : UInt8)
    (h : plaintextOffsetFor format ≤ buf.length) :
    (OpenedInPlace.mk (overwrite buf (plaintextOffsetFor format) out) out.length ct).content
      format = (out, ct) := by
  rw [content_eq format ct h (Nat.le_refl _), take_length]

namespace TlsInPlaceDecryptor

section

variable (aead : Open) (dec : TlsInPlaceDecryptor) (buf : Bytes)

include aead dec buf

theorem openRecord_eq :
    (dec.openRecord aead buf).map (·.content dec.recordFormat) =
      openBody aead dec.recordFormat dec.iv dec.seq (buf.take kRecordHeaderLen)
        (buf.drop kRecordHeaderLen) := by
  have htag : kAuthTagLen = 16 := rfl
  have hfirst : u8At (buf.take kRecordHeaderLen) 0 = u8At buf 0 := u8At_take (by decide)
  obtain ⟨format, iv, seq⟩ := dec
  cases format with
  | tls13 =>
    simp only [openRecord, openTls13, openBody, length_drop]
    by_cases hshort : buf.length < kRecordHeaderLen + kAuthTagLen + 1
    · rw [if_pos hshort, if_pos (by omega), Option.map_none]
    rw [if_neg hshort, if_neg (by omega)]
    generalize aead _ _ _ = opened
    cases opened with
    | none => rfl
    | some out =>
      dsimp only [Option.bind_some, splitInner]
      split
      · rfl
      have hlast : u8At (overwrite buf kRecordHeaderLen out)
          (kRecordHeaderLen + out.length - 1) = u8At out (out.length - 1) := by
        rw [Nat.add_sub_assoc (by omega)]
        exact u8At_overwrite (by omega) (by omega)
      rw [Option.map_some, hlast]
      exact congrArg some (OpenedInPlace.content_eq .tls13 _
        (show kRecordHeaderLen ≤ _ by omega) (by omega))
  | tls12AesGcm =>
    simp only [openRecord, openTls12AesGcm, openBody, length_drop, hfirst, drop_drop]
    by_cases hshort : buf.length < kRecordHeaderLen + kExplicitNonceLen + kAuthTagLen
    · rw [if_pos hshort, if_pos (by omega), Option.map_none]
    rw [if_neg hshort, if_neg (by omega)]
    generalize aead _ _ _ = opened
    cases opened with
    | none => rfl
    | some out => exact congrArg some (OpenedInPlace.content_whole .tls12AesGcm _
        (show kRecordHeaderLen + kExplicitNonceLen ≤ _ by omega))
  | tls12Chacha20 =>
    simp only [openRecord, openTls12Chacha20, openBody, length_drop, hfirst]
    by_cases hshort : buf.length < kRecordHeaderLen + kAuthTagLen
    · rw [if_pos hshort, if_pos (by omega), Option.map_none]
    rw [if_neg hshort, if_neg (by omega)]
    generalize aead _ _ _ = opened
    cases opened with
    | none => rfl
    | some out => exact congrArg some (OpenedInPlace.content_whole .tls12Chacha20 _
        (show kRecordHeaderLen ≤ _ by omega))

/-- **What `open_in_place` finds.** -/
theorem openInPlace_eq :
    (dec.openInPlace aead buf).1.map (·.content dec.recordFormat) =
      if dec.seq ≥ kMaxSequenceNumber then none
      else openBody aead dec.recordFormat dec.iv dec.seq (buf.take kRecordHeaderLen)
        (buf.drop kRecordHeaderLen) := by
  rw [← openRecord_eq, openInPlace]
  split
  · rfl
  · cases dec.openRecord aead buf <;> rfl

/-- A record number is spent exactly if a record was opened. -/
theorem openInPlace_seq :
    (dec.openInPlace aead buf).2 =
      if (dec.openInPlace aead buf).1.isSome then { dec with seq := dec.seq + 1 } else dec := by
  unfold openInPlace
  split
  · rfl
  · cases dec.openRecord aead buf <;> rfl

end

end TlsInPlaceDecryptor

namespace TlsDecryptor

variable {record : Bytes} {payloadLen : Nat}

section

variable (aead : Open) (dec : TlsDecryptor) (h : kRecordHeaderLen + payloadLen ≤ record.length)

include aead dec h

theorem decryptRecord_eq :
    dec.decryptRecord aead record payloadLen =
      openBody aead dec.recordFormat dec.iv dec.seq (record.take kRecordHeaderLen)
        ((record.drop kRecordHeaderLen).take payloadLen) := by
  have hlen : ((record.drop kRecordHeaderLen).take payloadLen).length = payloadLen := by
    rw [length_take, length_drop]
    omega
  have hfirst : u8At (record.take kRecordHeaderLen) 0 = u8At record 0 := u8At_take (by decide)
  obtain ⟨format, iv, seq⟩ := dec
  cases format with
  | tls13 =>
    simp only [decryptRecord, decryptTls13, openBody, hlen]
    split
    · rfl
    · generalize aead _ _ _ = opened
      cases opened <;> rfl
  | tls12AesGcm =>
    simp only [decryptRecord, decryptTls12AesGcm, openBody, hlen, hfirst]
    split
    · rfl
    rw [take_take, Nat.min_eq_left (by omega), drop_take, drop_drop]
    generalize aead _ _ _ = opened
    cases opened <;> rfl
  | tls12Chacha20 =>
    simp only [decryptRecord, decryptTls12Chacha20, openBody, hlen, hfirst]
    split
    · rfl
    · generalize aead _ _ _ = opened
      cases opened <;> rfl

end

/-- **What `decrypt` finds.**  The header gives the end of the payload. -/
theorem decrypt_eq (aead : Open) (dec : TlsDecryptor) (record : Bytes) :
    (dec.decrypt aead record).1 =
      if dec.seq ≥ kMaxSequenceNumber then none
      else (parseRecordHeader record).bind fun payloadLen =>
        if record.length < kRecordHeaderLen + payloadLen then none
        else openBody aead dec.recordFormat dec.iv dec.seq (record.take kRecordHeaderLen)
          ((record.drop kRecordHeaderLen).take payloadLen) := by
  unfold decrypt
  by_cases hseq : dec.seq ≥ kMaxSequenceNumber
  · rw [if_pos hseq, if_pos hseq]
    split <;> rfl
  rw [if_neg hseq, if_neg hseq]
  cases hheader : parseRecordHeader record with
  | none =>
    split <;> rfl
  | some len =>
    dsimp only [Option.bind_some]
    by_cases hshort : record.length < kRecordHeaderLen + kAuthTagLen
    · rw [if_pos hshort]
      split
      · rfl
      have hpayload : ((record.drop kRecordHeaderLen).take len).length < kAuthTagLen := by
        rw [length_take, length_drop]
        omega
      cases dec.recordFormat <;> exact (if_pos (by omega)).symm
    rw [if_neg hshort]
    by_cases hpart : record.length < kRecordHeaderLen + len
    · rw [if_pos hpart, if_pos hpart]
    rw [if_neg hpart, if_neg hpart]
    rw [← decryptRecord_eq aead dec (Nat.le_of_not_lt hpart)]
    cases dec.decryptRecord aead record len <;> rfl

/-- A record number is spent exactly if a record was opened. -/
theorem decrypt_seq (aead : Open) (dec : TlsDecryptor) (record : Bytes) :
    (dec.decrypt aead record).2 =
      if (dec.decrypt aead record).1.isSome then { dec with seq := dec.seq + 1 } else dec := by
  unfold decrypt
  split
  · rfl
  split
  · rfl
  split
  · rfl
  split
  · rfl
  · cases dec.decryptRecord aead record _ <;> rfl

end TlsDecryptor

/-! ## The receive half of a session -/

/-- The receive half of a `TlsState`. -/
structure TlsReceiveHalf where
  established : Bool
  dec : Option TlsInPlaceDecryptor
  deriving DecidableEq

/-- One record, opened in the buffer; what the caller sees of it is its content.  The second
component is what was emitted before. -/
def openContent (aead : Open) (w : TlsInPlaceDecryptor × List Bytes) (record : Bytes) :
    Option (Bytes × UInt8) × TlsInPlaceDecryptor × List Bytes :=
  let (opened, dec) := w.1.openInPlace aead record
  (opened.map (·.content w.1.recordFormat), dec, w.2)

/-- A record that opens, within the record numbers. -/
theorem openContent_opened {aead : Open} {dec : TlsInPlaceDecryptor} {record : Bytes}
    {content : Bytes × UInt8} (hseq : dec.seq < kMaxSequenceNumber)
    (hopen : openBody aead dec.recordFormat dec.iv dec.seq (record.take kRecordHeaderLen)
      (record.drop kRecordHeaderLen) = some content) (emitted : List Bytes) :
    openContent aead (dec, emitted) record =
      (some content, { dec with seq := dec.seq + 1 }, emitted) := by
  have hcontent := dec.openInPlace_eq aead record
  rw [if_neg (UInt64.not_le.mpr hseq), hopen] at hcontent
  obtain ⟨o, ho, -⟩ := Option.map_eq_some_iff.mp hcontent
  have hnext := dec.openInPlace_seq aead record
  rw [ho] at hnext
  dsimp only [openContent]
  rw [hcontent, hnext]
  rfl

def emitContent (w : TlsInPlaceDecryptor × List Bytes) (plaintext : Bytes) :
    TlsInPlaceDecryptor × List Bytes :=
  (w.1, w.2 ++ [plaintext])

/-- `TlsState::process_records_in_place`: how much it has consumed, and what it has emitted
after `emitted`. -/
def TlsReceiveHalf.processRecordsInPlace (aead : Open) (half : TlsReceiveHalf) (buf : Bytes)
    (emitted : List Bytes) : Except ErrorInfo Nat × TlsReceiveHalf × List Bytes :=
  match half.established, half.dec with
  | true, some dec =>
    let (res, dec, emitted) := processRecords (openContent aead) emitContent inPlaceErrors
      buf.length (dec, emitted) buf 0
    (res, { half with dec := some dec }, emitted)
  | _, _ =>
    (.error ⟨.tlsHandshakeFailed, "TlsState::process_records_in_place: not established"⟩, half,
      emitted)

end Eph.Net
