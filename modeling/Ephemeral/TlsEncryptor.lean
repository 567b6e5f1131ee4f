import Mathlib.Data.Vector.Defs
import Ephemeral.TlsRecord

/-!
# Sealing TLS records

`TlsEncryptor` is the write direction of the record layer, in the three formats the
library speaks: TLS 1.3, and TLS 1.2 with AES-GCM or ChaCha20-Poly1305.  A format fixes
the header, the nonce and the additional data of a record; the cipher itself is a
parameter `Seal`, the library call under one key.

The encryptor numbers its records and stops at `kMaxSequenceNumber`.  What
`encrypt_for_send` returns is therefore a run of records whose numbers follow one
another from the encryptor's own (`encryptForSend_ok`), and the encryptor is left at the
number after the last.  Nothing is said of the number that a failing call leaves: some of
its records may have been sealed before the failure.
-/

namespace Eph.Net

open ByteOrder Core
open List hiding Vector

/-- `TlsRecordFormat`. -/
inductive TlsRecordFormat
  | tls13
  | tls12AesGcm
  | tls12Chacha20
  deriving DecidableEq

/-- `EVP_AEAD_CTX_seal` under one key: nonce, additional data and plaintext to the
ciphertext with its tag, or a failure. -/
abbrev Seal := Bytes → Bytes → Bytes → Option Bytes

def kLegacyVersion : Nat := 0x0303

/-- The record number at which the encryptor stops. -/
def kMaxSequenceNumber : UInt64 := 4294967296

def kImplicitIvLen : Nat := 4
def kTls13NonceLen : Nat := 12

/-- `write_record_header`. -/
def writeRecordHeader (contentType : UInt8) (payloadLen : Nat) : Bytes :=
  contentType :: (toBe 2 kLegacyVersion ++ toBe 2 payloadLen)

variable (iv : Vector UInt8 kTls13NonceLen)

/-- `build_nonce`: the last eight bytes of the IV, xored with the record number. -/
def buildNonce (seq : UInt64) : Bytes :=
  iv.toList.take kImplicitIvLen ++
    List.zipWith (· ^^^ ·) (iv.toList.drop kImplicitIvLen) (toBe 8 seq.toNat)

/-- `build_nonce_aes_gcm`: the first four bytes of the IV, then the record number. -/
def buildNonceAesGcm (seq : UInt64) : Bytes :=
  iv.toList.take kImplicitIvLen ++ toBe 8 seq.toNat

/-- `build_nonce_chacha20`. -/
def buildNonceChacha20 (seq : UInt64) : Bytes :=
  buildNonce iv seq

/-- `build_aad`, the additional data of the two TLS 1.2 formats. -/
def buildAad (seq : UInt64) (contentType : UInt8) (plaintextLen : Nat) : Bytes :=
  toBe 8 seq.toNat ++ contentType :: (toBe 2 kLegacyVersion ++ toBe 2 plaintextLen)

/-- `TlsEncryptor`; the key is in the `Seal` that its operations take. -/
structure TlsEncryptor where
  recordFormat : TlsRecordFormat
  iv : Vector UInt8 kTls13NonceLen
  seq : UInt64
  deriving DecidableEq

namespace TlsEncryptor

variable (aead : Seal) (enc : TlsEncryptor) (plaintext : Bytes)

/-- `encrypt_tls13_`: the content type goes inside, the header is the additional data. -/
def encryptTls13 : Option Bytes :=
  let header := writeRecordHeader kContentTypeAppData (plaintext.length + 1 + kAuthTagLen)
  (aead (buildNonce enc.iv enc.seq) header (plaintext ++ [kContentTypeAppData])).map (header ++ ·)

/-- `encrypt_tls12_aes_gcm_`: the record number travels in front of the ciphertext. -/
def encryptTls12AesGcm : Option Bytes :=
  let explicitNonce := toBe 8 enc.seq.toNat
  let header := writeRecordHeader kContentTypeAppData
    (explicitNonce.length + plaintext.length + kAuthTagLen)
  (aead (buildNonceAesGcm enc.iv enc.seq)
    (buildAad enc.seq kContentTypeAppData plaintext.length) plaintext).map
    (header ++ explicitNonce ++ ·)

/-- `encrypt_tls12_chacha20_`. -/
def encryptTls12Chacha20 : Option Bytes :=
  let header := writeRecordHeader kContentTypeAppData (plaintext.length + kAuthTagLen)
  (aead (buildNonceChacha20 enc.iv enc.seq)
    (buildAad enc.seq kContentTypeAppData plaintext.length) plaintext).map (header ++ ·)

/-- The record that the encryptor's format makes of `plaintext`. -/
def sealRecord : Option Bytes :=
  match enc.recordFormat with
  | .tls13 => enc.encryptTls13 aead plaintext
  | .tls12AesGcm => enc.encryptTls12AesGcm aead plaintext
  | .tls12Chacha20 => enc.encryptTls12Chacha20 aead plaintext

/-- `encrypt`: one record; its number is spent only if the record was sealed. -/
def encrypt : Option Bytes × TlsEncryptor :=
  if plaintext.length > kMaxRecordPayload then (none, enc)
  else if enc.seq ≥ kMaxSequenceNumber then (none, enc)
  else
    match enc.sealRecord aead plaintext with
    | none => (none, enc)
    | some record => (some record, { enc with seq := enc.seq + 1 })

/-- What a successful `encrypt` did. -/
theorem encrypt_some {aead : Seal} {enc after : TlsEncryptor} {plaintext record : Bytes}
    (h : enc.encrypt aead plaintext = (some record, after)) :
    enc.sealRecord aead plaintext = some record ∧ enc.seq.toNat < 2 ^ 32 ∧
      after = { enc with seq := enc.seq + 1 } := by
  unfold encrypt at h
  split at h
  · cases h
  split at h
  · cases h
  rename_i hseq
  split at h
  · cases h
  rename_i sealed hsealed
  obtain ⟨hrec, hafter⟩ := Prod.mk.inj h
  cases hrec
  refine ⟨hsealed, ?_, hafter.symm⟩
  have hlt := UInt64.lt_iff_toNat_lt.mp (UInt64.not_le.mp hseq)
  exact hlt

end TlsEncryptor

/-- A record on the sending side: with the number it was sealed under. -/
structure SealedRecord extends Record where
  seq : UInt64
  deriving DecidableEq

/-- The record is what the encryptor's key, IV and format make of its plaintext under its
number. -/
def TlsEncryptor.Seals (aead : Seal) (enc : TlsEncryptor) (r : SealedRecord) : Prop :=
  { enc with seq := r.seq }.sealRecord aead r.plaintext = some r.bytes

/-- The bytes of a run of sealed records. -/
def sealedBytes (rs : List SealedRecord) : Bytes :=
  rs.flatMap (·.bytes)

/-- The plaintext of a run of sealed records. -/
def sealedData (rs : List SealedRecord) : Bytes :=
  rs.flatMap (·.plaintext)

/-- The numbers of the records follow one another from `start`. -/
def Numbered (start : Nat) (rs : List SealedRecord) : Prop :=
  rs.map (·.seq.toNat) = List.range' start rs.length

@[simp] theorem Numbered.nil (start : Nat) : Numbered start [] := rfl

theorem Numbered.cons {start : Nat} {r : SealedRecord} {rs : List SealedRecord}
    (hr : r.seq.toNat = start) (hrs : Numbered (start + 1) rs) : Numbered start (r :: rs) := by
  unfold Numbered at hrs ⊢
  rw [map_cons, length_cons, range'_succ, hr, hrs]

/-- Two runs of records, the second numbered from where the first ends. -/
theorem Numbered.append {start : Nat} {rs more : List SealedRecord} (hrs : Numbered start rs)
    (hmore : Numbered (start + rs.length) more) : Numbered start (rs ++ more) := by
  unfold Numbered at hrs hmore ⊢
  rw [map_append, hrs, hmore, length_append, range'_append_1]

/-- The send half of a `TlsState`. -/
structure TlsSendHalf where
  established : Bool
  enc : Option TlsEncryptor
  deriving DecidableEq

/-- The loop of `encrypt_for_send`: `data` is what is left, `out` what is sealed.  Every
round takes a byte. -/
def sealChunks (aead : Seal) :
    Nat → TlsEncryptor → Bytes → Bytes → Except ErrorInfo Bytes × TlsEncryptor
  | 0, enc, _, out => (.ok out, enc)
  | fuel + 1, enc, data, out =>
    if data.isEmpty then (.ok out, enc)
    else
      match enc.encrypt aead (data.take kMaxRecordPayload) with
      | (none, enc) =>
        (.error ⟨.tlsCipherFailed, "TlsState::encrypt_for_send: TLS encrypt failed"⟩, enc)
      | (some record, enc) =>
        sealChunks aead fuel enc (data.drop kMaxRecordPayload) (out ++ record)

/-- `TlsState::encrypt_for_send`. -/
def TlsSendHalf.encryptForSend (aead : Seal) (half : TlsSendHalf) (data : Bytes) :
    Except ErrorInfo Bytes × TlsSendHalf :=
  match half.established, half.enc with
  | true, some enc =>
    let (sealed, enc) := sealChunks aead data.length enc data []
    (sealed, { half with enc := some enc })
  | _, _ =>
    (.error ⟨.tlsHandshakeFailed, "TlsState::encrypt_for_send: not established"⟩, half)

/-- The records that a successful loop appended: they hold the data, they are numbered
from the encryptor's number on, and the encryptor goes on after them. -/
theorem sealChunks_ok {aead : Seal} {fuel : Nat} {enc after : TlsEncryptor}
    {data out sealed : Bytes} (hfuel : data.length ≤ fuel)
    (h : sealChunks aead fuel enc data out = (.ok sealed, after)) :
    ∃ rs, sealed = out ++ sealedBytes rs ∧ sealedData rs = data ∧
      Numbered enc.seq.toNat rs ∧ (∀ r ∈ rs, enc.Seals aead r) ∧
      (∀ seq, { after with seq := seq } = { enc with seq := seq }) ∧
      after.seq.toNat = enc.seq.toNat + rs.length := by
  induction fuel generalizing enc data out with
  | zero =>
    obtain rfl := length_eq_zero_iff.mp (Nat.le_zero.mp hfuel)
    obtain ⟨hsealed, rfl⟩ := Prod.mk.inj h
    cases hsealed
    exact ⟨[], by simp [sealedBytes], rfl, .nil _, by simp, fun _ => rfl, rfl⟩
  | succ fuel ih =>
    unfold sealChunks at h
    split at h
    · rename_i hempty
      obtain rfl := List.isEmpty_iff.mp hempty
      obtain ⟨hsealed, rfl⟩ := Prod.mk.inj h
      cases hsealed
      exact ⟨[], by simp [sealedBytes], rfl, .nil _, by simp, fun _ => rfl, rfl⟩
    · rename_i hdata
      split at h
      · cases h
      rename_i record next henc
      obtain ⟨hrecord, hseq, rfl⟩ := TlsEncryptor.encrypt_some henc
      have hpos : 0 < data.length := by
        rw [List.isEmpty_iff] at hdata
        exact length_pos_iff.mpr hdata
      have hshorter : (data.drop kMaxRecordPayload).length ≤ fuel := by
        rw [length_drop, kMaxRecordPayload]
        omega
      have hnext : (enc.seq + 1).toNat = enc.seq.toNat + 1 := by
        rw [UInt64.toNat_add, UInt64.toNat_one, Nat.mod_eq_of_lt (by omega)]
      obtain ⟨rs, hbytes, hplain, hnum, hseals, hsame, hafter⟩ := ih hshorter h
      refine ⟨⟨⟨record, data.take kMaxRecordPayload⟩, enc.seq⟩ :: rs, ?_, ?_, ?_, ?_, hsame, ?_⟩
      · rw [hbytes, append_assoc]
        rfl
      · exact (congrArg (data.take kMaxRecordPayload ++ ·) hplain).trans (take_append_drop ..)
      · exact .cons rfl (hnext ▸ hnum)
      · exact forall_mem_cons.mpr ⟨hrecord, hseals⟩
      · rw [hafter, hnext, length_cons]
        omega

/-- The number that the next record would get. -/
def TlsSendHalf.nextSeq (half : TlsSendHalf) : Nat :=
  (half.enc.map (·.seq.toNat)).getD 0

theorem TlsSendHalf.nextSeq_of_enc {half : TlsSendHalf} {enc : TlsEncryptor}
    (h : half.enc = some enc) : half.nextSeq = enc.seq.toNat := by
  rw [nextSeq, h, Option.map_some, Option.getD_some]

/-- The records that the send half's key, IV and format make. -/
def TlsSendHalf.Seals (aead : Seal) (half : TlsSendHalf) (r : SealedRecord) : Prop :=
  ∃ enc, half.enc = some enc ∧ enc.Seals aead r

/-- **What `encrypt_for_send` seals.** A successful call returns records that hold the
data, numbered from the next number on; the next call goes on after them under the same
key. -/
theorem TlsSendHalf.encryptForSend_ok {aead : Seal} {half after : TlsSendHalf}
    {data sealed : Bytes} (h : half.encryptForSend aead data = (.ok sealed, after)) :
    ∃ rs, sealed = sealedBytes rs ∧ sealedData rs = data ∧ Numbered half.nextSeq rs ∧
      (∀ r ∈ rs, half.Seals aead r) ∧ (∀ r, after.Seals aead r → half.Seals aead r) ∧
      after.nextSeq = half.nextSeq + rs.length := by
  unfold encryptForSend at h
  split at h
  · rename_i enc _ henc
    obtain ⟨hsealed, rfl⟩ := Prod.mk.inj h
    obtain ⟨rs, hbytes, hplain, hnum, hseals, hsame, hafter⟩ :=
      sealChunks_ok (Nat.le_refl _) (Prod.ext hsealed rfl)
    refine ⟨rs, by simpa using hbytes, hplain, ?_, ?_, ?_, ?_⟩
    · rwa [nextSeq_of_enc henc]
    · exact fun r hr => ⟨enc, henc, hseals r hr⟩
    · rintro r ⟨enc', henc', hr⟩
      cases henc'
      refine ⟨enc, henc, ?_⟩
      unfold TlsEncryptor.Seals at hr ⊢
      rwa [← hsame r.seq]
    · rw [nextSeq_of_enc henc, nextSeq_of_enc rfl, hafter]
  · cases h

end Eph.Net
