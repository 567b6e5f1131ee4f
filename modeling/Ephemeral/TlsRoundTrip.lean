import Ephemeral.TlsDecryptor

/-!
# Sealed records open again

The round trip of the record layer, from the plaintexts through `TlsEncryptor` to the peer,
who reads the records from a stream that arrives in pieces.  The cipher is ideal: it seals
everything, and it opens what was sealed under the same nonce and additional data.

Each side computes the header, the nonce and the additional data on its own, and they agree
in all three formats (`sealRecord_opens`).  What does not agree is the size: a record of
TLS 1.2 with AES-GCM carries eight bytes more than the header check allows for, so the last
seven sizes of a plaintext are sealed and then refused.  `tls_round_trip_iff` is the round
trip with exactly that exception.
-/

namespace Eph.Net

open ByteOrder Core TlsRecordFormat TlsEncryptor
open List hiding Vector

variable {openWith : Open}

/-- An ideal cipher under one key. -/
structure IdealAead (sealWith : Seal) (openWith : Open) : Prop where
  seals : ∀ nonce aad plaintext, ∃ c, sealWith nonce aad plaintext = some c ∧
    c.length = plaintext.length + kAuthTagLen
  opens : ∀ nonce aad plaintext c,
    openWith nonce aad c = some plaintext ↔ sealWith nonce aad plaintext = some c

/-! ## One record -/

/-- A header that was written, read back. -/
theorem parseRecordHeader_write {n : Nat} (hn : n < 2 ^ 16) (payload : Bytes) :
    parseRecordHeader (writeRecordHeader kContentTypeAppData n ++ payload) =
      if n ≤ kMaxRecordPayload + kAuthTagLen + 1 then some n else none := by
  have hword : (be16At (writeRecordHeader kContentTypeAppData n ++ payload) 3).toNat = n := by
    have hsame : be16At (writeRecordHeader kContentTypeAppData n ++ payload) 3 =
        be16At (toBe 2 n ++ payload) 0 := by
      rfl
    rw [hsame, be16At_toBe, UInt16.toNat_ofNat_of_lt' hn]
  unfold parseRecordHeader
  rw [hword]
  simp only [show u8At (writeRecordHeader kContentTypeAppData n ++ payload) 0 =
    kContentTypeAppData from rfl, true_and]

/-- The number of bytes that a format puts around a plaintext, without the header. -/
def TlsRecordFormat.overhead : TlsRecordFormat → Nat
  | .tls13 => 1 + kAuthTagLen
  | .tls12AesGcm => kExplicitNonceLen + kAuthTagLen
  | .tls12Chacha20 => kAuthTagLen

variable {format : TlsRecordFormat}

theorem encryptedSizeFor_eq {n : Nat} (hn : n ≤ kMaxRecordPayload) :
    encryptedSizeFor format n = kRecordHeaderLen + (n + format.overhead) := by
  unfold kMaxRecordPayload at hn
  cases format
  all_goals
    simp only [encryptedSizeFor, overhead, kRecordHeaderLen, kAuthTagLen, kExplicitNonceLen]
    omega

variable {sealWith : Seal}

/-- A record in its parts: a header for a payload of the format's size, and the payload
opens to the plaintext. -/
theorem sealRecord_parts (hideal : IdealAead sealWith openWith) (enc : TlsEncryptor)
    (plaintext : Bytes) :
    ∃ payload, enc.sealRecord sealWith plaintext =
        some (writeRecordHeader kContentTypeAppData payload.length ++ payload) ∧
      payload.length = plaintext.length + enc.recordFormat.overhead ∧
      openBody openWith enc.recordFormat enc.iv enc.seq
        (writeRecordHeader kContentTypeAppData payload.length) payload =
        some (plaintext, kContentTypeAppData) := by
  obtain ⟨format, iv, seq⟩ := enc
  cases format with
  | tls13 =>
    obtain ⟨c, hseal, hlen⟩ := hideal.seals (buildNonce iv seq)
      (writeRecordHeader kContentTypeAppData (plaintext.length + 1 + kAuthTagLen))
      (plaintext ++ [kContentTypeAppData])
    rw [length_append, length_singleton] at hlen
    refine ⟨c, ?_, by rw [hlen, overhead]; omega, ?_⟩
    · simp only [sealRecord, encryptTls13, hlen, hseal, Option.map_some]
    simp only [openBody]
    rw [if_neg (by omega), hlen, (hideal.opens _ _ _ _).mpr hseal, Option.bind_some,
      splitInner_concat]
  | tls12AesGcm =>
    obtain ⟨c, hseal, hlen⟩ := hideal.seals (buildNonceAesGcm iv seq)
      (buildAad seq kContentTypeAppData plaintext.length) plaintext
    refine ⟨toBe 8 seq.toNat ++ c, ?_, ?_, ?_⟩
    · simp only [sealRecord, encryptTls12AesGcm, hseal, Option.map_some,
        length_append, hlen, Nat.add_assoc, append_assoc]
    · rw [length_append, length_toBe, hlen, overhead, kExplicitNonceLen]
      omega
    have hsize : (toBe 8 seq.toNat ++ c).length - kExplicitNonceLen - kAuthTagLen =
        plaintext.length := by
      rw [length_append, length_toBe, hlen, kExplicitNonceLen]
      omega
    have hnonce : (toBe 8 seq.toNat).length = kExplicitNonceLen := length_toBe ..
    have hopen := (hideal.opens _ _ _ _).mpr hseal
    simp only [openBody]
    rw [if_neg (by rw [length_append, length_toBe, hlen, kExplicitNonceLen]; omega), hsize,
      take_left' hnonce, drop_left' hnonce]
    exact congrArg (Option.map (·, kContentTypeAppData)) hopen
  | tls12Chacha20 =>
    obtain ⟨c, hseal, hlen⟩ := hideal.seals (buildNonceChacha20 iv seq)
      (buildAad seq kContentTypeAppData plaintext.length) plaintext
    refine ⟨c, ?_, hlen, ?_⟩
    · simp only [sealRecord, encryptTls12Chacha20, hseal, hlen, Option.map_some]
    have hopen := (hideal.opens _ _ _ _).mpr hseal
    simp only [openBody]
    rw [if_neg (by omega), show c.length - kAuthTagLen = plaintext.length by omega]
    exact congrArg (Option.map (·, kContentTypeAppData)) hopen

/-- Whether the header check of the peer lets a plaintext of `n` bytes through. -/
def TlsRecordFormat.Fits (format : TlsRecordFormat) (n : Nat) : Prop :=
  n + format.overhead ≤ kMaxRecordPayload + kAuthTagLen + 1

instance (format : TlsRecordFormat) (n : Nat) : Decidable (format.Fits n) :=
  inferInstanceAs (Decidable (_ ≤ _))

/-- Only AES-GCM has sizes that do not fit. -/
theorem TlsRecordFormat.fits_iff {n : Nat} (hn : n ≤ kMaxRecordPayload) :
    format.Fits n ↔ (format = .tls12AesGcm → n ≤ 16377) := by
  unfold kMaxRecordPayload at hn
  unfold Fits overhead kMaxRecordPayload kAuthTagLen kExplicitNonceLen
  cases format <;> simp <;> omega

/-- **One record.**  A record that the encryptor has made is of the announced size.  Both
decryptors find the plaintext in it, and its header is accepted exactly if it fits. -/
theorem sealRecord_opens (hideal : IdealAead sealWith openWith) {enc : TlsEncryptor}
    {plaintext record : Bytes} (hlen : plaintext.length ≤ kMaxRecordPayload)
    (hseal : enc.sealRecord sealWith plaintext = some record) :
    record.length = kRecordHeaderLen + (plaintext.length + enc.recordFormat.overhead) ∧
      openBody openWith enc.recordFormat enc.iv enc.seq (record.take kRecordHeaderLen)
        (record.drop kRecordHeaderLen) = some (plaintext, kContentTypeAppData) ∧
      (enc.recordFormat.Fits plaintext.length →
        parseRecordHeader record = some (record.length - kRecordHeaderLen)) ∧
      (¬ enc.recordFormat.Fits plaintext.length → parseRecordHeader record = none) := by
  obtain ⟨payload, hparts, hsize, hopen⟩ := sealRecord_parts hideal enc plaintext
  rw [hseal] at hparts
  cases hparts
  have hbound : payload.length < 2 ^ 16 := by
    have hformat : enc.recordFormat.overhead ≤ 24 := by cases enc.recordFormat <;> decide
    unfold kMaxRecordPayload at hlen
    omega
  have hheader := length_writeRecordHeader kContentTypeAppData payload.length
  refine ⟨?_, ?_, ?_, ?_⟩
  · rw [length_append, hheader, hsize]
  · rwa [take_left' hheader, drop_left' hheader]
  · intro hfits
    rw [parseRecordHeader_write hbound, if_pos (by rw [hsize]; exact hfits), length_append,
      hheader, Nat.add_sub_cancel_left]
  · intro hfits
    rw [parseRecordHeader_write hbound, if_neg (by rw [hsize]; exact hfits)]

/-! ## A run of records -/

/-- Call after call of `encrypt`. -/
def TlsEncryptor.encryptAll (aead : Seal) :
    TlsEncryptor → List Bytes → List (Option Bytes) × TlsEncryptor
  | enc, [] => ([], enc)
  | enc, p :: ps =>
    let (record, enc) := enc.encrypt aead p
    let (records, enc) := enc.encryptAll aead ps
    (record :: records, enc)

/-- Call after call of `decrypt`, one for each record. -/
def TlsDecryptor.decryptAll (aead : Open) :
    TlsDecryptor → List Bytes → List (Option (Bytes × UInt8)) × TlsDecryptor
  | dec, [] => ([], dec)
  | dec, record :: records =>
    let (out, dec) := dec.decrypt aead record
    let (outs, dec) := dec.decryptAll aead records
    (out :: outs, dec)

/-- The records are sealed under the numbers from `seq` on, none of them over the limit. -/
def SealedFrom (aead : Seal) (format : TlsRecordFormat) (iv : Vector UInt8 kTls13NonceLen) :
    UInt64 → List Record → Prop
  | _, [] => True
  | seq, r :: rs => seq < kMaxSequenceNumber ∧ r.plaintext.length ≤ kMaxRecordPayload ∧
    (mk format iv seq).sealRecord aead r.plaintext = some r.bytes ∧
    SealedFrom aead format iv (seq + 1) rs

theorem succ_toNat {seq : UInt64} (h : seq.toNat < 2 ^ 32) : (seq + 1).toNat = seq.toNat + 1 := by
  rw [UInt64.toNat_add, UInt64.toNat_one, Nat.mod_eq_of_lt (by omega)]

section Run

variable {sealWith : Seal} {openWith : Open} {format : TlsRecordFormat}
  {iv : Vector UInt8 kTls13NonceLen} {seq : UInt64}

theorem encrypt_sealed {plaintext record : Bytes} (hlen : plaintext.length ≤ kMaxRecordPayload)
    (hseq : seq < kMaxSequenceNumber)
    (hseal : (mk format iv seq).sealRecord sealWith plaintext = some record) :
    (mk format iv seq).encrypt sealWith plaintext =
      (some record, ⟨format, iv, seq + 1⟩) := by
  rw [encrypt, if_neg (Nat.not_lt.mpr hlen), if_neg (UInt64.not_le.mpr hseq), hseal]

section

variable (format : TlsRecordFormat) (iv : Vector UInt8 kTls13NonceLen)
  (hideal : IdealAead sealWith openWith)

include hideal

/-- While the numbers last, the encryptor seals what it is given. -/
theorem encrypt_next {p : Bytes} (hp : p.length ≤ kMaxRecordPayload) {n : Nat}
    (hcount : seq.toNat + (n + 1) ≤ 2 ^ 32) :
    ∃ record, (mk format iv seq).encrypt sealWith p =
        (some record, ⟨format, iv, seq + 1⟩) ∧ (seq + 1).toNat + n ≤ 2 ^ 32 ∧
      ∀ rs, SealedFrom sealWith format iv (seq + 1) rs →
        SealedFrom sealWith format iv seq (⟨record, p⟩ :: rs) := by
  have hseq : seq < kMaxSequenceNumber := by
    rw [UInt64.lt_iff_toNat_lt]
    change seq.toNat < 2 ^ 32
    omega
  obtain ⟨payload, hseal, -⟩ := sealRecord_parts hideal ⟨format, iv, seq⟩ p
  refine ⟨_, encrypt_sealed hp hseq hseal, ?_, fun rs hrest => ⟨hseq, hp, hseal, hrest⟩⟩
  rw [succ_toNat (by omega)]
  omega

/-- While the numbers last, the encryptor seals all it is given. -/
theorem encryptAll_sealed {ps : List Bytes}
    (hlen : ∀ p ∈ ps, p.length ≤ kMaxRecordPayload) (hcount : seq.toNat + ps.length ≤ 2 ^ 32) :
    ∃ rs : List Record, rs.map (·.plaintext) = ps ∧
      ((mk format iv seq).encryptAll sealWith ps).1 = rs.map (some ·.bytes) ∧
      SealedFrom sealWith format iv seq rs := by
  induction ps generalizing seq with
  | nil => exact ⟨[], rfl, rfl, trivial⟩
  | cons p ps ih =>
    rw [length_cons] at hcount
    obtain ⟨record, hencrypt, hcount', hnext⟩ :=
      encrypt_next format iv hideal (hlen p mem_cons_self) hcount
    obtain ⟨rs, hplain, hrecords, hsealed⟩ := ih (fun p hp => hlen p (mem_cons_of_mem _ hp)) hcount'
    refine ⟨⟨record, p⟩ :: rs, by rw [map_cons, hplain], ?_, hnext rs hsealed⟩
    rw [encryptAll, hencrypt, map_cons]
    exact congrArg (some _ :: ·) hrecords

end

section

variable (hideal : IdealAead sealWith openWith)

include hideal

/-- Each of the records is of its size, and framed if it fits. -/
theorem SealedFrom.framed {rs : List Record} (h : SealedFrom sealWith format iv seq rs) :
    ∀ r ∈ rs, r.bytes.length = encryptedSizeFor format r.plaintext.length ∧
      (format.Fits r.plaintext.length → r.Framed) := by
  induction rs generalizing seq with
  | nil => nofun
  | cons r rs ih =>
    obtain ⟨-, hlen, hseal, hrest⟩ := h
    obtain ⟨hsize, -, hheader, -⟩ := sealRecord_opens hideal hlen hseal
    refine forall_mem_cons.mpr ⟨⟨?_, fun hfits => ⟨_, hheader hfits, by omega⟩⟩, ih hrest⟩
    rw [hsize, encryptedSizeFor_eq hlen]

/-- `TlsDecryptor` on the record with its number. -/
theorem decrypt_sealed {r : Record}
    (hseq : seq < kMaxSequenceNumber) (hlen : r.plaintext.length ≤ kMaxRecordPayload)
    (hseal : (mk format iv seq).sealRecord sealWith r.plaintext = some r.bytes)
    (hfits : format.Fits r.plaintext.length) :
    (TlsDecryptor.mk format iv seq).decrypt openWith r.bytes =
      (some (r.plaintext, kContentTypeAppData), ⟨format, iv, seq + 1⟩) := by
  obtain ⟨hsize, hopen, hheader, -⟩ := sealRecord_opens hideal hlen hseal
  have hpayload : (r.bytes.drop kRecordHeaderLen).take (r.bytes.length - kRecordHeaderLen) =
      r.bytes.drop kRecordHeaderLen :=
    take_of_length_le (Nat.le_of_eq length_drop)
  have hout : ((TlsDecryptor.mk format iv seq).decrypt openWith r.bytes).1 =
      some (r.plaintext, kContentTypeAppData) := by
    rw [TlsDecryptor.decrypt_eq, if_neg (UInt64.not_le.mpr hseq), hheader hfits, Option.bind_some,
      if_neg (by omega), hpayload]
    exact hopen
  refine Prod.ext hout ?_
  rw [TlsDecryptor.decrypt_seq, hout]
  rfl

end

/-- A record that does not fit is refused, whatever the decryptor. -/
theorem decrypt_refuses (dec : TlsDecryptor) {record : Bytes}
    (h : parseRecordHeader record = none) : (dec.decrypt openWith record).1 = none := by
  rw [TlsDecryptor.decrypt_eq, h]
  split <;> rfl

/-- **`TlsDecryptor` finds the plaintexts exactly if all records fit.** -/
theorem SealedFrom.decryptAll_iff (hideal : IdealAead sealWith openWith) {rs : List Record}
    (h : SealedFrom sealWith format iv seq rs) :
    ((TlsDecryptor.mk format iv seq).decryptAll openWith (rs.map (·.bytes))).1 =
        rs.map (fun r => some (r.plaintext, kContentTypeAppData)) ↔
      ∀ r ∈ rs, format.Fits r.plaintext.length := by
  induction rs generalizing seq with
  | nil => exact ⟨fun _ => nofun, fun _ => rfl⟩
  | cons r rs ih =>
    obtain ⟨hseq, hlen, hseal, hrest⟩ := h
    rw [map_cons, map_cons, TlsDecryptor.decryptAll, forall_mem_cons]
    rw [List.cons.injEq]
    by_cases hfits : format.Fits r.plaintext.length
    · rw [decrypt_sealed hideal hseq hlen hseal hfits]
      exact and_congr (iff_of_true rfl hfits) (ih hrest)
    · obtain ⟨-, -, -, hbad⟩ := sealRecord_opens hideal hlen hseal
      rw [decrypt_refuses _ (hbad hfits)]
      exact iff_of_false (fun hall => nomatch hall.1) fun hall => hfits hall.1

end Run

/-! ## The peer -/

/-- A peer that reads records from a stream: what it has not consumed yet, what it has been
given by the record layer, and the error that has stopped it. -/
structure RecordReader where
  half : TlsReceiveHalf
  pending : Bytes
  emitted : List Bytes
  error : Option ErrorInfo
  deriving DecidableEq

namespace RecordReader

/-- A new reader. -/
def fresh (format : TlsRecordFormat) (iv : Vector UInt8 kTls13NonceLen) (seq : UInt64) :
    RecordReader :=
  ⟨⟨true, some ⟨format, iv, seq⟩⟩, [], [], none⟩

/-- The next piece of the stream arrives. -/
def feed (aead : Open) (r : RecordReader) (chunk : Bytes) : RecordReader :=
  match r.error with
  | some _ => r
  | none =>
    let buf := r.pending ++ chunk
    match r.half.processRecordsInPlace aead buf r.emitted with
    | (.ok consumed, half, emitted) => ⟨half, buf.drop consumed, emitted, none⟩
    | (.error e, half, emitted) => ⟨half, buf, emitted, some e⟩

def feedAll (aead : Open) (r : RecordReader) (chunks : List Bytes) : RecordReader :=
  chunks.foldl (feed aead) r

/-- The records `done` were opened and emitted, and the decryptor stands at the first of the
records `rest`. -/
def Expects (aead : Seal) (format : TlsRecordFormat) (iv : Vector UInt8 kTls13NonceLen)
    (w : TlsInPlaceDecryptor × List Bytes) (done rest : List Record) : Prop :=
  (∃ seq, w.1 = ⟨format, iv, seq⟩ ∧ SealedFrom aead format iv seq rest) ∧
    w.2 = done.map (·.plaintext) ∧ ∀ r ∈ rest, r.plaintext ≠ []

/-- The reader has seen the records `done`, the records `rest` are to come, and it holds a
proper part of the first of them. -/
structure Between (aead : Seal) (format : TlsRecordFormat) (iv : Vector UInt8 kTls13NonceLen)
    (done rest : List Record) (more : Bytes) (r : RecordReader) : Prop where
  half : ∃ dec, r.half = ⟨true, some dec⟩ ∧ Expects aead format iv (dec, r.emitted) done rest
  stream : r.pending ++ more = recordBytes rest
  error : r.error = none
  short : ∀ next after, rest = next :: after → r.pending.length < next.bytes.length

variable {sealWith : Seal} {openWith : Open} {format : TlsRecordFormat}
  {iv : Vector UInt8 kTls13NonceLen} {done rest : List Record} {more : Bytes} {r : RecordReader}

section

variable (hideal : IdealAead sealWith openWith)

include hideal

/-- The next record opens and is emitted. -/
theorem Expects.next (w : TlsInPlaceDecryptor × List Bytes) (done : List Record) (r : Record)
    (rest : List Record) (h : Expects sealWith format iv w done (r :: rest)) :
    ∃ w', openContent openWith w r.bytes = (some (r.plaintext, kContentTypeAppData), w') ∧
      Expects sealWith format iv (passOn emitContent w' r.plaintext) (done ++ [r]) rest := by
  obtain ⟨dec, emitted⟩ := w
  obtain ⟨⟨seq, hdec, hseq, hlen, hseal, hrest⟩, hemitted, hdata⟩ := h
  subst hdec hemitted
  obtain ⟨-, hopen, -⟩ := sealRecord_opens hideal hlen hseal
  refine ⟨_, openContent_opened hseq hopen _, ?_⟩
  rw [passOn, if_pos (hdata r mem_cons_self)]
  refine ⟨⟨seq + 1, rfl, hrest⟩, ?_, fun r' hr' => hdata r' (mem_cons_of_mem _ hr')⟩
  simp only [emitContent, map_append, map_cons, map_nil]

/-- **One piece of the stream** lets the reader open every record that it completes. -/
theorem feed_between (hframed : ∀ r ∈ rest, r.Framed)
    (chunk : Bytes) (h : Between sealWith format iv done rest (chunk ++ more) r) :
    ∃ opened rest', rest = opened ++ rest' ∧
      Between sealWith format iv (done ++ opened) rest' more (r.feed openWith chunk) := by
  obtain ⟨half, pending, emitted, error⟩ := r
  obtain ⟨⟨dec, hhalf, hexpects⟩, hstream, herror, -⟩ := h
  subst hhalf herror
  obtain ⟨opened, tail, rest', ⟨dec', emitted'⟩, hres, hsplit, hexpects', hbuf, hmore, hshort⟩ :=
    processRecords_expected emitContent (Expects sealWith format iv) (Expects.next hideal)
      inPlaceErrors (pending ++ chunk).length (dec, emitted) (pending ++ chunk) more 0 hexpects
      (Nat.le_refl _) hframed (by rw [append_assoc, hstream])
  have hfeed : feed openWith ⟨⟨true, some dec⟩, pending, emitted, none⟩ chunk =
      ⟨⟨true, some dec'⟩, tail, emitted', none⟩ := by
    dsimp only [feed, TlsReceiveHalf.processRecordsInPlace]
    rw [hres]
    dsimp only
    rw [Nat.zero_add, hbuf, drop_left]
  refine ⟨opened, rest', hsplit, ?_⟩
  rw [hfeed]
  exact ⟨⟨dec', rfl, hexpects'⟩, hmore, rfl, hshort⟩

/-- **The whole stream**, in any pieces, lets the reader open all records. -/
theorem feedAll_between (hframed : ∀ r ∈ rest, r.Framed)
    (chunks : List Bytes) (h : Between sealWith format iv done rest chunks.flatten r) :
    (r.feedAll openWith chunks).emitted = (done ++ rest).map (·.plaintext) ∧
      (r.feedAll openWith chunks).pending = [] ∧ (r.feedAll openWith chunks).error = none := by
  induction chunks generalizing r done rest with
  | nil =>
    obtain ⟨⟨dec, -, hexpects⟩, hstream, herror, hshort⟩ := h
    rw [flatten_nil, append_nil] at hstream
    cases rest with
    | nil =>
      rw [append_nil]
      exact ⟨hexpects.2.1, hstream, herror⟩
    | cons next after =>
      -- A record that is all there would have been opened.
      have hless := hshort next after rfl
      rw [hstream, recordBytes_cons, length_append] at hless
      omega
  | cons chunk chunks ih =>
    rw [flatten_cons] at h
    obtain ⟨opened, rest', rfl, hnext⟩ := feed_between hideal hframed chunk h
    have hrun := ih (fun r hr => hframed r (mem_append_right _ hr)) hnext
    rwa [append_assoc] at hrun

end

end RecordReader

/-! ## `encrypt_for_send` -/

/-- The plaintexts of the records that `encrypt_for_send` makes of `data`. -/
def recordChunks : Nat → Bytes → List Bytes
  | 0, _ => []
  | fuel + 1, data =>
    if data.isEmpty then []
    else data.take kMaxRecordPayload :: recordChunks fuel (data.drop kMaxRecordPayload)

/-- The chunks make up the data, in as few records as possible. -/
theorem recordChunks_spec {fuel : Nat} {data : Bytes} (hfuel : data.length ≤ fuel) :
    (recordChunks fuel data).flatten = data ∧
      (recordChunks fuel data).length =
        (data.length + (kMaxRecordPayload - 1)) / kMaxRecordPayload ∧
      ∀ c ∈ recordChunks fuel data, c ≠ [] ∧ c.length ≤ kMaxRecordPayload ∧
        c.length ≤ data.length := by
  induction fuel generalizing data with
  | zero =>
    obtain rfl := length_eq_zero_iff.mp (Nat.le_zero.mp hfuel)
    exact ⟨rfl, rfl, nofun⟩
  | succ fuel ih =>
    rw [recordChunks]
    split
    · rename_i hempty
      obtain rfl := List.isEmpty_iff.mp hempty
      exact ⟨rfl, rfl, nofun⟩
    rename_i hdata
    have hne : data ≠ [] := by simpa using hdata
    have hpos := length_pos_iff.mpr hne
    have hmax : kMaxRecordPayload = 16384 := rfl
    obtain ⟨hflat, hcount, hchunks⟩ := @ih (data.drop kMaxRecordPayload)
      (by rw [length_drop]; omega)
    rw [length_drop] at hcount hchunks
    refine ⟨by rw [flatten_cons, hflat, take_append_drop], ?_, ?_⟩
    · rw [length_cons, hcount, hmax]
      omega
    intro c hc
    rcases mem_cons.mp hc with rfl | hc
    · refine ⟨?_, length_take_le _ _, length_take_le' _ _⟩
      rw [ne_eq, take_eq_nil_iff, hmax]
      simp [hne]
    · obtain ⟨hc, hlen, hle⟩ := hchunks c hc
      exact ⟨hc, hlen, by omega⟩

/-- While the numbers last, `encrypt_for_send` seals the chunks. -/
theorem sealChunks_sealed (format : TlsRecordFormat) (iv : Vector UInt8 kTls13NonceLen)
    {seq : UInt64} (hideal : IdealAead sealWith openWith) {fuel : Nat} {data : Bytes}
    (hcount : seq.toNat + (recordChunks fuel data).length ≤ 2 ^ 32) (out : Bytes) :
    ∃ rs after, rs.map (·.plaintext) = recordChunks fuel data ∧
      SealedFrom sealWith format iv seq rs ∧
      sealChunks sealWith fuel ⟨format, iv, seq⟩ data out =
        (.ok (out ++ recordBytes rs), after) := by
  induction fuel generalizing seq data out with
  | zero => exact ⟨[], _, rfl, trivial, by rw [sealChunks, recordBytes_nil, append_nil]⟩
  | succ fuel ih =>
    rw [recordChunks] at hcount ⊢
    rw [sealChunks]
    split
    · exact ⟨[], _, rfl, trivial, by rw [recordBytes_nil, append_nil]⟩
    rename_i hdata
    rw [if_neg hdata, length_cons] at hcount
    obtain ⟨record, hencrypt, hcount', hnext⟩ :=
      encrypt_next format iv hideal (length_take_le kMaxRecordPayload data) hcount
    obtain ⟨rs, after, hplain, hsealed, hrun⟩ := ih hcount' (out ++ record)
    refine ⟨⟨record, data.take kMaxRecordPayload⟩ :: rs, after, by rw [map_cons, hplain],
      hnext rs hsealed, ?_⟩
    rw [hencrypt, recordBytes_cons, ← append_assoc]
    exact hrun

/-- A record that does not fit stops the reader. -/
theorem RecordReader.feed_refuses (openWith : Open) (format : TlsRecordFormat)
    (iv : Vector UInt8 kTls13NonceLen) (seq : UInt64) {record : Bytes} (rest : Bytes)
    (hlen : kRecordHeaderLen ≤ record.length) (hbad : parseRecordHeader record = none) :
    ((fresh format iv seq).feed openWith (record ++ rest)).error =
      some inPlaceErrors.badHeader := by
  have hheader : parseRecordHeader (record ++ rest) = none := by
    rw [parseRecordHeader_append hlen, hbad]
  have hlong : ¬ (record ++ rest).length < kRecordHeaderLen := by
    rw [length_append]
    omega
  obtain ⟨n, hn⟩ : ∃ n, (record ++ rest).length = n + 1 := by
    refine Nat.exists_eq_add_one.mpr ?_
    unfold kRecordHeaderLen at hlong
    omega
  dsimp only [fresh, feed, TlsReceiveHalf.processRecordsInPlace]
  rw [nil_append, hn]
  simp only [processRecords, hlong, if_false, hheader]

/-- A new reader, with all records to come. -/
theorem RecordReader.fresh_between {iv : Vector UInt8 kTls13NonceLen} {seq : UInt64}
    {rs : List Record} (hsealed : SealedFrom sealWith format iv seq rs)
    (hframed : ∀ r ∈ rs, r.Framed) (hdata : ∀ r ∈ rs, r.plaintext ≠ []) {chunks : List Bytes}
    (hchunks : chunks.flatten = recordBytes rs) :
    Between sealWith format iv [] rs chunks.flatten (fresh format iv seq) where
  half := ⟨_, rfl, ⟨seq, rfl, hsealed⟩, rfl, hdata⟩
  stream := hchunks
  error := rfl
  short := by
    rintro next after rfl
    exact (hframed next mem_cons_self).length_pos

open RecordReader

/-- **When records make the round trip.**  With an ideal cipher, and while the record numbers
last: the encryptor seals every sequence of plaintexts of 1 to 16384 bytes into records of
the announced sizes, and from these records, in whatever pieces they arrive, the peer reads
the plaintexts in order and without error, and so does `TlsDecryptor` record by record,
exactly if under AES-GCM no plaintext has more than 16377 bytes.  Accordingly the peer
reads what `encrypt_for_send` was given exactly if under AES-GCM that is at most 16377
bytes. -/
theorem tls_round_trip_iff {sealWith : Seal} {openWith : Open}
    (hideal : IdealAead sealWith openWith) (format : TlsRecordFormat)
    (iv : Vector UInt8 kTls13NonceLen) (seq : UInt64) :
    (∀ ps : List Bytes, (∀ p ∈ ps, 1 ≤ p.length ∧ p.length ≤ kMaxRecordPayload) →
      seq.toNat + ps.length ≤ 2 ^ 32 →
      ∃ records : List Bytes, ((mk format iv seq).encryptAll sealWith ps).1 = records.map some ∧
        records.map List.length = ps.map (fun p => encryptedSizeFor format p.length) ∧
        (((∀ chunks : List Bytes, chunks.flatten = records.flatten →
            let r := (fresh format iv seq).feedAll openWith chunks
            r.emitted = ps ∧ r.pending = [] ∧ r.error = none) ∧
          ((TlsDecryptor.mk format iv seq).decryptAll openWith records).1 =
            ps.map (fun p => some (p, kContentTypeAppData))) ↔
          (format = .tls12AesGcm → ∀ p ∈ ps, p.length ≤ 16377))) ∧
    ∀ data : Bytes,
      seq.toNat + (data.length + (kMaxRecordPayload - 1)) / kMaxRecordPayload ≤ 2 ^ 32 →
      ∃ out after, (TlsSendHalf.mk true (some ⟨format, iv, seq⟩)).encryptForSend sealWith data =
          (.ok out, after) ∧
        ((∀ chunks : List Bytes, chunks.flatten = out →
            let r := (fresh format iv seq).feedAll openWith chunks
            r.emitted.flatten = data ∧ r.pending = [] ∧ r.error = none) ↔
          (format = .tls12AesGcm → data.length ≤ 16377)) := by
  refine ⟨fun ps hlen hcount => ?_, fun data hcount => ?_⟩
  · obtain ⟨rs, rfl, hrecords, hsealed⟩ :=
      encryptAll_sealed format iv hideal (fun p hp => (hlen p hp).2) hcount
    have hplain : ∀ r ∈ rs, 1 ≤ r.plaintext.length ∧ r.plaintext.length ≤ kMaxRecordPayload :=
      fun r hr => hlen _ (mem_map_of_mem hr)
    have hcond : (format = .tls12AesGcm → ∀ p ∈ rs.map (·.plaintext), p.length ≤ 16377) ↔
        ∀ r ∈ rs, format.Fits r.plaintext.length := by
      rw [forall_mem_map]
      constructor
      · intro hshort r hr
        exact (fits_iff (hplain r hr).2).mpr fun hformat => hshort hformat r hr
      · intro hfits hformat r hr
        exact (fits_iff (hplain r hr).2).mp (hfits r hr) hformat
    refine ⟨rs.map (·.bytes), by rw [hrecords, map_map]; rfl, ?_, ?_⟩
    · rw [map_map, map_map]
      exact map_congr_left fun r hr => (hsealed.framed hideal r hr).1
    rw [hcond, map_map]
    constructor
    · rintro ⟨-, hdecrypts⟩
      exact (hsealed.decryptAll_iff hideal).mp hdecrypts
    intro hfits
    refine ⟨fun chunks hchunks => ?_, (hsealed.decryptAll_iff hideal).mpr hfits⟩
    have hframed := fun r hr => (hsealed.framed hideal r hr).2 (hfits r hr)
    have hdata : ∀ r ∈ rs, r.plaintext ≠ [] := fun r hr => length_pos_iff.mp (hplain r hr).1
    exact feedAll_between hideal hframed chunks (fresh_between hsealed hframed hdata hchunks)
  · obtain ⟨hflat, hnum, hparts⟩ := recordChunks_spec (Nat.le_refl data.length)
    obtain ⟨rs, after, hplain, hsealed, hrun⟩ :=
      sealChunks_sealed format iv hideal (hnum ▸ hcount) []
    have hpart : ∀ r ∈ rs, r.plaintext ≠ [] ∧ r.plaintext.length ≤ kMaxRecordPayload ∧
        r.plaintext.length ≤ data.length :=
      fun r hr => hparts _ (hplain ▸ mem_map_of_mem hr)
    refine ⟨recordBytes rs, ⟨true, some after⟩, ?_, ?_, ?_⟩
    · dsimp only [TlsSendHalf.encryptForSend]
      rw [hrun]
      rfl
    · -- The first record is the longest; if it does not fit, it stops the reader.
      intro hall hformat
      by_contra hlong
      obtain ⟨n, hn⟩ : ∃ n, data.length = n + 1 := Nat.exists_eq_add_one.mpr (by omega)
      have hne : ¬ data.isEmpty = true := by
        rw [isEmpty_iff_length_eq_zero]
        omega
      rw [hn, recordChunks, if_neg hne] at hplain
      cases rs with
      | nil => cases hplain
      | cons r rs =>
        have hfirst : r.plaintext = data.take kMaxRecordPayload := (List.cons.inj hplain).1
        obtain ⟨-, hlen, hseal, -⟩ := hsealed
        obtain ⟨hsize, -, -, hbad⟩ := sealRecord_opens hideal hlen hseal
        have htoolong : ¬ format.Fits r.plaintext.length := by
          rw [fits_iff hlen, hfirst, length_take, kMaxRecordPayload]
          intro hshort
          have := hshort hformat
          omega
        have hstop := feed_refuses openWith format iv seq (recordBytes rs)
          (by omega) (hbad htoolong)
        have hread := (hall [recordBytes (r :: rs)] (by simp)).2.2
        exact Option.some_ne_none _ (hstop.symm.trans hread)
    · intro hcond chunks hchunks
      have hfits : ∀ r ∈ rs, format.Fits r.plaintext.length := by
        intro r hr
        obtain ⟨-, hlen, hle⟩ := hpart r hr
        exact (fits_iff hlen).mpr fun hformat => Nat.le_trans hle (hcond hformat)
      have hframed := fun r hr => (hsealed.framed hideal r hr).2 (hfits r hr)
      obtain ⟨hemitted, hend⟩ := feedAll_between hideal hframed chunks
        (fresh_between hsealed hframed (fun r hr => (hpart r hr).1) hchunks)
      refine ⟨?_, hend⟩
      rw [hemitted, nil_append, hplain, hflat]

/-- A cipher that only adds a tag is ideal. -/
theorem tag_ideal : IdealAead tagSeal tagOpen where
  seals := fun _ _ plaintext => ⟨_, rfl, by rw [length_append, length_replicate]⟩
  opens := by
    intro nonce aad plaintext c
    unfold tagOpen tagSeal
    constructor
    · intro h
      split at h
      · rename_i htag
        cases h
        rw [← htag, take_append_drop]
      · cases h
    · intro h
      cases h
      rw [length_append, length_replicate, Nat.add_sub_cancel, drop_left, take_left, if_pos rfl]

/-- Two records under AES-GCM, from number 5 on, that arrive at once. -/
theorem tls_round_trip_two :
    ∃ records : List Bytes,
      ((mk .tls12AesGcm (Vector.replicate _ 7) 5).encryptAll tagSeal
        [[1, 2, 3], [4]]).1 = records.map some ∧
      ((RecordReader.fresh .tls12AesGcm (Vector.replicate _ 7) 5).feedAll tagOpen
        [records.flatten]).emitted = [[1, 2, 3], [4]] := by
  obtain ⟨records, hrecords, -, hiff⟩ :=
    (tls_round_trip_iff tag_ideal .tls12AesGcm (Vector.replicate _ 7) 5).1 [[1, 2, 3], [4]]
      (by decide) (by decide)
  exact ⟨records, hrecords, ((hiff.mpr (by decide)).1 [records.flatten] (by simp)).1⟩

/-- **The longest plaintexts do not make it.**  Under AES-GCM a plaintext of 16384 bytes is
sealed, and the peer refuses the header of the record. -/
theorem tls_longest_refused :
    ∃ record, (mk .tls12AesGcm (Vector.replicate _ 7) 0).encrypt tagSeal
        (List.replicate kMaxRecordPayload 1) =
          (some record, ⟨.tls12AesGcm, Vector.replicate _ 7, 1⟩) ∧
      ((RecordReader.fresh .tls12AesGcm (Vector.replicate _ 7) 0).feedAll tagOpen [record]).error =
        some ⟨.tlsRecordBad, "TlsState::process_records_in_place: bad header"⟩ ∧
      ((TlsDecryptor.mk .tls12AesGcm (Vector.replicate _ 7) 0).decrypt tagOpen record).1 =
        none := by
  have hlen : (List.replicate kMaxRecordPayload (1 : UInt8)).length = kMaxRecordPayload :=
    length_replicate
  obtain ⟨payload, hseal, -⟩ := sealRecord_parts tag_ideal
    ⟨.tls12AesGcm, Vector.replicate _ 7, 0⟩ (List.replicate kMaxRecordPayload 1)
  obtain ⟨hsize, -, -, hbad⟩ := sealRecord_opens tag_ideal (Nat.le_of_eq hlen) hseal
  have hheader := hbad (by rw [hlen]; decide)
  refine ⟨_, encrypt_sealed (Nat.le_of_eq hlen) (by decide) hseal, ?_, decrypt_refuses _ hheader⟩
  have hstop := feed_refuses tagOpen .tls12AesGcm (Vector.replicate _ 7) 0 [] (by omega) hheader
  rwa [append_nil] at hstop

end Eph.Net
