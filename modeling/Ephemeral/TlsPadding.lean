import Ephemeral.TlsRoundTrip

/-!
# Padded records

Under TLS 1.3 a sender may put zero bytes behind the content type of what it seals.  The header
check is said to refuse such records, but it only limits their length.  The decryptor takes the
last byte for the content type; that of a padded record is zero, so the loop skips the record and
goes on as if it held no application data.
-/

namespace Eph.Net

open ByteOrder Core
open List hiding Vector

/-- A record of application data with padding. -/
structure PaddedRecord where
  bytes : Bytes
  content : Bytes
  padding : Nat

namespace PaddedRecord

/-- What was sealed. -/
def inner (r : PaddedRecord) : Bytes :=
  r.content ++ kContentTypeAppData :: replicate r.padding 0

/-- The contents to be passed on: an empty one is not. -/
def contents (rs : List PaddedRecord) : List Bytes :=
  (rs.filter (·.content ≠ [])).map content

/-- What the loop passes on. -/
def shown (rs : List PaddedRecord) : List Bytes :=
  contents (rs.filter (·.padding = 0))

/-- The records pass the header check, and the cipher opens one after the other. -/
def OpenFrom (aead : Open) : TlsInPlaceDecryptor → List PaddedRecord → Prop
  | _, [] => True
  | dec, r :: rs =>
    (∃ len, parseRecordHeader r.bytes = some len ∧ r.bytes.length = kRecordHeaderLen + len) ∧
      aead (buildNonce dec.iv dec.seq) (r.bytes.take kRecordHeaderLen)
        (r.bytes.drop kRecordHeaderLen) = some r.inner ∧
      OpenFrom aead { dec with seq := dec.seq + 1 } rs

variable {sealWith : Seal} {aead : Open} {rs : List PaddedRecord} {dec : TlsInPlaceDecryptor}

/-- The last byte decides what is passed on. -/
theorem splitInner_inner (r : PaddedRecord) :
    ∃ plaintext ct, splitInner r.inner = some (plaintext, ct) ∧
      shown [r] = if ct = kContentTypeAppData ∧ plaintext ≠ [] then [plaintext] else [] := by
  obtain ⟨bytes, content, padding⟩ := r
  cases padding with
  | zero =>
    refine ⟨content, _, splitInner_concat content _, ?_⟩
    cases content <;> simp [shown, contents]
  | succ k =>
    refine ⟨content ++ kContentTypeAppData :: replicate k 0, 0, ?_, rfl⟩
    rw [← splitInner_concat, inner, replicate_succ', append_assoc, cons_append]

/-- What is missing is the content of the padded records. -/
theorem shown_eq_iff (rs : List PaddedRecord) :
    shown rs = contents rs ↔ ∀ r ∈ rs, r.content ≠ [] → r.padding = 0 := by
  have hshown : shown rs = ((rs.filter (·.content ≠ [])).filter (·.padding = 0)).map content := by
    simp only [shown, contents, filter_filter, Bool.and_comm]
  rw [hshown, contents]
  constructor
  · intro heq r hr hcontent
    have hlen := congrArg length heq
    rw [length_map, length_map, length_filter_eq_length_iff] at hlen
    simpa using hlen r (mem_filter.mpr ⟨hr, by simpa using hcontent⟩)
  · intro h
    rw [filter_eq_self.mpr]
    intro r hr
    obtain ⟨hmem, hcontent⟩ := mem_filter.mp hr
    simpa using h r hmem (by simpa using hcontent)

/-- The loop on a run of records: it fails where the record numbers end, and else passes on what is
shown of the records. -/
theorem processRecords_padded (hideal : IdealAead sealWith aead)
    (hformat : dec.recordFormat = .tls13) (hopens : OpenFrom aead dec rs) (fuel : Nat)
    (hfuel : (rs.flatMap bytes).length ≤ fuel) (emitted : List Bytes) (consumed : Nat) :
    ∃ res dec' out, processRecords (openContent aead) emitContent inPlaceErrors fuel
        (dec, emitted) (rs.flatMap bytes) consumed = (res, dec', emitted ++ out) ∧
      ((∃ e, res = .error e) ∧ 2 ^ 32 < dec.seq.toNat + rs.length ∨
        (∃ n, res = .ok n) ∧ out = shown rs ∧ (2 ^ 32 < dec.seq.toNat + rs.length → rs = [])) := by
  induction rs generalizing dec fuel emitted consumed with
  | nil =>
    refine ⟨.ok consumed, dec, [], ?_, .inr ⟨⟨_, rfl⟩, rfl, fun _ => rfl⟩⟩
    cases fuel <;> simp [processRecords, kRecordHeaderLen]
  | cons r rs ih =>
    obtain ⟨⟨len, hheader, hlen⟩, hopen, hrest⟩ := hopens
    rw [flatMap_cons, length_append, hlen, kRecordHeaderLen] at hfuel
    obtain ⟨fuel, rfl⟩ := Nat.exists_eq_add_of_le' (show 1 ≤ fuel by omega)
    rw [flatMap_cons, processRecords_front _ _ _ _ _ hheader hlen]
    by_cases hseq : dec.seq < kMaxSequenceNumber
    · have hlt : dec.seq.toNat < 2 ^ 32 := UInt64.lt_iff_toNat_lt.mp hseq
      have hbody : openBody aead dec.recordFormat dec.iv dec.seq (r.bytes.take kRecordHeaderLen)
          (r.bytes.drop kRecordHeaderLen) = splitInner r.inner := by
        obtain ⟨c, hsealed, htag⟩ := hideal.seals (buildNonce dec.iv dec.seq)
          (r.bytes.take kRecordHeaderLen) r.inner
        rw [(hideal.opens ..).mp hopen] at hsealed
        cases hsealed
        rw [inner, length_append, length_cons] at htag
        rw [hformat, openBody, if_neg (by omega), hopen, Option.bind_some]
      obtain ⟨plaintext, ct, hsplit, hshown⟩ := r.splitInner_inner
      obtain ⟨res, dec', out, hrun, hout⟩ := @ih { dec with seq := dec.seq + 1 } hformat hrest fuel
        (by omega) (emitted ++ shown [r]) (consumed + r.bytes.length)
      rw [append_assoc] at hrun
      refine ⟨res, dec', shown [r] ++ out, ?_, ?_⟩
      · rw [openContent_opened hseq (hbody.trans hsplit), ← hrun, hshown]
        dsimp only [emitContent]
        split_ifs
        · rfl
        · rw [append_nil]
      · rw [succ_toNat hlt] at hout
        rw [length_cons]
        rcases hout with ⟨herror, hover⟩ | ⟨hok, hflat, hlimit⟩
        · exact .inl ⟨herror, by omega⟩
        · have hcons : shown (r :: rs) = shown [r] ++ shown rs := by
            rw [shown, shown, shown, contents, contents, contents, ← map_append, ← filter_append,
              ← filter_append, singleton_append]
          refine .inr ⟨hok, by rw [hcons, hflat], fun hover => ?_⟩
          rw [hlimit (by omega), length_nil] at hover
          omega
    · refine ⟨_, dec, [], ?_, .inl ⟨⟨inPlaceErrors.openFailed, rfl⟩, ?_⟩⟩
      · simp [openContent, TlsInPlaceDecryptor.openInPlace, UInt64.not_lt.mp hseq]
      · have hover : 2 ^ 32 ≤ dec.seq.toNat := UInt64.le_iff_toNat_le.mp (UInt64.not_lt.mp hseq)
        exact Nat.lt_of_le_of_lt hover (Nat.lt_add_of_pos_right (Nat.succ_pos _))

/-- **Padded records are dropped.**  A run of TLS 1.3 records whose inner plaintexts are content,
the type of application data and padding: the call fails or passes on all of the content exactly if
no content is followed by padding, or the record numbers end within the run. -/
theorem padded_content_iff {sealWith : Seal} {aead : Open} (hideal : IdealAead sealWith aead)
    (half : TlsReceiveHalf) (dec : TlsInPlaceDecryptor) (hhalf : half = ⟨true, some dec⟩)
    (hformat : dec.recordFormat = .tls13) (records : List PaddedRecord)
    (hopens : OpenFrom aead dec records) (emitted : List Bytes) :
    ((∃ e, (half.processRecordsInPlace aead (records.flatMap bytes) emitted).1 = .error e) ∨
        (half.processRecordsInPlace aead (records.flatMap bytes) emitted).2.2 =
          emitted ++ contents records) ↔
      2 ^ 32 < dec.seq.toNat + records.length ∨ ∀ r ∈ records, r.content ≠ [] → r.padding = 0 := by
  obtain ⟨res, dec', out, hrun, hout⟩ :=
    processRecords_padded hideal hformat hopens _ (Nat.le_refl _) emitted 0
  simp only [hhalf, TlsReceiveHalf.processRecordsInPlace, hrun, append_cancel_left_eq]
  rcases hout with ⟨herror, hover⟩ | ⟨⟨n, rfl⟩, hflat, hlimit⟩
  · exact iff_of_true (.inl herror) (.inl hover)
  · rw [hflat, shown_eq_iff]
    refine ⟨fun h => .inr (h.resolve_left nofun), fun h => .inr (h.elim (fun hover => ?_) id)⟩
    rw [hlimit hover]
    exact nofun

/-- One byte, sealed with the sample cipher. -/
def sample (padding : Nat) : PaddedRecord where
  bytes := writeRecordHeader kContentTypeAppData (18 + padding) ++
    65 :: kContentTypeAppData :: replicate (padding + kAuthTagLen) 0
  content := [65]
  padding := padding

def sampleHalf : TlsReceiveHalf := ⟨true, some ⟨.tls13, Vector.replicate _ 0, 0⟩⟩

/-- Without padding the byte arrives. -/
theorem padded_content_plain :
    (∃ e, (sampleHalf.processRecordsInPlace tagOpen ([sample 0].flatMap bytes) []).1 = .error e) ∨
      (sampleHalf.processRecordsInPlace tagOpen ([sample 0].flatMap bytes) []).2.2 =
        [] ++ contents [sample 0] :=
  (padded_content_iff tag_ideal sampleHalf _ rfl rfl [sample 0] ⟨⟨18, rfl, rfl⟩, rfl, trivial⟩
    []).mpr (.inr (by decide))

/-- With one byte of padding the call succeeds and the content is gone. -/
theorem padded_content_lost :
    OpenFrom tagOpen ⟨.tls13, Vector.replicate _ 0, 0⟩ [sample 1] ∧
      (sampleHalf.processRecordsInPlace tagOpen (sample 1).bytes []).1 = .ok 24 ∧
      (sampleHalf.processRecordsInPlace tagOpen (sample 1).bytes []).2.2 = [] :=
  ⟨⟨⟨19, rfl, rfl⟩, rfl, trivial⟩, rfl, rfl⟩

end PaddedRecord

end Eph.Net
