import Ephemeral.CoreTypes

/-!
# The TLS record loop

Both backends turn received bytes into plaintext with the same loop: read a record
header, wait until the whole record is there, open it, and pass application data on.
`processRecords` is that loop.  It runs on a world `ω` whose decryptor opens one
record at a time, and calls `emit` for every record of application data.

`RecordLayer` says what an ideal record layer is: the decryptor opens the records
that the peer sealed, in order, and nothing else.  For such a layer the loop opens a
run of consecutive records whatever bytes it is given (`processRecords_authentic`),
and on the peer's own bytes it opens all that are complete (`processRecords_complete`).
-/

namespace Eph.Net

open ByteOrder Core List

variable {r : Record}

def kRecordHeaderLen : Nat := 5
def kAuthTagLen : Nat := 16
def kMaxRecordPayload : Nat := 16384
def kContentTypeAppData : UInt8 := 0x17

/-- `parse_record_header`: the payload length of an application data record. -/
def parseRecordHeader (src : Bytes) : Option Nat :=
  let payloadLen := (be16At src 3).toNat
  if u8At src 0 = kContentTypeAppData ∧ payloadLen ≤ kMaxRecordPayload + kAuthTagLen + 1 then
    some payloadLen
  else none

/-- The two ways in which the loop fails. -/
structure RecordErrors where
  badHeader : ErrorInfo
  openFailed : ErrorInfo

/-- The errors of `process_records_in_place`. -/
def inPlaceErrors : RecordErrors where
  badHeader := ⟨.tlsRecordBad, "TlsState::process_records_in_place: bad header"⟩
  openFailed := ⟨.tlsCipherFailed, "TlsState::process_records_in_place: AEAD open failed"⟩

section Loop

variable {ω : Type} (openRecord : ω → Bytes → Option (Bytes × UInt8) × ω) (emit : ω → Bytes → ω)

/-- The record loop: `buf` is what is left of the input and `consumed` what was taken
from it.  Every round takes a header, so the length of the input bounds the rounds. -/
def processRecords (errs : RecordErrors) : Nat → ω → Bytes → Nat → Except ErrorInfo Nat × ω
  | 0, w, _, consumed => (.ok consumed, w)
  | fuel + 1, w, buf, consumed =>
    if buf.length < kRecordHeaderLen then (.ok consumed, w)
    else
      match parseRecordHeader buf with
      | none => (.error errs.badHeader, w)
      | some payloadLen =>
        let total := kRecordHeaderLen + payloadLen
        if buf.length < total then (.ok consumed, w)
        else
          match openRecord w (buf.take total) with
          | (none, w) => (.error errs.openFailed, w)
          | (some (plaintext, innerCt), w) =>
            let w := if innerCt = kContentTypeAppData ∧ plaintext ≠ [] then emit w plaintext else w
            processRecords errs fuel w (buf.drop total) (consumed + total)

/-- A record that the peer sealed, with its plaintext. -/
structure Record where
  bytes : Bytes
  plaintext : Bytes
  deriving DecidableEq

/-- A record with an intact header. -/
def Record.Framed (r : Record) : Prop :=
  ∃ len, parseRecordHeader r.bytes = some len ∧ r.bytes.length = kRecordHeaderLen + len

/-- A record with an intact header and some application data in it. -/
def Record.WellFormed (r : Record) : Prop :=
  (∃ len, parseRecordHeader r.bytes = some len ∧ r.bytes.length = kRecordHeaderLen + len) ∧
    r.plaintext ≠ []

theorem Record.WellFormed.framed (h : r.WellFormed) : r.Framed := h.1

/-- The bytes of a run of records. -/
def recordBytes (records : List Record) : Bytes :=
  records.flatMap (·.bytes)

/-- The application data of a run of records. -/
def recordData (records : List Record) : Bytes :=
  records.flatMap (·.plaintext)

@[simp] theorem recordBytes_nil : recordBytes [] = [] := rfl

@[simp] theorem recordData_nil : recordData [] = [] := rfl

@[simp] theorem recordBytes_append (a b : List Record) :
    recordBytes (a ++ b) = recordBytes a ++ recordBytes b :=
  flatMap_append

@[simp] theorem recordData_append (a b : List Record) :
    recordData (a ++ b) = recordData a ++ recordData b :=
  flatMap_append

@[simp] theorem recordBytes_cons (r : Record) (rs : List Record) :
    recordBytes (r :: rs) = r.bytes ++ recordBytes rs :=
  flatMap_cons

@[simp] theorem recordData_cons (r : Record) (rs : List Record) :
    recordData (r :: rs) = r.plaintext ++ recordData rs :=
  flatMap_cons

theorem recordData_ne_nil {records : List Record} (hne : records ≠ [])
    (hwf : ∀ r ∈ records, r.WellFormed) : recordData records ≠ [] := by
  obtain ⟨r, rs, rfl⟩ := exists_cons_of_ne_nil hne
  rw [recordData_cons]
  exact append_ne_nil_of_left_ne_nil (hwf r mem_cons_self).2 _

/-- An ideal record layer: `sealedRest w` are the records the peer has sealed and the
decryptor has not opened.  The next of them opens to its plaintext; anything else is
refused. -/
structure RecordLayer (sealedRest : ω → List Record) : Prop where
  opens : ∀ w r rs, sealedRest w = r :: rs →
    ∃ w', openRecord w r.bytes = (some (r.plaintext, kContentTypeAppData), w') ∧
      sealedRest w' = rs
  refuses : ∀ w bytes, (∀ r rs, sealedRest w = r :: rs → bytes ≠ r.bytes) →
    ∃ w', openRecord w bytes = (none, w') ∧ sealedRest w' = sealedRest w

/-- An ideal record layer seen from a larger state that holds the decryptor. -/
theorem RecordLayer.lift {τ : Type} {openRecord : τ → Bytes → Option (Bytes × UInt8) × τ}
    {sealedRest : τ → List Record} (h : RecordLayer openRecord sealedRest) (tls : ω → τ)
    (setTls : ω → τ → ω) (hset : ∀ w t, tls (setTls w t) = t) :
    RecordLayer (fun w b => ((openRecord (tls w) b).1, setTls w (openRecord (tls w) b).2))
      fun w => sealedRest (tls w) where
  opens := by
    intro w r rs hrest
    obtain ⟨t, hopen, hrest'⟩ := h.opens (tls w) r rs hrest
    refine ⟨setTls w t, by rw [hopen], ?_⟩
    rw [hset]
    exact hrest'
  refuses := by
    intro w bytes hnot
    obtain ⟨t, hopen, hrest'⟩ := h.refuses (tls w) bytes hnot
    refine ⟨setTls w t, by rw [hopen], ?_⟩
    rw [hset]
    exact hrest'

theorem parseRecordHeader_append {buf : Bytes} (h : kRecordHeaderLen ≤ buf.length)
    (more : Bytes) : parseRecordHeader (buf ++ more) = parseRecordHeader buf := by
  unfold kRecordHeaderLen at h
  have hfirst : u8At (buf ++ more) 0 = u8At buf 0 := by
    rw [u8At, u8At, getD_eq_getElem?_getD, getD_eq_getElem?_getD, getElem?_append_left (by omega)]
  have hlen : be16At (buf ++ more) 3 = be16At buf 3 := by
    rw [be16At, be16At, drop_append_of_le_length (by omega),
      take_append_of_le_length (by rw [length_drop]; omega)]
  rw [parseRecordHeader, parseRecordHeader, hfirst, hlen]

section Ideal

variable {openRecord} {sealedRest : ω → List Record}

/-- What the loop does with a plaintext: an empty one is not passed on. -/
def passOn (emit : ω → Bytes → ω) (w : ω) (plaintext : Bytes) : ω :=
  if plaintext ≠ [] then emit w plaintext else w

/-- One round on a record that is all there. -/
theorem processRecords_front (openRecord : ω → Bytes → Option (Bytes × UInt8) × ω)
    (emit : ω → Bytes → ω) (errs : RecordErrors) (fuel : Nat) (w : ω) {record : Bytes} {len : Nat}
    (hheader : parseRecordHeader record = some len)
    (hlen : record.length = kRecordHeaderLen + len) (tail : Bytes) (consumed : Nat) :
    processRecords openRecord emit errs (fuel + 1) w (record ++ tail) consumed =
      match openRecord w record with
      | (none, w) => (.error errs.openFailed, w)
      | (some (plaintext, innerCt), w) =>
        processRecords openRecord emit errs fuel
          (if innerCt = kContentTypeAppData ∧ plaintext ≠ [] then emit w plaintext else w) tail
          (consumed + record.length) := by
  rw [processRecords, parseRecordHeader_append (by omega), hheader, length_append,
    if_neg (by omega)]
  dsimp only
  rw [if_neg (by omega), take_left' hlen, drop_left' hlen, hlen]

/-- One round of the loop: it stops without opening anything, or it opens the next
record of the peer, which is at the front of the input. -/
theorem processRecords_round (hlayer : RecordLayer openRecord sealedRest) (errs : RecordErrors)
    (fuel : Nat) (w : ω) (buf : Bytes) (consumed : Nat) :
    (∃ res w', processRecords openRecord emit errs (fuel + 1) w buf consumed = (res, w') ∧
      (w' = w ∨ ∃ bytes, w' = (openRecord w bytes).2) ∧ sealedRest w' = sealedRest w ∧
      ∀ n, res = .ok n → n = consumed) ∨
    ∃ r rs w' tail, sealedRest w = r :: rs ∧ w' = (openRecord w r.bytes).2 ∧
      sealedRest w' = rs ∧ buf = r.bytes ++ tail ∧
      processRecords openRecord emit errs (fuel + 1) w buf consumed =
        processRecords openRecord emit errs fuel (passOn emit w' r.plaintext) tail
          (consumed + r.bytes.length) := by
  by_cases hshort : buf.length < kRecordHeaderLen
  · refine .inl ⟨.ok consumed, w, ?_, .inl rfl, rfl, fun n hn => (Except.ok.inj hn).symm⟩
    simp only [processRecords, hshort, if_true]
  cases hheader : parseRecordHeader buf with
  | none =>
    refine .inl ⟨.error errs.badHeader, w, ?_, .inl rfl, rfl, fun n hn => by cases hn⟩
    simp only [processRecords, hshort, if_false, hheader]
  | some len =>
    by_cases hpart : buf.length < kRecordHeaderLen + len
    · refine .inl ⟨.ok consumed, w, ?_, .inl rfl, rfl, fun n hn => (Except.ok.inj hn).symm⟩
      simp only [processRecords, hshort, if_false, hheader, hpart, if_true]
    by_cases hnext : ∃ r rs, sealedRest w = r :: rs ∧
        buf.take (kRecordHeaderLen + len) = r.bytes
    · obtain ⟨r, rs, hrest, hbytes⟩ := hnext
      obtain ⟨w', hopen, hrest'⟩ := hlayer.opens w r rs hrest
      have hrlen : r.bytes.length = kRecordHeaderLen + len := by
        rw [← hbytes, length_take]
        omega
      obtain ⟨tail, rfl⟩ : r.bytes <+: buf := hbytes ▸ List.take_prefix _ buf
      rw [parseRecordHeader_append (by omega)] at hheader
      refine .inr ⟨r, rs, w', tail, hrest, by rw [hopen], hrest', rfl, ?_⟩
      rw [processRecords_front openRecord emit errs fuel w hheader hrlen, hopen]
      simp only [true_and, passOn]
    · obtain ⟨w', hopen, hrest'⟩ := hlayer.refuses w (buf.take (kRecordHeaderLen + len))
        fun r rs hrest hbytes => hnext ⟨r, rs, hrest, hbytes⟩
      refine .inl ⟨.error errs.openFailed, w', ?_,
        .inr ⟨buf.take (kRecordHeaderLen + len), by rw [hopen]⟩, hrest', fun n hn => by cases hn⟩
      simp only [processRecords, hshort, if_false, hheader, hpart, hopen]

theorem Record.Framed.length_pos (h : r.Framed) : 0 < r.bytes.length := by
  obtain ⟨len, -, hlen⟩ := h
  unfold kRecordHeaderLen at hlen
  omega

theorem Record.WellFormed.length_pos (h : r.WellFormed) : 0 < r.bytes.length :=
  h.framed.length_pos

/-- **The loop opens what is expected.**  `Inv w done rest` says that the records `done` were
opened and that `rest` are to come; the next of them opens.  On the bytes of the records
to come, or a part of them, the loop opens every record that is all there, without error;
what is left of the input is a proper part of the next one. -/
theorem processRecords_expected (Inv : ω → List Record → List Record → Prop)
    (hstep : ∀ w done r rest, Inv w done (r :: rest) →
      ∃ w', openRecord w r.bytes = (some (r.plaintext, kContentTypeAppData), w') ∧
        Inv (passOn emit w' r.plaintext) (done ++ [r]) rest)
    (errs : RecordErrors) (fuel : Nat) (w : ω) (buf more : Bytes) (consumed : Nat)
    {done rest : List Record} (h : Inv w done rest) (hfuel : buf.length ≤ fuel)
    (hframed : ∀ r ∈ rest, r.Framed) (hbuf : buf ++ more = recordBytes rest) :
    ∃ opened tail rest' w', processRecords openRecord emit errs fuel w buf consumed =
        (.ok (consumed + (recordBytes opened).length), w') ∧
      rest = opened ++ rest' ∧ Inv w' (done ++ opened) rest' ∧
      buf = recordBytes opened ++ tail ∧ tail ++ more = recordBytes rest' ∧
      ∀ r rs, rest' = r :: rs → tail.length < r.bytes.length := by
  induction fuel generalizing w buf consumed done rest with
  | zero =>
    have hnil : buf = [] := length_eq_zero_iff.mp (by omega)
    subst hnil
    refine ⟨[], [], rest, w, rfl, rfl, (append_nil done).symm ▸ h, rfl, hbuf, ?_⟩
    rintro r rs rfl
    exact (hframed r mem_cons_self).length_pos
  | succ fuel ih =>
    cases rest with
    | nil =>
      have hnil : buf = [] := (append_eq_nil_iff.mp hbuf).1
      subst hnil
      refine ⟨[], [], [], w, ?_, rfl, (append_nil done).symm ▸ h, rfl, hbuf, nofun⟩
      simp [processRecords, kRecordHeaderLen]
    | cons r rs =>
      obtain ⟨len, hheader, hlen⟩ := hframed r mem_cons_self
      rw [recordBytes_cons] at hbuf
      by_cases hpart : buf.length < r.bytes.length
      · refine ⟨[], buf, r :: rs, w, ?_, rfl, (append_nil done).symm ▸ h, rfl, ?_, ?_⟩
        · by_cases hshort : buf.length < kRecordHeaderLen
          · simp only [processRecords, hshort, if_true, recordBytes_nil, length_nil, Nat.add_zero]
          have hsame : parseRecordHeader buf = some len := by
            rw [← parseRecordHeader_append (by omega) more, hbuf,
              parseRecordHeader_append (by omega), hheader]
          have hwait : buf.length < kRecordHeaderLen + len := by omega
          simp only [processRecords, hshort, if_false, hsame, hwait, if_true, recordBytes_nil,
            length_nil, Nat.add_zero]
        · rw [recordBytes_cons]
          exact hbuf
        · intro r' rs' hcons
          rw [← (List.cons.inj hcons).1]
          exact hpart
      · obtain ⟨tail, htail⟩ := prefix_of_prefix_length_le
          (prefix_append r.bytes (recordBytes rs)) (hbuf ▸ prefix_append buf more)
          (by omega)
        subst htail
        rw [append_assoc] at hbuf
        have hbuf' := append_cancel_left hbuf
        obtain ⟨w', hopen, hnext⟩ := hstep w done r rs h
        have hround := processRecords_front openRecord emit errs fuel w hheader hlen tail consumed
        simp only [hopen, true_and] at hround
        obtain ⟨opened, tail', rest', w'', hres, hsplit, hinv, hbytes, hmore, hlast⟩ :=
          ih (passOn emit w' r.plaintext) tail (consumed + r.bytes.length) hnext
            (by rw [length_append] at hfuel; unfold kRecordHeaderLen at hlen; omega)
            (fun r' hr' => hframed r' (mem_cons_of_mem r hr')) hbuf'
        refine ⟨r :: opened, tail', rest', w'', ?_, ?_, ?_, ?_, hmore, hlast⟩
        · rw [recordBytes_cons, length_append, ← Nat.add_assoc]
          exact hround.trans hres
        · rw [hsplit, cons_append]
        · rwa [append_assoc] at hinv
        · rw [recordBytes_cons, append_assoc, ← hbytes]

section Emitted

variable (hlayer : RecordLayer openRecord sealedRest)
  (hemit : ∀ w p, sealedRest (emit w p) = sealedRest w) {P : ω → Bytes → Prop}
  (hopenP : ∀ w bytes acc, P w acc → P (openRecord w bytes).2 acc)
  (hemitP : ∀ w p acc, P w acc → P (emit w p) (acc ++ p))

include hemit in
theorem sealedRest_passOn (w : ω) (p : Bytes) : sealedRest (passOn emit w p) = sealedRest w := by
  unfold passOn
  split
  · exact hemit w p
  · rfl

include hemitP in
theorem passOn_keeps {w : ω} {acc : Bytes} (p : Bytes) (h : P w acc) :
    P (passOn emit w p) (acc ++ p) := by
  unfold passOn
  split
  · exact hemitP w p acc h
  rename_i hp
  rw [not_not.mp hp, append_nil]
  exact h

include hlayer hemit hopenP hemitP

/-- **Authenticity.**  Whatever the loop is given, it opens a run of the records that
come next, and passes on their data; the run fits into the input.  `P w acc` is any
account of the data `acc` that was passed on. -/
theorem processRecords_authentic (errs : RecordErrors) (fuel : Nat) (w : ω) (buf : Bytes)
    (consumed : Nat) {acc : Bytes} (hP : P w acc) :
    ∃ opened res w', processRecords openRecord emit errs fuel w buf consumed = (res, w') ∧
      sealedRest w = opened ++ sealedRest w' ∧ P w' (acc ++ recordData opened) ∧
      (recordBytes opened).length ≤ buf.length ∧
      ∀ n, res = .ok n → n = consumed + (recordBytes opened).length := by
  induction fuel generalizing w buf consumed acc with
  | zero =>
    refine ⟨[], .ok consumed, w, rfl, rfl, ?_, Nat.zero_le _, ?_⟩
    · rw [recordData_nil, append_nil]
      exact hP
    · intro n hn
      exact (Except.ok.inj hn).symm
  | succ fuel ih =>
    rcases processRecords_round emit hlayer errs fuel w buf consumed
      with ⟨res, w', hstop, hw', hrest, hok⟩ | ⟨r, rs, w', tail, hrest, hw', hrest', rfl, hstep⟩
    · refine ⟨[], res, w', hstop, by rw [hrest, nil_append], ?_, Nat.zero_le _, hok⟩
      rw [recordData_nil, append_nil]
      rcases hw' with rfl | ⟨bytes, rfl⟩
      · exact hP
      · exact hopenP w bytes acc hP
    · have hPw' : P w' acc := hw' ▸ hopenP w r.bytes acc hP
      obtain ⟨opened, res, w'', hres, hsplit, hPend, hlen, hok⟩ :=
        ih (passOn emit w' r.plaintext) tail (consumed + r.bytes.length)
          (passOn_keeps emit hemitP r.plaintext hPw')
      rw [sealedRest_passOn emit hemit, hrest'] at hsplit
      refine ⟨r :: opened, res, w'', hstep.trans hres, ?_, ?_, ?_, ?_⟩
      · rw [hrest, hsplit, cons_append]
      · rw [recordData_cons, ← append_assoc]
        exact hPend
      · rw [recordBytes_cons, length_append, length_append]
        omega
      · intro n hn
        rw [recordBytes_cons, length_append, hok n hn]
        omega

/-- **Completeness.**  On the peer's own bytes the loop opens every record that is all
there, without error; what is left of the input is a proper part of the next one. -/
theorem processRecords_complete (errs : RecordErrors) (fuel : Nat) (w : ω) (buf more : Bytes)
    (consumed : Nat) {acc : Bytes} (hP : P w acc) (hfuel : buf.length ≤ fuel)
    (hwf : ∀ r ∈ sealedRest w, r.Framed) (hbuf : buf ++ more = recordBytes (sealedRest w)) :
    ∃ opened tail w', processRecords openRecord emit errs fuel w buf consumed =
        (.ok (consumed + (recordBytes opened).length), w') ∧
      sealedRest w = opened ++ sealedRest w' ∧ P w' (acc ++ recordData opened) ∧
      buf = recordBytes opened ++ tail ∧
      ∀ r rs, sealedRest w' = r :: rs → tail.length < r.bytes.length := by
  have hstep : ∀ w done r rest, sealedRest w = r :: rest ∧ P w (acc ++ recordData done) →
      ∃ w', openRecord w r.bytes = (some (r.plaintext, kContentTypeAppData), w') ∧
        sealedRest (passOn emit w' r.plaintext) = rest ∧
        P (passOn emit w' r.plaintext) (acc ++ recordData (done ++ [r])) := by
    rintro w done r rest ⟨hrest, hP⟩
    obtain ⟨w', hopen, hrest'⟩ := hlayer.opens w r rest hrest
    have hP' := hopenP w r.bytes _ hP
    rw [hopen] at hP'
    refine ⟨w', hopen, by rw [sealedRest_passOn emit hemit, hrest'], ?_⟩
    rw [recordData_append, recordData_cons, recordData_nil, append_nil, ← append_assoc]
    exact passOn_keeps emit hemitP r.plaintext hP'
  have hstart : P w (acc ++ recordData []) := by
    rwa [recordData_nil, append_nil]
  obtain ⟨opened, tail, rest, w', hres, hsplit, ⟨rfl, hPend⟩, hbytes, -, hlast⟩ :=
    processRecords_expected emit
      (fun w done rest => sealedRest w = rest ∧ P w (acc ++ recordData done)) hstep errs fuel w
      buf more consumed ⟨rfl, hstart⟩ hfuel hwf hbuf
  exact ⟨opened, tail, w', hres, hsplit, hPend, hbytes, hlast⟩

end Emitted

end Ideal

end Loop

end Eph.Net
