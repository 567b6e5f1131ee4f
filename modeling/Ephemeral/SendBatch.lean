import Ephemeral.TcpTransmit

/-!
# Batched sending

`send_batch` numbers and builds up to 32 segments before it knows how many of them the NIC
will take, hands them over in one burst and frees the rest.  `batch_sequential` says that
this is the same as calling `send` on as many payloads as went out.
-/

namespace Eph.Dpdk

open ByteOrder Core List

/-- What becomes of the next packet. -/
def Host.nextTx (host : Host) : TxOutcome := host.tx.head?.getD .sent

theorem transmit_spec (host : Host) (seg : TxSegment) :
    (host.transmit seg).1 = host.nextTx ∧
      (host.transmit seg).2.wire = host.wire ++ if host.nextTx = .sent then [seg] else [] := by
  unfold Host.transmit Host.nextTx
  split
  case h_3 outcome rest hne htx => cases outcome <;> simp_all
  all_goals simp_all

namespace TcpSession

variable {slots : Nat}

def kMaxBatchSize : Nat := 32

variable (s : TcpSession slots)

/-- A data segment at the distance `off` from the next sequence number. -/
def dataSegment (off : Nat) (data : Bytes) : TxSegment :=
  ⟨s.sndNxt + UInt32.ofNat off, s.rcvNxt, kTcpAck ||| kTcpPsh, s.rcvWnd, data⟩

/-- `total_payload_len_`. -/
def totalPayloadLen (segs : List TxSegment) : Nat :=
  (segs.map (·.payload.length)).sum

/-- The first loop of `send_batch`, with `mbufs` buffers left in the pool: it ends at a
payload that is too long, or when no buffer can be had. -/
def prepareBatch (s : TcpSession slots) : Nat → List TxSegment → List Bytes → List TxSegment
  | mbufs + 1, prepared, data :: rest =>
    if data.length > s.effectiveMss.toNat then prepared
    else prepareBatch s mbufs (prepared ++ [s.dataSegment (totalPayloadLen prepared) data]) rest
  | _, prepared, _ => prepared

/-- What a call of `send_batch` leaves behind; `freed` are the segments built in vain. -/
structure BatchOutcome (slots : Nat) where
  sent : Nat
  requested : Nat
  sess : TcpSession slots
  host : Host
  freed : List TxSegment

/-- `send_batch`: the pool has `mbufs` buffers and the NIC takes up to `accepted` packets. -/
def sendBatch (host : Host) (segments : List Bytes) (mbufs accepted : Nat) : BatchOutcome slots :=
  if s.state ≠ .established then ⟨0, segments.length, s, host, []⟩
  else
    let prepared := s.prepareBatch mbufs [] (segments.take kMaxBatchSize)
    let sent := min accepted prepared.length
    let sentBytes := totalPayloadLen (prepared.take sent)
    ⟨sent, segments.length, { s with
      sndNxt := s.sndNxt + UInt32.ofNat sentBytes
      ackPendingSinceTsc := if sent > 0 then 0 else s.ackPendingSinceTsc
      stats := { s.stats with
        txPackets := s.stats.txPackets + sent
        txBytes := s.stats.txBytes + sentBytes } },
      { host with wire := host.wire ++ prepared.take sent }, prepared.drop sent⟩

/-- The segments of some payloads, one behind the other. -/
def numbered (s : TcpSession slots) : Nat → List Bytes → List TxSegment
  | _, [] => []
  | off, data :: rest => s.dataSegment off data :: numbered s (off + data.length) rest

theorem length_numbered (off : Nat) (segments : List Bytes) :
    (s.numbered off segments).length = segments.length := by
  induction segments generalizing off with
  | nil => rfl
  | cons data rest ih => simp [numbered, ih]

theorem take_numbered (off k : Nat) (segments : List Bytes) :
    (s.numbered off segments).take k = s.numbered off (segments.take k) := by
  induction segments generalizing off k with
  | nil => simp [numbered]
  | cons data rest ih => cases k <;> simp [numbered, ih]

/-- What the loop builds: the first payloads, none too long; and all of them if none is and
the pool suffices. -/
theorem prepareBatch_spec (mbufs : Nat) (prepared : List TxSegment)
    (segments : List Bytes) : ∃ n, s.prepareBatch mbufs prepared segments =
        prepared ++ s.numbered (totalPayloadLen prepared) (segments.take n) ∧
      (∀ data ∈ segments.take n, data.length ≤ s.effectiveMss.toNat) ∧
      ((∀ data ∈ segments, data.length ≤ s.effectiveMss.toNat) → segments.length ≤ mbufs →
        segments.take n = segments) := by
  induction segments generalizing mbufs prepared with
  | nil => exact ⟨0, by cases mbufs <;> simp [prepareBatch, numbered], by simp, by simp⟩
  | cons data rest ih =>
    cases mbufs with
    | zero => exact ⟨0, by simp [prepareBatch, numbered], by simp, by simp⟩
    | succ mbufs =>
      by_cases hlen : data.length ≤ s.effectiveMss.toNat
      · obtain ⟨n, hbuilt, hshort, hall⟩ :=
          ih mbufs (prepared ++ [s.dataSegment (totalPayloadLen prepared) data])
        refine ⟨n + 1, ?_, by simpa [hlen] using hshort, fun h hpool => ?_⟩
        · rw [prepareBatch, if_neg (by omega), hbuilt]
          simp [numbered, totalPayloadLen, dataSegment]
        · rw [take_succ_cons, hall (fun d hd => h d (mem_cons_of_mem _ hd)) (by simpa using hpool)]
      · refine ⟨0, ?_, by simp, fun h => absurd (h data mem_cons_self) hlen⟩
        rw [prepareBatch, if_pos (by omega)]
        simp [numbered]

/-- A session `off` bytes further on. -/
def ahead (off : Nat) (ack : UInt64) (st : Stats) : TcpSession slots :=
  { s with sndNxt := s.sndNxt + UInt32.ofNat off, ackPendingSinceTsc := ack, stats := st }

/-- **What a `send` can do**: fail and change nothing, or put the segment on the wire. -/
theorem send_cases (host : Host) (data : Bytes) :
    ((∃ e, (s.send host data).1 = .error e) ∧ (s.send host data).2.1 = s ∧
      (s.send host data).2.2.wire = host.wire) ∨
    ((s.send host data).1 = .ok data.length ∧ s.state = .established ∧
      data.length ≤ s.effectiveMss.toNat ∧ (∃ st, (s.send host data).2.1 =
        s.ahead data.length 0 st) ∧
      (s.send host data).2.2.wire = host.wire ++ [s.dataSegment 0 data]) := by
  obtain ⟨hnext, hwire⟩ := transmit_spec host (s.dataSegment 0 data)
  rw [← hnext] at hwire
  have hseg : s.dataSegment 0 data =
      ⟨s.sndNxt, s.rcvNxt, kTcpAck ||| kTcpPsh, s.rcvWnd, data⟩ := by
    simp [dataSegment]
  unfold send
  split
  · exact .inl ⟨⟨_, rfl⟩, rfl, rfl⟩
  split
  · exact .inl ⟨⟨_, rfl⟩, rfl, rfl⟩
  rename_i hstate hlen
  rw [hseg] at hwire ⊢
  split <;> rename_i hsend <;> rw [hsend] at hwire
  · exact .inl ⟨⟨_, rfl⟩, rfl, by simpa using hwire⟩
  · exact .inl ⟨⟨_, rfl⟩, rfl, by simpa using hwire⟩
  · exact .inr ⟨rfl, not_not.mp hstate, Nat.not_lt.mp hlen, ⟨_, rfl⟩, by simpa using hwire⟩

/-- One `send` after the other, as long as they succeed; `true` if all do. -/
def sendEach (s : TcpSession slots) (host : Host) : List Bytes → Bool × TcpSession slots × Host
  | [] => (true, s, host)
  | data :: rest =>
    match s.send host data with
    | (.ok _, s, host) => s.sendEach host rest
    | (.error _, s, host) => (false, s, host)

/-- Payloads that are not too long can be sent one by one while the NIC takes everything. -/
theorem sendEach_spec (off : Nat) (ack : UInt64) (st : Stats) (host : Host)
    (segments : List Bytes) (htx : host.tx = []) (hstate : s.state = .established)
    (hlen : ∀ data ∈ segments, data.length ≤ s.effectiveMss.toNat) :
    ∃ st', (s.ahead off ack st).sendEach host segments =
      (true, s.ahead (off + totalPayloadLen (s.numbered off segments))
        (if segments = [] then ack else 0) st',
        { host with wire := host.wire ++ s.numbered off segments }) := by
  induction segments generalizing off ack st host with
  | nil => exact ⟨st, by simp [sendEach, numbered, totalPayloadLen]⟩
  | cons data rest ih =>
    have hfits := hlen data mem_cons_self
    have hsent : ∃ st₁, (s.ahead off ack st).send host data = (.ok data.length,
        s.ahead (off + data.length) 0 st₁,
        { host with wire := host.wire ++ [s.dataSegment off data] }) := by
      refine ⟨{ st with txPackets := st.txPackets + 1, txBytes := st.txBytes + data.length }, ?_⟩
      simp [send, ahead, hstate, Nat.not_lt.mpr hfits, Host.transmit, htx, dataSegment, noteTx,
        UInt32.ofNat_add, UInt32.add_assoc]
    obtain ⟨st₁, hsent⟩ := hsent
    obtain ⟨st', hrest⟩ := ih (off + data.length) 0 st₁
      { host with wire := host.wire ++ [s.dataSegment off data] } htx
      (fun d hd => hlen d (mem_cons_of_mem _ hd))
    refine ⟨st', ?_⟩
    rw [sendEach, hsent]
    dsimp only
    rw [hrest]
    simp [numbered, totalPayloadLen, dataSegment, Nat.add_assoc]

/-- **A batch is a sequence of sends.**  Whatever the pool and the NIC let through: sending the
payloads of the packets that went out one by one succeeds and leaves the session, counters
apart, and the wire as the batch does.  What was built is on the wire or freed, and all of it
is on the wire that the NIC takes, if `send_batch` accepts the payloads.  A batch of which
nothing went out, and a `send` that fails, leave the session as it was. -/
theorem batch_sequential (s : TcpSession slots) (host : Host) (segments : List Bytes)
    (mbufs accepted : Nat) :
    let o := s.sendBatch host segments mbufs accepted
    (∃ st, s.sendEach { host with tx := [] } (segments.take o.sent) =
        (true, { o.sess with stats := st }, { o.host with tx := [] })) ∧
      (s.state = .established → host.wire ++
        s.prepareBatch mbufs [] (segments.take kMaxBatchSize) = o.host.wire ++ o.freed) ∧
      (s.state = .established → (∀ data ∈ segments, data.length ≤ s.effectiveMss.toNat) →
        segments.length ≤ kMaxBatchSize → segments.length ≤ mbufs →
        o.sent = min accepted segments.length) ∧
      (o.sent = 0 → o.sess = s) ∧
      ∀ data e, (s.send host data).1 = .error e → (s.send host data).2.1 = s := by
  obtain ⟨n, hbuilt, hshort, hall⟩ := s.prepareBatch_spec mbufs [] (segments.take kMaxBatchSize)
  rw [nil_append, totalPayloadLen, map_nil, sum_nil, take_take] at hbuilt
  rw [take_take] at hshort hall
  refine ⟨?_, ?_, ?_, ?_, fun data e => (s.send_cases host data).elim (fun h _ => h.2.1) ?_⟩
  · by_cases hstate : s.state = .established
    · obtain ⟨k, hk, hle, hlen⟩ : ∃ k,
          min accepted (segments.take (min n kMaxBatchSize)).length = k ∧
            k ≤ min n kMaxBatchSize ∧ k ≤ segments.length :=
        ⟨_, rfl, by rw [length_take]; omega, by rw [length_take]; omega⟩
      obtain ⟨st, heach⟩ := s.sendEach_spec 0 s.ackPendingSinceTsc s.stats
        { host with tx := [] } (segments.take k) rfl hstate (fun d hd =>
          hshort d (take_subset_take_left _ hle hd))
      have hstart : s.ahead 0 s.ackPendingSinceTsc s.stats = s := by simp [ahead]
      have hpending : segments.take k = [] ↔ ¬k > 0 := by
        rw [← length_eq_zero_iff, length_take]
        omega
      refine ⟨st, ?_⟩
      rw [hstart] at heach
      simp only [sendBatch, if_neg (not_not.mpr hstate), hbuilt, length_numbered, hk, heach,
        take_numbered, take_take, Nat.min_eq_left hle, ahead, Nat.zero_add, hpending, ite_not]
    · exact ⟨s.stats, by simp [sendBatch, hstate, sendEach]⟩
  · intro hstate
    simp [sendBatch, hstate]
  · intro hstate hlen hcount hpool
    rw [take_of_length_le hcount] at hall
    have hwhole := hall hlen hpool
    simp [sendBatch, hstate, hbuilt, hwhole, length_numbered]
  · intro hnone
    by_cases hstate : s.state = .established
    · simp only [sendBatch, if_neg (not_not.mpr hstate)] at hnone ⊢
      simp [hnone, totalPayloadLen]
    · simp [sendBatch, hstate]
  · rintro ⟨hok, -⟩ herr
    rw [hok] at herr
    cases herr

end TcpSession

end Eph.Dpdk
