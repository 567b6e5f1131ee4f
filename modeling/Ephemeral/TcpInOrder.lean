import Ephemeral.TcpRun

/-!
# In-order delivery

A connection that is fed slices of one stream, in any order and with any loss,
duplication and overlap, hands its caller exactly the stream up to the frontier:
never a byte out of order, repeated or invented, also when a burst fails because
the reorder buffer is full.  When the slices are the cells of one partition of
the stream and no burst failed, the frontier is moreover as far as the received
cells allow.
-/

namespace Eph.Dpdk

open ByteOrder Core List Reassembly Serial

variable {slots : Nat} {s : TcpSession slots} {bursts : List (Clock × List Mbuf)} {irs : UInt32}
  {stream : Bytes}

/-- A segment of the peer's stream as the wire carries it: a slice at sequence
number `irs + 1 + off`, between one byte and a full Ethernet segment, without
SYN, RST or FIN. -/
structure IsStreamSegment (stream : Bytes) (irs : UInt32) (p : ParsedPacket) : Prop where
  slice : ∃ off, p.seq = fromBase (irs + 1) off ∧
    off + p.payload.length ≤ stream.length ∧
    p.payload = (stream.drop off).take p.payload.length
  pos : 1 ≤ p.payload.length
  len_le : p.payload.length ≤ kDefaultMss
  noSyn : p.hasFlag kTcpSyn = false
  noRst : p.hasFlag kTcpRst = false
  noFin : p.hasFlag kTcpFin = false

/-- The slice of the stream that a segment carries. -/
def ParsedPacket.toSeg (p : ParsedPacket) (irs : UInt32) : Seg :=
  Dpdk.toSeg (irs + 1) p.seq p.payload

/-- A slice given by its offset is a slice in terms of its sequence number. -/
theorem isSlice_of_offset {stream payload : Bytes} (hstream : stream.length < 2 ^ 31)
    {base : UInt32} {off : Nat} (hpos : 1 ≤ payload.length)
    (hle : off + payload.length ≤ stream.length)
    (hpayload : payload = (stream.drop off).take payload.length) :
    IsSlice stream base (fromBase base off) payload := by
  have hoff : offset base (fromBase base off) = off :=
    offset_fromBase base (by omega)
  refine ⟨hpos, ?_, ?_⟩
  · simp only [Dpdk.toSeg, Seg.stop, hoff]
    exact hle
  · simp only [Dpdk.toSeg, Seg.content, hoff]
    exact hpayload.symm

theorem IsStreamSegment.isData (hstream : stream.length < 2 ^ 31) {p : ParsedPacket}
    (h : IsStreamSegment stream irs p) : IsData stream (irs + 1) p := by
  obtain ⟨off, hseq, hle, hpayload⟩ := h.slice
  refine ⟨?_, h.noRst, h.noFin⟩
  rw [hseq]
  exact isSlice_of_offset hstream h.pos hle hpayload

/-- The receiver of a fresh connection has delivered nothing and holds nothing. -/
theorem receiver_start (hrcv : s.rcvNxt = irs + 1) (hbuf : s.reorderBuf.entries = []) :
    s.receiver (irs + 1) = ⟨0, []⟩ := by
  rw [TcpSession.receiver, hrcv, hbuf, offset_self, map_nil]

theorem following_start (hstate : s.state = .established) (hrcv : s.rcvNxt = irs + 1)
    (hbuf : s.reorderBuf.entries = []) : Following stream (irs + 1) s [] := by
  have hstart := receiver_start hrcv hbuf
  refine ⟨hstate, ⟨?_, ?_⟩, ?_⟩
  · rw [hstart]
    exact Nat.zero_le _
  · simp [hbuf]
  · simp [hstart]

/-- The slices that arrived in a run without errors are those of all its segments. -/
theorem RunFollows.map_arrivals (h : RunFollows stream (irs + 1) s bursts)
    (hok : (s.rxRun collect [] bursts).Succeeded) :
    ((s.rxRun collect [] bursts).arrivals.map (toArrival (irs + 1))).map (·.2) =
      (s.segments bursts).map (·.toSeg irs) := by
  rw [← h.segments hok, map_map, map_map]
  rfl

/-- **Longest prefix.**  In a run without errors whose arrivals were all clean, the
frontier is the length of the longest prefix that the received slices cover. -/
theorem RunFollows.isGreatest (h : RunFollows stream (irs + 1) s bursts)
    (hstart : s.receiver (irs + 1) = ⟨0, []⟩)
    (hlen : ∀ p ∈ s.segments bursts, 0 < p.payload.length ∧ p.payload.length ≤ kDefaultMss)
    (hok : (s.rxRun collect [] bursts).Succeeded)
    (hclean : ∀ x ∈ (s.rxRun collect [] bursts).arrivals,
      Clean (x.1.sess.receiver (irs + 1)) (x.2.toSeg irs)) :
    IsGreatest {m | m ≤ stream.length ∧ ∀ i < m, Covered ((s.segments bursts).map (·.toSeg irs)) i}
      ((s.rxRun collect [] bursts).sess.receiver (irs + 1)).next := by
  have hrun := h.run hok
  rw [hstart] at hrun
  have hset := hrun.settled settled_start (by simp)
    (by
      intro x hx
      obtain ⟨y, hy, rfl⟩ := mem_map.mp hx
      have hmem : y.2 ∈ s.segments bursts := by
        rw [← h.segments hok]
        exact mem_map_of_mem hy
      exact hlen y.2 hmem)
    (by
      intro x hx
      obtain ⟨y, hy, rfl⟩ := mem_map.mp hx
      exact hclean y hy)
  rw [nil_append, h.map_arrivals hok] at hset
  exact hset.isGreatest h.following.onStream.next_le

/-- Taking the first bursts of a run takes the first of its segments. -/
theorem mem_segments_take {k : Nat} {p : ParsedPacket} (h : p ∈ s.segments (bursts.take k)) :
    p ∈ s.segments bursts := by
  obtain ⟨b, hb, hp⟩ := mem_flatMap.mp h
  exact mem_flatMap.mpr ⟨b, mem_of_mem_take hb, hp⟩

/-- **In-order delivery.**  After every burst of the run, failed bursts included,
the caller holds the prefix of the stream that ends at the frontier; and when all
segments are cells of one partition of the stream and no burst failed so far, the
frontier is the end of the longest prefix covered by the cells received. -/
theorem in_order_delivery (stream : Bytes) (hstream : stream.length < 2 ^ 31) (irs : UInt32)
    (s : TcpSession slots) (hstate : s.state = .established) (hrcv : s.rcvNxt = irs + 1)
    (hbuf : s.reorderBuf.entries = []) (bursts : List (Clock × List Mbuf))
    (hsegs : ∀ p ∈ s.segments bursts, IsStreamSegment stream irs p) (k : Nat) :
    ∃ n, n ≤ stream.length ∧
      (s.rxRun collect [] (bursts.take k)).sess.rcvNxt = fromBase (irs + 1) n ∧
      (s.rxRun collect [] (bursts.take k)).user.flatten = stream.take n ∧
      ∀ lens : List Nat, lens.sum = stream.length →
        (∀ p ∈ s.segments bursts, IsCell lens (p.toSeg irs)) →
        (s.rxRun collect [] (bursts.take k)).Succeeded →
        IsGreatest {m | m ≤ stream.length ∧
          ∀ i < m, Covered ((s.segments (bursts.take k)).map (·.toSeg irs)) i} n := by
  have hsegs' : ∀ p ∈ s.segments (bursts.take k), IsStreamSegment stream irs p :=
    fun p hp => hsegs p (mem_segments_take hp)
  have hfol := rxRun_follows hstream (following_start hstate hrcv hbuf) (bursts.take k)
    fun p hp => (hsegs' p hp).isData hstream
  have hstart := receiver_start hrcv hbuf
  refine ⟨_, hfol.following.onStream.next_le, (fromBase_offset _ _).symm,
    hfol.following.delivered, ?_⟩
  intro lens _ hcells hok
  apply hfol.isGreatest hstart _ hok
  · -- cells of one partition are aligned, so every arrival is clean
    have hrun := hfol.run hok
    rw [hstart] at hrun
    have hclean := (aligned_isCell lens).run_clean hrun (by simp) (onBoundary_zero _)
      (by
        intro x hx
        obtain ⟨y, hy, rfl⟩ := mem_map.mp hx
        have hmem : y.2 ∈ s.segments (bursts.take k) := by
          rw [← hfol.segments hok]
          exact mem_map_of_mem hy
        exact hcells y.2 (mem_segments_take hmem))
    intro x hx
    exact hclean _ (mem_map_of_mem hx)
  · intro p hp
    exact ⟨(hsegs' p hp).pos, (hsegs' p hp).len_le⟩

instance (stream : Bytes) (base : UInt32) (p : ParsedPacket) : Decidable (IsData stream base p) :=
  decidable_of_iff ((0 < p.payload.length ∧ (Dpdk.toSeg base p.seq p.payload).stop ≤ stream.length ∧
      (Dpdk.toSeg base p.seq p.payload).content stream = p.payload) ∧
      p.hasFlag kTcpRst = false ∧ p.hasFlag kTcpFin = false)
    ⟨fun ⟨⟨hpos, hle, heq⟩, hrst, hfin⟩ => ⟨⟨hpos, hle, heq⟩, hrst, hfin⟩,
      fun h => ⟨⟨h.slice.pos, h.slice.stop_le, h.slice.content⟩, h.noRst, h.noFin⟩⟩

instance (stream : Bytes) (irs : UInt32) (p : ParsedPacket) :
    Decidable (IsStreamSegment stream irs p) :=
  decidable_of_iff ((∃ off < stream.length + 1, p.seq = fromBase (irs + 1) off ∧
        off + p.payload.length ≤ stream.length ∧
        p.payload = (stream.drop off).take p.payload.length) ∧
      1 ≤ p.payload.length ∧ p.payload.length ≤ kDefaultMss ∧ p.hasFlag kTcpSyn = false ∧
      p.hasFlag kTcpRst = false ∧ p.hasFlag kTcpFin = false)
    ⟨fun ⟨⟨off, _, hoff⟩, hpos, hlen, hsyn, hrst, hfin⟩ =>
        ⟨⟨off, hoff⟩, hpos, hlen, hsyn, hrst, hfin⟩,
      fun h => ⟨h.slice.imp fun off hoff => ⟨by omega, hoff⟩, h.pos, h.len_le, h.noSyn, h.noRst,
        h.noFin⟩⟩

/-- A connection used to exhibit concrete runs. -/
def sampleTuple : ConnectionTuple := ⟨0x0A000001, 0x0A000002, 40000, 443⟩

/-- An established session of that connection, waiting for the first byte after the
peer's initial sequence number `irs`. -/
def sampleSession (slots : Nat) (irs : UInt32) : TcpSession slots :=
  { TcpSession.create ⟨sampleTuple, 1460, 65535, 0, 0, 3⟩ (some 1) with
    state := .established
    rcvNxt := irs + 1 }

/-- The peer's segment at offset `off` with the given flags, and with as much of the data as a
segment holds. -/
def sampleMbuf (irs : UInt32) (off : Nat) (flags : UInt8) (data : Bytes) : Mbuf :=
  peerMbuf sampleTuple (fromBase (irs + 1) off) 1 flags 65535 (data.take kDefaultMss)
    (length_take_le _ _)

/-- The third byte arrives first, close to the end of the sequence space. -/
def sampleBursts : List (Clock × List Mbuf) :=
  [(⟨1, 0⟩, [sampleMbuf 0xFFFFFFFE 2 kTcpAck [30]]),
   (⟨2, 0⟩, [sampleMbuf 0xFFFFFFFE 0 kTcpAck [10, 20]])]

/-- Delivery in order, across the end of the sequence space. -/
theorem in_order_delivery_sample :
    ∃ n, n ≤ 3 ∧
      ((sampleSession 64 0xFFFFFFFE).rxRun collect [] sampleBursts).sess.rcvNxt =
        fromBase 0xFFFFFFFF n ∧
      ((sampleSession 64 0xFFFFFFFE).rxRun collect [] sampleBursts).user.flatten =
        [10, 20, 30].take n := by
  obtain ⟨n, hn, hrcv, huser, -⟩ := in_order_delivery [10, 20, 30] (by decide) 0xFFFFFFFE
    (sampleSession 64 0xFFFFFFFE) rfl rfl rfl sampleBursts (by decide) 2
  exact ⟨n, hn, hrcv, huser⟩

end Eph.Dpdk
