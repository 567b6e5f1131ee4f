import Ephemeral.TcpInOrder

/-!
# Retransmissions with other segment boundaries

A sender may retransmit with different boundaries, so the receiver sees arbitrary
overlapping slices of the stream.  The receive path recognises a segment only by
its first sequence number.  A segment that starts before the frontier and ends
after it is dropped as a duplicate, new bytes and all; and a buffered segment is
never looked at again once the frontier has moved past its first byte.

`AcceptedWhole` says, of a session and an arriving segment, that neither happens,
and `repacketised_accepted` that runs of such arrivals deliver the whole covered
prefix.  `straddling_retransmission_lost` is a run that does not.
-/

namespace Eph.Dpdk

open ByteOrder Core List Reassembly Serial

variable {slots : Nat} {s : TcpSession slots}

/-- The segment starts before the frontier and ends after it. -/
def TcpSession.straddledBy (s : TcpSession slots) (p : ParsedPacket) : Bool :=
  seqAfter s.rcvNxt p.seq && seqAfter (p.seq + UInt32.ofNat p.payload.length) s.rcvNxt

/-- The position after a buffered segment. -/
def ReorderEntry.endSeq (e : ReorderEntry) : UInt32 :=
  e.seq + UInt32.ofNat e.data.length

/-- `q` can be reached from a position along buffered segments, each starting where
the one before it ends. -/
inductive ReorderChain (entries : List ReorderEntry) : UInt32 → UInt32 → Prop
  | refl (a : UInt32) : ReorderChain entries a a
  | step {e : ReorderEntry} {q : UInt32} (hmem : e ∈ entries)
      (tail : ReorderChain entries e.endSeq q) : ReorderChain entries e.seq q

/-- The arriving segment does not straddle the frontier, and if it is in order, no
buffered segment is cut in two where a chain of buffered segments behind it stops. -/
def AcceptedWhole (s : TcpSession slots) (p : ParsedPacket) : Prop :=
  s.straddledBy p = false ∧
    (p.seq = s.rcvNxt → ∀ q,
      ReorderChain s.reorderBuf.entries (p.seq + UInt32.ofNat p.payload.length) q →
      (∀ e ∈ s.reorderBuf.entries, e.seq ≠ q) →
      ∀ e ∈ s.reorderBuf.entries, ¬(seqAfter q e.seq = true ∧ seqAfter e.endSeq q = true))

section

variable {stream : Bytes} {base : UInt32}

section

variable (hstream : stream.length < 2 ^ 31)

include hstream

/-- The end of a slice of the stream, in offsets. -/
theorem IsSlice.offset_end {seq : UInt32} {payload : Bytes} (h : IsSlice stream base seq payload) :
    offset base (seq + UInt32.ofNat payload.length) = (toSeg base seq payload).stop := by
  have hstop := h.stop_le
  unfold toSeg Seg.stop at hstop
  dsimp only at hstop
  exact offset_add base seq (by omega)

theorem IsSlice.offset_lt {seq : UInt32} {payload : Bytes}
    (h : IsSlice stream base seq payload) : offset base seq < 2 ^ 31 := by
  have hstop := h.stop_le
  unfold toSeg Seg.stop at hstop
  dsimp only at hstop
  omega

/-- A chain of held slices is a chain of buffered segments. -/
theorem reorderChain_of_chain (hs : OnStream stream base s)
    {a q : Nat} (h : Chain (s.receiver base).held a q) :
    a ≤ stream.length → q ≤ stream.length ∧
      ReorderChain s.reorderBuf.entries (fromBase base a) (fromBase base q) := by
  induction h with
  | refl a => exact fun ha => ⟨ha, ReorderChain.refl _⟩
  | @step g q hmem tail ih =>
    intro _
    obtain ⟨e, he, rfl⟩ := mem_map.mp hmem
    have hslice := hs.entries e he
    obtain ⟨hq, htail⟩ := ih hslice.stop_le
    refine ⟨hq, ?_⟩
    have hseq : fromBase base (toSeg base e.seq e.data).off = e.seq := fromBase_offset base e.seq
    have hend : fromBase base (toSeg base e.seq e.data).stop = e.endSeq := by
      rw [← hslice.offset_end hstream]
      exact fromBase_offset base _
    rw [hend] at htail
    rw [hseq]
    exact ReorderChain.step he htail

/-- An arrival that is accepted whole is clean for the abstract receiver. -/
theorem AcceptedWhole.clean (hs : OnStream stream base s)
    {p : ParsedPacket} (hp : IsSlice stream base p.seq p.payload) (h : AcceptedWhole s p) :
    Clean (s.receiver base) (toSeg base p.seq p.payload) := by
  have hnext : offset base s.rcvNxt ≤ stream.length := hs.next_le
  have hseq := hp.offset_lt hstream
  have hend := hp.offset_end hstream
  have hstop := hp.stop_le
  constructor
  · intro hlt
    by_contra hgt
    have hbefore : seqAfter s.rcvNxt p.seq = true := (after_iff_offset base (by omega) hseq).mpr hlt
    have hafter : seqAfter (p.seq + UInt32.ofNat p.payload.length) s.rcvNxt = true :=
      (after_iff_offset base (by omega) (by omega)).mpr
        (by rw [hend]; exact Nat.lt_of_not_le hgt)
    have hno := h.1
    rw [TcpSession.straddledBy, hbefore, hafter] at hno
    exact absurd hno (by decide)
  · intro hin q hchain hterm g hg hlt
    by_contra hcut
    obtain ⟨e, he, rfl⟩ := mem_map.mp hg
    have hslice := hs.entries e he
    obtain ⟨hq, hrchain⟩ := reorderChain_of_chain hstream hs hchain hstop
    have hoff : offset base (fromBase base q) = q := offset_fromBase base (by omega)
    rw [← hend, fromBase_offset] at hrchain
    refine h.2 ((offset_inj base _ _).mp hin) _ hrchain ?_ e he ⟨?_, ?_⟩
    · intro e' he' heq
      apply hterm _ (mem_map_of_mem he')
      rw [toSeg, heq, hoff]
    · apply (after_iff_offset base (by omega) (hslice.offset_lt hstream)).mpr
      rw [hoff]
      exact hlt
    · have hend' := hslice.offset_end hstream
      have hstop' := hslice.stop_le
      apply (after_iff_offset base (by rw [ReorderEntry.endSeq, hend']; omega) (by omega)).mpr
      rw [hoff, ReorderEntry.endSeq, hend']
      exact Nat.lt_of_not_le hcut

end

end

/-- **Repacketised retransmissions.**  In a run of successful bursts over arbitrary
slices of the stream, each of them accepted whole on arrival, at least the longest
covered prefix has been delivered.  The bursts are arbitrary, so this holds after
every burst of a longer run. -/
theorem repacketised_accepted (stream : Bytes) (hstream : stream.length < 2 ^ 31) (irs : UInt32)
    (s : TcpSession slots) (hstate : s.state = .established) (hrcv : s.rcvNxt = irs + 1)
    (hbuf : s.reorderBuf.entries = []) (bursts : List (Clock × List Mbuf))
    (hsegs : ∀ p ∈ s.segments bursts, IsStreamSegment stream irs p)
    (hok : (s.rxRun collect [] bursts).Succeeded)
    (hwhole : ∀ x ∈ (s.rxRun collect [] bursts).arrivals, AcceptedWhole x.1.sess x.2) :
    ∀ m, m ≤ stream.length →
      (∀ i < m, Covered ((s.segments bursts).map (·.toSeg irs)) i) →
      m ≤ (s.rxRun collect [] bursts).user.flatten.length := by
  have hfol := rxRun_follows hstream (following_start hstate hrcv hbuf) bursts
    fun p hp => (hsegs p hp).isData hstream
  have hgreatest := hfol.isGreatest (receiver_start hrcv hbuf)
    (fun p hp => ⟨(hsegs p hp).pos, (hsegs p hp).len_le⟩) hok
    (by
      intro x hx
      have hmem : x.2 ∈ s.segments bursts := by
        rw [← hfol.segments hok]
        exact mem_map_of_mem hx
      exact (hwhole x hx).clean hstream (hfol.arrived x hx).onStream
        ((hsegs x.2 hmem).isData hstream).slice)
  intro m hm hcov
  have hle := hgreatest.2 ⟨hm, hcov⟩
  rw [hfol.following.delivered, length_take]
  exact Nat.le_min.mpr ⟨hle, hm⟩

/-- Two bytes, then a retransmission of the second one alone. -/
def resentBursts : List (Clock × List Mbuf) :=
  [(⟨1, 0⟩, [sampleMbuf 7 0 kTcpAck [10, 20]]),
   (⟨2, 0⟩, [sampleMbuf 7 1 kTcpAck [20]])]

/-- Nothing is lost by it. -/
theorem repacketised_accepted_sample :
    2 ≤ ((sampleSession 64 7).rxRun collect [] resentBursts).user.flatten.length := by
  have hempty : ∀ x ∈ ((sampleSession 64 7).rxRun collect [] resentBursts).arrivals,
      x.1.sess.reorderBuf.entries = [] ∧ x.1.sess.straddledBy x.2 = false := by
    decide
  refine repacketised_accepted [10, 20] (by decide) 7 (sampleSession 64 7) rfl rfl rfl
    resentBursts (by decide) (by decide) ?_ 2 (by decide) ?_
  · intro x hx
    refine ⟨(hempty x hx).2, fun _ q _ _ e he => ?_⟩
    rw [(hempty x hx).1] at he
    cases he
  · intro i hi
    exact ⟨⟨0, 2⟩, by decide, Nat.zero_le i, hi⟩

/-- Two bytes, then a retransmission that starts at the second one and carries two
new bytes. -/
def straddlingBursts : List (Clock × List Mbuf) :=
  [(⟨1, 0⟩, [sampleMbuf 7 0 kTcpAck [10, 20]]),
   (⟨2, 0⟩, [sampleMbuf 7 1 kTcpAck [20, 30, 40]])]

/-- The segments cover all four bytes of the stream and both bursts succeed, but
only two bytes are delivered. -/
theorem straddling_retransmission_lost :
    (∀ p ∈ (sampleSession 64 7).segments straddlingBursts, IsStreamSegment [10, 20, 30, 40] 7 p) ∧
      ((sampleSession 64 7).rxRun collect [] straddlingBursts).Succeeded ∧
      (∀ i < 4, Covered (((sampleSession 64 7).segments straddlingBursts).map (·.toSeg 7)) i) ∧
      ((sampleSession 64 7).rxRun collect [] straddlingBursts).user.flatten.length = 2 := by
  refine ⟨by decide, by decide, ?_, by decide⟩
  intro i hi
  by_cases h2 : i < 2
  · exact ⟨⟨0, 2⟩, by decide, Nat.zero_le i, h2⟩
  · exact ⟨⟨1, 3⟩, by decide, by show 1 ≤ i; omega, hi⟩

end Eph.Dpdk
