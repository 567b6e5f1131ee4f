import Ephemeral.TcpRepacketised

/-!
# What stays in the reorder buffer

A future segment is buffered as it arrives; nothing compares it with what the
buffer already holds.  When the gap before it closes, the drain delivers one
buffered segment for each position it reaches, and moves on.  A second copy of that
segment, or one that overlaps it, is then behind the frontier, where no drain looks
for it again: it occupies its slot until the connection ends.

`FitsBuffer` says of a session and an arriving segment that this does not happen,
and `no_stale_reorder_iff` that a run is free of stale entries after each of its
bursts exactly when every arrival fitted.  `duplicate_future_segment_stays` is a run
of three segments, one of them a duplicate, that is not.
-/

namespace Eph.Dpdk

open ByteOrder Core List Reassembly Serial

variable {slots : Nat} {s : TcpSession slots}

/-- Every entry of the reorder buffer starts strictly after `rcv_nxt_`. -/
def TcpSession.NoStale (s : TcpSession slots) : Prop :=
  ∀ e ∈ s.reorderBuf.entries, seqAfter e.seq s.rcvNxt = true

instance (s : TcpSession slots) : Decidable s.NoStale :=
  inferInstanceAs (Decidable (∀ e ∈ s.reorderBuf.entries, seqAfter e.seq s.rcvNxt = true))

/-- A segment as a sequence number and the bytes from there on. -/
abbrev SeqSpan := UInt32 × Bytes

/-- The position after a segment. -/
def SeqSpan.endSeq (e : SeqSpan) : UInt32 :=
  e.1 + UInt32.ofNat e.2.length

/-- Two segments have bytes in common. -/
def SeqSpan.overlaps (e f : SeqSpan) : Bool :=
  seqAfter e.endSeq f.1 && seqAfter f.endSeq e.1

/-- The arriving segment and the buffered ones. -/
def TcpSession.spansWith (s : TcpSession slots) (p : ParsedPacket) : List SeqSpan :=
  (p.seq, p.payload) :: s.reorderBuf.entries.map fun e => (e.seq, e.data)

/-- If the arriving segment is in order, then among it and the buffered segments, as
far as a chain of buffered segments behind it leads, no two overlap. -/
def FitsBuffer (s : TcpSession slots) (p : ParsedPacket) : Prop :=
  p.seq = s.rcvNxt → ∀ q,
    ReorderChain s.reorderBuf.entries (p.seq + UInt32.ofNat p.payload.length) q →
    (s.spansWith p).Pairwise fun e f =>
      seqAfter q e.1 = true → seqAfter q f.1 = true → e.overlaps f = false

section

variable {stream : Bytes} {base : UInt32}

section

variable (hstream : stream.length < 2 ^ 31)

include hstream

/-- The frontier and the reorder buffer in the offsets of the abstract receiver. -/
theorem OnStream.noStale_iff (hs : OnStream stream base s) :
    s.NoStale ↔ Ahead (s.receiver base) := by
  have hnext : offset base s.rcvNxt ≤ stream.length := hs.next_le
  unfold TcpSession.NoStale Ahead TcpSession.receiver
  rw [forall_mem_map]
  refine forall₂_congr fun e he => ?_
  exact after_iff_offset base ((hs.entries e he).offset_lt hstream) (by omega)

/-- Overlap of two slices of the stream, in offsets. -/
theorem overlaps_eq_false_iff {e f : SeqSpan}
    (he : IsSlice stream base e.1 e.2) (hf : IsSlice stream base f.1 f.2) :
    e.overlaps f = false ↔ Apart (toSeg base e.1 e.2) (toSeg base f.1 f.2) := by
  have hafter : ∀ {g k : SeqSpan}, IsSlice stream base g.1 g.2 → IsSlice stream base k.1 k.2 →
      (seqAfter g.endSeq k.1 = true ↔ (toSeg base k.1 k.2).off < (toSeg base g.1 g.2).stop) := by
    intro g k hg hk
    have hend := hg.offset_end hstream
    have hstop := hg.stop_le
    unfold SeqSpan.endSeq
    rw [← hend]
    exact after_iff_offset base (by rw [hend]; omega) (hk.offset_lt hstream)
  rw [SeqSpan.overlaps, Bool.and_eq_false_iff, ← Bool.not_eq_true, ← Bool.not_eq_true,
    hafter he hf, hafter hf he, Apart]
  omega

/-- A chain of buffered segments is a chain of held slices. -/
theorem chain_of_reorderChain (hs : OnStream stream base s)
    {a q : UInt32} (h : ReorderChain s.reorderBuf.entries a q) :
    Chain (s.receiver base).held (offset base a) (offset base q) := by
  induction h with
  | refl a => exact Chain.refl _
  | @step e q hmem tail ih =>
    unfold ReorderEntry.endSeq at ih
    rw [(hs.entries e hmem).offset_end hstream] at ih
    have hheld : toSeg base e.seq e.data ∈ (s.receiver base).held := mem_map_of_mem hmem
    exact Chain.step hheld ih

/-- **The condition in offsets.**  A slice fits the buffer exactly when it fits among
the slices the abstract receiver holds. -/
theorem fitsBuffer_iff (hs : OnStream stream base s)
    {p : ParsedPacket} (hp : IsSlice stream base p.seq p.payload) :
    FitsBuffer s p ↔ Fits (s.receiver base) (toSeg base p.seq p.payload) := by
  have hend := hp.offset_end hstream
  have hslices : ∀ e ∈ s.spansWith p, IsSlice stream base e.1 e.2 := by
    intro e he
    rcases mem_cons.mp he with rfl | he
    · exact hp
    · obtain ⟨g, hg, rfl⟩ := mem_map.mp he
      exact hs.entries g hg
  have hmap : toSeg base p.seq p.payload :: (s.receiver base).held =
      (s.spansWith p).map fun e => toSeg base e.1 e.2 := by
    rw [TcpSession.spansWith, map_cons, map_map]
    rfl
  -- the two conditions on the pairs say the same of every position inside the stream
  have hpairs : ∀ q, offset base q ≤ stream.length →
      ((s.spansWith p).Pairwise (fun e f =>
          seqAfter q e.1 = true → seqAfter q f.1 = true → e.overlaps f = false) ↔
        (toSeg base p.seq p.payload :: (s.receiver base).held).Pairwise (fun e f =>
          e.off < offset base q → f.off < offset base q → Apart e f)) := by
    intro q hq
    rw [hmap, pairwise_map]
    refine List.Pairwise.iff_of_mem fun {e f} he hf => ?_
    have hbefore : ∀ {g : SeqSpan}, IsSlice stream base g.1 g.2 →
        (seqAfter q g.1 = true ↔ (toSeg base g.1 g.2).off < offset base q) :=
      fun hg => after_iff_offset base (by omega) (hg.offset_lt hstream)
    rw [hbefore (hslices e he), hbefore (hslices f hf),
      overlaps_eq_false_iff hstream (hslices e he) (hslices f hf)]
  constructor
  · intro h hin q hchain
    obtain ⟨hq, hrchain⟩ := reorderChain_of_chain hstream hs hchain hp.stop_le
    have hoff : offset base (fromBase base q) = q := offset_fromBase base (by omega)
    rw [← hend, fromBase_offset] at hrchain
    have hpair := (hpairs _ (by omega)).mp (h ((offset_inj base _ _).mp hin) _ hrchain)
    rw [hoff] at hpair
    exact hpair
  · intro h hin q hrchain
    have hchain := chain_of_reorderChain hstream hs hrchain
    rw [hend] at hchain
    have hq := (reorderChain_of_chain hstream hs hchain hp.stop_le).1
    exact (hpairs q hq).mpr (h ((offset_inj base _ _).mpr hin) _ hchain)

end

end

/-- The results and arrivals of a run are those of its first bursts and then more. -/
theorem rxRun_take {σ : Type} (s : TcpSession slots) (cb : DataCallback slots σ)
    (user : σ) (bursts : List (Clock × List Mbuf)) (k : Nat) :
    (s.rxRun cb user (bursts.take k)).results <+: (s.rxRun cb user bursts).results ∧
      (s.rxRun cb user (bursts.take k)).arrivals <+: (s.rxRun cb user bursts).arrivals := by
  have hmore : ∀ (rest : List (Clock × List Mbuf)) (r : RxRun slots σ),
      r.results <+: (rest.foldl (RxRun.burst cb) r).results ∧
        r.arrivals <+: (rest.foldl (RxRun.burst cb) r).arrivals := by
    intro rest
    induction rest with
    | nil => exact fun r => ⟨prefix_refl _, prefix_refl _⟩
    | cons b rest ih =>
      intro r
      obtain ⟨hres, harr⟩ := ih (r.burst cb b)
      exact ⟨(prefix_append _ _).trans hres, (prefix_append _ _).trans harr⟩
  have hsplit : s.rxRun cb user bursts =
      (bursts.drop k).foldl (RxRun.burst cb) (s.rxRun cb user (bursts.take k)) := by
    rw [TcpSession.rxRun, TcpSession.rxRun, ← foldl_append, take_append_drop]
  rw [hsplit]
  exact hmore _ _

section

variable {stream : Bytes} (hstream : stream.length < 2 ^ 31) {irs : UInt32}
  {bursts : List (Clock × List Mbuf)} (h : RunFollows stream (irs + 1) s bursts)
  (hstart : s.receiver (irs + 1) = ⟨0, []⟩) (hok : (s.rxRun collect [] bursts).Succeeded)

include hstream h hstart hok

/-- **Stale entries of one run.**  After a run of successful bursts nothing behind the
frontier is buffered exactly when every arrival fitted. -/
theorem RunFollows.noStale_iff (hsegs : ∀ p ∈ s.segments bursts, IsData stream (irs + 1) p) :
    (s.rxRun collect [] bursts).sess.NoStale ↔
      ∀ x ∈ (s.rxRun collect [] bursts).arrivals, FitsBuffer x.1.sess x.2 := by
  have hrun := h.run hok
  rw [hstart] at hrun
  have hslice : ∀ x ∈ (s.rxRun collect [] bursts).arrivals,
      IsSlice stream (irs + 1) x.2.seq x.2.payload := by
    intro x hx
    have hmem : x.2 ∈ s.segments bursts := by
      rw [← h.segments hok]
      exact mem_map_of_mem hx
    exact (hsegs x.2 hmem).slice
  have hahead := hrun.ahead_iff (by simp [Ahead]) (by simp)
    (by
      intro x hx
      obtain ⟨y, hy, rfl⟩ := mem_map.mp hx
      exact (hslice y hy).pos)
  rw [h.following.onStream.noStale_iff hstream, hahead, forall_mem_map]
  refine forall₂_congr fun x hx => ?_
  exact (fitsBuffer_iff hstream (h.arrived x hx).onStream (hslice x hx)).symm

/-- Without stale entries, a run that has delivered all it received buffers nothing. -/
theorem RunFollows.entries_eq_nil
    (hfresh : (s.rxRun collect [] bursts).sess.NoStale)
    (hall : ∀ p ∈ s.segments bursts,
      (p.toSeg irs).stop ≤ (s.rxRun collect [] bursts).user.flatten.length) :
    (s.rxRun collect [] bursts).sess.reorderBuf.entries = [] := by
  have hrun := h.run hok
  rw [hstart] at hrun
  have hnext := h.following.onStream.next_le
  have hahead := (h.following.onStream.noStale_iff hstream).mp hfresh
  rw [h.following.delivered, length_take, Nat.min_eq_left hnext] at hall
  refine eq_nil_iff_forall_not_mem.mpr fun e he => ?_
  have hheld : toSeg (irs + 1) e.seq e.data ∈
      ((s.rxRun collect [] bursts).sess.receiver (irs + 1)).held := mem_map_of_mem he
  rcases hrun.held _ hheld with hnil | harrived
  · cases hnil
  rw [h.map_arrivals hok] at harrived
  obtain ⟨p, hp, hpe⟩ := mem_map.mp harrived
  have hbehind := hall p hp
  rw [hpe] at hbehind
  have hfront := hahead _ hheld
  unfold Seg.stop at hbehind
  omega

end

/-- **No stale reorder entries.**  In a run of successful bursts over slices of the
stream, every buffered segment starts after the frontier, and none is left once all
received bytes are delivered, after each burst of the run: exactly when every segment
fitted the buffer on arrival. -/
theorem no_stale_reorder_iff (stream : Bytes) (hstream : stream.length < 2 ^ 31) (irs : UInt32)
    (s : TcpSession slots) (hstate : s.state = .established) (hrcv : s.rcvNxt = irs + 1)
    (hbuf : s.reorderBuf.entries = []) (bursts : List (Clock × List Mbuf))
    (hsegs : ∀ p ∈ s.segments bursts, IsData stream (irs + 1) p)
    (hok : (s.rxRun collect [] bursts).Succeeded) :
    (∀ k, (s.rxRun collect [] (bursts.take k)).sess.NoStale ∧
        ((∀ p ∈ s.segments (bursts.take k), (p.toSeg irs).stop ≤
            (s.rxRun collect [] (bursts.take k)).user.flatten.length) →
          (s.rxRun collect [] (bursts.take k)).sess.reorderBuf.entries.length = 0)) ↔
      ∀ x ∈ (s.rxRun collect [] bursts).arrivals, FitsBuffer x.1.sess x.2 := by
  have hstart := receiver_start hrcv hbuf
  have hfol := rxRun_follows hstream (following_start hstate hrcv hbuf)
  constructor
  · intro h
    have hend := (h bursts.length).1
    rw [take_length] at hend
    exact ((hfol bursts hsegs).noStale_iff hstream hstart hok hsegs).mp hend
  intro hfits k
  obtain ⟨hres, harr⟩ := rxRun_take s collect [] bursts k
  have hsegs' : ∀ p ∈ s.segments (bursts.take k), IsData stream (irs + 1) p :=
    fun p hp => hsegs p (mem_segments_take hp)
  have hok' : (s.rxRun collect [] (bursts.take k)).Succeeded :=
    fun res hr => hok res (hres.subset hr)
  have hfol' := hfol (bursts.take k) hsegs'
  have hfresh := (hfol'.noStale_iff hstream hstart hok' hsegs').mpr
    fun x hx => hfits x (harr.subset hx)
  refine ⟨hfresh, fun hall => ?_⟩
  rw [hfol'.entries_eq_nil hstream hstart hok' hfresh hall, length_nil]

/-- The byte that waits is not stale, and it does not stay. -/
theorem no_stale_reorder_sample :
    ((sampleSession 64 0xFFFFFFFE).rxRun collect [] sampleBursts).Succeeded ∧
      ((sampleSession 64 0xFFFFFFFE).rxRun collect [] (sampleBursts.take 1)).sess.NoStale ∧
      ((sampleSession 64 0xFFFFFFFE).rxRun collect []
        (sampleBursts.take 2)).sess.reorderBuf.entries.length = 0 := by
  have hok : ((sampleSession 64 0xFFFFFFFE).rxRun collect [] sampleBursts).Succeeded := by
    decide
  have hpairs : ∀ x ∈ ((sampleSession 64 0xFFFFFFFE).rxRun collect [] sampleBursts).arrivals,
      (x.1.sess.spansWith x.2).Pairwise fun e f => e.overlaps f = false := by
    decide
  have h := (no_stale_reorder_iff [10, 20, 30] (by decide) 0xFFFFFFFE
    (sampleSession 64 0xFFFFFFFE) rfl rfl rfl sampleBursts (by decide)
    hok).mpr fun x hx _ _ _ => (hpairs x hx).imp fun hef _ _ => hef
  exact ⟨hok, (h 1).1, (h 2).2 (by decide)⟩

/-- The third byte arrives twice before the first two do. -/
def duplicateBursts : List (Clock × List Mbuf) :=
  [(⟨1, 0⟩, [sampleMbuf 7 2 kTcpAck [30]]),
   (⟨2, 0⟩, [sampleMbuf 7 2 kTcpAck [30]]),
   (⟨3, 0⟩, [sampleMbuf 7 0 kTcpAck [10, 20]])]

/-- All three bursts succeed and all three bytes of the stream are delivered, but the
second copy of the third byte is still buffered, behind the frontier. -/
theorem duplicate_future_segment_stays :
    (∀ p ∈ (sampleSession 64 7).segments duplicateBursts, IsData [10, 20, 30] 8 p) ∧
      ((sampleSession 64 7).rxRun collect [] duplicateBursts).Succeeded ∧
      ((sampleSession 64 7).rxRun collect [] duplicateBursts).user.flatten = [10, 20, 30] ∧
      ((sampleSession 64 7).rxRun collect [] duplicateBursts).sess.reorderBuf.entries.length = 1 ∧
      ¬((sampleSession 64 7).rxRun collect [] duplicateBursts).sess.NoStale := by
  decide

end Eph.Dpdk
