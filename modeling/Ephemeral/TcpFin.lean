import Ephemeral.TcpInOrder

/-!
# The peer's FIN

The peer ends its stream with a FIN that travels alone or on the last data
segment.  The receive path consumes it only in one place, after in-order delivery,
when the FIN sits exactly at the frontier.  The reorder buffer does not remember
flags: a FIN on a data segment that arrives early is forgotten with the segment
buffered, and when the segment is retransmitted after its bytes have been
delivered it is dropped as a duplicate before the FIN is looked at.

`fin_consumed_iff` says exactly when the session ends up in CLOSE_WAIT, and
`buffered_fin_lost` is a run in which it stays ESTABLISHED for ever.
-/

namespace Eph.Dpdk

open ByteOrder Core List Reassembly Serial

variable {slots : Nat}

/-- The FIN-bearing segment: it starts at offset `finOff` of the stream and carries
the rest of it, possibly nothing. -/
structure IsFinSegment (stream : Bytes) (irs : UInt32) (finOff : Nat) (p : ParsedPacket) :
    Prop where
  fin : p.hasFlag kTcpFin = true
  seq : p.seq = Serial.fromBase (irs + 1) finOff
  payload : p.payload = stream.drop finOff
  noRst : p.hasFlag kTcpRst = false

/-- The session has consumed the FIN: it waits for its own side to close, and the
frontier is past the FIN. -/
def FinConsumed (stream : Bytes) (irs : UInt32) (s : TcpSession slots) : Prop :=
  s.state = .closeWait ∧ s.rcvNxt = Serial.fromBase (irs + 1) (stream.length + 1)

/-- The segment was a FIN at the session's frontier. -/
def FinOnFrontier (x : RxAcc slots (List Bytes) × ParsedPacket) : Prop :=
  x.2.hasFlag kTcpFin = true ∧ x.2.seq = x.1.sess.rcvNxt

section

variable {stream : Bytes} {irs : UInt32} {finOff : Nat} {p : ParsedPacket}

theorem IsFinSegment.isSlice (hstream : stream.length < 2 ^ 31) (hoff : finOff < stream.length)
    (h : IsFinSegment stream irs finOff p) : IsSlice stream (irs + 1) p.seq p.payload := by
  have hlen : p.payload.length = stream.length - finOff := by
    rw [h.payload, length_drop]
  rw [h.seq]
  refine isSlice_of_offset hstream (by omega) (by omega) ?_
  rw [h.payload, take_length]

/-- A segment without payload bypasses the reorder buffer; off the frontier its FIN is
ignored. -/
theorem onSegment_bare_off {σ : Type} {cb : DataCallback slots σ} {clk : Clock} {a : RxAcc slots σ}
    {m : Mbuf} (hrst : p.hasFlag kTcpRst = false)
    (hrecv : (a.sess.prologue clk p).state.receiving = true)
    (hnil : p.payload = []) (hseq : p.seq ≠ (a.sess.prologue clk p).rcvNxt) :
    a.onSegment cb clk m p = (RxAcc.free { a with sess := a.sess.prologue clk p } m, none) := by
  rw [onSegment_inOrder cb clk a m hrst hrecv (by simp [hnil])]
  simp [RxAcc.onInOrder, RxAcc.onFin, hnil, hseq]

variable {a : RxAcc slots (List Bytes)}

section

variable (hstream : stream.length < 2 ^ 31)

include hstream

section

variable (h : Following stream (irs + 1) a.sess a.user) (hp : IsFinSegment stream irs finOff p)

include h hp

/-- Delivering the FIN-bearing segment in order brings the frontier to the end of
the stream. -/
theorem onInOrder_fin (hoff : finOff ≤ stream.length) (hseq : p.seq = a.sess.rcvNxt) :
    (a.onInOrder collect p).sess.state = .established ∧
      (a.onInOrder collect p).sess.config = a.sess.config ∧
      (a.onInOrder collect p).sess.rcvNxt = fromBase (irs + 1) stream.length := by
  rcases Nat.lt_or_ge finOff stream.length with hlt | hge
  · have hslice := hp.isSlice hstream hlt
    obtain ⟨⟨hfol, hcfg⟩, out, harrive⟩ := onInOrder_following hstream h hslice hseq
    refine ⟨hfol.state, hcfg, ?_⟩
    have hstop : (toSeg (irs + 1) p.seq p.payload).stop = stream.length := by
      rw [Seg.stop, toSeg, hp.seq, offset_fromBase _ (by omega), hp.payload, length_drop]
      show finOff + (stream.length - finOff) = stream.length
      omega
    have hin : (toSeg (irs + 1) p.seq p.payload).off = (a.sess.receiver (irs + 1)).next := by
      rw [toSeg, TcpSession.receiver, hseq]
    have hge := arrive_stop_le hin harrive
    have hle := hfol.onStream.next_le
    have hnext : offset (irs + 1) (a.onInOrder collect p).sess.rcvNxt = stream.length :=
      Nat.le_antisymm hle (by rw [← hstop]; exact hge)
    rw [← hnext, fromBase_offset]
  · have hnil : p.payload = [] := by
      rw [hp.payload, drop_eq_nil_of_le hge]
    have heq : finOff = stream.length := by omega
    have hskip : a.onInOrder collect p = a := by simp [RxAcc.onInOrder, hnil]
    rw [hskip]
    exact ⟨h.state, rfl, by rw [← hseq, hp.seq, heq]⟩

/-- **The FIN-bearing segment on the frontier** is consumed. -/
theorem onSegment_fin_inOrder (hoff : finOff ≤ stream.length) (clk : Clock) (m : Mbuf)
    (hseq : p.seq = a.sess.rcvNxt) :
    FinConsumed stream irs (a.onSegment collect clk m p).1.sess ∧
      (a.onSegment collect clk m p).1.sess.config = a.sess.config := by
  obtain ⟨hsame, hrecv, hb⟩ := h.prologue clk p
  rw [← hsame.rcvNxt] at hseq
  rw [← hsame.config, onSegment_inOrder collect clk a m hp.noRst hrecv (by simp [hseq])]
  generalize a.sess.prologue clk p = s at hseq hb
  obtain ⟨hstate, hcfg, hrcv⟩ := onInOrder_fin hstream (a := { a with sess := s }) hb hp hoff hseq
  have hend : p.seq + UInt32.ofNat p.payload.length =
      fromBase (irs + 1) stream.length := by
    rw [hp.seq, hp.payload, length_drop, fromBase_add]
    congr 1
    omega
  simp only [RxAcc.onFin, hp.fin, hstate, hrcv, hend, beq_self_eq_true, Bool.and_self, if_true]
  exact ⟨⟨rfl, fromBase_add (irs + 1) stream.length 1⟩, hcfg⟩

/-- **The FIN-bearing segment off the frontier** leaves the caller up to date and the
connection open. -/
theorem onSegment_fin_off (clk : Clock) (m : Mbuf) (hseq : p.seq ≠ a.sess.rcvNxt) :
    KeepsUp stream (irs + 1) a (a.onSegment collect clk m p).1 := by
  rcases Nat.lt_or_ge finOff stream.length with hlt | hge
  · exact (onSegment_following_off hstream h clk m (hp.isSlice hstream hlt) hp.noRst hseq).1
  have hnil : p.payload = [] := by
    rw [hp.payload, drop_eq_nil_of_le hge]
  obtain ⟨hsame, hrecv, hb⟩ := h.prologue clk p
  rw [← hsame.rcvNxt] at hseq
  rw [onSegment_bare_off hp.noRst hrecv hnil hseq]
  exact ⟨hb, hsame.config⟩

end

end

/-- A segment that lies within the stream, FIN or not. -/
def WithinStream (stream : Bytes) (irs : UInt32) (p : ParsedPacket) : Prop :=
  Serial.offset (irs + 1) p.seq + p.payload.length ≤ stream.length

theorem IsFinSegment.within (hstream : stream.length < 2 ^ 31) (hoff : finOff ≤ stream.length)
    (h : IsFinSegment stream irs finOff p) : WithinStream stream irs p := by
  rw [WithinStream, h.seq, offset_fromBase _ (by omega), h.payload, length_drop]
  omega

/-- **After the FIN** nothing in the stream changes the session's state or frontier. -/
theorem onSegment_finConsumed (hstream : stream.length < 2 ^ 31) (h : FinConsumed stream irs a.sess)
    (clk : Clock) (m : Mbuf) (hp : WithinStream stream irs p) (hrst : p.hasFlag kTcpRst = false) :
    FinConsumed stream irs (a.onSegment collect clk m p).1.sess ∧
      (a.onSegment collect clk m p).1.sess.config = a.sess.config := by
  have hsame : SameReceive a.sess (a.sess.prologue clk p) :=
    prologue_same a.sess clk p (by simp [h.1])
  have hrecv : (a.sess.prologue clk p).state.receiving = true := by
    rw [hsame.state, h.1]
    rfl
  have hfin : FinConsumed stream irs (a.sess.prologue clk p) :=
    ⟨hsame.state.trans h.1, hsame.rcvNxt.trans h.2⟩
  unfold WithinStream at hp
  rw [← hsame.config]
  generalize hs : a.sess.prologue clk p = s at hfin hrecv
  have hoffset : offset (irs + 1) s.rcvNxt = stream.length + 1 := by
    rw [hfin.2, offset_fromBase _ (by omega)]
  have hseq : p.seq ≠ s.rcvNxt := by
    rw [ne_eq, ← offset_inj (irs + 1), hoffset]
    omega
  have hbehind : seqAfter p.seq s.rcvNxt = false := by
    -- the frontier may lie exactly half the circle away, so the general comparison is used
    rw [Bool.eq_false_iff, ne_eq, seqAfter, after_iff, toNat_sub_eq_offset (irs + 1), hoffset]
    omega
  rcases Nat.eq_zero_or_pos p.payload.length with hzero | hpos
  · have hnil : p.payload = [] := eq_nil_of_length_eq_zero hzero
    rw [onSegment_bare_off hrst (by rw [hs]; exact hrecv) hnil (by rw [hs]; exact hseq), hs]
    exact ⟨hfin, rfl⟩
  rw [onSegment_outOfOrder collect clk a m hrst (by rw [hs]; exact hrecv)
    (by rw [hs]; exact ⟨hseq, hpos⟩), hs,
    RxAcc.freeUnless_sess]
  rcases onOutOfOrder_cases s p with ⟨st, heq, -⟩ | ⟨st, -, -, -, hahead⟩ | ⟨st, -, -, hahead, -⟩
  · rw [heq]
    exact ⟨hfin, rfl⟩
  · rw [hbehind] at hahead
    cases hahead
  · rw [hbehind] at hahead
    cases hahead

/-- The invariant of a run over the peer's segments.  Either the connection is open,
the caller is up to date and no FIN has arrived on the frontier, or the FIN has been
consumed and one has; and whenever a segment arrives the connection is open, unless
a FIN arrived on the frontier. -/
structure FinTracked (stream : Bytes) (irs : UInt32) (cfg : TcpConfig) (s : TcpSession slots)
    (user : List Bytes) (trace : List (RxAcc slots (List Bytes) × ParsedPacket)) : Prop where
  config : s.config = cfg
  phase : (Following stream (irs + 1) s user ∧ ∀ x ∈ trace, ¬FinOnFrontier x) ∨
    (FinConsumed stream irs s ∧ ∃ x ∈ trace, FinOnFrontier x)
  arrived : ∀ x ∈ trace, Following stream (irs + 1) x.1.sess x.1.user ∨
    ∃ y ∈ trace, FinOnFrontier y

variable {trace : List (RxAcc slots (List Bytes) × ParsedPacket)}

/-- One more arrival, given what it does in either phase. -/
theorem FinTracked.snoc {cfg : TcpConfig} {s' : TcpSession slots} {user' : List Bytes}
    (h : FinTracked stream irs cfg a.sess a.user trace) (hcfg : s'.config = cfg)
    (hopen : Following stream (irs + 1) a.sess a.user →
      (Following stream (irs + 1) s' user' ∧ ¬FinOnFrontier (a, p)) ∨
        (FinConsumed stream irs s' ∧ FinOnFrontier (a, p)))
    (hclosed : FinConsumed stream irs a.sess → FinConsumed stream irs s') :
    FinTracked stream irs cfg s' user' (trace ++ [(a, p)]) := by
  have hmono : (∃ y ∈ trace, FinOnFrontier y) → ∃ y ∈ trace ++ [(a, p)], FinOnFrontier y := by
    rintro ⟨y, hy, hfin⟩
    exact ⟨y, mem_append_left _ hy, hfin⟩
  refine ⟨hcfg, ?_, ?_⟩
  · rcases h.phase with ⟨hfol, hno⟩ | ⟨hcons, hex⟩
    · rcases hopen hfol with ⟨hfol', hoff⟩ | ⟨hcons', hon⟩
      · exact .inl ⟨hfol', forall_mem_append.mpr ⟨hno, forall_mem_singleton.mpr hoff⟩⟩
      · exact .inr ⟨hcons', (a, p), mem_append_right _ mem_cons_self, hon⟩
    · exact .inr ⟨hclosed hcons, hmono hex⟩
  · intro x hx
    rcases mem_append.mp hx with hx | hx
    · exact (h.arrived x hx).imp id hmono
    rw [mem_singleton.mp hx]
    rcases h.phase with ⟨hfol, -⟩ | ⟨-, hex⟩
    · exact .inl hfol
    · exact .inr (hmono hex)

/-- A segment of the peer: data, or the FIN. -/
def IsPeerSegment (stream : Bytes) (irs : UInt32) (finOff : Nat) (p : ParsedPacket) : Prop :=
  IsData stream (irs + 1) p ∨ IsFinSegment stream irs finOff p

/-- **One segment of an open connection.** -/
theorem onSegment_open (hstream : stream.length < 2 ^ 31) (hoff : finOff ≤ stream.length)
    (h : Following stream (irs + 1) a.sess a.user) (clk : Clock) (m : Mbuf)
    (hp : IsPeerSegment stream irs finOff p) :
    (a.onSegment collect clk m p).1.sess.config = a.sess.config ∧
      ((Following stream (irs + 1) (a.onSegment collect clk m p).1.sess
          (a.onSegment collect clk m p).1.user ∧ ¬FinOnFrontier (a, p)) ∨
        (FinConsumed stream irs (a.onSegment collect clk m p).1.sess ∧ FinOnFrontier (a, p))) := by
  rcases hp with hdata | hfin
  · obtain ⟨⟨hfol, hcfg⟩, -⟩ := onSegment_following hstream h clk m hdata
    refine ⟨hcfg, .inl ⟨hfol, ?_⟩⟩
    intro hon
    exact absurd (hon.1.symm.trans hdata.noFin) (by decide)
  · by_cases hseq : p.seq = a.sess.rcvNxt
    · obtain ⟨hcons, hcfg⟩ := onSegment_fin_inOrder hstream h hfin hoff clk m hseq
      exact ⟨hcfg, .inr ⟨hcons, hfin.fin, hseq⟩⟩
    · obtain ⟨hfol, hcfg⟩ := onSegment_fin_off hstream h hfin clk m hseq
      exact ⟨hcfg, .inl ⟨hfol, fun hon => hseq hon.2⟩⟩

/-- **One packet of the run.** -/
theorem onPacket_finTracked (hstream : stream.length < 2 ^ 31) (hoff : finOff ≤ stream.length)
    {cfg : TcpConfig} (h : FinTracked stream irs cfg a.sess a.user trace) (clk : Clock) (m : Mbuf)
    (hm : ∀ p, a.sess.matching m = some p → IsPeerSegment stream irs finOff p) :
    FinTracked stream irs cfg (a.onPacket collect clk m).1.sess
      (a.onPacket collect clk m).1.user (trace ++ a.arrival m) := by
  unfold RxAcc.onPacket RxAcc.arrival
  cases hmatch : a.sess.matching m with
  | none =>
    have hsame := noteDropped_same a.sess m
    refine ⟨hsame.config.trans h.config, ?_, by simpa using h.arrived⟩
    refine h.phase.imp (fun hopen => ⟨hopen.1.of_same hsame, by simpa using hopen.2⟩)
      (fun hcons => ⟨⟨hsame.state.trans hcons.1.1, hsame.rcvNxt.trans hcons.1.2⟩, by
        simpa using hcons.2⟩)
  | some p =>
    have hp := hm p hmatch
    have hopen := fun hfol => onSegment_open hstream hoff (a := a) hfol clk m hp
    have hclosed := fun hcons => hp.elim
      (fun hdata => onSegment_finConsumed hstream (a := a) hcons clk m hdata.slice.stop_le
        hdata.noRst)
      fun hfin => onSegment_finConsumed hstream hcons clk m (hfin.within hstream hoff) hfin.noRst
    refine h.snoc ?_ (fun hfol => (hopen hfol).2) (fun hcons => (hclosed hcons).1)
    rw [← h.config]
    rcases h.phase with ⟨hfol, -⟩ | ⟨hcons, -⟩
    · exact (hopen hfol).1
    · exact (hclosed hcons).2

end

/-- **The run.**  The invariant holds after every sequence of bursts, failed bursts
included. -/
theorem rxRun_finTracked {stream : Bytes} (hstream : stream.length < 2 ^ 31) {irs : UInt32}
    {finOff : Nat} (hoff : finOff ≤ stream.length) {s : TcpSession slots}
    (hstate : s.state = .established) (hrcv : s.rcvNxt = irs + 1)
    (hbuf : s.reorderBuf.entries = []) (bursts : List (Clock × List Mbuf))
    (hsegs : ∀ p ∈ s.segments bursts, IsPeerSegment stream irs finOff p) :
    FinTracked stream irs s.config (s.rxRun collect [] bursts).sess
      (s.rxRun collect [] bursts).user (s.rxRun collect [] bursts).arrivals := by
  apply s.rxRun_induction collect [] bursts (FinTracked stream irs s.config)
  · exact ⟨rfl, .inl ⟨following_start hstate hrcv hbuf, by simp⟩, by simp⟩
  · intro s' s'' user trace hsame h
    refine ⟨hsame.config.trans h.config, ?_, h.arrived⟩
    exact h.phase.imp (fun hopen => ⟨hopen.1.of_same hsame, hopen.2⟩)
      (fun hcons => ⟨⟨hsame.state.trans hcons.1.1, hsame.rcvNxt.trans hcons.1.2⟩, hcons.2⟩)
  · rintro a clk m trace ⟨b, hb, hm⟩ h
    apply onPacket_finTracked hstream hoff h clk m
    intro p hp
    rw [matching_congr h.config] at hp
    exact hsegs p (mem_flatMap.mpr ⟨b, hb, mem_filterMap.mpr ⟨m, hm, hp⟩⟩)

/-- **End of stream.**  Suppose the FIN-bearing segment arrives at a moment when all
bytes of the stream have been delivered.  Then the run ends with the FIN consumed if
and only if the FIN travels alone or one of its arrivals was on the frontier. -/
theorem fin_consumed_iff (stream : Bytes) (hstream : stream.length < 2 ^ 31) (irs : UInt32)
    (finOff : Nat) (hoff : finOff ≤ stream.length) (s : TcpSession slots)
    (hstate : s.state = .established) (hrcv : s.rcvNxt = irs + 1)
    (hbuf : s.reorderBuf.entries = []) (bursts : List (Clock × List Mbuf))
    (hsegs : ∀ p ∈ s.segments bursts, IsPeerSegment stream irs finOff p)
    (hfin : ∃ x ∈ (s.rxRun collect [] bursts).arrivals,
      IsFinSegment stream irs finOff x.2 ∧ x.1.user.flatten = stream) :
    ((s.rxRun collect [] bursts).sess.state = .closeWait ∧ (s.rxRun collect [] bursts).sess.rcvNxt =
          Serial.fromBase (irs + 1) (stream.length + 1)) ↔
      (finOff = stream.length ∨ ∃ x ∈ (s.rxRun collect [] bursts).arrivals,
        x.2.hasFlag kTcpFin = true ∧ x.2.seq = x.1.sess.rcvNxt) := by
  have htrack := rxRun_finTracked hstream hoff hstate hrcv hbuf bursts hsegs
  have hex : (∃ x ∈ (s.rxRun collect [] bursts).arrivals, FinOnFrontier x) →
      FinConsumed stream irs (s.rxRun collect [] bursts).sess := by
    rintro ⟨x, hx, hon⟩
    rcases htrack.phase with ⟨-, hno⟩ | ⟨hcons, -⟩
    · exact absurd hon (hno x hx)
    · exact hcons
  constructor
  · rintro ⟨hclose, -⟩
    rcases htrack.phase with ⟨hfol, -⟩ | ⟨-, hon⟩
    · exact absurd (hfol.state.symm.trans hclose) (by decide)
    · exact .inr hon
  rintro (halone | hon)
  · obtain ⟨x, hx, hp, hall⟩ := hfin
    rcases htrack.arrived x hx with hfol | hon
    · -- everything delivered means the frontier is at the end of the stream
      refine hex ⟨x, hx, hp.fin, ?_⟩
      have hlen := congrArg List.length (hfol.delivered.symm.trans hall)
      have hle := hfol.onStream.next_le
      rw [length_take] at hlen
      have hnext : offset (irs + 1) x.1.sess.rcvNxt = stream.length := by
        have : (x.1.sess.receiver (irs + 1)).next = stream.length := by omega
        exact this
      rw [hp.seq, halone, ← hnext, fromBase_offset]
    · exact hex hon
  · exact hex hon

instance (stream : Bytes) (irs : UInt32) (finOff : Nat) (p : ParsedPacket) :
    Decidable (IsFinSegment stream irs finOff p) :=
  decidable_of_iff (p.hasFlag kTcpFin = true ∧ p.seq = fromBase (irs + 1) finOff ∧
      p.payload = stream.drop finOff ∧ p.hasFlag kTcpRst = false)
    ⟨fun h => ⟨h.1, h.2.1, h.2.2.1, h.2.2.2⟩, fun h => ⟨h.fin, h.seq, h.payload, h.noRst⟩⟩

instance (stream : Bytes) (irs : UInt32) (finOff : Nat) (p : ParsedPacket) :
    Decidable (IsPeerSegment stream irs finOff p) :=
  inferInstanceAs (Decidable (_ ∨ _))

/-- One byte, then a FIN on its own. -/
def bareFinBursts : List (Clock × List Mbuf) :=
  [(⟨1, 0⟩, [sampleMbuf 7 0 kTcpAck [10]]),
   (⟨2, 0⟩, [sampleMbuf 7 1 (kTcpAck ||| kTcpFin) []])]

/-- The FIN without data is consumed. -/
theorem fin_consumed_iff_sample :
    ((sampleSession 64 7).rxRun collect [] bareFinBursts).sess.state = .closeWait ∧
      ((sampleSession 64 7).rxRun collect [] bareFinBursts).sess.rcvNxt =
        Serial.fromBase 8 2 := by
  exact (fin_consumed_iff [10] (by decide) 7 1 (by decide) (sampleSession 64 7) rfl rfl rfl
    bareFinBursts (by decide) (by decide)).mpr (.inl rfl)

/-- The second byte arrives first and carries the FIN; the first byte fills the gap;
the peer retransmits the second. -/
def bufferedFinBursts : List (Clock × List Mbuf) :=
  [(⟨1, 0⟩, [sampleMbuf 7 1 (kTcpAck ||| kTcpFin) [20]]),
   (⟨2, 0⟩, [sampleMbuf 7 0 kTcpAck [10]]),
   (⟨3, 0⟩, [sampleMbuf 7 1 (kTcpAck ||| kTcpFin) [20]])]

/-- Every burst succeeds and the FIN arrives again after both bytes were delivered,
but the session is still ESTABLISHED. -/
theorem buffered_fin_lost :
    (∀ p ∈ (sampleSession 64 7).segments bufferedFinBursts, IsPeerSegment [10, 20] 7 1 p) ∧
      ((sampleSession 64 7).rxRun collect [] bufferedFinBursts).Succeeded ∧
      (∃ x ∈ ((sampleSession 64 7).rxRun collect [] bufferedFinBursts).arrivals,
        IsFinSegment [10, 20] 7 1 x.2 ∧ x.1.user.flatten = [10, 20]) ∧
      ((sampleSession 64 7).rxRun collect [] bufferedFinBursts).sess.state = .established := by
  decide

end Eph.Dpdk
