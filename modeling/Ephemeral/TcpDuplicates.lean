import Ephemeral.TcpInOrder

/-!
# Segments that were already received

A segment whose whole sequence range lies before the frontier is a retransmission
of something the session has consumed.  The receive path drops it: a data segment
is counted as a duplicate, a FIN is ignored.  Neither arms the deferred
acknowledgement, so an acknowledgement is owed after such segments exactly when one
was owed before them (`duplicates_leave_ack_debt`), in whatever state the
connection is.
-/

namespace Eph.Dpdk

open ByteOrder Core

variable {slots : Nat} {σ : Type}

/-- The sequence numbers a segment occupies: its bytes, and one for a FIN. -/
def ParsedPacket.occupancy (p : ParsedPacket) : Nat :=
  p.payload.length + if p.hasFlag kTcpFin then 1 else 0

/-- The segment occupies sequence space, all of it before `rcvNxt` in modular order,
and is not a RST. -/
structure AlreadyReceived (rcvNxt : UInt32) (p : ParsedPacket) : Prop where
  noRst : p.hasFlag kTcpRst = false
  occupies : 1 ≤ p.occupancy
  before : p.occupancy ≤ (rcvNxt - p.seq).toNat
  recent : (rcvNxt - p.seq).toNat < 2 ^ 31

/-- The session still owes the same acknowledgement and expects the same byte. -/
structure SameDebt (s s' : TcpSession slots) : Prop where
  config : s'.config = s.config
  rcvNxt : s'.rcvNxt = s.rcvNxt
  ackPendingSinceTsc : s'.ackPendingSinceTsc = s.ackPendingSinceTsc

theorem SameDebt.trans {s s' s'' : TcpSession slots} (h : SameDebt s s') (h' : SameDebt s' s'') :
    SameDebt s s'' :=
  ⟨h'.config.trans h.config, h'.rcvNxt.trans h.rcvNxt,
    h'.ackPendingSinceTsc.trans h.ackPendingSinceTsc⟩

theorem noteDropped_debt (s : TcpSession slots) (m : Mbuf) : SameDebt s (s.noteDropped m) := by
  unfold TcpSession.noteDropped
  split
  · exact ⟨rfl, rfl, rfl⟩
  · exact ⟨rfl, rfl, rfl⟩

/-- An acknowledgement from the peer settles nothing on the receive side. -/
theorem prologue_debt (s : TcpSession slots) (clk : Clock) (p : ParsedPacket) :
    SameDebt s (s.prologue clk p) := by
  have hfin : ∀ t : TcpSession slots, SameDebt t (t.finAcked clk) := by
    intro t
    unfold TcpSession.finAcked
    split <;> exact ⟨rfl, rfl, rfl⟩
  have htake : SameDebt s (s.noteAlive.takeAck p) := ⟨rfl, rfl, rfl⟩
  unfold TcpSession.prologue TcpSession.onAck
  split_ifs
  · exact htake.trans (hfin _)
  · exact htake
  · exact ⟨rfl, rfl, rfl⟩

section

variable {rcvNxt : UInt32} {p : ParsedPacket}

section

variable (h : AlreadyReceived rcvNxt p)

include h

theorem AlreadyReceived.seq_ne : p.seq ≠ rcvNxt := by
  intro heq
  have hpos := h.occupies
  have hle := h.before
  rw [heq, UInt32.sub_self] at hle
  have hzero : (0 : UInt32).toNat = 0 := rfl
  omega

theorem AlreadyReceived.not_after : seqAfter p.seq rcvNxt = false := by
  have hpos := h.occupies
  have hle := h.before
  have hlt := h.recent
  have hsub := Serial.toNat_sub_eq_offset p.seq p.seq rcvNxt
  rw [Serial.offset_self, Serial.offset] at hsub
  rw [Bool.eq_false_iff, ne_eq, seqAfter, Serial.after_iff, hsub]
  omega

/-- A FIN that was already received does not sit on the frontier. -/
theorem AlreadyReceived.fin_ne (hfin : p.hasFlag kTcpFin = true) :
    p.seq + UInt32.ofNat p.payload.length ≠ rcvNxt := by
  intro heq
  have hle := h.before
  have hlt := h.recent
  rw [ParsedPacket.occupancy, hfin] at hle
  have hoff := Serial.offset_add p.seq p.seq (l := p.payload.length)
    (by rw [Serial.offset_self]; simp only [if_true] at hle; omega)
  rw [heq, Serial.offset_self, Serial.offset] at hoff
  simp only [if_true] at hle
  omega

/-- The FIN block ignores what was already received. -/
theorem AlreadyReceived.onFin (a : RxAcc slots σ) (clk : Clock)
    (hrcv : a.sess.rcvNxt = rcvNxt) : a.onFin clk p = a := by
  cases hfin : p.hasFlag kTcpFin with
  | false => exact onFin_of_not_fin a clk hfin
  | true => simp [RxAcc.onFin, hrcv, h.fin_ne hfin]

end

end

/-- **One segment that was already received**, in any state and for any callback. -/
theorem onSegment_alreadyReceived (cb : DataCallback slots σ) (clk : Clock) (a : RxAcc slots σ)
    (m : Mbuf) {p : ParsedPacket} (h : AlreadyReceived a.sess.rcvNxt p) :
    ∃ s', a.onSegment cb clk m p = (RxAcc.free { a with sess := s' } m, none) ∧
      SameDebt a.sess s' := by
  have hdebt := prologue_debt a.sess clk p
  rw [← hdebt.rcvNxt] at h
  cases hrecv : (a.sess.prologue clk p).state.receiving with
  | false =>
    refine ⟨a.sess.prologue clk p, ?_, hdebt⟩
    have hskip := h.onFin { a with sess := a.sess.prologue clk p } clk rfl
    unfold TcpSession.prologue at *
    simp only [RxAcc.onSegment, h.noRst, hrecv, Bool.false_eq_true, if_false, hskip]
  | true =>
    rcases Nat.eq_zero_or_pos p.payload.length with hzero | hpos
    · refine ⟨a.sess.prologue clk p, ?_, hdebt⟩
      rw [onSegment_inOrder cb clk a m h.noRst hrecv (by omega)]
      have hnil : ({ a with sess := a.sess.prologue clk p } : RxAcc slots σ).onInOrder cb p =
          { a with sess := a.sess.prologue clk p } := by
        simp [RxAcc.onInOrder, hzero]
      rw [hnil, h.onFin _ clk rfl]
    · rw [onSegment_outOfOrder cb clk a m h.noRst hrecv ⟨h.seq_ne, hpos⟩]
      rcases onOutOfOrder_cases (a.sess.prologue clk p) p with ⟨st, heq, -⟩ |
        ⟨st, -, -, -, hahead⟩ | ⟨st, -, -, hahead, -⟩
      · rw [heq]
        exact ⟨_, rfl, hdebt.trans ⟨rfl, rfl, rfl⟩⟩
      · rw [h.not_after] at hahead
        cases hahead
      · rw [h.not_after] at hahead
        cases hahead

/-- A burst of such segments, by induction on its packets. -/
theorem onBurst_alreadyReceived (cb : DataCallback slots σ) (clk : Clock) (pkts : List Mbuf)
    (a : RxAcc slots σ)
    (h : ∀ m ∈ pkts, ∀ p, a.sess.matching m = some p → AlreadyReceived a.sess.rcvNxt p) :
    ∃ s' list out, a.onBurst cb clk pkts =
      ({ a with sess := s', freeList := list, outside := out }, none) ∧ SameDebt a.sess s' := by
  induction pkts generalizing a with
  | nil => exact ⟨a.sess, a.freeList, a.outside, rfl, rfl, rfl, rfl⟩
  | cons m rest ih =>
    have hstep : ∃ s', a.onPacket cb clk m =
        (RxAcc.free { a with sess := s' } m, none) ∧ SameDebt a.sess s' := by
      cases hm : a.sess.matching m with
      | none =>
        refine ⟨a.sess.noteDropped m, ?_, noteDropped_debt a.sess m⟩
        simp only [RxAcc.onPacket, hm]
      | some p =>
        obtain ⟨s', hseg, hdebt⟩ := onSegment_alreadyReceived cb clk a m
          (h m List.mem_cons_self p hm)
        exact ⟨s', by simp only [RxAcc.onPacket, hm, hseg], hdebt⟩
    obtain ⟨s', hpkt, hdebt⟩ := hstep
    obtain ⟨s'', list, out, hrest, hdebt'⟩ := ih (RxAcc.free { a with sess := s' } m) (by
      intro m' hm' p hp
      rw [RxAcc.free_sess] at hp ⊢
      rw [matching_congr hdebt.config] at hp
      rw [hdebt.rcvNxt]
      exact h m' (List.mem_cons_of_mem m hm') p hp)
    refine ⟨s'', list, out, ?_, hdebt.trans hdebt'⟩
    rw [RxAcc.onBurst, hpkt]
    exact hrest

/-- **Retransmissions of received data or FIN.**  In every state and for every burst
whose matching segments were all received before, `process_rx` succeeds, delivers
nothing, keeps the frontier, and owes an acknowledgement afterwards exactly when it
owed one before. -/
theorem duplicates_leave_ack_debt (s : TcpSession slots) (cb : DataCallback slots σ)
    (clk : Clock) (user : σ) (pkts : List Mbuf)
    (h : ∀ m ∈ pkts, ∀ p, s.matching m = some p → AlreadyReceived s.rcvNxt p) :
    (s.processRx cb clk user pkts).result = .ok 0 ∧
      (s.processRx cb clk user pkts).user = user ∧
      (s.processRx cb clk user pkts).sess.rcvNxt = s.rcvNxt ∧
      (s.processRx cb clk user pkts).sess.ackPendingSinceTsc = s.ackPendingSinceTsc := by
  obtain ⟨s', list, out, hburst, hdebt⟩ := onBurst_alreadyReceived cb clk pkts (.start user s) h
  rw [TcpSession.processRx, hburst]
  exact ⟨rfl, rfl, hdebt.rcvNxt, hdebt.ackPendingSinceTsc⟩

instance (rcvNxt : UInt32) (p : ParsedPacket) : Decidable (AlreadyReceived rcvNxt p) :=
  decidable_of_iff (p.hasFlag kTcpRst = false ∧ 1 ≤ p.occupancy ∧
      p.occupancy ≤ (rcvNxt - p.seq).toNat ∧ (rcvNxt - p.seq).toNat < 2 ^ 31)
    ⟨fun h => ⟨h.1, h.2.1, h.2.2.1, h.2.2.2⟩, fun h => ⟨h.noRst, h.occupies, h.before, h.recent⟩⟩

/-- The byte before the frontier, sent again. -/
def resentByte : Mbuf :=
  sampleMbuf 7 0 kTcpAck [10]

/-- It is not delivered again, and no acknowledgement is owed. -/
theorem duplicates_leave_ack_debt_sample :
    ((sampleSession 64 8).processRx collect ⟨5, 0⟩ [] [resentByte]).result = .ok 0 ∧
      ((sampleSession 64 8).processRx collect ⟨5, 0⟩ [] [resentByte]).user = [] ∧
      ((sampleSession 64 8).processRx collect ⟨5, 0⟩ [] [resentByte]).sess.rcvNxt = 9 ∧
      ((sampleSession 64 8).processRx collect ⟨5, 0⟩ [] [resentByte]).sess.ackPendingSinceTsc =
        0 := by
  refine duplicates_leave_ack_debt (sampleSession 64 8) collect ⟨5, 0⟩ [] [resentByte] ?_
  intro m hm p hp
  rw [List.mem_singleton.mp hm] at hp
  have hparse : (sampleSession 64 8).matching resentByte =
      some ⟨0x0A000002, 0x0A000001, 443, 40000, 8, 1, kTcpAck, 65535, [], [10]⟩ := by
    decide
  obtain rfl := Option.some.inj (hparse.symm.trans hp)
  decide

/-- An established session receives again the byte before its frontier: the call
succeeds and no acknowledgement is owed. -/
theorem retransmission_not_acked :
    (sampleSession 64 8).state = .established ∧
      (∃ p, (sampleSession 64 8).matching resentByte = some p ∧
        AlreadyReceived (sampleSession 64 8).rcvNxt p) ∧
      ((sampleSession 64 8).processRx collect ⟨5, 0⟩ [] [resentByte]).result.isOk = true ∧
      ((sampleSession 64 8).processRx collect ⟨5, 0⟩ [] [resentByte]).sess.ackPendingSinceTsc =
        0 :=
  ⟨rfl, ⟨⟨0x0A000002, 0x0A000001, 443, 40000, 8, 1, kTcpAck, 65535, [], [10]⟩, by decide,
    by decide⟩, by decide, by decide⟩

end Eph.Dpdk
