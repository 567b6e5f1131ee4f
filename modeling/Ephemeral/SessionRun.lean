import Ephemeral.SendBatch

/-!
# Steps of a handshake

What each call of a handshake can do: send an acknowledgement (`sendAck_cases`), begin a connect
(`beginConnect_cases`), and take a burst of packets (`handleHandshakeBurst_cases`).  What is said
about every run of a handshake rests on these three.
-/

namespace Eph.Dpdk

open ByteOrder Core List

variable {slots : Nat}

namespace TcpSession

variable (s : TcpSession slots)

/-- The acknowledgement that `send_ack` sends. -/
def ackSegment : TxSegment :=
  ⟨s.sndNxt, s.rcvNxt, kTcpAck, s.rcvWnd, []⟩

theorem sendAck_cases (host : Host) :
    (host.nextTx ≠ .sent ∧ ∃ e, (s.sendAck host).1 = .error e ∧ (s.sendAck host).2.1 = s ∧
      (s.sendAck host).2.2.wire = host.wire) ∨
    (host.nextTx = .sent ∧ (s.sendAck host).1 = .ok () ∧
      (∃ st, (s.sendAck host).2.1 = { s with stats := st }) ∧
      (s.sendAck host).2.2.wire = host.wire ++ [s.ackSegment]) := by
  obtain ⟨hnext, hwire⟩ := transmit_spec host s.ackSegment
  unfold ackSegment at hnext hwire
  unfold sendAck
  split <;> rename_i hsend <;> rw [hsend] at hnext hwire <;> rw [← hnext] at hwire ⊢
  · exact .inl ⟨nofun, _, rfl, rfl, by simpa using hwire⟩
  · exact .inl ⟨nofun, _, rfl, rfl, by simpa using hwire⟩
  · exact .inr ⟨rfl, rfl, ⟨_, rfl⟩, by simpa [ackSegment] using hwire⟩

/-- A connect may begin. -/
def Admits (clk : Clock) : Prop :=
  s.state = .closed ∨ s.state = .timeWait ∧ s.timeWaitDeadline ≤ clk.now

/-- The SYN of a connect. -/
def synSegment (isn : UInt32) : TxSegment :=
  ⟨isn, 0, kTcpSyn, s.rcvWnd, []⟩

/-- **What a connect can do when it begins**: be refused; fail for want of a sequence number, or
because the SYN cannot be sent; or send it. -/
theorem beginConnect_cases (host : Host) (clk : Clock) (isn : Option UInt32) :
    (¬s.Admits clk ∧ ∃ e, s.beginConnect host clk isn = (.error e, s, host)) ∨
    (s.Admits clk ∧ isn = none ∧
      ∃ e, s.beginConnect host clk isn = (.error e, { s with state := .closed }, host)) ∨
    (∃ n, s.Admits clk ∧ isn = some n ∧ host.nextTx ≠ .sent ∧
      ∃ e, s.beginConnect host clk isn = (.error e,
        { s.prepareConnect n with state := .closed }, (host.transmit (s.synSegment n)).2)) ∨
    (∃ n, s.Admits clk ∧ isn = some n ∧ host.nextTx = .sent ∧
      ∃ st, s.beginConnect host clk isn = (.ok (), { s.prepareConnect n with
        state := .synSent
        sndNxt := n + 1
        synRetransmitAt := clk.now + kSynRetransmitInterval
        stats := st }, (host.transmit (s.synSegment n)).2)) := by
  by_cases hadmits : s.Admits clk
  swap
  · refine .inl ⟨hadmits, ?_⟩
    unfold beginConnect
    by_cases hwait : s.state = .timeWait
    · rw [if_pos ⟨hwait, Nat.lt_of_not_le fun h => hadmits (.inr ⟨hwait, h⟩)⟩]
      exact ⟨_, rfl⟩
    · rw [if_neg (hwait ·.1), if_neg hwait, if_pos (hadmits ∘ .inl)]
      exact ⟨_, rfl⟩
  · have hnow : ¬(s.state = .timeWait ∧ clk.now < s.timeWaitDeadline) := by
      rintro ⟨hwait, hlt⟩
      rcases hadmits with hclosed | ⟨-, hle⟩
      · exact absurd (hwait.symm.trans hclosed) nofun
      · exact absurd hlt (Nat.not_lt.mpr hle)
    have hclosed : (if s.state = .timeWait then { s with state := .closed } else s) =
        { s with state := .closed } := by
      split
      · rfl
      · rw [← hadmits.resolve_right (‹¬_› ·.1)]
    refine .inr ?_
    unfold beginConnect
    rw [if_neg hnow, hclosed]
    cases isn with
    | none => exact .inl ⟨hadmits, rfl, _, rfl⟩
    | some n =>
      obtain ⟨hnext, -⟩ := transmit_spec host (s.synSegment n)
      refine .inr ?_
      rw [← hnext]
      simp only [synSegment, prepareConnect]
      rcases hr : host.transmit ⟨n, 0, kTcpSyn, s.rcvWnd, []⟩ with ⟨outcome, host'⟩
      cases outcome with
      | noMbuf | refused => exact .inl ⟨n, hadmits, rfl, nofun, _, by rw [hr]; rfl⟩
      | sent => exact .inr ⟨n, hadmits, rfl, rfl, _, by rw [hr]; rfl⟩

theorem takeSynAck_state (p : ParsedPacket) : (s.takeSynAck p).state = s.state := by
  unfold takeSynAck
  dsimp only
  repeat' split
  all_goals rfl

theorem takeSynAck_stats (p : ParsedPacket) (st : Stats) :
    ∃ st', { s with stats := st }.takeSynAck p = { s.takeSynAck p with stats := st' } := by
  unfold takeSynAck
  dsimp only
  repeat' split
  all_goals exact ⟨_, rfl⟩

/-- The packet that decides a handshake burst: a RST, or the awaited SYN-ACK. -/
def decisive (pkts : List Mbuf) : Option ParsedPacket :=
  (pkts.filterMap s.matching).find? fun p =>
    p.hasFlag kTcpRst || p.hasFlag kTcpSyn && p.hasFlag kTcpAck && p.ack == s.sndNxt

/-- **What a handshake burst can do**, by the packet that decides it: nothing, but count; close
the session on a RST; take a SYN-ACK and establish the connection; or take it and fail to
acknowledge it. -/
inductive Handshaken (s : TcpSession slots) (host : Host) :
    Option ParsedPacket → ConnectOutcome slots → Prop
  | pending (st : Stats) (freed : List Mbuf) :
      Handshaken s host none ⟨.ok false, { s with stats := st }, host, freed⟩
  | refused {p : ParsedPacket} (hrst : p.hasFlag kTcpRst = true) (e : ErrorInfo) (st : Stats)
      (freed : List Mbuf) :
      Handshaken s host p ⟨.error e, { s with state := .closed, stats := st }, host, freed⟩
  | established {p : ParsedPacket} (hrst : p.hasFlag kTcpRst = false) (hack : p.ack = s.sndNxt)
      (hsent : host.nextTx = .sent) (st : Stats) {host' : Host}
      (hwire : host'.wire = host.wire ++ [(s.takeSynAck p).ackSegment]) (freed : List Mbuf) :
      Handshaken s host p
        ⟨.ok true, { s.takeSynAck p with state := .established, stats := st }, host', freed⟩
  | unacknowledged {p : ParsedPacket} (hrst : p.hasFlag kTcpRst = false)
      (hack : p.ack = s.sndNxt) (hlost : host.nextTx ≠ .sent) (e : ErrorInfo) (st : Stats)
      {host' : Host} (hwire : host'.wire = host.wire) (freed : List Mbuf) :
      Handshaken s host p ⟨.error e, { s.takeSynAck p with stats := st }, host', freed⟩

theorem handleHandshakeBurst_cases (host : Host) (freed pkts : List Mbuf) :
    Handshaken s host (s.decisive pkts) (s.handleHandshakeBurst host freed pkts) ∧
      (s.handleHandshakeBurst host freed pkts).freed = freed ++ pkts := by
  -- the counters may have moved before the packet that decides
  have hgo : ∀ st, Handshaken s host (s.decisive pkts)
      ({ s with stats := st }.handleHandshakeBurst host freed pkts) ∧
      ({ s with stats := st }.handleHandshakeBurst host freed pkts).freed = freed ++ pkts := by
    induction pkts generalizing freed with
    | nil => exact fun st => ⟨.pending st _, (append_nil _).symm⟩
    | cons m rest ih =>
      intro st
      have hskip := fun st => ih (freed ++ [m]) st
      simp only [append_assoc, singleton_append] at hskip
      rw [handleHandshakeBurst]
      cases hm : matching { s with stats := st } m with
      | none =>
        rw [decisive, filterMap_cons_none (f := s.matching) hm]
        exact hskip st
      | some p =>
        rw [decisive, filterMap_cons_some (f := s.matching) hm, find?_cons]
        dsimp only
        cases hrst : p.hasFlag kTcpRst with
        | true => exact ⟨.refused hrst _ _ _, rfl⟩
        | false =>
          rw [if_neg Bool.false_ne_true, Bool.false_or]
          by_cases hsyn : (p.hasFlag kTcpSyn && p.hasFlag kTcpAck) = true
          swap
          · rw [if_neg hsyn, Bool.not_eq_true _ |>.mp hsyn]
            exact hskip _
          rw [if_pos hsyn, hsyn, Bool.true_and]
          by_cases hack : p.ack = s.sndNxt
          swap
          · rw [if_pos hack, beq_eq_false_iff_ne.mpr hack]
            exact hskip _
          rw [if_neg (not_not.mpr hack), beq_iff_eq.mpr hack]
          generalize { st with rxPackets := st.rxPackets + 1 } = st'
          obtain ⟨st'', htook⟩ := takeSynAck_stats s p st'
          have hsent := sendAck_cases ({ s with stats := st' }.takeSynAck p) host
          generalize sendAck ({ s with stats := st' }.takeSynAck p) host = r at hsent
          obtain ⟨res, s', host'⟩ := r
          rw [htook] at hsent
          rcases hsent with ⟨hlost, e, rfl, rfl, hwire⟩ | ⟨hsent, rfl, ⟨st₂, rfl⟩, hwire⟩
          · exact ⟨.unacknowledged hrst hack hlost e st'' hwire _, rfl⟩
          · exact ⟨.established hrst hack hsent st₂ hwire _, rfl⟩
  exact hgo s.stats

end TcpSession

end Eph.Dpdk
