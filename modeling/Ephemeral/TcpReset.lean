import Ephemeral.TcpInOrder

/-!
# The RST window test

A RST closes the connection when its sequence number is in the receive window.  The log of
`process_rx` gives the window as half-open; the test also lets the position right behind it
pass (`rstInWindow_iff`).
-/

namespace Eph.Dpdk

open Serial TcpSession

variable {slots : Nat} {σ : Type} (s : TcpSession slots) (p : ParsedPacket)

theorem TcpSession.offset_windowEnd :
    offset s.rcvNxt (s.rcvNxt + s.rcvWnd.toUInt32) = s.rcvWnd.toNat := by
  have hwnd := s.rcvWnd.toNat_lt
  rw [← UInt32.ofNat_uInt16ToNat]
  exact offset_fromBase s.rcvNxt (by omega)

/-- The test accepts everything up to the end of the window, the end included. -/
theorem TcpSession.rstInWindow_iff (rstSeq : UInt32) :
    s.rstInWindow rstSeq = true ↔ offset s.rcvNxt rstSeq ≤ s.rcvWnd.toNat := by
  have hwnd := s.rcvWnd.toNat_lt
  have hzero : rstSeq = s.rcvNxt ↔ offset s.rcvNxt rstSeq = 0 := by
    rw [← offset_inj s.rcvNxt, offset_self]
  have hahead : seqAfter rstSeq s.rcvNxt = true ↔
      0 < offset s.rcvNxt rstSeq ∧ offset s.rcvNxt rstSeq < 2 ^ 31 := after_iff ..
  unfold rstInWindow
  rw [Bool.or_eq_true, beq_iff_eq, hzero, Bool.and_eq_true, hahead, Bool.not_eq_true',
    ← Bool.not_eq_true]
  by_cases hnear : offset s.rcvNxt rstSeq < 2 ^ 31
  · have hbeyond : seqAfter rstSeq (s.rcvNxt + s.rcvWnd.toUInt32) = true ↔
        s.rcvWnd.toNat < offset s.rcvNxt rstSeq := by
      rw [← s.offset_windowEnd]
      exact after_iff_offset s.rcvNxt hnear (by rw [s.offset_windowEnd]; omega)
    rw [hbeyond]
    omega
  · omega

/-- The sequence number of the segment is in the half-open receive window. -/
def TcpSession.HalfOpen : Prop :=
  p.seq = s.rcvNxt ∨ offset s.rcvNxt p.seq < s.rcvWnd.toNat

/-- What `process_rx` makes of a RST: it closes the connection exactly in the window, and
otherwise only notes that the peer is alive. -/
structure ResetsInWindow (out : RxOutcome slots σ) : Prop where
  resets : (out.result = .error resetByPeerError ∧ out.sess.state = .closed) ↔ s.HalfOpen p
  ignores : ¬s.HalfOpen p → out.sess = s.noteAlive

/-- **RST window.**  A matching RST is handled as the window says, in every state, exactly
when it is not right behind a window that is not empty. -/
theorem rst_window_iff (s : TcpSession slots) (p : ParsedPacket) (m : Mbuf)
    (hmatch : s.matching m = some p) (hrst : p.hasFlag kTcpRst = true)
    (cb : DataCallback slots σ) (clk : Clock) (user : σ) :
    ResetsInWindow s p (s.processRx cb clk user [m]) ↔
      (p.seq = s.rcvNxt + s.rcvWnd.toUInt32 → s.rcvWnd = 0) := by
  have hwnd := s.rcvWnd.toNat_lt
  have hbehind : p.seq = s.rcvNxt + s.rcvWnd.toUInt32 ↔
      offset s.rcvNxt p.seq = s.rcvWnd.toNat := by
    rw [← offset_inj s.rcvNxt, s.offset_windowEnd]
  have hempty : s.rcvWnd = 0 ↔ s.rcvWnd.toNat = 0 := UInt16.toNat_inj.symm
  have hhalf : s.HalfOpen p ↔
      offset s.rcvNxt p.seq = 0 ∨ offset s.rcvNxt p.seq < s.rcvWnd.toNat := by
    rw [HalfOpen, ← offset_inj s.rcvNxt, offset_self]
  have hwindow := s.rstInWindow_iff p.seq
  have halive : s.noteAlive.rstInWindow p.seq = s.rstInWindow p.seq := rfl
  simp only [processRx, RxAcc.onBurst, RxAcc.onPacket, RxAcc.start, hmatch, RxAcc.onSegment,
    hrst, if_true, halive]
  rw [hbehind, hempty]
  cases hin : s.rstInWindow p.seq with
  | true =>
    rw [hin, eq_self, true_iff] at hwindow
    constructor
    · rintro ⟨hresets, -⟩ hlast
      have hinside := hhalf.mp (hresets.mp ⟨rfl, rfl⟩)
      omega
    · intro hnot
      have hinside : s.HalfOpen p := hhalf.mpr (by omega)
      exact ⟨iff_of_true ⟨rfl, rfl⟩ hinside, fun hout => absurd hinside hout⟩
  | false =>
    rw [hin, Bool.false_eq_true, false_iff] at hwindow
    exact iff_of_true ⟨iff_of_false (by rintro ⟨⟨⟩, -⟩) (by rw [hhalf]; omega), fun _ => rfl⟩
      (by omega)

/-- A RST at offset `off` of the sample connection, whose window has 65535 bytes. -/
def sampleRst (off : Nat) : Mbuf := sampleMbuf 7 off kTcpRst []

/-- The RST right behind the window closes the connection. -/
theorem rst_behind_window : ∃ p, (sampleSession 64 7).matching (sampleRst 65535) = some p ∧
    p.hasFlag kTcpRst = true ∧ ¬(sampleSession 64 7).HalfOpen p ∧
    ((sampleSession 64 7).processRx collect ⟨1, 0⟩ [] [sampleRst 65535]).sess.state = .closed := by
  refine ⟨_, rfl, ?_⟩
  unfold HalfOpen
  decide

/-- One byte further on, it is ignored. -/
theorem rst_window_sample : ∃ p, (sampleSession 64 7).matching (sampleRst 65536) = some p ∧
    ResetsInWindow (sampleSession 64 7) p
      ((sampleSession 64 7).processRx collect ⟨1, 0⟩ [] [sampleRst 65536]) :=
  ⟨_, rfl, (rst_window_iff _ _ _ rfl (by decide) ..).mpr (by decide)⟩

end Eph.Dpdk
