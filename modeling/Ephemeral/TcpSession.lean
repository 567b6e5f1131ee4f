import Ephemeral.CoreTypes
import Ephemeral.IntervalReassembly
import Ephemeral.PacketParse
import Ephemeral.SerialNumber

/-!
# The TCP session and its receive path

`TcpSession` is the state of one userspace TCP connection, and `processRx` its
receive path: for every matching segment of a burst the RST check, the
acknowledgement block, in-order delivery with the reorder buffer, and the FIN
transitions, in that order.

The payload callback of the source is a state transformer `cb` on a user state
`σ` that may also act on the session, as the stream layer's callback does when
its buffer overflows.  Clock readings are arguments.  The reorder buffer carries
its bounds as fields, so that neither an oversized entry nor an overfull buffer
can be built.
-/

namespace Eph.Dpdk

open ByteOrder Core

/-- The states of a connection. -/
inductive TcpState
  | closed
  | listen
  | synSent
  | synReceived
  | established
  | finWait1
  | finWait2
  | closeWait
  | closing
  | lastAck
  | timeWait
  deriving DecidableEq

/-- The part of the session configuration that its operations read. -/
structure TcpConfig where
  tuple : ConnectionTuple
  mss : UInt16
  recvWindow : UInt32
  maxRxBurst : UInt16
  keepaliveInterval : Int
  keepaliveProbes : UInt8
  deriving DecidableEq

/-- Cumulative counters of a session. -/
structure Stats where
  txPackets : Nat
  rxPackets : Nat
  rxBursts : Nat
  txBytes : Nat
  rxBytes : Nat
  acksSent : Nat
  outOfOrder : Nat
  resetsReceived : Nat
  mssNegotiationsApplied : Nat
  icmpFragNeededReceived : Nat
  keepaliveProbesSent : Nat
  keepaliveSendFailures : Nat
  reorderHits : Nat
  reorderOverflows : Nat
  maxGapSize : UInt32
  packetsDropped : Nat
  fragmentRejected : Nat
  dupSegments : Nat
  numericalAnomalies : Nat
  gapHistogram : List Nat
  deriving DecidableEq

/-- `Stats::gap_bucket`: the binary logarithm of a gap. -/
def gapBucket (gap : UInt32) : Nat :=
  if gap = 0 then 0 else Nat.log2 gap.toNat

/-- A buffered out-of-order segment; a slot holds at most `kDefaultMss` bytes. -/
structure ReorderEntry where
  seq : UInt32
  data : Bytes
  len_le : data.length ≤ kDefaultMss
  deriving DecidableEq

/-- The reorder buffer: the occupied slots, in slot order. -/
structure ReorderBuf (slots : Nat) where
  entries : List ReorderEntry
  count_le : entries.length ≤ slots
  deriving DecidableEq

namespace ReorderBuf

variable {slots : Nat}

/-- `reorder_count_ = 0`. -/
def clear : ReorderBuf slots :=
  ⟨[], Nat.zero_le slots⟩

/-- Fill the next free slot. -/
def push (b : ReorderBuf slots) (e : ReorderEntry) (h : b.entries.length < slots) :
    ReorderBuf slots :=
  ⟨b.entries ++ [e], by rw [List.length_append, List.length_singleton]; exact h⟩

/-- `reorder_buf_[i] = reorder_buf_[--reorder_count_]`: overwrite slot `i` with
the last one and drop that. -/
def swapRemove (b : ReorderBuf slots) (i : Nat) : ReorderBuf slots :=
  ⟨Reassembly.swapRemove b.entries i,
    Nat.le_trans (Reassembly.length_swapRemove_le b.entries i) b.count_le⟩

end ReorderBuf

/-- One TCP connection; `slots` is the template parameter `ReorderSlots`. -/
structure TcpSession (slots : Nat) where
  config : TcpConfig
  state : TcpState
  sndNxt : UInt32
  sndUna : UInt32
  rcvNxt : UInt32
  rcvWnd : UInt16
  sndWnd : UInt16
  effectiveMss : UInt16
  peerMss : UInt16
  peerMssNegotiated : Bool
  reorderBuf : ReorderBuf slots
  stats : Stats
  ackPendingSinceTsc : UInt64
  timeWaitDeadline : Nat
  synRetransmitAt : Nat
  rxFeed : Bytes
  feedOnly : Bool
  lastRxTsc : UInt64
  lastKeepaliveTsc : UInt64
  keepaliveMisses : UInt8
  lastRxBurstTsc : UInt64

/-- All counters at zero, with the 32 buckets of the gap histogram. -/
def Stats.zero : Stats :=
  ⟨0, 0, 0, 0, 0, 0, 0, 0, 0, 0, 0, 0, 0, 0, 0, 0, 0, 0, 0, List.replicate 32 0⟩

/-- The constructor.  `isn` is the random initial sequence number, or `none` when
the generator fails. -/
def TcpSession.create {slots : Nat} (config : TcpConfig) (isn : Option UInt32) :
    TcpSession slots where
  config := config
  state := .closed
  sndNxt := isn.getD 1
  sndUna := isn.getD 1
  rcvNxt := 0
  rcvWnd := config.recvWindow.toUInt16
  sndWnd := 0
  effectiveMss := config.mss
  peerMss := 0
  peerMssNegotiated := false
  reorderBuf := ReorderBuf.clear
  stats := Stats.zero
  ackPendingSinceTsc := 0
  timeWaitDeadline := 0
  synRetransmitAt := 0
  rxFeed := []
  feedOnly := false
  lastRxTsc := 0
  lastKeepaliveTsc := 0
  keepaliveMisses := 0
  lastRxBurstTsc := 0

/-- The clocks a call reads: the cycle counter and the steady clock (ns). -/
structure Clock where
  tsc : UInt64
  now : Nat

/-- `seq_after`: positive signed difference. -/
def seqAfter (a b : UInt32) : Bool := Serial.after a b

section Receive

variable {slots : Nat} {σ : Type} (s : TcpSession slots)

/-- `enter_time_wait`: two maximum segment lifetimes of 60 s from now. -/
def TcpSession.enterTimeWait (clk : Clock) : TcpSession slots :=
  { s with state := .timeWait, timeWaitDeadline := clk.now + 2 * 60 * 10 ^ 9 }

/-- The packet of an mbuf when it parses and belongs to this connection. -/
def TcpSession.matching (m : Mbuf) : Option ParsedPacket :=
  (parsePacket m).filter (·.matches s.config.tuple)

/-- Account for a packet that is not ours. -/
def TcpSession.noteDropped (m : Mbuf) : TcpSession slots :=
  if (parsePacket m).isNone && isIpFragment m then
    { s with stats := { s.stats with fragmentRejected := s.stats.fragmentRejected + 1 } }
  else
    { s with stats := { s.stats with packetsDropped := s.stats.packetsDropped + 1 } }

/-- Any matching segment is evidence that the peer is alive. -/
def TcpSession.noteAlive : TcpSession slots :=
  { s with
    stats := { s.stats with rxPackets := s.stats.rxPackets + 1 }
    lastRxTsc := s.lastRxBurstTsc
    keepaliveMisses := 0 }

/-- The receive-window test that a RST has to pass. -/
def TcpSession.rstInWindow (rstSeq : UInt32) : Bool :=
  rstSeq == s.rcvNxt ||
    (seqAfter rstSeq s.rcvNxt && !seqAfter rstSeq (s.rcvNxt + s.rcvWnd.toUInt32))

/-- Advance `sndUna` by a valid acknowledgement and take the peer's window. -/
def TcpSession.takeAck (p : ParsedPacket) : TcpSession slots :=
  { s with
    sndUna :=
      if seqAfter p.ack s.sndUna && !seqAfter p.ack s.sndNxt then p.ack else s.sndUna
    sndWnd := p.window }

/-- The transitions driven by the acknowledgement of our FIN. -/
def TcpSession.finAcked (clk : Clock) : TcpSession slots :=
  match s.state with
  | .finWait1 => { s with state := .finWait2 }
  | .closing => s.enterTimeWait clk
  | .lastAck => { s with state := .closed }
  | _ => s

/-- The acknowledgement block of the packet loop. -/
def TcpSession.onAck (clk : Clock) (p : ParsedPacket) : TcpSession slots :=
  if p.hasFlag kTcpAck then
    if (s.takeAck p).sndUna = s.sndNxt then (s.takeAck p).finAcked clk else s.takeAck p
  else s

/-- The states in which the receive path is active. -/
def TcpState.receiving : TcpState → Bool
  | .established | .finWait1 | .finWait2 | .closeWait | .closing => true
  | _ => false

/-- The length of the free list of `process_rx`. -/
def kMaxBurst : Nat := 32

/-- What the packet loop of `process_rx` carries: the user state of the
callback, the session, its two local accumulators, the mbufs on the free list, the mbufs
given back already, and whether an array has been accessed outside its bounds.  From such an
access on the source's behaviour is not defined, and the model says nothing about it. -/
structure RxAcc (slots : Nat) (σ : Type) where
  user : σ
  sess : TcpSession slots
  dataCount : Nat
  needAck : Bool
  freeList : List Mbuf
  freed : List Mbuf
  outside : Bool

/-- The locals of `process_rx` before its packet loop. -/
def RxAcc.start (user : σ) (s : TcpSession slots) : RxAcc slots σ :=
  ⟨user, s, 0, false, [], [], false⟩

/-- `free_list[free_count++] = m`. -/
def RxAcc.free (a : RxAcc slots σ) (m : Mbuf) : RxAcc slots σ :=
  { a with
    freeList := a.freeList ++ [m]
    outside := a.outside || kMaxBurst ≤ a.freeList.length }

/-- A packet with which the burst ends in an error is left to the clean-up. -/
def RxAcc.freeUnless (a : RxAcc slots σ) (err : Option ErrorInfo) (m : Mbuf) : RxAcc slots σ :=
  if err.isSome then a else a.free m

@[simp] theorem RxAcc.free_sess (a : RxAcc slots σ) (m : Mbuf) : (a.free m).sess = a.sess := rfl

@[simp] theorem RxAcc.freeUnless_sess (a : RxAcc slots σ) (err : Option ErrorInfo) (m : Mbuf) :
    (a.freeUnless err m).sess = a.sess := by
  unfold freeUnless
  split <;> rfl

@[simp] theorem RxAcc.freeUnless_user (a : RxAcc slots σ) (err : Option ErrorInfo) (m : Mbuf) :
    (a.freeUnless err m).user = a.user := by
  unfold freeUnless
  split <;> rfl

/-- The payload callback. -/
abbrev DataCallback (slots : Nat) (σ : Type) :=
  σ → TcpSession slots → Bytes → σ × TcpSession slots

/-- Deliver one payload: the callback, then the frontier and the byte count. -/
def RxAcc.deliver (cb : DataCallback slots σ) (a : RxAcc slots σ) (payload : Bytes) :
    RxAcc slots σ :=
  let (user, s) := cb a.user a.sess payload
  { a with
    user := user
    sess := { s with
      rcvNxt := s.rcvNxt + UInt32.ofNat payload.length
      stats := { s.stats with rxBytes := s.stats.rxBytes + payload.length } }
    dataCount := a.dataCount + 1 }

/-- `drain_reorder_buf`: as long as some slot starts at the frontier, deliver the
first such slot and remove it by swapping in the last one.  Every round removes a
slot, so the number of occupied slots bounds the rounds.  If the callback has emptied the
buffer, by a reset of the session, `--reorder_count_` wraps to 255, past the last slot. -/
def RxAcc.drainReorderBuf (cb : DataCallback slots σ) : Nat → RxAcc slots σ → RxAcc slots σ
  | 0, a => a
  | fuel + 1, a =>
    match a.sess.reorderBuf.entries.findIdx? (·.seq == a.sess.rcvNxt) with
    | none => a
    | some i =>
      match a.sess.reorderBuf.entries[i]? with
      | none => a
      | some e =>
        let a := a.deliver cb e.data
        drainReorderBuf cb fuel
          { a with
            sess := { a.sess with reorderBuf := a.sess.reorderBuf.swapRemove i }
            outside := a.outside || a.sess.reorderBuf.entries.isEmpty }

/-- Telemetry of an out-of-order segment; only forward gaps are measured. -/
def TcpSession.noteOutOfOrder (segSeq : UInt32) : TcpSession slots :=
  let s := { s with stats := { s.stats with outOfOrder := s.stats.outOfOrder + 1 } }
  if seqAfter segSeq s.rcvNxt then
    let gap := segSeq - s.rcvNxt
    { s with stats := { s.stats with
      maxGapSize := if gap > s.stats.maxGapSize then gap else s.stats.maxGapSize
      gapHistogram := s.stats.gapHistogram.modify (gapBucket gap) (· + 1) } }
  else s

/-- The error of a reorder-buffer overflow. -/
def reorderOverflowError : ErrorInfo :=
  ⟨.disconnected, "TcpSession::process_rx: packet loss detected (reorder buffer full)"⟩

/-- The error of an accepted RST. -/
def resetByPeerError : ErrorInfo :=
  ⟨.disconnected, "TcpSession::process_rx: connection reset by peer"⟩

/-- An out-of-order segment with payload: buffer it when it lies ahead and a
slot is free, drop it when it lies behind, and fail otherwise. -/
def TcpSession.onOutOfOrder (p : ParsedPacket) : TcpSession slots × Option ErrorInfo :=
  let s := s.noteOutOfOrder p.seq
  if hlen : p.payload.length ≤ kDefaultMss then
    if hslot : seqAfter p.seq s.rcvNxt = true ∧ s.reorderBuf.entries.length < slots then
      ({ s with
        stats := { s.stats with reorderHits := s.stats.reorderHits + 1 }
        reorderBuf := s.reorderBuf.push ⟨p.seq, p.payload, hlen⟩ hslot.2 }, none)
    else if !seqAfter p.seq s.rcvNxt then
      ({ s with stats := { s.stats with dupSegments := s.stats.dupSegments + 1 } }, none)
    else
      ({ s with stats := { s.stats with reorderOverflows := s.stats.reorderOverflows + 1 } },
        some reorderOverflowError)
  else (s, none)

/-- Telemetry touches only the counters. -/
theorem noteOutOfOrder_eq (segSeq : UInt32) :
    ∃ st, s.noteOutOfOrder segSeq = { s with stats := st } := by
  unfold TcpSession.noteOutOfOrder
  dsimp only
  split
  · exact ⟨_, rfl⟩
  · exact ⟨_, rfl⟩

/-- **What can happen to an out-of-order segment**: it is dropped because it is too
long for a slot or lies behind the frontier, it is buffered, or it lies ahead and no
slot is free. -/
theorem onOutOfOrder_cases (p : ParsedPacket) :
    (∃ st, s.onOutOfOrder p = ({ s with stats := st }, none) ∧
      (kDefaultMss < p.payload.length ∨ seqAfter p.seq s.rcvNxt = false)) ∨
    (∃ st hlen hslot, s.onOutOfOrder p = ({ s with
        stats := st
        reorderBuf := s.reorderBuf.push ⟨p.seq, p.payload, hlen⟩ hslot }, none) ∧
      seqAfter p.seq s.rcvNxt = true) ∨
    (∃ st, s.onOutOfOrder p = ({ s with stats := st }, some reorderOverflowError) ∧
      p.payload.length ≤ kDefaultMss ∧ seqAfter p.seq s.rcvNxt = true ∧
      slots ≤ s.reorderBuf.entries.length) := by
  obtain ⟨st, hst⟩ := noteOutOfOrder_eq s p.seq
  unfold TcpSession.onOutOfOrder
  simp only [hst]
  by_cases hlen : p.payload.length ≤ kDefaultMss
  · rw [dif_pos hlen]
    by_cases hslot : seqAfter p.seq s.rcvNxt = true ∧ s.reorderBuf.entries.length < slots
    · rw [dif_pos hslot]
      exact .inr (.inl ⟨_, hlen, hslot.2, rfl, hslot.1⟩)
    rw [dif_neg hslot]
    cases hafter : seqAfter p.seq s.rcvNxt with
    | false => exact .inl ⟨_, rfl, .inr rfl⟩
    | true =>
      refine .inr (.inr ⟨_, rfl, hlen, rfl, ?_⟩)
      exact Nat.le_of_not_lt fun hlt => hslot ⟨hafter, hlt⟩
  · rw [dif_neg hlen]
    exact .inl ⟨_, rfl, .inl (Nat.lt_of_not_le hlen)⟩

/-- The FIN block: a FIN that sits exactly at the frontier is consumed in the
states that expect one. -/
def RxAcc.onFin (a : RxAcc slots σ) (clk : Clock) (p : ParsedPacket) : RxAcc slots σ :=
  let s := a.sess
  let consumed := { s with rcvNxt := s.rcvNxt + 1 }
  if p.hasFlag kTcpFin && p.seq + UInt32.ofNat p.payload.length == s.rcvNxt then
    match s.state with
    | .established => { a with sess := { consumed with state := .closeWait }, needAck := true }
    | .finWait1 =>
      if s.sndUna = s.sndNxt then
        { a with sess := consumed.enterTimeWait clk, needAck := true }
      else
        { a with sess := { consumed with state := .closing }, needAck := true }
    | .closing => { a with sess := consumed.enterTimeWait clk, needAck := true }
    | .finWait2 => { a with sess := consumed.enterTimeWait clk, needAck := true }
    | _ => a
  else a

/-- In-order payload is delivered and the reorder buffer drained behind it. -/
def RxAcc.onInOrder (cb : DataCallback slots σ) (a : RxAcc slots σ) (p : ParsedPacket) :
    RxAcc slots σ :=
  if p.payload.length > 0 then
    let a := { a.deliver cb p.payload with needAck := true }
    a.drainReorderBuf cb a.sess.reorderBuf.entries.length
  else a

/-- One matching segment, which goes on the free list unless it ends the burst with an
error. -/
def RxAcc.onSegment (cb : DataCallback slots σ) (clk : Clock) (a : RxAcc slots σ) (m : Mbuf)
    (p : ParsedPacket) : RxAcc slots σ × Option ErrorInfo :=
  let a := { a with sess := a.sess.noteAlive }
  if p.hasFlag kTcpRst then
    if a.sess.rstInWindow p.seq then
      ({ a with sess := { a.sess with
        state := .closed
        stats := { a.sess.stats with resetsReceived := a.sess.stats.resetsReceived + 1 } } },
        some resetByPeerError)
    else (a.free m, none)
  else
    let a := { a with sess := a.sess.onAck clk p }
    if a.sess.state.receiving then
      if p.seq ≠ a.sess.rcvNxt ∧ p.payload.length > 0 then
        -- too long for a slot, copied into one, or a duplicate: two appends in the source
        let (s, err) := a.sess.onOutOfOrder p
        (RxAcc.freeUnless { a with sess := s } err m, err)
      else
        (((a.onInOrder cb p).onFin clk p).free m, none)
    else ((a.onFin clk p).free m, none)

/-- One packet of the burst: ours or dropped. -/
def RxAcc.onPacket (cb : DataCallback slots σ) (clk : Clock) (a : RxAcc slots σ) (m : Mbuf) :
    RxAcc slots σ × Option ErrorInfo :=
  match a.sess.matching m with
  | none => (RxAcc.free { a with sess := a.sess.noteDropped m } m, none)
  | some p => a.onSegment cb clk m p

/-- `abort_rx_cleanup`: the packet that ended the burst goes on the free list; the packets
behind it are freed unread, and then the list. -/
def RxAcc.abortRxCleanup (a : RxAcc slots σ) (m : Mbuf) (rest : List Mbuf) : RxAcc slots σ :=
  { a.free m with freeList := [], freed := a.freed ++ rest ++ (a.free m).freeList }

/-- The packet loop of `process_rx`, with the clean-up behind an error. -/
def RxAcc.onBurst (cb : DataCallback slots σ) (clk : Clock) :
    RxAcc slots σ → List Mbuf → RxAcc slots σ × Option ErrorInfo
  | a, [] => (a, none)
  | a, m :: rest =>
    match a.onPacket cb clk m with
    | (a, none) => onBurst cb clk a rest
    | (a, some err) => (a.abortRxCleanup m rest, some err)

/-- What a call of `process_rx` leaves behind: the packets in the order in which they were
freed, and whether an array was accessed outside its bounds. -/
structure RxOutcome (slots : Nat) (σ : Type) where
  user : σ
  sess : TcpSession slots
  freed : List Mbuf
  outside : Bool
  result : Except ErrorInfo Nat

/-- `TcpSession::process_rx`.  On the success path the free list is freed at the end, and only
there the deferred acknowledgement is armed. -/
def TcpSession.processRx (cb : DataCallback slots σ) (clk : Clock)
    (user : σ) (pkts : List Mbuf) : RxOutcome slots σ :=
  match RxAcc.onBurst cb clk (.start user s) pkts with
  | (a, some err) => ⟨a.user, a.sess, a.freed, a.outside, .error err⟩
  | (a, none) =>
    let s :=
      if a.needAck && a.sess.ackPendingSinceTsc == 0 then
        { a.sess with ackPendingSinceTsc := clk.tsc }
      else a.sess
    ⟨a.user, s, a.freed ++ a.freeList, a.outside, .ok a.dataCount⟩

end Receive

end Eph.Dpdk
