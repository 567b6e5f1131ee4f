import Ephemeral.TcpRun

/-!
# The transmit side of a TCP session, connecting, and polling

The operations of `TcpSession` that touch the NIC.  `Host` is what a session sees of
the machine: the bursts its receive queue will hand out, what becomes of the packets
it builds, the segments that reached the wire.  Every operation takes the host and
returns it.

`poll_rx` is the one entry through which the stream layer reads: payload that was
fed to the session comes first, and only then, unless the session is in feed-only
mode, is the receive queue polled.

None of the transmit operations touches what the session has received
(`SameInput`), which is what the stream layer's proofs need of them.
-/

namespace Eph.Dpdk

open ByteOrder Core

/-- What becomes of one packet: no buffer to build it in, refused by the transmit
queue, or sent. -/
inductive TxOutcome
  | noMbuf
  | refused
  | sent
  deriving DecidableEq

/-- A transmitted TCP segment. -/
structure TxSegment where
  seq : UInt32
  ack : UInt32
  flags : UInt8
  window : UInt16
  payload : Bytes
  deriving DecidableEq

/-- `InFlightStatus`: what is known about bytes whose sending was cut short. -/
inductive InFlightStatus
  | unsent
  | sent
  | uncertain
  deriving DecidableEq

/-- `InFlightDetail`, the thread's last report of that kind. -/
structure InFlightDetail where
  status : InFlightStatus
  bytesObserved : Nat
  bytesConfirmed : Nat
  phase : String
  detectedAtNs : Nat
  deriving DecidableEq

/-- The machine: the bursts that the receive queue holds, the outcomes of the coming
transmissions (everything is sent once they run out), the segments on the wire, the
calibration of the cycle counter (from nanoseconds), what the random generator
returns for a nonce, the coming readings of the daemon's alive flag (alive once they
run out), and the last in-flight report. -/
structure Host where
  rx : List (List Mbuf)
  tx : List TxOutcome
  wire : List TxSegment
  toCycles : Nat → Option UInt64
  nonce : Option Bytes
  alive : List Bool
  inFlight : Option InFlightDetail

variable (host : Host)

/-- `rte_eth_rx_burst`: the next burst, at most `limit` packets of it. -/
def Host.rxBurst (limit : Nat) : List Mbuf × Host :=
  match host.rx with
  | [] => ([], host)
  | burst :: rest =>
    if burst.length ≤ limit then (burst, { host with rx := rest })
    else (burst.take limit, { host with rx := burst.drop limit :: rest })

/-- Build a packet and hand it to the transmit queue. -/
def Host.transmit (seg : TxSegment) : TxOutcome × Host :=
  match host.tx with
  | [] => (.sent, { host with wire := host.wire ++ [seg] })
  | .sent :: rest => (.sent, { host with tx := rest, wire := host.wire ++ [seg] })
  | outcome :: rest => (outcome, { host with tx := rest })

/-- `Platform::is_alive`: one reading of the flag. -/
def Host.isAlive : Bool × Host :=
  match host.alive with
  | [] => (true, host)
  | reading :: rest => (reading, { host with alive := rest })

theorem isAlive_rx : host.isAlive.2.rx = host.rx := by
  unfold Host.isAlive
  split <;> rfl

theorem transmit_rx (seg : TxSegment) : (host.transmit seg).2.rx = host.rx := by
  unfold Host.transmit
  split <;> rfl

/-- The burst size of the session's own poll paths. -/
def kRxBurstSize : Nat := 32

/-- The byte budget of one poll, from which the burst limit is derived. -/
def kDefaultRxBudgetBytes : Nat := 32768

namespace TcpSession

variable {slots : Nat}

variable (s : TcpSession slots) (host : Host)

/-- Count a transmitted packet. -/
def noteTx : TcpSession slots :=
  { s with stats := { s.stats with txPackets := s.stats.txPackets + 1 } }

/-- `send_ack`: a bare acknowledgement. -/
def sendAck : Except ErrorInfo Unit × TcpSession slots × Host :=
  match host.transmit ⟨s.sndNxt, s.rcvNxt, kTcpAck, s.rcvWnd, []⟩ with
  | (.noMbuf, host) =>
    (.error ⟨.outOfMemory, "TcpSession::send_ack: mbuf allocation failed"⟩, s, host)
  | (.refused, host) => (.error ⟨.bufferFull, "TcpSession::send_ack: tx_burst failed"⟩, s, host)
  | (.sent, host) =>
    (.ok (), { s.noteTx with stats := { s.noteTx.stats with
      acksSent := s.stats.acksSent + 1 } }, host)

/-- `send`: one data segment, which also carries any deferred acknowledgement. -/
def send (data : Bytes) : Except ErrorInfo Nat × TcpSession slots × Host :=
  if s.state ≠ .established then
    (.error ⟨.disconnected, "TcpSession::send: session not Established"⟩, s, host)
  else if data.length > s.effectiveMss.toNat then
    (.error ⟨.invalidConfig, "TcpSession::send: payload exceeds effective MSS"⟩, s, host)
  else
    match host.transmit ⟨s.sndNxt, s.rcvNxt, kTcpAck ||| kTcpPsh, s.rcvWnd, data⟩ with
    | (.noMbuf, host) =>
      (.error ⟨.outOfMemory, "TcpSession::send: mbuf allocation failed"⟩, s, host)
    | (.refused, host) => (.error ⟨.bufferFull, "TcpSession::send: tx_burst failed"⟩, s, host)
    | (.sent, host) =>
      (.ok data.length, { s.noteTx with
        ackPendingSinceTsc := 0
        sndNxt := s.sndNxt + UInt32.ofNat data.length
        stats := { s.noteTx.stats with txBytes := s.stats.txBytes + data.length } }, host)

/-- The SYN retransmit interval, 200 ms. -/
def kSynRetransmitInterval : Nat := 200 * 10 ^ 6

/-- The state of an attempt before its SYN: a fresh sequence number and nothing left
of an earlier connection. -/
def prepareConnect (isn : UInt32) : TcpSession slots :=
  { s with
    sndNxt := isn
    sndUna := isn
    rcvNxt := 0
    reorderBuf := ReorderBuf.clear
    ackPendingSinceTsc := 0
    effectiveMss := s.config.mss
    peerMss := 0
    peerMssNegotiated := false
    lastRxTsc := 0
    lastKeepaliveTsc := 0
    keepaliveMisses := 0 }

/-- `begin_connect`; `isn` is what the random generator returns. -/
def beginConnect (clk : Clock) (isn : Option UInt32) :
    Except ErrorInfo Unit × TcpSession slots × Host :=
  if s.state = .timeWait ∧ clk.now < s.timeWaitDeadline then
    (.error ⟨.invalidConfig,
      "TcpSession::begin_connect: session in TIME_WAIT (2MSL not yet expired)"⟩, s, host)
  else
    let s := if s.state = .timeWait then { s with state := .closed } else s
    if s.state ≠ .closed then
      (.error ⟨.invalidConfig, "TcpSession::begin_connect: session not in Closed state"⟩, s, host)
    else
      match isn with
      | none =>
        (.error ⟨.outOfMemory,
          "TcpSession::begin_connect: ISN generation failed (CSPRNG unavailable)"⟩, s, host)
      | some isn =>
        let s := s.prepareConnect isn
        match host.transmit ⟨s.sndNxt, 0, kTcpSyn, s.rcvWnd, []⟩ with
        | (.noMbuf, host) =>
          (.error ⟨.outOfMemory, "TcpSession::begin_connect: mbuf allocation failed for SYN"⟩,
            s, host)
        | (.refused, host) =>
          (.error ⟨.bufferFull, "TcpSession::begin_connect: tx_burst failed for SYN"⟩, s, host)
        | (.sent, host) =>
          (.ok (), { s.noteTx with
            state := .synSent
            sndNxt := s.sndNxt + 1
            synRetransmitAt := clk.now + kSynRetransmitInterval }, host)

/-- `maybe_retransmit_syn_`: the timer is re-armed whether or not the SYN went out. -/
def maybeRetransmitSyn (clk : Clock) : TcpSession slots × Host :=
  if clk.now ≥ s.synRetransmitAt then
    let (outcome, host) := host.transmit ⟨s.sndNxt - 1, 0, kTcpSyn, s.rcvWnd, []⟩
    let s := if outcome = .sent then s.noteTx else s
    ({ s with synRetransmitAt := clk.now + kSynRetransmitInterval }, host)
  else (s, host)

/-- Take the parameters of a SYN-ACK: frontier, acknowledgement, window, and the
smaller of the two segment sizes. -/
def takeSynAck (p : ParsedPacket) : TcpSession slots :=
  let s := { s with rcvNxt := p.seq + 1, sndUna := p.ack, sndWnd := p.window }
  match (parseTcpOptions p).mss with
  | none => s
  | some mss =>
    if mss = 0 then s
    else if mss < s.effectiveMss then
      { s with
        peerMss := mss
        effectiveMss := mss
        peerMssNegotiated := true
        stats := { s.stats with mssNegotiationsApplied := s.stats.mssNegotiationsApplied + 1 } }
    else { s with peerMss := mss, peerMssNegotiated := true }

/-- What a connect step leaves behind; `freed` are the packets it gave back. -/
structure ConnectOutcome (slots : Nat) where
  result : Except ErrorInfo Bool
  sess : TcpSession slots
  host : Host
  freed : List Mbuf

/-- The packet loop of `handle_handshake_burst_`: look for the SYN-ACK, or a RST. -/
def handleHandshakeBurst (s : TcpSession slots) (host : Host) (freed : List Mbuf) :
    List Mbuf → ConnectOutcome slots
  | [] => ⟨.ok false, s, host, freed⟩
  | m :: rest =>
    match s.matching m with
    | none => handleHandshakeBurst s host (freed ++ [m]) rest
    | some p =>
      let s := { s with stats := { s.stats with rxPackets := s.stats.rxPackets + 1 } }
      if p.hasFlag kTcpRst then
        ⟨.error ⟨.connectFailed, "TcpSession::connect_step: connection refused (RST)"⟩,
          { s with
            state := .closed
            stats := { s.stats with resetsReceived := s.stats.resetsReceived + 1 } },
          host, freed ++ m :: rest⟩
      else if p.hasFlag kTcpSyn && p.hasFlag kTcpAck then
        if p.ack ≠ s.sndNxt then handleHandshakeBurst s host (freed ++ [m]) rest
        else
          match (s.takeSynAck p).sendAck host with
          | (.error e, s, host) => ⟨.error e, s, host, freed ++ m :: rest⟩
          | (.ok _, s, host) =>
            ⟨.ok true, { s with state := .established }, host, freed ++ m :: rest⟩
      else handleHandshakeBurst s host (freed ++ [m]) rest

/-- `connect_step`, in both forms: on packets routed to the session, or, when there
are none, on a burst it polls itself. -/
def connectStep (clk : Clock) (mbufs : Option (List Mbuf)) : ConnectOutcome slots :=
  if s.state = .established then ⟨.ok true, s, host, []⟩
  else if s.state ≠ .synSent then
    ⟨.error ⟨.invalidConfig,
      "TcpSession::connect_step: session not in SynSent (call begin_connect)"⟩, s, host, []⟩
  else
    let (s, host) := s.maybeRetransmitSyn host clk
    match mbufs with
    | some mbufs => handleHandshakeBurst s host [] mbufs
    | none =>
      let (pkts, host) := host.rxBurst kRxBurstSize
      handleHandshakeBurst s host [] pkts

/-- `ack_timer_expired`. -/
def ackTimerExpired (pendingSince now delay : UInt64) : Bool :=
  pendingSince != 0 && now - pendingSince ≥ delay

/-- `ack_delay_cycles_`: 40 µs, at 1 GHz before calibration. -/
def ackDelayCycles : UInt64 :=
  (host.toCycles 40000).getD 40000

/-- `flush_pending_ack`: the deferred acknowledgement, once its timer has expired; it
stays pending when it cannot be sent. -/
def flushPendingAck (clk : Clock) : TcpSession slots × Host :=
  if ackTimerExpired s.ackPendingSinceTsc clk.tsc (ackDelayCycles host) then
    match s.sendAck host with
    | (.error _, s, host) => (s, host)
    | (.ok _, s, host) => ({ s with ackPendingSinceTsc := 0 }, host)
  else (s, host)

/-- The RST of a reset. -/
def rstSegment : TxSegment :=
  ⟨s.sndNxt, s.rcvNxt, kTcpRst ||| kTcpAck, 0, []⟩

/-- Close the session and forget the connection; what was fed to it stays. -/
def forget : TcpSession slots :=
  { s with
    state := .closed
    reorderBuf := ReorderBuf.clear
    ackPendingSinceTsc := 0
    sndWnd := 0
    rcvNxt := 0
    lastRxTsc := 0
    lastKeepaliveTsc := 0
    keepaliveMisses := 0
    effectiveMss := s.config.mss
    peerMss := 0
    peerMssNegotiated := false }

/-- `reset`: a RST goes out if it can, and the connection is forgotten. -/
def reset : TcpSession slots × Host :=
  let (outcome, host) := host.transmit s.rstSegment
  ((if outcome = .sent then s.noteTx else s).forget, host)

/-- `feed_rx`: payload for the next `poll_rx`. -/
def feedRx (data : Bytes) : TcpSession slots :=
  { s with rxFeed := s.rxFeed ++ data }

/-- `set_feed_only`. -/
def setFeedOnly (v : Bool) : TcpSession slots :=
  { s with feedOnly := v }

end TcpSession

/-- Cut a byte string into pieces of at most `n` bytes; `fuel` bounds their number. -/
def chunks (n : Nat) : Nat → Bytes → List Bytes
  | 0, _ => []
  | fuel + 1, data => if data.isEmpty then [] else data.take n :: chunks n fuel (data.drop n)

/-- What a call of `poll_rx` leaves behind. -/
structure PollOutcome (slots : Nat) (σ : Type) where
  result : Except ErrorInfo Nat
  user : σ
  sess : TcpSession slots
  host : Host

namespace TcpSession

variable {slots : Nat} {σ : Type}

variable (s : TcpSession slots)

/-- The burst limit of `poll_rx`. -/
def burstLimit : Nat :=
  if s.config.maxRxBurst > 0 then s.config.maxRxBurst.toNat
  else if s.config.mss > 0 then min kRxBurstSize (kDefaultRxBudgetBytes / s.config.mss.toNat)
  else kRxBurstSize

/-- Account for a burst. -/
def noteBurst (clk : Clock) : TcpSession slots :=
  { s with
    stats := { s.stats with rxBursts := s.stats.rxBursts + 1 }
    lastRxBurstTsc := clk.tsc }

/-- Hand the fed payload to the callback, in pieces of at most 65535 bytes. -/
def deliverFeed (host : Host) (cb : DataCallback slots σ) (user : σ) : PollOutcome slots σ :=
  let pieces := chunks 0xFFFF s.rxFeed.length s.rxFeed
  let (user, s) := pieces.foldl (fun a piece => cb a.1 a.2 piece) (user, s)
  ⟨.ok pieces.length, user, { s with rxFeed := [] }, host⟩

/-- `poll_rx`. -/
def pollRx (host : Host) (clk : Clock) (cb : DataCallback slots σ) (user : σ) :
    PollOutcome slots σ :=
  if !s.rxFeed.isEmpty then s.deliverFeed host cb user
  else if s.feedOnly then
    let (s, host) := s.flushPendingAck host clk
    ⟨.ok 0, user, s, host⟩
  else
    match host.rxBurst s.burstLimit with
    | ([], host) =>
      let (s, host) := s.flushPendingAck host clk
      ⟨.ok 0, user, s, host⟩
    | (pkts, host) =>
      let o := (s.noteBurst clk).processRx cb clk user pkts
      ⟨o.result, o.user, o.sess, host⟩

end TcpSession

/-! ## What the operations leave alone -/

/-- `s'` has received what `s` has, down to the payload that was fed to it. -/
structure SameInput {slots : Nat} (s s' : TcpSession slots) : Prop extends SameReceive s s' where
  rxFeed : s'.rxFeed = s.rxFeed

namespace SameInput

variable {slots : Nat} {s s' s'' : TcpSession slots}

theorem refl (s : TcpSession slots) : SameInput s s :=
  ⟨SameReceive.refl s, rfl⟩

theorem trans (h : SameInput s s') (h' : SameInput s' s'') : SameInput s s'' :=
  ⟨h.toSameReceive.trans h'.toSameReceive, h'.rxFeed.trans h.rxFeed⟩

end SameInput

namespace TcpSession

variable {slots : Nat} {σ : Type}

section

variable (s : TcpSession slots)

theorem sendAck_same (host : Host) :
    SameInput s (s.sendAck host).2.1 ∧ (s.sendAck host).2.2.rx = host.rx := by
  have hrx := transmit_rx host ⟨s.sndNxt, s.rcvNxt, kTcpAck, s.rcvWnd, []⟩
  unfold sendAck
  split
  all_goals
    rename_i hsend
    rw [hsend] at hrx
    exact ⟨⟨⟨rfl, rfl, rfl, rfl⟩, rfl⟩, hrx⟩

theorem send_same (host : Host) (data : Bytes) :
    SameInput s (s.send host data).2.1 ∧ (s.send host data).2.2.rx = host.rx := by
  have hrx := transmit_rx host ⟨s.sndNxt, s.rcvNxt, kTcpAck ||| kTcpPsh, s.rcvWnd, data⟩
  unfold send
  split
  · exact ⟨SameInput.refl s, rfl⟩
  split
  · exact ⟨SameInput.refl s, rfl⟩
  split
  all_goals
    rename_i hsend
    rw [hsend] at hrx
    exact ⟨⟨⟨rfl, rfl, rfl, rfl⟩, rfl⟩, hrx⟩

theorem flushPendingAck_same (host : Host) (clk : Clock) :
    SameInput s (s.flushPendingAck host clk).1 ∧ (s.flushPendingAck host clk).2.rx = host.rx := by
  obtain ⟨hsame, hrx⟩ := s.sendAck_same host
  unfold flushPendingAck
  split
  · split
    all_goals
      rename_i hack
      rw [hack] at hsame hrx
    · exact ⟨hsame, hrx⟩
    · exact ⟨hsame.trans ⟨⟨rfl, rfl, rfl, rfl⟩, rfl⟩, hrx⟩
  · exact ⟨SameInput.refl s, rfl⟩

theorem setFeedOnly_same (v : Bool) : SameInput s (s.setFeedOnly v) :=
  ⟨⟨rfl, rfl, rfl, rfl⟩, rfl⟩

end

end TcpSession

end Eph.Dpdk
