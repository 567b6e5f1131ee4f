import Ephemeral.Decimal
import Ephemeral.DpdkWsSink
import Ephemeral.ReasmBuffer
import Ephemeral.StreamCodec

/-!
# The DPDK stream

`DpdkTcpStream` is a TCP session with, optionally, TLS and the WebSocket upgrade on
top, and a codec behind them.  Until the whole chain is up, `drive_handshake_` walks
it leg by leg; from then on received payload goes to the reassembly buffer and
`drain_codec_` feeds it to the codec, through the record layer when TLS is on.

A stream is driven in two ways: `poll_once_` lets the session poll the receive queue
itself, and `process_burst_` is handed packets by the poller.  In both, one call sees
one reading of the clocks.
-/

namespace Eph.Net.Dpdk

open ByteOrder Core Eph.Dpdk

/-- The part of `StreamConfig` that the stream reads after it was created.
`enableTls` is the template parameter; times are in nanoseconds. -/
structure StreamConfig where
  enableTls : Bool
  wsPath : Bytes
  wsHost : Bytes
  wsExtraHeaders : List HttpHeader
  wsTimeout : Nat
  wsPermessageDeflate : Bool
  tlsHostname : Bytes
  tlsHandshakeTimeout : Nat
  deriving DecidableEq

/-- The stream's own counters. -/
structure StreamMetrics where
  bytesSent : Nat
  bytesRecv : Nat
  framesDecoded : Nat
  reasmOverflows : Nat
  codecErrors : Nat
  tlsCrossRecordFrames : Nat
  tlsSendDesyncs : Nat
  rxSessionResets : Nat
  rxIpChecksumBad : Nat
  rxL4ChecksumBad : Nat
  tlsResumeCount : Nat
  tlsHandshakeCount : Nat
  deriving DecidableEq

/-- A stream over a codec with state `γ` and a TLS state `τ`.  `platform` says whether
it has a platform to ask for the daemon, `onMessage` whether the application has set
its callback; `messages` are the frames handed to it.  `handshakeSteps` counts the
calls of `drive_handshake_`; the source has no such counter. -/
structure DpdkTcpStream (slots : Nat) (γ τ : Type) where
  cfg : StreamConfig
  sess : TcpSession slots
  codec : γ
  tls : τ
  tlsCorrupt : Bool
  wsDeflateActive : Bool
  tlsCodecPending : Bytes
  reasm : ReasmBuffer
  reasmOverflowed : Bool
  hsPhase : HandshakePhase
  connectDeadline : Nat
  hsError : ErrorInfo
  wsDriver : Option WsHandshakeDriver
  wsSink : Option WsSink
  strictRxCksum : Bool
  attached : Bool
  platform : Bool
  onMessage : Bool
  messages : List Bytes
  metrics : StreamMetrics
  handshakeSteps : Nat

namespace DpdkTcpStream

variable {slots : Nat} {γ τ : Type}

/-! ## Sending -/

variable (eng : TlsEngine slots τ) (codec : StreamCodec γ) (s : DpdkTcpStream slots γ τ)
  (host : Host) (clk : Clock)

/-- `check_post_burst_`: has the daemon died while the bytes went out? -/
def checkPostBurst (status : InFlightStatus) (observed confirmed : Nat) (phase : String) :
    Option ErrorInfo × Host :=
  if !s.platform then (none, host)
  else
    match host.isAlive with
    | (true, host) => (none, host)
    | (false, host) =>
      (some ⟨.daemonDisconnected, "post-burst is_alive() observed daemon disconnected — " ++
        "see last_daemon_disconnected_detail() for InFlightStatus"⟩,
        { host with inFlight := some ⟨status, observed, confirmed, phase, clk.now⟩ })

/-- What is known of bytes of which `off` were out when the sending stopped. -/
def inFlightStatus (off : Nat) : InFlightStatus :=
  if off > 0 then .uncertain else .unsent

/-- Latch a write sequence that has run ahead of the wire. -/
def latchDesync : DpdkTcpStream slots γ τ :=
  { s with
    tlsCorrupt := true
    metrics := { s.metrics with tlsSendDesyncs := s.metrics.tlsSendDesyncs + 1 } }

def noteSent (n : Nat) : DpdkTcpStream slots γ τ :=
  { s with metrics := { s.metrics with bytesSent := s.metrics.bytesSent + n } }

/-- A send that stopped with `e` after `off` of `observed` bytes. -/
def sendFailed (e : ErrorInfo) (observed off : Nat) (phase : String) :
    Except ErrorInfo Nat × DpdkTcpStream slots γ τ × Host :=
  let (died, host) := s.checkPostBurst host clk (inFlightStatus off) observed off phase
  (.error (died.getD e), s, host)

/-- A send all of whose bytes are out. -/
def sendDone (len : Nat) (phase : String) : Except ErrorInfo Nat × DpdkTcpStream slots γ τ × Host :=
  let s := s.noteSent len
  match s.checkPostBurst host clk .sent len len phase with
  | (some e, host) => (.error e, s, host)
  | (none, host) => (.ok len, s, host)

/-- The error of a session that takes no bytes. -/
def sendZeroError : ErrorInfo :=
  ⟨.bufferFull, "DpdkTcpStream::send: TcpSession::send returned 0"⟩

/-- The sending proper, in plaintext. -/
def sendPlain (payload : Bytes) : Except ErrorInfo Nat × DpdkTcpStream slots γ τ × Host :=
  let (stop, sess, host) := sendAll s.sess host payload
  let s := { s with sess := sess }
  match stop with
  | .failed e off =>
    (s.noteSent off).sendFailed host clk e payload.length off
      "DpdkTcpStream::send(plain,post-burst-error)"
  | .zero off =>
    (s.noteSent off).sendFailed host clk sendZeroError payload.length off
      "DpdkTcpStream::send(plain,post-burst-zero)"
  | .done => s.sendDone host clk payload.length "DpdkTcpStream::send(plain,post-burst)"

/-- The sending proper, over TLS: once a record is sealed, any failure to put all of it
on the wire latches `tls_corrupt_`. -/
def sendTls (payload : Bytes) : Except ErrorInfo Nat × DpdkTcpStream slots γ τ × Host :=
  match eng.encryptForSend s.tls payload with
  | (.error e, tls) => (.error e, { s with tls := tls }.latchDesync, host)
  | (.ok buf, tls) =>
    let (stop, sess, host) := sendAll s.sess host buf
    let s := { s with tls := tls, sess := sess }
    match stop with
    | .failed e off =>
      s.latchDesync.sendFailed host clk e buf.length off
        "DpdkTcpStream::send(TLS,post-burst-error)"
    | .zero off =>
      s.latchDesync.sendFailed host clk sendZeroError buf.length off
        "DpdkTcpStream::send(TLS,post-burst-zero)"
    | .done => s.sendDone host clk payload.length "DpdkTcpStream::send(TLS,post-burst)"

/-- `send`, once the stream is known to be attached and the daemon to be alive. -/
def sendAttached (payload : Bytes) : Except ErrorInfo Nat × DpdkTcpStream slots γ τ × Host :=
  if s.sess.state ≠ .established then
    (.error ⟨.disconnected, "DpdkTcpStream::send: session not Established"⟩, s, host)
  else if s.cfg.enableTls then s.sendTls eng host clk payload
  else s.sendPlain host clk payload

/-- `DpdkTcpStream::send`. -/
def send (payload : Bytes) : Except ErrorInfo Nat × DpdkTcpStream slots γ τ × Host :=
  if s.cfg.enableTls && s.tlsCorrupt then
    (.error ⟨.disconnected, "DpdkTcpStream::send: TLS state desynced " ++
      "(partial send advanced write seq past wire) — reconnect required"⟩, s, host)
  else if !s.attached then
    (.error ⟨.notAttached, "DpdkTcpStream::send called before attach"⟩, s, host)
  else if !s.platform then s.sendAttached eng host clk payload
  else
    match host.isAlive with
    | (true, host) => s.sendAttached eng host clk payload
    | (false, host) =>
      (.error ⟨.daemonDisconnected,
        "DpdkTcpStream::send: daemon disconnected (Platform::is_alive==false); " ++
        "bytes are Unsent — see last_daemon_disconnected_detail()"⟩, s,
        { host with
          inFlight := some ⟨.unsent, payload.length, 0, "DpdkTcpStream::send", clk.now⟩ })

/-! ## The handshake -/

/-- `handshaking_`. -/
def handshaking : Bool :=
  match s.hsPhase with
  | .tcpConnecting | .tcpConnected | .tlsHandshaking | .tlsConnected | .wsHandshaking => true
  | _ => false

/-- `fail_handshake_`: keep the error and reset the session. -/
def failHandshake (e : ErrorInfo) : DpdkTcpStream slots γ τ × Host :=
  let (sess, host) := s.sess.reset host
  ({ s with
    hsError := e
    hsPhase := .failed
    sess := sess
    wsDriver := none
    wsSink := none }, host)

/-- `become_established_`. -/
def becomeEstablished : DpdkTcpStream slots γ τ :=
  { s with hsPhase := .established, sess := s.sess.setFeedOnly false }

/-- `format_ipv4`. -/
def formatIpv4 (ip : UInt32) : Bytes :=
  let octet (shift : UInt32) : Bytes := Decimal.render 3 ((ip >>> shift) &&& 0xFF).toNat
  octet 24 ++ ascii "." ++ octet 16 ++ ascii "." ++ octet 8 ++ ascii "." ++ octet 0

/-- The value of the Host header: as configured, else the TLS host name, else the
remote address. -/
def wsHostHeader : Bytes :=
  if s.cfg.wsHost ≠ [] then s.cfg.wsHost
  else if s.cfg.enableTls = true ∧ s.cfg.tlsHostname ≠ [] then s.cfg.tlsHostname
  else
    let t := s.sess.config.tuple
    formatIpv4 t.dstIp ++ ascii ":" ++ Decimal.render 5 t.dstPort.toNat

/-- The sink of the upgrade, with nothing in it. -/
def freshSink : WsSink :=
  if s.cfg.enableTls then .tls [] [] else .plain []

/-- `enter_ws_`. -/
def enterWs : DpdkTcpStream slots γ τ × Host :=
  let s := { s with connectDeadline := clk.now + s.cfg.wsTimeout }
  match WsHandshakeDriver.create host.nonce s.wsHostHeader s.cfg.wsPath s.cfg.wsExtraHeaders
      (some ⟨s.cfg.wsPermessageDeflate, false, false⟩) with
  | .error e => s.failHandshake host e
  | .ok d =>
    ({ s with wsDriver := some d, wsSink := some s.freshSink, hsPhase := .wsHandshaking }, host)

/-- `advance_after_tls_`. -/
def advanceAfterTls : DpdkTcpStream slots γ τ × Host :=
  if s.cfg.wsPath ≠ [] then s.enterWs host clk else (s.becomeEstablished, host)

/-- `advance_after_tcp_`. -/
def advanceAfterTcp : DpdkTcpStream slots γ τ × Host :=
  if s.cfg.enableTls then
    let s := { s with connectDeadline := clk.now + s.cfg.tlsHandshakeTimeout }
    match eng.beginHandshake s.tls with
    | (.error e, tls) => { s with tls := tls }.failHandshake host e
    | (.ok _, tls) => ({ s with tls := tls, hsPhase := .tlsHandshaking }, host)
  else s.advanceAfterTls host clk

/-- The negotiated extension reaches the codec, if the codec knows it. -/
def applyDeflate (deflate : Option WsHandshakeDeflate) : DpdkTcpStream slots γ τ :=
  match deflate with
  | some state =>
    if state.negotiated then
      { s with
        wsDeflateActive := true
        codec :=
          match codec.enablePermessageDeflate with
          | some enable => enable s.codec state.serverNoContextTakeover
          | none => s.codec }
    else s
  | none => s

/-- `finalize_ws_`: what the driver has read beyond the response goes to the
reassembly buffer; driver and sink are destroyed. -/
def finalizeWs (d : WsHandshakeDriver) : DpdkTcpStream slots γ τ × Host :=
  let s := s.applyDeflate codec d.deflate
  if d.leftover.isEmpty then ({ s with wsDriver := none, wsSink := none }, host)
  else
    match s.reasm.append d.leftover with
    | none =>
      s.failHandshake host ⟨.bufferFull, "DpdkTcpStream: ws leftover exceeds reasm capacity"⟩
    | some reasm => ({ s with reasm := reasm, wsDriver := none, wsSink := none }, host)

/-- The callback of `feed_payload_`. -/
def feed : DataCallback slots Unit :=
  fun _ sess data => ((), sess.feedRx data)

variable (mbufs : Option (List Mbuf))

/-- The receiving half of a TLS or upgrade step: routed packets are fed to the session,
which then may not poll the queue; without packets it may. -/
def takeInput : Except ErrorInfo Unit × DpdkTcpStream slots γ τ :=
  match mbufs with
  | none => (.ok (), { s with sess := s.sess.setFeedOnly false })
  | some mbufs =>
    let o := (s.sess.setFeedOnly true).processRx feed clk () mbufs
    (o.result.map fun _ => (), { s with sess := o.sess })

/-- The TCP leg. -/
def driveTcp : DpdkTcpStream slots γ τ × Host :=
  let o := s.sess.connectStep host clk mbufs
  let s := { s with sess := o.sess }
  match o.result with
  | .error e => s.failHandshake o.host e
  | .ok false => (s, o.host)
  | .ok true => { s with hsPhase := .tcpConnected }.advanceAfterTcp eng o.host clk

/-- Count a completed TLS handshake. -/
def noteTlsUp (resumed : Bool) : DpdkTcpStream slots γ τ :=
  if resumed then
    { s with metrics := { s.metrics with tlsResumeCount := s.metrics.tlsResumeCount + 1 } }
  else
    { s with metrics := { s.metrics with tlsHandshakeCount := s.metrics.tlsHandshakeCount + 1 } }

/-- The TLS leg; a plaintext stream is never in it. -/
def driveTls : DpdkTcpStream slots γ τ × Host :=
  if !s.cfg.enableTls then (s, host)
  else
    match s.takeInput clk mbufs with
    | (.error e, s) => s.failHandshake host e
    | (.ok _, s) =>
      match eng.handshakeStep s.tls s.sess host clk with
      | (.error e, tls, sess, host) => { s with tls := tls, sess := sess }.failHandshake host e
      | (.ok false, tls, sess, host) => ({ s with tls := tls, sess := sess }, host)
      | (.ok true, tls, sess, host) =>
        let s := { s with tls := tls, sess := sess }.noteTlsUp (eng.wasResumed tls)
        { s with hsPhase := .tlsConnected }.advanceAfterTls host clk

/-- One step of the upgrade driver.  The stream becomes established once the driver is
done, whatever `finalize_ws_` did. -/
def stepUpgrade : DpdkTcpStream slots γ τ × Host :=
  match s.wsDriver, s.wsSink with
  | some d, some sink =>
    let (r, d, w) := d.step (wsSinkOps eng clk) ⟨s.sess, host, s.tls, sink⟩
    let s := { s with
      sess := w.sess
      tls := w.tls
      wsDriver := some d
      wsSink := some w.sink }
    match r with
    | .error e => s.failHandshake w.host e
    | .ok false => (s, w.host)
    | .ok true =>
      let (s, host) := s.finalizeWs codec w.host d
      (s.becomeEstablished, host)
  -- Driver and sink exist throughout this phase.
  | _, _ => (s, host)

/-- The upgrade leg. -/
def driveWs : DpdkTcpStream slots γ τ × Host :=
  match s.takeInput clk mbufs with
  | (.error e, s) => s.failHandshake host e
  | (.ok _, s) => s.stepUpgrade eng codec host clk

/-- Count a step of the connection attempt. -/
def noteStep : DpdkTcpStream slots γ τ :=
  { s with handshakeSteps := s.handshakeSteps + 1 }

/-- `drive_handshake_`: one step of the connection attempt. -/
def driveHandshake : DpdkTcpStream slots γ τ × Host :=
  if clk.now ≥ s.connectDeadline then
    s.noteStep.failHandshake host
      ⟨.timeout, "DpdkTcpStream: connect/handshake deadline exceeded"⟩
  else
    match s.hsPhase with
    | .tcpConnecting => s.noteStep.driveTcp eng host clk mbufs
    | .tlsHandshaking => s.noteStep.driveTls eng host clk mbufs
    | .wsHandshaking => s.noteStep.driveWs eng codec host clk mbufs
    | _ => (s.noteStep, host)

/-! ## Received data -/

/-- The state of the drain loops: the stream, the machine, the number of frames
delivered, and the latch of a codec error. -/
structure DrainState (slots : Nat) (γ τ : Type) where
  stream : DpdkTcpStream slots γ τ
  host : Host
  delivered : Nat
  codecErrLatched : Bool

open DrainState

variable (w : DrainState slots γ τ)

/-- One call of the codec, and the sending of its automatic response.  A response that
cannot be sent is dropped. -/
def DrainState.decode (view : Bytes) :
    DrainState slots γ τ × Nat × Except ErrorInfo (Option Bytes) :=
  let d := codec.decode w.stream.codec view (OutputBuffer.create kCodecAutoResponseBytes)
  let s := { w.stream with codec := d.codec }
  if d.out.bytes.isEmpty then ({ w with stream := s }, d.consumed, d.result)
  else
    let (_, s, host) := s.send eng w.host clk d.out.bytes
    ({ w with stream := s, host := host }, d.consumed, d.result)

/-- `on_message` and the counters of a delivered frame. -/
def DrainState.deliver (frame : Bytes) : DrainState slots γ τ :=
  { w with
    delivered := w.delivered + 1
    stream := { w.stream with
      messages := w.stream.messages ++ [frame]
      metrics := { w.stream.metrics with
        framesDecoded := w.stream.metrics.framesDecoded + 1 } } }

def DrainState.noteCodecError : DrainState slots γ τ :=
  { w with stream := { w.stream with
      metrics := { w.stream.metrics with codecErrors := w.stream.metrics.codecErrors + 1 } } }

/-- The loop over one record: the codec trims the view itself. -/
def tlsDrainOps : DrainOps (DrainState slots γ τ) where
  decode := decode eng codec clk
  consume := fun w _ => w
  deliver := deliver

/-- The loop over plaintext: consumed bytes leave the reassembly buffer. -/
def plainDrainOps : DrainOps (DrainState slots γ τ) where
  decode := decode eng codec clk
  consume := fun w n =>
    { w with stream := { w.stream with reasm := w.stream.reasm.consume n } }
  deliver := deliver

/-- The plaintext of one record.  An unfinished frame of the records before it is put
in front; what the codec does not take is kept for the next. -/
def DrainState.onRecord (plaintext : Bytes) : DrainState slots γ τ :=
  if w.codecErrLatched then w
  else
    let view := w.stream.tlsCodecPending ++ plaintext
    let crossed := if w.stream.tlsCodecPending.isEmpty then 0 else 1
    let w := { w with stream := { w.stream with
      metrics := { w.stream.metrics with
        tlsCrossRecordFrames := w.stream.metrics.tlsCrossRecordFrames + crossed } } }
    match drainFrames (tlsDrainOps eng codec clk) view.length w view with
    | (w, _, some _) =>
      { w.noteCodecError with
        stream := { w.noteCodecError.stream with tlsCodecPending := [] }
        codecErrLatched := true }
    | (w, rest, none) => { w with stream := { w.stream with tlsCodecPending := rest } }

/-- Give the byte stream up: latch, and reset the session. -/
def abandon : DpdkTcpStream slots γ τ × Host :=
  let (sess, host) := s.sess.reset host
  ({ s with reasmOverflowed := true, sess := sess }, host)

/-- The record loop of the TLS drain, over the whole reassembly buffer. -/
def DrainState.openRecords : Except ErrorInfo Nat × DrainState slots γ τ :=
  eng.processRecordsInPlace (fun w => w.stream.tls)
    (fun w tls => { w with stream := { w.stream with tls := tls } })
    (onRecord eng codec clk) w w.stream.reasm.content

/-- `drain_codec_` over TLS. -/
def drainTls : Nat × DpdkTcpStream slots γ τ × Host :=
  match openRecords eng codec clk ⟨s, host, 0, false⟩ with
  | (.error _, w) => (w.delivered, w.stream.abandon w.host)
  | (.ok consumed, w) =>
    let s := { w.stream with reasm := w.stream.reasm.consume consumed }
    if w.codecErrLatched then (w.delivered, { s with tlsCodecPending := [] }.abandon w.host)
    else (w.delivered, s, w.host)

/-- `drain_codec_` in plaintext. -/
def drainPlain : Nat × DpdkTcpStream slots γ τ × Host :=
  match drainFrames (plainDrainOps eng codec clk) s.reasm.readable ⟨s, host, 0, false⟩
      s.reasm.content with
  | (w, _, some _) => (w.delivered, w.noteCodecError.stream, w.host)
  | (w, _, none) => (w.delivered, w.stream, w.host)

/-- `drain_codec_`: feed the buffered bytes to the codec; the number of frames
delivered. -/
def drainCodec : Nat × DpdkTcpStream slots γ τ × Host :=
  if !s.onMessage then (0, s, host)
  else
    let s := { s with reasm := s.reasm.compact }
    if s.reasm.readable = 0 then (0, s, host)
    else if s.cfg.enableTls then s.drainTls eng codec host clk
    else s.drainPlain eng codec host clk

/-- What the payload callback of the data path works on.  `rst` is the RST of the reset
that an overflow forces; it is sent when the callback's caller has the machine again. -/
structure RxSink where
  reasm : ReasmBuffer
  overflowed : Bool
  bytesRecv : Nat
  rst : Option TxSegment

/-- The payload callback of the data path. -/
def receive : DataCallback slots RxSink :=
  fun u sess data =>
    if u.overflowed then (u, sess)
    else
      match u.reasm.append data with
      | none => ({ u with overflowed := true, rst := some sess.rstSegment }, sess.forget)
      | some reasm => ({ u with reasm := reasm, bytesRecv := u.bytesRecv + data.length }, sess)

/-- What the callback starts from. -/
def rxSink : RxSink :=
  ⟨s.reasm, s.reasmOverflowed, 0, none⟩

/-- Take over what the callback has done. -/
def applyRx (u : RxSink) (sess : TcpSession slots) (host : Host) : DpdkTcpStream slots γ τ × Host :=
  let s := { s with
    reasm := u.reasm
    reasmOverflowed := u.overflowed
    metrics := { s.metrics with bytesRecv := s.metrics.bytesRecv + u.bytesRecv } }
  match u.rst with
  | none => ({ s with sess := sess }, host)
  | some seg =>
    let (outcome, host) := host.transmit seg
    ({ s with
      sess := if outcome = .sent then sess.noteTx else sess
      metrics := { s.metrics with reasmOverflows := s.metrics.reasmOverflows + 1 } }, host)

/-- `handle_rx_session_error_`. -/
def handleRxSessionError : DpdkTcpStream slots γ τ × Host :=
  if s.sess.state ≠ .closed then
    let (sess, host) := s.sess.reset host
    ({ s with
      sess := sess
      metrics := { s.metrics with rxSessionResets := s.metrics.rxSessionResets + 1 } }, host)
  else (s, host)

/-- The data path of `poll_once_`. -/
def pollData : Nat × DpdkTcpStream slots γ τ × Host :=
  let o := s.sess.pollRx host clk receive s.rxSink
  let (s, host) := s.applyRx o.user o.sess o.host
  match o.result with
  | .error _ => (0, s.handleRxSessionError host)
  | .ok _ => if s.reasmOverflowed then (0, s, host) else s.drainCodec eng codec host clk

/-- `poll_once_`: the session polls the receive queue. -/
def pollOnce : Nat × DpdkTcpStream slots γ τ × Host :=
  if s.handshaking then
    (0, { s with sess := s.sess.setFeedOnly false }.driveHandshake eng codec host clk none)
  else if s.sess.state ≠ .established then (0, s, host)
  else if s.reasmOverflowed then (0, s, host)
  else if s.cfg.enableTls && s.tlsCorrupt then (0, s, host)
  else s.pollData eng codec host clk

/-- Is a layer's verdict a reason to drop the packet? -/
def cksumBad (strict : Bool) (verdict : RxCksum) : Bool :=
  if strict then verdict != .good else verdict == .bad

/-- The checksum gate of `process_burst_`: count what is dropped, keep the rest. -/
def checksumGate (s : DpdkTcpStream slots γ τ) : List Mbuf → DpdkTcpStream slots γ τ × List Mbuf
  | [] => (s, [])
  | m :: rest =>
    let ipBad := cksumBad s.strictRxCksum m.ipCksum
    let l4Bad := cksumBad s.strictRxCksum m.l4Cksum
    if ipBad || l4Bad then
      checksumGate { s with metrics := { s.metrics with
        rxIpChecksumBad := s.metrics.rxIpChecksumBad + (if ipBad then 1 else 0)
        rxL4ChecksumBad := s.metrics.rxL4ChecksumBad + (if l4Bad then 1 else 0) } } rest
    else
      let (s, kept) := checksumGate s rest
      (s, m :: kept)

/-- `set_last_rx_burst_tsc`. -/
def stampBurst : DpdkTcpStream slots γ τ :=
  { s with sess := { s.sess with lastRxBurstTsc := clk.tsc } }

/-- The data path of `process_burst_`. -/
def burstData (mbufs : List Mbuf) : DpdkTcpStream slots γ τ × Host :=
  let o := s.sess.processRx receive clk s.rxSink mbufs
  let (s, host) := s.applyRx o.user o.sess host
  match o.result with
  | .error _ => s.handleRxSessionError host
  | .ok _ =>
    if s.reasmOverflowed then (s, host)
    else
      let (sess, host) := s.sess.flushPendingAck host clk
      ({ s with sess := sess }.drainCodec eng codec host clk).2

/-- `process_burst_`: packets handed over by the poller. -/
def processBurst (mbufs : List Mbuf) : DpdkTcpStream slots γ τ × Host :=
  match s.checksumGate mbufs with
  | (s, []) => (s, host)
  | (s, mbufs) =>
    if s.cfg.enableTls && s.tlsCorrupt then (s, host)
    else if s.handshaking then
      (s.stampBurst clk).driveHandshake eng codec host clk (some mbufs)
    else if s.sess.state ≠ .established || s.reasmOverflowed then (s, host)
    else (s.stampBurst clk).burstData eng codec host clk mbufs

end DpdkTcpStream

end Eph.Net.Dpdk
