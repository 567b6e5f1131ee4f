import Ephemeral.DpdkTcpStream
import Ephemeral.TcpInOrder

/-!
# Runs of a stream

A stream lives with the machine it runs on, and events drive it: it polls for itself,
or the poller hands it the next burst of the receive queue.

During the upgrade an event comes down to one step of the handshake driver on a
session that has taken some packets from the queue (`apply_upgrading`); nothing else
about the stream changes before the driver is done.
-/

namespace Eph.Net.Dpdk

open ByteOrder Core Eph.Dpdk List DpdkTcpStream

/-- A stream and its machine. -/
structure StreamWorld (slots : Nat) (γ τ : Type) where
  stream : DpdkTcpStream slots γ τ
  host : Host

/-- What drives a stream.  The poller routes packets one by one; a burst of several is
what `process_burst_` would be handed at once. -/
inductive StreamEvent
  | poll (clk : Clock)
  | deliver (clk : Clock)

section Run

variable {slots : Nat} {γ τ : Type} (eng : TlsEngine slots τ) (codec : StreamCodec γ)

/-- One event. -/
def StreamEvent.apply (w : StreamWorld slots γ τ) : StreamEvent → StreamWorld slots γ τ
  | .poll clk =>
    let r := w.stream.pollOnce eng codec w.host clk
    ⟨r.2.1, r.2.2⟩
  | .deliver clk =>
    match w.host.rx with
    | [] => w
    | burst :: rest =>
      let r := w.stream.processBurst eng codec { w.host with rx := rest } clk burst
      ⟨r.1, r.2⟩

/-- A run of events. -/
def StreamWorld.run (w : StreamWorld slots γ τ) (evs : List StreamEvent) : StreamWorld slots γ τ :=
  evs.foldl (fun w ev => ev.apply eng codec w) w

theorem run_concat (w : StreamWorld slots γ τ) (evs : List StreamEvent) (ev : StreamEvent) :
    w.run eng codec (evs ++ [ev]) = ev.apply eng codec (w.run eng codec evs) :=
  foldl_concat ..

/-- The packet passes the checksum gate. -/
def Clean (strict : Bool) (m : Mbuf) : Prop :=
  DpdkTcpStream.cksumBad strict m.ipCksum = false ∧
    DpdkTcpStream.cksumBad strict m.l4Cksum = false

theorem checksumGate_clean (s : DpdkTcpStream slots γ τ) {mbufs : List Mbuf}
    (h : ∀ m ∈ mbufs, Clean s.strictRxCksum m) : s.checksumGate mbufs = (s, mbufs) := by
  induction mbufs with
  | nil => rfl
  | cons m mbufs ih =>
    obtain ⟨hip, hl4⟩ := h m mem_cons_self
    rw [checksumGate, hip, hl4, ih fun m' hm' => h m' (mem_cons_of_mem m hm')]
    rfl

/-- The stream is unchanged but for its connection: session, TLS state and handshake. -/
structure SameData (s s' : DpdkTcpStream slots γ τ) : Prop where
  cfg : s'.cfg = s.cfg
  codec : s'.codec = s.codec
  tlsCorrupt : s'.tlsCorrupt = s.tlsCorrupt
  tlsCodecPending : s'.tlsCodecPending = s.tlsCodecPending
  reasm : s'.reasm = s.reasm
  reasmOverflowed : s'.reasmOverflowed = s.reasmOverflowed
  strictRxCksum : s'.strictRxCksum = s.strictRxCksum
  onMessage : s'.onMessage = s.onMessage
  metrics : s'.metrics = s.metrics

namespace SameData

variable {s s' s'' : DpdkTcpStream slots γ τ}

theorem refl (s : DpdkTcpStream slots γ τ) : SameData s s :=
  ⟨rfl, rfl, rfl, rfl, rfl, rfl, rfl, rfl, rfl⟩

theorem trans (h : SameData s s') (h' : SameData s' s'') : SameData s s'' :=
  ⟨h'.cfg.trans h.cfg, h'.codec.trans h.codec, h'.tlsCorrupt.trans h.tlsCorrupt,
    h'.tlsCodecPending.trans h.tlsCodecPending, h'.reasm.trans h.reasm,
    h'.reasmOverflowed.trans h.reasmOverflowed, h'.strictRxCksum.trans h.strictRxCksum,
    h'.onMessage.trans h.onMessage, h'.metrics.trans h.metrics⟩

end SameData

variable {t : ConnectionTuple} {seq : UInt32}

/-- Routed packets end up in the session's feed. -/
theorem takeInput_routed (s : DpdkTcpStream slots γ τ) (clk : Clock) {mbufs : List Mbuf}
    {got : Bytes} (hready : Ready t seq s.sess) (hgot : carried t seq mbufs = some got) :
    ∃ sess', s.takeInput clk (some mbufs) = (.ok (), { s with sess := sess' }) ∧
      Ready t (seq + UInt32.ofNat got.length) sess' ∧ sess'.rxFeed = s.sess.rxFeed ++ got := by
  have hfeed : Absorbs (feed : DataCallback slots Unit) (fun _ => True)
      fun _ f d => f = s.sess.rxFeed ++ d :=
    ⟨fun _ s' _ _ _ _ => ⟨rfl, rfl, rfl, rfl⟩, by
      rintro _ s' d acc hf -
      change s'.rxFeed ++ d = _
      rw [hf, append_assoc]⟩
  -- The feed has no bound, so the callback never runs full.
  obtain ⟨⟨n, hok⟩, hready', hfeed'⟩ := (processRx_ready_or_full (I := fun _ => False) hfeed
    (fun _ _ _ => id) (fun _ _ _ _ _ _ hnot => hnot trivial) clk
    (s := s.sess.setFeedOnly true) () []
    (hready.of_same (s.sess.setFeedOnly_same true).toSameReceive) (append_nil _).symm trivial hgot
    (Nat.le_refl _)).resolve_left id
  refine ⟨_, ?_, hready', hfeed'⟩
  rw [takeInput, hok]
  rfl

/-- What an event of the upgrade phase hands to the driver: a session that has taken
packets carrying `got`, with these bytes in its feed if they were routed. -/
structure Upgrading (t : ConnectionTuple) (seq : UInt32) (w : StreamWorld slots γ τ)
    (s : DpdkTcpStream slots γ τ) (host : Host) (got : Bytes) : Prop where
  took : Took t seq w.host s.sess host got
  feed : s.sess.rxFeed = w.stream.sess.rxFeed ++ got
  phase : s.hsPhase = w.stream.hsPhase
  driver : s.wsDriver = w.stream.wsDriver
  sink : s.wsSink = w.stream.wsSink
  tls : s.tls = w.stream.tls
  same : SameData w.stream s

variable {w : StreamWorld slots γ τ}

/-- A step of the upgrade phase: too late, or the driver steps on the input. -/
theorem driveHandshake_upgrading (s : DpdkTcpStream slots γ τ) (host : Host) (clk : Clock)
    (mbufs : Option (List Mbuf)) {got : Bytes} (hphase : s.hsPhase = .wsHandshaking)
    (htake : ∃ s', s.noteStep.takeInput clk mbufs = (.ok (), s') ∧ Upgrading t seq w s' host got) :
    (clk.now ≥ s.connectDeadline ∧
      (s.driveHandshake eng codec host clk mbufs).1.hsPhase = .failed) ∨
    ∃ s', Upgrading t seq w s' host got ∧
      s.driveHandshake eng codec host clk mbufs = s'.stepUpgrade eng codec host clk := by
  by_cases hnow : clk.now ≥ s.connectDeadline
  · refine .inl ⟨hnow, ?_⟩
    rw [driveHandshake, if_pos hnow]
    rfl
  right
  obtain ⟨s', hinput, hup⟩ := htake
  refine ⟨s', hup, ?_⟩
  rw [driveHandshake, if_neg hnow, hphase]
  rw [driveWs, hinput]

variable (hphase : w.stream.hsPhase = .wsHandshaking) (hready : Ready t seq w.stream.sess)
  (hcorrupt : (w.stream.cfg.enableTls && w.stream.tlsCorrupt) = false)

include hphase hready hcorrupt

/-- Packets handed over in the upgrade phase, before the deadline: the driver steps on a
session that was fed their bytes. -/
theorem deliver_upgrading (clk : Clock) {m : Mbuf}
    {burst : List Mbuf} {bursts : List (List Mbuf)} (hrx : w.host.rx = (m :: burst) :: bursts)
    (hclean : ∀ m' ∈ m :: burst, Clean w.stream.strictRxCksum m') {got : Bytes}
    (hgot : carried t seq (m :: burst) = some got) :
    (clk.now ≥ w.stream.connectDeadline ∧
      (StreamEvent.apply eng codec w (.deliver clk)).stream.hsPhase = .failed) ∨
    ∃ s, Upgrading t seq w s { w.host with rx := bursts } got ∧
      StreamEvent.apply eng codec w (.deliver clk) =
        ⟨(s.stepUpgrade eng codec { w.host with rx := bursts } clk).1,
          (s.stepUpgrade eng codec { w.host with rx := bursts } clk).2⟩ := by
  have hburst : w.stream.processBurst eng codec { w.host with rx := bursts } clk (m :: burst) =
      (w.stream.stampBurst clk).driveHandshake eng codec { w.host with rx := bursts } clk
        (some (m :: burst)) := by
    have hshaking : w.stream.handshaking = true := by
      rw [handshaking, hphase]
    simp only [processBurst, checksumGate_clean w.stream hclean, hcorrupt, hshaking,
      if_true, Bool.false_eq_true, if_false]
  obtain ⟨sess', htake, hready', hfeed'⟩ := takeInput_routed (w.stream.stampBurst clk).noteStep clk
    (hready.of_same ⟨rfl, rfl, rfl, rfl⟩) hgot
  have hup : Upgrading t seq w { (w.stream.stampBurst clk).noteStep with sess := sess' }
      { w.host with rx := bursts } got :=
    ⟨⟨⟨m :: burst, by rw [hrx, flatten_cons], hgot⟩, hready'⟩, hfeed', rfl, rfl, rfl, rfl,
      ⟨rfl, rfl, rfl, rfl, rfl, rfl, rfl, rfl, rfl⟩⟩
  simp only [StreamEvent.apply, hrx, hburst]
  rcases driveHandshake_upgrading eng codec (w.stream.stampBurst clk) { w.host with rx := bursts }
    clk (some (m :: burst)) hphase ⟨_, htake, hup⟩ with ⟨hlate, hfail⟩ | ⟨s', hup', hstep⟩
  · exact .inl ⟨hlate, hfail⟩
  · exact .inr ⟨s', hup', by rw [hstep]⟩

/-- **An event of the upgrade phase**: the deadline has passed, or the driver makes one
step, or there was nothing to do. -/
theorem apply_upgrading {rest : Bytes} (hrest : carried t seq w.host.rx.flatten = some rest)
    (hclean : ∀ m ∈ w.host.rx.flatten, Clean w.stream.strictRxCksum m) (ev : StreamEvent) :
    (ev.apply eng codec w).stream.hsPhase = .failed ∨
    (∃ s host clk got, Upgrading t seq w s host got ∧ ev.apply eng codec w =
        ⟨(s.stepUpgrade eng codec host clk).1, (s.stepUpgrade eng codec host clk).2⟩) ∨
    (∃ host, host.rx.flatten = w.host.rx.flatten ∧ ev.apply eng codec w = ⟨w.stream, host⟩) := by
  cases ev with
  | poll clk =>
    have hpoll : w.stream.pollOnce eng codec w.host clk =
        (0, { w.stream with sess := w.stream.sess.setFeedOnly false }.driveHandshake eng codec
          w.host clk none) := by
      rw [pollOnce, if_pos (by rw [handshaking, hphase])]
    have hup : Upgrading t seq w
        { w.stream.noteStep with sess := (w.stream.sess.setFeedOnly false).setFeedOnly false }
        w.host [] :=
      ⟨Took.nothing (hready.of_same ⟨rfl, rfl, rfl, rfl⟩) rfl, (append_nil _).symm, rfl, rfl,
        rfl, rfl, ⟨rfl, rfl, rfl, rfl, rfl, rfl, rfl, rfl, rfl⟩⟩
    rw [StreamEvent.apply, hpoll]
    rcases driveHandshake_upgrading eng codec
      { w.stream with sess := w.stream.sess.setFeedOnly false } w.host clk none hphase
      ⟨_, rfl, hup⟩ with ⟨-, hfail⟩ | ⟨s', hup', hstep⟩
    · exact .inl hfail
    · exact .inr (.inl ⟨s', w.host, clk, [], hup', by rw [hstep]⟩)
  | deliver clk =>
    cases hrx : w.host.rx with
    | nil =>
      refine .inr (.inr ⟨w.host, by rw [hrx], ?_⟩)
      simp only [StreamEvent.apply, hrx]
    | cons burst bursts =>
      rw [hrx, flatten_cons] at hrest hclean
      cases burst with
      | nil =>
        refine .inr (.inr ⟨{ w.host with rx := bursts }, rfl, ?_⟩)
        simp only [StreamEvent.apply, hrx, processBurst, checksumGate]
      | cons m burst =>
        obtain ⟨got, later, hgot, -, -⟩ := carried_append hrest
        rcases deliver_upgrading eng codec hphase hready hcorrupt clk hrx
          (fun m' hm' => hclean m' (mem_append_left _ hm')) hgot with
          ⟨-, hfail⟩ | ⟨s', hup, hstep⟩
        · exact .inl hfail
        · exact .inr (.inl ⟨s', _, clk, got, hup, hstep⟩)

end Run

/-! ## A sample stream -/

section Sample

variable {slots : Nat} {γ τ : Type}

/-- An engine for streams without TLS. -/
def noTls : TlsEngine slots Unit where
  beginHandshake := fun _ => (.ok (), ())
  handshakeStep := fun _ sess host _ => (.ok true, (), sess, host)
  wasResumed := fun _ => false
  isEstablished := fun _ => true
  openInPlace := fun _ _ => (none, ())
  encryptForSend := fun _ data => (.ok data, ())

/-- A stream whose TCP leg has just been completed. -/
def sampleStream (codec : γ) (tls : τ) (enableTls : Bool) (reasmCapacity : Nat) :
    DpdkTcpStream 4 γ τ where
  cfg := ⟨enableTls, ascii "/ws", ascii "localhost", [], 1000, false, [], 1000⟩
  sess := sampleSession 4 7
  codec := codec
  tls := tls
  tlsCorrupt := false
  wsDeflateActive := false
  tlsCodecPending := []
  reasm := ReasmBuffer.create reasmCapacity
  reasmOverflowed := false
  hsPhase := .tcpConnected
  connectDeadline := 1000
  hsError := ⟨.ok, ""⟩
  wsDriver := none
  wsSink := none
  strictRxCksum := false
  attached := true
  platform := false
  onMessage := true
  messages := []
  metrics := ⟨0, 0, 0, 0, 0, 0, 0, 0, 0, 0, 0, 0⟩
  handshakeSteps := 0

/-- A machine with these packets queued, on which everything is sent. -/
def sampleHost (rx : List (List Mbuf)) : Host :=
  ⟨rx, [], [], fun _ => none, some (List.replicate 16 0), [], none⟩

/-- The key that the sample machine's nonce gives. -/
def sampleKey : Bytes := base64Encode (List.replicate 16 0)

/-- The response of a server to that key. -/
def sampleResponse : Bytes :=
  ascii "HTTP/1.1 101 Switching Protocols\r\nUpgrade: websocket\r\nConnection: Upgrade\r\n" ++
    ascii "Sec-WebSocket-Accept: ICX+Yqv66kxgM0FcWaLWlFLwTAI=\r\n\r\n"

theorem length_sampleResponse : sampleResponse.length = 129 := by
  decide +kernel

/-- `n` consecutive segments of the server's bytes, full as long as there are enough. -/
def sampleSegments : Nat → Nat → Bytes → List Mbuf
  | 0, _, _ => []
  | n + 1, off, data =>
    sampleMbuf 7 off kTcpAck data ::
      sampleSegments n (off + (data.take kDefaultMss).length) (data.drop kDefaultMss)

theorem length_sampleSegments (n off : Nat) (data : Bytes) :
    (sampleSegments n off data).length = n := by
  induction n generalizing off data with
  | zero => rfl
  | succ n ih => rw [sampleSegments, length_cons, ih]

theorem carried_sampleSegments_from (n off : Nat) (data : Bytes)
    (h : data.length ≤ n * kDefaultMss) :
    carried sampleTuple (Serial.fromBase 8 off) (sampleSegments n off data) = some data := by
  induction n generalizing off data with
  | zero =>
    rw [Nat.zero_mul, Nat.le_zero, length_eq_zero_iff] at h
    rw [h]
    rfl
  | succ n ih =>
    have hrest := ih (off + (data.take kDefaultMss).length) (data.drop kDefaultMss) (by
      rw [length_drop]
      rw [Nat.succ_mul] at h
      omega)
    have hparse : (parsePacket (sampleMbuf 7 off kTcpAck data)).filter (·.matches sampleTuple) =
        some ⟨sampleTuple.dstIp, sampleTuple.srcIp, sampleTuple.dstPort, sampleTuple.srcPort,
          Serial.fromBase 8 off, 1, kTcpAck, 65535, [], data.take kDefaultMss⟩ := by
      rw [sampleMbuf, parsePacket_peerMbuf]
      rfl
    rw [sampleSegments, carried, hparse]
    dsimp only
    rw [if_pos ⟨rfl, (by decide : (kTcpAck &&& kTcpRst != 0) = false),
      (by decide : (kTcpAck &&& kTcpFin != 0) = false)⟩, Serial.fromBase_add, hrest,
      Option.map_some, take_append_drop]

/-- The segments carry the data. -/
theorem carried_sampleSegments (n : Nat) (data : Bytes) (h : data.length ≤ n * kDefaultMss) :
    carried sampleTuple 8 (sampleSegments n 0 data) = some data := by
  have hzero : Serial.fromBase 8 0 = 8 := by decide
  rw [← hzero]
  exact carried_sampleSegments_from n 0 data h

/-- They are segments in the size of the path, with nothing against them. -/
theorem sampleSegments_clean (strict : Bool) (n off : Nat) (data : Bytes) :
    ∀ m ∈ sampleSegments n off data,
      m.data.length ≤ 54 + kDefaultMss ∧ Clean strict m := by
  induction n generalizing off data with
  | zero => simp [sampleSegments]
  | succ n ih =>
    refine forall_mem_cons.mpr ⟨⟨?_, ?_⟩, ih _ _⟩
    · change (peerFrame ..).length ≤ _
      rw [length_peerFrame, length_take]
      omega
    · cases strict <;> exact ⟨rfl, rfl⟩

end Sample

end Eph.Net.Dpdk
