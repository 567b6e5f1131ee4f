import Ephemeral.StreamCodecs
import Ephemeral.StreamRun
import Ephemeral.UpgradeDriver

/-!
# From the upgrade to the data phase, in plaintext

The server sends a response and, right behind it, WebSocket bytes `W`.  While the
stream waits for the response, everything it has received is in the driver's buffer
or in the session's feed.  In the step that completes the response the driver reads
what its buffer of 8192 bytes has room for; what it holds beyond the response moves
to the reassembly buffer, and what stays in the sink's stage is destroyed with the
sink.

So `W` reaches the data phase whole exactly when the bytes received by then number at
most 8192 (`upgrade_conserves_iff`).
-/

namespace Eph.Net.Dpdk

open ByteOrder Core Eph.Dpdk List WsHandshakeDriver DpdkTcpStream

variable {slots : Nat} {γ τ : Type} {s : DpdkTcpStream slots γ τ} {d : WsHandshakeDriver}
  {host : Host}

/-- A stream that has just entered the upgrade: nothing sent, nothing received. -/
structure UpgradeEntered (t : ConnectionTuple) (seq : UInt32) (w : StreamWorld slots γ τ)
    (d : WsHandshakeDriver) : Prop where
  phase : w.stream.hsPhase = .wsHandshaking
  driver : w.stream.wsDriver = some d
  sending : d.phase = .sending
  unread : d.rx = []
  sink : w.stream.wsSink = some w.stream.freshSink
  ready : Ready t seq w.stream.sess
  feed : w.stream.sess.rxFeed = []

/-- `enter_ws_` produces a stream that has entered the upgrade. -/
theorem enterWs_entered {t : ConnectionTuple} {seq : UInt32} (s : DpdkTcpStream slots γ τ)
    (host : Host) (clk : Clock) (hready : Ready t seq s.sess)
    (hfeed : s.sess.rxFeed = [])
    (hcreate : WsHandshakeDriver.create host.nonce s.wsHostHeader s.cfg.wsPath
      s.cfg.wsExtraHeaders (some ⟨s.cfg.wsPermessageDeflate, false, false⟩) = .ok d) :
    UpgradeEntered t seq ⟨(s.enterWs host clk).1, (s.enterWs host clk).2⟩ d ∧
      (s.enterWs host clk).2 = host ∧ SameData s (s.enterWs host clk).1 := by
  obtain ⟨hphase, hrx, -, -⟩ := create_fresh hcreate
  have henter : s.enterWs host clk = ({ s with
      connectDeadline := clk.now + s.cfg.wsTimeout
      wsDriver := some d
      wsSink := some s.freshSink
      hsPhase := .wsHandshaking }, host) := by
    unfold enterWs
    dsimp only
    split
    · rename_i herr
      cases herr.symm.trans hcreate
    · rename_i hok
      cases hok.symm.trans hcreate
      rfl
  rw [henter]
  exact ⟨⟨rfl, rfl, hphase, hrx, rfl, hready, hfeed⟩, rfl, by constructor <;> rfl⟩

/-- What the stream keeps of a completed upgrade. -/
def completeUpgrade (codec : StreamCodec γ) (s : DpdkTcpStream slots γ τ) (host : Host)
    (d : WsHandshakeDriver) : StreamWorld slots γ τ :=
  ⟨(s.finalizeWs codec host d).1.becomeEstablished, (s.finalizeWs codec host d).2⟩

/-- The three ways in which a step of the driver ends. -/
theorem stepUpgrade_eq (eng : TlsEngine slots τ) (codec : StreamCodec γ) {clk : Clock}
    {d d' : WsHandshakeDriver} {sink : WsSink} {r : Except ErrorInfo Bool} {w : SinkWorld slots τ}
    (hdriver : s.wsDriver = some d) (hsink : s.wsSink = some sink) :
    d.step (wsSinkOps eng clk) ⟨s.sess, host, s.tls, sink⟩ = (r, d', w) →
    s.stepUpgrade eng codec host clk =
      let s' := { s with
        sess := w.sess, tls := w.tls, wsDriver := some d', wsSink := some w.sink }
      match r with
      | .error e => s'.failHandshake w.host e
      | .ok false => (s', w.host)
      | .ok true =>
        ((completeUpgrade codec s' w.host d').stream,
          (completeUpgrade codec s' w.host d').host) := by
  intro hstep
  unfold stepUpgrade
  rw [hdriver, hsink]
  dsimp only
  rw [hstep]
  match r with
  | .error e => rfl
  | .ok false => rfl
  | .ok true => rfl

section Plain

variable (t : ConnectionTuple) (seq : UInt32) (response : Bytes) (d₀ : WsHandshakeDriver)
  (w₀ : StreamWorld slots γ τ)

/-- The stream waits for the response.  All that it has received since the upgrade began
is in the driver's buffer and in the session's feed, and the response is not complete. -/
structure PlainWaits (w : StreamWorld slots γ τ) (received : Bytes) : Prop where
  phase : w.stream.hsPhase = .wsHandshaking
  took : Took t seq w₀.host w.stream.sess w.host received
  same : SameData w₀.stream w.stream
  sink : w.stream.wsSink = some (.plain [])
  driver : ∃ d, w.stream.wsDriver = some d ∧ AwaitsResponse d₀ response d.rx d ∧
    d.rx ++ w.stream.sess.rxFeed = received

/-- The driver has sent its request. -/
def Reading (w : StreamWorld slots γ τ) : Prop :=
  ∃ d, w.stream.wsDriver = some d ∧ d.phase = .receiving

/-- The driver `d` is done, with a leftover of what its buffer had room for. -/
structure PlainDone (s : DpdkTcpStream slots γ τ) (host : Host) (d : WsHandshakeDriver)
    (received : Bytes) : Prop where
  took : Took t seq w₀.host s.sess host received
  same : SameData w₀.stream s
  accepted : AcceptedResponse response received d

variable {t seq response d₀ w₀} {w : StreamWorld slots γ τ}

/-- Input keeps the stream waiting. -/
theorem PlainWaits.of_upgrading {received got : Bytes}
    (h : PlainWaits t seq response d₀ w₀ w received)
    (hup : Upgrading t (seq + UInt32.ofNat received.length) w s host got) :
    PlainWaits t seq response d₀ w₀ ⟨s, host⟩ (received ++ got) := by
  obtain ⟨d, hdriver, hawaits, hreceived⟩ := h.driver
  refine ⟨hup.phase.trans h.phase, h.took.trans hup.took, h.same.trans hup.same,
    hup.sink.trans h.sink, d, hup.driver.trans hdriver, hawaits, ?_⟩
  rw [hup.feed, ← append_assoc, hreceived]

variable (eng : TlsEngine slots τ) (codec : StreamCodec γ)

/-- An event while a stream waits that has received `received`. -/
theorem apply_waiting {received all : Bytes} (hphase : w.stream.hsPhase = .wsHandshaking)
    (htook : Took t seq w₀.host w.stream.sess w.host received) (hsame : SameData w₀.stream w.stream)
    (hwire : carried t seq w₀.host.rx.flatten = some all)
    (hclean : ∀ m ∈ w₀.host.rx.flatten, Clean w₀.stream.strictRxCksum m)
    (hsound : (w₀.stream.cfg.enableTls && w₀.stream.tlsCorrupt) = false) (ev : StreamEvent) :
    (ev.apply eng codec w).stream.hsPhase = .failed ∨
    (∃ s host clk got, Upgrading t (seq + UInt32.ofNat received.length) w s host got ∧
      ev.apply eng codec w =
        ⟨(s.stepUpgrade eng codec host clk).1, (s.stepUpgrade eng codec host clk).2⟩) ∨
    (∃ host, Took t seq w₀.host w.stream.sess host received ∧
      ev.apply eng codec w = ⟨w.stream, host⟩) := by
  obtain ⟨later, hlater, -⟩ := htook.remaining hwire
  obtain ⟨pkts, hpkts, hcarried⟩ := htook.taken
  have hclean' : ∀ m ∈ w.host.rx.flatten, Clean w.stream.strictRxCksum m := by
    intro m hm
    rw [hsame.strictRxCksum]
    exact hclean m (by rw [hpkts]; exact mem_append_right pkts hm)
  rcases apply_upgrading eng codec hphase htook.ready
      (by rw [hsame.cfg, hsame.tlsCorrupt, hsound]) hlater hclean' ev with
    hfail | hinput | ⟨host, hrx, happly⟩
  · exact .inl hfail
  · exact .inr (.inl hinput)
  · exact .inr (.inr ⟨host, ⟨⟨pkts, by rw [hrx, hpkts], hcarried⟩, htook.ready⟩, happly⟩)

variable {following : Bytes}
  (hstream : carried t seq w₀.host.rx.flatten = some (response ++ following))
  (hvalid : ValidResponse d₀.clientKey d₀.deflate response)
  (hlimit : response.length ≤ kWsRxCapacity)

include hstream hvalid hlimit

/-- One step of the driver while the stream waits.  A reading step does not fail, and
leaves nothing in the feed. -/
theorem PlainWaits.stepUpgrade {received : Bytes} (h : PlainWaits t seq response d₀ w₀ w received)
    (clk : Clock) :
    (¬ Reading w ∧ (w.stream.stepUpgrade eng codec w.host clk).1.hsPhase = .failed) ∨
    (∃ got, PlainWaits t seq response d₀ w₀ ⟨(w.stream.stepUpgrade eng codec w.host clk).1,
          (w.stream.stepUpgrade eng codec w.host clk).2⟩ (received ++ got) ∧
      (Reading w → (w.stream.stepUpgrade eng codec w.host clk).1.sess.rxFeed = [])) ∨
    (∃ s host d got, PlainDone t seq response w₀ s host d (received ++ got) ∧
      w.stream.stepUpgrade eng codec w.host clk =
        ((completeUpgrade codec s host d).stream, (completeUpgrade codec s host d).host)) := by
  obtain ⟨d, hdriver, hawaits, hreceived⟩ := h.driver
  obtain ⟨later, hlater, hsplit⟩ := h.took.remaining hstream
  rcases hawaits.phase with hsending | hreceiving
  · -- While the request goes out nothing is read.
    obtain ⟨r, d', hstep, hnot, hawaits'⟩ := hawaits.sending hsending
      (wsSinkOps eng clk) ⟨w.stream.sess, w.host, w.stream.tls, .plain []⟩
    obtain ⟨hsame, hrxHost, hsink, -⟩ := SinkWorld.send_same eng
      ⟨w.stream.sess, w.host, w.stream.tls, .plain []⟩ (d.req.drop d.sent)
    have hnot' : ¬ Reading w := by
      rintro ⟨d₁, hdriver₁, hreading⟩
      rw [hdriver] at hdriver₁
      rw [← Option.some.inj hdriver₁, hsending] at hreading
      cases hreading
    rw [stepUpgrade_eq eng codec hdriver h.sink hstep]
    match r with
    | .error e => exact .inl ⟨hnot', rfl⟩
    | .ok true => exact absurd rfl hnot
    | .ok false =>
      refine .inr (.inl ⟨[], ?_, fun hreading => absurd hreading hnot'⟩)
      rw [append_nil]
      refine ⟨h.phase, h.took.of_same hsame.toSameReceive hrxHost,
        h.same.trans (by constructor <;> rfl), congrArg some hsink, d', rfl,
        by rw [hawaits'.rx]; exact hawaits', ?_⟩
      rw [hawaits'.rx]
      exact (congrArg (d.rx ++ ·) hsame.rxFeed).trans hreceived
  · obtain ⟨got, sess', host', htook, hcases⟩ := recvPlain_spec clk (kWsRxCapacity - d.rx.length)
      w.stream.tls kWsHandshakeRecvBurstRetries h.took.ready hlater
    obtain ⟨back, -, rfl⟩ := htook.remaining hlater
    have htook' := h.took.trans htook
    have hbytes : d.rx ++ (w.stream.sess.rxFeed ++ got) = received ++ got := by
      rw [← hreceived, append_assoc]
    have hall : d.rx ++ (w.stream.sess.rxFeed ++ got) ++ back = response ++ following := by
      rw [hbytes, hsplit, append_assoc]
    -- Whether something has arrived or not, the sink serves the feed and what came.
    obtain ⟨answer, staged, hrecv, hserves, hstaged, hfeed⟩ : ∃ answer staged,
        (wsSinkOps eng clk).recv ⟨w.stream.sess, w.host, w.stream.tls, .plain []⟩
          (kWsRxCapacity - d.rx.length) = (answer, ⟨sess', host', w.stream.tls, .plain staged⟩) ∧
        Serves (w.stream.sess.rxFeed ++ got) (kWsRxCapacity - d.rx.length) answer ∧
        ((w.stream.sess.rxFeed ++ got).length ≤ kWsRxCapacity - d.rx.length → staged = []) ∧
        sess'.rxFeed = [] := by
      rcases hcases with ⟨rfl, hfeed, hnone, hrecv⟩ | ⟨hdata, hfeed, hrecv⟩
      · have hempty := hnone (by decide)
        exact ⟨_, [], hrecv, .inl ⟨by rw [hempty]; rfl, _, rfl, rfl⟩, fun _ => rfl,
          hfeed.trans hempty⟩
      · exact ⟨_, _, hrecv, .inr ⟨hdata, rfl⟩, drop_eq_nil_of_le, hfeed⟩
    rcases hawaits.reading hreceiving hvalid hlimit hall hrecv hserves with
      ⟨d', hstep, hawaits', hfits⟩ | ⟨d', hstep, haccepted⟩
    · rw [stepUpgrade_eq eng codec hdriver h.sink hstep, hstaged hfits]
      refine .inr (.inl ⟨got, ⟨h.phase, htook', h.same.trans (by constructor <;> rfl), rfl, d',
        rfl, by rw [hawaits'.rx]; exact hawaits', ?_⟩, fun _ => hfeed⟩)
      rw [hawaits'.rx, hfeed, append_nil, hbytes]
    · rw [hbytes] at haccepted
      exact .inr (.inr ⟨_, _, d', got, ⟨htook', h.same.trans (by constructor <;> rfl), haccepted⟩,
        stepUpgrade_eq eng codec hdriver h.sink hstep⟩)

section

variable (hclean : ∀ m ∈ w₀.host.rx.flatten, Clean w₀.stream.strictRxCksum m)

include hclean

/-- **One event while the stream waits**: it fails, it goes on waiting, or the upgrade
is complete. -/
theorem PlainWaits.apply (hplain : w₀.stream.cfg.enableTls = false) (w : StreamWorld slots γ τ)
    (ev : StreamEvent) (h : ∃ received, PlainWaits t seq response d₀ w₀ w received) :
    (ev.apply eng codec w).stream.hsPhase = .failed ∨
    (∃ received, PlainWaits t seq response d₀ w₀ (ev.apply eng codec w) received) ∨
    (∃ s host d, (∃ received, PlainDone t seq response w₀ s host d received) ∧
      ev.apply eng codec w = completeUpgrade codec s host d) := by
  obtain ⟨received, h⟩ := h
  rcases apply_waiting eng codec h.phase h.took h.same hstream hclean
      (by rw [hplain, Bool.false_and]) ev with
    hfail | ⟨s, host, clk, got, hup, happly⟩ | ⟨host, htook, happly⟩
  · exact .inl hfail
  · -- The input of the event keeps the stream waiting; then the driver steps.
    rw [happly]
    rcases (h.of_upgrading hup).stepUpgrade eng codec hstream hvalid hlimit clk with
      ⟨-, hfail⟩ | ⟨got', hwait, -⟩ | ⟨s', host', d', got', hdone, hstep⟩
    · exact .inl hfail
    · exact .inr (.inl ⟨_, hwait⟩)
    · refine .inr (.inr ⟨s', host', d', ⟨_, hdone⟩, ?_⟩)
      rw [hstep]
  · rw [happly]
    exact .inr (.inl ⟨received, { h with took := htook }⟩)

end

end Plain

/-- A completed upgrade whose leftover fits: it is appended to the reassembly buffer. -/
theorem completeUpgrade_fits (codec : StreamCodec γ)
    (hfits : s.reasm.content.length + d.leftover.length ≤ s.reasm.capacity) :
    (completeUpgrade codec s host d).stream.reasm.content = s.reasm.content ++ d.leftover := by
  have hreasm : (s.applyDeflate codec d.deflate).reasm = s.reasm := by
    unfold applyDeflate
    split
    · split <;> rfl
    · rfl
  unfold completeUpgrade finalizeWs
  by_cases hleft : d.leftover = []
  · simp only [hleft, isEmpty_nil, if_true, append_nil]
    exact congrArg ReasmBuffer.content hreasm
  obtain ⟨reasm, happend, hcontent, -⟩ := ReasmBuffer.append_of_fits hfits
  rw [← hreasm] at happend
  have hne : d.leftover.isEmpty = false := by simpa using hleft
  simp only [hne, Bool.false_eq_true, if_false, happend]
  exact hcontent

/-- In any case the queued packets stay queued. -/
theorem completeUpgrade_rx (codec : StreamCodec γ) (s : DpdkTcpStream slots γ τ) (host : Host)
    (d : WsHandshakeDriver) : (completeUpgrade codec s host d).host.rx = host.rx := by
  unfold completeUpgrade finalizeWs
  dsimp only
  split
  · rfl
  split
  · exact transmit_rx host _
  · rfl

section Run

variable (eng : TlsEngine slots τ) (codec : StreamCodec γ)

/-- The stream is still in the upgrade after every event. -/
def StaysUpgrading : StreamWorld slots γ τ → List StreamEvent → Prop
  | _, [] => True
  | w, ev :: evs =>
    (ev.apply eng codec w).stream.hsPhase = .wsHandshaking ∧
      StaysUpgrading (ev.apply eng codec w) evs

variable {t : ConnectionTuple} {seq : UInt32} {response following : Bytes}
  {d₀ : WsHandshakeDriver} {w₀ : StreamWorld slots γ τ}

theorem completeUpgrade_phase (s : DpdkTcpStream slots γ τ) (host : Host)
    (d : WsHandshakeDriver) : (completeUpgrade codec s host d).stream.hsPhase = .established := rfl

section Property

variable {eng codec} {P : StreamWorld slots γ τ → Prop}
  {Done : DpdkTcpStream slots γ τ → Host → WsHandshakeDriver → Prop}
  (hstep : ∀ w ev, P w → (StreamEvent.apply eng codec w ev).stream.hsPhase = .failed ∨
    P (ev.apply eng codec w) ∨
    ∃ s host d, Done s host d ∧ ev.apply eng codec w = completeUpgrade codec s host d)
  {w : StreamWorld slots γ τ} {evs : List StreamEvent} (hstays : StaysUpgrading eng codec w evs)
  (h : P w)

include hstep hstays h

/-- What every event keeps that neither fails nor completes the upgrade, a run during the
upgrade keeps, by induction over its events. -/
theorem StaysUpgrading.run : P (w.run eng codec evs) := by
  induction evs generalizing w with
  | nil => exact h
  | cons ev evs ih =>
    obtain ⟨hphase, hstays'⟩ := hstays
    rcases hstep w ev h with hfail | hwait | ⟨s, host, d, -, hdone⟩
    · rw [hfail] at hphase
      cases hphase
    · exact ih hstays' hwait
    · rw [hdone, completeUpgrade_phase] at hphase
      cases hphase

/-- The event in which the stream becomes established completes the upgrade. -/
theorem StaysUpgrading.established (hwaits : ∀ w, P w → w.stream.hsPhase = .wsHandshaking)
    {ev : StreamEvent}
    (hestablished : (w.run eng codec (evs ++ [ev])).stream.hsPhase = .established) :
    ∃ s host d, Done s host d ∧ w.run eng codec (evs ++ [ev]) = completeUpgrade codec s host d := by
  rw [run_concat] at hestablished ⊢
  rcases hstep _ ev (hstays.run hstep h) with hfail | hwait | hdone
  · rw [hestablished] at hfail
    cases hfail
  · have hphase := hwaits _ hwait
    rw [hestablished] at hphase
    cases hphase
  · exact hdone

end Property

/-- A stream that has just entered the upgrade waits, with nothing received. -/
theorem UpgradeEntered.waits (h : UpgradeEntered t seq w₀ d₀)
    (hplain : w₀.stream.cfg.enableTls = false)
    (hvalid : ValidResponse d₀.clientKey d₀.deflate response) :
    PlainWaits t seq response d₀ w₀ w₀ [] := by
  refine ⟨h.phase, Took.nothing h.ready rfl, SameData.refl w₀.stream, ?_, d₀, h.driver, ?_, ?_⟩
  · rw [h.sink, freshSink, hplain]
    rfl
  · rw [h.unread]
    exact .fresh h.sending h.unread hvalid
  · rw [h.unread, h.feed]
    rfl

/-- What a completed upgrade hands to the data phase, if the leftover fits: `following`
is whole exactly if the driver's buffer had room for all that was received. -/
theorem PlainDone.conserves_iff {received : Bytes}
    (hdone : PlainDone t seq response w₀ s host d received)
    (hlimit : response.length ≤ kWsRxCapacity) (hempty : w₀.stream.reasm.content = [])
    (hstream : carried t seq w₀.host.rx.flatten = some (response ++ following))
    (hroom : min received.length kWsRxCapacity ≤ response.length + w₀.stream.reasm.capacity) :
    (carried t (seq + UInt32.ofNat received.length)
        (completeUpgrade codec s host d).host.rx.flatten).map
        ((completeUpgrade codec s host d).stream.reasm.content ++ ·) = some following ↔
      received.length ≤ kWsRxCapacity := by
  obtain ⟨later, hlater, hsplit⟩ := hdone.took.remaining hstream
  have hfits : s.reasm.content.length + d.leftover.length ≤ s.reasm.capacity := by
    rw [hdone.same.reasm, hempty, hdone.accepted.leftover, length_nil, length_drop, length_take]
    omega
  rw [completeUpgrade_rx, hlater, Option.map_some, Option.some.injEq,
    completeUpgrade_fits codec hfits, hdone.same.reasm, hempty, hdone.accepted.leftover, nil_append]
  -- What follows the response is the rest of what was received, and what came later.
  have hfollowing : following = received.drop response.length ++ later := by
    rw [← drop_append_of_le_length hdone.accepted.complete, ← hsplit, drop_left]
  rw [hfollowing, append_cancel_right_eq]
  constructor
  · intro heq
    have hlen := congrArg List.length heq
    rw [length_drop, length_drop, length_take] at hlen
    have := hdone.accepted.complete
    omega
  · intro hle
    rw [take_of_length_le hle]

/-- **Conservation of the bytes behind the response, in plaintext.**  Let a stream enter
the upgrade, let the server's bytes be a valid response of at most 8192 bytes and then
`following`, and let the stream become established in the event `ev`, when it has
received the packets `pkts`, with room for the leftover.  The reassembly buffer and
the bytes of the later packets then make up `following` exactly if at most 8192 bytes
were received. -/
theorem upgrade_conserves_iff (h : UpgradeEntered t seq w₀ d₀)
    (hplain : w₀.stream.cfg.enableTls = false) (hempty : w₀.stream.reasm.content = [])
    (hclean : ∀ m ∈ w₀.host.rx.flatten, Clean w₀.stream.strictRxCksum m)
    (hvalid : ValidResponse d₀.clientKey d₀.deflate response)
    (hlimit : response.length ≤ kWsRxCapacity)
    (hstream : carried t seq w₀.host.rx.flatten = some (response ++ following))
    (evs : List StreamEvent) (ev : StreamEvent) (hstays : StaysUpgrading eng codec w₀ evs)
    {w : StreamWorld slots γ τ} (hw : w = w₀.run eng codec (evs ++ [ev]))
    (hestablished : w.stream.hsPhase = .established) {pkts : List Mbuf} {received : Bytes}
    (hpkts : w₀.host.rx.flatten = pkts ++ w.host.rx.flatten)
    (hreceived : carried t seq pkts = some received)
    (hroom : min received.length kWsRxCapacity ≤ response.length + w₀.stream.reasm.capacity) :
    (carried t (seq + UInt32.ofNat received.length) w.host.rx.flatten).map
        (w.stream.reasm.content ++ ·) = some following ↔
      received.length ≤ kWsRxCapacity := by
  subst hw
  obtain ⟨s, host, d, ⟨got, hdone⟩, hcomplete⟩ := hstays.established
    (PlainWaits.apply eng codec hstream hvalid hlimit hclean hplain)
    ⟨[], h.waits hplain hvalid⟩ (fun _ ⟨_, hwait⟩ => hwait.phase) hestablished
  -- The packets taken by the driver are the packets received.
  obtain ⟨pkts', hpkts', hgot⟩ := hdone.took.taken
  rw [hcomplete] at hpkts ⊢
  rw [hpkts', completeUpgrade_rx] at hpkts
  rw [append_cancel_right hpkts] at hgot
  obtain rfl : received = got := Option.some.inj (hreceived.symm.trans hgot)
  exact hdone.conserves_iff codec hlimit hempty hstream hroom

end Run

/-! ## Two runs -/

/-- The sample stream as it enters the upgrade, with one burst queued. -/
def sampleEntry (codec : γ) (tls : τ) (enableTls : Bool) (burst : List Mbuf) : StreamWorld 4 γ τ :=
  let r := (sampleStream codec tls enableTls 8192).enterWs (sampleHost [burst]) ⟨0, 0⟩
  ⟨r.1, r.2⟩

/-- It has entered the upgrade, with the sample key and without an offer to compress. -/
theorem sampleEntry_entered (codec : γ) (tls : τ) (enableTls : Bool) (burst : List Mbuf) :
    ∃ d, UpgradeEntered sampleTuple 8 (sampleEntry codec tls enableTls burst) d ∧
      d.clientKey = sampleKey ∧ d.deflate = some ⟨false, false, false⟩ ∧
      (sampleEntry codec tls enableTls burst).host = sampleHost [burst] ∧
      SameData (sampleStream codec tls enableTls 8192)
        (sampleEntry codec tls enableTls burst).stream := by
  have hok : (create (some (List.replicate 16 0)) (ascii "localhost")
      (ascii "/ws") [] (some ⟨false, false, false⟩)).isOk = true := by
    decide +kernel
  match hcreate : create (some (List.replicate 16 0)) (ascii "localhost")
      (ascii "/ws") [] (some ⟨false, false, false⟩) with
  | .error e =>
    rw [hcreate] at hok
    cases hok
  | .ok d =>
    obtain ⟨-, -, hdeflate, hkey, -⟩ := create_fresh hcreate
    have hhost : (sampleStream codec tls enableTls 8192).wsHostHeader = ascii "localhost" :=
      if_pos (show ascii "localhost" ≠ [] by decide)
    obtain ⟨hentered, hsame⟩ := enterWs_entered (sampleStream codec tls enableTls 8192)
      (sampleHost [burst]) ⟨0, 0⟩ ⟨rfl, rfl, rfl, rfl⟩ rfl (by rw [hhost]; exact hcreate)
    exact ⟨d, hentered, (Option.some.inj hkey).symm, hdeflate, hsame⟩

/-- The sample stream with a burst that brings the sample response and `following`. -/
structure SampleUpgrade (burst : List Mbuf) (following : Bytes) (d₀ : WsHandshakeDriver) :
    Prop where
  entered : UpgradeEntered sampleTuple 8 (sampleEntry () () false burst) d₀
  plain : (sampleEntry () () false burst).stream.cfg.enableTls = false
  empty : (sampleEntry () () false burst).stream.reasm.content = []
  capacity : (sampleEntry () () false burst).stream.reasm.capacity = 8192
  clean : ∀ m ∈ (sampleEntry () () false burst).host.rx.flatten,
    Clean (sampleEntry () () false burst).stream.strictRxCksum m
  valid : ValidResponse d₀.clientKey d₀.deflate sampleResponse
  limit : sampleResponse.length ≤ kWsRxCapacity
  queued : (sampleEntry () () false burst).host.rx = [burst]
  carries : carried sampleTuple 8 (sampleEntry () () false burst).host.rx.flatten =
    some (sampleResponse ++ following)

theorem sampleUpgrade (n : Nat) (following : Bytes)
    (h : (sampleResponse ++ following).length ≤ n * kDefaultMss) :
    ∃ d₀, SampleUpgrade (sampleSegments n 0 (sampleResponse ++ following)) following d₀ := by
  obtain ⟨d₀, hentered, hkey, hdeflate, hhost, hsame⟩ := sampleEntry_entered () () false
    (sampleSegments n 0 (sampleResponse ++ following))
  have hqueued : (sampleEntry () () false
      (sampleSegments n 0 (sampleResponse ++ following))).host.rx =
        [sampleSegments n 0 (sampleResponse ++ following)] := by
    rw [hhost]
    rfl
  refine ⟨d₀, hentered, ?_, ?_, ?_, ?_, ?_, ?_, hqueued, ?_⟩
  · rw [hsame.cfg]
    rfl
  · rw [hsame.reasm]
    rfl
  · rw [hsame.reasm]
    exact length_replicate
  · rw [hqueued, flatten_singleton]
    exact fun m hm => (sampleSegments_clean _ n 0 _ m hm).2
  · rw [hkey, hdeflate]
    decide +kernel
  · rw [length_sampleResponse]
    decide
  · rw [hqueued, flatten_singleton]
    exact carried_sampleSegments n _ h

/-- The sample stream has polled, and waits for the response. -/
def samplePolled (burst : List Mbuf) : StreamWorld 4 Unit Unit :=
  (sampleEntry () () false burst).run noTls Codec.rawStreamCodec [.poll ⟨1, 1⟩]

/-- The sample stream after the poll and the burst. -/
def sampleRan (burst : List Mbuf) : StreamWorld 4 Unit Unit :=
  (sampleEntry () () false burst).run noTls Codec.rawStreamCodec
    ([.poll ⟨1, 1⟩] ++ [.deliver ⟨2, 2⟩])

/-- Once the queue is empty, the burst has been received, with all that it carries. -/
theorem SampleUpgrade.received {burst : List Mbuf} {following : Bytes} {d₀ : WsHandshakeDriver}
    (h : SampleUpgrade burst following d₀) (hrx : (sampleRan burst).host.rx.map length = []) :
    (sampleEntry () () false burst).host.rx.flatten =
        burst ++ (sampleRan burst).host.rx.flatten ∧
      carried sampleTuple 8 burst = some (sampleResponse ++ following) := by
  have hcarries := h.carries
  rw [h.queued, flatten_singleton] at hcarries ⊢
  rw [map_eq_nil_iff.mp hrx, flatten_nil, append_nil]
  exact ⟨rfl, hcarries⟩

/-- Three bytes behind the response reach the reassembly buffer. -/
theorem upgrade_conserves_three_bytes :
    ∃ (following : Bytes) (w : StreamWorld 4 Unit Unit), following = [1, 2, 3] ∧
      w = (sampleEntry () () false (sampleSegments 1 0 (sampleResponse ++ following))).run noTls
        Codec.rawStreamCodec ([.poll ⟨1, 1⟩] ++ [.deliver ⟨2, 2⟩]) ∧
      (carried sampleTuple (8 + UInt32.ofNat (sampleResponse ++ following).length)
        w.host.rx.flatten).map (w.stream.reasm.content ++ ·) = some following := by
  obtain ⟨following, hfollowing⟩ : ∃ following : Bytes, following = [1, 2, 3] := ⟨_, rfl⟩
  have hlen : (sampleResponse ++ following).length = 132 := by
    rw [length_append, length_sampleResponse, hfollowing]
    rfl
  have hran : let burst := sampleSegments 1 0 (sampleResponse ++ following)
      (samplePolled burst).stream.hsPhase = .wsHandshaking ∧
        (sampleRan burst).stream.hsPhase = .established ∧
        (sampleRan burst).host.rx.map length = [] := by
    rw [hfollowing]
    decide +kernel
  obtain ⟨d₀, h⟩ := sampleUpgrade 1 following (by rw [hlen]; decide)
  obtain ⟨hpkts, hreceived⟩ := h.received hran.2.2
  unfold sampleRan at hran hpkts
  refine ⟨following, _, hfollowing, rfl, (upgrade_conserves_iff noTls Codec.rawStreamCodec
    h.entered h.plain h.empty h.clean h.valid h.limit h.carries [.poll ⟨1, 1⟩] (.deliver ⟨2, 2⟩)
    ⟨hran.1, trivial⟩ rfl hran.2.1 hpkts hreceived ?_).mpr ?_⟩
  · rw [hlen, h.capacity, length_sampleResponse]
    decide
  · rw [hlen]
    decide

/-- Six full segments in one burst bring more than the driver reads: the bytes that are
left in the sink are lost, although the reassembly buffer has room for the leftover. -/
theorem upgrade_loses_staged_bytes :
    ∃ (w₀ : StreamWorld 4 Unit Unit) (d₀ : WsHandshakeDriver) (response following : Bytes)
      (evs : List StreamEvent) (ev : StreamEvent) (w : StreamWorld 4 Unit Unit)
      (pkts : List Mbuf) (received : Bytes),
      UpgradeEntered sampleTuple 8 w₀ d₀ ∧ w₀.stream.cfg.enableTls = false ∧
      w₀.stream.reasm.content = [] ∧
      (∀ m ∈ w₀.host.rx.flatten, Clean w₀.stream.strictRxCksum m) ∧
      (∀ m ∈ w₀.host.rx.flatten, m.data.length ≤ 54 + kDefaultMss) ∧
      (∀ burst ∈ w₀.host.rx, burst.length ≤ 32) ∧
      ValidResponse d₀.clientKey d₀.deflate response ∧ response.length ≤ kWsRxCapacity ∧
      carried sampleTuple 8 w₀.host.rx.flatten = some (response ++ following) ∧
      StaysUpgrading noTls Codec.rawStreamCodec w₀ evs ∧
      w = w₀.run noTls Codec.rawStreamCodec (evs ++ [ev]) ∧
      w.stream.hsPhase = .established ∧ w₀.host.rx.flatten = pkts ++ w.host.rx.flatten ∧
      carried sampleTuple 8 pkts = some received ∧
      min received.length kWsRxCapacity ≤ response.length + w₀.stream.reasm.capacity ∧
      (carried sampleTuple (8 + UInt32.ofNat received.length) w.host.rx.flatten).map
        (w.stream.reasm.content ++ ·) ≠ some following := by
  obtain ⟨following, hfollowing⟩ : ∃ following : Bytes, following = List.replicate 8631 0 :=
    ⟨_, rfl⟩
  have hlen : (sampleResponse ++ following).length = 8760 := by
    rw [length_append, length_sampleResponse, hfollowing, length_replicate]
  have hran : let burst := sampleSegments 6 0 (sampleResponse ++ following)
      (samplePolled burst).stream.hsPhase = .wsHandshaking ∧
        (sampleRan burst).stream.hsPhase = .established ∧
        (sampleRan burst).host.rx.map length = [] ∧
        (sampleRan burst).stream.reasm.content.length = 8063 := by
    rw [hfollowing]
    decide +kernel
  obtain ⟨d₀, h⟩ := sampleUpgrade 6 following (by rw [hlen]; decide)
  obtain ⟨hpkts, hreceived⟩ := h.received hran.2.2.1
  unfold sampleRan at hran hpkts
  refine ⟨_, d₀, sampleResponse, following, [.poll ⟨1, 1⟩], .deliver ⟨2, 2⟩, _, _, _, h.entered,
    h.plain, h.empty, h.clean, ?_, ?_, h.valid, h.limit, h.carries, ⟨hran.1, trivial⟩, rfl,
    hran.2.1, hpkts, hreceived, ?_, ?_⟩
  · rw [h.queued, flatten_singleton]
    exact fun m hm => (sampleSegments_clean true 6 0 _ m hm).1
  · rw [h.queued]
    intro burst hburst
    rw [mem_singleton.mp hburst, length_sampleSegments]
    decide
  · rw [hlen, h.capacity, length_sampleResponse]
    decide
  · -- the buffer holds 8063 of the 8631 bytes, and nothing is left in the queue
    rw [map_eq_nil_iff.mp hran.2.2.1]
    intro hconserved
    have hshort := congrArg length (Option.some.inj hconserved)
    beta_reduce at hshort
    rw [append_nil, hran.2.2.2, hfollowing, length_replicate] at hshort
    cases hshort

end Eph.Net.Dpdk
