import Ephemeral.StreamSegmentation
import Ephemeral.StreamShown
import Ephemeral.TlsHandover

/-!
# The handover of the DPDK stream over TLS

When the driver is done, `finalize_ws_` appends its leftover to the reassembly buffer and
the stream is established.  The leftover is plaintext, but from now on the buffer is read as
records.  What the sink held is gone.

So the data phase shows the codec exactly what followed the response if and only if the
bytes received by then end with the record that ends the response
(`DpdkTlsRun.conserves_iff`).
-/

namespace Eph.Net.Dpdk

open ByteOrder Core Eph.Dpdk List

variable {slots : Nat} {γ τ : Type}

/-! ## What a completed upgrade hands over -/

/-- The stream of a completed upgrade agrees with the one before in all that the data phase
starts from, the buffer apart. -/
structure HandedOver (s s' : DpdkTcpStream slots (Recorded γ) τ) : Prop where
  cfg : s'.cfg = s.cfg
  tls : s'.tls = s.tls
  tlsCorrupt : s'.tlsCorrupt = s.tlsCorrupt
  tlsCodecPending : s'.tlsCodecPending = s.tlsCodecPending
  reasmOverflowed : s'.reasmOverflowed = s.reasmOverflowed
  strictRxCksum : s'.strictRxCksum = s.strictRxCksum
  onMessage : s'.onMessage = s.onMessage
  taken : s'.codec.taken = s.codec.taken
  rest : s'.codec.rest = s.codec.rest

/-- **What `finalize_ws_` makes of the leftover**: it is in the buffer, or it did not fit and
the session is closed. -/
theorem completeUpgrade_cases (codec : StreamCodec γ) (s : DpdkTcpStream slots (Recorded γ) τ)
    (host : Host) (d : WsHandshakeDriver) :
    ∃ s' host', completeUpgrade (recording codec) s host d = ⟨s', host'⟩ ∧
      s'.hsPhase = .established ∧ host'.rx = host.rx ∧ HandedOver s s' ∧
      ((SameInput s.sess s'.sess ∧ s'.reasm.content = s.reasm.content ++ d.leftover) ∨
        (d.leftover ≠ [] ∧ Dead s')) := by
  refine ⟨_, _, rfl, completeUpgrade_phase .., completeUpgrade_rx .., ?_⟩
  -- the negotiated extension does not touch the account of the codec
  obtain ⟨codec', active, happly, htaken, hrest⟩ : ∃ codec' active,
      s.applyDeflate (recording codec) d.deflate =
        { s with codec := codec', wsDeflateActive := active } ∧
      codec'.taken = s.codec.taken ∧ codec'.rest = s.codec.rest := by
    unfold DpdkTcpStream.applyDeflate
    split
    · split
      · refine ⟨_, _, rfl, ?_⟩
        dsimp only [recording]
        cases codec.enablePermessageDeflate with
        | none | some enable => exact ⟨rfl, rfl⟩
      · exact ⟨_, _, rfl, rfl, rfl⟩
    · exact ⟨_, _, rfl, rfl, rfl⟩
  unfold DpdkTcpStream.finalizeWs
  rw [happly]
  by_cases hleft : d.leftover = []
  · simp only [hleft, isEmpty_nil, if_true, append_nil]
    exact ⟨⟨rfl, rfl, rfl, rfl, rfl, rfl, rfl, htaken, hrest⟩,
      .inl ⟨TcpSession.setFeedOnly_same s.sess false, rfl⟩⟩
  have hne : d.leftover.isEmpty = false := by simpa using hleft
  have hspec := ReasmBuffer.append_spec s.reasm d.leftover
  simp only [hne, Bool.false_eq_true, if_false]
  split at hspec
  · obtain ⟨reasm, happend, hcontent, -⟩ := hspec
    rw [happend]
    exact ⟨⟨rfl, rfl, rfl, rfl, rfl, rfl, rfl, htaken, hrest⟩,
      .inl ⟨TcpSession.setFeedOnly_same s.sess false, hcontent⟩⟩
  · rw [hspec]
    refine ⟨⟨rfl, rfl, rfl, rfl, rfl, rfl, rfl, htaken, hrest⟩, .inr ⟨hleft, rfl, .inl ?_⟩⟩
    change TcpState.closed ≠ .established
    decide

variable {eng : TlsEngine slots τ} {sealedRest : τ → List Record} {codec : StreamCodec γ}
  {t : ConnectionTuple} {seq : UInt32} {response following received cipher later : Bytes}
  {w₀ : StreamWorld slots (Recorded γ) τ} {s : DpdkTcpStream slots (Recorded γ) τ} {host : Host}
  {d₀ d : WsHandshakeDriver} {records opened : List Record}

section Handover

/-- A stream that is ready for its data phase: a callback is set, and neither bytes nor
errors are on the books. -/
structure Untouched (s : DpdkTcpStream slots (Recorded γ) τ) : Prop where
  onMessage : s.onMessage = true
  enableTls : s.cfg.enableTls = true
  reasmOverflowed : s.reasmOverflowed = false
  tlsCorrupt : s.tlsCorrupt = false
  reasm : s.reasm.content = []
  tlsCodecPending : s.tlsCodecPending = []
  taken : s.codec.taken = []
  rest : s.codec.rest = []

variable (h : TlsDone eng sealedRest t seq response w₀ s host d received opened cipher)
  (hstart : Untouched w₀.stream)

include h hstart

/-- Nothing has been shown to the codec at the handover. -/
theorem TlsDone.presented {s' : DpdkTcpStream slots (Recorded γ) τ} (hhanded : HandedOver s s') :
    s'.codec.presented = [] := by
  rw [Recorded.presented, hhanded.taken, hhanded.rest, h.same.codec, hstart.taken, hstart.rest]
  rfl

variable (hclean : ∀ m ∈ w₀.host.rx.flatten, Clean w₀.stream.strictRxCksum m)

include hclean

/-- The established stream lives, if the leftover is in the buffer. -/
theorem TlsDone.live {s' : DpdkTcpStream slots (Recorded γ) τ} {host' : Host}
    (hphase : s'.hsPhase = .established) (hrx : host'.rx = host.rx) (hhanded : HandedOver s s')
    (hsess : SameInput s.sess s'.sess) :
    Live eng t (seq + UInt32.ofNat received.length) ⟨s', host'⟩ := by
  obtain ⟨pkts, hpkts, -⟩ := h.took.taken
  refine ⟨⟨hphase, h.took.ready.of_same hsess.toSameReceive, hsess.rxFeed.trans h.feed,
    hhanded.reasmOverflowed.trans (h.same.reasmOverflowed.trans hstart.reasmOverflowed),
    hhanded.tlsCorrupt.trans (h.same.tlsCorrupt.trans hstart.tlsCorrupt), ?_⟩,
    hhanded.onMessage.trans (h.same.onMessage.trans hstart.onMessage), ?_, ?_, ?_⟩
  · intro m hm
    rw [hrx] at hm
    rw [hhanded.strictRxCksum, h.same.strictRxCksum]
    exact hclean m (by rw [hpkts]; exact mem_append_right pkts hm)
  · rw [hhanded.cfg, h.same.cfg]
    exact hstart.enableTls
  · rw [hhanded.tls]
    exact h.up
  · rw [hhanded.rest, hhanded.tlsCodecPending, h.same.codec, h.same.tlsCodecPending, hstart.rest,
      hstart.tlsCodecPending]

variable (hlater : carried t (seq + UInt32.ofNat received.length) host.rx.flatten = some later)

include hlater

/-- The data phase may draw on the leftover and on what is still to come. -/
theorem TlsDone.draws : Draws eng sealedRest t (sealedRest s.tls) (d.leftover.length + later.length)
    (completeUpgrade (recording codec) s host d) := by
  obtain ⟨s', host', heq, hphase, hrx, hhanded, hcases⟩ := completeUpgrade_cases codec s host d
  rw [heq]
  refine ⟨[], by rw [hhanded.tls]; rfl, h.presented hstart hhanded, Nat.zero_le _, ?_⟩
  rcases hcases with ⟨hsess, hcontent⟩ | ⟨-, hdead⟩
  · refine .inr ⟨_, later, h.live hstart hclean hphase hrx hhanded hsess, ?_, ?_⟩
    · rw [hrx]
      exact hlater
    · refine Nat.le_of_eq ?_
      rw [hcontent, h.same.reasm, hstart.reasm, recordBytes_nil, nil_append, length_nil,
        Nat.zero_add]
  · exact .inl hdead

/-- After a clean handover the data phase follows the peer's records. -/
theorem TlsDone.follows (hframed : ∀ r ∈ sealedRest s.tls, r.Framed) (hleftover : d.leftover = [])
    (hbytes : later = recordBytes (sealedRest s.tls)) :
    Follows eng sealedRest t (sealedRest s.tls) (completeUpgrade (recording codec) s host d) := by
  obtain ⟨s', host', heq, hphase, hrx, hhanded, ⟨hsess, hcontent⟩ | ⟨hleft, -⟩⟩ :=
    completeUpgrade_cases codec s host d
  · rw [heq]
    rw [h.same.reasm, hstart.reasm, hleftover, append_nil] at hcontent
    refine ⟨[], _, later, by rw [hhanded.tls]; rfl, h.presented hstart hhanded,
      h.live hstart hclean hphase hrx hhanded hsess, ?_, ?_, ?_⟩
    · rw [hrx]
      exact hlater
    · rw [hcontent, hhanded.tls, nil_append, hbytes]
    · rw [hcontent, hhanded.tls]
      exact fun r rs hnext => (hframed r (by rw [hnext]; simp)).length_pos
  · exact absurd hleftover hleft

end Handover

/-! ## The run -/

/-- A run of the DPDK stream over TLS.  It enters the upgrade in `w₀`, where `records` are
the records that the server has sealed: a valid response and `following`.  The events `evs`
keep it in the upgrade and `ev` establishes it, with `received` received.  Then come the
events `more`, until nothing is left to be read. -/
structure DpdkTlsRun (eng : TlsEngine slots τ) (codec : StreamCodec γ)
    (sealedRest : τ → List Record) (t : ConnectionTuple) (seq : UInt32)
    (w₀ : StreamWorld slots (Recorded γ) τ) (d₀ : WsHandshakeDriver) (evs : List StreamEvent)
    (ev : StreamEvent) (more : List StreamEvent) (records : List Record)
    (response following received : Bytes) : Prop where
  ideal : IdealTls eng sealedRest
  entered : UpgradeEntered t seq w₀ d₀
  untouched : Untouched w₀.stream
  up : eng.isEstablished w₀.stream.tls = true
  sealed : sealedRest w₀.stream.tls = records
  wellFormed : ∀ r ∈ records, r.WellFormed
  data : recordData records = response ++ following
  wire : carried t seq w₀.host.rx.flatten = some (recordBytes records)
  clean : ∀ m ∈ w₀.host.rx.flatten, Clean w₀.stream.strictRxCksum m
  valid : ValidResponse d₀.clientKey d₀.deflate response
  limit : response.length ≤ kWsRxCapacity
  stays : StaysUpgrading eng (recording codec) w₀ evs
  established : (w₀.run eng (recording codec) (evs ++ [ev])).stream.hsPhase = .established
  received : ∃ pkts, w₀.host.rx.flatten =
      pkts ++ (w₀.run eng (recording codec) (evs ++ [ev])).host.rx.flatten ∧
    carried t seq pkts = some received
  undisturbed : Undisturbed eng (recording codec) (w₀.run eng (recording codec) (evs ++ [ev])) more
  settled : Settled ((w₀.run eng (recording codec) (evs ++ [ev])).run eng (recording codec) more)

namespace DpdkTlsRun

variable {evs : List StreamEvent} {ev : StreamEvent} {more : List StreamEvent}
  (h : DpdkTlsRun eng codec sealedRest t seq w₀ d₀ evs ev more records response following received)

include h

/-- A driver that has read some of the records completes the upgrade, and the data phase draws
on the others. -/
theorem done : ∃ s host d opened cipher later,
    TlsDone eng sealedRest t seq response w₀ s host d received opened cipher ∧
    w₀.run eng (recording codec) (evs ++ [ev]) = completeUpgrade (recording codec) s host d ∧
    carried t (seq + UInt32.ofNat received.length) host.rx.flatten = some later ∧
    Handover response received opened (sealedRest s.tls) cipher later ∧
    Draws eng sealedRest t (sealedRest s.tls) (d.leftover.length + later.length)
      ((w₀.run eng (recording codec) (evs ++ [ev])).run eng (recording codec) more) := by
  obtain ⟨hideal, hentered, huntouched, hup, rfl, hwf, hdata, hwire, hclean, hvalid, hlimit, hstays,
    hestablished, ⟨pkts, hpkts, hreceived⟩, hundisturbed, -⟩ := h
  -- a stream that has just entered the upgrade waits, with nothing received
  have hwaits : TlsWaits eng sealedRest t seq response d₀ w₀ w₀ [] [] := by
    refine ⟨hentered.phase, Took.nothing hentered.ready rfl, SameData.refl w₀.stream, hup, rfl,
      ⟨d₀, hentered.driver, .fresh hentered.sending hentered.unread hvalid⟩, [], ?_, ?_, ?_⟩
    · rw [hentered.sink, DpdkTcpStream.freshSink, huntouched.enableTls]
      rfl
    · rw [hentered.feed]
      rfl
    · intro r rs hnext
      exact (hwf r (by rw [hnext]; exact mem_cons_self)).length_pos
  obtain ⟨s, host, d, ⟨received', opened, cipher, hdone⟩, hcomplete⟩ := hstays.established
    (TlsWaits.apply (recording codec) hideal hwire hdata hwf hvalid hlimit hclean
      huntouched.tlsCorrupt) ⟨[], [], hwaits⟩ (by
        rintro _ ⟨_, _, hwait⟩
        exact hwait.phase) hestablished
  -- The bytes received are those the driver has accounted for.
  obtain ⟨pkts', hpkts', hreceived'⟩ := hdone.took.taken
  rw [hcomplete, hpkts', completeUpgrade_rx] at hpkts
  rw [append_cancel_right hpkts] at hreceived'
  obtain rfl : received = received' := Option.some.inj (hreceived.symm.trans hreceived')
  obtain ⟨later, hlater, hsplit⟩ := hdone.took.remaining hwire
  refine ⟨s, host, d, opened, cipher, later, hdone, hcomplete, hlater, ⟨hdone.bytes, ?_, hdone.part,
    hdone.accepted.complete⟩, hundisturbed.run (fun _ _ _ hdraws => hdraws.apply hideal)
      (hcomplete ▸ hdone.draws huntouched hclean hlater)⟩
  rw [hdone.records, recordBytes_append, hdone.bytes, append_assoc] at hsplit
  exact (append_cancel_left hsplit).symm

/-- **Conservation over TLS, DPDK.** The codec is shown exactly what followed the response
if and only if the bytes received when the stream became established end with the record
that ends the response. -/
theorem conserves_iff :
    ((w₀.run eng (recording codec) (evs ++ [ev])).run eng (recording codec)
        more).stream.codec.presented = following ↔
      EndsWithResponse records response received := by
  obtain ⟨s, host, d, opened, cipher, later, hdone, hcomplete, hlater, hhandover,
    shown, hrest, hshown, hbudget, -⟩ := h.done
  have hwf := h.wellFormed
  have hdata := h.data
  rw [← h.sealed, hdone.records] at hwf hdata ⊢
  rw [hhandover.endsWithResponse_iff hwf]
  have hleftover := hdone.accepted.leftover
  constructor
  · intro hpresented
    have hkept : d.leftover.length ≤ (recordData opened).length - response.length := by
      rw [hleftover, length_drop, length_take]
      omega
    rw [hpresented] at hshown
    exact hhandover.clean_of_conserved hwf hdata hrest
      (Nat.le_of_eq (congrArg List.length hshown)) hkept hbudget
  · rintro ⟨hopened, hcipher⟩
    have hnone : d.leftover = [] := by
      rw [hleftover, hopened, drop_eq_nil_of_le]
      rw [length_take]
      omega
    have hframed : ∀ r ∈ sealedRest s.tls, r.Framed := fun r hr =>
      (hwf r (mem_append_right _ hr)).framed
    have hbytes := hhandover.later
    rw [hcipher, nil_append] at hbytes
    have hfollows := h.undisturbed.run (fun _ _ _ hfollows => hfollows.apply h.ideal hframed)
      (hcomplete ▸ hdone.follows h.untouched h.clean hlater hframed hnone hbytes)
    rw [recordData_append, hopened] at hdata
    exact (hfollows.settled h.settled).trans (append_cancel_left hdata)

end DpdkTlsRun

/-- A record with the sample response, and one with a single byte. -/
def sampleSealed : List Record :=
  [⟨[0x17, 3, 3, 0, 129] ++ sampleResponse, sampleResponse⟩, ⟨[0x17, 3, 3, 0, 1, 7], [7]⟩]

/-- A driver that has its request before it. -/
def sampleDriver : WsHandshakeDriver := ⟨.sending, none, ascii "GET", 0, [], sampleKey, []⟩

/-- The sample stream in the upgrade over TLS; one segment brings both records. -/
def sampleTlsUpgrade : StreamWorld 4 (Recorded Unit) (List Record) :=
  ⟨{ sampleStream ⟨(), [], []⟩ sampleSealed true 8192 with
      hsPhase := .wsHandshaking, wsDriver := some sampleDriver, wsSink := some (.tls [] []) },
    sampleHost [sampleSegments 1 0 (recordBytes sampleSealed)]⟩

end Eph.Net.Dpdk
