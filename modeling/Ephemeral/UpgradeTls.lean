import Ephemeral.UpgradePlain

/-!
# From the upgrade to the data phase, over TLS

While the stream waits for the response, the records that were received in full have been
opened and their data is with the driver; the part of the next record is in the sink, and
what was routed and not yet read in the session's feed (`TlsWaits`).

The step that completes the response leaves two things behind besides the driver's leftover:
the part of a record that the sink holds, and the data that did not fit into the driver's
buffer.  Both are destroyed with the sink.
-/

namespace Eph.Net.Dpdk

open ByteOrder Core Eph.Dpdk List

variable {slots : Nat} {γ τ : Type}

variable {eng : TlsEngine slots τ} {sealedRest : τ → List Record} {t : ConnectionTuple}
  {seq : UInt32} {response following : Bytes} {d₀ : WsHandshakeDriver}
  {w₀ w : StreamWorld slots γ τ} {received : Bytes} {opened : List Record}

variable (eng sealedRest t seq response d₀ w₀) in
/-- The stream waits for the response.  It has received `received` since the upgrade began
and opened the records `opened`. -/
structure TlsWaits (w : StreamWorld slots γ τ) (received : Bytes) (opened : List Record) :
    Prop where
  phase : w.stream.hsPhase = .wsHandshaking
  took : Took t seq w₀.host w.stream.sess w.host received
  same : SameData w₀.stream w.stream
  up : eng.isEstablished w.stream.tls = true
  records : sealedRest w₀.stream.tls = opened ++ sealedRest w.stream.tls
  driver : ∃ d, w.stream.wsDriver = some d ∧ AwaitsResponse d₀ response (recordData opened) d
  sink : ∃ cipher, w.stream.wsSink = some (.tls cipher []) ∧
    received = recordBytes opened ++ cipher ++ w.stream.sess.rxFeed ∧
    PartOfNext cipher (sealedRest w.stream.tls)

variable (eng sealedRest t seq response w₀) in
/-- The driver `d` is done.  The records `opened` were read, and the sink held `cipher`. -/
structure TlsDone (s : DpdkTcpStream slots γ τ) (host : Host) (d : WsHandshakeDriver)
    (received : Bytes) (opened : List Record) (cipher : Bytes) : Prop where
  took : Took t seq w₀.host s.sess host received
  same : SameData w₀.stream s
  up : eng.isEstablished s.tls = true
  records : sealedRest w₀.stream.tls = opened ++ sealedRest s.tls
  accepted : AcceptedResponse response (recordData opened) d
  feed : s.sess.rxFeed = []
  bytes : received = recordBytes opened ++ cipher
  part : PartOfNext cipher (sealedRest s.tls)

/-- Input keeps the stream waiting. -/
theorem TlsWaits.of_upgrading {got : Bytes}
    (h : TlsWaits eng sealedRest t seq response d₀ w₀ w received opened)
    {s : DpdkTcpStream slots γ τ} {host : Host}
    (hinput : Upgrading t (seq + UInt32.ofNat received.length) w s host got) :
    TlsWaits eng sealedRest t seq response d₀ w₀ ⟨s, host⟩ (received ++ got) opened := by
  obtain ⟨d, hdriver, hawaits⟩ := h.driver
  obtain ⟨cipher, hsink, hbytes, hpart⟩ := h.sink
  refine ⟨hinput.phase.trans h.phase, h.took.trans hinput.took, h.same.trans hinput.same, ?_, ?_,
    ⟨d, hinput.driver.trans hdriver, hawaits⟩, cipher, hinput.sink.trans hsink, ?_, ?_⟩
  · rw [hinput.tls]
    exact h.up
  · rw [hinput.tls]
    exact h.records
  · rw [hinput.feed, hbytes, append_assoc]
  · rw [hinput.tls]
    exact hpart

/-- What the sink holds and the session will deliver are the records still to be opened. -/
theorem TlsWaits.unread (h : TlsWaits eng sealedRest t seq response d₀ w₀ w received opened)
    (hwire : carried t seq w₀.host.rx.flatten = some (recordBytes (sealedRest w₀.stream.tls)))
    {cipher : Bytes} (hbytes : received = recordBytes opened ++ cipher ++ w.stream.sess.rxFeed) :
    ∃ later, carried t (seq + UInt32.ofNat received.length) w.host.rx.flatten = some later ∧
      cipher ++ (w.stream.sess.rxFeed ++ later) = recordBytes (sealedRest w.stream.tls) := by
  obtain ⟨later, hlater, hsplit⟩ := h.took.remaining hwire
  refine ⟨later, hlater, ?_⟩
  rw [h.records, recordBytes_append, hbytes, append_assoc, append_assoc] at hsplit
  exact (append_cancel_left hsplit).symm

/-- The answer of the TLS sink serves the records it has opened. -/
theorem recvTlsResult_serves (hwf : ∀ r ∈ opened, r.WellFormed) (cap : Nat) :
    Serves (recordData opened) cap (recvTlsResult cap opened) := by
  unfold recvTlsResult
  by_cases hnone : opened = []
  · rw [if_pos (isEmpty_iff.mpr hnone), hnone]
    exact .inl ⟨rfl, _, rfl, rfl⟩
  · rw [if_neg (by simpa using hnone)]
    exact .inr ⟨recordData_ne_nil hnone hwf, rfl⟩

variable (codec : StreamCodec γ) (hideal : IdealTls eng sealedRest)
  (hwire : carried t seq w₀.host.rx.flatten = some (recordBytes (sealedRest w₀.stream.tls)))
  (hdata : recordData (sealedRest w₀.stream.tls) = response ++ following)
  (hwf : ∀ r ∈ sealedRest w₀.stream.tls, r.WellFormed)
  (hvalid : ValidResponse d₀.clientKey d₀.deflate response)
  (hlimit : response.length ≤ kWsRxCapacity)

include hideal hwire hdata hwf hvalid hlimit

/-- One step of the driver while the stream waits: it fails, it waits on, or the driver is
done. -/
theorem TlsWaits.stepUpgrade (h : TlsWaits eng sealedRest t seq response d₀ w₀ w received opened)
    (clk : Clock) :
    (w.stream.stepUpgrade eng codec w.host clk).1.hsPhase = .failed ∨
    (∃ received' opened', TlsWaits eng sealedRest t seq response d₀ w₀
      ⟨(w.stream.stepUpgrade eng codec w.host clk).1,
        (w.stream.stepUpgrade eng codec w.host clk).2⟩ received' opened') ∨
    (∃ s host d, (∃ received' opened' cipher,
        TlsDone eng sealedRest t seq response w₀ s host d received' opened' cipher) ∧
      w.stream.stepUpgrade eng codec w.host clk =
        ((completeUpgrade codec s host d).stream, (completeUpgrade codec s host d).host)) := by
  obtain ⟨d, hdriver, hawaits⟩ := h.driver
  obtain ⟨cipher, hsink, hbytes, hpart⟩ := h.sink
  rcases hawaits.phase with hsending | hreceiving
  · -- While the request goes out nothing is read.
    obtain ⟨r, d', hstep, hnot, hawaits'⟩ := hawaits.sending hsending (wsSinkOps eng clk)
      ⟨w.stream.sess, w.host, w.stream.tls, .tls cipher []⟩
    obtain ⟨hsame, hrx, hkept, htls⟩ := SinkWorld.send_same eng
      ⟨w.stream.sess, w.host, w.stream.tls, .tls cipher []⟩ (d.req.drop d.sent)
    obtain ⟨hrecords, hup⟩ : sealedRest (SinkWorld.send eng
          ⟨w.stream.sess, w.host, w.stream.tls, .tls cipher []⟩ (d.req.drop d.sent)).2.tls =
          sealedRest w.stream.tls ∧
        eng.isEstablished (SinkWorld.send eng
          ⟨w.stream.sess, w.host, w.stream.tls, .tls cipher []⟩ (d.req.drop d.sent)).2.tls =
          true := by
      rcases htls with htls | htls
      · exact ⟨by rw [htls], by rw [htls]; exact h.up⟩
      · exact ⟨by rw [htls, hideal.encrypt], by rw [htls, hideal.sendKeeps]; exact h.up⟩
    rw [stepUpgrade_eq eng codec hdriver hsink hstep]
    match r with
    | .error e => exact .inl rfl
    | .ok true => exact absurd rfl hnot
    | .ok false =>
      exact .inr (.inl ⟨received, opened, h.phase, h.took.of_same hsame.toSameReceive hrx,
        h.same.trans (by constructor <;> rfl), hup, h.records.trans (by rw [← hrecords]; rfl),
        ⟨d', rfl, hawaits'⟩, cipher, congrArg some hkept,
        hbytes.trans (by rw [← hsame.rxFeed]; rfl), hrecords.symm ▸ hpart⟩)
  · obtain ⟨later, hlater, hunread⟩ := h.unread hwire hbytes
    have hwf' : ∀ r ∈ sealedRest w.stream.tls, r.WellFormed := fun r hr =>
      hwf r (by rw [h.records]; exact mem_append_right _ hr)
    obtain ⟨got, new, sess', host', tls', cipher', htook, hfeed, hrecv⟩ := recvTls_spec hideal clk
      (kWsRxCapacity - d.rx.length) kWsHandshakeRecvBurstRetries h.took.ready hlater h.up hwf'
      hpart hunread
    have hfeed' : sess'.rxFeed = [] := hfeed (.inl (by decide))
    have hread : (wsSinkOps eng clk).recv ⟨w.stream.sess, w.host, w.stream.tls, .tls cipher []⟩
        (kWsRxCapacity - d.rx.length) = _ := hrecv
    have htook' := h.took.trans htook.took
    have hrecords : sealedRest w₀.stream.tls = opened ++ new ++ sealedRest tls' := by
      rw [h.records, htook.records, append_assoc]
    have hbytes' : received ++ got = recordBytes (opened ++ new) ++ cipher' := by
      have hnew := htook.bytes
      rw [hfeed', append_nil] at hnew
      rw [hbytes, recordBytes_append, append_assoc (recordBytes opened) (recordBytes new), ← hnew]
      simp only [append_assoc]
    have hall : recordData opened ++ recordData new ++ recordData (sealedRest tls') =
        response ++ following := by
      rw [← recordData_append, ← recordData_append, ← hrecords, hdata]
    rcases hawaits.reading hreceiving hvalid hlimit hall hread (recvTlsResult_serves (fun r hr =>
        hwf' r (by rw [htook.records]; exact mem_append_left _ hr)) _) with
      ⟨d', hstep, hawaits', hfits⟩ | ⟨d', hstep, haccepted⟩
    · rw [← recordData_append] at hawaits'
      rw [stepUpgrade_eq eng codec hdriver hsink hstep, drop_eq_nil_of_le hfits]
      refine .inr (.inl ⟨received ++ got, opened ++ new, h.phase, htook',
        h.same.trans (by constructor <;> rfl), htook.up, hrecords, ⟨d', rfl, hawaits'⟩, cipher',
        rfl, ?_, htook.part⟩)
      rw [hfeed', append_nil]
      exact hbytes'
    · rw [← recordData_append] at haccepted
      exact .inr (.inr ⟨_, _, d', ⟨received ++ got, opened ++ new, cipher', htook',
        h.same.trans (by constructor <;> rfl), htook.up, hrecords, haccepted, hfeed', hbytes',
        htook.part⟩, stepUpgrade_eq eng codec hdriver hsink hstep⟩)

/-- **One event while the stream waits**: it fails, it goes on waiting, or the upgrade is
complete. -/
theorem TlsWaits.apply (hclean : ∀ m ∈ w₀.host.rx.flatten, Clean w₀.stream.strictRxCksum m)
    (hsound : w₀.stream.tlsCorrupt = false) (w : StreamWorld slots γ τ) (ev : StreamEvent)
    (h : ∃ received opened, TlsWaits eng sealedRest t seq response d₀ w₀ w received opened) :
    (ev.apply eng codec w).stream.hsPhase = .failed ∨
    (∃ received opened,
      TlsWaits eng sealedRest t seq response d₀ w₀ (ev.apply eng codec w) received opened) ∨
    (∃ s host d, (∃ received opened cipher,
        TlsDone eng sealedRest t seq response w₀ s host d received opened cipher) ∧
      ev.apply eng codec w = completeUpgrade codec s host d) := by
  obtain ⟨received, opened, h⟩ := h
  rcases apply_waiting eng codec h.phase h.took h.same hwire hclean
      (by rw [hsound, Bool.and_false]) ev with
    hfail | ⟨s, host, clk, got, hinput, happly⟩ | ⟨host, htook, happly⟩
  · exact .inl hfail
  · -- The input of the event keeps the stream waiting; then the driver steps.
    rw [happly]
    rcases (h.of_upgrading hinput).stepUpgrade codec hideal hwire hdata hwf hvalid hlimit clk with
      hfail | hwait | ⟨s', host', d', hdone, hstep⟩
    · exact .inl hfail
    · exact .inr (.inl hwait)
    · exact .inr (.inr ⟨s', host', d', hdone, by rw [hstep]⟩)
  · rw [happly]
    exact .inr (.inl ⟨received, opened, { h with took := htook }⟩)

end Eph.Net.Dpdk
