import Ephemeral.StreamData
import Ephemeral.UpgradeTls

/-!
# What the data phase shows to the codec

In the data phase of a stream over TLS an event appends the payload it receives to the
reassembly buffer and opens the records that are complete in it.  Over an ideal record layer
the codec is shown the data of a run of the peer's records, whatever is in the buffer
(`drainTls_authentic`); if the buffer holds the peer's own bytes, every record is opened
as soon as it is there (`drainTls_complete`).

The codec keeps the account of what it was shown itself (`recording`).
-/

namespace Eph.Net.Dpdk

open ByteOrder Core Eph.Dpdk List DpdkTcpStream DrainState ReasmBuffer

variable {slots : Nat} {γ τ : Type}

/-! ## What the drain leaves alone -/

/-- The connection is the same: nothing was received, and no packet was taken. -/
structure SameLine (s s' : DpdkTcpStream slots γ τ) (host host' : Host) : Prop where
  sess : SameInput s.sess s'.sess
  rx : host'.rx = host.rx
  hsPhase : s'.hsPhase = s.hsPhase
  strictRxCksum : s'.strictRxCksum = s.strictRxCksum
  reasmOverflows : s'.metrics.reasmOverflows = s.metrics.reasmOverflows

theorem SameLine.refl (s : DpdkTcpStream slots γ τ) (host : Host) : SameLine s s host host :=
  ⟨SameInput.refl s.sess, rfl, rfl, rfl, rfl⟩

theorem SameLine.trans {s s' s'' : DpdkTcpStream slots γ τ} {host host' host'' : Host}
    (h : SameLine s s' host host') (h' : SameLine s' s'' host' host'') :
    SameLine s s'' host host'' :=
  ⟨h.sess.trans h'.sess, h'.rx.trans h.rx, h'.hsPhase.trans h.hsPhase,
    h'.strictRxCksum.trans h.strictRxCksum, h'.reasmOverflows.trans h.reasmOverflows⟩

namespace DpdkTcpStream

/-- What a send does to the connection: nothing that concerns its input. -/
structure SendLine (s s' : DpdkTcpStream slots γ τ) (host host' : Host) : Prop extends
    SameLine s s' host host' where
  codecErrors : s'.metrics.codecErrors = s.metrics.codecErrors

/-- **A send and the connection.** -/
theorem send_line (eng : TlsEngine slots τ) (s : DpdkTcpStream slots γ τ) (host : Host)
    (clk : Clock) (payload : Bytes) :
    SendLine s (s.send eng host clk payload).2.1 host (s.send eng host clk payload).2.2 := by
  obtain ⟨-, -, ⟨sess, tls, corrupt, metrics, hsent, hsame, hrx, -, hoverflows, herrors⟩, -⟩ :=
    s.send_spec eng host clk payload
  rw [hsent]
  exact ⟨⟨hsame, hrx, rfl, rfl, hoverflows⟩, herrors⟩

/-! ## The account of one drain -/

section Drain

variable (eng : TlsEngine slots τ) (codec : StreamCodec γ) {sealedRest : τ → List Record}
  (clk : Clock)

theorem DrainState.decode_line (w : DrainState slots γ τ) (view : Bytes) :
    SendLine w.stream (w.decode eng codec clk view).1.stream w.host
      (w.decode eng codec clk view).1.host := by
  unfold decode
  dsimp only
  split
  · exact ⟨⟨SameInput.refl _, rfl, rfl, rfl, rfl⟩, rfl⟩
  have h := send_line eng
    { w.stream with codec := (codec.step w.stream.codec view).codec } w.host clk
    (codec.step w.stream.codec view).out.bytes
  exact { h with }

/-- The drain loop drives the recording codec. -/
theorem tlsDrain_records :
    Records (tlsDrainOps eng (recording codec) clk)
      (fun w : DrainState slots (Recorded γ) τ => w.stream.codec) where
  decode := by
    intro w view w' n r hdec
    obtain ⟨hcall, hanswer⟩ := decode_called eng (recording codec) clk w view
    change w.decode eng (recording codec) clk view = _ at hdec
    rw [hdec] at hcall hanswer
    have hn := congrArg Prod.fst hanswer
    rw [hcall.codec]
    dsimp only at hn
    rw [hn]
    exact ⟨rfl, rfl⟩
  consume := fun _ _ => rfl
  deliver := fun _ _ => rfl

/-- The state of a drain that began in the stream `s₀`.  As long as the codec is in order it
has been shown `acc` in all, and what it left is pending; an error of the codec is
counted. -/
structure Accounts (s₀ : DpdkTcpStream slots (Recorded γ) τ) (host₀ : Host)
    (w : DrainState slots (Recorded γ) τ) (acc : Bytes) : Prop where
  line : SameLine s₀ w.stream host₀ w.host
  shown : w.codecErrLatched = false → w.stream.codec.presented = acc ∧
    w.stream.codec.rest = w.stream.tlsCodecPending ∧
    w.stream.metrics.codecErrors = s₀.metrics.codecErrors
  counted : w.codecErrLatched = true → s₀.metrics.codecErrors < w.stream.metrics.codecErrors

/-- The loop over one record keeps the connection, the latch and the count of errors. -/
theorem drainFrames_line (fuel : Nat) (w : DrainState slots γ τ) (view : Bytes) :
    SendLine w.stream (drainFrames (tlsDrainOps eng codec clk) fuel w view).1.stream w.host
        (drainFrames (tlsDrainOps eng codec clk) fuel w view).1.host ∧
      (drainFrames (tlsDrainOps eng codec clk) fuel w view).1.codecErrLatched =
        w.codecErrLatched := by
  refine drainFrames_keeps (P := fun w' => SendLine w.stream w'.stream w.host w'.host ∧
    w'.codecErrLatched = w.codecErrLatched) ?_ ?_ ?_ fuel w view
    ⟨⟨.refl w.stream w.host, rfl⟩, rfl⟩
  · rintro w' view' ⟨h, hlatch⟩
    have hline := decode_line eng codec clk w' view'
    exact ⟨⟨h.toSameLine.trans hline.toSameLine, hline.codecErrors.trans h.codecErrors⟩,
      (decode_called eng codec clk w' view').1.latched.trans hlatch⟩
  · exact fun w' n h => h
  · rintro w' frame ⟨h, hlatch⟩
    exact ⟨{ h with }, hlatch⟩

variable {eng}

/-- **One record** extends what the codec was shown by its plaintext. -/
theorem Accounts.onRecord {s₀ : DpdkTcpStream slots (Recorded γ) τ} {host₀ : Host}
    {w : DrainState slots (Recorded γ) τ} (plaintext : Bytes) {acc : Bytes}
    (h : Accounts s₀ host₀ w acc) :
    Accounts s₀ host₀ (w.onRecord eng (recording codec) clk plaintext) (acc ++ plaintext) := by
  cases hlatch : w.codecErrLatched with
  | true =>
    rw [DrainState.onRecord, if_pos hlatch]
    exact ⟨h.line, fun hnot => Bool.noConfusion (hlatch.symm.trans hnot), h.counted⟩
  | false =>
    obtain ⟨hshown, hrest, herrors⟩ := h.shown hlatch
    obtain ⟨hline, hkept⟩ := drainFrames_line eng (recording codec) clk
      (w.stream.tlsCodecPending ++ plaintext).length w.noteCrossed
      (w.stream.tlsCodecPending ++ plaintext)
    generalize hloop : drainFrames (tlsDrainOps eng (recording codec) clk) _ w.noteCrossed _ = res
      at hline hkept
    obtain ⟨w', left, err⟩ := res
    obtain ⟨hpresented, hleft⟩ := drainFrames_presented (tlsDrain_records eng codec clk) _
      w.noteCrossed _ (Nat.le_refl _)
      (fun hnil => hrest.trans (append_eq_nil_iff.mp hnil).1) hloop
    have hline' : SameLine s₀ w'.stream host₀ w'.host := h.line.trans { hline with }
    have herrors' := hline.codecErrors.trans herrors
    cases err with
    | none =>
      rw [onRecord_eq clk hlatch hloop]
      refine ⟨{ hline' with }, fun _ => ⟨?_, hleft rfl, herrors'⟩,
        fun hset => Bool.noConfusion ((hkept.trans hlatch).symm.trans hset)⟩
      rw [← hshown, Recorded.presented, Recorded.presented, append_assoc, hrest]
      exact hpresented
    | some e =>
      rw [onRecord_eq clk hlatch hloop]
      refine ⟨{ hline' with }, Bool.noConfusion, fun _ => ?_⟩
      exact Nat.lt_succ_of_le (Nat.le_of_eq herrors'.symm)

/-- A drain that went well: the connection is as before, and the codec's rest is pending. -/
structure Drained (eng : TlsEngine slots τ) (s s' : DpdkTcpStream slots (Recorded γ) τ)
    (host host' : Host) : Prop where
  rx : SameRx s s'
  line : SameLine s s' host host'
  up : eng.isEstablished s'.tls = true
  account : s'.codec.rest = s'.tlsCodecPending

variable {codec clk}

/-- The drain over TLS, once the record loop is through. -/
theorem drainTls_of_openRecords {s : DpdkTcpStream slots γ τ} {host : Host}
    {res : Except ErrorInfo Nat} {w : DrainState slots γ τ}
    (hopen : DrainState.openRecords eng codec clk ⟨s, host, 0, false⟩ = (res, w)) :
    (∃ n s' host', s.drainTls eng codec host clk = (n, s', host') ∧ s'.reasmOverflowed = true ∧
      s'.hsPhase = w.stream.hsPhase ∧ s'.tls = w.stream.tls ∧ s'.codec = w.stream.codec ∧
      s'.metrics = w.stream.metrics ∧ (w.codecErrLatched = true ∨ ∃ e, res = .error e)) ∨
    ∃ consumed, res = .ok consumed ∧ w.codecErrLatched = false ∧
      s.drainTls eng codec host clk = (w.delivered,
        { w.stream with reasm := w.stream.reasm.consume consumed }, w.host) := by
  unfold drainTls
  rw [hopen]
  cases res with
  | error e => exact .inl ⟨_, _, _, rfl, rfl, rfl, rfl, rfl, rfl, .inr ⟨e, rfl⟩⟩
  | ok consumed =>
    cases hlatch : w.codecErrLatched with
    | true =>
      dsimp only
      rw [if_pos hlatch]
      exact .inl ⟨_, _, _, rfl, rfl, rfl, rfl, rfl, rfl, .inl rfl⟩
    | false =>
      dsimp only
      rw [if_neg (by simp [hlatch])]
      exact .inr ⟨consumed, rfl, rfl, rfl⟩

variable (codec clk) (hideal : IdealTls eng sealedRest)
  (s : DpdkTcpStream slots (Recorded γ) τ) (host : Host) (hup : eng.isEstablished s.tls = true)
  (haccount : s.codec.rest = s.tlsCodecPending)
  (hquiet : (s.drainTls eng (recording codec) host clk).2.1.metrics.codecErrors =
    s.metrics.codecErrors)

include hideal hup haccount hquiet

/-- **The drain over TLS, on any bytes.** It opens a run of the peer's next records, shows
their data to the codec, and either goes on or gives the stream up. -/
theorem drainTls_authentic :
    ∃ n s' host' opened, s.drainTls eng (recording codec) host clk = (n, s', host') ∧
      sealedRest s.tls = opened ++ sealedRest s'.tls ∧ s'.hsPhase = s.hsPhase ∧
      s'.codec.presented = s.codec.presented ++ recordData opened ∧
      (recordBytes opened).length ≤ s.reasm.content.length ∧
      (s'.reasmOverflowed = true ∨ (Drained eng s s' host host' ∧
        (recordBytes opened).length + s'.reasm.content.length = s.reasm.content.length)) := by
  have hstart : Accounts s host ⟨s, host, 0, false⟩ (s.codec.presented ++ []) :=
    ⟨.refl s host, fun _ => ⟨(append_nil _).symm, haccount, rfl⟩, nofun⟩
  obtain ⟨opened, res, w, hloop, hsplit, ⟨hrx, hreasm, hup', haccounts⟩, hlen, hok⟩ :=
    processRecords_authentic
      (P := fun (w : DrainState slots (Recorded γ) τ) acc => SameRx s w.stream ∧
        w.stream.reasm = s.reasm ∧ eng.isEstablished w.stream.tls = true ∧
        Accounts s host w (s.codec.presented ++ acc))
      (onRecord eng (recording codec) clk)
      (hideal.layer.lift (fun w : DrainState slots (Recorded γ) τ => w.stream.tls)
        (fun w tls => { w with stream := { w.stream with tls := tls } }) fun _ _ => rfl)
      (fun w p => (onRecord_sameTls (recording codec) hideal clk w p).records)
      (by
        rintro w bytes acc ⟨hrx, hreasm, hup, h⟩
        exact ⟨{ hrx with }, hreasm,
          (hideal.openKeeps ..).trans hup, { h.line with }, h.shown, h.counted⟩)
      (by
        rintro w p acc ⟨hrx, hreasm, hup, h⟩
        have hsame := onRecord_sameTls (recording codec) hideal clk w p
        refine ⟨hrx.trans hsame.rx, hsame.reasm.trans hreasm, hsame.up.trans hup, ?_⟩
        rw [← append_assoc]
        exact h.onRecord codec clk p)
      inPlaceErrors s.reasm.content.length ⟨s, host, 0, false⟩ s.reasm.content 0
      ⟨⟨rfl, rfl, rfl⟩, rfl, hup, hstart⟩
  rw [nil_append] at haccounts
  have hopen : openRecords eng (recording codec) clk ⟨s, host, 0, false⟩ = (res, w) := by
    rw [openRecords, TlsEngine.processRecordsInPlace, if_pos hup]
    exact hloop
  rcases drainTls_of_openRecords hopen with
    ⟨n, s', host', hdrain, hdead, hphase, htls, hcodec, hmetrics, -⟩ |
    ⟨consumed, rfl, hnot, hdrain⟩
  · rw [hdrain, hmetrics] at hquiet
    refine ⟨n, s', host', opened, hdrain, by rw [htls]; exact hsplit,
      hphase.trans haccounts.line.hsPhase, ?_, hlen, .inl hdead⟩
    rw [hcodec]
    refine (haccounts.shown (Bool.not_eq_true _ ▸ fun hset => ?_)).1
    -- An error of the codec would have been counted.
    exact absurd (haccounts.counted hset) (by omega)
  · obtain ⟨hshown, hrest, -⟩ := haccounts.shown hnot
    refine ⟨w.delivered, _, w.host, opened, hdrain, hsplit, haccounts.line.hsPhase, hshown, hlen,
      .inr ⟨⟨{ hrx with }, { haccounts.line with }, hup', hrest⟩, ?_⟩⟩
    rw [content_consume, hreasm, length_drop, hok consumed rfl]
    omega

/-- **The drain over TLS, on the peer's bytes.** Every record that is all there is opened,
and the part of the next one stays. -/
theorem drainTls_complete {more : Bytes} (hframed : ∀ r ∈ sealedRest s.tls, r.Framed)
    (hcontent : s.reasm.content ++ more = recordBytes (sealedRest s.tls)) :
    ∃ n s' host' opened, s.drainTls eng (recording codec) host clk = (n, s', host') ∧
      sealedRest s.tls = opened ++ sealedRest s'.tls ∧
      s'.codec.presented = s.codec.presented ++ recordData opened ∧
      Drained eng s s' host host' ∧ s.reasm.content = recordBytes opened ++ s'.reasm.content ∧
      PartOfNext s'.reasm.content (sealedRest s'.tls) := by
  obtain ⟨w, opened, tail, hopen, haccounts, hrx, hreasm, hup', hsplit, hbytes, hpart⟩ :=
    openRecords_complete hideal clk (P := Accounts s host)
      (fun w tls acc h => ⟨{ h.line with }, h.shown, h.counted⟩)
      (fun w p acc h => h.onRecord codec clk p) host s.codec.presented
      ⟨.refl s host, fun _ => ⟨rfl, haccount, rfl⟩, nofun⟩ hup hframed hcontent
  rcases drainTls_of_openRecords hopen with
    ⟨n, s', host', hdrain, -, -, -, -, hmetrics, hlatch | ⟨e, herr⟩⟩ |
    ⟨consumed, hok, hnot, hdrain⟩
  · rw [hdrain, hmetrics] at hquiet
    exact absurd (haccounts.counted hlatch) (by omega)
  · cases herr
  · cases hok
    obtain ⟨hshown, hrest, -⟩ := haccounts.shown hnot
    have hleft : (w.stream.reasm.consume (recordBytes opened).length).content = tail := by
      rw [content_consume, hreasm, hbytes, drop_left]
    refine ⟨w.delivered, _, w.host, opened, hdrain, hsplit, hshown,
      ⟨{ hrx with }, { haccounts.line with }, hup', hrest⟩, ?_, ?_⟩
    · rwa [hleft]
    · rwa [hleft]

end Drain

/-! ## One event of the data phase -/

section Receive

/-- The receive callback has run full: the latch is set, and a RST is due. -/
def RxSink.Full (u : RxSink) : Prop :=
  u.overflowed = true ∧ u.rst.isSome = true

/-- The receive callback has not run full: the buffer holds `base` and the received bytes `d`. -/
def RxSink.Holds (base : Bytes) (cap : Nat) (u : RxSink) (d : Bytes) : Prop :=
  u.overflowed = false ∧ u.rst = none ∧ u.reasm.content = base ++ d ∧ u.reasm.capacity = cap

/-- The receive callback takes what there is room for, or runs full. -/
theorem receive_spec {base acc : Bytes} {cap : Nat} {u : RxSink} (h : u.Holds base cap acc)
    (s : TcpSession slots) (d : Bytes) :
    if base.length + (acc.length + d.length) ≤ cap then
      ∃ u', receive u s d = (u', s) ∧ u'.Holds base cap (acc ++ d)
    else (receive u s d).1.Full := by
  obtain ⟨hopen, hrst, hcontent, hcap⟩ := h
  have hspec := append_spec u.reasm d
  rw [hcontent, hcap, length_append, Nat.add_assoc] at hspec
  have hnot : ¬ u.overflowed = true := by simp [hopen]
  by_cases hfits : base.length + (acc.length + d.length) ≤ cap
  · rw [if_pos hfits] at hspec ⊢
    obtain ⟨reasm, happend, hcontent', hcap'⟩ := hspec
    rw [receive, if_neg hnot, happend]
    exact ⟨_, rfl, hopen, hrst, hcontent'.trans (append_assoc ..), hcap'⟩
  · rw [if_neg hfits] at hspec ⊢
    rw [receive, if_neg hnot, hspec]
    exact ⟨rfl, rfl⟩

theorem receive_absorbs (base : Bytes) (cap : Nat) :
    Absorbs (receive : DataCallback slots RxSink) (fun n => base.length + n ≤ cap)
      fun u f d => f = [] ∧ u.Holds base cap d := by
  constructor
  · rintro u s d acc ⟨-, h⟩ hle
    obtain ⟨u', hone, -⟩ := if_pos hle ▸ receive_spec h s d
    rw [hone]
    exact SameReceive.refl s
  · rintro u s d acc ⟨hfeed, h⟩ hle
    obtain ⟨u', hone, h'⟩ := if_pos hle ▸ receive_spec h s d
    rw [hone]
    exact ⟨hfeed, h'⟩

theorem receive_full_kept (u : RxSink) (s : TcpSession slots) (d : Bytes) (h : u.Full) :
    (receive u s d).1.Full := by
  rw [receive, if_pos h.1]
  exact h

theorem receive_runs_full {base : Bytes} {cap total : Nat} (u : RxSink) (s : TcpSession slots)
    (d acc : Bytes) (h : s.rxFeed = [] ∧ u.Holds base cap acc) (_ : acc.length + d.length ≤ total)
    (hnot : ¬ base.length + (acc.length + d.length) ≤ cap) : (receive u s d).1.Full := by
  have hspec := receive_spec h.2 s d
  rwa [if_neg hnot] at hspec

variable (eng : TlsEngine slots τ) (codec : StreamCodec γ) (s : DpdkTcpStream slots γ τ)
  (host : Host) (clk : Clock)

/-- An overflow is counted and latched. -/
theorem applyRx_full {u : RxSink} (h : u.Full) (sess : TcpSession slots) (host : Host) :
    (s.applyRx u sess host).1.reasmOverflowed = true ∧
      (s.applyRx u sess host).1.metrics.reasmOverflows = s.metrics.reasmOverflows + 1 := by
  obtain ⟨seg, hseg⟩ := Option.isSome_iff_exists.mp h.2
  unfold applyRx
  rw [hseg]
  exact ⟨h.1, rfl⟩

theorem handleRxSessionError_overflows :
    (s.handleRxSessionError host).1.metrics.reasmOverflows = s.metrics.reasmOverflows := by
  unfold handleRxSessionError
  split <;> rfl

theorem pollData_full (h : (s.sess.pollRx host clk receive s.rxSink).user.Full) :
    (s.pollData eng codec host clk).2.1.metrics.reasmOverflows =
      s.metrics.reasmOverflows + 1 := by
  have hfull := s.applyRx_full h
  unfold pollData
  dsimp only
  split
  · exact (handleRxSessionError_overflows ..).trans (hfull _ _).2
  · rw [if_pos (hfull _ _).1]
    exact (hfull _ _).2

theorem burstData_full {mbufs : List Mbuf}
    (h : (s.sess.processRx receive clk s.rxSink mbufs).user.Full) :
    (s.burstData eng codec host clk mbufs).1.metrics.reasmOverflows =
      s.metrics.reasmOverflows + 1 := by
  have hfull := s.applyRx_full h
  unfold burstData
  dsimp only
  split
  · exact (handleRxSessionError_overflows ..).trans (hfull _ _).2
  · rw [if_pos (hfull _ _).1]
    exact (hfull _ _).2

/-- Without an overflow the callback's work is taken over as it is. -/
theorem applyRx_open {u : RxSink} (hrst : u.rst = none) (sess : TcpSession slots) :
    s.applyRx u sess host = ({ s with
      reasm := u.reasm
      reasmOverflowed := u.overflowed
      metrics := { s.metrics with bytesRecv := s.metrics.bytesRecv + u.bytesRecv }
      sess := sess }, host) := by
  unfold applyRx
  rw [hrst]

end Receive

end DpdkTcpStream

/-- The stream has received `got`, and the codec runs next. -/
structure Fed (t : ConnectionTuple) (seq : UInt32) (w : StreamWorld slots γ τ)
    (s : DpdkTcpStream slots γ τ) (host : Host) (got : Bytes) : Prop extends
    Received w.stream s got where
  took : Took t seq w.host s.sess host got
  feed : s.sess.rxFeed = []
  hsPhase : s.hsPhase = w.stream.hsPhase
  strictRxCksum : s.strictRxCksum = w.stream.strictRxCksum
  codecErrors : s.metrics.codecErrors = w.stream.metrics.codecErrors

/-- A stream in its data phase that takes what its peer sends. -/
structure Open (t : ConnectionTuple) (seq : UInt32) (w : StreamWorld slots γ τ) : Prop where
  phase : w.stream.hsPhase = .established
  ready : Ready t seq w.stream.sess
  feed : w.stream.sess.rxFeed = []
  unlatched : w.stream.reasmOverflowed = false
  sound : w.stream.tlsCorrupt = false
  clean : ∀ m ∈ w.host.rx.flatten, Clean w.stream.strictRxCksum m

/-- A stream over TLS in its data phase, in order. -/
structure Live (eng : TlsEngine slots τ) (t : ConnectionTuple) (seq : UInt32)
    (w : StreamWorld slots (Recorded γ) τ) : Prop extends Open t seq w where
  callback : w.stream.onMessage = true
  tls : w.stream.cfg.enableTls = true
  up : eng.isEstablished w.stream.tls = true
  account : w.stream.codec.rest = w.stream.tlsCodecPending

/-- An event is about to drain the stream `z`: of what was to come it has received `got`, and a
drain that goes well leaves it in order, with `later` still to come. -/
structure Fetched (eng : TlsEngine slots τ) (t : ConnectionTuple)
    (w : StreamWorld slots (Recorded γ) τ) (z : DpdkTcpStream slots (Recorded γ) τ) (host : Host)
    (got later : Bytes) : Prop where
  content : z.reasm.content = w.stream.reasm.content ++ got
  tls : z.tls = w.stream.tls
  codec : z.codec = w.stream.codec
  phase : z.hsPhase = .established
  up : eng.isEstablished z.tls = true
  account : z.codec.rest = z.tlsCodecPending
  codecErrors : z.metrics.codecErrors = w.stream.metrics.codecErrors
  lives : ∀ s' host', DpdkTcpStream.Drained eng z s' host host' → s'.tlsCorrupt = false →
    ∃ seq, Live eng t seq ⟨s', host'⟩ ∧ carried t seq host'.rx.flatten = some later

variable {eng : TlsEngine slots τ} {sealedRest : τ → List Record} {t : ConnectionTuple}
  {seq : UInt32} {left : Bytes} {rest : List Record}

section Event

variable {w : StreamWorld slots γ τ} (codec : StreamCodec γ)

variable (eng t seq w) in
/-- The event feeds the stream, and then the codec runs. -/
def Feeds (ev : StreamEvent) : Prop :=
  ∃ s host clk got, Fed t seq w s host got ∧ ev.apply eng codec w =
    ⟨(s.drainCodec eng codec host clk).2.1, (s.drainCodec eng codec host clk).2.2⟩

variable (h : Open t seq w)

include h

/-- What the callback starts from. -/
theorem Open.rxSink : w.stream.rxSink.Holds w.stream.reasm.content w.stream.reasm.capacity [] :=
  ⟨h.unlatched, rfl, (append_nil _).symm, rfl⟩

/-- What the callback has left makes up a stream that was fed. -/
theorem Open.fed {sess sess' : TcpSession slots} {host host' : Host} {got : Bytes}
    {u : DpdkTcpStream.RxSink} (hopen : u.overflowed = false)
    (hcontent : u.reasm.content = w.stream.reasm.content ++ got)
    (htook : Took t seq w.host sess host got) (hfeed : sess.rxFeed = [])
    (hsame : SameInput sess sess') (hrx : host'.rx = host.rx) :
    Fed t seq w { w.stream with
      reasm := u.reasm
      reasmOverflowed := u.overflowed
      metrics := { w.stream.metrics with
        bytesRecv := w.stream.metrics.bytesRecv + u.bytesRecv }
      sess := sess' } host' got :=
  ⟨⟨⟨rfl, hopen.trans h.unlatched.symm, rfl⟩, rfl, rfl, rfl, rfl, hcontent⟩,
    htook.of_same hsame.toSameReceive hrx, hsame.rxFeed.trans hfeed, rfl, rfl, rfl⟩

/-- The poller hands over a burst.  `process_burst_` does with the payloads that its session passes
on what `takeBurst` does with the payloads of a burst (`takeBurst_of_fits`). -/
theorem Open.deliver (clk : Clock) {m : Mbuf} {burst : List Mbuf}
    {bursts : List (List Mbuf)} (hrx : w.host.rx = (m :: burst) :: bursts) {got : Bytes}
    (hgot : carried t seq (m :: burst) = some got)
    (hquiet : (StreamEvent.apply eng codec w (.deliver clk)).stream.metrics.reasmOverflows =
      w.stream.metrics.reasmOverflows) : Feeds eng t seq w codec (.deliver clk) := by
  have hclean : ∀ m' ∈ m :: burst, Clean w.stream.strictRxCksum m' := fun m' hm' =>
    h.clean m' (by rw [hrx, flatten_cons]; exact mem_append_left _ hm')
  have hburst : w.stream.processBurst eng codec { w.host with rx := bursts } clk (m :: burst) =
      (w.stream.stampBurst clk).burstData eng codec { w.host with rx := bursts } clk
        (m :: burst) := by
    simp only [processBurst, checksumGate_clean w.stream hclean, h.sound, handshaking, h.phase,
      h.unlatched, h.ready.state, Bool.and_false, Bool.false_eq_true, if_false, ne_eq,
      not_true_eq_false, decide_false, Bool.or_false]
  simp only [Feeds, StreamEvent.apply, hrx, hburst] at hquiet ⊢
  have hstamped : Ready t seq (w.stream.stampBurst clk).sess := h.ready.of_same ⟨rfl, rfl, rfl, rfl⟩
  rcases processRx_ready_or_full (receive_absorbs w.stream.reasm.content _)
    receive_full_kept receive_runs_full clk
    w.stream.rxSink [] hstamped ⟨h.feed, h.rxSink⟩ (length_content_le _) hgot
    (Nat.le_refl _) with hfull | ⟨⟨n, hok⟩, hready, ⟨hfeed, hopen, hrst, hcontent, -⟩⟩
  · have hcount := (w.stream.stampBurst clk).burstData_full eng codec { w.host with rx := bursts }
      clk hfull
    exact absurd (hcount.symm.trans hquiet) (Nat.succ_ne_self _)
  · obtain ⟨hflush, hrx'⟩ := TcpSession.flushPendingAck_same
      ((w.stream.stampBurst clk).sess.processRx receive clk w.stream.rxSink
        (m :: burst)).sess { w.host with rx := bursts } clk
    refine ⟨_, _, clk, got, h.fed hopen hcontent
      ⟨⟨m :: burst, by rw [hrx, flatten_cons], hgot⟩, hready⟩ hfeed hflush hrx', ?_⟩
    have hsink : (w.stream.stampBurst clk).rxSink = w.stream.rxSink := rfl
    unfold burstData
    rw [hsink]
    dsimp only
    rw [hok, applyRx_open _ _ hrst, if_neg (by simp [hopen])]
    rfl

variable (hleft : carried t seq w.host.rx.flatten = some left)

include hleft

/-- The stream polls for itself. -/
theorem Open.poll (clk : Clock)
    (hquiet : (StreamEvent.apply eng codec w (.poll clk)).stream.metrics.reasmOverflows =
      w.stream.metrics.reasmOverflows) : Feeds eng t seq w codec (.poll clk) := by
  have hpoll : w.stream.pollOnce eng codec w.host clk =
      w.stream.pollData eng codec w.host clk := by
    rw [pollOnce, if_neg (by simp [handshaking, h.phase]),
      if_neg (not_not_intro h.ready.state), if_neg (by simp [h.unlatched]),
      if_neg (by simp [h.sound])]
  rw [StreamEvent.apply, hpoll] at hquiet
  rcases pollRx_ready_or_full (receive_absorbs w.stream.reasm.content _)
    receive_full_kept receive_runs_full clk
    w.stream.rxSink [] h.ready h.feed ⟨rfl, h.rxSink⟩ (length_content_le _) hleft
    (Nat.le_refl _) (fun _ _ _ hP => hP.1) with
    hfull | ⟨got, ⟨n, hok⟩, htook, ⟨-, hopen, hrst, hcontent, -⟩, hfeed⟩
  · have := w.stream.pollData_full eng codec w.host clk hfull
    dsimp only at hquiet
    omega
  · refine ⟨_, _, clk, got, h.fed hopen hcontent htook hfeed (SameInput.refl _) rfl, ?_⟩
    rw [StreamEvent.apply, hpoll]
    unfold pollData
    dsimp only
    rw [hok, applyRx_open w.stream _ hrst, if_neg (by simp [hopen])]

/-- **An event of the data phase**: there is nothing to do, or the stream is fed. -/
theorem Open.apply (ev : StreamEvent)
    (hquiet : (ev.apply eng codec w).stream.metrics.reasmOverflows =
      w.stream.metrics.reasmOverflows) :
    (∃ host, host.rx.flatten = w.host.rx.flatten ∧ ev.apply eng codec w = ⟨w.stream, host⟩) ∨
    Feeds eng t seq w codec ev := by
  cases ev with
  | poll clk => exact .inr (h.poll codec hleft clk hquiet)
  | deliver clk =>
    cases hrx : w.host.rx with
    | nil =>
      refine .inl ⟨w.host, by rw [hrx], ?_⟩
      simp only [StreamEvent.apply, hrx]
    | cons burst bursts =>
      cases burst with
      | nil =>
        refine .inl ⟨{ w.host with rx := bursts }, rfl, ?_⟩
        simp only [StreamEvent.apply, hrx, processBurst, checksumGate]
      | cons m burst =>
        rw [hrx, flatten_cons] at hleft
        obtain ⟨got, later, hgot, -, -⟩ := carried_append hleft
        exact .inr (h.deliver codec clk hrx hgot hquiet)

end Event

variable {w : StreamWorld slots (Recorded γ) τ}

section Records

variable (h : Live eng t seq w) (hleft : carried t seq w.host.rx.flatten = some left)

include h hleft

/-- A stream that was fed drains its records, and lives on if the drain goes well. -/
theorem Fed.fetched {s : DpdkTcpStream slots (Recorded γ) τ} {host : Host} {got : Bytes}
    (hfed : Fed t seq w s host got) :
    ∃ later, left = got ++ later ∧
      Fetched eng t w { s with reasm := s.reasm.compact } host got later := by
  obtain ⟨later, hlater, hsplit⟩ := hfed.took.remaining hleft
  refine ⟨later, hsplit, (content_compact _).trans hfed.content, hfed.tls, hfed.codec,
    hfed.hsPhase.trans h.phase, ?_, ?_, hfed.codecErrors, ?_⟩
  · rw [hfed.tls]
    exact h.up
  · rw [hfed.codec, hfed.tlsCodecPending]
    exact h.account
  · intro s' host' hdrained hsound
    have htook := hfed.took.of_same hdrained.line.sess.toSameReceive hdrained.line.rx
    obtain ⟨pkts, hpkts, -⟩ := htook.taken
    refine ⟨_, ⟨⟨hdrained.line.hsPhase.trans (hfed.hsPhase.trans h.phase), htook.ready,
      hdrained.line.sess.rxFeed.trans hfed.feed, ?_, hsound, ?_⟩, ?_, ?_, hdrained.up,
      hdrained.account⟩, ?_⟩
    · exact hdrained.rx.reasmOverflowed.trans (hfed.rx.reasmOverflowed.trans h.unlatched)
    · intro m hm
      rw [hdrained.line.strictRxCksum, hfed.strictRxCksum]
      exact h.clean m (by rw [hpkts]; exact mem_append_right pkts hm)
    · exact hdrained.rx.onMessage.trans (hfed.rx.onMessage.trans h.callback)
    · rw [hdrained.rx.cfg, hfed.rx.cfg]
      exact h.tls
    · rw [hdrained.line.rx]
      exact hlater

/-- **An event of the data phase**: there is nothing to do, or the records are drained. -/
theorem Live.next (codec : StreamCodec γ) (ev : StreamEvent)
    (hroom : (ev.apply eng (recording codec) w).stream.metrics.reasmOverflows =
      w.stream.metrics.reasmOverflows) :
    (∃ host, ev.apply eng (recording codec) w = ⟨w.stream, host⟩ ∧
      Live eng t seq ⟨w.stream, host⟩ ∧ carried t seq host.rx.flatten = some left) ∨
    ∃ z host clk got later, left = got ++ later ∧ Fetched eng t w z host got later ∧
      ev.apply eng (recording codec) w =
        ⟨(z.drainTls eng (recording codec) host clk).2.1,
          (z.drainTls eng (recording codec) host clk).2.2⟩ := by
  rcases h.toOpen.apply (recording codec) hleft ev hroom with
    ⟨host, hrx, happly⟩ | ⟨s, host, clk, got, hfed, happly⟩
  · refine .inl ⟨host, happly, ?_, hrx.symm ▸ hleft⟩
    exact { h with clean := hrx.symm ▸ h.clean }
  · obtain ⟨later, hsplit, hfetched⟩ := hfed.fetched h hleft
    rw [drainCodec_eq s host clk (hfed.rx.onMessage.trans h.callback)
      fun _ => hfetched.up, if_pos (by rw [hfed.rx.cfg]; exact h.tls)] at happly
    exact .inr ⟨_, host, clk, got, later, hsplit, hfetched, happly⟩

end Records

/-! ## Runs of the data phase -/

/-- A stream in its data phase that reads nothing any more. -/
def Dead (s : DpdkTcpStream slots γ τ) : Prop :=
  s.hsPhase = .established ∧ (s.sess.state ≠ .established ∨ s.reasmOverflowed = true)

/-- No event of the run overflows the reassembly buffer, makes the codec report an error, or
desyncs the sending direction of TLS. -/
def Undisturbed (eng : TlsEngine slots τ) (codec : StreamCodec γ) :
    StreamWorld slots γ τ → List StreamEvent → Prop
  | _, [] => True
  | w, ev :: evs =>
    (ev.apply eng codec w).stream.metrics.reasmOverflows = w.stream.metrics.reasmOverflows ∧
      (ev.apply eng codec w).stream.metrics.codecErrors = w.stream.metrics.codecErrors ∧
      (ev.apply eng codec w).stream.tlsCorrupt = false ∧
      Undisturbed eng codec (ev.apply eng codec w) evs

variable {codec : StreamCodec γ} {ev : StreamEvent} {evs : List StreamEvent}

/-- **The rule of such runs**: what every event keeps, the run keeps. -/
theorem Undisturbed.run {P : StreamWorld slots γ τ → Prop}
    (hstep : ∀ w ev evs, P w → Undisturbed eng codec w (ev :: evs) → P (ev.apply eng codec w))
    {w : StreamWorld slots γ τ} (h : Undisturbed eng codec w evs) (hP : P w) :
    P (w.run eng codec evs) := by
  induction evs generalizing w with
  | nil => exact hP
  | cons ev evs ih => exact ih h.2.2.2 (hstep w ev evs hP h)

/-- The checksum gate only counts. -/
theorem checksumGate_counts (s : DpdkTcpStream slots γ τ) (mbufs : List Mbuf) :
    ∃ metrics, (s.checksumGate mbufs).1 = { s with metrics := metrics } := by
  induction mbufs generalizing s with
  | nil => exact ⟨s.metrics, rfl⟩
  | cons m rest ih =>
    rw [checksumGate]
    split
    · exact ih { s with metrics := _ }
    · exact ih s

variable (eng codec ev) in
/-- Events do nothing to a dead stream. -/
theorem Dead.apply {w : StreamWorld slots γ τ} (h : Dead w.stream) :
    Dead (ev.apply eng codec w).stream ∧ (ev.apply eng codec w).stream.tls = w.stream.tls ∧
      (ev.apply eng codec w).stream.codec = w.stream.codec := by
  obtain ⟨hphase, hstop⟩ := h
  cases ev with
  | poll clk =>
    have hpoll : w.stream.pollOnce eng codec w.host clk = (0, w.stream, w.host) := by
      rw [pollOnce, if_neg (by simp [handshaking, hphase])]
      rcases hstop with hstate | hlatch
      · rw [if_pos hstate]
      · rw [if_pos hlatch, ite_self]
    rw [StreamEvent.apply, hpoll]
    exact ⟨⟨hphase, hstop⟩, rfl, rfl⟩
  | deliver clk =>
    cases hrx : w.host.rx with
    | nil =>
      simp only [StreamEvent.apply, hrx]
      exact ⟨⟨hphase, hstop⟩, trivial, trivial⟩
    | cons burst bursts =>
      obtain ⟨metrics, hgate⟩ := checksumGate_counts w.stream burst
      simp only [StreamEvent.apply, hrx, processBurst]
      generalize w.stream.checksumGate burst = gated at hgate
      obtain ⟨s, kept⟩ := gated
      obtain rfl : s = _ := hgate
      cases kept with
      | nil => exact ⟨⟨hphase, hstop⟩, rfl, rfl⟩
      | cons m kept =>
        have hskip : (decide (w.stream.sess.state ≠ .established) || w.stream.reasmOverflowed) =
            true := by simpa using hstop
        simp only [handshaking, hphase, hskip, Bool.false_eq_true, if_false, if_true, ite_self]
        exact ⟨⟨rfl, hstop⟩, trivial, trivial⟩

/-- The codec was shown the data of the records `shown`, and the stream may draw on so many
bytes in all to open records: it is dead, or what it holds and is still to come is within
that budget. -/
def Draws (eng : TlsEngine slots τ) (sealedRest : τ → List Record) (t : ConnectionTuple)
    (rest : List Record) (budget : Nat) (w : StreamWorld slots (Recorded γ) τ) : Prop :=
  ∃ shown, rest = shown ++ sealedRest w.stream.tls ∧
    w.stream.codec.presented = recordData shown ∧ (recordBytes shown).length ≤ budget ∧
    (Dead w.stream ∨ ∃ seq left, Live eng t seq w ∧
      carried t seq w.host.rx.flatten = some left ∧
      (recordBytes shown).length + w.stream.reasm.content.length + left.length ≤ budget)

theorem Draws.apply (hideal : IdealTls eng sealedRest) {budget : Nat}
    (h : Draws eng sealedRest t rest budget w)
    (hcalm : Undisturbed eng (recording codec) w (ev :: evs)) :
    Draws eng sealedRest t rest budget (ev.apply eng (recording codec) w) := by
  obtain ⟨hroom, hquiet, hsound, -⟩ := hcalm
  obtain ⟨shown, hrest, hpresented, hbudget, hdead | ⟨seq, left, hlive, hleft, hsum⟩⟩ := h
  · obtain ⟨hdead', htls, hcodec⟩ := hdead.apply eng (recording codec) ev
    refine ⟨shown, ?_, ?_, hbudget, .inl hdead'⟩
    · rwa [htls]
    · rwa [hcodec]
  · rcases hlive.next hleft codec ev hroom with
      ⟨host, happly, hlive', hleft'⟩ | ⟨z, host, clk, got, later, rfl, hz, happly⟩
    · rw [happly]
      exact ⟨shown, hrest, hpresented, hbudget, .inr ⟨seq, left, hlive', hleft', hsum⟩⟩
    rw [happly] at hquiet hsound ⊢
    obtain ⟨n, s', host', opened, hres, hopened, hphase, hshown, hlen, hend⟩ :=
      drainTls_authentic codec clk hideal z host hz.up hz.account
        (hquiet.trans hz.codecErrors.symm)
    rw [hres] at hsound ⊢
    rw [hz.tls] at hopened
    rw [hz.codec] at hshown
    rw [hz.content, length_append] at hlen hend
    rw [length_append] at hsum
    have hbytes : (recordBytes (shown ++ opened)).length =
        (recordBytes shown).length + (recordBytes opened).length := by
      rw [recordBytes_append, length_append]
    refine ⟨shown ++ opened, ?_, ?_, by omega, ?_⟩
    · rw [hrest, hopened, append_assoc]
    · rw [hshown, hpresented, recordData_append]
    rcases hend with hdead | ⟨hdrained, hkept⟩
    · exact .inl ⟨hphase.trans hz.phase, .inr hdead⟩
    · obtain ⟨seq', hlive', hlater⟩ := hz.lives s' host' hdrained hsound
      exact .inr ⟨seq', later, hlive', hlater, by dsimp only; omega⟩

/-- The stream follows the peer's records: what it holds and is still to come are the
records that were not opened, and the codec was shown the data of the others. -/
def Follows (eng : TlsEngine slots τ) (sealedRest : τ → List Record) (t : ConnectionTuple)
    (rest : List Record) (w : StreamWorld slots (Recorded γ) τ) : Prop :=
  ∃ shown seq left, rest = shown ++ sealedRest w.stream.tls ∧
    w.stream.codec.presented = recordData shown ∧ Live eng t seq w ∧
    carried t seq w.host.rx.flatten = some left ∧
    w.stream.reasm.content ++ left = recordBytes (sealedRest w.stream.tls) ∧
    PartOfNext w.stream.reasm.content (sealedRest w.stream.tls)

theorem Follows.apply (hideal : IdealTls eng sealedRest) (hframed : ∀ r ∈ rest, r.Framed)
    (h : Follows eng sealedRest t rest w)
    (hcalm : Undisturbed eng (recording codec) w (ev :: evs)) :
    Follows eng sealedRest t rest (ev.apply eng (recording codec) w) := by
  obtain ⟨hroom, hquiet, hsound, -⟩ := hcalm
  obtain ⟨shown, seq, left, hrest, hpresented, hlive, hleft, hbytes, hpart⟩ := h
  rcases hlive.next hleft codec ev hroom with
    ⟨host, happly, hlive', hleft'⟩ | ⟨z, host, clk, got, later, rfl, hz, happly⟩
  · rw [happly]
    exact ⟨shown, seq, left, hrest, hpresented, hlive', hleft', hbytes, hpart⟩
  rw [happly] at hquiet hsound ⊢
  have hcontent : z.reasm.content ++ later = recordBytes (sealedRest z.tls) := by
    rw [hz.content, hz.tls, append_assoc, hbytes]
  obtain ⟨n, s', host', opened, hres, hopened, hshown, hdrained, hsum, hpart'⟩ :=
    drainTls_complete codec clk hideal z host hz.up hz.account
      (hquiet.trans hz.codecErrors.symm)
      (fun r hr => hframed r (by rw [hrest, ← hz.tls]; exact mem_append_right _ hr)) hcontent
  rw [hres] at hsound ⊢
  obtain ⟨seq', hlive', hlater⟩ := hz.lives s' host' hdrained hsound
  rw [hsum, hopened, recordBytes_append, append_assoc] at hcontent
  rw [hz.tls] at hopened
  rw [hz.codec] at hshown
  refine ⟨shown ++ opened, seq', later, ?_, ?_, hlive', hlater, append_cancel_left hcontent, hpart'⟩
  · rw [hrest, hopened, append_assoc]
  · rw [hshown, hpresented, recordData_append]

/-- Nothing is left to be read: all packets were taken, or the session is closed. -/
def Settled (w : StreamWorld slots γ τ) : Prop :=
  w.host.rx.flatten = [] ∨ w.stream.sess.state ≠ .established

/-- A stream that has followed the peer to the end has shown the codec everything. -/
theorem Follows.settled (h : Follows eng sealedRest t rest w) (hsettled : Settled w) :
    w.stream.codec.presented = recordData rest := by
  obtain ⟨shown, seq, left, hrest, hpresented, hlive, hleft, hbytes, hpart⟩ := h
  rcases hsettled with hnone | hclosed
  · rw [hnone] at hleft
    obtain rfl : [] = left := Option.some.inj hleft
    rw [append_nil] at hbytes
    have hopened : sealedRest w.stream.tls = [] := by
      cases hnext : sealedRest w.stream.tls with
      | nil => rfl
      | cons r rs =>
        have hlen := hpart r rs hnext
        rw [hbytes, hnext, recordBytes_cons, length_append] at hlen
        omega
    rw [hpresented, hrest, hopened, append_nil]
  · exact absurd hlive.ready.state hclosed

end Eph.Net.Dpdk
