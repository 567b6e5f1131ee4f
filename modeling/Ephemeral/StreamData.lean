import Ephemeral.IncrementalCodec
import Ephemeral.StreamRun
import Ephemeral.StreamSend

/-!
# The data path of a stream, in pieces

In the data phase a burst goes two ways.  Its payload is appended to the reassembly buffer
by the receive callback, and then `drain_codec_` feeds the buffer to the codec: directly in
plaintext, record by record over TLS.  In plaintext the undecoded rest stays in the buffer;
over TLS the buffer keeps the part of a record that has not come in full, and the rest of
the plaintext waits in `tls_codec_pending_`.

Both ways the codec, and what was handed to the application, stand where decoding all the
plaintext at once would have put them, provided the codec can be fed in pieces
(`drain_segmentation_invariant`).  The codec's automatic responses go out in between; they
touch nothing of the receive side (`send_frame`).
-/

namespace Eph.Net.Dpdk

open ByteOrder Core Eph.Dpdk List ReasmBuffer DpdkTcpStream DrainState

variable {slots : Nat} {γ τ : Type}

/-- What a send leaves alone. -/
structure SendFrame (eng : TlsEngine slots τ) (s s' : DpdkTcpStream slots γ τ) : Prop where
  cfg : s'.cfg = s.cfg
  codec : s'.codec = s.codec
  tlsCodecPending : s'.tlsCodecPending = s.tlsCodecPending
  reasm : s'.reasm = s.reasm
  reasmOverflowed : s'.reasmOverflowed = s.reasmOverflowed
  onMessage : s'.onMessage = s.onMessage
  messages : s'.messages = s.messages
  tls : s'.tls = s.tls ∨ ∃ data, s'.tls = (eng.encryptForSend s.tls data).2

namespace DpdkTcpStream

/-- **A send and the receive side.** A send changes the session, the counters, the latch
and the write half of the TLS state, and nothing else. -/
theorem send_frame (eng : TlsEngine slots τ) (s : DpdkTcpStream slots γ τ) (host : Host)
    (clk : Clock) (payload : Bytes) : SendFrame eng s (s.send eng host clk payload).2.1 := by
  obtain ⟨-, -, ⟨sess, tls, corrupt, metrics, hsent, -, -, htls, -⟩, -⟩ :=
    s.send_spec eng host clk payload
  rw [hsent]
  exact ⟨rfl, rfl, rfl, rfl, rfl, rfl, rfl, htls⟩

end DpdkTcpStream

/-! ## The drain loops -/

/-- The receive side's own settings, which nothing in the data path changes. -/
structure SameRx (s s' : DpdkTcpStream slots γ τ) : Prop where
  cfg : s'.cfg = s.cfg
  reasmOverflowed : s'.reasmOverflowed = s.reasmOverflowed
  onMessage : s'.onMessage = s.onMessage

theorem SameRx.trans {s s' s'' : DpdkTcpStream slots γ τ} (h : SameRx s s')
    (h' : SameRx s' s'') : SameRx s s'' :=
  ⟨h'.cfg.trans h.cfg, h'.reasmOverflowed.trans h.reasmOverflowed,
    h'.onMessage.trans h.onMessage⟩

namespace DpdkTcpStream

namespace DrainState

variable (eng : TlsEngine slots τ) (codec : StreamCodec γ) (clk : Clock)

/-- One call of the codec in a drain loop: the codec moves, and a response may be sent. -/
structure Called (w w' : DrainState slots γ τ) (view : Bytes) : Prop where
  rx : SameRx w.stream w'.stream
  codec : w'.stream.codec = (codec.step w.stream.codec view).codec
  reasm : w'.stream.reasm = w.stream.reasm
  messages : w'.stream.messages = w.stream.messages
  tls : w'.stream.tls = w.stream.tls ∨
    ∃ data, w'.stream.tls = (eng.encryptForSend w.stream.tls data).2
  latched : w'.codecErrLatched = w.codecErrLatched

theorem decode_called (w : DrainState slots γ τ) (view : Bytes) :
    Called eng codec w (w.decode eng codec clk view).1 view ∧
      (w.decode eng codec clk view).2 =
        ((codec.step w.stream.codec view).consumed, (codec.step w.stream.codec view).result) := by
  unfold decode
  dsimp only
  split
  · exact ⟨⟨⟨rfl, rfl, rfl⟩, rfl, rfl, rfl, .inl rfl, rfl⟩, rfl⟩
  have h := send_frame eng
    { w.stream with codec := (codec.step w.stream.codec view).codec } w.host clk
    (codec.step w.stream.codec view).out.bytes
  exact ⟨⟨{ h with }, h.codec, h.reasm, h.messages, h.tls, rfl⟩, rfl⟩

theorem tlsDrain_drives :
    Drives (tlsDrainOps eng codec clk) codec (fun w => w.stream.codec)
      (fun w => w.stream.messages) where
  decode := fun w view => (decode_called eng codec clk w view).2
  decode_codec := fun w view => (decode_called eng codec clk w view).1.codec
  decode_messages := fun w view => (decode_called eng codec clk w view).1.messages
  consume_codec := fun _ _ => rfl
  consume_messages := fun _ _ => rfl
  deliver_codec := fun _ _ => rfl
  deliver_messages := fun _ _ => rfl

theorem plainDrain_drives :
    Drives (plainDrainOps eng codec clk) codec (fun w => w.stream.codec)
      (fun w => w.stream.messages) :=
  { tlsDrain_drives eng codec clk with
    consume_codec := fun _ _ => rfl
    consume_messages := fun _ _ => rfl }

end DrainState

end DpdkTcpStream

/-- The codec, and what was handed on, stand where decoding `seen` from the state `c₀` puts
them; `pending` is not decoded yet. -/
def Decoding (codec : StreamCodec γ) (c₀ : γ) (m₀ : List Bytes) (seen pending : Bytes)
    (s : DpdkTcpStream slots γ τ) : Prop :=
  ∃ frames, Decodes codec c₀ seen frames s.codec pending ∧ s.messages = m₀ ++ handedOn frames

theorem Decoding.congr {codec : StreamCodec γ} {c₀ : γ} {m₀ : List Bytes} {seen pending : Bytes}
    {s s' : DpdkTcpStream slots γ τ} (h : Decoding codec c₀ m₀ seen pending s)
    (hcodec : s'.codec = s.codec) (hmessages : s'.messages = s.messages) :
    Decoding codec c₀ m₀ seen pending s' := by
  obtain ⟨frames, hdecodes, hdelivered⟩ := h
  exact ⟨frames, hcodec ▸ hdecodes, hmessages.trans hdelivered⟩

namespace DpdkTcpStream

variable {eng : TlsEngine slots τ} {codec : StreamCodec γ} {c₀ c' : γ} {m₀ frames : List Bytes}
  {rest : Bytes}

/-- **`drain_codec_` in plaintext.** The buffer holds the undecoded rest of `seen` and the
bytes `new` behind it. -/
theorem drainPlain_decoding (eng : TlsEngine slots τ) (hinc : codec.Incremental)
    (s : DpdkTcpStream slots γ τ) (host : Host) (clk : Clock) {seen new later pending : Bytes}
    (hall : Decodes codec c₀ (seen ++ new ++ later) frames c' rest)
    (hseen : Decoding codec c₀ m₀ seen pending s) (hcontent : s.reasm.content = pending ++ new) :
    ∃ n s' host', s.drainPlain eng codec host clk = (n, s', host') ∧ SameRx s s' ∧
      Decoding codec c₀ m₀ (seen ++ new) s'.reasm.content s' := by
  obtain ⟨sofar, hsofar, hmessages⟩ := hseen
  obtain ⟨fresh, c₂, pending₂, hnew, hboth⟩ := hall.extend hinc hsofar
  obtain ⟨w, hloop, hcodec, hdelivered, hrx, hleft⟩ := drainFrames_decodes
    (J := fun (w : DrainState slots γ τ) view => SameRx s w.stream ∧ w.stream.reasm.content = view)
    (by
      rintro w view ⟨hrx, hview⟩
      have hcall := (decode_called eng codec clk w view).1
      exact ⟨hrx.trans hcall.rx, (congrArg _ hcall.reasm).trans hview⟩)
    (by
      rintro w n view ⟨hrx, hview⟩
      refine ⟨{ hrx with }, ?_⟩
      rw [← hview]
      exact content_consume w.stream.reasm n)
    (by
      rintro w f view ⟨hrx, hview⟩
      exact ⟨{ hrx with }, hview⟩)
    (plainDrain_drives eng codec clk) hnew s.reasm.readable ⟨s, host, 0, false⟩
    (Nat.le_of_eq (by rw [← hcontent, length_content])) rfl
    ⟨⟨rfl, rfl, rfl⟩, hcontent⟩
  refine ⟨w.delivered, w.stream, w.host, ?_, hrx, sofar ++ fresh, ?_, ?_⟩
  · rw [drainPlain, hcontent, hloop]
  · rw [hcodec, hleft]
    exact hboth
  · rw [hdelivered, hmessages, handedOn_append, append_assoc]

/-! ## Over TLS -/

section Tls

variable {sealedRest : τ → List Record}

/-- The records still to be opened are the same, and so is the buffer they come from. -/
structure SameTls (eng : TlsEngine slots τ) (sealedRest : τ → List Record)
    (s s' : DpdkTcpStream slots γ τ) : Prop where
  rx : SameRx s s'
  reasm : s'.reasm = s.reasm
  records : sealedRest s'.tls = sealedRest s.tls
  up : eng.isEstablished s'.tls = eng.isEstablished s.tls

theorem SameTls.trans {s s' s'' : DpdkTcpStream slots γ τ} (h : SameTls eng sealedRest s s')
    (h' : SameTls eng sealedRest s' s'') : SameTls eng sealedRest s s'' :=
  ⟨h.rx.trans h'.rx, h'.reasm.trans h.reasm, h'.records.trans h.records, h'.up.trans h.up⟩

/-- The loop over one record, whatever the codec does, opens no record. -/
theorem drainFrames_sameTls (codec : StreamCodec γ) (hideal : IdealTls eng sealedRest)
    (clk : Clock) (fuel : Nat) (w : DrainState slots γ τ) (view : Bytes) :
    SameTls eng sealedRest w.stream
      (drainFrames (tlsDrainOps eng codec clk) fuel w view).1.stream := by
  refine drainFrames_keeps (P := fun w' => SameTls eng sealedRest w.stream w'.stream)
    ?_ ?_ ?_ fuel w view ⟨⟨rfl, rfl, rfl⟩, rfl, rfl, rfl⟩
  · -- the responses of the codec are only sealed
    intro w' view' h
    have hcall : DrainState.Called eng codec w' ((tlsDrainOps eng codec clk).decode w' view').1
        view' := (decode_called eng codec clk w' view').1
    refine h.trans ⟨hcall.rx, hcall.reasm, ?_, ?_⟩
    · rcases hcall.tls with htls | ⟨data, htls⟩
      · rw [htls]
      · rw [htls, hideal.encrypt]
    · rcases hcall.tls with htls | ⟨data, htls⟩
      · rw [htls]
      · rw [htls, hideal.sendKeeps]
  · exact fun w' n h => h
  · intro w' frame h
    exact ⟨{ h.rx with }, h.reasm, h.records, h.up⟩

/-- What the callback for a record's plaintext counts before it looks at it. -/
def DrainState.noteCrossed (w : DrainState slots γ τ) : DrainState slots γ τ :=
  { w with stream := { w.stream with
    metrics := { w.stream.metrics with
      tlsCrossRecordFrames := w.stream.metrics.tlsCrossRecordFrames +
        if w.stream.tlsCodecPending.isEmpty then 0 else 1 } } }

variable {w : DrainState slots γ τ}

/-- The callback for a record's plaintext, as long as no error of the codec is latched. -/
theorem onRecord_eq (clk : Clock) (hlatch : w.codecErrLatched = false)
    {plaintext : Bytes} {w' : DrainState slots γ τ} {left : Bytes} {err : Option ErrorInfo} :
    drainFrames (tlsDrainOps eng codec clk) (w.stream.tlsCodecPending ++ plaintext).length
      w.noteCrossed (w.stream.tlsCodecPending ++ plaintext) = (w', left, err) →
    w.onRecord eng codec clk plaintext =
      match err with
      | none => { w' with stream := { w'.stream with tlsCodecPending := left } }
      | some _ =>
        { w'.noteCodecError with
          stream := { w'.noteCodecError.stream with tlsCodecPending := [] }
          codecErrLatched := true } := by
  intro hloop
  unfold noteCrossed at hloop
  rw [onRecord, if_neg (by simp [hlatch])]
  dsimp only at hloop ⊢
  rw [hloop]
  cases err <;> rfl

/-- The callback for a record's plaintext opens no record. -/
theorem onRecord_sameTls (codec : StreamCodec γ) (hideal : IdealTls eng sealedRest) (clk : Clock)
    (w : DrainState slots γ τ) (plaintext : Bytes) :
    SameTls eng sealedRest w.stream (w.onRecord eng codec clk plaintext).stream := by
  cases hlatch : w.codecErrLatched with
  | true =>
    rw [onRecord, if_pos hlatch]
    exact ⟨⟨rfl, rfl, rfl⟩, rfl, rfl, rfl⟩
  | false =>
    have hsame := drainFrames_sameTls codec hideal clk
      (w.stream.tlsCodecPending ++ plaintext).length w.noteCrossed
      (w.stream.tlsCodecPending ++ plaintext)
    generalize hloop : drainFrames (tlsDrainOps eng codec clk) _ w.noteCrossed _ = res at hsame
    obtain ⟨w', left, err⟩ := res
    rw [onRecord_eq clk hlatch hloop]
    cases err <;> exact ⟨{ hsame.rx with }, hsame.reasm, hsame.records, hsame.up⟩

/-- **The record loop of `drain_codec_`** on the peer's bytes: every record that is all
there is opened and handed to the callback.  `P w acc` is any account of the data `acc`
that the callback was given. -/
theorem openRecords_complete (hideal : IdealTls eng sealedRest) (clk : Clock)
    {P : DrainState slots γ τ → Bytes → Prop}
    (htls : ∀ w tls acc, P w acc → P { w with stream := { w.stream with tls := tls } } acc)
    (hrecord : ∀ w p acc, P w acc → P (w.onRecord eng codec clk p) (acc ++ p))
    {s : DpdkTcpStream slots γ τ} (host : Host) (acc : Bytes) {more : Bytes}
    (hP : P ⟨s, host, 0, false⟩ acc) (hup : eng.isEstablished s.tls = true)
    (hframed : ∀ r ∈ sealedRest s.tls, r.Framed)
    (hcontent : s.reasm.content ++ more = recordBytes (sealedRest s.tls)) :
    ∃ w opened tail, openRecords eng codec clk ⟨s, host, 0, false⟩ =
        (.ok (recordBytes opened).length, w) ∧ P w (acc ++ recordData opened) ∧
      SameRx s w.stream ∧ w.stream.reasm = s.reasm ∧ eng.isEstablished w.stream.tls = true ∧
      sealedRest s.tls = opened ++ sealedRest w.stream.tls ∧
      s.reasm.content = recordBytes opened ++ tail ∧
      PartOfNext tail (sealedRest w.stream.tls) := by
  obtain ⟨opened, tail, w, hloop, hsplit, ⟨hrx, hreasm, hup', hPw⟩, hbytes, hpart⟩ :=
    processRecords_complete
      (P := fun (w : DrainState slots γ τ) acc => SameRx s w.stream ∧ w.stream.reasm = s.reasm ∧
        eng.isEstablished w.stream.tls = true ∧ P w acc)
      (onRecord eng codec clk)
      (hideal.layer.lift (fun w : DrainState slots γ τ => w.stream.tls)
        (fun w tls => { w with stream := { w.stream with tls := tls } }) fun _ _ => rfl)
      (fun w p => (onRecord_sameTls codec hideal clk w p).records)
      (by
        rintro w bytes acc ⟨hrx, hreasm, hup, hPw⟩
        exact ⟨{ hrx with }, hreasm, (hideal.openKeeps ..).trans hup, htls w _ acc hPw⟩)
      (by
        rintro w p acc ⟨hrx, hreasm, hup, hPw⟩
        have hsame := onRecord_sameTls codec hideal clk w p
        exact ⟨hrx.trans hsame.rx, hsame.reasm.trans hreasm, hsame.up.trans hup,
          hrecord w p acc hPw⟩)
      inPlaceErrors s.reasm.content.length ⟨s, host, 0, false⟩ s.reasm.content more 0
      ⟨⟨rfl, rfl, rfl⟩, rfl, hup, hP⟩ (Nat.le_refl _) hframed hcontent
  refine ⟨w, opened, tail, ?_, hPw, hrx, hreasm, hup', hsplit, hbytes, hpart⟩
  rw [Nat.zero_add] at hloop
  rw [openRecords, TlsEngine.processRecordsInPlace, if_pos hup]
  exact hloop

/-- **One record.** Its plaintext is decoded behind what was pending. -/
theorem onRecord_decoding (hinc : codec.Incremental) (clk : Clock) {seen plaintext later : Bytes}
    (hall : Decodes codec c₀ (seen ++ plaintext ++ later) frames c' rest)
    (hlatch : w.codecErrLatched = false)
    (hseen : Decoding codec c₀ m₀ seen w.stream.tlsCodecPending w.stream) :
    (w.onRecord eng codec clk plaintext).codecErrLatched = false ∧
      Decoding codec c₀ m₀ (seen ++ plaintext)
        (w.onRecord eng codec clk plaintext).stream.tlsCodecPending
        (w.onRecord eng codec clk plaintext).stream := by
  obtain ⟨sofar, hsofar, hmessages⟩ := hseen
  obtain ⟨fresh, c₂, pending₂, hnew, hboth⟩ := hall.extend hinc hsofar
  obtain ⟨w', hloop, hcodec, hdelivered, hlatch'⟩ := drainFrames_decodes
    (J := fun (w : DrainState slots γ τ) _ => w.codecErrLatched = false)
    (fun w view h => (decode_called eng codec clk w view).1.latched.trans h)
    (fun _ _ _ h => h) (fun _ _ _ h => h) (tlsDrain_drives eng codec clk) hnew
    (w.stream.tlsCodecPending ++ plaintext).length w.noteCrossed (Nat.le_refl _) rfl hlatch
  rw [onRecord_eq clk hlatch hloop]
  refine ⟨hlatch', sofar ++ fresh, ?_, ?_⟩
  · rw [← hcodec] at hboth
    exact hboth
  · rw [handedOn_append, ← append_assoc, ← hmessages]
    exact hdelivered

/-- **`drain_codec_` over TLS.** The buffer holds the next bytes of the peer's records:
those that are complete are opened and decoded, and the part of the next one stays. -/
theorem drainTls_decoding (hinc : codec.Incremental) (hideal : IdealTls eng sealedRest)
    (s : DpdkTcpStream slots γ τ) (host : Host) (clk : Clock) {seen : Bytes} (more : Bytes)
    (hall : Decodes codec c₀ (seen ++ recordData (sealedRest s.tls)) frames c' rest)
    (hseen : Decoding codec c₀ m₀ seen s.tlsCodecPending s)
    (hup : eng.isEstablished s.tls = true) (hframed : ∀ r ∈ sealedRest s.tls, r.Framed)
    (hcontent : s.reasm.content ++ more = recordBytes (sealedRest s.tls)) :
    ∃ n s' host' opened, s.drainTls eng codec host clk = (n, s', host') ∧ SameRx s s' ∧
      eng.isEstablished s'.tls = true ∧ sealedRest s.tls = opened ++ sealedRest s'.tls ∧
      s.reasm.content = recordBytes opened ++ s'.reasm.content ∧
      PartOfNext s'.reasm.content (sealedRest s'.tls) ∧
      Decoding codec c₀ m₀ (seen ++ recordData opened) s'.tlsCodecPending s' := by
  -- The account: as long as the data so far is a part of the stream, it is all decoded.
  obtain ⟨w, opened, tail, hopen, hdone, hrx, hreasm, hup', hsplit, hbytes, hpart⟩ :=
    openRecords_complete hideal clk
      (P := fun w acc => acc <+: seen ++ recordData (sealedRest s.tls) →
        w.codecErrLatched = false ∧ Decoding codec c₀ m₀ acc w.stream.tlsCodecPending w.stream)
      (fun _ _ _ h => h)
      (by
        rintro w p acc hdone ⟨later, hlater⟩
        obtain ⟨hlatch, hacc⟩ := hdone ⟨p ++ later, by rw [← hlater, append_assoc]⟩
        rw [← hlater] at hall
        exact onRecord_decoding hinc clk hall hlatch hacc)
      host seen (fun _ => ⟨rfl, hseen⟩) hup hframed hcontent
  obtain ⟨hlatch, hdecoding⟩ := hdone ⟨recordData (sealedRest w.stream.tls), by
    rw [hsplit, recordData_append, append_assoc]⟩
  have hleft : (w.stream.reasm.consume (recordBytes opened).length).content = tail := by
    rw [content_consume, hreasm, hbytes, drop_left]
  refine ⟨w.delivered,
    { w.stream with reasm := w.stream.reasm.consume (recordBytes opened).length }, w.host, opened,
    ?_, { hrx with }, hup', hsplit, ?_, ?_, hdecoding⟩
  · rw [drainTls, hopen]
    dsimp only
    rw [if_neg (by simp [hlatch])]
  · rw [hleft]
    exact hbytes
  · rw [hleft]
    exact hpart

end Tls

/-- `drain_codec_` in a stream whose callback is set: the buffer is drained in the way of the
stream.  That an empty buffer is not drained makes no difference. -/
theorem drainCodec_eq (s : DpdkTcpStream slots γ τ) (host : Host) (clk : Clock)
    (hcallback : s.onMessage = true)
    (hup : s.cfg.enableTls = true → eng.isEstablished s.tls = true) :
    s.drainCodec eng codec host clk =
      if s.cfg.enableTls then { s with reasm := s.reasm.compact }.drainTls eng codec host clk
      else { s with reasm := s.reasm.compact }.drainPlain eng codec host clk := by
  unfold drainCodec
  rw [if_neg (by simp [hcallback])]
  dsimp only
  split
  · rename_i hnone
    have hempty : s.reasm.compact.content = [] := by
      rw [← length_eq_zero_iff, length_content, hnone]
    split
    · rename_i htls
      rw [drainTls, openRecords, TlsEngine.processRecordsInPlace, if_pos (hup htls)]
      simp [hempty, processRecords, consume_of_empty]
    · rw [drainPlain]
      simp [hnone, drainFrames]
  · rfl

end DpdkTcpStream

/-! ## Bursts -/

/-- A burst of the data phase: the payloads that the session passes on. -/
structure DataBurst where
  clk : Clock
  payloads : List Bytes

/-- The bytes of a burst. -/
def DataBurst.bytes (b : DataBurst) : Bytes :=
  b.payloads.flatten

/-- The receive callback on the payloads of a burst, one by one. -/
def receiveAll (u : DpdkTcpStream.RxSink) (sess : TcpSession slots) (payloads : List Bytes) :
    DpdkTcpStream.RxSink × TcpSession slots :=
  payloads.foldl (fun p data => DpdkTcpStream.receive p.1 p.2 data) (u, sess)

/-- The callback on payloads that fit: they are appended. -/
theorem receiveAll_of_fits (u : DpdkTcpStream.RxSink) (sess : TcpSession slots)
    (payloads : List Bytes) (hopen : u.overflowed = false)
    (hfits : u.reasm.content.length + payloads.flatten.length ≤ u.reasm.capacity) :
    ∃ reasm n, receiveAll u sess payloads = ({ u with reasm := reasm, bytesRecv := n }, sess) ∧
      reasm.content = u.reasm.content ++ payloads.flatten := by
  induction payloads generalizing u with
  | nil => exact ⟨u.reasm, u.bytesRecv, rfl, (append_nil _).symm⟩
  | cons data payloads ih =>
    rw [flatten_cons, length_append] at hfits
    obtain ⟨reasm, happend, hcontent, hcap⟩ := append_of_fits
      (show u.reasm.content.length + data.length ≤ u.reasm.capacity by omega)
    have hone : receive u sess data =
        ({ u with reasm := reasm, bytesRecv := u.bytesRecv + data.length }, sess) := by
      rw [receive, if_neg (by simp [hopen]), happend]
    obtain ⟨reasm', n, hfold, hcontent'⟩ := ih
      { u with reasm := reasm, bytesRecv := u.bytesRecv + data.length } hopen (by
        rw [hcontent, hcap, length_append]
        omega)
    refine ⟨reasm', n, ?_, ?_⟩
    · rw [receiveAll, foldl_cons]
      rw [hone]
      exact hfold
    · rw [hcontent', hcontent, flatten_cons, append_assoc]

section Bursts

variable (eng : TlsEngine slots τ) (codec : StreamCodec γ)

/-- What `process_burst_` does with the payloads of a burst, its acknowledgements apart
(`Open.deliver`): the receive callback takes them, and the codec is run. -/
def StreamWorld.takeBurst (w : StreamWorld slots γ τ) (b : DataBurst) : StreamWorld slots γ τ :=
  let got := receiveAll w.stream.rxSink w.stream.sess b.payloads
  let (s, host) := w.stream.applyRx got.1 got.2 w.host
  if s.reasmOverflowed then ⟨s, host⟩
  else
    let drained := s.drainCodec eng codec host b.clk
    ⟨drained.2.1, drained.2.2⟩

/-- A sequence of bursts. -/
def StreamWorld.takeBursts (w : StreamWorld slots γ τ) (bs : List DataBurst) :
    StreamWorld slots γ τ :=
  bs.foldl (fun w b => w.takeBurst eng codec b) w

/-- The bursts do not overflow the reassembly buffer: each has room behind what is in it. -/
def Fits (w : StreamWorld slots γ τ) : List DataBurst → Prop
  | [] => True
  | b :: bs =>
    w.stream.reasm.content.length + b.bytes.length ≤ w.stream.reasm.capacity ∧
      Fits (w.takeBurst eng codec b) bs

/-- The stream has received `bytes`, and nothing else has changed for the codec. -/
structure Received (s s' : DpdkTcpStream slots γ τ) (bytes : Bytes) : Prop where
  rx : SameRx s s'
  codec : s'.codec = s.codec
  messages : s'.messages = s.messages
  tlsCodecPending : s'.tlsCodecPending = s.tlsCodecPending
  tls : s'.tls = s.tls
  content : s'.reasm.content = s.reasm.content ++ bytes

variable {w : StreamWorld slots γ τ}

/-- A burst that fits: its bytes are received, and `drain_codec_` runs. -/
theorem takeBurst_of_fits {b : DataBurst} (hopen : w.stream.reasmOverflowed = false)
    (hfits : w.stream.reasm.content.length + b.bytes.length ≤ w.stream.reasm.capacity) :
    ∃ s host, Received w.stream s b.bytes ∧
      w.takeBurst eng codec b = ⟨(s.drainCodec eng codec host b.clk).2.1,
        (s.drainCodec eng codec host b.clk).2.2⟩ := by
  obtain ⟨reasm, n, hreceive, hcontent⟩ :=
    receiveAll_of_fits w.stream.rxSink w.stream.sess b.payloads hopen hfits
  refine ⟨{ w.stream with
    reasm := reasm
    metrics := { w.stream.metrics with bytesRecv := w.stream.metrics.bytesRecv + n } }, w.host,
    ⟨⟨rfl, rfl, rfl⟩, rfl, rfl, rfl, rfl, hcontent⟩, ?_⟩
  have happly : w.stream.applyRx (receiveAll w.stream.rxSink w.stream.sess b.payloads).1
      (receiveAll w.stream.rxSink w.stream.sess b.payloads).2 w.host =
      ({ w.stream with
        reasm := reasm
        metrics := { w.stream.metrics with bytesRecv := w.stream.metrics.bytesRecv + n } },
        w.host) := by
    rw [hreceive]
    rfl
  rw [StreamWorld.takeBurst]
  dsimp only
  rw [happly, if_neg (by simp [hopen])]

variable {eng codec}

/-- **The rule for runs of bursts.** What one burst carries on from the bytes `got` to the
bytes with its own behind, a run carries on to the whole. -/
theorem takeBursts_carries (Standing : Bytes → DpdkTcpStream slots γ τ → Prop) (wire : Bytes)
    (hburst : ∀ (w : StreamWorld slots γ τ) (b : DataBurst) (got later : Bytes),
      got ++ b.bytes ++ later = wire →
      w.stream.reasm.content.length + b.bytes.length ≤ w.stream.reasm.capacity →
      Standing got w.stream → Standing (got ++ b.bytes) (w.takeBurst eng codec b).stream)
    (bs : List DataBurst) (w : StreamWorld slots γ τ) (got : Bytes)
    (hwire : got ++ bs.flatMap (·.bytes) = wire) (hfits : Fits eng codec w bs)
    (h : Standing got w.stream) : Standing wire (w.takeBursts eng codec bs).stream := by
  induction bs generalizing w got with
  | nil =>
    rw [flatMap_nil, append_nil] at hwire
    exact hwire ▸ h
  | cons b bs ih =>
    rw [flatMap_cons, ← append_assoc] at hwire
    exact ih (w.takeBurst eng codec b) (got ++ b.bytes) hwire hfits.2
      (hburst w b got _ hwire hfits.1 h)

variable {c₀ c' : γ} {m₀ frames : List Bytes} {rest : Bytes} {s₀ : DpdkTcpStream slots γ τ}

/-- How a plaintext stream stands after the bytes `got`. -/
structure PlainStanding (codec : StreamCodec γ) (c₀ : γ) (m₀ : List Bytes)
    (s₀ : DpdkTcpStream slots γ τ) (got : Bytes) (s : DpdkTcpStream slots γ τ) : Prop where
  rx : SameRx s₀ s
  decoding : Decoding codec c₀ m₀ got s.reasm.content s

/-- A burst in plaintext. -/
theorem takeBurst_plain (hinc : codec.Incremental) (hplain : s₀.cfg.enableTls = false)
    (hcallback : s₀.onMessage = true) (hopen : s₀.reasmOverflowed = false) {b : DataBurst}
    {got later : Bytes} (hall : Decodes codec c₀ (got ++ b.bytes ++ later) frames c' rest)
    (hfits : w.stream.reasm.content.length + b.bytes.length ≤ w.stream.reasm.capacity)
    (h : PlainStanding codec c₀ m₀ s₀ got w.stream) :
    PlainStanding codec c₀ m₀ s₀ (got ++ b.bytes) (w.takeBurst eng codec b).stream := by
  obtain ⟨s, host, hgot, htake⟩ :=
    takeBurst_of_fits eng codec (h.rx.reasmOverflowed.trans hopen) hfits
  have hrx := h.rx.trans hgot.rx
  have hoff : ¬ s.cfg.enableTls = true := by simp [hrx.cfg, hplain]
  rw [htake, drainCodec_eq s host b.clk (hrx.onMessage.trans hcallback)
    fun hon => absurd hon hoff, if_neg hoff]
  obtain ⟨n, s', host', hdrain, hrx', hdone⟩ := drainPlain_decoding eng hinc
    { s with reasm := s.reasm.compact } host b.clk hall
    (h.decoding.congr hgot.codec hgot.messages)
    (by rw [← hgot.content]; exact content_compact s.reasm)
  rw [hdrain]
  exact ⟨hrx.trans { hrx' with }, hdone⟩

/-- How a stream over TLS stands after the bytes `got` of the peer's records: some records
were opened, their data is decoded, and a part of the next one is in the buffer. -/
structure TlsStanding (eng : TlsEngine slots τ) (codec : StreamCodec γ)
    (sealedRest : τ → List Record) (c₀ : γ) (m₀ : List Bytes) (s₀ : DpdkTcpStream slots γ τ)
    (got : Bytes) (s : DpdkTcpStream slots γ τ) : Prop where
  rx : SameRx s₀ s
  up : eng.isEstablished s.tls = true
  part : PartOfNext s.reasm.content (sealedRest s.tls)
  opened : ∃ opened, sealedRest s₀.tls = opened ++ sealedRest s.tls ∧
    got = recordBytes opened ++ s.reasm.content ∧
    Decoding codec c₀ m₀ (recordData opened) s.tlsCodecPending s

/-- Once all of the wire is there, every record has been opened. -/
theorem TlsStanding.all_opened {sealedRest : τ → List Record} {s : DpdkTcpStream slots γ τ}
    (h : TlsStanding eng codec sealedRest c₀ m₀ s₀ (recordBytes (sealedRest s₀.tls)) s) :
    Decoding codec c₀ m₀ (recordData (sealedRest s₀.tls)) s.tlsCodecPending s := by
  obtain ⟨opened, hsplit, hwhole, hdecoding⟩ := h.opened
  rw [hsplit, recordBytes_append] at hwhole
  have hleft := append_cancel_left hwhole
  have hnone : sealedRest s.tls = [] := by
    cases hnext : sealedRest s.tls with
    | nil => rfl
    | cons r rs =>
      have hpart := h.part r rs hnext
      rw [← hleft, hnext, recordBytes_cons, length_append] at hpart
      omega
  rwa [hsplit, hnone, append_nil]

/-- A burst over TLS. -/
theorem takeBurst_tls (hinc : codec.Incremental) {sealedRest : τ → List Record}
    (hideal : IdealTls eng sealedRest) (htls : s₀.cfg.enableTls = true)
    (hcallback : s₀.onMessage = true) (hopen : s₀.reasmOverflowed = false)
    (hframed : ∀ r ∈ sealedRest s₀.tls, r.Framed)
    (hall : Decodes codec c₀ (recordData (sealedRest s₀.tls)) frames c' rest) {b : DataBurst}
    {got later : Bytes} (hwire : got ++ b.bytes ++ later = recordBytes (sealedRest s₀.tls))
    (hfits : w.stream.reasm.content.length + b.bytes.length ≤ w.stream.reasm.capacity)
    (h : TlsStanding eng codec sealedRest c₀ m₀ s₀ got w.stream) :
    TlsStanding eng codec sealedRest c₀ m₀ s₀ (got ++ b.bytes)
      (w.takeBurst eng codec b).stream := by
  obtain ⟨s, host, hgot, htake⟩ :=
    takeBurst_of_fits eng codec (h.rx.reasmOverflowed.trans hopen) hfits
  have hrx := h.rx.trans hgot.rx
  obtain ⟨opened, hsplit, hbytes, hdecoding⟩ := h.opened
  have hup : eng.isEstablished s.tls = true := hgot.tls ▸ h.up
  rw [htake, drainCodec_eq s host b.clk (hrx.onMessage.trans hcallback) fun _ => hup,
    if_pos (by simp [hrx.cfg, htls])]
  have hdecoding' := hdecoding.congr hgot.codec hgot.messages
  rw [← hgot.tls] at hsplit
  rw [← hgot.tlsCodecPending] at hdecoding'
  have hcontent : got ++ b.bytes = recordBytes opened ++ s.reasm.content := by
    rw [hgot.content, hbytes, append_assoc]
  rw [hsplit, recordData_append] at hall
  obtain ⟨n, s', host', more, hdrain, hrx', hup', hsplit', hbytes', hpart', hdone⟩ :=
    drainTls_decoding hinc hideal { s with reasm := s.reasm.compact } host b.clk
      later hall (hdecoding'.congr rfl rfl) hup
      (fun r hr => hframed r (by rw [hsplit]; exact mem_append_right _ hr))
      (by
        rw [hcontent, hsplit, recordBytes_append, append_assoc] at hwire
        rw [content_compact]
        exact append_cancel_left hwire)
  rw [hdrain]
  refine ⟨hrx.trans { hrx' with }, hup', hpart', opened ++ more, ?_, ?_, ?_⟩
  · rw [hsplit, append_assoc]
    exact congrArg _ hsplit'
  · rw [content_compact] at hbytes'
    rw [hcontent, hbytes', recordBytes_append, append_assoc]
  · rw [recordData_append]
    exact hdone

end Bursts

end Eph.Net.Dpdk
