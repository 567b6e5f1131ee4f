import Ephemeral.StreamSegmentation

/-!
# Errors of the codec on a plaintext stream

Over TLS an error of the codec is the end: `drain_codec_` latches it and resets the session.  On
a plaintext stream the loop only counts the error and stops.  The stream lives on, the bytes that
the codec was shown stay in the reassembly buffer, and the next burst shows them again: a Close
frame is answered once for every burst behind it (`close_answered_twice`).

`logging` makes any codec keep an account of its calls, as ranges of the bytes the stream has
received.  On that account an error of the codec is the end of a plaintext stream exactly if the
received bytes hold none (`plain_error_terminal_iff`).
-/

namespace Eph.Net.Dpdk

open ByteOrder Codec Core Eph.Dpdk DpdkTcpStream List

variable {slots : Nat} {γ τ : Type}

/-- The stream has been given up, as the drain over TLS does when the codec has reported an
error. -/
def TornDown (s : DpdkTcpStream slots γ τ) : Prop :=
  s.reasmOverflowed = true ∧ s.sess.state = .closed

/-! ## The account of a codec's calls -/

/-- One call of the codec: where the bytes that it was shown start and stop among those that the
stream has received, whether it failed, and what it put on the output sink. -/
structure Call where
  start : Nat
  stop : Nat
  failed : Bool
  reply : Bytes

/-- A codec with an account of its calls; the calls that did not fail have taken `pos` bytes. -/
structure Logged (γ : Type) where
  codec : γ
  pos : Nat
  calls : List Call

/-- The codec that keeps the account. -/
def logging (codec : StreamCodec γ) : StreamCodec (Logged γ) where
  decode c view out :=
    let d := codec.decode c.codec view out
    let failed := !d.result.isOk
    ⟨⟨d.codec, if failed then c.pos else c.pos + d.consumed,
      c.calls ++ [⟨c.pos, c.pos + view.length, failed, d.out.bytes⟩]⟩, d.consumed, d.out, d.result⟩
  enablePermessageDeflate :=
    codec.enablePermessageDeflate.map fun enable c noTakeover =>
      { c with codec := enable c.codec noTakeover }

/-- No byte that a failed call was shown is shown to a later one. -/
def NotShownAgain (calls : List Call) : Prop :=
  calls.Pairwise fun a b => a.failed = true → a.stop ≤ b.start

/-- No frame is answered twice by calls that fail.  The WebSocket codec fails with a response on a
Close frame and on nothing else (`wsStreamCodec_answers_close`). -/
def AnsweredOnce (calls : List Call) : Prop :=
  ((calls.filter fun a => a.failed && !a.reply.isEmpty).map (·.start)).Nodup

/-- A frame that is not a Close frame is answered only by a call that does not fail. -/
theorem onFrame_answers {ι : Type} (inflate : Inflate ι) (c : WsCodec ι) (keys : MaskKeyCache)
    (view : Bytes) (out : OutputBuffer) (f : DecodedFrame) (hclose : f.isClose = false) :
    (c.onFrame inflate keys view out f).out = out ∨
      (c.onFrame inflate keys view out f).result = .ok none := by
  unfold WsCodec.onFrame
  dsimp only
  rw [hclose]
  split
  · exact .inl rfl
  split
  · split
    · split
      · exact .inl rfl
      · exact .inr rfl
    · exact .inl rfl
  split
  · exact .inl rfl
  rw [if_neg Bool.false_ne_true]
  split
  · exact .inl rfl
  · split <;> exact .inl rfl

/-- The frame that the WebSocket codec answers in a call that fails is a Close frame. -/
theorem wsStreamCodec_answers_close {ι : Type} (inflate : Inflate ι) (c : WsCodec ι × MaskKeyCache)
    (view : Bytes) {e : ErrorInfo}
    (hfailed : ((wsStreamCodec inflate).step c view).result = .error e)
    (hreply : ((wsStreamCodec inflate).step c view).out.bytes ≠ []) :
    ∃ f, decodeFrame view c.1.cfg.permessageDeflate = .ok f ∧ f.isClose = true := by
  simp only [StreamCodec.step, wsStreamCodec, WsCodec.decode] at hfailed hreply
  split at hreply
  · exact absurd rfl hreply
  rename_i hlong
  rw [if_neg hlong] at hfailed
  cases hframe : decodeFrame view c.1.cfg.permessageDeflate with
  | error e' =>
    rw [hframe] at hreply
    cases e' <;> exact absurd rfl hreply
  | ok f =>
    rw [hframe] at hfailed hreply
    refine ⟨f, rfl, ?_⟩
    by_contra hclose
    rcases onFrame_answers inflate c.1 c.2 view (OutputBuffer.create kCodecAutoResponseBytes) f
      (by simpa using hclose) with hsame | hok
    · exact hreply (congrArg OutputBuffer.bytes hsame)
    · cases hok.symm.trans hfailed

/-- Errors of the codec have been the end of the stream. -/
structure Terminal (s : DpdkTcpStream slots (Logged γ) τ) : Prop where
  notShownAgain : NotShownAgain s.codec.calls
  answeredOnce : AnsweredOnce s.codec.calls
  tornDown : (∃ a ∈ s.codec.calls, a.failed = true) → TornDown s

/-- No call has failed. -/
def Quiet (calls : List Call) : Prop :=
  ∀ a ∈ calls, a.failed = false

/-- The last call has failed, and no other one. -/
def JustFailed (calls : List Call) : Prop :=
  ∃ before last, calls = before ++ [last] ∧ Quiet before ∧ last.failed = true

/-- As long as at most the last call has failed, nothing was shown again. -/
theorem notShownAgain_of_quiet {calls : List Call} (h : Quiet calls ∨ JustFailed calls) :
    NotShownAgain calls := by
  have hquiet : ∀ {calls : List Call}, Quiet calls → NotShownAgain calls := by
    intro calls h
    refine (pairwise_of_forall (R := fun _ _ => True) fun _ _ => trivial).imp_of_mem ?_
    intro a b ha _ _ hfailed
    simp [h a ha] at hfailed
  rcases h with h | ⟨before, last, rfl, h, -⟩
  · exact hquiet h
  · refine pairwise_append.mpr ⟨hquiet h, pairwise_singleton .., ?_⟩
    intro a ha b _ hfailed
    simp [h a ha] at hfailed

/-- As long as at most the last call has failed, nothing was answered twice. -/
theorem answeredOnce_of_quiet {calls : List Call} (h : Quiet calls ∨ JustFailed calls) :
    AnsweredOnce calls := by
  have hnone : ∀ {calls : List Call}, Quiet calls →
      (calls.filter fun a => a.failed && !a.reply.isEmpty) = [] := by
    intro calls h
    refine filter_eq_nil_iff.mpr fun a ha => ?_
    simp [h a ha]
  rcases h with h | ⟨before, last, rfl, h, -⟩
  · simp [AnsweredOnce, hnone h]
  · rw [AnsweredOnce, filter_append, hnone h, nil_append]
    by_cases hlast : (last.failed && !last.reply.isEmpty) = true
    · simp [hlast]
    · simp [hlast]

/-- The codec decodes the bytes without an error. -/
def Sound (codec : StreamCodec γ) (c : γ) (bytes : Bytes) : Prop :=
  ∃ frames c' rest, Decodes codec c bytes frames c' rest

section Drain

variable (eng : TlsEngine slots τ) (codec : StreamCodec γ) (clk : Clock)

/-- The plaintext loop drives the codec under its account. -/
theorem logging_drives :
    Drives (plainDrainOps eng (logging codec) clk) codec
      (fun w : DrainState slots (Logged γ) τ => w.stream.codec.codec)
      (fun w => w.stream.messages) :=
  have h := DrainState.plainDrain_drives eng (logging codec) clk
  { h with
    decode := h.decode
    decode_codec := fun w view => congrArg Logged.codec (h.decode_codec w view)
    consume_codec := fun _ _ => rfl
    deliver_codec := fun _ _ => rfl }

/-- What the plaintext loop has done to the bytes `view`: decoded them, or failed in its last call
because they do not decode. -/
def Drained (c : γ) (view : Bytes) (s : DpdkTcpStream slots (Logged γ) τ) : Option ErrorInfo → Prop
  | none => Quiet s.codec.calls ∧ ∃ frames,
      Decodes codec c view frames s.codec.codec s.reasm.content
  | some _ => JustFailed s.codec.calls ∧ ¬ Sound codec c view

/-- What a call adds to the account. -/
theorem quiet_append {calls : List Call} (hquiet : Quiet calls) {a : Call} (ha : a.failed = false) :
    Quiet (calls ++ [a]) := by
  intro b hb
  rcases mem_append.mp hb with hb | hb
  · exact hquiet b hb
  · rw [mem_singleton.mp hb, ha]

/-- A round of the plaintext loop: the account has one more call, and the bytes that the call has
taken have left the buffer. -/
theorem round_logged (w : DrainState slots (Logged γ) τ) (view : Bytes) (n : Nat)
    (r : Option Bytes) :
    let ops := plainDrainOps eng (logging codec) clk
    let w' := ops.handOver (ops.consume (ops.decode w view).1 n) r
    w'.stream.codec = ((logging codec).step w.stream.codec view).codec ∧
      w'.stream.reasm.content = w.stream.reasm.content.drop n := by
  have hcall := (DrainState.decode_called eng (logging codec) clk w view).1
  have hkept : ∀ w' : DrainState slots (Logged γ) τ,
      ((plainDrainOps eng (logging codec) clk).handOver w' r).stream.codec = w'.stream.codec ∧
        ((plainDrainOps eng (logging codec) clk).handOver w' r).stream.reasm =
          w'.stream.reasm := by
    intro w'
    cases r with
    | none => exact ⟨rfl, rfl⟩
    | some f =>
      rw [DrainOps.handOver]
      split <;> exact ⟨rfl, rfl⟩
  refine ⟨(hkept _).1.trans hcall.codec, ?_⟩
  rw [(hkept _).2, ← hcall.reasm]
  exact ReasmBuffer.content_consume ..

variable {codec} in
/-- Bytes whose first call fails do not decode, nor do those that do not decode behind it. -/
theorem Sound.first {c : γ} {view : Bytes} (h : Sound codec c view) (hne : view ≠ []) :
    ∃ r, (codec.step c view).result = .ok r ∧ ((codec.step c view).consumed ≠ 0 →
      Sound codec (codec.step c view).codec (view.drop (codec.step c view).consumed)) := by
  obtain ⟨frames, c', rest, h⟩ := h
  cases h with
  | empty => exact absurd rfl hne
  | stop _ hresult hidle => exact ⟨_, hresult, fun hmoved => absurd hidle hmoved⟩
  | round _ hresult _ hmore => exact ⟨_, hresult, fun _ => ⟨_, _, _, hmore⟩⟩

/-- A call that fails ends the loop, and is the first one that failed. -/
theorem drainFrames_failed (fuel : Nat) {w : DrainState slots (Logged γ) τ} {view : Bytes}
    (hne : view ≠ []) (hquiet : Quiet w.stream.codec.calls) {e : ErrorInfo}
    (hresult : (codec.step w.stream.codec.codec view).result = .error e) :
    ∃ w', drainFrames (plainDrainOps eng (logging codec) clk) (fuel + 1) w view =
        (w', view, some e) ∧ Drained codec w.stream.codec.codec view w'.stream (some e) := by
  have hcalls := congrArg Logged.calls
    (DrainState.decode_called eng (logging codec) clk w view).1.codec
  have hdecode := (logging_drives eng codec clk).decode w view
  rw [hresult] at hdecode
  refine ⟨_, ?_, ⟨_, _, hcalls, hquiet, ?_⟩, ?_⟩
  · rw [drainFrames, if_neg (by simpa using hne),
      show (plainDrainOps eng (logging codec) clk).decode w view = (_, _, .error e) from
        Prod.ext rfl hdecode]
    rfl
  · exact congrArg (fun result => !Except.isOk result) hresult
  · intro hsound
    obtain ⟨r, hok, -⟩ := hsound.first hne
    cases hresult.symm.trans hok

/-- **The plaintext loop and its errors.**  The loop ends with an error exactly if the bytes do not
decode, and then its last call is the first that failed. -/
theorem drainFrames_drained (fuel : Nat) (w : DrainState slots (Logged γ) τ) (view : Bytes)
    (hfuel : view.length ≤ fuel) (hview : w.stream.reasm.content = view)
    (hquiet : Quiet w.stream.codec.calls) :
    ∃ w' rest err, drainFrames (plainDrainOps eng (logging codec) clk) fuel w view =
        (w', rest, err) ∧ Drained codec w.stream.codec.codec view w'.stream err := by
  induction fuel generalizing w view with
  | zero =>
    obtain rfl := length_eq_zero_iff.mp (Nat.le_zero.mp hfuel)
    exact ⟨w, [], none, rfl, hquiet, [], by rw [hview]; exact .empty _⟩
  | succ fuel ih =>
    by_cases hne : view = []
    · subst hne
      exact ⟨w, [], none, rfl, hquiet, [], by rw [hview]; exact .empty _⟩
    have hops := logging_drives eng codec clk
    cases hresult : (codec.step w.stream.codec.codec view).result with
    | error e =>
      obtain ⟨w', hloop, hdrained⟩ := drainFrames_failed eng codec clk fuel hne hquiet hresult
      exact ⟨w', view, some e, hloop, hdrained⟩
    | ok r =>
      have hround := round_logged eng codec clk w view
        (codec.step w.stream.codec.codec view).consumed
      have hcalls : Quiet ((logging codec).step w.stream.codec view).codec.calls :=
        quiet_append hquiet (congrArg (fun result => !Except.isOk result) hresult)
      rw [drainFrames_round hne (hops.decode_eq w hresult)]
      split
      · rename_i hidle
        obtain ⟨hcodec, hcontent⟩ := hround none
        rw [DrainOps.handOver] at hcodec hcontent
        refine ⟨_, _, none, rfl, by rw [hcodec]; exact hcalls, [], ?_⟩
        rw [hcodec, hcontent, hidle, drop_zero, hview]
        exact .stop hne hresult hidle
      · rename_i hmoved
        obtain ⟨hcodec, hcontent⟩ := hround r
        obtain ⟨w', rest, err, hloop, hdrained⟩ := ih _ _ (by
          rw [length_drop]
          have := length_pos_iff.mpr hne
          omega) (hcontent.trans (congrArg _ hview)) (by rw [hcodec]; exact hcalls)
        refine ⟨w', rest, err, hloop, ?_⟩
        rw [hcodec] at hdrained
        cases err with
        | none =>
          obtain ⟨hquiet', frames, hmore⟩ := hdrained
          exact ⟨hquiet', _, .round hne hresult hmoved hmore⟩
        | some e =>
          refine ⟨hdrained.1, fun hsound => hdrained.2 ?_⟩
          obtain ⟨-, -, hmore⟩ := hsound.first hne
          exact hmore hmoved

end Drain

section Bursts

variable (eng : TlsEngine slots τ) (codec : StreamCodec γ) {w : StreamWorld slots (Logged γ) τ}
  {b : DataBurst} {c₀ : γ} {got : Bytes}

/-- A plaintext stream in its data phase. -/
structure Plain (s : DpdkTcpStream slots (Logged γ) τ) : Prop where
  enableTls : s.cfg.enableTls = false
  onMessage : s.onMessage = true
  reasmOverflowed : s.reasmOverflowed = false

theorem Plain.congr {s s' : DpdkTcpStream slots (Logged γ) τ} (h : Plain s) (hrx : SameRx s s') :
    Plain s' :=
  ⟨by rw [hrx.cfg, h.enableTls], hrx.onMessage.trans h.onMessage,
    hrx.reasmOverflowed.trans h.reasmOverflowed⟩

/-- The stream has met no error in the bytes `got`. -/
def Unharmed (c₀ : γ) (got : Bytes) (s : DpdkTcpStream slots (Logged γ) τ) : Prop :=
  Quiet s.codec.calls ∧ ∃ frames, Decodes codec c₀ got frames s.codec.codec s.reasm.content

section

variable (hplain : Plain w.stream)
  (hfits : w.stream.reasm.content.length + b.bytes.length ≤ w.stream.reasm.capacity)

include hplain hfits

/-- A burst on a plaintext stream: its bytes go behind those in the buffer, and the loop runs on
the buffer. -/
theorem takeBurst_loop : ∃ s host, Received w.stream s b.bytes ∧
      let d := drainFrames (plainDrainOps eng (logging codec) b.clk) s.reasm.readable
        ⟨s, host, 0, false⟩ s.reasm.content
      let s' := (w.takeBurst eng (logging codec) b).stream
      SameRx d.1.stream s' ∧ s'.codec = d.1.stream.codec ∧ s'.reasm = d.1.stream.reasm := by
  obtain ⟨s, host, hgot, htake⟩ :=
    takeBurst_of_fits eng (logging codec) hplain.reasmOverflowed hfits
  have hs := hplain.congr hgot.rx
  have hoff : ¬ s.cfg.enableTls = true := by simp [hs.enableTls]
  refine ⟨{ s with reasm := s.reasm.compact }, host,
    { hgot with
      rx := { hgot.rx with }
      content := (ReasmBuffer.content_compact s.reasm).trans hgot.content }, ?_⟩
  dsimp only
  rw [htake, drainCodec_eq s host b.clk hs.onMessage fun hon => absurd hon hoff, if_neg hoff,
    drainPlain]
  dsimp only
  split <;> rename_i hloop <;> rw [hloop] <;> exact ⟨⟨rfl, rfl, rfl⟩, rfl, rfl⟩

/-- A burst leaves the settings of a plaintext stream alone, and only adds calls to the account. -/
theorem takeBurst_adds :
    Plain (w.takeBurst eng (logging codec) b).stream ∧
      w.stream.codec.calls <+: (w.takeBurst eng (logging codec) b).stream.codec.calls := by
  obtain ⟨s, host, hgot, hrx, hcodec, -⟩ := takeBurst_loop eng codec hplain hfits
  have hkept := @drainFrames_keeps _ (plainDrainOps eng (logging codec) b.clk)
    (fun d => SameRx s d.stream ∧ s.codec.calls <+: d.stream.codec.calls)
    (by
      rintro d view ⟨hd, hcalls⟩
      have hcall := (DrainState.decode_called eng (logging codec) b.clk d view).1
      refine ⟨hd.trans hcall.rx, hcalls.trans ?_⟩
      exact ⟨_, (congrArg Logged.calls hcall.codec).symm⟩)
    (by
      rintro d n ⟨hd, hcalls⟩
      exact ⟨{ hd with }, hcalls⟩)
    (by
      rintro d f ⟨hd, hcalls⟩
      exact ⟨{ hd with }, hcalls⟩)
    s.reasm.readable ⟨s, host, 0, false⟩ s.reasm.content ⟨⟨rfl, rfl, rfl⟩, prefix_rfl⟩
  refine ⟨((hplain.congr hgot.rx).congr hkept.1).congr hrx, ?_⟩
  rw [hcodec, ← hgot.codec]
  exact hkept.2

/-- **A burst and its errors.**  Behind bytes that decode, a burst decodes as well, or its last
call is the first that failed. -/
theorem takeBurst_drained (hinc : codec.Incremental) (h : Unharmed codec c₀ got w.stream) :
    let s' := (w.takeBurst eng (logging codec) b).stream
    Unharmed codec c₀ (got ++ b.bytes) s' ∨
      (JustFailed s'.codec.calls ∧ ¬ Sound codec c₀ (got ++ b.bytes)) := by
  obtain ⟨hquiet, sofar, hsofar⟩ := h
  obtain ⟨s, host, hgot, -, hcodec, hreasm⟩ := takeBurst_loop eng codec hplain hfits
  obtain ⟨d, rest, err, hloop, hdrained⟩ := drainFrames_drained eng codec b.clk
    s.reasm.readable ⟨s, host, 0, false⟩ s.reasm.content
    (Nat.le_of_eq (ReasmBuffer.length_content _)) rfl (by rw [hgot.codec]; exact hquiet)
  rw [hloop] at hcodec hreasm
  rw [hgot.codec, hgot.content] at hdrained
  dsimp only
  cases err with
  | none =>
    obtain ⟨hquiet', fresh, hfresh⟩ := hdrained
    refine .inl ⟨by rw [hcodec]; exact hquiet', sofar ++ fresh, ?_⟩
    rw [hcodec, hreasm]
    exact hsofar.append hinc hfresh
  | some e =>
    refine .inr ⟨by rw [hcodec]; exact hdrained.1, ?_⟩
    rintro ⟨frames, c', rest', hall⟩
    rw [← append_nil (got ++ b.bytes)] at hall
    obtain ⟨fresh, c₂, pending₂, hnew, -⟩ := Decodes.extend hinc hall hsofar
    exact hdrained.2 ⟨_, _, _, hnew⟩

end

/-- How a plaintext stream stands after the bytes `got`: it has met no error in them, or they do not
decode and a call has failed. -/
structure Met (c₀ : γ) (got : Bytes) (s : DpdkTcpStream slots (Logged γ) τ) : Prop where
  plain : Plain s
  account : Unharmed codec c₀ got s ∨
    ((∃ a ∈ s.codec.calls, a.failed = true) ∧ ¬ Sound codec c₀ got)

variable {codec}

/-- Each burst carries this on. -/
theorem Met.takeBurst (hinc : codec.Incremental)
    (hfits : w.stream.reasm.content.length + b.bytes.length ≤ w.stream.reasm.capacity)
    (h : Met codec c₀ got w.stream) :
    Met codec c₀ (got ++ b.bytes) (w.takeBurst eng (logging codec) b).stream := by
  obtain ⟨hplain, hadds⟩ := takeBurst_adds eng codec h.plain hfits
  refine ⟨hplain, ?_⟩
  rcases h.account with hfine | ⟨⟨a, ha, hfailed⟩, hbad⟩
  · rcases takeBurst_drained eng codec h.plain hfits hinc hfine with hfine' | ⟨hjust, hbad⟩
    · exact .inl hfine'
    · obtain ⟨before, last, hcalls, -, hlast⟩ := hjust
      exact .inr ⟨⟨last, by rw [hcalls]; simp, hlast⟩, hbad⟩
  · -- more bytes do not mend what does not decode
    refine .inr ⟨⟨a, hadds.subset ha, hfailed⟩, ?_⟩
    rintro ⟨frames, c', rest, hall⟩
    obtain ⟨first, _, c₁, pending, -, hfirst, -⟩ := hall.split hinc
    exact hbad ⟨first, c₁, pending, hfirst⟩

/-- A run of bursts from a stream that holds no bytes. -/
theorem Met.takeBursts (hinc : codec.Incremental) (hplain : Plain w.stream)
    (hempty : w.stream.reasm.content = []) (hfresh : w.stream.codec.calls = [])
    (bs : List DataBurst) (hfits : Fits eng (logging codec) w bs) :
    Met codec w.stream.codec.codec (bs.flatMap (·.bytes))
      (w.takeBursts eng (logging codec) bs).stream := by
  refine takeBursts_carries (Met codec w.stream.codec.codec) _ ?_ bs w [] rfl hfits
    ⟨hplain, .inl ⟨by simp [Quiet, hfresh], [], by rw [hempty]; exact .empty _⟩⟩
  exact fun w' b got later _ hroom h => h.takeBurst eng hinc hroom

/-- The last of the bursts that fit. -/
theorem fits_concat (bs : List DataBurst) (w : StreamWorld slots (Logged γ) τ)
    (hfits : Fits eng (logging codec) w (bs ++ [b])) :
    Fits eng (logging codec) w bs ∧
      (w.takeBursts eng (logging codec) bs).stream.reasm.content.length + b.bytes.length ≤
        (w.takeBursts eng (logging codec) bs).stream.reasm.capacity := by
  induction bs generalizing w with
  | nil => exact ⟨trivial, hfits.1⟩
  | cons b' bs ih =>
    obtain ⟨hbefore, hroom⟩ := ih _ hfits.2
    exact ⟨⟨hfits.1, hbefore⟩, hroom⟩

end Bursts

/-- **No error of the codec ends a plaintext stream.**  Over a run of bursts that fit the buffer, an
error of the codec is the end of the stream exactly if the bytes of the run decode without one.  As
long as the bytes of all bursts but the last decode, nothing that a failed call was shown is shown
again and nothing is answered twice, but an error in the last burst does not tear the stream
down. -/
theorem plain_error_terminal_iff (eng : TlsEngine slots τ) {codec : StreamCodec γ}
    (hinc : codec.Incremental) (w : StreamWorld slots (Logged γ) τ) (hplain : Plain w.stream)
    (hempty : w.stream.reasm.content = []) (hfresh : w.stream.codec.calls = [])
    (bs : List DataBurst) (b : DataBurst) (hfits : Fits eng (logging codec) w (bs ++ [b])) :
    let s' := (w.takeBursts eng (logging codec) (bs ++ [b])).stream
    (Sound codec w.stream.codec.codec (bs.flatMap (·.bytes)) →
      NotShownAgain s'.codec.calls ∧ AnsweredOnce s'.codec.calls) ∧
    (Terminal s' ↔ Sound codec w.stream.codec.codec ((bs ++ [b]).flatMap (·.bytes))) := by
  dsimp only
  constructor
  · intro hsound
    obtain ⟨hbefore, hroom⟩ := fits_concat eng bs w hfits
    obtain ⟨hplain', haccount⟩ := Met.takeBursts eng hinc hplain hempty hfresh bs hbefore
    have hfine := haccount.resolve_right fun h => h.2 hsound
    have hcalls := takeBurst_drained eng codec hplain' hroom hinc hfine
    rw [show w.takeBursts eng (logging codec) (bs ++ [b]) =
      (w.takeBursts eng (logging codec) bs).takeBurst eng (logging codec) b from
        foldl_append ..]
    have hlast := hcalls.imp (fun h => h.1) (fun h => h.1)
    exact ⟨notShownAgain_of_quiet hlast, answeredOnce_of_quiet hlast⟩
  · obtain ⟨hplain', haccount⟩ := Met.takeBursts eng hinc hplain hempty hfresh _ hfits
    rcases haccount with ⟨hquiet, frames, hdecodes⟩ | ⟨hfailed, hbad⟩
    · refine iff_of_true ⟨notShownAgain_of_quiet (.inl hquiet), answeredOnce_of_quiet (.inl hquiet),
        ?_⟩ ⟨_, _, _, hdecodes⟩
      rintro ⟨a, ha, hfailed⟩
      simp [hquiet a ha] at hfailed
    · refine iff_of_false (fun h => ?_) hbad
      have hdown := (h.tornDown hfailed).1
      simp [hplain'.reasmOverflowed] at hdown

/-- A WebSocket stream in plaintext in its data phase. -/
def samplePlainWorld : StreamWorld 4 (WsCodec Unit × MaskKeyCache) Unit :=
  ⟨{ sampleStream (WsCodec.create {} (), ⟨fun _ => ⟨1, 2, 3, 4⟩, 0⟩) () false 64 with
      hsPhase := .established }, sampleHost []⟩

/-- The same stream with a codec that logs its calls. -/
def loggedPlainWorld : StreamWorld 4 (Logged (WsCodec Unit × MaskKeyCache)) Unit :=
  ⟨{ sampleStream ⟨samplePlainWorld.stream.codec, 0, []⟩ () false 64 with
      hsPhase := .established }, sampleHost []⟩

/-- A text message in two bursts, and then a Close frame: the Close is answered once, and the stream
lives. -/
theorem plain_error_terminal_sample :
    let bs : List DataBurst := [⟨⟨0, 0⟩, [[0x81]]⟩, ⟨⟨1, 0⟩, [[2, 72], [105]]⟩]
    let b : DataBurst := ⟨⟨2, 0⟩, [[0x88, 0]]⟩
    let s' := (loggedPlainWorld.takeBursts noTls (logging (wsStreamCodec noInflate))
      (bs ++ [b])).stream
    NotShownAgain s'.codec.calls ∧ AnsweredOnce s'.codec.calls ∧
      (Terminal s' ↔ Sound (wsStreamCodec noInflate) samplePlainWorld.stream.codec
        [0x81, 2, 72, 105, 0x88, 0]) := by
  intro bs b s'
  have h := plain_error_terminal_iff noTls (wsStreamCodec_incremental noInflate) loggedPlainWorld
    ⟨rfl, rfl, rfl⟩ rfl rfl bs b (by refine ⟨?_, ?_, ?_, trivial⟩ <;> decide +kernel)
  have hsound : Sound (wsStreamCodec noInflate) samplePlainWorld.stream.codec [0x81, 2, 72, 105] :=
    ⟨_, _, _, .round (by decide) rfl (by decide) (.empty _)⟩
  obtain ⟨hshown, hanswered⟩ := h.1 hsound
  exact ⟨hshown, hanswered, h.2⟩

/-- A Close frame and one more byte, in two bursts: the Close is decoded and answered twice, is
still in the buffer, and the stream lives. -/
theorem close_answered_twice :
    let w := samplePlainWorld.takeBursts noTls (wsStreamCodec noInflate)
      [⟨⟨0, 0⟩, [[0x88, 0]]⟩, ⟨⟨1, 0⟩, [[0x81]]⟩]
    w.stream.metrics.codecErrors = 2 ∧ w.stream.reasm.content = [0x88, 0, 0x81] ∧
      w.host.wire.map (fun seg => seg.payload.take 2) = [[0x88, 0x82], [0x88, 0x82]] ∧
      w.stream.reasmOverflowed = false ∧ w.stream.sess.state = .established := by
  decide +kernel

end Eph.Net.Dpdk
