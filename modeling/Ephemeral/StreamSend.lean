import Ephemeral.DpdkTcpStream
import Ephemeral.TlsEncryptor

/-!
# What a stream's sends put on the wire

`DpdkTcpStream::send` takes the framed bytes of a message, seals them when the stream
speaks TLS, and hands them to the session segment by segment.  A transmission can fail at
every segment.

`TcpSession::send` puts one segment on the wire and moves the send frontier past it, or
does neither; so the segments of a run of sends carry consecutive sequence numbers
(`Contiguous`) whatever failed in between.  A send that stops early in a sealed buffer, or
that cannot seal it, latches the stream; a latched stream transmits nothing.  The bytes
on the wire are thus a first part of a run of records whose numbers follow one another,
and of every send that reports success they hold all (`stream_send_integrity`).
-/

namespace Eph.Net.Dpdk

open ByteOrder Core Eph.Dpdk List

variable {segs : List TxSegment}

/-- The bytes that segments carry. -/
def segmentBytes (segs : List TxSegment) : Bytes :=
  segs.flatMap (·.payload)

@[simp] theorem segmentBytes_nil : segmentBytes [] = [] := rfl

@[simp] theorem segmentBytes_cons (g : TxSegment) (segs : List TxSegment) :
    segmentBytes (g :: segs) = g.payload ++ segmentBytes segs := rfl

@[simp] theorem segmentBytes_append (segs more : List TxSegment) :
    segmentBytes (segs ++ more) = segmentBytes segs ++ segmentBytes more :=
  flatMap_append

/-- The segments follow one another in sequence space, from `seq` on. -/
def Contiguous : UInt32 → List TxSegment → Prop
  | _, [] => True
  | seq, g :: segs => g.seq = seq ∧ Contiguous (seq + UInt32.ofNat g.payload.length) segs

theorem Contiguous.append {seq : UInt32} {segs more : List TxSegment} (h : Contiguous seq segs)
    (hmore : Contiguous (seq + UInt32.ofNat (segmentBytes segs).length) more) :
    Contiguous seq (segs ++ more) := by
  induction segs generalizing seq with
  | nil => simpa using hmore
  | cons g segs ih =>
    refine ⟨h.1, ih h.2 ?_⟩
    rwa [segmentBytes_cons, length_append, UInt32.ofNat_add, ← UInt32.add_assoc] at hmore

/-- What sending `segs` does to the session and the wire: the segments are on the wire,
in sequence from the send frontier, and the frontier is past them. -/
structure Puts {slots : Nat} (segs : List TxSegment) (sess sess' : TcpSession slots)
    (host host' : Host) : Prop where
  wire : host'.wire = host.wire ++ segs
  contiguous : Contiguous sess.sndNxt segs
  frontier : sess'.sndNxt = sess.sndNxt + UInt32.ofNat (segmentBytes segs).length

section Session

variable {slots : Nat} {sess sess' sess'' : TcpSession slots} {host host' host'' : Host}

/-- Nothing was sent. -/
theorem Puts.nothing (hsess : sess'.sndNxt = sess.sndNxt) (hwire : host'.wire = host.wire) :
    Puts [] sess sess' host host' :=
  ⟨by rw [hwire, append_nil], trivial, by simp [hsess]⟩

/-- What follows a transmission may change all but the frontier and the wire. -/
theorem Puts.congr (h : Puts segs sess sess' host host') (hsess : sess''.sndNxt = sess'.sndNxt)
    (hwire : host''.wire = host'.wire) : Puts segs sess sess'' host host'' :=
  ⟨hwire.trans h.wire, h.contiguous, hsess.trans h.frontier⟩

theorem Puts.from_wire (h : Puts segs sess sess' host host') (hwire : host''.wire = host.wire) :
    Puts segs sess sess' host'' host' :=
  ⟨hwire ▸ h.wire, h.contiguous, h.frontier⟩

theorem Puts.trans {segs more : List TxSegment} (h : Puts segs sess sess' host host')
    (hmore : Puts more sess' sess'' host' host'') :
    Puts (segs ++ more) sess sess'' host host'' where
  wire := by rw [hmore.wire, h.wire, append_assoc]
  contiguous := h.contiguous.append (h.frontier ▸ hmore.contiguous)
  frontier := by
    rw [hmore.frontier, h.frontier, segmentBytes_append, length_append, UInt32.ofNat_add,
      UInt32.add_assoc]

/-- **One segment.** `TcpSession::send` fails and sends nothing, or sends all it was
given in one segment. -/
theorem TcpSession.send_puts (sess : TcpSession slots) (host : Host) (data : Bytes) :
    (∃ e, (sess.send host data).1 = .error e ∧
        Puts [] sess (sess.send host data).2.1 host (sess.send host data).2.2) ∨
      ∃ g, g.payload = data ∧ (sess.send host data).1 = .ok data.length ∧
        Puts [g] sess (sess.send host data).2.1 host (sess.send host data).2.2 := by
  unfold Eph.Dpdk.TcpSession.send
  split
  · exact .inl ⟨_, rfl, .nothing rfl rfl⟩
  split
  · exact .inl ⟨_, rfl, .nothing rfl rfl⟩
  unfold Host.transmit
  cases host.tx with
  | nil =>
    exact .inr ⟨_, rfl, rfl, rfl, ⟨rfl, trivial⟩, by simp⟩
  | cons outcome rest =>
    cases outcome with
    | noMbuf | refused => exact .inl ⟨_, rfl, .nothing rfl rfl⟩
    | sent => exact .inr ⟨_, rfl, rfl, rfl, ⟨rfl, trivial⟩, by simp⟩

/-- How far the loop over a buffer came: to its end, or not. -/
def SendLoop.Sent (stop : SendLoop) (put data : Bytes) : Prop :=
  match stop with
  | .done => put = data
  | .failed _ _ | .zero _ => put <+: data ∧ put ≠ data

theorem SendLoop.Sent.append_left {stop : SendLoop} {put data : Bytes} (first : Bytes)
    (h : stop.Sent put data) : stop.Sent (first ++ put) (first ++ data) := by
  cases stop with
  | done => exact congrArg (first ++ ·) h
  | failed e off | zero off =>
    exact ⟨(prefix_append_right_inj first).mpr h.1, fun heq =>
      h.2 (append_cancel_left heq)⟩

/-- **A buffer.** The loop sends a first part of its buffer, and all of it exactly if it
reports so. -/
theorem sendChunks_puts (mss fuel : Nat) (sess : TcpSession slots) (host : Host) (data : Bytes)
    (off : Nat) (hfuel : data.length ≤ fuel) :
    ∃ segs, Puts segs sess (sendChunks mss fuel sess host data off).2.1 host
        (sendChunks mss fuel sess host data off).2.2 ∧
      (sendChunks mss fuel sess host data off).1.Sent (segmentBytes segs) data := by
  induction fuel generalizing sess host data off with
  | zero =>
    obtain rfl := length_eq_zero_iff.mp (Nat.le_zero.mp hfuel)
    exact ⟨[], .nothing rfl rfl, rfl⟩
  | succ fuel ih =>
    unfold sendChunks
    split
    · rename_i hempty
      obtain rfl := List.isEmpty_iff.mp hempty
      exact ⟨[], .nothing rfl rfl, rfl⟩
    rename_i hdata
    rw [List.isEmpty_iff] at hdata
    obtain ⟨e, hres, hputs⟩ | ⟨g, hg, hres, hputs⟩ := TcpSession.send_puts sess host (data.take mss)
    · split
      · rename_i hsend
        rw [hsend] at hputs
        exact ⟨[], hputs, List.nil_prefix, Ne.symm hdata⟩
      · rename_i hsend
        rw [hsend] at hres
        cases hres
    · split
      · rename_i hsend
        rw [hsend] at hres
        cases hres
      rename_i n sess₁ host₁ hsend
      rw [hsend] at hputs hres
      cases hres
      split
      · rename_i hzero
        have hnil : segmentBytes [g] = [] := by
          rw [segmentBytes_cons, hg, segmentBytes_nil, append_nil]
          exact length_eq_zero_iff.mp hzero
        exact ⟨[g], hputs, hnil ▸ List.nil_prefix, hnil ▸ Ne.symm hdata⟩
      · have hshorter : (data.drop (data.take mss).length).length ≤ fuel := by
          rw [length_drop]
          omega
        obtain ⟨segs, hmore, hsent⟩ := ih sess₁ host₁ (data.drop (data.take mss).length)
          (off + (data.take mss).length) hshorter
        have hcut : data.take mss ++ data.drop (data.take mss).length = data :=
          prefix_iff_eq_append.mp (List.take_prefix mss data)
        refine ⟨g :: segs, hputs.trans hmore, ?_⟩
        have hwhole := hsent.append_left (data.take mss)
        rw [hcut] at hwhole
        rwa [segmentBytes_cons, hg]

/-- `sendAll` on a whole buffer. -/
theorem sendAll_puts (sess : TcpSession slots) (host : Host) (data : Bytes) :
    ∃ segs, Puts segs sess (sendAll sess host data).2.1 host (sendAll sess host data).2.2 ∧
      (sendAll sess host data).1.Sent (segmentBytes segs) data :=
  sendChunks_puts _ _ sess host data 0 (Nat.le_refl _)

end Session

/-- One call of `send`. -/
structure SendCall where
  clk : Clock
  payload : Bytes

/-- What came of one call: what `encrypt_for_send` returned, when the call came that far,
the result, and the segments it put on the wire. -/
structure SendReport where
  payload : Bytes
  sealed : Option (Except ErrorInfo Bytes)
  result : Except ErrorInfo Nat
  segments : List TxSegment

/-- The bytes that the call put on the wire. -/
def SendReport.put (r : SendReport) : Bytes :=
  segmentBytes r.segments

/-- The call could not seal its bytes, or not transmit all that it had sealed. -/
def SendReport.Desyncs (r : SendReport) : Prop :=
  (∃ e, r.sealed = some (.error e)) ∨ ∃ buf, r.sealed = some (.ok buf) ∧ r.put ≠ buf

variable {slots : Nat} {γ τ : Type}

/-- All that a send can do: the session sends, the counters of what was sent move, and the write
half of TLS may have sealed a record and be latched. -/
def Sends (eng : TlsEngine slots τ) (s s' : DpdkTcpStream slots γ τ) (host host' : Host) : Prop :=
  ∃ sess tls corrupt metrics,
    s' = { s with sess := sess, tls := tls, tlsCorrupt := corrupt, metrics := metrics } ∧
    SameInput s.sess sess ∧ host'.rx = host.rx ∧
    (tls = s.tls ∨ ∃ data, tls = (eng.encryptForSend s.tls data).2) ∧
    metrics.reasmOverflows = s.metrics.reasmOverflows ∧
    metrics.codecErrors = s.metrics.codecErrors

namespace DpdkTcpStream

/-- The checks that `send` makes before it touches a byte. -/
def sendReady (s : DpdkTcpStream slots γ τ) (host : Host) : Bool :=
  !(s.cfg.enableTls && s.tlsCorrupt) && s.attached && (!s.platform || host.isAlive.1) &&
    decide (s.sess.state = .established)

theorem isAlive_wire (host : Host) : host.isAlive.2.wire = host.wire := by
  unfold Host.isAlive
  split <;> rfl

section

variable (s : DpdkTcpStream slots γ τ) (host : Host) (clk : Clock)

include s host clk

theorem checkPostBurst_kept (status : InFlightStatus) (observed confirmed : Nat) (phase : String) :
    (s.checkPostBurst host clk status observed confirmed phase).2.wire = host.wire ∧
      (s.checkPostBurst host clk status observed confirmed phase).2.rx = host.rx := by
  have hwire := isAlive_wire host
  have hrx := isAlive_rx host
  unfold checkPostBurst
  split
  · exact ⟨rfl, rfl⟩
  · split <;> rename_i halive <;> rw [halive] at hwire hrx <;> exact ⟨hwire, hrx⟩

@[simp] theorem sendFailed_wire (e : ErrorInfo) (observed off : Nat) (phase : String) :
    (s.sendFailed host clk e observed off phase).2.2.wire = host.wire :=
  (checkPostBurst_kept ..).1

/-- A send that is through counts its bytes; it fails only if the daemon has died since. -/
theorem sendDone_spec (len : Nat) (phase : String) :
    (s.sendDone host clk len phase).2.1 = s.noteSent len ∧
      (s.sendDone host clk len phase).2.2.wire = host.wire ∧
      (s.sendDone host clk len phase).2.2.rx = host.rx ∧
      ∀ n, (s.sendDone host clk len phase).1 = .ok n → n = len := by
  obtain ⟨hwire, hrx⟩ := checkPostBurst_kept (s.noteSent len) host clk .sent len len phase
  unfold sendDone
  dsimp only
  split <;> rename_i hpost <;> rw [hpost] at hwire hrx
  · exact ⟨rfl, hwire, hrx, nofun⟩
  · exact ⟨rfl, hwire, hrx, fun n hn => (Except.ok.inj hn).symm⟩

end

variable {s : DpdkTcpStream slots γ τ}

variable (eng : TlsEngine slots τ)

/-- A send that passes its checks goes on to the sending proper; one that fails them changes
nothing. -/
theorem send_cases (s : DpdkTcpStream slots γ τ) (host : Host) (clk : Clock) (payload : Bytes) :
    ∃ host', host'.wire = host.wire ∧ host'.rx = host.rx ∧
      (s.sendReady host = true → s.send eng host clk payload =
        if s.cfg.enableTls then s.sendTls eng host' clk payload
        else s.sendPlain host' clk payload) ∧
      (s.sendReady host = false → ∃ e, s.send eng host clk payload = (.error e, s, host')) := by
  have hwire := isAlive_wire host
  have hrx := isAlive_rx host
  unfold send sendReady
  split
  · exact ⟨host, rfl, rfl, by simp_all⟩
  split
  · exact ⟨host, rfl, rfl, by simp_all⟩
  unfold sendAttached
  split
  · refine ⟨host, rfl, rfl, ?_⟩
    split_ifs <;> simp_all
  split <;> rename_i halive <;> rw [halive] at hwire hrx
  · refine ⟨_, hwire, hrx, ?_⟩
    split_ifs <;> simp_all
  · refine ⟨_, ?_, ?_, by simp_all, fun _ => ⟨_, rfl⟩⟩
    exacts [hwire, hrx]

/-- Make a call and report it. -/
def sendAndReport (s : DpdkTcpStream slots γ τ) (host : Host) (call : SendCall) :
    SendReport × DpdkTcpStream slots γ τ × Host :=
  let (result, s', host') := s.send eng host call.clk call.payload
  (⟨call.payload,
    if s.sendReady host && s.cfg.enableTls then some (eng.encryptForSend s.tls call.payload).1
    else none,
    result, host'.wire.drop host.wire.length⟩, s', host')

/-- A sequence of calls, with their reports. -/
def sendRun (eng : TlsEngine slots τ) (s : DpdkTcpStream slots γ τ) (host : Host) :
    List SendCall → List SendReport × DpdkTcpStream slots γ τ × Host
  | [] => ([], s, host)
  | call :: calls =>
    let (r, s, host) := s.sendAndReport eng host call
    let (reports, s, host) := s.sendRun eng host calls
    (r :: reports, s, host)

/-- The five ways in which a call can end. -/
inductive SendOutcome (eng : TlsEngine slots τ) (s s' : DpdkTcpStream slots γ τ)
    (r : SendReport) : Prop
  /-- It failed one of its checks. -/
  | refused (hsealed : r.sealed = none) (hresult : ∃ e, r.result = .error e)
      (hput : r.segments = []) (hs : s' = s)
  /-- It was sent, or not, as it was given. -/
  | plain (htls : s.cfg.enableTls = false) (hsealed : r.sealed = none)
      (hresult : ∀ n, r.result = .ok n → n = r.payload.length ∧ r.put = r.payload)
  /-- It could not be sealed. -/
  | unsealed (htls : s.cfg.enableTls = true) (e : ErrorInfo) (hsealed : r.sealed = some (.error e))
      (hresult : r.result = .error e) (hput : r.segments = []) (hlatch : s'.tlsCorrupt = true)
  /-- All that was sealed went out. -/
  | whole (htls : s.cfg.enableTls = true) (buf : Bytes)
      (hencrypt : eng.encryptForSend s.tls r.payload = (.ok buf, s'.tls))
      (hsealed : r.sealed = some (.ok buf)) (hput : r.put = buf)
      (hresult : ∀ n, r.result = .ok n → n = r.payload.length)
  /-- Only a part of what was sealed went out. -/
  | cut (htls : s.cfg.enableTls = true) (buf : Bytes)
      (hencrypt : eng.encryptForSend s.tls r.payload = (.ok buf, s'.tls))
      (hsealed : r.sealed = some (.ok buf)) (hput : r.put <+: buf)
      (hresult : ∃ e, r.result = .error e) (hlatch : s'.tlsCorrupt = true)

section

variable (s : DpdkTcpStream slots γ τ) (host : Host) (clk : Clock) (payload : Bytes)

/-- What the plain path puts on the wire. -/
theorem sendPlain_puts :
    ∃ segs, Puts segs s.sess (s.sendPlain host clk payload).2.1.sess host
        (s.sendPlain host clk payload).2.2 ∧
      Sends eng s (s.sendPlain host clk payload).2.1 host (s.sendPlain host clk payload).2.2 ∧
      ∀ n, (s.sendPlain host clk payload).1 = .ok n →
        n = payload.length ∧ segmentBytes segs = payload := by
  obtain ⟨segs, hputs, hsent⟩ := sendAll_puts s.sess host payload
  obtain ⟨hsame, hrx⟩ := sendAll_same s.sess host payload
  refine ⟨segs, ?_⟩
  unfold sendPlain
  generalize sendAll s.sess host payload = all at hputs hsent hsame hrx
  obtain ⟨stop, sess', host'⟩ := all
  cases stop with
  | failed e off | zero off =>
    exact ⟨hputs.congr rfl (sendFailed_wire ..), ⟨_, _, _, _, rfl, hsame,
      (checkPostBurst_kept ..).2.trans hrx, .inl rfl, rfl, rfl⟩, nofun⟩
  | done =>
    obtain ⟨hstream, hwire, hrx', hlen⟩ := sendDone_spec { s with sess := sess' } host' clk
      payload.length "DpdkTcpStream::send(plain,post-burst)"
    exact ⟨hputs.congr (by rw [hstream]; rfl) hwire,
      ⟨_, _, _, _, hstream, hsame, hrx'.trans hrx, .inl rfl, rfl, rfl⟩,
      fun n hn => ⟨hlen n hn, hsent⟩⟩

/-- What the TLS path puts on the wire, and how it ends. -/
theorem sendTls_puts (htls : s.cfg.enableTls = true) :
    ∃ segs, Puts segs s.sess (s.sendTls eng host clk payload).2.1.sess host
        (s.sendTls eng host clk payload).2.2 ∧
      Sends eng s (s.sendTls eng host clk payload).2.1 host
        (s.sendTls eng host clk payload).2.2 ∧
      SendOutcome eng s (s.sendTls eng host clk payload).2.1
        ⟨payload, some (eng.encryptForSend s.tls payload).1,
          (s.sendTls eng host clk payload).1, segs⟩ := by
  unfold sendTls
  split
  · rename_i e tls hencrypt
    exact ⟨[], .nothing rfl rfl,
      ⟨_, _, _, _, rfl, .refl s.sess, rfl, .inr ⟨payload, by rw [hencrypt]⟩, rfl, rfl⟩,
      .unsealed htls e (by rw [hencrypt]) rfl rfl rfl⟩
  rename_i buf tls hencrypt
  obtain ⟨segs, hputs, hsent⟩ := sendAll_puts s.sess host buf
  obtain ⟨hsame, hrx⟩ := sendAll_same s.sess host buf
  generalize sendAll s.sess host buf = all at hputs hsent hsame hrx
  obtain ⟨stop, sess', host'⟩ := all
  have hsealed : some (eng.encryptForSend s.tls payload).1 = some (.ok buf) := by rw [hencrypt]
  have hwrites : tls = s.tls ∨ ∃ data, tls = (eng.encryptForSend s.tls data).2 :=
    .inr ⟨payload, by rw [hencrypt]⟩
  refine ⟨segs, ?_⟩
  cases stop with
  | failed e off | zero off =>
    exact ⟨hputs.congr rfl (sendFailed_wire ..), ⟨_, _, _, _, rfl, hsame,
      (checkPostBurst_kept ..).2.trans hrx, hwrites, rfl, rfl⟩,
      .cut htls buf hencrypt hsealed hsent.1 ⟨_, rfl⟩ rfl⟩
  | done =>
    obtain ⟨hstream, hwire, hrx', hlen⟩ := sendDone_spec { s with tls := tls, sess := sess' }
      host' clk payload.length "DpdkTcpStream::send(TLS,post-burst)"
    exact ⟨hputs.congr (by rw [hstream]; rfl) hwire,
      ⟨_, _, _, _, hstream, hsame, hrx'.trans hrx, hwrites, rfl, rfl⟩,
      .whole htls buf (by rw [hstream]; exact hencrypt) hsealed hsent hlen⟩

/-- **One send.** It puts its segments on the wire, does nothing else that a send cannot do, and
ends in one of the five ways. -/
theorem send_spec :
    ∃ segs, Puts segs s.sess (s.send eng host clk payload).2.1.sess host
        (s.send eng host clk payload).2.2 ∧
      Sends eng s (s.send eng host clk payload).2.1 host (s.send eng host clk payload).2.2 ∧
      SendOutcome eng s (s.send eng host clk payload).2.1
        ⟨payload, if s.sendReady host && s.cfg.enableTls then
          some (eng.encryptForSend s.tls payload).1 else none,
          (s.send eng host clk payload).1, segs⟩ := by
  obtain ⟨host₁, hwire₁, hrx₁, hsend, hrefused⟩ := s.send_cases eng host clk payload
  cases hready : s.sendReady host with
  | false =>
    obtain ⟨e, hsend⟩ := hrefused hready
    rw [hsend]
    exact ⟨[], .nothing rfl hwire₁, ⟨_, _, _, _, rfl, .refl s.sess, hrx₁, .inl rfl, rfl, rfl⟩,
      .refused rfl ⟨e, rfl⟩ rfl rfl⟩
  | true =>
    rw [hsend hready, Sends, ← hrx₁]
    cases htls : s.cfg.enableTls with
    | false =>
      obtain ⟨segs, hputs, hsends, hlen⟩ := s.sendPlain_puts eng host₁ clk payload
      exact ⟨segs, hputs.from_wire hwire₁.symm, hsends, .plain htls rfl hlen⟩
    | true =>
      obtain ⟨segs, hputs, hsends, hend⟩ := s.sendTls_puts eng host₁ clk payload htls
      exact ⟨segs, hputs.from_wire hwire₁.symm, hsends, hend⟩

end

/-- The report of a call, from what it did. -/
theorem sendAndReport_eq {host : Host} (call : SendCall) (segs : List TxSegment)
    (hputs : Puts segs s.sess (s.send eng host call.clk call.payload).2.1.sess host
      (s.send eng host call.clk call.payload).2.2) :
    s.sendAndReport eng host call =
      (⟨call.payload, if s.sendReady host && s.cfg.enableTls then
          some (eng.encryptForSend s.tls call.payload).1 else none,
        (s.send eng host call.clk call.payload).1, segs⟩,
        (s.send eng host call.clk call.payload).2) := by
  have hsegs := congrArg (drop host.wire.length) hputs.wire
  rw [drop_left] at hsegs
  rw [sendAndReport, ← hsegs]

/-- **One call.** Its segments are on the wire and the session's frontier is past them;
it ended in one of the five ways. -/
theorem sendAndReport_spec (s : DpdkTcpStream slots γ τ) (host : Host) (call : SendCall) :
    Puts (s.sendAndReport eng host call).1.segments s.sess
        (s.sendAndReport eng host call).2.1.sess host (s.sendAndReport eng host call).2.2 ∧
      (s.sendAndReport eng host call).2.1.cfg = s.cfg ∧
      SendOutcome eng s (s.sendAndReport eng host call).2.1 (s.sendAndReport eng host call).1 := by
  obtain ⟨segs, hputs, ⟨_, _, _, _, hsent, -⟩, hend⟩ := s.send_spec eng host call.clk call.payload
  rw [sendAndReport_eq eng call segs hputs]
  exact ⟨hputs, by rw [hsent], hend⟩

/-! ## Runs of calls -/

/-- A run keeps its segments in the order of the calls, in one run of sequence numbers. -/
theorem sendRun_puts (s : DpdkTcpStream slots γ τ) (host : Host) (calls : List SendCall) :
    Puts ((s.sendRun eng host calls).1.flatMap (·.segments)) s.sess
      (s.sendRun eng host calls).2.1.sess host (s.sendRun eng host calls).2.2 := by
  induction calls generalizing s host with
  | nil => exact .nothing rfl rfl
  | cons call calls ih =>
    obtain ⟨hputs, -, -⟩ := s.sendAndReport_spec eng host call
    exact hputs.trans (ih ..)

/-- A latched stream sends nothing, ever. -/
theorem sendRun_latched (host : Host) (calls : List SendCall)
    (htls : s.cfg.enableTls = true) (hlatch : s.tlsCorrupt = true) :
    ∀ r ∈ (s.sendRun eng host calls).1, r.segments = [] ∧ ∃ e, r.result = .error e := by
  induction calls generalizing host with
  | nil => exact nofun
  | cons call calls ih =>
    have hready : s.sendReady host = false := by simp [sendReady, htls, hlatch]
    obtain ⟨host', hwire, -, -, hrefused⟩ := s.send_cases eng host call.clk call.payload
    obtain ⟨e, hsend⟩ := hrefused hready
    have hputs : Puts [] s.sess s.sess host host' := .nothing rfl hwire
    have hreport := sendAndReport_eq eng call [] (by rwa [hsend])
    rw [hsend] at hreport
    intro r hr
    rw [sendRun, hreport] at hr
    rcases mem_cons.mp hr with rfl | hr
    · exact ⟨rfl, e, rfl⟩
    · exact ih host' r hr

/-- After a call that desynchronised the record layer, no call transmits anything. -/
theorem sendRun_desynced (s : DpdkTcpStream slots γ τ) (host : Host) (calls : List SendCall)
    (htls : s.cfg.enableTls = true) {front rest : List SendReport} {r : SendReport}
    (hsplit : (s.sendRun eng host calls).1 = front ++ r :: rest) (hdesync : r.Desyncs) :
    ∀ later ∈ rest, later.segments = [] ∧ ∃ e, later.result = .error e := by
  induction calls generalizing s host front with
  | nil => simp [sendRun] at hsplit
  | cons call calls ih =>
    obtain ⟨-, hcfg, hend⟩ := s.sendAndReport_spec eng host call
    rw [sendRun] at hsplit
    cases front with
    | cons first front => exact ih _ _ (hcfg ▸ htls) (List.cons.inj hsplit).2
    | nil =>
      obtain ⟨rfl, rfl⟩ := List.cons.inj hsplit
      have hlatch : (s.sendAndReport eng host call).2.1.tlsCorrupt = true := by
        cases hend with
        | unsealed _ e _ _ _ hlatch | cut _ buf _ _ _ _ hlatch => exact hlatch
        | refused hsealed | plain _ hsealed => simp [SendReport.Desyncs, hsealed] at hdesync
        | whole _ buf _ hsealed hput => simp [SendReport.Desyncs, hsealed, hput] at hdesync
      exact sendRun_latched eng _ calls (hcfg ▸ htls) hlatch

end DpdkTcpStream

/-- An engine that sends as `TlsState` does, with the cipher `aead`; its other operations
are those of `eng`. -/
def TlsEngine.sealingWith {slots : Nat} {τ : Type} (eng : TlsEngine slots (τ × TlsSendHalf))
    (aead : Seal) : TlsEngine slots (τ × TlsSendHalf) :=
  { eng with
    encryptForSend := fun t data =>
      ((t.2.encryptForSend aead data).1, t.1, (t.2.encryptForSend aead data).2) }

theorem TlsEngine.sealingWith_encrypt {eng : TlsEngine slots (τ × TlsSendHalf)} {aead : Seal}
    {t t' : τ × TlsSendHalf} {data : Bytes} {sealed : Except ErrorInfo Bytes}
    (h : (eng.sealingWith aead).encryptForSend t data = (sealed, t')) :
    t.2.encryptForSend aead data = (sealed, t'.2) := by
  obtain ⟨hsealed, rfl⟩ := Prod.mk.inj h
  exact Prod.ext hsealed rfl

/-- The bytes on the wire begin the records `rs`; a call that reports success has all of
them there, and they hold its payload. -/
def SendReport.Within (r : SendReport) (rs : List SealedRecord) : Prop :=
  r.put <+: sealedBytes rs ∧
    ∀ n, r.result = .ok n →
      n = r.payload.length ∧ r.put = sealedBytes rs ∧ sealedData rs = r.payload

/-- A call that sent nothing and failed. -/
theorem SendReport.within_nil {r : SendReport} (hput : r.segments = [])
    (hresult : ∃ e, r.result = .error e) : r.Within [] := by
  obtain ⟨e, he⟩ := hresult
  refine ⟨by simp [SendReport.put, hput], fun n hn => ?_⟩
  rw [he] at hn
  cases hn

namespace DpdkTcpStream

variable {slots : Nat} {γ τ : Type}

/-- The records of a run, a list for each call: those a call sealed, or none.  Together
they are numbered without a gap, and what is on the wire is a first part of them. -/
structure RecordRun (aead : Seal) (half : TlsSendHalf) (reports : List SendReport)
    (records : List (List SealedRecord)) : Prop where
  within : List.Forall₂ SendReport.Within reports records
  sealed : ∀ r ∈ records.flatten, half.Seals aead r
  numbered : Numbered half.nextSeq records.flatten
  onWire : reports.flatMap (·.put) <+: sealedBytes records.flatten

variable {reports : List SendReport}

theorem flatMap_put_eq_nil (h : ∀ r ∈ reports, r.segments = []) : reports.flatMap (·.put) = [] := by
  rw [flatMap_eq_nil_iff]
  exact fun r hr => by rw [SendReport.put, h r hr, segmentBytes_nil]

/-- A run in which nothing is sent. -/
theorem RecordRun.silent (aead : Seal) (half : TlsSendHalf)
    (h : ∀ r ∈ reports, r.segments = [] ∧ ∃ e, r.result = .error e) :
    RecordRun aead half reports (reports.map fun _ => []) := by
  have hflat : (reports.map fun _ => ([] : List SealedRecord)).flatten = [] := by simp
  refine ⟨?_, by simp, by rw [hflat]; exact .nil _, ?_⟩
  · rw [List.forall₂_map_right_iff, List.forall₂_same]
    exact fun r hr => SendReport.within_nil (h r hr).1 (h r hr).2
  · rw [flatMap_put_eq_nil fun r hr => (h r hr).1]
    exact List.nil_prefix

/-- One more call in front: its records come first, and either they are all on the wire
or nothing after them is. -/
theorem RecordRun.cons {aead : Seal} {half half' : TlsSendHalf} {r : SendReport}
    {rs : List SealedRecord} {records : List (List SealedRecord)}
    (h : RecordRun aead half' reports records) (hwithin : r.Within rs)
    (hsealed : ∀ x ∈ rs, half.Seals aead x) (hnum : Numbered half.nextSeq rs)
    (hkey : ∀ x, half'.Seals aead x → half.Seals aead x)
    (hnext : half'.nextSeq = half.nextSeq + rs.length)
    (hwire : r.put = sealedBytes rs ∨ reports.flatMap (·.put) = []) :
    RecordRun aead half (r :: reports) (rs :: records) where
  within := .cons hwithin h.within
  sealed := by
    intro x hx
    rcases mem_append.mp (flatten_cons ▸ hx) with hx | hx
    · exact hsealed x hx
    · exact hkey x (h.sealed x hx)
  numbered := by
    rw [flatten_cons]
    exact hnum.append (hnext ▸ h.numbered)
  onWire := by
    have hbytes : sealedBytes (rs :: records).flatten =
        sealedBytes rs ++ sealedBytes records.flatten := by
      rw [flatten_cons, sealedBytes, flatMap_append]
      rfl
    rw [hbytes, flatMap_cons]
    rcases hwire with hput | hnone
    · rw [hput]
      exact (prefix_append_right_inj _).mpr h.onWire
    · rw [hnone, append_nil]
      exact hwithin.1.trans (prefix_append ..)

/-- **The records of a run.** -/
theorem sendRun_records (eng : TlsEngine slots (τ × TlsSendHalf)) (aead : Seal)
    (s : DpdkTcpStream slots γ (τ × TlsSendHalf)) (host : Host) (calls : List SendCall)
    (htls : s.cfg.enableTls = true) :
    ∃ records, RecordRun aead s.tls.2 (s.sendRun (eng.sealingWith aead) host calls).1 records := by
  induction calls generalizing s host with
  | nil => exact ⟨_, .silent aead s.tls.2 nofun⟩
  | cons call calls ih =>
    obtain ⟨-, hcfg, hend⟩ := s.sendAndReport_spec (eng.sealingWith aead) host call
    rw [sendRun]
    generalize s.sendAndReport (eng.sealingWith aead) host call = made at hcfg hend
    obtain ⟨r, s', host'⟩ := made
    have htls' : s'.cfg.enableTls = true := by rw [← htls, ← hcfg]
    obtain ⟨records, hrecords⟩ := ih s' host' htls'
    cases hend with
    | plain hplain => exact absurd htls (by simp [hplain])
    | refused _ hresult hput hs =>
      obtain rfl : s' = s := hs
      exact ⟨[] :: records, hrecords.cons (SendReport.within_nil hput hresult) nofun
        (.nil _) (fun _ hx => hx) rfl (.inl (by rw [SendReport.put, hput]; rfl))⟩
    | unsealed _ e _ hresult hput hlatch =>
      have hsilent := sendRun_latched (eng.sealingWith aead) host' calls htls' hlatch
      exact ⟨_, (RecordRun.silent aead s.tls.2 hsilent).cons
        (SendReport.within_nil hput ⟨e, hresult⟩) nofun (.nil _) (fun _ hx => hx) rfl
        (.inl (by rw [SendReport.put, hput]; rfl))⟩
    | whole _ buf hencrypt _ hput hresult =>
      obtain ⟨rs, rfl, hdata, hnum, hseals, hkey, hnext⟩ :=
        TlsSendHalf.encryptForSend_ok (TlsEngine.sealingWith_encrypt hencrypt)
      exact ⟨rs :: records, hrecords.cons
        ⟨hput ▸ prefix_rfl, fun n hn => ⟨hresult n hn, hput, hdata⟩⟩ hseals hnum hkey hnext
        (.inl hput)⟩
    | cut _ buf hencrypt _ hput hresult hlatch =>
      obtain ⟨rs, rfl, -, hnum, hseals, hkey, hnext⟩ :=
        TlsSendHalf.encryptForSend_ok (TlsEngine.sealingWith_encrypt hencrypt)
      have hsilent := sendRun_latched (eng.sealingWith aead) host' calls htls' hlatch
      obtain ⟨e, he⟩ := hresult
      refine ⟨_, (RecordRun.silent aead s'.tls.2 hsilent).cons
        ⟨hput, fun n hn => absurd (he.symm.trans hn) nofun⟩ hseals hnum hkey hnext (.inr ?_)⟩
      exact flatMap_put_eq_nil fun x hx => (hsilent x hx).1

section

variable (eng : TlsEngine slots τ) (s : DpdkTcpStream slots γ τ) (host : Host)
  (calls : List SendCall)

/-- In plaintext, a call that reports success has its payload on the wire. -/
theorem sendRun_plain (htls : s.cfg.enableTls = false) :
    ∀ r ∈ (s.sendRun eng host calls).1, ∀ n, r.result = .ok n →
      n = r.payload.length ∧ r.put = r.payload := by
  induction calls generalizing s host with
  | nil => exact nofun
  | cons call calls ih =>
    obtain ⟨-, hcfg, hend⟩ := s.sendAndReport_spec eng host call
    rw [sendRun]
    generalize s.sendAndReport eng host call = made at hcfg hend
    obtain ⟨first, s', host'⟩ := made
    intro r hr n hn
    rcases mem_cons.mp hr with rfl | hr
    · cases hend with
      | plain _ _ hresult => exact hresult n hn
      | refused _ hresult =>
        obtain ⟨e, he⟩ := hresult
        exact absurd (he.symm.trans hn) nofun
      | unsealed hon | whole hon | cut hon => exact absurd hon (by simp [htls])
    · exact ih s' host' (by rw [← htls, ← hcfg]) r hr n hn

theorem sendRun_payloads :
    (s.sendRun eng host calls).1.map (·.payload) = calls.map (·.payload) := by
  induction calls generalizing s host with
  | nil => rfl
  | cons call calls ih => exact congrArg (call.payload :: ·) (ih ..)

end

/-- **Send integrity.** Whatever becomes of the transmissions of a run of sends, the
segments of its calls stand on the wire in the order of the calls and in one run of
sequence numbers.  In plaintext a call that reports success has its payload there.  Over
TLS what is on the wire is a first part of records that are numbered without a gap, a
call that reports success has all of its own records there, and after a call that failed
to seal its bytes, or to transmit all that it had sealed, no call transmits anything. -/
theorem stream_send_integrity (eng : TlsEngine slots (τ × TlsSendHalf)) (aead : Seal)
    (s : DpdkTcpStream slots γ (τ × TlsSendHalf)) (host : Host) (calls : List SendCall) :
    (s.sendRun (eng.sealingWith aead) host calls).1.map (·.payload) = calls.map (·.payload) ∧
      (s.sendRun (eng.sealingWith aead) host calls).2.2.wire =
        host.wire ++ (s.sendRun (eng.sealingWith aead) host calls).1.flatMap (·.segments) ∧
      Contiguous s.sess.sndNxt
        ((s.sendRun (eng.sealingWith aead) host calls).1.flatMap (·.segments)) ∧
      (s.cfg.enableTls = false →
        ∀ r ∈ (s.sendRun (eng.sealingWith aead) host calls).1, ∀ n, r.result = .ok n →
          n = r.payload.length ∧ r.put = r.payload) ∧
      (s.cfg.enableTls = true →
        (∃ records, RecordRun aead s.tls.2 (s.sendRun (eng.sealingWith aead) host calls).1
          records) ∧
        ∀ front r rest,
          (s.sendRun (eng.sealingWith aead) host calls).1 = front ++ r :: rest → r.Desyncs →
            ∀ later ∈ rest, later.segments = [] ∧ ∃ e, later.result = .error e) := by
  have hputs := s.sendRun_puts (eng.sealingWith aead) host calls
  refine ⟨sendRun_payloads .., hputs.wire, hputs.contiguous, sendRun_plain _ s host calls,
    fun htls => ?_⟩
  refine ⟨sendRun_records eng aead s host calls htls, ?_⟩
  exact fun front r rest hsplit hdesync => sendRun_desynced _ s host calls htls hsplit hdesync

end DpdkTcpStream

end Eph.Net.Dpdk
