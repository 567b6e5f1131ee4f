import Ephemeral.TcpInput
import Ephemeral.TlsRecord
import Ephemeral.WsHandshake

/-!
# The byte sinks of the upgrade handshake

Between the handshake driver and the TCP session stand two adapters.  The plaintext
sink stages what the session delivers and serves the driver from the stage; the TLS
sink collects ciphertext, opens the records that are complete, and serves the driver
from their plaintext.  Both poll the session at most sixteen times per read and serve
no more than the driver asks for, so that bytes may stay behind in the stage.

The TLS handshake and the ciphers are third-party code: `TlsEngine` is what the
stream uses of them.
-/

namespace Eph.Net.Dpdk

open ByteOrder Core Eph.Dpdk List

/-- The TLS state of a stream: the handshake, which reads and writes the session, and
the two record directions. -/
structure TlsEngine (slots : Nat) (τ : Type) where
  beginHandshake : τ → Except ErrorInfo Unit × τ
  handshakeStep : τ → TcpSession slots → Host → Clock →
    Except ErrorInfo Bool × τ × TcpSession slots × Host
  wasResumed : τ → Bool
  isEstablished : τ → Bool
  openInPlace : τ → Bytes → Option (Bytes × UInt8) × τ
  encryptForSend : τ → Bytes → Except ErrorInfo Bytes × τ

section Records

variable {slots : Nat} {τ ω : Type}

/-- Open one record with the TLS state that a world `ω` holds. -/
def TlsEngine.openRecord (eng : TlsEngine slots τ) (tls : ω → τ) (setTls : ω → τ → ω) (w : ω)
    (rec : Bytes) : Option (Bytes × UInt8) × ω :=
  ((eng.openInPlace (tls w) rec).1, setTls w (eng.openInPlace (tls w) rec).2)

/-- `TlsState::process_records_in_place`. -/
def TlsEngine.processRecordsInPlace (eng : TlsEngine slots τ) (tls : ω → τ) (setTls : ω → τ → ω)
    (emit : ω → Bytes → ω) (w : ω) (buf : Bytes) : Except ErrorInfo Nat × ω :=
  if eng.isEstablished (tls w) then
    processRecords (eng.openRecord tls setTls) emit inPlaceErrors buf.length w buf 0
  else
    (.error ⟨.tlsHandshakeFailed, "TlsState::process_records_in_place: not established"⟩, w)

end Records

/-- How the loop that sends a buffer segment by segment ends: everything went out, a
send failed, or a send took nothing; `off` bytes were out by then. -/
inductive SendLoop
  | done
  | failed (e : ErrorInfo) (off : Nat)
  | zero (off : Nat)
  deriving DecidableEq

section Send

variable {slots : Nat}

/-- Send `data` in segments of at most `mss` bytes. -/
def sendChunks (mss : Nat) : Nat → TcpSession slots → Host → Bytes → Nat →
    SendLoop × TcpSession slots × Host
  | 0, sess, host, _, _ => (.done, sess, host)
  | fuel + 1, sess, host, data, off =>
    if data.isEmpty then (.done, sess, host)
    else
      match sess.send host (data.take mss) with
      | (.error e, sess, host) => (.failed e off, sess, host)
      | (.ok n, sess, host) =>
        if n = 0 then (.zero off, sess, host)
        else sendChunks mss fuel sess host (data.drop n) (off + n)

/-- Send a whole buffer; every round takes a byte of it. -/
def sendAll (sess : TcpSession slots) (host : Host) (data : Bytes) :
    SendLoop × TcpSession slots × Host :=
  sendChunks sess.effectiveMss.toNat data.length sess host data 0

theorem sendChunks_same (mss fuel : Nat) (sess : TcpSession slots) (host : Host) (data : Bytes)
    (off : Nat) :
    SameInput sess (sendChunks mss fuel sess host data off).2.1 ∧
      (sendChunks mss fuel sess host data off).2.2.rx = host.rx := by
  induction fuel generalizing sess host data off with
  | zero => exact ⟨SameInput.refl sess, rfl⟩
  | succ fuel ih =>
    obtain ⟨hsame, hrx⟩ := sess.send_same host (data.take mss)
    unfold sendChunks
    split
    · exact ⟨SameInput.refl sess, rfl⟩
    split
    · rename_i hsend
      rw [hsend] at hsame hrx
      exact ⟨hsame, hrx⟩
    rename_i n sess' host' hsend
    rw [hsend] at hsame hrx
    split
    · exact ⟨hsame, hrx⟩
    · obtain ⟨hsame', hrx'⟩ := ih sess' host' (data.drop n) (off + n)
      exact ⟨hsame.trans hsame', hrx'.trans hrx⟩

/-- Sending touches nothing of what was received. -/
theorem sendAll_same (sess : TcpSession slots) (host : Host) (data : Bytes) :
    SameInput sess (sendAll sess host data).2.1 ∧ (sendAll sess host data).2.2.rx = host.rx :=
  sendChunks_same ..

end Send

/-- How often a sink polls the session before it gives up. -/
def kWsHandshakeRecvBurstRetries : Nat := 16

/-- `PlainDpdkWsSink` and `TlsDpdkWsSink`, with the bytes they have not served yet. -/
inductive WsSink
  | plain (staged : Bytes)
  | tls (cipher plain : Bytes)
  deriving DecidableEq

/-- What a sink works on: the stream's session and TLS state, the machine, and its
own buffers. -/
structure SinkWorld (slots : Nat) (τ : Type) where
  sess : TcpSession slots
  host : Host
  tls : τ
  sink : WsSink

section Sinks

variable {slots : Nat} {τ : Type} (eng : TlsEngine slots τ)

/-- The payload callback of the sinks: append to the stage. -/
def stage : DataCallback slots Bytes :=
  fun staged sess data => (staged ++ data, sess)

/-- The polling loop of `PlainDpdkWsSink::recv`, on an empty stage. -/
def recvPlain (clk : Clock) (cap : Nat) (tls : τ) :
    Nat → TcpSession slots → Host → Except ErrorInfo Bytes × SinkWorld slots τ
  | 0, sess, host =>
    (.error ⟨.wouldBlock, "PlainDpdkWsSink::recv: no data after bounded retry"⟩,
      ⟨sess, host, tls, .plain []⟩)
  | iter + 1, sess, host =>
    let o := sess.pollRx host clk stage []
    match o.result with
    | .error _ =>
      (.error ⟨.disconnected, "PlainDpdkWsSink::recv: TcpSession::poll_rx failed"⟩,
        ⟨o.sess, o.host, tls, .plain o.user⟩)
    | .ok _ =>
      if o.user.isEmpty then recvPlain clk cap tls iter o.sess o.host
      else (.ok (o.user.take cap), ⟨o.sess, o.host, tls, .plain (o.user.drop cap)⟩)

/-- The record loop of the TLS sink: plaintext is appended to the stage. -/
def TlsEngine.openStaged (tls : τ) (cipher : Bytes) : Except ErrorInfo Nat × τ × Bytes :=
  eng.processRecordsInPlace Prod.fst (fun w t => (t, w.2)) (fun w p => (w.1, w.2 ++ p))
    (tls, []) cipher

/-- The polling loop of `TlsDpdkWsSink::recv`, on an empty plaintext stage. -/
def recvTls (eng : TlsEngine slots τ) (clk : Clock) (cap : Nat) :
    Nat → TcpSession slots → Host → τ → Bytes → Except ErrorInfo Bytes × SinkWorld slots τ
  | 0, sess, host, tls, cipher =>
    (.error ⟨.wouldBlock, "TlsDpdkWsSink::recv: no plaintext after bounded retry"⟩,
      ⟨sess, host, tls, .tls cipher []⟩)
  | iter + 1, sess, host, tls, cipher =>
    let o := sess.pollRx host clk stage cipher
    match o.result with
    | .error _ =>
      (.error ⟨.disconnected, "TlsDpdkWsSink::recv: TcpSession::poll_rx failed"⟩,
        ⟨o.sess, o.host, tls, .tls o.user []⟩)
    | .ok _ =>
      if o.user.isEmpty then recvTls eng clk cap iter o.sess o.host tls o.user
      else
        match eng.openStaged tls o.user with
        | (.error e, tls, plain) => (.error e, ⟨o.sess, o.host, tls, .tls o.user plain⟩)
        | (.ok consumed, tls, plain) =>
          if plain.isEmpty then
            recvTls eng clk cap iter o.sess o.host tls (o.user.drop consumed)
          else
            (.ok (plain.take cap),
              ⟨o.sess, o.host, tls, .tls (o.user.drop consumed) (plain.drop cap)⟩)

/-- What both sinks report of a send, under their own name. -/
def sendResult (name : String) (len : Nat) : SendLoop → Except ErrorInfo Nat
  | .done => .ok len
  | .failed _ _ => .error ⟨.disconnected, name ++ "::send: TcpSession::send failed"⟩
  | .zero _ => .error ⟨.bufferFull, name ++ "::send: TcpSession::send returned 0 bytes"⟩

/-- `send` of the two sinks. -/
def SinkWorld.send (w : SinkWorld slots τ) (data : Bytes) :
    Except ErrorInfo Nat × SinkWorld slots τ :=
  match w.sink with
  | .plain _ =>
    let (stop, sess, host) := sendAll w.sess w.host data
    (sendResult "PlainDpdkWsSink" data.length stop, { w with sess := sess, host := host })
  | .tls _ _ =>
    match eng.encryptForSend w.tls data with
    | (.error e, tls) => (.error e, { w with tls := tls })
    | (.ok scratch, tls) =>
      let (stop, sess, host) := sendAll w.sess w.host scratch
      (sendResult "TlsDpdkWsSink" data.length stop,
        { w with sess := sess, host := host, tls := tls })

/-- `recv` of the two sinks: the stage first, then the session. -/
def SinkWorld.recv (clk : Clock) (w : SinkWorld slots τ) (cap : Nat) :
    Except ErrorInfo Bytes × SinkWorld slots τ :=
  match w.sink with
  | .plain staged =>
    if staged.isEmpty then recvPlain clk cap w.tls kWsHandshakeRecvBurstRetries w.sess w.host
    else (.ok (staged.take cap), { w with sink := .plain (staged.drop cap) })
  | .tls cipher plain =>
    if plain.isEmpty then
      recvTls eng clk cap kWsHandshakeRecvBurstRetries w.sess w.host w.tls cipher
    else (.ok (plain.take cap), { w with sink := .tls cipher (plain.drop cap) })

/-- The sink as the handshake driver sees it. -/
def wsSinkOps (clk : Clock) : ByteSink (SinkWorld slots τ) where
  send := SinkWorld.send eng
  recv := SinkWorld.recv eng clk

/-! ## What a sink reads -/

/-- Sending leaves the stage and what was received alone. -/
theorem SinkWorld.send_same (w : SinkWorld slots τ) (data : Bytes) :
    SameInput w.sess (w.send eng data).2.sess ∧ (w.send eng data).2.host.rx = w.host.rx ∧
      (w.send eng data).2.sink = w.sink ∧
      ((w.send eng data).2.tls = w.tls ∨
        (w.send eng data).2.tls = (eng.encryptForSend w.tls data).2) := by
  unfold SinkWorld.send
  split
  · obtain ⟨hsame, hrx⟩ := sendAll_same w.sess w.host data
    exact ⟨hsame, hrx, rfl, .inl rfl⟩
  generalize eng.encryptForSend w.tls data = enc
  obtain ⟨r, tls⟩ := enc
  cases r with
  | error e => exact ⟨SameInput.refl _, rfl, rfl, .inr rfl⟩
  | ok scratch =>
    obtain ⟨hsame, hrx⟩ := sendAll_same w.sess w.host scratch
    exact ⟨hsame, hrx, rfl, .inr rfl⟩

/-- The stage collects what the session delivers. -/
theorem stage_absorbs (base f₀ : Bytes) :
    Absorbs (stage : DataCallback slots Bytes) (fun _ => True)
      fun u f d => u = base ++ d ∧ f = f₀ where
  same := fun _ s _ _ _ _ => SameReceive.refl s
  step := by
    rintro u s d acc ⟨rfl, hf⟩ -
    exact ⟨append_assoc .., hf⟩

variable {t : ConnectionTuple} {seq : UInt32} {rest : Bytes}

/-- **A read from the plaintext sink.**  The session's feed and the packets it takes
are served up to `cap` bytes and the rest is staged; if there is nothing, the sink
says so. -/
theorem recvPlain_spec (clk : Clock) (cap : Nat) (tls : τ) (iter : Nat) {sess : TcpSession slots}
    {host : Host} (hready : Ready t seq sess) (hrest : carried t seq host.rx.flatten = some rest) :
    ∃ got sess' host', Took t seq host sess' host' got ∧
      ((got = [] ∧ sess'.rxFeed = sess.rxFeed ∧ (0 < iter → sess.rxFeed = []) ∧
        recvPlain clk cap tls iter sess host =
          (.error ⟨.wouldBlock, "PlainDpdkWsSink::recv: no data after bounded retry"⟩,
            ⟨sess', host', tls, .plain []⟩)) ∨
      (sess.rxFeed ++ got ≠ [] ∧ sess'.rxFeed = [] ∧
        recvPlain clk cap tls iter sess host = (.ok ((sess.rxFeed ++ got).take cap),
          ⟨sess', host', tls, .plain ((sess.rxFeed ++ got).drop cap)⟩))) := by
  induction iter generalizing sess host rest with
  | zero =>
    exact ⟨[], sess, host, Took.nothing hready rfl,
      .inl ⟨rfl, rfl, fun h => absurd h (Nat.lt_irrefl 0), rfl⟩⟩
  | succ iter ih =>
    obtain ⟨got, ⟨n, hok⟩, htook, huser, hfeed⟩ := pollRx_ready (Q := fun u d => u = [] ++ d)
      (stage_absorbs []) clk [] [] hready rfl hrest (fun _ _ => trivial)
    rw [recvPlain]
    simp only [hok, huser]
    by_cases hnone : sess.rxFeed ++ got = []
    · obtain ⟨hnofeed, hnogot⟩ := append_eq_nil_iff.mp hnone
      subst hnogot
      obtain ⟨later, hlater, -⟩ := htook.remaining hrest
      obtain ⟨got', sess', host', htook', hcases⟩ := ih htook.ready_nil (by simpa using hlater)
      refine ⟨got', sess', host', htook.trans_nil htook', ?_⟩
      rw [if_pos (by rw [hnone]; rfl), hnofeed]
      rw [hfeed] at hcases
      rcases hcases with ⟨hg, hf, -, hrecv⟩ | ⟨hne, hf, hrecv⟩
      · exact .inl ⟨hg, hf, fun _ => rfl, hrecv⟩
      · exact .inr ⟨hne, hf, hrecv⟩
    · rw [if_neg (by simpa using hnone)]
      exact ⟨got, _, _, htook, .inr ⟨hnone, hfeed, rfl⟩⟩

/-! ## Over an ideal record layer -/

/-- The documented behaviour of the TLS library that the data path relies on: records
open as `RecordLayer` says, and neither direction disturbs the other. -/
structure IdealTls (sealedRest : τ → List Record) : Prop where
  layer : RecordLayer eng.openInPlace sealedRest
  encrypt : ∀ tls data, sealedRest (eng.encryptForSend tls data).2 = sealedRest tls
  openKeeps : ∀ tls rec, eng.isEstablished (eng.openInPlace tls rec).2 = eng.isEstablished tls
  sendKeeps : ∀ tls data,
    eng.isEstablished (eng.encryptForSend tls data).2 = eng.isEstablished tls

/-- What is held is a proper part of the next record. -/
def PartOfNext (cipher : Bytes) (records : List Record) : Prop :=
  ∀ r rs, records = r :: rs → cipher.length < r.bytes.length

variable {eng} {sealedRest : τ → List Record}

/-- **The record loop of the TLS sink** on the peer's bytes: it opens every record that
is all there. -/
theorem openStaged_spec (hideal : IdealTls eng sealedRest) {tls : τ}
    (hup : eng.isEstablished tls = true) (hwf : ∀ r ∈ sealedRest tls, r.WellFormed)
    {cipher more : Bytes} (hcipher : cipher ++ more = recordBytes (sealedRest tls)) :
    ∃ opened tail tls', eng.openStaged tls cipher =
        (.ok (recordBytes opened).length, tls', recordData opened) ∧
      eng.isEstablished tls' = true ∧ sealedRest tls = opened ++ sealedRest tls' ∧
      cipher = recordBytes opened ++ tail ∧ PartOfNext tail (sealedRest tls') := by
  obtain ⟨opened, tail, ⟨tls', plain⟩, hloop, hsplit, ⟨hplain, hup'⟩, hbytes, hpart⟩ :=
    processRecords_complete (P := fun (w : τ × Bytes) acc =>
        w.2 = acc ∧ eng.isEstablished w.1 = true)
      (fun w p => (w.1, w.2 ++ p))
      (hideal.layer.lift Prod.fst (fun (w : τ × Bytes) t => (t, w.2)) fun _ _ => rfl)
      (fun _ _ => rfl)
      (by
        rintro ⟨tls, plain⟩ bytes acc ⟨hacc, hup⟩
        exact ⟨hacc, (hideal.openKeeps tls bytes).trans hup⟩)
      (by
        rintro ⟨tls, plain⟩ p acc ⟨rfl, hup⟩
        exact ⟨rfl, hup⟩)
      inPlaceErrors cipher.length (tls, []) cipher more 0 ⟨rfl, hup⟩ (Nat.le_refl _)
      (fun r hr => (hwf r hr).framed) hcipher
  refine ⟨opened, tail, tls', ?_, hup', hsplit, hbytes, hpart⟩
  rw [TlsEngine.openStaged, TlsEngine.processRecordsInPlace, if_pos hup]
  refine hloop.trans ?_
  rw [Nat.zero_add]
  dsimp only at hplain
  rw [hplain, nil_append]

/-- A read has taken packets that carry `got`, and opened the records `opened`. -/
structure TlsTook (eng : TlsEngine slots τ) (sealedRest : τ → List Record) (t : ConnectionTuple)
    (seq : UInt32) (sess : TcpSession slots) (host : Host) (tls : τ) (cipher : Bytes)
    (got : Bytes) (opened : List Record) (sess' : TcpSession slots) (host' : Host) (tls' : τ)
    (cipher' : Bytes) : Prop where
  took : Took t seq host sess' host' got
  up : eng.isEstablished tls' = true
  records : sealedRest tls = opened ++ sealedRest tls'
  bytes : cipher ++ (sess.rxFeed ++ got) = recordBytes opened ++ cipher' ++ sess'.rxFeed
  part : PartOfNext cipher' (sealedRest tls')

/-- What the TLS sink answers when it has opened the records `opened`. -/
def recvTlsResult (cap : Nat) (opened : List Record) : Except ErrorInfo Bytes :=
  if opened.isEmpty then
    .error ⟨.wouldBlock, "TlsDpdkWsSink::recv: no plaintext after bounded retry"⟩
  else .ok ((recordData opened).take cap)

/-- **A read from the TLS sink.**  The session's feed and the packets it takes are added
to the ciphertext, and the records that are complete are opened.  Their data is served
up to `cap` bytes and the rest is staged. -/
theorem recvTls_spec (hideal : IdealTls eng sealedRest) (clk : Clock) (cap : Nat) (iter : Nat)
    {sess : TcpSession slots} {host : Host} {tls : τ} {cipher : Bytes}
    (hready : Ready t seq sess) (hrest : carried t seq host.rx.flatten = some rest)
    (hup : eng.isEstablished tls = true) (hwf : ∀ r ∈ sealedRest tls, r.WellFormed)
    (hpart : PartOfNext cipher (sealedRest tls))
    (hcipher : cipher ++ (sess.rxFeed ++ rest) = recordBytes (sealedRest tls)) :
    ∃ got opened sess' host' tls' cipher',
      TlsTook eng sealedRest t seq sess host tls cipher got opened sess' host' tls' cipher' ∧
      (0 < iter ∨ sess.rxFeed = [] → sess'.rxFeed = []) ∧
      recvTls eng clk cap iter sess host tls cipher = (recvTlsResult cap opened,
        ⟨sess', host', tls', .tls cipher' ((recordData opened).drop cap)⟩) := by
  induction iter generalizing seq sess host rest tls cipher with
  | zero =>
    refine ⟨[], [], sess, host, tls, cipher, ⟨Took.nothing hready rfl, hup, rfl, ?_, hpart⟩, ?_, ?_⟩
    · rw [append_nil, recordBytes_nil, nil_append]
    · rintro (h | h)
      · exact absurd h (Nat.lt_irrefl 0)
      · exact h
    · rw [recordData_nil, drop_nil]
      rfl
  | succ iter ih =>
    obtain ⟨got, ⟨n, hok⟩, htook, huser, hfeed⟩ := pollRx_ready (Q := fun u d => u = cipher ++ d)
      (stage_absorbs cipher) clk cipher [] hready (append_nil _).symm hrest
      (fun _ _ => trivial)
    rw [nil_append] at huser
    obtain ⟨later, hlater, rfl⟩ := htook.remaining hrest
    have hbuf : cipher ++ (sess.rxFeed ++ got) ++ later = recordBytes (sealedRest tls) := by
      rw [← hcipher]
      simp only [append_assoc]
    rw [recvTls]
    simp only [hok, huser]
    generalize (sess.pollRx host clk stage cipher).sess = sess₁ at htook hfeed
    generalize (sess.pollRx host clk stage cipher).host = host₁ at htook hlater
    -- The next iteration, if nothing could be opened.
    have hagain : ∀ tls₁, eng.isEstablished tls₁ = true → sealedRest tls₁ = sealedRest tls →
        PartOfNext (cipher ++ (sess.rxFeed ++ got)) (sealedRest tls₁) →
        ∃ got' opened sess' host' tls' cipher',
          TlsTook eng sealedRest t seq sess host tls cipher got' opened sess' host' tls' cipher' ∧
          (0 < iter + 1 ∨ sess.rxFeed = [] → sess'.rxFeed = []) ∧
          recvTls eng clk cap iter sess₁ host₁ tls₁ (cipher ++ (sess.rxFeed ++ got)) =
            (recvTlsResult cap opened,
              ⟨sess', host', tls', .tls cipher' ((recordData opened).drop cap)⟩) := by
      intro tls₁ hup₁ hsame hpart₁
      obtain ⟨got', opened, sess', host', tls', cipher', hread, hempty, hrecv⟩ :=
        ih htook.ready hlater hup₁ (by rw [hsame]; exact hwf) hpart₁
          (by rw [hfeed, hsame, nil_append]; exact hbuf)
      refine ⟨got ++ got', opened, sess', host', tls', cipher',
        ⟨htook.trans hread.took, hread.up, hsame ▸ hread.records, ?_, hread.part⟩,
        fun _ => hempty (.inr hfeed), hrecv⟩
      have hbytes := hread.bytes
      rw [hfeed, nil_append] at hbytes
      rw [← hbytes]
      simp only [append_assoc]
    by_cases hnil : cipher ++ (sess.rxFeed ++ got) = []
    · rw [if_pos (isEmpty_iff.mpr hnil)]
      refine hagain tls hup rfl ?_
      rw [hnil]
      intro r rs hcons
      exact (hwf r (by rw [hcons]; exact mem_cons_self)).length_pos
    · rw [if_neg (by simpa using hnil)]
      obtain ⟨opened, tail, tls₁, hopen, hup₁, hsplit, htail, hpart₁⟩ :=
        openStaged_spec hideal hup hwf hbuf
      rw [hopen]
      dsimp only
      by_cases hnone : opened = []
      · subst hnone
        rw [recordBytes_nil, nil_append] at htail
        rw [recordData_nil, isEmpty_nil, if_pos rfl, recordBytes_nil, length_nil, drop_zero]
        exact hagain tls₁ hup₁ hsplit.symm (by rw [htail]; exact hpart₁)
      · have hdata : recordData opened ≠ [] := recordData_ne_nil hnone fun r hr =>
          hwf r (by rw [hsplit]; exact mem_append_left _ hr)
        rw [if_neg (by simpa using hdata)]
        refine ⟨got, opened, sess₁, host₁, tls₁, tail, ⟨htook, hup₁, hsplit, ?_, hpart₁⟩,
          fun _ => hfeed, ?_⟩
        · rw [hfeed, append_nil, htail]
        · rw [htail, drop_left, recvTlsResult, if_neg (by simpa using hnone)]

end Sinks

end Eph.Net.Dpdk
