import Ephemeral.ByteExchange
import Ephemeral.HttpHead
import Ephemeral.WsHandshake

/-!
# The WebSocket upgrade over an unreliable schedule

The driver is stepped until it has a verdict, over a pipe that takes any part of the
request, delivers the response in any pieces, and blocks whenever it likes.  This is the
request-and-answer client of `Exchange`: the driver's phases are its phases, its response
buffer is the client's buffer, and it tells the answer by parsing what the buffer holds.
Parsers' answers are final below the line limits, so the verdict does not depend on the
schedule (`ws_upgrade_chunking`).
-/

namespace Eph.Net

open ByteOrder Core Exchange List

/-- The pipe as the driver's sink. -/
def wireSink : ByteSink (Wire UInt8) where
  send w data :=
    match w.send data with
    | (none, w) => (.error ⟨.wouldBlock, "send would block"⟩, w)
    | (some n, w) => (.ok n, w)
  recv w cap :=
    match w.recv cap with
    | (none, w) => (.error ⟨.wouldBlock, "recv would block"⟩, w)
    | (some data, w) => (.ok data, w)

/-- A driver that has been stepped, with the verdict if there is one. -/
structure UpgradeRun where
  verdict : Option (Except ErrorInfo Unit)
  driver : WsHandshakeDriver
  wire : Wire UInt8

namespace WsHandshakeDriver

/-- Step the driver until it completes or fails, at most `n` times. -/
def drive : Nat → WsHandshakeDriver → Wire UInt8 → UpgradeRun
  | 0, d, w => ⟨none, d, w⟩
  | n + 1, d, w =>
    match d.step wireSink w with
    | (.ok false, d, w) => drive n d w
    | (.ok true, d, w) => ⟨some (.ok ()), d, w⟩
    | (.error e, d, w) => ⟨some (.error e), d, w⟩

/-- What the driver can tell from its response buffer. -/
def wsAnswer (rx : Bytes) : Option (Except ErrorInfo (ParseResult HttpResponse)) :=
  match parseHttpResponse rx kMaxHeaderCount with
  | .error _ => some (.error ⟨.wsHandshakeFailed, "ws_handshake: malformed response"⟩)
  | .ok none => none
  | .ok (some parsed) => some (.ok parsed)

/-- The driver as it reads. -/
def reading (d : WsHandshakeDriver) (rx : Bytes) : WsHandshakeDriver :=
  { d with phase := .receiving, sent := d.req.length, rx := rx }

/-- Where a driver that started as `d` is in each phase of the exchange. -/
def concluded (d : WsHandshakeDriver) :
    Phase UInt8 (Except ErrorInfo (ParseResult HttpResponse)) × Wire UInt8 → UpgradeRun
  | (.writing sent, w) => ⟨none, { d with sent := sent }, w⟩
  | (.reading rx, w) => ⟨none, d.reading rx, w⟩
  | (.overflow rx, w) =>
    ⟨some (.error ⟨.wsHandshakeFailed, "ws_handshake: response too large"⟩), d.reading rx, w⟩
  | (.answered rx (.error e), w) => ⟨some (.error e), d.reading rx, w⟩
  | (.answered rx (.ok parsed), w) =>
    ⟨some (((d.reading rx).validate parsed).1.map fun _ => ()),
      ((d.reading rx).validate parsed).2, w⟩

variable {d : WsHandshakeDriver} {w : Wire UInt8}

/-- The driver's answers are final as long as they are told from its buffer. -/
theorem wsAnswer_final (stream : Bytes) : Final kWsRxCapacity wsAnswer stream := by
  intro p q hpq hq
  have htake : stream.take q = stream.take p ++ (stream.drop p).take (q - p) := by
    rw [← take_add, Nat.add_sub_cancel' hpq]
  have hlen := length_take_le p stream
  unfold wsAnswer
  rw [htake, parseHttpResponse_eq, parseHttpResponse_eq]
  rcases parseMessage_append framesBody_response (stream.take p)
    ((stream.drop p).take (q - p)) kMaxHeaderCount with hnone | ⟨-, hlong⟩ | hsame
  · left
    rw [hnone]
  · unfold kMaxHeaderLineLength at hlong
    unfold kWsRxCapacity at hq
    omega
  · right
    rw [hsame]

/-- The result of a step that leads to a verdict, or to none. -/
def stepResult : Option (Except ErrorInfo Unit) → Except ErrorInfo Bool
  | none => .ok false
  | some (.ok ()) => .ok true
  | some (.error e) => .error e

/-- What a step returns if the driver is afterwards at `run`. -/
def stepped (run : UpgradeRun) : Except ErrorInfo Bool × WsHandshakeDriver × Wire UInt8 :=
  (stepResult run.verdict, run.driver, run.wire)

theorem stepResult_validate (parsed : ParseResult HttpResponse) :
    stepResult (some ((d.validate parsed).1.map fun _ => ())) = (d.validate parsed).1 := by
  unfold validate
  split
  · rfl
  · rfl

/-- A step in the sending phase is a call of the exchange. -/
theorem step_writing (hphase : d.phase = .sending) (hrx : d.rx = []) {sent : Nat}
    (hsent : sent < d.req.length) :
    ({ d with sent := sent }).step wireSink w =
      stepped (d.concluded (turn d.req kWsRxCapacity wsAnswer (.writing sent, w))) := by
  obtain ⟨phase, deflate, req, sent₀, rx, clientKey, leftover⟩ := d
  dsimp only at hphase hrx hsent
  subst hphase hrx
  have hrest : req.drop sent ≠ [] := by
    rw [ne_eq, drop_eq_nil_iff]
    omega
  obtain ⟨hwhat, -⟩ := w.send_cases (req.drop sent) hrest
  dsimp only [turn, step, wireSink]
  generalize w.send (req.drop sent) = call at hwhat ⊢
  obtain ⟨taken, w'⟩ := call
  rcases hwhat with ⟨hnone, -⟩ | ⟨n, hsome, hpos, hle, -⟩
  · cases hnone
    rfl
  cases hsome
  rw [length_drop] at hle
  dsimp only
  rw [if_neg (by omega)]
  by_cases hmore : sent + n < req.length
  · rw [if_pos hmore, if_pos hmore]
    rfl
  rw [if_neg hmore, if_neg hmore]
  have hall : sent + n = req.length := by omega
  rw [hall]
  rfl

/-- So is a step in the receiving phase. -/
theorem step_reading (rx : Bytes) :
    (d.reading rx).step wireSink w =
      stepped (d.concluded (turn d.req kWsRxCapacity wsAnswer (.reading rx, w))) := by
  dsimp only [turn, step, wireSink, reading]
  by_cases hfull : rx.length = kWsRxCapacity
  · rw [if_pos hfull, if_pos hfull]
    rfl
  rw [if_neg hfull, if_neg hfull]
  generalize w.recv (kWsRxCapacity - rx.length) = call
  obtain ⟨got, w'⟩ := call
  cases got with
  | none => rfl
  | some data =>
    dsimp only
    by_cases hempty : data.isEmpty = true
    · rw [if_pos hempty, if_pos hempty]
      rfl
    rw [if_neg hempty, if_neg hempty]
    dsimp only [onReceived, wsAnswer]
    cases hparse : parseHttpResponse (rx ++ data) kMaxHeaderCount with
    | error e => rfl
    | ok answer =>
      cases answer with
      | none => rfl
      | some parsed =>
        exact Prod.ext (stepResult_validate parsed).symm rfl

theorem drive_of_verdict {d' : WsHandshakeDriver} {run : UpgradeRun} (n : Nat)
    (hstep : d'.step wireSink w = stepped run) (hdone : run.verdict ≠ none) :
    drive (n + 1) d' w = run := by
  obtain ⟨verdict, driver, wire⟩ := run
  rw [drive, hstep]
  match verdict, hdone with
  | some (.ok ()), _ => rfl
  | some (.error e), _ => rfl

variable {s : Phase UInt8 (Except ErrorInfo (ParseResult HttpResponse)) × Wire UInt8}
  {stream : Bytes} {recvs : List RecvTurn}

/-- Without a verdict the driver can be stepped, and a step is a call of the exchange. -/
theorem step_concluded (hphase : d.phase = .sending) (hrx : d.rx = [])
    (h : Sound d.req kWsRxCapacity wsAnswer stream recvs s)
    (hopen : (d.concluded s).verdict = none) :
    (d.concluded s).driver.step wireSink s.2 =
      stepped (d.concluded (turn d.req kWsRxCapacity wsAnswer s)) := by
  obtain ⟨phase, w⟩ := s
  cases phase with
  | writing sent => exact step_writing hphase hrx h.1
  | reading rx => exact step_reading rx
  | overflow rx => cases hopen
  | answered rx b => cases b <;> cases hopen

theorem concluded_wire : (d.concluded s).wire = s.2 := by
  obtain ⟨phase, w⟩ := s
  cases phase with
  | answered rx b => cases b <;> rfl
  | writing sent | reading rx | overflow rx => rfl

/-- With a verdict the exchange is over. -/
theorem turn_of_verdict (hdone : (d.concluded s).verdict ≠ none) :
    turn d.req kWsRxCapacity wsAnswer s = s := by
  obtain ⟨phase, w⟩ := s
  cases phase with
  | writing sent | reading rx => exact absurd rfl hdone
  | overflow rx | answered rx b => rfl

/-- **Stepping the driver is running the exchange.** -/
theorem drive_eq (hphase : d.phase = .sending) (hrx : d.rx = []) (n : Nat)
    (h : Sound d.req kWsRxCapacity wsAnswer stream recvs s)
    (hopen : (d.concluded s).verdict = none) :
    drive n (d.concluded s).driver s.2 =
      d.concluded ((turn d.req kWsRxCapacity wsAnswer)^[n] s) := by
  induction n generalizing s with
  | zero =>
    rw [Function.iterate_zero_apply, drive]
    generalize hrun : d.concluded s = run at hopen
    have hwire : run.wire = s.2 := by rw [← hrun, concluded_wire]
    rw [← hopen, ← hwire]
  | succ n ih =>
    have hstep := step_concluded hphase hrx h hopen
    rw [Function.iterate_succ_apply]
    by_cases hnext : (d.concluded (turn d.req kWsRxCapacity wsAnswer s)).verdict = none
    · rw [drive, hstep]
      simp only [stepped, hnext, stepResult, concluded_wire]
      exact ih (turn_sound rfl h) hnext
    · rw [drive_of_verdict n hstep hnext, Function.iterate_fixed (turn_of_verdict hnext)]

/-- The driver's verdict for a verdict of the exchange. -/
def verdictOf (d : WsHandshakeDriver) :
    Option (Option (Except ErrorInfo (ParseResult HttpResponse))) →
      Option (Except ErrorInfo Unit)
  | none => none
  | some none => some (.error ⟨.wsHandshakeFailed, "ws_handshake: response too large"⟩)
  | some (some (.error e)) => some (.error e)
  | some (some (.ok parsed)) => some ((d.validate parsed).1.map fun _ => ())

/-- Whether a response is accepted does not depend on what has been read beyond it. -/
theorem validate_reading (rx : Bytes) (parsed : ParseResult HttpResponse) :
    ((d.reading rx).validate parsed).1 = (d.validate parsed).1 := by
  dsimp only [validate, reading]
  generalize checkResponse d.clientKey d.deflate parsed.value = checked
  obtain ⟨err, deflate⟩ := checked
  cases err <;> rfl

theorem concluded_verdict : (d.concluded s).verdict = d.verdictOf s.1.verdict := by
  obtain ⟨phase, w⟩ := s
  cases phase with
  | writing sent | reading rx | overflow rx => rfl
  | answered rx b =>
    cases b with
    | error e => rfl
    | ok parsed =>
      dsimp only [concluded, verdictOf, Phase.verdict]
      rw [validate_reading]

/-- On acceptance the head, the leftover and what is unread make up the stream. -/
theorem concluded_accepted (h : Sound d.req kWsRxCapacity wsAnswer stream recvs s)
    (haccepted : (d.concluded s).verdict = some (.ok ())) :
    ∃ k, headEnd stream = some k ∧
      stream.take k ++ (d.concluded s).driver.leftover ++ s.2.unread = stream := by
  obtain ⟨phase, w⟩ := s
  cases phase with
  | writing sent | reading rx | overflow rx => cases haccepted
  | answered rx b =>
    cases b with
    | error e => cases haccepted
    | ok parsed =>
      obtain ⟨-, hstream, -, hanswer⟩ := h
      have hparse : parseHttpResponse rx kMaxHeaderCount = .ok (some parsed) := by
        unfold wsAnswer at hanswer
        split at hanswer
        · cases hanswer
        · cases hanswer
        · rename_i hparse
          cases hanswer
          exact hparse
      dsimp only [concluded, validate, reading] at haccepted ⊢
      generalize hchecked : checkResponse d.clientKey d.deflate parsed.value = checked
        at haccepted ⊢
      obtain ⟨err, deflate⟩ := checked
      cases err with
      | some e => cases haccepted
      | none =>
        -- Only a response with status 101 passes.
        have hstatus : parsed.value.statusCode = 101 := by
          by_contra hother
          have hrefused := congrArg Prod.fst hchecked
          unfold checkResponse at hrefused
          rw [if_pos hother] at hrefused
          cases hrefused
        obtain ⟨k, hk, -, hbound, hbodyless⟩ := parseHttpResponse_headEnd hparse
        have hconsumed : parsed.consumed = k := hbodyless (by rw [hstatus]; rfl)
        rw [hconsumed] at hbound
        refine ⟨k, ?_, ?_⟩
        · rw [← hstream]
          exact (headEnd_append hk w.unread).1
        · rw [hconsumed, ← hstream, take_append_of_le_length hbound, take_append_drop]

end WsHandshakeDriver

open WsHandshakeDriver in
/-- **The upgrade does not depend on the schedule.**  For every request and every stream `R`
that the server sends, and every schedule of the pipe: at any time the pipe has carried a
prefix of the request, and all of it once anything was asked of the server's stream; a
verdict is the one reached when everything is accepted and delivered at once, and on
acceptance the head of `R`, the leftover and what is unread make up `R`.  After as many
steps as the schedule has turns, and three more, the request is out and the verdict is
reached. -/
theorem ws_upgrade_chunking {nonce : Option Bytes} {host wsPath : Bytes}
    {extraHeaders : List HttpHeader} {deflate : Option WsHandshakeDeflate} {d : WsHandshakeDriver}
    (hcreate : WsHandshakeDriver.create nonce host wsPath extraHeaders deflate = .ok d) (R : Bytes)
    (sends : List SendTurn) (recvs : List RecvTurn) (n : Nat) :
    let run := d.drive n ⟨sends, recvs, [], R⟩
    let whole := d.drive 3 ⟨[], [], [], R⟩
    run.wire.outgoing <+: d.req ∧
    (run.wire.outgoing = d.req ∨ (run.wire.unread = R ∧ run.wire.recvs = recvs)) ∧
    (run.verdict = none ∨ run.verdict = whole.verdict) ∧
    (run.verdict = some (.ok ()) → ∃ k, headEnd R = some k ∧
      R.take k ++ run.driver.leftover ++ run.wire.unread = R) ∧
    (sends.length + recvs.length + 3 ≤ n →
      run.wire.outgoing = d.req ∧ run.verdict = whole.verdict) := by
  obtain ⟨hphase, hrx, -, -, hsent, headers, hbuilt⟩ := create_fresh hcreate
  have hreq := buildHttpRequest_length_pos hbuilt
  have hd : { d with sent := 0 } = d := by rw [← hsent]
  have hstart : ∀ sends recvs, Sound d.req kWsRxCapacity wsAnswer R recvs
      (.writing 0, ⟨sends, recvs, [], R⟩) := fun _ _ => ⟨hreq, rfl, rfl, rfl⟩
  -- Any run of the driver from here is a run of the exchange.
  have hdrive : ∀ sends recvs n, d.drive n ⟨sends, recvs, [], R⟩ = d.concluded
      ((turn d.req kWsRxCapacity wsAnswer)^[n] (.writing 0, ⟨sends, recvs, [], R⟩)) := by
    intro sends recvs n
    have heq := drive_eq hphase hrx n (hstart sends recvs) rfl
    rwa [show (d.concluded (.writing 0, ⟨sends, recvs, [], R⟩)).driver = d from hd] at heq
  have hsound := run_sound rfl (hstart sends recvs) n
  have hwhole : (d.drive 3 ⟨[], [], [], R⟩).verdict =
      d.verdictOf (wholeVerdict kWsRxCapacity wsAnswer R) := by
    rw [hdrive, concluded_verdict, settled_verdict (wsAnswer_final R)
      (run_sound rfl (hstart [] []) 3) (settles rfl (hstart [] []) (Nat.le_refl _))]
  intro run whole
  rw [show run = _ from hdrive sends recvs n, show whole.verdict = _ from hwhole,
    concluded_wire, concluded_verdict]
  refine ⟨hsound.outgoing_part, hsound.outgoing_or_untouched, ?_, ?_, ?_⟩
  · rcases hsound.verdict_none_or_whole (wsAnswer_final R) with hnone | hsame
    · exact .inl (by rw [hnone]; rfl)
    · exact .inr (by rw [hsame])
  · intro haccepted
    exact concluded_accepted hsound (by rw [concluded_verdict]; exact haccepted)
  · intro hn
    have hsettled := settles rfl (hstart sends recvs) hn
    exact ⟨hsound.outgoing_of_settled hsettled,
      by rw [settled_verdict (wsAnswer_final R) hsound hsettled]⟩

/-- A request that goes out in two pieces, and a refusal that comes in three. -/
theorem ws_upgrade_chunking_refused :
    ∃ d, WsHandshakeDriver.create (some (List.replicate 16 0)) (ascii "localhost") (ascii "/")
        [] none = .ok d ∧
      let wire : Wire UInt8 := ⟨[.accepts 9, .blocked], [.delivers 7, .blocked, .delivers 20],
        [], ascii "HTTP/1.1 403 Forbidden\r\nContent-Length: 0\r\n\r\n"⟩
      (d.drive 8 wire).wire.outgoing = d.req ∧
        (d.drive 8 wire).verdict =
          (d.drive 3 ⟨[], [], [], wire.unread⟩).verdict := by
  have hok : (WsHandshakeDriver.create (some (List.replicate 16 0)) (ascii "localhost")
      (ascii "/") [] none).toOption.isSome = true := by decide +kernel
  match hcreate : WsHandshakeDriver.create (some (List.replicate 16 0)) (ascii "localhost")
      (ascii "/") [] none with
  | .error e =>
    rw [hcreate] at hok
    cases hok
  | .ok d => exact ⟨d, rfl, (ws_upgrade_chunking hcreate _ _ _ 8).2.2.2.2 (by decide)⟩

end Eph.Net
