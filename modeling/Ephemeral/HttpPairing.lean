import Ephemeral.HttpClient

/-!
# Requests and responses of the HTTP client

A call starts with an empty accumulator, but not with an empty connection: what the server has
written to earlier requests and what has not been delivered yet is taken for the answer to the
new one.  So after a timeout the next call gets the answer to the request that timed out
(`http_pairing_late_response`).  If each call that comes to receive finds everything delivered
that was written to earlier requests, every response is the answer to the request of its call
(`http_pairing_settled`): the accumulator then holds the front of that answer and nothing else.
-/

namespace Eph.Net.HttpClient

open ByteOrder Core Eph.Dpdk List

/-- The response that a text says. -/
def responseOf (t : ResponseText) : Response :=
  ⟨t.status, t.fields.map RawField.header, t.body⟩

/-- The call gives the caller the answer to its own request, if it gives a response and the
request is one of those that reach the server. -/
def Paired (srv : Server) (cfg : HttpClientConfig) (client : Client) (c : Call) : Prop :=
  ∀ text i r, c.text cfg = .ok text → srv.framing.Nth client.wire.sent text i →
    (request srv cfg client c).1 = some (.ok r) → r = responseOf (srv.answer i)

/-- When the call has sent its request, everything that the server wrote to earlier requests has
been delivered. -/
def Settled (srv : Server) (cfg : HttpClientConfig) (client : Client) (c : Call) : Prop :=
  ∀ text turns w, c.text cfg = .ok text →
    sendLoop srv c.deadline c.turns text client.wire = (some (.ok turns), w) →
    w.delivered = (srv.output client.wire.sent).length

variable {srv : Server} {cfg : HttpClientConfig}

/-! ## Sending -/

@[simp] theorem poll_sent {σ : Type} (f : σ → Bytes → σ) (chunks : List Nat) (w : Wire) (s : σ) :
    (srv.poll f chunks w s).1.sent = w.sent := by
  induction chunks generalizing w s with
  | nil => rfl
  | cons m chunks ih =>
    rw [Server.poll]
    exact ih _ _

/-- A loop that comes to its end has sent everything, once and in order. -/
theorem sendLoop_sent {deadline : Int} {turns turns' : List Turn} {rest : Bytes} {w w' : Wire}
    (h : sendLoop srv deadline turns rest w = (some (.ok turns'), w')) :
    w'.sent = w.sent ++ rest := by
  induction turns generalizing rest w with
  | nil =>
    rw [sendLoop] at h
    split at h
    · rename_i hnil
      cases h
      rw [isEmpty_iff.mp hnil, append_nil]
    · cases h
  | cons t turns ih =>
    rw [sendLoop] at h
    split at h
    · rename_i hnil
      cases h
      rw [isEmpty_iff.mp hnil, append_nil]
    split at h
    · split at h
      · split at h
        · cases h
        · rw [ih h, poll_sent]
      · cases h
    · split at h
      · cases h
      · rw [ih h, append_assoc, take_append_drop]

/-- With the request complete, the server writes one more answer. -/
theorem output_next {before text : Bytes} {i : Nat} (h : srv.framing.Nth before text i) :
    srv.output (before ++ text) = srv.output before ++ (srv.answer i).bytes := by
  obtain ⟨hcount, hnext⟩ := h.messages
  rw [Server.output, Server.output, hnext, length_append, hcount, length_singleton,
    range_succ, flatMap_append, flatMap_singleton]

/-! ## Receiving -/

/-- The accumulator holds the front of the answer, and it lags behind the connection only when it
is full. -/
structure Receiving (srv : Server) (front answer : Bytes) (cap : Nat) (w : Wire) (rx : Bytes) :
    Prop where
  written : srv.output w.sent = front ++ answer
  accumulated : rx <+: answer
  delivered : rx.length ≤ cap → w.delivered = front.length + rx.length

variable {front answer rx : Bytes} {cap : Nat} {w : Wire}

/-- One chunk. -/
theorem Receiving.chunk (h : Receiving srv front answer cap w rx) (m : Nat) :
    Receiving srv front answer cap { w with delivered := w.delivered + (srv.chunk w m).length }
      (onMessage cap rx (srv.chunk w m)) := by
  unfold onMessage
  split
  · rename_i hfull
    exact ⟨h.written, h.accumulated, fun hle => absurd hle (Nat.not_le.mpr hfull)⟩
  rename_i hroom
  have hdelivered := h.delivered (Nat.le_of_not_lt hroom)
  obtain ⟨rest, hrest⟩ := h.accumulated
  have hchunk : srv.chunk w m = rest.take m := by
    rw [Server.chunk, h.written, hdelivered, ← drop_drop, drop_left, ← hrest, drop_left]
  rw [hchunk]
  refine ⟨h.written, ?_, ?_⟩
  · rw [← hrest, prefix_append_right_inj, take_take]
    exact List.take_prefix _ _
  · intro hle
    simp only [length_append, length_take] at hle ⊢
    omega

/-- One poll. -/
theorem Receiving.poll (h : Receiving srv front answer cap w rx) (chunks : List Nat) :
    Receiving srv front answer cap (srv.poll (onMessage cap) chunks w rx).1
      (srv.poll (onMessage cap) chunks w rx).2 := by
  induction chunks generalizing w rx with
  | nil => exact h
  | cons m chunks ih => exact ih (h.chunk m)

/-- What the parser accepts of the accumulator is the answer. -/
theorem Receiving.response {t : ResponseText} (h : Receiving srv front t.bytes cap w rx)
    {storage : Nat} {r : ParseResult HttpResponse}
    (hparse : parseHttpResponse rx storage = .ok (some r)) :
    materializeResponse r.value = responseOf t := by
  obtain ⟨-, hstatus, hheaders, hbody⟩ := ResponseText.parse_part h.accumulated hparse
  rw [materializeResponse, hstatus, hheaders, hbody, responseOf]

/-- A call that receives one answer and nothing else returns it, if it returns a response. -/
theorem receiveLoop_response {t : ResponseText} {deadline : Int} {turns : List Turn} {r : Response}
    (h : Receiving srv front t.bytes cfg.maxResponseBytes w rx)
    (hreturn : (receiveLoop srv cfg deadline turns w rx).1 = some (.ok r)) : r = responseOf t := by
  induction turns generalizing w rx with
  | nil =>
    rw [receiveLoop] at hreturn
    split at hreturn
    · cases hreturn
    · rename_i parsed hparse
      cases hreturn
      exact h.response hparse
    · split at hreturn <;> cases hreturn
  | cons turn turns ih =>
    rw [receiveLoop] at hreturn
    split at hreturn
    · cases hreturn
    · rename_i parsed hparse
      cases hreturn
      exact h.response hparse
    split at hreturn
    · cases hreturn
    split at hreturn
    · cases hreturn
    split at hreturn
    · cases hreturn
    · exact ih (h.poll turn.chunks) hreturn

/-! ## Calls and histories -/

/-- A call that finds earlier answers delivered gives the answer to its own request. -/
theorem Settled.paired {client : Client} {c : Call} (h : Settled srv cfg client c) :
    Paired srv cfg client c := by
  intro text i r htext hnth hreturn
  rw [request, htext] at hreturn
  dsimp only at hreturn
  cases hsend : sendLoop srv c.deadline c.turns text client.wire with
  | mk outcome w =>
    rw [hsend] at hreturn
    match outcome with
    | none => cases hreturn
    | some (.error e) => cases hreturn
    | some (.ok turns) =>
      have hdelivered := h text turns w htext hsend
      have hwritten := output_next hnth
      rw [← sendLoop_sent hsend] at hwritten
      exact receiveLoop_response ⟨hwritten, List.nil_prefix, fun _ => hdelivered⟩ hreturn

/-- **Pairing.**  In every history in which each call that comes to receive finds everything
delivered that the server wrote to earlier requests, each call that returns a response to request
number `i` returns answer number `i`. -/
theorem http_pairing_settled (srv : Server) (cfg : HttpClientConfig) (history : List Action)
    (hsettled : EachCall srv cfg (Settled srv cfg) history .fresh) :
    EachCall srv cfg (Paired srv cfg) history .fresh :=
  hsettled.mono fun _ _ h => h.paired

/-! ## A late response -/

/-- A request that is accepted has bytes, and all of them are there. -/
theorem parseHttpRequest_consumed {s : Bytes} {storage : Nat} {r : ParseResult HttpRequest}
    (h : parseHttpRequest s storage = .ok (some r)) : 0 < r.consumed ∧ r.consumed ≤ s.length := by
  obtain ⟨crlf, start, st, body, -, -, hblock, hbody, -⟩ := parseMessage_inv h
  have hend := (acceptedBlock_of_parse hblock).end_le
  have hcomplete : st.headerBlockEnd ≤ r.consumed :=
    @FramesByLength.complete _ _ framesByLength_request _ _ start _ _ hbody
  exact ⟨by omega, parseMessage_bound framesBody_request h⟩

/-- The length of the request at the front. -/
def requestLength (s : Bytes) : Option Nat :=
  match parseHttpRequest s kMaxHeaderCount with
  | .ok (some r) => some r.consumed
  | _ => none

theorem requestLength_eq_some {s : Bytes} {n : Nat} :
    requestLength s = some n ↔
      ∃ r, parseHttpRequest s kMaxHeaderCount = .ok (some r) ∧ r.consumed = n := by
  unfold requestLength
  constructor
  · intro h
    split at h
    · rename_i r hparse
      exact ⟨r, hparse, Option.some.inj h⟩
    · cases h
  · rintro ⟨r, hparse, rfl⟩
    rw [hparse]

/-- How a server cuts a stream into requests that reads them as `parse_http_request` does. -/
def requestFraming : Framing UInt8 where
  first := requestLength
  first_pos := by
    intro s n h
    obtain ⟨r, hparse, rfl⟩ := requestLength_eq_some.mp h
    exact (parseHttpRequest_consumed hparse).1
  first_le := by
    intro s n h
    obtain ⟨r, hparse, rfl⟩ := requestLength_eq_some.mp h
    exact (parseHttpRequest_consumed hparse).2
  first_append := by
    intro s n h more
    obtain ⟨r, hparse, rfl⟩ := requestLength_eq_some.mp h
    exact requestLength_eq_some.mpr
      ⟨r, parseMessage_complete_append framesBody_request hparse more, rfl⟩
  first_take := by
    intro s n h
    obtain ⟨r, hparse, rfl⟩ := requestLength_eq_some.mp h
    have hparts := parseMessage_parts framesByLength_request framesBody_request hparse
    exact requestLength_eq_some.mpr ⟨r, hparts.1 _ (Nat.le_refl _), rfl⟩

/-- An answer with a body of one byte. -/
def oneByte (b : UInt8) : ResponseText where
  minor := 49
  hundreds := 50
  tens := 48
  ones := 48
  reason := some (ascii "OK")
  fields := [⟨ascii "Content-Length", ascii " 1"⟩]
  body := [b]
  digits := by decide
  final := by decide
  oneLine := by
    intro text htext
    obtain rfl := Option.some.inj htext
    decide +kernel
  clean := by decide +kernel
  framed := by
    refine ⟨fun hbodyless => ?_, fun f hf _ n hn => .inl ?_⟩
    · exact absurd hbodyless (by decide)
    obtain rfl := mem_singleton.mp hf
    have hone : parseDecimal (trimOws (ascii " 1")) = some 1 := by decide +kernel
    exact Option.some.inj (hn.symm.trans hone)

/-- A server whose answers have the number of the request for their body. -/
def counting : Server := ⟨requestFraming, fun i => oneByte (UInt8.ofNat i)⟩

/-- A call that sends its request at once. -/
def get (turns : List Turn) : Call :=
  ⟨⟨ascii "GET", ascii "/", [], []⟩, 10, .established, 0,
    ⟨.ok 1000, .established, 0, []⟩ :: turns⟩

/-- The request of such a call. -/
def getText : Bytes :=
  ascii "GET / HTTP/1.1\r\nConnection: keep-alive\r\n\r\n"

theorem get_text (turns : List Turn) : (get turns).text {} = .ok getText := by
  change (get []).text {} = .ok getText
  decide +kernel

/-- The first call times out; its response comes during the second call, which returns it. -/
theorem http_pairing_late_response :
    ¬ EachCall counting {} (Paired counting {})
      [.call (get [⟨.ok 0, .established, 10, []⟩]), .call (get [⟨.ok 0, .established, 1, [1000]⟩])]
      .fresh := by
  intro h
  have hstep : Client.fresh.step counting {} (.call (get [⟨.ok 0, .established, 10, []⟩])) =
      some ⟨⟨getText, 0⟩, []⟩ := by
    decide +kernel
  have hpaired := (h.2 _ hstep).1 _ rfl getText 1 (responseOf (oneByte 0)) (get_text _)
    (by unfold Framing.Nth; decide +kernel) (by decide +kernel)
  revert hpaired
  decide +kernel

/-- Whether such a call finds earlier answers delivered can be seen from its loop. -/
theorem settled_get {turns : List Turn} {client : Client}
    (h : (sendLoop counting (get turns).deadline (get turns).turns getText
      client.wire).2.delivered =
      (counting.output client.wire.sent).length) : Settled counting {} client (get turns) := by
  intro text turns' w htext hsend
  obtain rfl := Except.ok.inj ((get_text turns).symm.trans htext)
  rwa [hsend] at h

/-- The first call times out, but its response has gone to the user when the second call begins. -/
theorem http_pairing_settled_idle :
    EachCall counting {} (Paired counting {})
      [.call (get [⟨.ok 0, .established, 10, []⟩]), .idle [1000],
        .call (get [⟨.ok 0, .established, 1, [5, 1000]⟩])] .fresh := by
  refine http_pairing_settled _ _ _ ⟨?_, ?_⟩
  · rintro c ⟨⟩
    exact settled_get (by decide +kernel)
  intro client hstep
  obtain rfl : ⟨⟨getText, 0⟩, []⟩ = client := by
    refine Option.some.inj (Eq.trans ?_ hstep)
    decide +kernel
  refine ⟨by rintro c ⟨⟩, fun client hidle => ⟨?_, fun _ _ => trivial⟩⟩
  obtain rfl : ⟨⟨getText, 39⟩, []⟩ = client := by
    refine Option.some.inj (Eq.trans ?_ hidle)
    decide +kernel
  rintro c ⟨⟩
  exact settled_get (by decide +kernel)

end Eph.Net.HttpClient
