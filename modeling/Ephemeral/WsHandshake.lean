import Ephemeral.Http
import Ephemeral.WsAccept

/-!
# The WebSocket upgrade handshake

`WsHandshakeDriver` is the resumable client side of the HTTP upgrade: it sends the
request over a byte sink, then reads the response into a buffer of 8192 bytes until
the parser has all of it, and validates it.  What it has read beyond the response is
its `leftover`, which belongs to the data phase.

The sink is a parameter: a pair of operations on a world `σ`.  The driver reads at
most its free buffer space from it in one step, so the sink may hold back bytes.
-/

namespace Eph.Net

open ByteOrder Core List

/-- The byte pipe of the handshake. -/
structure ByteSink (σ : Type) where
  send : σ → Bytes → Except ErrorInfo Nat × σ
  recv : σ → Nat → Except ErrorInfo Bytes × σ

/-- Negotiation state of permessage-deflate. -/
structure WsHandshakeDeflate where
  request : Bool
  negotiated : Bool
  serverNoContextTakeover : Bool
  deriving DecidableEq

/-- `ws_find_header`: the first header of that name. -/
def wsFindHeader (headers : List HttpHeader) (name : Bytes) : Option Bytes :=
  (headers.find? fun h => iequal h.name name).map (·.value)

/-- `ws_connection_has_upgrade`: one of the comma-separated tokens is `Upgrade`. -/
def wsConnectionHasUpgrade (value : Bytes) : Bool :=
  (value.splitOn 44).any fun tok => iequal (trimOws tok) (ascii "Upgrade")

/-- Strip the quotes of a quoted parameter value. -/
def unquote (v : Bytes) : Bytes :=
  if v.length ≥ 2 && v.head? == some 34 && v.getLast? == some 34 then (v.drop 1).dropLast else v

/-- The parameters of a permessage-deflate offer, from left to right. -/
def wsDeflateParams : List Bytes → WsHandshakeDeflate → Bool × WsHandshakeDeflate
  | [], state => (true, state)
  | raw :: rest, state =>
    let param := trimOws raw
    if param.isEmpty then wsDeflateParams rest state
    else
      let pname := trimOws (param.takeWhile (· != 61))
      let pvalue := unquote (trimOws ((param.dropWhile (· != 61)).drop 1))
      if iequal pname (ascii "server_no_context_takeover") then
        wsDeflateParams rest { state with serverNoContextTakeover := true }
      else if iequal pname (ascii "client_no_context_takeover") then wsDeflateParams rest state
      else if iequal pname (ascii "server_max_window_bits") ||
          iequal pname (ascii "client_max_window_bits") then
        if pvalue != ascii "15" then (false, { state with negotiated := false })
        else wsDeflateParams rest state
      else (false, { state with negotiated := false })

/-- `ws_parse_permessage_deflate_token`. -/
def wsParsePermessageDeflateToken (raw : Bytes) (state : WsHandshakeDeflate) :
    Bool × WsHandshakeDeflate :=
  let tok := trimOws raw
  if tok.isEmpty then (false, state)
  else
    match tok.splitOn 59 with
    | [] => (false, state)
    | name :: params =>
      if !iequal (trimOws name) (ascii "permessage-deflate") then (false, state)
      else wsDeflateParams params { state with negotiated := true }

/-- The tokens of the Sec-WebSocket-Extensions answer; `known` records whether one
was recognised. -/
def wsExtensionTokens : List Bytes → Bool → WsHandshakeDeflate →
    Option ErrorInfo × WsHandshakeDeflate
  | [], known, state =>
    if !known || !state.negotiated then
      (some ⟨.wsHandshakeFailed, "ws_handshake: empty/unparseable extension response"⟩, state)
    else (none, state)
  | tok :: rest, known, state =>
    if tok.isEmpty then wsExtensionTokens rest known state
    else
      match wsParsePermessageDeflateToken tok state with
      | (false, state) =>
        (some ⟨.wsHandshakeFailed,
          "ws_handshake: server returned unsupported Sec-WebSocket-Extensions"⟩, state)
      | (true, state) => wsExtensionTokens rest true state

/-- The checks of `validate_` in their order: the first complaint, if any, and the
negotiation state they leave. -/
def checkResponse (clientKey : Bytes) (deflate : Option WsHandshakeDeflate)
    (resp : HttpResponse) : Option ErrorInfo × Option WsHandshakeDeflate :=
  if resp.statusCode ≠ 101 then
    (some ⟨.wsHandshakeFailed, "ws_handshake: non-101 status"⟩, deflate)
  else if !(wsFindHeader resp.headers (ascii "Upgrade")).any (iequal · (ascii "websocket")) then
    (some ⟨.wsHandshakeFailed, "ws_handshake: missing or invalid Upgrade header"⟩, deflate)
  else if !(wsFindHeader resp.headers (ascii "Connection")).any wsConnectionHasUpgrade then
    (some ⟨.wsHandshakeFailed, "ws_handshake: missing Connection: Upgrade"⟩, deflate)
  else
    match wsFindHeader resp.headers (ascii "Sec-WebSocket-Accept") with
    | none => (some ⟨.wsHandshakeFailed, "ws_handshake: missing Sec-WebSocket-Accept"⟩, deflate)
    | some accept =>
      if accept ≠ wsComputeAccept clientKey then
        (some ⟨.wsHandshakeFailed, "ws_handshake: Sec-WebSocket-Accept mismatch"⟩, deflate)
      else
        match wsFindHeader resp.headers (ascii "Sec-WebSocket-Extensions"), deflate with
        | none, deflate => (none, deflate)
        | some _, none =>
          (some ⟨.wsHandshakeFailed,
            "ws_handshake: server enabled unsolicited Sec-WebSocket-Extensions"⟩, none)
        | some list, some state =>
          if !state.request then
            (some ⟨.wsHandshakeFailed,
              "ws_handshake: server enabled unsolicited Sec-WebSocket-Extensions"⟩, some state)
          else
            let (err, state) := wsExtensionTokens (list.splitOn 44) false state
            (err, some state)

/-- `WsHandshakeDriver::Phase`. -/
inductive WsPhase
  | sending
  | receiving
  | done
  | failed
  deriving DecidableEq

/-- The size of the response buffer `rx_`. -/
def kWsRxCapacity : Nat := 8192

/-- The resumable upgrade.  `rx` is the filled part of the response buffer, and
`deflate` what the driver's pointer to the negotiation state refers to. -/
structure WsHandshakeDriver where
  phase : WsPhase
  deflate : Option WsHandshakeDeflate
  req : Bytes
  sent : Nat
  rx : Bytes
  clientKey : Bytes
  leftover : Bytes
  deriving DecidableEq

namespace WsHandshakeDriver

/-- The header names a caller may not supply. -/
def kMandatoryNames : List Bytes :=
  [ascii "Host", ascii "Upgrade", ascii "Connection", ascii "Sec-WebSocket-Key",
    ascii "Sec-WebSocket-Version"]

/-- `create`: `nonce` is what the random generator returns. -/
def create (nonce : Option Bytes) (host wsPath : Bytes) (extraHeaders : List HttpHeader)
    (deflate : Option WsHandshakeDeflate) : Except ErrorInfo WsHandshakeDriver :=
  if extraHeaders.any fun eh => kMandatoryNames.any (iequal eh.name ·) then
    .error ⟨.wsHandshakeFailed,
      "ws_handshake: extra header conflicts with a mandatory WebSocket header"⟩
  else
    match nonce with
    | none => .error ⟨.wsHandshakeFailed, "ws_handshake: getrandom failed"⟩
    | some nonce =>
      let clientKey := base64Encode nonce
      let injected :=
        if deflate.any (·.request) &&
            !extraHeaders.any fun h => iequal h.name (ascii "Sec-WebSocket-Extensions") then
          [(⟨ascii "Sec-WebSocket-Extensions", ascii "permessage-deflate"⟩ : HttpHeader)]
        else []
      if extraHeaders.length + injected.length > kMaxHeaderCount - 5 then
        .error ⟨.wsHandshakeFailed, "ws_handshake: too many extra headers"⟩
      else
        match buildHttpRequest 4096 (ascii "GET") wsPath
            ([⟨ascii "Host", host⟩, ⟨ascii "Upgrade", ascii "websocket"⟩,
              ⟨ascii "Connection", ascii "Upgrade"⟩, ⟨ascii "Sec-WebSocket-Key", clientKey⟩,
              ⟨ascii "Sec-WebSocket-Version", ascii "13"⟩] ++ injected ++ extraHeaders) [] with
        | .error _ => .error ⟨.wsHandshakeFailed, "ws_handshake: failed to build request"⟩
        | .ok req => .ok ⟨.sending, deflate, req, 0, [], clientKey, []⟩

/-- `validate_` on a parsed response: accept it and keep what was read beyond it. -/
def validate (d : WsHandshakeDriver) (parsed : ParseResult HttpResponse) :
    Except ErrorInfo Bool × WsHandshakeDriver :=
  match checkResponse d.clientKey d.deflate parsed.value with
  | (some e, deflate) => (.error e, { d with phase := .failed, deflate := deflate })
  | (none, deflate) =>
    (.ok true, { d with
      phase := .done
      deflate := deflate
      leftover := d.rx.drop parsed.consumed })

/-- The response buffer has grown: parse it, and validate it once it is complete. -/
def onReceived (d : WsHandshakeDriver) : Except ErrorInfo Bool × WsHandshakeDriver :=
  match parseHttpResponse d.rx kMaxHeaderCount with
  | .error _ => (.error ⟨.wsHandshakeFailed, "ws_handshake: malformed response"⟩, d)
  | .ok none => (.ok false, d)
  | .ok (some parsed) => d.validate parsed

/-- `step`: one non-blocking step over the sink `io`. -/
def step {σ : Type} (io : ByteSink σ) (d : WsHandshakeDriver) (w : σ) :
    Except ErrorInfo Bool × WsHandshakeDriver × σ :=
  match d.phase with
  | .sending =>
    match io.send w (d.req.drop d.sent) with
    | (.error e, w) => if e.code = .wouldBlock then (.ok false, d, w) else (.error e, d, w)
    | (.ok n, w) =>
      if n = 0 then
        (.error ⟨.bufferFull, "ws_handshake: ByteSink::send returned 0 bytes"⟩, d, w)
      else if d.sent + n < d.req.length then (.ok false, { d with sent := d.sent + n }, w)
      else (.ok false, { d with sent := d.sent + n, phase := .receiving }, w)
  | .receiving =>
    if d.rx.length = kWsRxCapacity then
      (.error ⟨.wsHandshakeFailed, "ws_handshake: response too large"⟩, d, w)
    else
      match io.recv w (kWsRxCapacity - d.rx.length) with
      | (.error e, w) => if e.code = .wouldBlock then (.ok false, d, w) else (.error e, d, w)
      | (.ok data, w) =>
        if data.isEmpty then (.ok false, d, w)
        else
          let (r, d) := onReceived { d with rx := d.rx ++ data }
          (r, d, w)
  | _ =>
    (.error ⟨.wsHandshakeFailed, "ws_handshake: step() after terminal phase"⟩, d, w)

end WsHandshakeDriver

/-- `response` is exactly one response, and one that the driver of this key accepts. -/
def ValidResponse (clientKey : Bytes) (deflate : Option WsHandshakeDeflate)
    (response : Bytes) : Prop :=
  ∃ r, parseHttpResponse response kMaxHeaderCount = .ok (some r) ∧
    r.consumed = response.length ∧ (checkResponse clientKey deflate r.value).1 = none

instance (clientKey : Bytes) (deflate : Option WsHandshakeDeflate) (response : Bytes) :
    Decidable (ValidResponse clientKey deflate response) :=
  match hparse : parseHttpResponse response kMaxHeaderCount with
  | .ok (some r) =>
    decidable_of_iff
      (r.consumed = response.length ∧ (checkResponse clientKey deflate r.value).1 = none)
      ⟨fun h => ⟨r, hparse, h⟩, fun ⟨r', hparse', h⟩ => by
        rw [hparse] at hparse'
        cases hparse'
        exact h⟩
  | .ok none => isFalse fun ⟨r', hparse', _⟩ => by rw [hparse] at hparse'; cases hparse'
  | .error _ => isFalse fun ⟨r', hparse', _⟩ => by rw [hparse] at hparse'; cases hparse'

theorem ValidResponse.length_pos {clientKey : Bytes} {deflate : Option WsHandshakeDeflate}
    {response : Bytes} (h : ValidResponse clientKey deflate response) : 0 < response.length := by
  obtain ⟨r, hparse, -, -⟩ := h
  cases response with
  | nil => cases hparse
  | cons b rest => exact Nat.succ_pos _

namespace WsHandshakeDriver

variable {d : WsHandshakeDriver} {response : Bytes}

/-- A new driver has sent and read nothing, its key encodes the nonce, and its request is
one that was built. -/
theorem create_fresh {nonce : Option Bytes} {host wsPath : Bytes} {extraHeaders : List HttpHeader}
    {deflate : Option WsHandshakeDeflate}
    (h : create nonce host wsPath extraHeaders deflate = .ok d) :
    d.phase = .sending ∧ d.rx = [] ∧ d.deflate = deflate ∧
      nonce.map base64Encode = some d.clientKey ∧ d.sent = 0 ∧
      ∃ headers, buildHttpRequest 4096 (ascii "GET") wsPath headers [] = .ok d.req := by
  unfold create at h
  split at h
  · cases h
  split at h
  · cases h
  -- With or without the injected extension header.
  dsimp only at h
  split at h
  all_goals
    split at h
    · cases h
    split at h
    · cases h
    rename_i hbuilt
    cases h
    exact ⟨rfl, rfl, rfl, rfl, rfl, _, hbuilt⟩

section

variable (hvalid : ValidResponse d.clientKey d.deflate response)

include hvalid

/-- As long as part of a valid response is missing, the driver waits. -/
theorem onReceived_of_part (hlimit : response.length ≤ kWsRxCapacity) {missing : Bytes}
    (hpart : d.rx ++ missing = response) (hmissing : missing ≠ []) :
    d.onReceived = (.ok false, d) := by
  obtain ⟨r, hparse, hconsumed, -⟩ := hvalid
  have hpos := length_pos_iff.mpr hmissing
  have hlen : d.rx.length + missing.length = response.length := by
    rw [← hpart, length_append]
  rw [← hpart] at hparse
  have hnone := parseHttpResponse_incomplete hparse
    (by unfold kWsRxCapacity at hlimit; unfold kMaxHeaderLineLength; omega) (by omega)
  simp only [onReceived, hnone]

/-- Once a valid response is there, the driver accepts it and keeps what follows. -/
theorem onReceived_of_complete {extra : Bytes} (hrx : d.rx = response ++ extra) :
    ∃ deflate, d.onReceived =
      (.ok true, { d with phase := .done, deflate := deflate, leftover := extra }) := by
  obtain ⟨r, hparse, hconsumed, hcheck⟩ := hvalid
  have hmore := parseHttpResponse_complete_append hparse extra
  rw [← hrx] at hmore
  refine ⟨(checkResponse d.clientKey d.deflate r.value).2, ?_⟩
  have hpair : checkResponse d.clientKey d.deflate r.value =
      (none, (checkResponse d.clientKey d.deflate r.value).2) := by
    rw [← hcheck]
  simp only [onReceived, hmore, validate]
  rw [hpair]
  simp only [hrx, hconsumed, drop_left]

end

/-- A reading step that finds nothing. -/
theorem step_of_wouldBlock {σ : Type} {io : ByteSink σ} {w w' : σ} {e : ErrorInfo}
    (hphase : d.phase = .receiving) (hroom : d.rx.length ≠ kWsRxCapacity)
    (hrecv : io.recv w (kWsRxCapacity - d.rx.length) = (.error e, w'))
    (hcode : e.code = .wouldBlock) : d.step io w = (.ok false, d, w') := by
  simp only [step, hphase, hroom, hrecv, hcode, if_false, if_true]

/-- A sending step: it may fail or wait, but it does not complete, and nothing that
concerns the response changes. -/
theorem step_of_sending {σ : Type} (io : ByteSink σ) (w : σ) (hphase : d.phase = .sending) :
    ∃ r d', d.step io w = (r, d', (io.send w (d.req.drop d.sent)).2) ∧ r ≠ .ok true ∧
      (d'.phase = .sending ∨ d'.phase = .receiving) ∧ d'.rx = d.rx ∧
      d'.clientKey = d.clientKey ∧ d'.deflate = d.deflate := by
  simp only [step, hphase]
  generalize io.send w (d.req.drop d.sent) = sent
  obtain ⟨r, w'⟩ := sent
  cases r with
  | error e =>
    dsimp only
    split
    · exact ⟨_, d, rfl, by simp, .inl hphase, rfl, rfl, rfl⟩
    · exact ⟨_, d, rfl, by simp, .inl hphase, rfl, rfl, rfl⟩
  | ok n =>
    dsimp only
    split
    · exact ⟨_, d, rfl, by simp, .inl hphase, rfl, rfl, rfl⟩
    split
    · exact ⟨_, { d with sent := d.sent + n, phase := .sending }, rfl, by simp, .inl rfl,
        rfl, rfl, rfl⟩
    · exact ⟨_, { d with sent := d.sent + n, phase := .receiving }, rfl, by simp, .inr rfl,
        rfl, rfl, rfl⟩

section Reading

variable {σ : Type} {io : ByteSink σ} {w w' : σ} {data later following : Bytes}

/-- **A reading step.**  The sink has `data` to give and hands over what fits into the
response buffer, of a stream that is the valid `response` and what follows it.  The
driver waits while part of the response is missing.  Once all of it is there it
accepts, and its leftover is what the buffer holds beyond the response. -/
theorem step_of_reading (hvalid : ValidResponse d.clientKey d.deflate response)
    (hlimit : response.length ≤ kWsRxCapacity) (hphase : d.phase = .receiving)
    (hpart : d.rx.length < response.length)
    (hstream : d.rx ++ data ++ later = response ++ following)
    (hrecv : io.recv w (kWsRxCapacity - d.rx.length) =
      (.ok (data.take (kWsRxCapacity - d.rx.length)), w')) (hdata : data ≠ []) :
    (d.rx.length + data.length < response.length →
      d.step io w = (.ok false, { d with rx := d.rx ++ data }, w')) ∧
    (response.length ≤ d.rx.length + data.length → ∃ deflate, d.step io w =
      (.ok true, { d with
        rx := (d.rx ++ data).take kWsRxCapacity
        phase := .done
        deflate := deflate
        leftover := ((d.rx ++ data).take kWsRxCapacity).drop response.length }, w')) := by
  have hne : data.take (kWsRxCapacity - d.rx.length) ≠ [] := by
    rw [ne_eq, take_eq_nil_iff]
    rintro (hzero | hnil)
    · omega
    · exact hdata hnil
  have hroom : d.rx.length ≠ kWsRxCapacity := by omega
  have hempty : (data.take (kWsRxCapacity - d.rx.length)).isEmpty = false := by simpa using hne
  have hrx : d.rx ++ data.take (kWsRxCapacity - d.rx.length) =
      (d.rx ++ data).take kWsRxCapacity := by
    rw [take_append, take_of_length_le (l := d.rx) (by omega)]
  have hstep : d.step io w =
      ((onReceived { d with rx := (d.rx ++ data).take kWsRxCapacity }).1,
        (onReceived { d with rx := (d.rx ++ data).take kWsRxCapacity }).2, w') := by
    simp only [step, hphase, hroom, hrecv, hempty, if_false, Bool.false_eq_true, hrx]
  have hprefix : (d.rx ++ data).length ≤ response.length →
      ∃ missing, d.rx ++ data ++ missing = response := by
    intro hle
    exact prefix_of_prefix_length_le (prefix_append (d.rx ++ data) later)
      (hstream ▸ prefix_append response following) hle
  constructor
  · intro hshort
    rw [take_of_length_le (by rw [length_append]; omega)] at hstep
    obtain ⟨missing, hmissing⟩ := hprefix (by rw [length_append]; omega)
    have hmore : missing ≠ [] := by
      rintro rfl
      rw [append_nil] at hmissing
      rw [← hmissing, length_append] at hshort
      omega
    rw [hstep, onReceived_of_part (d := { d with rx := d.rx ++ data }) hvalid hlimit hmissing hmore]
  · intro hfull
    have hfront : response <+: (d.rx ++ data).take kWsRxCapacity := by
      refine prefix_of_prefix_length_le (prefix_append response following) ?_ ?_
      · rw [← hstream]
        exact (List.take_prefix _ _).trans (prefix_append _ _)
      · rw [length_take, length_append]
        omega
    obtain ⟨extra, hextra⟩ := hfront
    obtain ⟨deflate, hdone⟩ := onReceived_of_complete
      (d := { d with rx := (d.rx ++ data).take kWsRxCapacity }) hvalid hextra.symm
    refine ⟨deflate, ?_⟩
    rw [hstep, hdone, ← hextra, drop_left]

end Reading

end WsHandshakeDriver

end Eph.Net
