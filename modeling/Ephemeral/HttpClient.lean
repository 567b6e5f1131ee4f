import Ephemeral.Framing
import Ephemeral.HttpResponseText
import Ephemeral.TcpSession

/-!
# The blocking HTTP client

`HttpClient::request` sends one request over a stream and drives the poller until the response
is there, the deadline has passed or something has failed.  While it sends, what arrives goes
to the user's handler; once it has sent everything it clears its accumulator, puts a handler of
its own in place, and parses the accumulator after every poll.

The stream is a connection to a server that answers every complete request with one response,
in order: what it has written at any time is a function of what it has been sent.  Everything
else is up to the environment: what `send` answers, the state of the stream, the clock, and
what each poll delivers.  One `Turn` holds what one turn of a loop meets, and a call that runs
out of turns has not returned yet.
-/

namespace Eph.Net.HttpClient

open ByteOrder Core Eph.Dpdk

/-- The configuration. -/
structure HttpClientConfig where
  maxResponseBytes : Nat := 1024 * 1024
  requestBufCapacity : Nat := 16 * 1024
  maxResponseHeaders : Nat := 32
  sendConnectionKeepAlive : Bool := true

/-- What the caller asks for. -/
structure Request where
  method : Bytes
  path : Bytes
  headers : List HttpHeader
  body : Bytes

/-- What the caller gets. -/
structure Response where
  statusCode : Nat
  headers : List HttpHeader
  body : Bytes
  deriving DecidableEq

/-! ## The server and the connection -/

/-- A server: how it cuts what it is sent into requests, and its answers in order. -/
structure Server where
  framing : Framing UInt8
  answer : Nat → ResponseText

/-- What the server has written once it has been sent `sent`. -/
def Server.output (srv : Server) (sent : Bytes) : Bytes :=
  (List.range (srv.framing.messages sent).length).flatMap fun i => (srv.answer i).bytes

/-- The connection: what the server has been sent, and how much of what it has written has been
delivered. -/
structure Wire where
  sent : Bytes
  delivered : Nat
  deriving DecidableEq

/-- The next chunk that arrives, of `m` bytes if there are that many. -/
def Server.chunk (srv : Server) (w : Wire) (m : Nat) : Bytes :=
  ((srv.output w.sent).drop w.delivered).take m

/-- One run of `poll_fn`: the chunks go to the handler one by one. -/
def Server.poll {σ : Type} (srv : Server) (onMessage : σ → Bytes → σ) :
    List Nat → Wire → σ → Wire × σ
  | [], w, s => (w, s)
  | m :: chunks, w, s =>
    let bytes := srv.chunk w m
    srv.poll onMessage chunks { w with delivered := w.delivered + bytes.length } (onMessage s bytes)

/-- What one turn of a loop meets. -/
structure Turn where
  send : Except ErrorInfo Nat
  state : TcpState
  now : Int
  chunks : List Nat

/-! ## The call -/

/-- One call of `request`: its arguments, the state of the stream and the clock when it begins,
and what its turns meet. -/
structure Call where
  req : Request
  timeout : Int
  state : TcpState
  start : Int
  turns : List Turn

/-- The deadline. -/
def Call.deadline (c : Call) : Int := c.start + c.timeout

/-- The headers that are sent: the caller's, and a length and `keep-alive` if they are missing. -/
def effectiveHeaders (cfg : HttpClientConfig) (req : Request) : List HttpHeader :=
  let callerSetConnection := req.headers.any fun h => iequal h.name (ascii "Connection")
  let callerSetContentLength := req.headers.any fun h => iequal h.name (ascii "Content-Length")
  req.headers ++
    (if !req.body.isEmpty && !callerSetContentLength then
      [⟨ascii "Content-Length", Decimal.render 20 req.body.length⟩] else []) ++
    (if cfg.sendConnectionKeepAlive && !callerSetConnection then
      [⟨ascii "Connection", ascii "keep-alive"⟩] else [])

/-- The preconditions of a call, and the request that it will send. -/
def Call.text (cfg : HttpClientConfig) (c : Call) : Except ErrorInfo Bytes :=
  if c.req.method.isEmpty || c.req.path.isEmpty then
    .error ⟨.invalidConfig, "HttpClient::request: method and path must be non-empty"⟩
  else if c.timeout ≤ 0 then
    .error ⟨.invalidConfig, "HttpClient::request: timeout must be > 0"⟩
  else if c.state ≠ .established then
    .error ⟨.disconnected, "HttpClient::request: stream not in Established state"⟩
  else
    buildHttpRequest cfg.requestBufCapacity c.req.method c.req.path
      (effectiveHeaders cfg c.req) c.req.body

/-- The loop that sends: the turns that it leaves over, or why it has given up. -/
def sendLoop (srv : Server) (deadline : Int) :
    List Turn → Bytes → Wire → Option (Except ErrorInfo (List Turn)) × Wire
  | turns, rest, w =>
    if rest.isEmpty then (some (.ok turns), w)
    else
      match turns with
      | [] => (none, w)
      | t :: turns =>
        match t.send with
        | .error e =>
          if e.code = .wouldBlock then
            -- the user's handler is still in place: what arrives is not kept
            let w := (srv.poll (fun _ _ => ()) t.chunks w ()).1
            if t.now ≥ deadline then
              (some (.error ⟨.timeout, "HttpClient::request: send timed out"⟩), w)
            else sendLoop srv deadline turns rest w
          else (some (.error e), w)
        | .ok n =>
          if n = 0 then
            (some (.error ⟨.disconnected, "HttpClient::request: send returned 0 bytes"⟩), w)
          else sendLoop srv deadline turns (rest.drop n) { w with sent := w.sent ++ rest.take n }

/-- The handler that `request` puts in place: at most one byte over the cap is kept. -/
def onMessage (cap : Nat) (rx bytes : Bytes) : Bytes :=
  if rx.length > cap then rx else rx ++ bytes.take (cap - rx.length + 1)

/-- `materialize_response_`. -/
def materializeResponse (parsed : HttpResponse) : Response :=
  ⟨parsed.statusCode, parsed.headers, parsed.body⟩

/-- The loop that receives: the outcome, the connection and the accumulator. -/
def receiveLoop (srv : Server) (cfg : HttpClientConfig) (deadline : Int) :
    List Turn → Wire → Bytes → Option (Except ErrorInfo Response) × Wire × Bytes
  | turns, w, rx =>
    match parseHttpResponse rx (max cfg.maxResponseHeaders 1) with
    | .error e => (some (.error e), w, rx)
    | .ok (some r) => (some (.ok (materializeResponse r.value)), w, rx.drop r.consumed)
    | .ok none =>
      if rx.length > cfg.maxResponseBytes then
        (some (.error
          ⟨.codecOverflow, "HttpClient::request: response exceeds max_response_bytes"⟩), w, rx)
      else
        match turns with
        | [] => (none, w, rx)
        | t :: turns =>
          if t.state ≠ .established then
            (some (.error
              ⟨.disconnected, "HttpClient::request: peer closed before response complete"⟩), w, rx)
          else if t.now ≥ deadline then
            (some (.error ⟨.timeout, "HttpClient::request: response timeout"⟩), w, rx)
          else
            let polled := srv.poll (onMessage cfg.maxResponseBytes) t.chunks w rx
            receiveLoop srv cfg deadline turns polled.1 polled.2

/-- The client and its connection. -/
structure Client where
  wire : Wire
  rxBuffer : Bytes
  deriving DecidableEq

/-- A client on a fresh connection. -/
def Client.fresh : Client := ⟨⟨[], 0⟩, []⟩

/-- `HttpClient::request`. -/
def request (srv : Server) (cfg : HttpClientConfig) (client : Client) (c : Call) :
    Option (Except ErrorInfo Response) × Client :=
  match c.text cfg with
  | .error e => (some (.error e), client)
  | .ok text =>
    match sendLoop srv c.deadline c.turns text client.wire with
    | (none, w) => (none, { client with wire := w })
    | (some (.error e), w) => (some (.error e), { client with wire := w })
    | (some (.ok turns), w) =>
      match receiveLoop srv cfg c.deadline turns w [] with
      | (outcome, w, rx) => (outcome, ⟨w, rx⟩)

/-! ## Histories -/

/-- What happens to a client: a call, or a poll between calls. -/
inductive Action
  | call (c : Call)
  | idle (chunks : List Nat)

section History

variable (srv : Server) (cfg : HttpClientConfig)

/-- The client after an action; nothing follows a call that does not return. -/
def Client.step (client : Client) : Action → Option Client
  | .call c =>
    match request srv cfg client c with
    | (none, _) => none
    | (some _, client) => some client
  | .idle chunks => some { client with wire := (srv.poll (fun _ _ => ()) chunks client.wire ()).1 }

/-- Every call of a history has the property, in the state in which it begins. -/
def EachCall (P : Client → Call → Prop) : List Action → Client → Prop
  | [], _ => True
  | a :: history, client =>
    (∀ c, a = .call c → P client c) ∧
      ∀ client', client.step srv cfg a = some client' → EachCall P history client'

variable {srv cfg}

theorem EachCall.mono {P Q : Client → Call → Prop} (hPQ : ∀ client c, P client c → Q client c)
    {history : List Action} {client : Client} (h : EachCall srv cfg P history client) :
    EachCall srv cfg Q history client := by
  induction history generalizing client with
  | nil => trivial
  | cons a history ih =>
    obtain ⟨hhere, hlater⟩ := h
    exact ⟨fun c hc => hPQ client c (hhere c hc), fun client' hstep => ih (hlater client' hstep)⟩

end History

end Eph.Net.HttpClient
