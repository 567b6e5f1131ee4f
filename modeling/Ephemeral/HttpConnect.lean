import Ephemeral.ByteExchange
import Ephemeral.HttpHead
import Ephemeral.WsHandshake

/-!
# The HTTP CONNECT handshake with a proxy

`performHttpConnect` asks a proxy for a tunnel: it sends a CONNECT request, reads the
response into a buffer of 4096 bytes, and hands on what it has read beyond the response.
The response is parsed after each piece with the parser for REST traffic, which insists on
a Content-Length; if that one reports an error, a permissive parser looks for the blank
line and takes the status code only.

The function loops until its deadline.  Here it runs for a number of iterations; the
clock is a function of the iteration, and a run that has not come to an end has no result.
-/

namespace Eph.Net

open ByteOrder Core

/-- The fields of `ProxyConfig` that the handshake reads, the time in milliseconds. -/
structure ProxyConfig where
  basicAuthUser : Option Bytes
  basicAuthPass : Option Bytes
  timeout : Nat

/-- `format_host_port`. -/
def formatHostPort (targetHost : Bytes) (targetPort : UInt16) : Bytes :=
  targetHost.take 253 ++ ascii ":" ++ Decimal.render 5 targetPort.toNat

/-- `build_proxy_auth_value`: empty without credentials. -/
def buildProxyAuthValue (proxy : ProxyConfig) : Bytes :=
  match proxy.basicAuthUser, proxy.basicAuthPass with
  | some user, some pass => ascii "Basic " ++ base64Encode (user ++ ascii ":" ++ pass)
  | _, _ => []

/-- The CONNECT request, and the checks before it. -/
def connectRequest (proxy : ProxyConfig) (targetHost : Bytes) (targetPort : UInt16) :
    Except ErrorInfo Bytes :=
  if targetHost.isEmpty then
    .error ⟨.invalidConfig, "http_connect: target_host must be non-empty"⟩
  else if targetHost.length > 253 then
    .error ⟨.invalidConfig, "http_connect: target_host exceeds 253-byte DNS limit"⟩
  else
    let authority := formatHostPort targetHost targetPort
    let auth := buildProxyAuthValue proxy
    let authHeader : List HttpHeader :=
      if auth.isEmpty then [] else [⟨ascii "Proxy-Authorization", auth⟩]
    match buildHttpRequest 2048 (ascii "CONNECT") authority
        ([⟨ascii "Host", authority⟩, ⟨ascii "Proxy-Connection", ascii "Keep-Alive"⟩] ++
          authHeader) [] with
    | .error _ =>
      .error ⟨.proxyHandshakeFailed, "http_connect: failed to build CONNECT request"⟩
    | .ok req => .ok req

/-- The digits from the front of a buffer. -/
def leadingDigits (buf : Bytes) : Bytes := buf.takeWhile isDigitChar

/-- `try_parse_connect_response`: the status code and the end of the head. -/
def tryParseConnectResponse (buf : Bytes) : Option (Nat × Nat) :=
  if buf.length < 16 then none
  else if buf.take 7 ≠ ascii "HTTP/1." then none
  else
    match headEnd buf with
    | none => none
    | some term =>
      let digits := leadingDigits (buf.drop 9)
      if digits.length ≠ 3 then none
      else
        let code := Decimal.value 0 digits
        if code < 100 ∨ 599 < code then none else some (code, term)

/-- The size of the response buffer `rx_buf`. -/
def kConnectRxCapacity : Nat := 4096

/-- What the handshake can tell from its buffer: the status code and the end of the
response, or that it is malformed. -/
def connectAnswer (rx : Bytes) : Option (Except ErrorInfo (Nat × Nat)) :=
  match parseHttpResponse rx kMaxHeaderCount with
  | .error _ =>
    match tryParseConnectResponse rx with
    | some found => some (.ok found)
    | none => some (.error ⟨.proxyHandshakeFailed, "http_connect: malformed response"⟩)
  | .ok none => none
  | .ok (some parsed) => some (.ok (parsed.value.statusCode, parsed.consumed))

/-- The verdict on a status code. -/
def connectVerdict (status : Nat) : Except ErrorInfo Unit :=
  if status = 407 then
    .error ⟨.proxyAuthRequired, "http_connect: proxy requires authentication (407)"⟩
  else if status < 200 ∨ 300 ≤ status then
    .error ⟨.proxyHandshakeFailed, "http_connect: proxy returned non-2xx status"⟩
  else .ok ()

/-- Where the handshake is: sending the request, or reading the response. -/
inductive ConnectPhase
  | sending (sent : Nat)
  | receiving (rx : Bytes)

/-- A handshake that has run: its result if it has ended, the bytes handed on if the caller
wants them, and the pipe. -/
structure ConnectRun (σ : Type) where
  result : Option (Except ErrorInfo Unit)
  leftover : Option Bytes
  io : σ

section Connect

variable {σ : Type}

/-- The end of the handshake. -/
def connectDone (leftover : Option Bytes) (rx : Bytes) (found : Nat × Nat) (w : σ) : ConnectRun σ :=
  match connectVerdict found.1 with
  | .error e => ⟨some (.error e), leftover, w⟩
  | .ok () => ⟨some (.ok ()), leftover.map (· ++ rx.drop found.2), w⟩

/-- The two loops.  Iteration `i` reads `clock i`. -/
def connectLoop (io : ByteSink σ) (clock : Nat → Nat) (deadline : Nat) (req : Bytes)
    (leftover : Option Bytes) : (n i : Nat) → ConnectPhase → σ → ConnectRun σ
  | 0, _, _, w => ⟨none, leftover, w⟩
  | n + 1, i, .sending sent, w =>
    if deadline ≤ clock i then
      ⟨some (.error ⟨.timeout, "http_connect: send timeout"⟩), leftover, w⟩
    else
      match io.send w (req.drop sent) with
      | (.error e, w) =>
        if e.code = .wouldBlock then
          connectLoop io clock deadline req leftover n (i + 1) (.sending sent) w
        else ⟨some (.error e), leftover, w⟩
      | (.ok k, w) =>
        if k = 0 then
          ⟨some (.error ⟨.bufferFull, "http_connect: ByteSink::send returned 0 bytes"⟩),
            leftover, w⟩
        else if sent + k < req.length then
          connectLoop io clock deadline req leftover n (i + 1) (.sending (sent + k)) w
        else connectLoop io clock deadline req leftover n (i + 1) (.receiving []) w
  | n + 1, i, .receiving rx, w =>
    if deadline ≤ clock i then
      ⟨some (.error ⟨.timeout, "http_connect: read timeout"⟩), leftover, w⟩
    else if rx.length = kConnectRxCapacity then
      ⟨some (.error ⟨.proxyHandshakeFailed, "http_connect: response too large"⟩), leftover, w⟩
    else
      match io.recv w (kConnectRxCapacity - rx.length) with
      | (.error e, w) =>
        if e.code = .wouldBlock then
          connectLoop io clock deadline req leftover n (i + 1) (.receiving rx) w
        else ⟨some (.error e), leftover, w⟩
      | (.ok data, w) =>
        if data.isEmpty then
          connectLoop io clock deadline req leftover n (i + 1) (.receiving rx) w
        else
          match connectAnswer (rx ++ data) with
          | none => connectLoop io clock deadline req leftover n (i + 1) (.receiving (rx ++ data)) w
          | some (.error e) => ⟨some (.error e), leftover, w⟩
          | some (.ok found) => connectDone leftover (rx ++ data) found w

/-- `perform_http_connect`, for `n` iterations. -/
def performHttpConnect (io : ByteSink σ) (clock : Nat → Nat) (proxy : ProxyConfig)
    (targetHost : Bytes) (targetPort : UInt16) (leftover : Option Bytes) (n : Nat) (w : σ) :
    ConnectRun σ :=
  match connectRequest proxy targetHost targetPort with
  | .error e => ⟨some (.error e), leftover, w⟩
  | .ok req =>
    connectLoop io clock (clock 0 + proxy.timeout) req leftover n 1 (.sending 0) w

end Connect

end Eph.Net
