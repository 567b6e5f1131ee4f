import Ephemeral.AtomicProgram
import Ephemeral.Binary64
import Ephemeral.CoreTypes
import Ephemeral.FixParser

/-!
# The FIX session

`FixSession` numbers the outbound messages and answers the counterparty's
session messages.  Two threads use it at once: the application's thread calls
`send_app`, the polling thread calls `on_rx` and `tick`.  All shared fields are
atomics, so each call is a program of atomic steps: a load or store of one
field, the claim of a sequence number, or the hand-over of a finished message
to the send callback.

The claim is a compare-and-exchange loop.  Its failed rounds change nothing and
its last round is one exchange, so it is one step here.  The message is built in
a buffer of the claiming thread's own, so building it belongs to the same step;
if it does not fit the buffer, the claimed number is not used for any message.
-/

namespace Eph.Fix

open Atomic ByteOrder Core MessageBuilder Prog

/-! ## Configuration and state -/

/-- The session's life cycle. -/
inductive SessionState where
  | kDisconnected
  | kLogonSent
  | kActive
  | kLogoutSent
  deriving DecidableEq

/-- The configuration, as far as these functions read it. -/
structure FixSessionConfig where
  senderCompId : Bytes
  targetCompId : Bytes
  beginString : Bytes := ascii "FIX.4.4"
  /-- The double `heartbeat_timeout_factor`; `none` if it is not finite. -/
  heartbeatTimeoutFactor : Option ℚ := some (3 / 2)
  resendOnGap : Bool := false

/-- The two threads that use a session. -/
inductive SessionThread where
  | app
  | poll
  deriving DecidableEq

/-- A finished message with the number it was built with. -/
structure Message where
  seq : UInt32
  bytes : Bytes
  deriving DecidableEq

/-- The session's fields.  The last two are history: the finished message each thread is about to
hand over, and the messages the send callback accepted, in order. -/
structure Session where
  state : SessionState
  heartbeatIntervalSec : Int
  outboundSeq : UInt32
  lastInboundSeq : UInt32
  expectedInboundSeq : UInt32
  lastSentTime : Int
  lastRecvTime : Int
  testRequestPending : Bool
  holding : SessionThread → Option Message
  transmitted : List Message

/-- What the environment supplies to a step: the answer of the send callback, the steady clock and
the system clock, both in nanoseconds. -/
structure Env where
  sendOk : Bool
  now : Int
  wall : UInt64

/-- The session's calls as programs. -/
abbrev FixM := Prog Env Session

/-! ## Messages -/

/-- `set_bool`. -/
def MessageBuilder.setBool (b : MessageBuilder) (t : UInt32) (value : Bool) :
    Option MessageBuilder :=
  b.setTrusted t (if value then ascii "Y" else ascii "N")

/-- What is to be sent: one of the session's own messages, or the application's builder. -/
inductive Outgoing where
  | logout
  | heartbeat (testReqId : Bytes)
  | testRequest (testReqId : Bytes)
  | resendRequest (beginSeq endSeq : UInt32)
  | gapFill (newSeq : UInt32)
  | app (builder : MessageBuilder)

variable (cfg : FixSessionConfig) (msg : MessageView) (thread : SessionThread)

/-- The fields of `fill_session_header`, once the number is claimed. -/
def fillSessionHeader (seq : UInt32) (nowNs : UInt64) (b : MessageBuilder) :
    Option MessageBuilder := do
  let b ← b.set 49 cfg.senderCompId
  let b ← b.set 56 cfg.targetCompId
  let b ← b.setInt 34 (Int64.ofNat seq.toNat)
  b.setTimestamp 52 nowNs .kMilliseconds

/-- The builder over a fresh buffer of 256 bytes, with its MsgType. -/
def sessionBuilder (msgType : String) : Option MessageBuilder :=
  (create (some (List.replicate 256 0)) 256).set 35 (ascii msgType)

/-- Set the fields of the message, in the order of the code. -/
def Outgoing.fill (seq : UInt32) (nowNs : UInt64) : Outgoing → Option MessageBuilder
  | .logout => sessionBuilder "5" >>= fillSessionHeader cfg seq nowNs
  | .heartbeat testReqId => do
    let b ← sessionBuilder "0" >>= fillSessionHeader cfg seq nowNs
    if testReqId.isEmpty then some b else b.set 112 testReqId
  | .testRequest testReqId => do
    let b ← sessionBuilder "1" >>= fillSessionHeader cfg seq nowNs
    b.set 112 testReqId
  | .resendRequest beginSeq endSeq => do
    let b ← sessionBuilder "2" >>= fillSessionHeader cfg seq nowNs
    let b ← b.setInt 7 (Int64.ofNat beginSeq.toNat)
    b.setInt 16 (Int64.ofNat endSeq.toNat)
  | .gapFill newSeq => do
    let b ← sessionBuilder "4" >>= fillSessionHeader cfg seq nowNs
    let b ← b.setBool 123 true
    b.setInt 36 (Int64.ofNat newSeq.toNat)
  | .app builder => fillSessionHeader cfg seq nowNs builder

/-- The finished bytes; `none` when `finish` returns zero. -/
def Outgoing.compose (seq : UInt32) (nowNs : UInt64) (outgoing : Outgoing) : Option Bytes := do
  let b ← outgoing.fill cfg seq nowNs
  let (len, b) ← b.finish cfg.beginString
  if len = 0 then none else some (b.mem.take len)

/-! ## Sending -/

/-- Claim the next number and build the message with it.  A counter at `UINT32_MAX` is exhausted. -/
def claim (outgoing : Outgoing) : FixM Bool :=
  .atomic fun env s =>
    if s.outboundSeq ≥ 0xFFFFFFFF then (false, s)
    else
      let bytes := outgoing.compose cfg s.outboundSeq env.wall
      (bytes.isSome,
        { s with
          outboundSeq := s.outboundSeq + 1
          holding := Function.update s.holding thread (bytes.map (Message.mk s.outboundSeq)) })

/-- Hand the finished message to the send callback. -/
def transmit : FixM Bool :=
  .atomic fun env s =>
    match s.holding thread with
    | none => (false, s)
    | some message =>
      (env.sendOk,
        { s with
          holding := Function.update s.holding thread none
          transmitted := if env.sendOk then s.transmitted ++ [message] else s.transmitted })

/-- `update_sent_time`. -/
def updateSentTime : FixM Unit := .store fun env s => { s with lastSentTime := env.now }

/-- `update_recv_time`. -/
def updateRecvTime : FixM Unit := .store fun env s => { s with lastRecvTime := env.now }

/-- `set_state`. -/
def setState (state : SessionState) : FixM Unit := .store fun _ s => { s with state := state }

/-- The common part of all sends: number, build, transmit. -/
def send (outgoing : Outgoing) : FixM Bool := do
  if ← claim cfg thread outgoing then
    let ok ← transmit thread
    if ok then updateSentTime
    return ok
  else return false

/-- `send_app`. -/
def sendApp (builder : MessageBuilder) : FixM Bool := do
  if (← load Session.state) = .kActive then send cfg .app (.app builder)
  else return false

/-- `send_test_request`: the flag is set only if the message went out. -/
def sendTestRequest : FixM Bool := do
  let now ← observe Env.now
  let ok ← send cfg .poll (.testRequest (ascii "TR" ++ formatUint (now % 2 ^ 64).toNat))
  if ok then store fun _ s => { s with testRequestPending := true }
  return ok

/-! ## Receiving -/

/-- `recv + 1`, frozen at `UINT32_MAX`. -/
def nextExpected (recv : UInt32) : UInt32 :=
  if recv = 0xFFFFFFFF then 0xFFFFFFFF else recv + 1

/-- The sequence tracking of `on_rx`; `false` if the message is to be ignored. -/
def trackSequence : FixM Bool := do
  match msg.getInt 34 with
  | none => return true
  | some received =>
    if received < 1 then return false
    else if received > 0xFFFFFFFF then return false
    else
      let recv := received.toUInt64.toUInt32
      let expected ← load Session.expectedInboundSeq
      store fun _ s => { s with lastInboundSeq := recv }
      let isDup := msg.get 43 = some (ascii "Y")
      if recv > expected ∧ ¬isDup then
        if cfg.resendOnGap then
          let _ ← send cfg .poll (.resendRequest expected (recv - 1))
        store fun _ s => { s with expectedInboundSeq := nextExpected recv }
      else if recv = expected then
        store fun _ s => { s with expectedInboundSeq := nextExpected recv }
      return true

/-- Take over the server's heartbeat interval if it is reasonable. -/
def adoptHeartbeat : FixM Unit :=
  match msg.getInt 108 with
  | none => return ()
  | some serverHb => do
    if 0 < serverHb ∧ serverHb ≤ 3600 then
      let prev ← load Session.heartbeatIntervalSec
      if serverHb.toInt ≠ prev then
        store fun _ s => { s with heartbeatIntervalSec := serverHb.toInt }

/-- A Logon completes the session's own. -/
def onLogon (curState : SessionState) : FixM Bool := do
  adoptHeartbeat msg
  if curState = .kLogonSent then setState .kActive
  return true

/-- A Logout: answer it if it is the server's own. -/
def onLogout (curState : SessionState) : FixM Bool := do
  if curState = .kLogoutSent then setState .kDisconnected
  else if curState = .kActive then
    let _ ← send cfg .poll .logout
    setState .kDisconnected
  else if curState = .kLogonSent then setState .kDisconnected
  return true

/-- A SequenceReset: a gap fill only moves forward, a reset moves anywhere. -/
def onSequenceReset : FixM Bool := do
  match msg.getInt 36 with
  | none => return true
  | some newSeq =>
    if newSeq < 1 then return true
    else if newSeq > 0xFFFFFFFF then return true
    else
      let ns := newSeq.toUInt64.toUInt32
      if msg.get 123 = some (ascii "Y") then
        let expected ← load Session.expectedInboundSeq
        if ns ≤ expected then return true
      store fun _ s => { s with expectedInboundSeq := ns }
      return true

/-- The part of `on_rx` that depends on the message type. -/
def dispatch (msgType : Bytes) : FixM Bool := do
  let curState ← load Session.state
  if msgType = ascii "A" then onLogon msg curState
  else if msgType = ascii "5" then onLogout cfg curState
  else if msgType = ascii "0" then
    store fun _ s => { s with testRequestPending := false }
    return true
  else if msgType = ascii "1" then
    let _ ← send cfg .poll (.heartbeat ((msg.get 112).getD []))
    return true
  else if msgType = ascii "4" then onSequenceReset msg
  else if msgType = ascii "2" then
    let next ← load Session.outboundSeq
    let _ ← send cfg .poll (.gapFill next)
    return true
  else return false

/-- `on_rx`: `true` for a message the session has dealt with, `false` for the application's. -/
def onRx (data : Bytes) : FixM Bool := do
  updateRecvTime
  match parse 128 kDefaultMaxBodyLength data with
  | .error _ => return true
  | .ok msg =>
    match msg.get 35 with
    | none => return false
    | some msgType =>
      if ← trackSequence cfg msg then dispatch cfg msg msgType
      else return true

/-! ## The timer -/

/-- `duration_cast<seconds>` of a difference of times in nanoseconds. -/
def seconds (ns : Int) : Int := ns.tdiv 1000000000

/-- The dead-server budget in seconds: the product in double precision, truncated.  Without a finite
product the check never fires. -/
def timeoutSecs (hbSec : Int) : Option ℚ → Int
  | none => Int64.maxValue.toInt
  | some factor =>
    let product := Binary64.round (hbSec * factor)
    product.num.tdiv product.den

/-- `maybe_send_heartbeat`. -/
def maybeSendHeartbeat : FixM Unit := do
  let now ← observe Env.now
  let lastSent ← load Session.lastSentTime
  let hbSec ← load Session.heartbeatIntervalSec
  if seconds (now - lastSent) ≥ hbSec then
    let _ ← send cfg .poll (.heartbeat [])

/-- Give the server up if it stayed silent after a TestRequest. -/
def giveUp (recvElapsed timeout : Int) : FixM Bool := do
  if recvElapsed ≥ timeout then
    if ← load Session.testRequestPending then
      setState .kDisconnected
      return true
    else return false
  else return false

/-- Probe a silent server with a TestRequest, unless one is pending. -/
def probe (recvElapsed hbSec : Int) : FixM Unit := do
  if recvElapsed ≥ hbSec then
    if ← load Session.testRequestPending then return ()
    else
      let _ ← sendTestRequest cfg

/-- `tick`: `false` only when it has just given the server up. -/
def tick : FixM Bool := do
  if (← load Session.state) ≠ .kActive then return true
  else
    let now ← observe Env.now
    let hbSec ← load Session.heartbeatIntervalSec
    maybeSendHeartbeat cfg
    let lastRecv ← load Session.lastRecvTime
    let recvElapsed := seconds (now - lastRecv)
    if ← giveUp recvElapsed (timeoutSecs hbSec cfg.heartbeatTimeoutFactor) then return false
    else
      probe cfg recvElapsed hbSec
      return true

/-! ## The two threads -/

/-- A call of the polling thread. -/
inductive PollCall where
  | onRx (data : Bytes)
  | tick

/-- The program of a call of the polling thread. -/
def PollCall.prog : PollCall → FixM Bool
  | .onRx data => Fix.onRx cfg data
  | .tick => Fix.tick cfg

/-- The application's thread making some sends and the polling thread making some calls, over a
session whose history begins now. -/
def twoThreads (session : Session) (builders : List MessageBuilder) (calls : List PollCall) :
    Machine SessionThread Env Session where
  shared := { session with holding := fun _ => none, transmitted := [] }
  threads
    | .app => each (sendApp cfg) builders
    | .poll => each (PollCall.prog cfg) calls

end Eph.Fix
