import Ephemeral.Binary64
import Ephemeral.Reentrancy
import Ephemeral.TcpSession
import Mathlib.Data.UInt

/-!
# The reconnect orchestrator

`ReconnectOrchestrator` owns a stream and a backoff policy.  It asks its factory for a
stream, watches the stream's handshake, promotes it, and after a failure or a disconnect
schedules the next attempt.  On its way it calls out: to the factory, to the attach and
detach hooks, and to the callbacks that observe it.  All of these are user code that may
call the orchestrator again before it returns, so each operation is an `Outcome`, the
code up to the next call together with what follows it.

The streams belong to the poll loop: what `state()` of a stream answers, the reading of
the cycle counter and the sample of the jitter generator are parts of the world that the
environment sets at will.  A `double` is rational, as in `Binary64`.
-/

namespace Eph.Net

open Core Eph.Dpdk Reentrant

/-! ## The backoff policy -/

/-- `ExponentialBackoff::Config`, with times in milliseconds; `none` is a number that is
not finite. -/
structure BackoffConfig where
  initialBackoff : ℤ
  maxBackoff : ℤ
  multiplier : Option ℚ
  jitterFactor : Option ℚ
  maxAttempts : UInt32

/-- `ExponentialBackoff` with its normalised configuration.  `resets` counts the calls of
`reset`; the source keeps no such number. -/
structure ExponentialBackoff where
  initialBackoff : ℤ
  maxBackoff : ℤ
  multiplier : ℚ
  jitterFactor : ℚ
  maxAttempts : UInt32
  currentBase : ℤ
  attempts : UInt32
  resets : Nat

/-- The largest 64-bit integer. -/
def kInt64Max : ℤ := 2 ^ 63 - 1

/-- The conversion of a double to a 64-bit integer, cut off at the largest. -/
def toInt64 (x : ℚ) : ℤ :=
  if 2 ^ 63 ≤ x then kInt64Max else ⌊x⌋

namespace ExponentialBackoff

/-- The constructor. -/
def create (cfg : BackoffConfig) : ExponentialBackoff :=
  let initialBackoff := if cfg.initialBackoff ≤ 0 then 100 else cfg.initialBackoff
  let multiplier :=
    match cfg.multiplier with
    | none => 2
    | some m => if m < 1 then 2 else m
  let jitterFactor :=
    match cfg.jitterFactor with
    | none => 0
    | some f => if f < 0 then 0 else if 1 ≤ f then 999 / 1000 else f
  ⟨initialBackoff, max cfg.maxBackoff initialBackoff, multiplier, jitterFactor,
    cfg.maxAttempts, initialBackoff, 0, 0⟩

/-- `apply_symmetric_jitter`: `sample` is what the generator returns. -/
def applySymmetricJitter (base : ℤ) (jitterFactor sample : ℚ) : ℤ :=
  if base ≤ 0 ∨ jitterFactor = 0 then base
  else max 0 (toInt64 sample)

variable (b : ExponentialBackoff)

/-- `next_delay`: nothing once the attempts are used up. -/
def nextDelay (sample : ℚ) : Option ℤ × ExponentialBackoff :=
  if b.maxAttempts ≠ 0 ∧ b.maxAttempts ≤ b.attempts then (none, b)
  else
    let scaled := Binary64.round (Binary64.round b.currentBase * b.multiplier)
    (some (applySymmetricJitter b.currentBase b.jitterFactor sample),
      { b with attempts := b.attempts + 1, currentBase := min (toInt64 scaled) b.maxBackoff })

/-- `reset`. -/
def reset : ExponentialBackoff :=
  { b with attempts := 0, currentBase := b.initialBackoff, resets := b.resets + 1 }

theorem nextDelay_resets (sample : ℚ) : (b.nextDelay sample).2.resets = b.resets := by
  unfold nextDelay
  split
  · rfl
  · rfl

end ExponentialBackoff

/-! ## The cycle counter -/

/-- `TSC::to_ns`; `none` before the calibration. -/
def tscToNs (nsPerCycle : Option ℚ) (cycles : UInt64) : Option UInt64 :=
  nsPerCycle.map fun r =>
    UInt64.ofNat ⌊Binary64.round (Binary64.round cycles.toNat * r)⌋.toNat

/-- `TSC::to_cycles` of a number of milliseconds. -/
def tscToCycles (nsPerCycle : Option ℚ) (ms : ℤ) : Option UInt64 :=
  match nsPerCycle with
  | none => none
  | some r =>
    let ns := Binary64.round (Binary64.round ms * 1000000)
    if ns < 0 then none
    else
      let cycles := Binary64.round (ns / r)
      if cycles < 2 ^ 64 then some (UInt64.ofNat ⌊cycles⌋.toNat) else some (2 ^ 64 - 1)

/-- The cycles of a number of milliseconds at 3 GHz, cut off at the largest number. -/
def fallbackCycles (ms : ℤ) : UInt64 :=
  if ms ≤ 0 then 0
  else if (2 ^ 64 - 1) / 3000000 ≤ ms then 2 ^ 64 - 1
  else UInt64.ofNat (ms.toNat * 3000000)

/-! ## The orchestrator -/

/-- `ReconnectState`. -/
inductive ReconnectState
  | idle
  | connecting
  | connected
  | backoff
  | failed
  deriving DecidableEq

/-- `ReconnectEventKind`. -/
inductive ReconnectEventKind
  | disconnectDetected
  | attemptStarted
  | attemptFailed
  | attachFailed
  | connected
  | backoffScheduled
  | failed
  deriving DecidableEq

/-- `ReconnectEvent`. -/
structure ReconnectEvent where
  kind : ReconnectEventKind
  attempt : UInt32
  eventTsc : UInt64
  durationNs : UInt64
  error : ErrorInfo
  deriving DecidableEq

/-- The identity of a stream object. -/
abbrev StreamId := Nat

/-- The metrics that the orchestrator counts. -/
structure ReconnectMetrics where
  reconnectCount : UInt64
  reconnectFailures : UInt64
  reconnectDurationNs : UInt64
  lastReconnectDurationNs : UInt64
  subscribeReplayCount : UInt64
  deriving DecidableEq

/-- `ReconnectOrchestrator`.  Of a callback the orchestrator knows whether it is set. -/
structure Orchestrator where
  autoDetectViaState : Bool
  connectTimeout : ℤ
  policy : ExponentialBackoff
  factory : Bool
  onDisconnect : Bool
  onReconnect : Bool
  attach : Bool
  detach : Bool
  onEvent : Bool
  stream : Option StreamId
  state : ReconnectState
  nextAttemptTsc : UInt64
  disconnectTsc : UInt64
  connectStartTsc : UInt64
  stopped : Bool
  metrics : ReconnectMetrics

/-- The constructor's arguments: the configuration, and which callbacks are supplied. -/
structure ReconnectConfig where
  policy : BackoffConfig
  autoDetectViaState : Bool
  connectTimeout : ℤ
  factory : Bool
  onDisconnect : Bool
  onReconnect : Bool
  attach : Bool
  detach : Bool

/-- The constructor. -/
def Orchestrator.create (cfg : ReconnectConfig) : Orchestrator where
  autoDetectViaState := cfg.autoDetectViaState
  connectTimeout := cfg.connectTimeout
  policy := .create cfg.policy
  factory := cfg.factory
  onDisconnect := cfg.onDisconnect
  onReconnect := cfg.onReconnect
  attach := cfg.attach
  detach := cfg.detach
  onEvent := false
  stream := none
  state := .idle
  nextAttemptTsc := 0
  disconnectTsc := 0
  connectStartTsc := 0
  stopped := false
  metrics := ⟨0, 0, 0, 0, 0⟩

/-- The orchestrator in its surroundings: the answers of the streams' `state()`, the
cycle counter and its calibration, and the next sample of the generator. -/
structure ReconnectWorld where
  orch : Orchestrator
  streams : StreamId → TcpState
  tsc : UInt64
  nsPerCycle : Option ℚ
  sample : ℚ

/-- The calls out of the orchestrator.  The factory may succeed with a null pointer. -/
inductive ReconnectHook
  | factory
  | attach (stream : Option StreamId)
  | detach (stream : StreamId)
  | onDisconnect (reason : ErrorInfo)
  | onReconnect (attempt : UInt32) (durationNs : UInt64)
  | onEvent (event : ReconnectEvent)
  deriving DecidableEq

/-- What a hook returns: the factory its result, the attach hook whether it succeeded. -/
structure ReconnectReply where
  produced : Except ErrorInfo (Option StreamId)
  attached : Except ErrorInfo Unit

/-- The code between two calls out. -/
abbrev ReconnectOutcome := Outcome ReconnectWorld ReconnectHook ReconnectReply

namespace ReconnectWorld

variable (now : UInt64) (w : ReconnectWorld)

/-- Change the orchestrator. -/
def modify (f : Orchestrator → Orchestrator) : ReconnectWorld :=
  { w with orch := f w.orch }

/-- A failed attempt counts. -/
def countFailure : ReconnectWorld :=
  w.modify fun o => { o with
    metrics := { o.metrics with reconnectFailures := o.metrics.reconnectFailures + 1 } }

/-- Call a hook without a result if it is set, and go on. -/
def hookThen (set : Bool) (hook : ReconnectHook) (w : ReconnectWorld)
    (next : ReconnectWorld → ReconnectOutcome) : ReconnectOutcome :=
  if set then .call w hook fun _ w => next w else next w

/-- `emit_event_`. -/
def emitEvent (kind : ReconnectEventKind) (now durationNs : UInt64) (err : ErrorInfo)
    (w : ReconnectWorld) (next : ReconnectWorld → ReconnectOutcome) : ReconnectOutcome :=
  hookThen w.orch.onEvent
    (.onEvent ⟨kind, w.orch.policy.attempts + 1, now, durationNs, err⟩) w next

/-- `if (on_disconnect_) on_disconnect_(reason)`. -/
def notifyDisconnect (reason : ErrorInfo) (w : ReconnectWorld)
    (next : ReconnectWorld → ReconnectOutcome) : ReconnectOutcome :=
  hookThen w.orch.onDisconnect (.onDisconnect reason) w next

/-- `if (detach_ && stream_) detach_(stream_.get())`. -/
def detachStream (next : ReconnectWorld → ReconnectOutcome) : ReconnectOutcome :=
  match w.orch.stream with
  | none => next w
  | some stream => hookThen w.orch.detach (.detach stream) w next

/-- The error of an event that reports none. -/
def noError : ErrorInfo := ⟨.ok, ""⟩

/-- `enter_backoff_`. -/
def enterBackoff : ReconnectOutcome :=
  match w.orch.policy.nextDelay w.sample with
  | (none, policy) =>
    emitEvent .failed now 0 noError
      (w.modify fun o => { o with policy := policy, state := .failed }) .done
  | (some delay, policy) =>
    let cycles := (tscToCycles w.nsPerCycle delay).getD (fallbackCycles delay)
    let nextAttempt := if 2 ^ 64 - 1 - now < cycles then 2 ^ 64 - 1 else now + cycles
    emitEvent .backoffScheduled now 0 noError
      (w.modify fun o => { o with
        policy := policy, nextAttemptTsc := nextAttempt, state := .backoff }) .done

/-- The end of `promote_to_connected_`, after `on_reconnect_`. -/
def announce (now durationNs : UInt64) (w : ReconnectWorld) : ReconnectOutcome :=
  emitEvent .connected now durationNs noError w fun w =>
    .done (w.modify fun o => { o with policy := o.policy.reset })

/-- `promote_to_connected_`. -/
def promoteToConnected : ReconnectOutcome :=
  let cycles := if w.orch.disconnectTsc ≤ now then now - w.orch.disconnectTsc else 0
  let durationNs := (tscToNs w.nsPerCycle cycles).getD 0
  let w := w.modify fun o => { o with
    state := .connected
    metrics := { o.metrics with
      reconnectCount := o.metrics.reconnectCount + 1
      reconnectDurationNs := o.metrics.reconnectDurationNs + durationNs
      lastReconnectDurationNs := durationNs } }
  hookThen w.orch.onReconnect (.onReconnect (w.orch.policy.attempts + 1) durationNs) w
    (announce now durationNs)

/-- `try_attempt_` once the stream is attached.  A null pointer is dereferenced. -/
def install (fresh : Option StreamId) (w : ReconnectWorld) : ReconnectOutcome :=
  match fresh with
  | none => .fault
  | some stream =>
    let w := w.modify fun o => { o with
      stream := some stream, connectStartTsc := now, state := .connecting }
    if w.streams stream = .established then promoteToConnected now w else .done w

/-- The failure paths of `try_attempt_`. -/
def failAttempt (kind : ReconnectEventKind) (now : UInt64) (e : ErrorInfo) (w : ReconnectWorld) :
    ReconnectOutcome :=
  notifyDisconnect e w.countFailure fun w =>
  emitEvent kind now 0 e w fun w =>
  enterBackoff now w

/-- `try_attempt_` once the factory has answered. -/
def onProduced (reply : ReconnectReply) (w : ReconnectWorld) : ReconnectOutcome :=
  match reply.produced with
  | .error e => failAttempt .attemptFailed now e w
  | .ok fresh =>
    if w.orch.attach then
      .call w (.attach fresh) fun reply w =>
        match reply.attached with
        | .error e => failAttempt .attachFailed now e w
        | .ok () => install now fresh w
    else install now fresh w

/-- `try_attempt_`. -/
def tryAttempt : ReconnectOutcome :=
  emitEvent .attemptStarted now 0 noError (w.modify fun o => { o with state := .connecting })
    fun w => .call w .factory (onProduced now)

/-- `mark_disconnected`. -/
def markDisconnected (reason : ErrorInfo) (w : ReconnectWorld) : ReconnectOutcome :=
  if w.orch.stopped then .done w
  else if w.orch.state ≠ .connected then .done w
  else
    detachStream w fun w =>
    notifyDisconnect reason w fun w =>
    let w := w.modify fun o => { o with stream := none, disconnectTsc := w.tsc }
    emitEvent .disconnectDetected w.orch.disconnectTsc 0 reason w fun w =>
    enterBackoff w.orch.disconnectTsc w

/-- The reason reported for a connect attempt that is given up. -/
def giveUpReason (failed : Bool) : ErrorInfo :=
  if failed then ⟨.connectFailed, "ReconnectOrchestrator: handshake failed"⟩
  else ⟨.timeout, "ReconnectOrchestrator: connect_timeout exceeded"⟩

/-- A connect attempt in flight is given up. -/
def giveUp (failed : Bool) (w : ReconnectWorld) : ReconnectOutcome :=
  detachStream w fun w =>
  notifyDisconnect (giveUpReason failed) w fun w =>
  emitEvent .attemptFailed now 0 (giveUpReason failed)
    (countFailure (w.modify fun o => { o with stream := none })) fun w =>
  enterBackoff now (w.modify fun o => { o with disconnectTsc := now })

/-- Whether the attempt in flight has taken longer than `connect_timeout`. -/
def timedOut : Bool :=
  let elapsed := if w.orch.connectStartTsc ≤ now then now - w.orch.connectStartTsc else 0
  (tscToNs w.nsPerCycle elapsed).any fun ns =>
    UInt64.ofInt (w.orch.connectTimeout * 1000000) < ns

/-- `tick`. -/
def tick : ReconnectOutcome :=
  if w.orch.stopped then .done w
  else
    match w.orch.state, w.orch.stream with
    | .idle, _ => .done w
    | .failed, _ => .done w
    | .connecting, none => .done w
    | .connecting, some stream =>
      if w.streams stream = .established then promoteToConnected now w
      else if w.streams stream = .closed ∨ w.timedOut now then
        giveUp now (w.streams stream = .closed) w
      else .done w
    | .connected, none => .done w
    | .connected, some stream =>
      if !w.orch.autoDetectViaState then .done w
      else if w.streams stream = .established then .done w
      else markDisconnected ⟨.disconnected, "auto-detected via stream state"⟩ w
    | .backoff, _ => if w.orch.nextAttemptTsc ≤ now then tryAttempt now w else .done w

/-- `start`, with its result. -/
def start : Except ErrorInfo Unit × ReconnectOutcome :=
  if w.orch.state ≠ .idle then
    (.error ⟨.invalidConfig, "ReconnectOrchestrator::start called in non-Idle state"⟩, .done w)
  else if !w.orch.factory then
    (.error ⟨.invalidConfig, "ReconnectOrchestrator: factory callback is required"⟩,
      .done (w.modify fun o => { o with state := .failed }))
  else (.ok (), tryAttempt now (w.modify fun o => { o with disconnectTsc := now }))

/-- `note_subscribe_replay`. -/
def noteSubscribeReplay : ReconnectWorld :=
  w.modify fun o => { o with
    metrics := { o.metrics with subscribeReplayCount := o.metrics.subscribeReplayCount + 1 } }

end ReconnectWorld

/-- What the environment may do: the orchestrator's operations, and the changes of its
surroundings. -/
inductive ReconnectOp
  | start (now : UInt64)
  | tick (now : UInt64)
  | markDisconnected (reason : ErrorInfo)
  | stop
  | setOnReconnectEvent (set : Bool)
  | noteSubscribeReplay
  | streamState (stream : StreamId) (state : TcpState)
  | clock (tsc : UInt64) (nsPerCycle : Option ℚ) (sample : ℚ)

/-- The code of an operation. -/
def ReconnectOp.run : ReconnectOp → ReconnectWorld → ReconnectOutcome
  | start now, w => (w.start now).2
  | tick now, w => w.tick now
  | markDisconnected reason, w => w.markDisconnected reason
  | stop, w => .done (w.modify fun o => { o with stopped := true })
  | setOnReconnectEvent set, w => .done (w.modify fun o => { o with onEvent := set })
  | noteSubscribeReplay, w => .done w.noteSubscribeReplay
  | streamState stream state, w =>
    .done { w with streams := fun id => if id = stream then state else w.streams id }
  | clock tsc nsPerCycle sample, w =>
    .done { w with tsc := tsc, nsPerCycle := nsPerCycle, sample := sample }

/-- The orchestrator and the calls out that are in progress. -/
abbrev ReconnectMachine := Machine ReconnectWorld ReconnectHook ReconnectReply

/-- A move of the environment. -/
abbrev ReconnectMove := Move ReconnectOp ReconnectReply

end Eph.Net
