import Ephemeral.Reconnect

/-!
# What the orchestrator's events say

A `Connected` event should be emitted in state Connected with a stream, and the backoff
should start over only after a promotion that ended there.  The code between two calls
out is `Truthful` in this sense.  The promotion calls `on_reconnect_` and the event hook
before it is over, and goes on whatever they have done; so it is truthful exactly as long
as these return in state Connected (`StaysConnected`).

Other callbacks may leave the orchestrator Connected without a stream for a while: a
disconnect drops the stream before it reports it.  The code after such a call sets the
state before it ends, whatever it finds, which is why an operation always ends in a state
that is `Backed`.
-/

namespace Eph.Net

open Core Eph.Dpdk Reentrant

variable {w w' : ReconnectWorld}

/-- The event that the code calls out with, and the world at that moment. -/
def emitted : ReconnectOutcome → Option (ReconnectEvent × ReconnectWorld)
  | .call w (.onEvent event) _ => some (event, w)
  | _ => none

/-- Code that runs from `before`: an emitted `Connected` event finds state Connected and a
stream, and a reset of the backoff finds state Connected. -/
def Truthful (before : ReconnectWorld) (out : ReconnectOutcome) : Prop :=
  (∀ e ∈ emitted out, e.1.kind = .connected →
    e.2.orch.state = .connected ∧ e.2.orch.stream.isSome) ∧
  (∀ w ∈ out.left, w.orch.policy.resets ≠ before.orch.policy.resets → w.orch.state = .connected)

instance (before : ReconnectWorld) (out : ReconnectOutcome) : Decidable (Truthful before out) :=
  inferInstanceAs (Decidable (_ ∧ _))

/-- The calls out of a promotion. -/
def ReconnectHook.promotes : ReconnectHook → Bool
  | .onReconnect _ _ => true
  | .onEvent event => event.kind = .connected
  | _ => false

/-- A call out of a promotion returns in state Connected. -/
def StaysConnected (hook : ReconnectHook) (w : ReconnectWorld) : Prop :=
  hook.promotes = true → w.orch.state = .connected

/-- State Connected comes with a stream. -/
def Backed (w : ReconnectWorld) : Prop :=
  w.orch.state = .connected → w.orch.stream.isSome

/-- Truthful code that is accounted for. -/
def Settles (before : ReconnectWorld) (out : ReconnectOutcome) : Prop :=
  Truthful before out ∧ Accounted Backed Truthful StaysConnected out

/-- Only the number of resets before the code matters. -/
theorem Truthful.of_resets {out : ReconnectOutcome} (h : Truthful w' out)
    (hresets : w'.orch.policy.resets = w.orch.policy.resets) : Truthful w out :=
  ⟨h.1, hresets ▸ h.2⟩

/-- Code that emits no event. -/
theorem truthful_of_silent {out : ReconnectOutcome}
    (hsilent : emitted out = none)
    (hleft : ∀ w' ∈ out.left, w'.orch.policy.resets ≠ w.orch.policy.resets →
      w'.orch.state = .connected) : Truthful w out := by
  refine ⟨fun e he => ?_, hleft⟩
  rw [hsilent] at he
  exact (Option.not_mem_none e he).elim

theorem truthful_done (hresets : w'.orch.policy.resets = w.orch.policy.resets) :
    Truthful w (.done w') := by
  refine truthful_of_silent rfl ?_
  intro w'' hleft hne
  cases hleft
  exact absurd hresets hne

theorem settles_done (hbacked : Backed w')
    (hresets : w'.orch.policy.resets = w.orch.policy.resets) : Settles w (.done w') :=
  ⟨truthful_done hresets, hbacked⟩

namespace ReconnectHook

variable {hook : ReconnectHook} {w w' : ReconnectWorld}

section

variable (hquiet : hook.promotes = false)

include hquiet

theorem staysConnected_of_quiet (w : ReconnectWorld) : StaysConnected hook w := by
  intro h
  rw [hquiet] at h
  cases h

/-- A call out that does not belong to a promotion: what follows it settles after a good
return, and after every return unless the call is made in a good state. -/
theorem settles_call {resume : ReconnectReply → ReconnectWorld → ReconnectOutcome}
    (hresets : w'.orch.policy.resets = w.orch.policy.resets)
    (hfollow : ∀ a v, Backed v → Settles v (resume a v))
    (hentry : Backed w' ∨ ∀ a v, Settles v (resume a v)) : Settles w (.call w' hook resume) := by
  have hneed := staysConnected_of_quiet hquiet
  refine ⟨⟨?_, ?_⟩, ?_, ?_⟩
  · intro e he hkind
    cases hook with
    | onEvent event =>
      cases he
      exact absurd hkind (of_decide_eq_false hquiet)
    | factory
    | attach stream
    | detach stream
    | onDisconnect reason
    | onReconnect attempt durationNs => cases he
  · intro w'' hleft hne
    cases hleft
    exact absurd hresets hne
  · intro a v hv
    obtain ⟨htrue, hacc⟩ := hfollow a v hv
    exact ⟨⟨fun _ => hneed v, fun _ => htrue⟩, hacc⟩
  · refine hentry.imp_right fun h a v => ?_
    obtain ⟨htrue, hacc⟩ := h a v
    exact ⟨⟨htrue, hneed v⟩, hacc⟩

end

end ReconnectHook

namespace ReconnectWorld

variable {w w' : ReconnectWorld} {hook : ReconnectHook} {set : Bool}
  {next : ReconnectWorld → ReconnectOutcome}

/-- An optional call out, before code that copes with every state. -/
theorem settles_hookThen (hquiet : hook.promotes = false)
    (hresets : w'.orch.policy.resets = w.orch.policy.resets)
    (hnext : ∀ v, Settles v (next v)) : Settles w (hookThen set hook w' next) := by
  unfold hookThen
  split
  · exact ReconnectHook.settles_call hquiet hresets (fun _ v _ => hnext v) (.inr fun _ v => hnext v)
  · exact ⟨(hnext w').1.of_resets hresets, (hnext w').2⟩

/-- An optional call out at the end of an operation. -/
theorem settles_hookThen_done (hquiet : hook.promotes = false)
    (hresets : w'.orch.policy.resets = w.orch.policy.resets) (hbacked : Backed w') :
    Settles w (hookThen set hook w' .done) := by
  unfold hookThen
  split
  · exact ReconnectHook.settles_call hquiet hresets (fun _ v hv => settles_done hv rfl)
      (.inl hbacked)
  · exact settles_done hbacked hresets

theorem settles_detachStream (hnext : ∀ v, Settles v (next v)) (w : ReconnectWorld) :
    Settles w (detachStream w next) := by
  unfold detachStream
  split
  · exact hnext w
  · exact settles_hookThen rfl rfl hnext

variable (now : UInt64)

/-- However it is entered, the backoff settles. -/
theorem settles_enterBackoff (w : ReconnectWorld) : Settles w (enterBackoff now w) := by
  have hresets := w.orch.policy.nextDelay_resets w.sample
  unfold enterBackoff
  generalize w.orch.policy.nextDelay w.sample = answer at hresets
  obtain ⟨delay, policy⟩ := answer
  cases delay with
  | none | some delay => exact settles_hookThen_done rfl hresets fun h => by cases h

/-- The reset at the end of a promotion is truthful exactly in state Connected. -/
theorem reset_truthful_iff :
    Truthful w (.done (w.modify fun o => { o with policy := o.policy.reset })) ↔
      w.orch.state = .connected := by
  constructor
  · intro h
    exact h.2 (w.modify _) rfl (Nat.succ_ne_self _)
  intro hstate
  refine truthful_of_silent rfl fun w' hleft _ => ?_
  cases hleft
  exact hstate

/-- So is the end of a promotion as a whole. -/
theorem announce_truthful_iff (now durationNs : UInt64) (hbacked : Backed w) :
    Truthful w (announce now durationNs w) ↔ w.orch.state = .connected := by
  unfold announce emitEvent hookThen
  split
  · -- The event reports the state.
    constructor
    · intro h
      exact (h.1 _ rfl rfl).1
    intro hstate
    refine ⟨?_, ?_⟩
    · intro e he _
      cases he
      exact ⟨hstate, hbacked hstate⟩
    · intro w' hleft hne
      cases hleft
      exact absurd rfl hne
  · -- Without an event hook the reset follows at once.
    exact reset_truthful_iff

theorem announce_accounted (now durationNs : UInt64) (hbacked : Backed w) :
    Accounted Backed Truthful StaysConnected (announce now durationNs w) := by
  unfold announce emitEvent hookThen
  split
  · refine ⟨fun _ v hv => ⟨?_, hv⟩, .inl hbacked⟩
    exact reset_truthful_iff.trans ⟨fun h _ => h, fun h => h rfl⟩
  · exact hbacked

/-- A promotion of a stream settles: it enters state Connected itself, and what its calls
out have to return in is what they are asked. -/
theorem settles_promoteToConnected (hstream : w.orch.stream.isSome) :
    Settles w (promoteToConnected now w) := by
  unfold promoteToConnected
  extract_lets cycles durationNs w'
  have hbacked : Backed w' := fun _ => hstream
  unfold hookThen
  split
  · refine ⟨truthful_of_silent rfl ?_, ?_, .inl hbacked⟩
    · intro v hleft hne
      cases hleft
      exact absurd rfl hne
    · intro _ v hv
      refine ⟨?_, announce_accounted now durationNs hv⟩
      exact (announce_truthful_iff now durationNs hv).trans ⟨fun h _ => h, fun h => h rfl⟩
  · have htrue : Truthful w' (announce now durationNs w') :=
      (announce_truthful_iff now durationNs hbacked).mpr rfl
    exact ⟨htrue.of_resets rfl, announce_accounted now durationNs hbacked⟩

theorem settles_install (fresh : Option StreamId) (w : ReconnectWorld) :
    Settles w (install now fresh w) := by
  unfold install
  cases fresh with
  | none =>
    refine ⟨truthful_of_silent rfl fun v hleft => ?_, trivial⟩
    exact (Option.not_mem_none v hleft).elim
  | some stream =>
    dsimp only
    split
    · obtain ⟨htrue, hacc⟩ := settles_promoteToConnected (w := w.modify fun o => { o with
        stream := some stream, connectStartTsc := now, state := .connecting }) now rfl
      exact ⟨htrue.of_resets rfl, hacc⟩
    · exact settles_done (fun h => by cases h) rfl

theorem settles_failAttempt {kind : ReconnectEventKind} (hkind : kind ≠ .connected) (now : UInt64)
    (e : ErrorInfo) (w : ReconnectWorld) : Settles w (failAttempt kind now e w) := by
  unfold failAttempt notifyDisconnect emitEvent
  refine settles_hookThen rfl rfl fun v => ?_
  exact settles_hookThen (decide_eq_false hkind) rfl (settles_enterBackoff now)

theorem settles_onProduced (reply : ReconnectReply) (w : ReconnectWorld) :
    Settles w (onProduced now reply w) := by
  unfold onProduced
  split
  · exact settles_failAttempt (by decide) now _ w
  rename_i fresh _
  split
  · refine ReconnectHook.settles_call rfl rfl (fun reply v _ => ?_) (.inr fun reply v => ?_)
    all_goals
      split
      · exact settles_failAttempt (by decide) now _ v
      · exact settles_install now fresh v
  · exact settles_install now fresh w

theorem settles_tryAttempt (w : ReconnectWorld) : Settles w (tryAttempt now w) :=
  settles_hookThen rfl rfl fun _ =>
    ReconnectHook.settles_call rfl rfl (fun reply v _ => settles_onProduced now reply v)
      (.inr (settles_onProduced now))

/-- A disconnect is ignored, or settles from every state. -/
theorem markDisconnected_cases (reason : ErrorInfo) (w : ReconnectWorld) :
    markDisconnected reason w = .done w ∨ Settles w (markDisconnected reason w) := by
  unfold markDisconnected
  split
  · exact .inl rfl
  split
  · exact .inl rfl
  refine .inr (settles_detachStream (fun _ => ?_) w)
  refine settles_hookThen rfl rfl fun _ => ?_
  exact settles_hookThen rfl rfl fun v => settles_enterBackoff v.orch.disconnectTsc v

theorem settles_giveUp (failed : Bool) (w : ReconnectWorld) : Settles w (giveUp now failed w) := by
  refine settles_detachStream (fun _ => ?_) w
  refine settles_hookThen rfl rfl fun _ => ?_
  refine settles_hookThen rfl rfl fun v => ?_
  obtain ⟨htrue, hacc⟩ := settles_enterBackoff now
    (v.modify fun o => { o with disconnectTsc := now })
  exact ⟨htrue.of_resets rfl, hacc⟩

/-- A tick does nothing, or settles from every state. -/
theorem tick_cases (w : ReconnectWorld) : tick now w = .done w ∨ Settles w (tick now w) := by
  unfold tick
  split
  · exact .inl rfl
  split
  · exact .inl rfl
  · exact .inl rfl
  · exact .inl rfl
  · rename_i stream _ hstream
    split
    · exact .inr (settles_promoteToConnected now (by rw [hstream]; rfl))
    split
    · exact .inr (settles_giveUp now _ w)
    · exact .inl rfl
  · exact .inl rfl
  · split
    · exact .inl rfl
    split
    · exact .inl rfl
    · exact markDisconnected_cases _ w
  · split
    · exact .inr (settles_tryAttempt now w)
    · exact .inl rfl

/-- So does a start, except that without a factory it fails for good. -/
theorem start_cases (w : ReconnectWorld) :
    (w.start now).2 = .done w ∨ Settles w (w.start now).2 := by
  unfold start
  split
  · exact .inl rfl
  split
  · exact .inr (settles_done (fun h => by cases h) rfl)
  obtain ⟨htrue, hacc⟩ := settles_tryAttempt now (w.modify fun o => { o with disconnectTsc := now })
  exact .inr ⟨htrue.of_resets rfl, hacc⟩

end ReconnectWorld

/-- Every operation ends at once, keeping state, stream and resets, or settles from every
state. -/
theorem ReconnectOp.run_cases (op : ReconnectOp) (w : ReconnectWorld) :
    (∃ w', op.run w = .done w' ∧ w'.orch.state = w.orch.state ∧
      w'.orch.stream = w.orch.stream ∧ w'.orch.policy = w.orch.policy) ∨
      Settles w (op.run w) := by
  have hunchanged : ∀ {out : ReconnectOutcome}, out = .done w ∨ Settles w out →
      (∃ w', out = .done w' ∧ w'.orch.state = w.orch.state ∧
        w'.orch.stream = w.orch.stream ∧ w'.orch.policy = w.orch.policy) ∨ Settles w out :=
    fun h => h.imp_left fun hdone => ⟨w, hdone, rfl, rfl, rfl⟩
  cases op with
  | start now => exact hunchanged (w.start_cases now)
  | tick now => exact hunchanged (w.tick_cases now)
  | markDisconnected reason => exact hunchanged (w.markDisconnected_cases reason)
  | stop
  | setOnReconnectEvent set
  | noteSubscribeReplay
  | streamState stream state
  | clock tsc nsPerCycle sample => exact .inl ⟨_, rfl, rfl, rfl, rfl⟩

/-- The orchestrator's operations are such as the rule for whole runs asks for. -/
theorem reconnect_operations : Operations Backed Truthful StaysConnected ReconnectOp.run where
  judged op w := by
    obtain ⟨w', hdone, _, _, hpolicy⟩ | h := op.run_cases w
    · rw [hdone]
      exact truthful_done (by rw [hpolicy])
    · exact h.1
  accounted op w hbacked := by
    obtain ⟨w', hdone, hstate, hstream, _⟩ | h := op.run_cases w
    · rw [hdone]
      intro hconnected
      rw [hstream]
      exact hbacked (hstate ▸ hconnected)
    · exact h.2
  otherwise op w := by
    obtain ⟨w', hdone, _⟩ | h := op.run_cases w
    · exact .inl ⟨w', hdone⟩
    · exact .inr h.2
  idle _ := truthful_done rfl

/-- A new orchestrator in some surroundings. -/
def ReconnectMachine.create (cfg : ReconnectConfig) (streams : StreamId → TcpState) (tsc : UInt64)
    (nsPerCycle : Option ℚ) (sample : ℚ) : ReconnectMachine :=
  ⟨⟨.create cfg, streams, tsc, nsPerCycle, sample⟩, []⟩

/-- **Events are truthful as long as a promotion is not undone under its feet.**  In every
run, whatever the factory and the callbacks do, the code is truthful throughout if and only
if each `on_reconnect_` call and each `Connected` event hook returns in state Connected. -/
theorem reconnect_truthful_iff (cfg : ReconnectConfig) (streams : StreamId → TcpState)
    (tsc : UInt64) (nsPerCycle : Option ℚ) (sample : ℚ) (moves : List ReconnectMove) :
    (ReconnectMachine.create cfg streams tsc nsPerCycle sample).Along ReconnectOp.run
        (fun m move => Truthful m.state (m.outcome ReconnectOp.run move)) moves ↔
      (ReconnectMachine.create cfg streams tsc nsPerCycle sample).Along ReconnectOp.run
        (fun m move => m.Met StaysConnected move) moves :=
  along_iff reconnect_operations (Sound.start fun h => by cases h) moves

/-- A callback that returns; a factory asked for a stream gives stream 7. -/
def plainReply : ReconnectReply := ⟨.ok (some 7), .ok ()⟩

/-- An `on_reconnect_` callback that reports its stream as disconnected: the orchestrator
is in Backoff without a stream when it emits `Connected`, and then resets the backoff. -/
theorem reconnect_reentrant_untruthful :
    ¬ (ReconnectMachine.create
        ⟨⟨100, 1600, some 2, some 0, 0⟩, true, 5000, true, false, true, false, false⟩
        (fun _ => .established) 0 none 0).Along ReconnectOp.run
      (fun m move => Truthful m.state (m.outcome ReconnectOp.run move))
      [.invoke (.setOnReconnectEvent true), .invoke (.start 0),
        -- the event hook of AttemptStarted, then the factory
        .answer plainReply, .answer plainReply,
        -- on_reconnect_ is running
        .invoke (.markDisconnected ⟨.disconnected, "subscribe failed"⟩),
        -- the event hooks of DisconnectDetected and BackoffScheduled, then on_reconnect_
        .answer plainReply, .answer plainReply, .answer plainReply] := by
  decide +kernel

end Eph.Net
