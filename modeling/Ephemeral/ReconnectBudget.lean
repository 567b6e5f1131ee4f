import Ephemeral.ReconnectEvents

/-!
# The reconnect budget

With callbacks that do not call back, an operation of the orchestrator is one
transaction: while a callback runs, only the clock, the streams and the replay counter
change.  A run is counted by a `Tally`: the backoff waits since the orchestrator was last
Connected, the calls of the detach hook for the stream it owns, and whether the attempt
under way has failed.

`Paced` says what is wanted of every stretch of code: the factory is called no earlier
than `next_attempt_tsc_`, there are at most as many waits as the policy allows, an
operation whose attempt has failed ends in a wait or, after the last wait, in state Failed,
which is final, and a stream is handed to the detach hook exactly once before it is
dropped.  An orchestrator is at `Rest` between two operations, when the
number of attempts of its policy is the number of waits and it owns a stream exactly in
the states Connecting and Connected.
-/

namespace Eph.Net

open Core Eph.Dpdk Reentrant ReconnectOp

variable {next : ReconnectWorld → ReconnectOutcome}

/-- What is counted along a run: the backoff waits since the last state Connected, the
calls of the detach hook for the stream that is owned, the hook that is running, and
whether the attempt has failed and the orchestrator is still in state Connecting. -/
structure Tally where
  waits : Nat
  detaches : Nat
  asked : Option ReconnectHook
  failing : Bool

open Tally

namespace Tally

/-- The tally before anything happened. -/
def start : Tally := ⟨0, 0, none, false⟩

/-- Whether a stretch of code that a move starts in `w` finds that the attempt has failed: the
factory or the attach hook has answered with an error, or a tick finds the stream Closed or the
time for the connect used up. -/
def fails (t : Tally) (w : ReconnectWorld) : ReconnectMove → Bool
  | .answer a =>
    match t.asked with
    | some .factory => !a.produced.isOk
    | some (.attach _) => !a.attached.isOk
    | _ => false
  | .invoke (.tick now) =>
    !w.orch.stopped && w.orch.state = .connecting && w.orch.stream.any fun stream =>
      w.streams stream ≠ .established && (w.streams stream = .closed || w.timedOut now)
  | .invoke _ => false

/-- The tally after a stretch of code. -/
def note (t : Tally) (move : ReconnectMove) (w w' : ReconnectWorld)
    (hook : Option ReconnectHook) : Tally where
  waits :=
    if w'.orch.state = .connected then 0
    else if w.orch.state ≠ .backoff ∧ w'.orch.state = .backoff then t.waits + 1
    else t.waits
  detaches :=
    if w'.orch.stream ≠ w.orch.stream then 0
    else
      match hook with
      | some (.detach _) => t.detaches + 1
      | _ => t.detaches
  asked := hook
  failing := (t.failing || t.fails w move) && w'.orch.state = .connecting

variable {t : Tally} {r : ReconnectMove} {w w' : ReconnectWorld}
  {hook : Option ReconnectHook}

theorem waits_note (hconnected : w'.orch.state ≠ .connected) (hbackoff : w'.orch.state ≠ .backoff) :
    (t.note r w w' hook).waits = t.waits := by
  unfold note
  rw [if_neg hconnected, if_neg (fun hback => hbackoff hback.2)]

/-- Only the detach hook counts while the stream stays the same. -/
theorem detaches_note (hsame : w'.orch.stream = w.orch.stream)
    (hplain : ∀ stream, hook ≠ some (.detach stream)) :
    (t.note r w w' hook).detaches = t.detaches := by
  unfold note
  dsimp only
  rw [if_neg (not_not.mpr hsame)]
  split
  · exact absurd rfl (hplain _)
  · rfl

/-- With another stream the count starts over. -/
theorem detaches_note_of_ne (hother : w'.orch.stream ≠ w.orch.stream) :
    (t.note r w w' hook).detaches = 0 :=
  if_pos hother

/-- An attempt that has not failed. -/
theorem failing_note (hfine : (t.failing || t.fails w r) = false) :
    (t.note r w w' hook).failing = false := by
  unfold note
  rw [hfine, Bool.false_and]

/-- Only in state Connecting does an operation find that the attempt has failed. -/
theorem fails_invoke {op : ReconnectOp} (hstate : w.orch.state ≠ .connecting) :
    t.fails w (.invoke op) = false := by
  unfold fails
  split <;> simp_all

end Tally

/-- Nothing is to be shown of a stream that is not there. -/
theorem no_stream {o : Option StreamId} (h : o = none) {p : StreamId → Prop} (stream : StreamId)
    (hstream : o = some stream) : p stream := by
  rw [h] at hstream
  cases hstream

/-- What a run is held to: the number of attempts that the policy is limited to, and whether
there is a detach hook. -/
structure Terms where
  limit : Nat
  detach : Bool

/-- How often a stream is to be detached: once, where there is a hook for it. -/
def Terms.owedDetaches (k : Terms) : Nat := if k.detach then 1 else 0

/-- An attempt is over: a wait follows, or after the last wait state Failed. -/
def Terms.Over (k : Terms) (t : Tally) (w' : ReconnectWorld) : Prop :=
  (w'.orch.state = .failed ∧ t.waits = k.limit) ∨ (w'.orch.state = .backoff ∧ t.waits < k.limit)

/-- What is wanted of a stretch of code. -/
structure Paced (k : Terms) (t : Tally) (move : ReconnectMove)
    (w w' : ReconnectWorld) (hook : Option ReconnectHook) : Prop where
  /-- The factory is not called before `next_attempt_tsc_`. -/
  pacing : hook = some .factory → w'.orch.nextAttemptTsc ≤ w'.tsc
  /-- There are at most `limit` waits between two states Connected. -/
  budget : (t.note move w w' hook).waits ≤ k.limit
  /-- An operation whose attempt has failed ends in a wait, or after the last wait in state
  Failed. -/
  concluded : hook = none → (t.failing || t.fails w move) = true → k.Over t w'
  /-- State Connecting is left for state Connected, or because the attempt is over. -/
  exhausted : w.orch.state = .connecting → w'.orch.state ≠ .connecting →
    w'.orch.state ≠ .connected → k.Over t w'
  /-- State Failed is final. -/
  final : w.orch.state = .failed → w'.orch.state = .failed
  /-- A stream that is dropped has been handed to the detach hook exactly once. -/
  detached : ∀ stream, w.orch.stream = some stream → w'.orch.stream ≠ some stream →
    t.detaches = k.owedDetaches
  /-- The detach hook is called for the stream that is owned. -/
  owned : ∀ stream, hook = some (.detach stream) →
    w.orch.stream = some stream ∧ w'.orch.stream = some stream
  /-- A stream that was attached is owned from then on. -/
  attached : ∀ stream, t.asked = some (.attach (some stream)) → ∀ a ∈ move.reply,
    a.attached = .ok () → w'.orch.stream = some stream

/-- What may change while a callback runs. -/
def Drifts (w w' : ReconnectWorld) : Prop :=
  (∃ metrics, w'.orch = { w.orch with metrics := metrics }) ∧ w.tsc ≤ w'.tsc

/-- The operations that are none of the orchestrator's transitions. -/
def ReconnectOp.outside : ReconnectOp → Bool
  | noteSubscribeReplay => true
  | streamState _ _ => true
  | clock _ _ _ => true
  | _ => false

/-- The cycle counter does not go back, and the time given to an operation has been read
from it. -/
def ReconnectOp.timely (w : ReconnectWorld) : ReconnectOp → Prop
  | start now => now ≤ w.tsc
  | tick now => now ≤ w.tsc
  | clock tsc _ _ => w.tsc ≤ tsc
  | _ => True

instance (w : ReconnectWorld) (op : ReconnectOp) : Decidable (op.timely w) :=
  match op with
  | .start now => inferInstanceAs (Decidable (now ≤ w.tsc))
  | .tick now => inferInstanceAs (Decidable (now ≤ w.tsc))
  | .clock tsc _ _ => inferInstanceAs (Decidable (w.tsc ≤ tsc))
  | .markDisconnected _ => isTrue trivial
  | .stop => isTrue trivial
  | .setOnReconnectEvent _ => isTrue trivial
  | .noteSubscribeReplay => isTrue trivial
  | .streamState _ _ => isTrue trivial

/-- The orchestrator owns a stream exactly in the states Connecting and Connected. -/
def Owning (o : Orchestrator) : Prop :=
  o.stream.isSome ↔ o.state = .connecting ∨ o.state = .connected

/-- The configuration that the budget depends on. -/
structure Configured (k : Terms) (o : Orchestrator) : Prop where
  allowed : o.policy.maxAttempts.toNat = k.limit
  limited : 0 < k.limit
  hook : o.detach = k.detach

/-- The attempts of the policy are the waits, and the budget is not exceeded. -/
structure Within (k : Terms) (t : Tally) (w : ReconnectWorld) : Prop where
  configured : Configured k w.orch
  attempts : w.orch.policy.attempts.toNat = t.waits
  bound : t.waits ≤ k.limit
  fresh : w.orch.state = .connected → t.waits = 0

/-- The callbacks that only observe. -/
def ReconnectHook.observes : ReconnectHook → Bool
  | onDisconnect _ => true
  | onReconnect _ _ => true
  | onEvent _ => true
  | _ => false

/-- Between two operations, or while an observer runs at the end of one. -/
structure Rest (k : Terms) (t : Tally) (w : ReconnectWorld) : Prop extends Within k t w where
  owning : Owning w.orch
  detaches : t.detaches = 0
  asked : ∀ c ∈ t.asked, c.observes = true
  unfailing : t.failing = false
  initial : w.orch.state = .idle → w.orch.nextAttemptTsc = 0

/-- Code all of whose stretches are paced, and that ends at rest. -/
abbrev Budgeted (k : Terms) : ReconnectOutcome → Tally → ReconnectMove → ReconnectWorld → Prop :=
  Held note (Paced k) Drifts (Rest k)

section Observers

variable {called : Option ReconnectHook}

theorem observes_some {hook : ReconnectHook} (h : hook.observes = true) :
    ∀ c ∈ some hook, c.observes = true := by
  intro c hc
  rw [← Option.some.inj hc]
  exact h

variable (h : ∀ c ∈ called, c.observes = true)

include h

/-- A callback that only observes is not the detach hook. -/
theorem not_detach (stream : StreamId) : called ≠ some (.detach stream) := by
  rintro rfl
  cases h _ rfl

/-- Nor has it attached a stream. -/
theorem not_attach {p : StreamId → Prop} (stream : StreamId)
    (hcalled : called = some (.attach (some stream))) : p stream := by
  cases h _ hcalled

end Observers

/-- Nor does its answer fail an attempt. -/
theorem Tally.fails_observed {t : Tally} {w : ReconnectWorld} (h : ∀ c ∈ t.asked, c.observes = true)
    (a : ReconnectReply) : t.fails w (.answer a) = false := by
  unfold fails
  dsimp only
  split
  · rename_i hasked
    cases h _ hasked
  · rename_i hasked
    cases h _ hasked
  · rfl

/-! ## What drifts -/

theorem Drifts.refl (w : ReconnectWorld) : Drifts w w :=
  ⟨⟨w.orch.metrics, rfl⟩, UInt64.le_refl _⟩

theorem Drifts.trans {w w' w'' : ReconnectWorld} (h : Drifts w w') (h' : Drifts w' w'') :
    Drifts w w'' := by
  obtain ⟨⟨metrics, horch⟩, htsc⟩ := h
  obtain ⟨⟨metrics', horch'⟩, htsc'⟩ := h'
  refine ⟨⟨metrics', ?_⟩, UInt64.le_trans htsc htsc'⟩
  rw [horch', horch]

/-- The orchestrators agree in all that a run is judged by. -/
structure Alike (o o' : Orchestrator) : Prop where
  state : o'.state = o.state
  stream : o'.stream = o.stream
  policy : o'.policy = o.policy
  detach : o'.detach = o.detach
  nextAttemptTsc : o'.nextAttemptTsc = o.nextAttemptTsc

theorem Alike.refl (o : Orchestrator) : Alike o o :=
  ⟨rfl, rfl, rfl, rfl, rfl⟩

theorem Drifts.alike {w w' : ReconnectWorld} (h : Drifts w w') : Alike w.orch w'.orch := by
  obtain ⟨⟨metrics, horch⟩, -⟩ := h
  rw [horch]
  exact ⟨rfl, rfl, rfl, rfl, rfl⟩

theorem Configured.of_same {k : Terms} {o o' : Orchestrator}
    (h : Configured k o) (hpolicy : o'.policy = o.policy)
    (hdetach : o'.detach = o.detach) : Configured k o' :=
  ⟨hpolicy ▸ h.allowed, h.limited, hdetach.trans h.hook⟩

/-! ## Stretches of code -/

section Stretches

variable {k : Terms} {t : Tally} {r : ReconnectMove}
  {w₀ w w' : ReconnectWorld} {hook : ReconnectHook}

/-- Whether a run is within its budget depends on the state, the configuration and the waits. -/
theorem Within.of_same {t' : Tally} (h : Within k t w) (hstate : w'.orch.state = w.orch.state)
    (hpolicy : w'.orch.policy = w.orch.policy) (hdetach : w'.orch.detach = w.orch.detach)
    (hwaits : t'.waits = t.waits) : Within k t' w' where
  configured := h.configured.of_same hpolicy hdetach
  attempts := by rw [hpolicy, hwaits]; exact h.attempts
  bound := by rw [hwaits]; exact h.bound
  fresh := by rw [hstate, hwaits]; exact h.fresh

/-- Rest depends on what a run is judged by, and on the tally. -/
theorem Rest.alike {t' : Tally} (h : Rest k t w) (hsame : Alike w.orch w'.orch)
    (hwaits : t'.waits = t.waits) (hdetaches : t'.detaches = 0)
    (hasked : ∀ c ∈ t'.asked, c.observes = true) (hfailing : t'.failing = false) :
    Rest k t' w' where
  toWithin := h.toWithin.of_same hsame.state hsame.policy hsame.detach hwaits
  owning := by
    rw [Owning, hsame.stream, hsame.state]
    exact h.owning
  detaches := hdetaches
  asked := hasked
  unfailing := hfailing
  initial := by rw [hsame.state, hsame.nextAttemptTsc]; exact h.initial

theorem Rest.drift (h : Rest k t w) (hdrift : Drifts w w') : Rest k t w' :=
  h.alike hdrift.alike rfl h.detaches h.asked h.unfailing

/-- A stretch of code that began in `w₀` has come to `w`, in the middle of an attempt or of a
disconnect. -/
structure Underway (k : Terms) (t : Tally) (r : ReconnectMove)
    (w₀ w : ReconnectWorld) : Prop extends Within k t w where
  running : w.orch.state = .connecting ∨ w.orch.state = .connected
  began : w₀.orch.state ≠ .failed
  /-- No attach hook has just succeeded. -/
  quiet : ∀ stream, t.asked = some (.attach (some stream)) → ∀ a ∈ r.reply, a.attached ≠ .ok ()

section

variable (h : Underway k t r w₀ w)

include h

/-- Changes of the orchestrator that an operation in progress does not depend on. -/
theorem Underway.of_same
    (hstate : w'.orch.state = w.orch.state) (hpolicy : w'.orch.policy = w.orch.policy)
    (hdetach : w'.orch.detach = w.orch.detach) : Underway k t r w₀ w' :=
  { h with
    toWithin := h.toWithin.of_same hstate hpolicy hdetach rfl
    running := by rw [hstate]; exact h.running }

theorem Underway.not_over : w.orch.state ≠ .backoff ∧ w.orch.state ≠ .failed := by
  rcases h.running with hstate | hstate <;> rw [hstate] <;> decide

/-- The waits are the same after a stretch that ends in state Connecting or Connected. -/
theorem Underway.waits_note (hook : Option ReconnectHook) :
    (t.note r w₀ w hook).waits = t.waits := by
  rcases h.running with hstate | hstate
  · exact Tally.waits_note (by rw [hstate]; decide) (by rw [hstate]; decide)
  · unfold Tally.note
    rw [if_pos hstate, h.fresh hstate]

/-- A stretch that ends with a call out in the middle of an operation. -/
theorem Underway.paced_call
    (hdropped : ∀ stream, w₀.orch.stream = some stream → w.orch.stream ≠ some stream →
      t.detaches = k.owedDetaches)
    (hpacing : hook = .factory → w.orch.nextAttemptTsc ≤ w.tsc)
    (howned : ∀ stream, hook = .detach stream →
      w₀.orch.stream = some stream ∧ w.orch.stream = some stream) :
    Paced k t r w₀ w (some hook) where
  pacing := fun heq => hpacing (Option.some.inj heq)
  concluded := nofun
  budget := by
    rw [h.waits_note]
    exact h.bound
  exhausted := by
    intro _ hconnecting hconnected
    rcases h.running with hstate | hstate
    · exact absurd hstate hconnecting
    · exact absurd hstate hconnected
  final := fun hfailed => absurd hfailed h.began
  detached := hdropped
  owned := fun stream heq => howned stream (Option.some.inj heq)
  attached := fun stream hasked a ha hok => absurd hok (h.quiet stream hasked a ha)

/-- What is known when a call out in the middle of an operation returns. -/
theorem Underway.after (hdrift : Drifts w w') (a : ReconnectReply)
    (hquiet : ∀ stream, hook = .attach (some stream) → a.attached ≠ .ok ()) :
    Underway k (t.note r w₀ w (some hook)) (.answer a) w' w' where
  toWithin := h.toWithin.of_same hdrift.alike.state hdrift.alike.policy hdrift.alike.detach
    (h.waits_note _)
  running := by
    rw [hdrift.alike.state]
    exact h.running
  began := by
    rw [hdrift.alike.state]
    exact h.not_over.2
  quiet := by
    intro stream hasked a' ha'
    cases ha'
    exact hquiet stream (Option.some.inj hasked)

end

/-! ### After the stream is gone -/

/-- The code between the loss of a stream, or an attempt that brought none, and the
backoff. -/
structure Ending (k : Terms) (t : Tally) (r : ReconnectMove)
    (w₀ w : ReconnectWorld) : Prop extends Underway k t r w₀ w where
  entered : w₀.orch.state ≠ .backoff
  empty : w.orch.stream = none
  clear : w₀.orch.stream = none → t.detaches = 0
  released : ∀ stream, w₀.orch.stream = some stream → t.detaches = k.owedDetaches

section

variable (h : Ending k t r w₀ w)

include h

/-- Where the orchestrator ends up without a stream, nothing is left to be detached. -/
theorem Ending.detaches_note {hook : Option ReconnectHook}
    (hplain : ∀ stream, hook ≠ some (.detach stream))
    (hempty : w'.orch.stream = none) : (t.note r w₀ w' hook).detaches = 0 := by
  cases hstream : w₀.orch.stream with
  | some stream => exact detaches_note_of_ne (by rw [hempty, hstream]; simp)
  | none =>
    rw [Tally.detaches_note (hempty.trans hstream.symm) hplain]
    exact h.clear hstream

theorem Ending.after (hdrift : Drifts w w') (a : ReconnectReply) (hplain : hook.observes = true) :
    Ending k (t.note r w₀ w (some hook)) (.answer a) w' w' where
  toUnderway := h.toUnderway.after hdrift a (by
    rintro stream rfl
    cases hplain)
  entered := by
    rw [hdrift.alike.state]
    exact h.not_over.1
  empty := hdrift.alike.stream.trans h.empty
  clear := fun _ => h.detaches_note (by
    intro stream heq
    cases heq
    cases hplain) h.empty
  released := no_stream (hdrift.alike.stream.trans h.empty)

/-- An optional observer on the way to the backoff. -/
theorem Ending.hookThen (hplain : hook.observes = true) (set : Bool)
    (hnext : ∀ t r w₀ w, Ending k t r w₀ w → Budgeted k (next w) t r w₀) :
    Budgeted k (w.hookThen set hook next) t r w₀ := by
  unfold ReconnectWorld.hookThen
  split
  · refine ⟨h.paced_call (fun stream hstream _ => h.released stream hstream) ?_ ?_, ?_⟩
    · rintro rfl
      cases hplain
    · rintro stream rfl
      cases hplain
    · intro a w' hdrift
      exact hnext _ _ _ _ (h.after hdrift a hplain)
  · exact hnext t r w₀ w h

end

/-- From rest, code that changes nothing of importance. -/
theorem Rest.done (h : Rest k t w) (hsame : Alike w.orch w'.orch)
    (hfine : t.fails w r = false) : Budgeted k (.done w') t r w := by
  have hfine : (t.failing || t.fails w r) = false := by rw [h.unfailing, hfine]; rfl
  have hwaits : (t.note r w w' none).waits = t.waits := by
    unfold note
    dsimp only
    rw [hsame.state]
    split_ifs with hconnected hback
    · exact (h.fresh hconnected).symm
    · exact absurd hback.2 hback.1
    · rfl
  have hrest : Rest k (t.note r w w' none) w' := h.alike hsame hwaits
    ((detaches_note hsame.stream (by nofun)).trans h.detaches) nofun
    (failing_note hfine)
  refine ⟨⟨nofun, hrest.bound, ?_, ?_, ?_, ?_, nofun, not_attach h.asked⟩, hrest⟩
  · intro _ hfails
    cases hfine.symm.trans hfails
  · intro hconnecting hleft
    rw [hsame.state] at hleft
    exact absurd hconnecting hleft
  · intro hfailed
    rw [hsame.state]
    exact hfailed
  · intro stream hstream hgone
    rw [hsame.stream] at hgone
    exact absurd hstream hgone

/-- An optional observer at the end of an operation. -/
theorem budgeted_end {set : Bool} (hplain : hook.observes = true)
    (hpaced : ∀ called : Option ReconnectHook, (∀ c ∈ called, c.observes = true) →
      Paced k t r w₀ w called ∧ Rest k (t.note r w₀ w called) w) :
    Budgeted k (w.hookThen set hook .done) t r w₀ := by
  unfold ReconnectWorld.hookThen
  split
  · obtain ⟨hcall, hrest⟩ := hpaced (some hook) (observes_some hplain)
    refine ⟨hcall, fun a w' hdrift => (hrest.drift hdrift).done (Alike.refl _) ?_⟩
    exact fails_observed hrest.asked a
  · exact hpaced none (by simp)

/-- How `enter_backoff_` leaves the orchestrator: in state Failed if the waits are used up,
else in state Backoff with one attempt more. -/
structure Scheduled (k : Terms) (t : Tally) (o o' : Orchestrator) : Prop where
  stream : o'.stream = o.stream
  detach : o'.detach = o.detach
  maxAttempts : o'.policy.maxAttempts = o.policy.maxAttempts
  verdict : (o'.state = .failed ∧ t.waits = k.limit ∧ o'.policy.attempts = o.policy.attempts) ∨
    (o'.state = .backoff ∧ t.waits < k.limit ∧ o'.policy.attempts.toNat = t.waits + 1)

section

variable (h : Ending k t r w₀ w)

include h

/-- The end of the way to the backoff. -/
theorem Ending.settled (hsched : Scheduled k t w.orch w'.orch) {called : Option ReconnectHook}
    (hplain : ∀ c ∈ called, c.observes = true) :
    Paced k t r w₀ w' called ∧ Rest k (t.note r w₀ w' called) w' := by
  have hempty : w'.orch.stream = none := hsched.stream.trans h.empty
  have hwaits : (t.note r w₀ w' called).waits = w'.orch.policy.attempts.toNat ∧
      (t.note r w₀ w' called).waits ≤ k.limit := by
    unfold note
    rcases hsched.verdict with ⟨hstate, hused, hsame⟩ | ⟨hstate, hleft, hcount⟩
    · rw [hstate, if_neg (by decide), if_neg (fun hback => by cases hback.2), hsame]
      exact ⟨h.attempts.symm, h.bound⟩
    · rw [hstate, if_neg (by decide), if_pos ⟨h.entered, rfl⟩, hcount]
      exact ⟨rfl, hleft⟩
  have hover : k.Over t w' :=
    hsched.verdict.imp (fun hf => ⟨hf.1, hf.2.1⟩) fun hb => ⟨hb.1, hb.2.1⟩
  have hstates : w'.orch.state = .failed ∨ w'.orch.state = .backoff :=
    hsched.verdict.imp And.left And.left
  constructor
  · constructor
    · rintro rfl
      exact absurd (hplain _ rfl) (by decide)
    · exact hwaits.2
    · exact fun _ _ => hover
    · exact fun _ _ _ => hover
    · exact fun hfailed => absurd hfailed h.began
    · exact fun stream hold _ => h.released stream hold
    · exact fun stream hdetach => absurd hdetach (not_detach hplain stream)
    · exact fun stream hasked a ha hok => absurd hok (h.quiet stream hasked a ha)
  · constructor
    · refine ⟨⟨hsched.maxAttempts ▸ h.configured.allowed, h.configured.limited,
        hsched.detach.trans h.configured.hook⟩, hwaits.1.symm, hwaits.2, fun hconnected => ?_⟩
      rw [hconnected] at hstates
      exact absurd hstates (by decide)
    · rw [Owning, hempty]
      rcases hstates with hstate | hstate <;> rw [hstate] <;> decide
    · exact h.detaches_note (not_detach hplain) hempty
    · exact hplain
    · unfold note
      rcases hstates with hstate | hstate <;> rw [hstate] <;> exact Bool.and_false _
    · intro hidle
      rw [hidle] at hstates
      exact absurd hstates (by decide)

/-- **The backoff**, entered with the stream gone: after the last wait it is final. -/
theorem Ending.enterBackoff (now : UInt64) : Budgeted k (w.enterBackoff now) t r w₀ := by
  have hallowed := h.configured.allowed
  have hlimited := h.configured.limited
  have hattempts := h.attempts
  have hbound := h.bound
  unfold ReconnectWorld.enterBackoff ExponentialBackoff.nextDelay
  by_cases hused : w.orch.policy.maxAttempts ≠ 0 ∧
      w.orch.policy.maxAttempts ≤ w.orch.policy.attempts
  · rw [if_pos hused]
    refine budgeted_end rfl fun called hplain => h.settled ?_ hplain
    refine ⟨rfl, rfl, rfl, .inl ⟨rfl, ?_, rfl⟩⟩
    have := UInt32.le_iff_toNat_le.mp hused.2
    omega
  rw [if_neg hused]
  have hlt : w.orch.policy.attempts.toNat < k.limit := by
    by_contra hge
    refine hused ⟨?_, UInt32.le_iff_toNat_le.mpr (by omega)⟩
    intro hzero
    rw [hzero] at hallowed
    have : k.limit = 0 := hallowed.symm
    omega
  refine budgeted_end rfl fun called hplain => h.settled ?_ hplain
  refine ⟨rfl, rfl, rfl, .inr ⟨rfl, by omega, ?_⟩⟩
  have hfits := w.orch.policy.maxAttempts.toNat_lt
  show (w.orch.policy.attempts + 1).toNat = t.waits + 1
  rw [UInt32.toNat_add]
  simp only [UInt32.toNat_one]
  omega

/-- Changes of the orchestrator that the way to the backoff does not depend on. -/
theorem Ending.alike (hsame : Alike w.orch w'.orch) : Ending k t r w₀ w' :=
  { h with
    toUnderway := h.of_same hsame.state hsame.policy hsame.detach
    empty := hsame.stream.trans h.empty }

/-- An attempt that brought no stream. -/
theorem Ending.failAttempt (kind : ReconnectEventKind) (now : UInt64) (e : ErrorInfo) :
    Budgeted k (w.failAttempt kind now e) t r w₀ := by
  unfold ReconnectWorld.failAttempt ReconnectWorld.notifyDisconnect ReconnectWorld.emitEvent
  have hcounted : Ending k t r w₀ w.countFailure := h.alike ⟨rfl, rfl, rfl, rfl, rfl⟩
  refine hcounted.hookThen rfl _ fun t r w₀ w h => ?_
  refine h.hookThen rfl _ fun t r w₀ w h => ?_
  exact h.enterBackoff now

end

/-! ### While the stream is still there -/

/-- A stream is being given up: the detach hook, if there is one, has been called for it. -/
structure Leaving (k : Terms) (stream : StreamId) (t : Tally)
    (r : ReconnectMove) (w₀ w : ReconnectWorld) : Prop
    extends Underway k t r w₀ w where
  entered : w₀.orch.state ≠ .backoff
  before : w₀.orch.stream = some stream
  still : w.orch.stream = some stream
  detached : t.detaches = k.owedDetaches

/-- Dropping the stream is the way to the backoff. -/
theorem Leaving.drop {stream : StreamId} (h : Leaving k stream t r w₀ w)
    (hstate : w'.orch.state = w.orch.state) (hpolicy : w'.orch.policy = w.orch.policy)
    (hdetach : w'.orch.detach = w.orch.detach) (hempty : w'.orch.stream = none) :
    Ending k t r w₀ w' where
  toUnderway := h.of_same hstate hpolicy hdetach
  entered := h.entered
  empty := hempty
  clear := by
    intro hnone
    rw [h.before] at hnone
    cases hnone
  released := fun _ _ => h.detached

/-- An observer that is told of the loss. -/
theorem Leaving.notifyDisconnect {stream : StreamId} (h : Leaving k stream t r w₀ w)
    (reason : ErrorInfo)
    (hnext : ∀ t r w₀ w, Leaving k stream t r w₀ w → Budgeted k (next w) t r w₀) :
    Budgeted k (w.notifyDisconnect reason next) t r w₀ := by
  unfold ReconnectWorld.notifyDisconnect ReconnectWorld.hookThen
  split
  · refine ⟨h.paced_call (fun s hold hgone => ?_) nofun nofun, ?_⟩
    · rw [h.before] at hold
      rw [h.still] at hgone
      exact absurd hold hgone
    intro a w' hdrift
    refine hnext _ _ _ _ ⟨h.toUnderway.after hdrift a nofun, ?_, ?_, ?_, ?_⟩
    · rw [hdrift.alike.state]
      exact h.not_over.1
    · exact hdrift.alike.stream.trans h.still
    · exact hdrift.alike.stream.trans h.still
    · exact (detaches_note (h.still.trans h.before.symm) (by nofun)).trans h.detached
  · exact hnext t r w₀ w h

section

variable (h : Rest k t w)

include h

/-- **Giving up the stream begins with the detach hook.**  From rest, with a stream. -/
theorem Rest.detachStream (hrunning : w.orch.state = .connecting ∨ w.orch.state = .connected)
    (hnext : ∀ stream t r w₀ w, Leaving k stream t r w₀ w → Budgeted k (next w) t r w₀) :
    Budgeted k (w.detachStream next) t r w := by
  have hunder : Underway k t r w w := by
    refine ⟨h.toWithin, hrunning, ?_, ?_⟩
    · rcases hrunning with hstate | hstate <;> rw [hstate] <;> decide
    · exact not_attach h.asked
  obtain ⟨stream, hstream⟩ := Option.isSome_iff_exists.mp (h.owning.mpr hrunning)
  have hhook := h.configured.hook
  unfold ReconnectWorld.detachStream ReconnectWorld.hookThen
  rw [hstream]
  dsimp only
  split
  · rename_i hset
    refine ⟨hunder.paced_call (fun s hold hgone => absurd hold hgone) nofun ?_, ?_⟩
    · intro s hs
      cases hs
      exact ⟨hstream, hstream⟩
    intro a w' hdrift
    refine hnext stream _ _ _ _ ⟨hunder.after hdrift a nofun, ?_, ?_, ?_, ?_⟩
    · rw [hdrift.alike.state]
      exact hunder.not_over.1
    · exact hdrift.alike.stream.trans hstream
    · exact hdrift.alike.stream.trans hstream
    · unfold note
      dsimp only
      rw [if_neg (by simp), h.detaches, Terms.owedDetaches, ← hhook, hset]
      rfl
  · rename_i hset
    refine hnext stream t r w w ⟨hunder, hunder.not_over.1, hstream, hstream, ?_⟩
    rw [h.detaches, Terms.owedDetaches, ← hhook, if_neg hset]

/-- A lost connection is reported, and followed by a backoff. -/
theorem Rest.markDisconnected (reason : ErrorInfo) (hfine : t.fails w r = false) :
    Budgeted k (w.markDisconnected reason) t r w := by
  unfold ReconnectWorld.markDisconnected ReconnectWorld.emitEvent
  split
  · exact h.done (Alike.refl _) hfine
  split
  · exact h.done (Alike.refl _) hfine
  rename_i hconnected
  refine h.detachStream (.inr (not_not.mp hconnected)) fun stream t r w₀ w h => ?_
  refine h.notifyDisconnect reason fun t r w₀ w h => ?_
  refine Ending.hookThen ?_ rfl _ fun t r w₀ w h => ?_
  · exact h.drop rfl rfl rfl rfl
  · exact h.enterBackoff _

/-- So is a connect that failed or ran out of time. -/
theorem Rest.giveUp (hstate : w.orch.state = .connecting) (now : UInt64) (failed : Bool) :
    Budgeted k (w.giveUp now failed) t r w := by
  refine h.detachStream (.inl hstate) fun stream t r w₀ w h => ?_
  refine h.notifyDisconnect _ fun t r w₀ w h => ?_
  refine Ending.hookThen ?_ rfl _ fun t r w₀ w h => ?_
  · exact h.drop rfl rfl rfl rfl
  · refine Ending.enterBackoff (h.alike ?_) now
    exact ⟨rfl, rfl, rfl, rfl, rfl⟩

end

/-! ### Attempts and promotions -/

/-- A promotion: the orchestrator owns a stream that has just been installed, or that it
owned before and that has not been detached. -/
structure Promoting (k : Terms) (t : Tally) (r : ReconnectMove)
    (w₀ w : ReconnectWorld) : Prop where
  configured : Configured k w.orch
  began : w₀.orch.state ≠ .failed
  owned : w.orch.stream.isSome
  origin : w₀.orch.stream = none ∨ (w₀.orch.stream = w.orch.stream ∧ t.detaches = 0)
  attached : ∀ stream, t.asked = some (.attach (some stream)) → ∀ a ∈ r.reply,
    a.attached = .ok () → w.orch.stream = some stream
  fine : (t.failing || t.fails w₀ r) = false

section

variable (h : Promoting k t r w₀ w)

include h

/-- A stretch of a promotion ends in state Connected, with nothing to be detached. -/
theorem Promoting.paced (hstate : w.orch.state = .connected)
    {called : Option ReconnectHook} (hplain : ∀ c ∈ called, c.observes = true) :
    Paced k t r w₀ w called ∧ t.note r w₀ w called = ⟨0, 0, called, false⟩ := by
  have hdetaches : (t.note r w₀ w called).detaches = 0 := by
    rcases h.origin with hnone | ⟨hsame, hzero⟩
    · refine detaches_note_of_ne fun heq => ?_
      have howned := h.owned
      rw [heq, hnone] at howned
      cases howned
    · exact (detaches_note hsame.symm (not_detach hplain)).trans hzero
  have hfailing : (t.note r w₀ w called).failing = false := failing_note h.fine
  have hnote : t.note r w₀ w called = ⟨0, 0, called, false⟩ :=
    (Tally.mk.injEq ..).mpr ⟨if_pos hstate, hdetaches, rfl, hfailing⟩
  refine ⟨⟨?_, ?_, ?_, ?_, ?_, ?_, ?_, h.attached⟩, hnote⟩
  · rintro rfl
    exact absurd (hplain _ rfl) (by decide)
  · rw [hnote]
    exact Nat.zero_le _
  · intro _ hfails
    cases h.fine.symm.trans hfails
  · exact fun _ _ hleft => absurd hstate hleft
  · exact fun hfailed => absurd hfailed h.began
  · intro stream hold hgone
    rcases h.origin with hnone | ⟨hsame, -⟩
    · rw [hnone] at hold
      cases hold
    · rw [hsame] at hold
      exact absurd hold hgone
  · exact fun stream hdetach => absurd hdetach (not_detach hplain stream)

/-- What is known when a call out of a promotion returns. -/
theorem Promoting.after (hstate : w.orch.state = .connected)
    (hdrift : Drifts w w') (a : ReconnectReply) {called : Option ReconnectHook}
    (hplain : ∀ c ∈ called, c.observes = true) :
    Promoting k ⟨0, 0, called, false⟩ (.answer a) w' w' ∧
      w'.orch.state = .connected := by
  have hsame := hdrift.alike
  refine ⟨⟨h.configured.of_same hsame.policy hsame.detach, ?_, ?_, .inr ⟨rfl, rfl⟩,
    not_attach hplain, ?_⟩, hsame.state.trans hstate⟩
  · rw [hdrift.alike.state, hstate]
    decide
  · rw [hdrift.alike.stream]
    exact h.owned
  · exact fails_observed (w := w') hplain a

/-- An optional observer in a promotion. -/
theorem Promoting.hookThen
    (hstate : w.orch.state = .connected) (hplain : hook.observes = true) (set : Bool)
    (hnext : ∀ t r w₀ w, Promoting k t r w₀ w → w.orch.state = .connected →
      Budgeted k (next w) t r w₀) :
    Budgeted k (w.hookThen set hook next) t r w₀ := by
  unfold ReconnectWorld.hookThen
  split
  · have hcalled := observes_some hplain
    obtain ⟨hpaced, hnote⟩ := h.paced hstate hcalled
    refine ⟨hpaced, fun a w' hdrift => ?_⟩
    rw [hnote]
    obtain ⟨hafter, hstate'⟩ := h.after hstate hdrift a hcalled
    exact hnext _ _ _ _ hafter hstate'
  · exact hnext t r w₀ w h hstate

/-- **A promotion starts the budget over.** -/
theorem Promoting.promoteToConnected (now : UInt64) :
    Budgeted k (w.promoteToConnected now) t r w₀ := by
  unfold ReconnectWorld.promoteToConnected ReconnectWorld.announce ReconnectWorld.emitEvent
  refine Promoting.hookThen ?_ rfl rfl _ fun t r w₀ w h hstate => ?_
  · exact ⟨{ h.configured with }, h.began, h.owned, h.origin, h.attached, h.fine⟩
  refine h.hookThen hstate rfl _ fun t r w₀ w h hstate => ?_
  have h' : Promoting k t r w₀
      (w.modify fun o => { o with policy := o.policy.reset }) :=
    ⟨{ h.configured with }, h.began, h.owned, h.origin, h.attached, h.fine⟩
  have hcalled : ∀ c ∈ (none : Option ReconnectHook), c.observes = true := by simp
  obtain ⟨hpaced, hnote⟩ := h'.paced hstate hcalled
  refine ⟨hpaced, ?_⟩
  rw [hnote]
  exact ⟨⟨h'.configured, rfl, Nat.zero_le _, fun _ => rfl⟩,
    ⟨fun _ => .inr hstate, fun _ => h'.owned⟩, rfl, nofun, rfl, fun hidle => by
      rw [show w.orch.state = .idle from hidle] at hstate
      cases hstate⟩

end

/-- An attempt: the orchestrator is in state Connecting and owns no stream yet. -/
structure Trying (k : Terms) (t : Tally) (w₀ w : ReconnectWorld) : Prop
    extends Within k t w where
  began : w₀.orch.state ≠ .failed
  state : w.orch.state = .connecting
  before : w₀.orch.stream = none
  empty : w.orch.stream = none
  clear : t.detaches = 0

section

variable (h : Trying k t w₀ w)

include h

section

variable
  (hquiet : ∀ stream, t.asked = some (.attach (some stream)) → ∀ a ∈ r.reply, a.attached ≠ .ok ())

include hquiet

theorem Trying.underway : Underway k t r w₀ w :=
  { h with
    running := .inl h.state
    quiet := hquiet }

/-- An attempt that fails after a call out. -/
theorem Trying.failAttempt (hentered : w₀.orch.state ≠ .backoff) (kind : ReconnectEventKind)
    (now : UInt64) (e : ErrorInfo) : Budgeted k (w.failAttempt kind now e) t r w₀ := by
  have hending : Ending k t r w₀ w :=
    { h.underway hquiet with
      entered := hentered
      empty := h.empty
      clear := fun _ => h.clear
      released := no_stream h.before }
  exact hending.failAttempt kind now e

/-- The attempt calls out. -/
theorem Trying.call (hpacing : hook = .factory → w.orch.nextAttemptTsc ≤ w.tsc)
    (hplain : ∀ stream, hook ≠ .detach stream) (hfine : (t.failing || t.fails w₀ r) = false)
    {resume : ReconnectReply → ReconnectWorld → ReconnectOutcome}
    (hresume : ∀ a t w', Drifts w w' → Trying k t w' w' → t.asked = some hook →
      t.failing = false → Budgeted k (resume a w') t (.answer a) w') :
    Budgeted k (.call w hook resume) t r w₀ := by
  have hunder := h.underway hquiet
  refine ⟨hunder.paced_call (no_stream h.before) hpacing
    (fun stream heq => absurd heq (hplain stream)), ?_⟩
  intro a w' hdrift
  have hsame := hdrift.alike
  have hstate : w'.orch.state = .connecting := hsame.state.trans h.state
  have hempty : w'.orch.stream = none := hsame.stream.trans h.empty
  refine hresume a _ w' hdrift ⟨h.toWithin.of_same hsame.state hsame.policy hsame.detach
    (hunder.waits_note _), ?_, hstate, hempty, hempty, ?_⟩ rfl (failing_note hfine)
  · rw [hstate]
    decide
  · refine (detaches_note (h.empty.trans h.before.symm) ?_).trans h.clear
    exact fun stream heq => hplain stream (Option.some.inj heq)

end

/-- A stream is installed: the factory has produced it, and the attach hook has accepted
it if there is one. -/
theorem Trying.install (now : UInt64) (fresh : Option StreamId)
    (hattached : ∀ stream, t.asked = some (.attach (some stream)) → fresh = some stream)
    (hfine : (t.failing || t.fails w₀ r) = false) :
    Budgeted k (w.install now fresh) t r w₀ := by
  cases fresh with
  | none => trivial
  | some stream =>
    unfold ReconnectWorld.install
    dsimp only
    split
    · refine Promoting.promoteToConnected ?_ now
      exact ⟨{ h.configured with }, h.began, rfl, .inl h.before, fun s hs _ _ _ => hattached s hs,
        hfine⟩
    -- the stream is still on its way: the orchestrator waits in state Connecting
    refine ⟨⟨nofun, ?_, ?_, fun _ hleft => absurd rfl hleft, fun hf => absurd hf h.began, ?_, nofun,
      fun s hs _ _ _ => hattached s hs⟩,
      ⟨⟨{ h.configured with }, ?_, ?_, nofun⟩,
        ⟨fun _ => .inl rfl, fun _ => rfl⟩, ?_, nofun, failing_note hfine, nofun⟩⟩
    · exact (waits_note (by nofun) (by nofun)).trans_le h.bound
    · intro _ hfails
      cases hfine.symm.trans hfails
    · exact no_stream h.before
    · exact h.attempts.trans (waits_note (by nofun) (by nofun)).symm
    · exact (waits_note (by nofun) (by nofun)).trans_le h.bound
    · exact detaches_note_of_ne (by rw [h.before]; exact nofun)

end

/-- What follows the factory's answer. -/
theorem Trying.onProduced (h : Trying k t w w) (hasked : t.asked = some .factory)
    (hfailing : t.failing = false) (now : UInt64) (a : ReconnectReply) :
    Budgeted k (w.onProduced now a) t (.answer a) w := by
  have hno : ∀ stream, t.asked ≠ some (.attach (some stream)) := by
    intro stream hattach
    cases hasked.symm.trans hattach
  have hquiet : ∀ stream, t.asked = some (.attach (some stream)) →
      ∀ b ∈ (Move.answer a : ReconnectMove).reply, b.attached ≠ .ok () :=
    fun stream hattach => absurd hattach (hno stream)
  have hentered : w.orch.state ≠ .backoff := by
    rw [h.state]
    decide
  unfold ReconnectWorld.onProduced
  split
  · exact h.failAttempt hquiet hentered _ now _
  rename_i fresh hproduced
  have hfine : (t.failing || t.fails w (.answer a)) = false := by
    simp [fails, hasked, hfailing, hproduced, Except.isOk, Except.toBool]
  split
  · refine h.call hquiet ?_ ?_ hfine fun b t w' _ h hasked hfailing => ?_
    · exact nofun
    · exact nofun
    have hentered : w'.orch.state ≠ .backoff := by
      rw [h.state]
      decide
    split
    · rename_i e hrefused
      refine h.failAttempt ?_ hentered _ now e
      intro stream _ c hc
      rw [← Option.some.inj hc, hrefused]
      exact nofun
    · rename_i haccepted
      refine h.install now fresh (fun stream hstream => ?_) ?_
      · cases hasked.symm.trans hstream
        rfl
      · simp [fails, hasked, hfailing, haccepted, Except.isOk, Except.toBool]
  · exact h.install now fresh (fun stream hattach => absurd hattach (hno stream)) hfine

/-- **An attempt**, started no earlier than it is due. -/
theorem Trying.attempt (h : Trying k t w₀ w)
    (hasked : ∀ c ∈ t.asked, c.observes = true) (hfine : (t.failing || t.fails w₀ r) = false)
    (hdue : w.orch.nextAttemptTsc ≤ w.tsc) (now : UInt64) :
    Budgeted k (w.emitEvent .attemptStarted now 0 ReconnectWorld.noError
      fun w => .call w .factory (ReconnectWorld.onProduced now)) t r w₀ := by
  have hfactory : ∀ {t r w₀ w}, Trying k t w₀ w →
      (∀ c ∈ t.asked, c.observes = true) → (t.failing || t.fails w₀ r) = false →
      w.orch.nextAttemptTsc ≤ w.tsc →
      Budgeted k (.call w .factory (ReconnectWorld.onProduced now)) t r w₀ := by
    intro t r w₀ w h hasked hfine hdue
    refine h.call (not_attach hasked) (fun _ => hdue)
      ?_ hfine fun a t w' _ h hasked hfailing => h.onProduced hasked hfailing now a
    exact nofun
  unfold ReconnectWorld.emitEvent ReconnectWorld.hookThen
  split
  · refine h.call (not_attach hasked) ?_ ?_ hfine
      fun a t w' hdrift h hasked hfailing => ?_
    · exact nofun
    · exact nofun
    have hevent : ∀ c ∈ t.asked, c.observes = true := by
      intro c hc
      cases hasked.symm.trans hc
      rfl
    refine hfactory h hevent (by rw [hfailing, fails_observed hevent]; rfl) ?_
    rw [hdrift.alike.nextAttemptTsc]
    exact UInt64.le_trans hdue hdrift.2
  · exact hfactory h hasked hfine hdue

/-! ## Operations -/

section

variable (h : Rest k t w)

include h

/-- Before an attempt the orchestrator owns no stream. -/
theorem Rest.stream_none
    (hstate : w.orch.state = .idle ∨ w.orch.state = .backoff) : w.orch.stream = none := by
  cases hstream : w.orch.stream with
  | none => rfl
  | some stream =>
    have hrunning := h.owning.mp (by rw [hstream]; rfl)
    rcases hstate with hstate | hstate <;> rw [hstate] at hrunning <;>
      exact absurd hrunning (by decide)

theorem Rest.tryAttempt {now : UInt64} {op : ReconnectOp}
    (hstate : w.orch.state = .idle ∨ w.orch.state = .backoff)
    (hsame : Alike w.orch w'.orch) (hdue : w.orch.nextAttemptTsc ≤ w'.tsc) :
    Budgeted k (w'.tryAttempt now) t (.invoke op) w := by
  have hempty := h.stream_none hstate
  have hfine : t.fails w (.invoke op) = false :=
    fails_invoke (by rcases hstate with hstate | hstate <;> rw [hstate] <;> decide)
  refine Trying.attempt ?_ h.asked (by rw [h.unfailing, hfine]; rfl) ?_ now
  · refine ⟨⟨h.configured.of_same hsame.policy hsame.detach, ?_, h.bound, nofun⟩, ?_, rfl, hempty,
      hsame.stream.trans hempty, h.detaches⟩
    · exact hsame.policy ▸ h.attempts
    · rcases hstate with hstate | hstate <;> rw [hstate] <;> decide
  · exact hsame.nextAttemptTsc ▸ hdue

/-- Without a factory, a start is the end. -/
theorem Rest.refused (hidle : w.orch.state = .idle) (now : UInt64) :
    Budgeted k (.done (w.modify fun o => { o with state := .failed })) t
      (.invoke (.start now)) w := by
  have hempty := h.stream_none (.inl hidle)
  have hfine : (t.failing || t.fails w (.invoke (.start now))) = false := by
    rw [h.unfailing]
    rfl
  refine ⟨⟨nofun, ?_, ?_, ?_, fun _ => rfl, ?_, nofun, ?_⟩, ⟨⟨{ h.configured with }, ?_, ?_, nofun⟩,
      ?_, ?_, nofun, failing_note hfine, nofun⟩⟩
  · exact (waits_note (by nofun) (by nofun)).trans_le h.bound
  · intro _ hfails
    cases hfine.symm.trans hfails
  · intro hconnecting
    rw [hidle] at hconnecting
    cases hconnecting
  · exact no_stream hempty
  · exact not_attach h.asked
  · exact h.attempts.trans (waits_note (by nofun) (by nofun)).symm
  · exact (waits_note (by nofun) (by nofun)).trans_le h.bound
  · refine ⟨fun howned => ?_, nofun⟩
    have howned : w.orch.stream.isSome := howned
    rw [hempty] at howned
    cases howned
  · refine Eq.trans (detaches_note ?_ (by nofun)) h.detaches
    rfl

/-- `start` keeps to the budget. -/
theorem Rest.start (now : UInt64) : Budgeted k (w.start now).2 t (.invoke (.start now)) w := by
  unfold ReconnectWorld.start
  split
  · exact h.done (Alike.refl _) rfl
  rename_i hidle
  have hidle : w.orch.state = .idle := not_not.mp hidle
  split
  · exact h.refused hidle now
  refine h.tryAttempt (.inl hidle) ⟨rfl, rfl, rfl, rfl, rfl⟩ ?_
  rw [h.initial hidle]
  exact UInt64.zero_le

/-- So does `tick`, if it is told no later time than the world's. -/
theorem Rest.tick {now : UInt64} (hnow : now ≤ w.tsc) :
    Budgeted k (w.tick now) t (.invoke (.tick now)) w := by
  have helsewhere : ∀ {state}, w.orch.state = state → state ≠ .connecting →
      t.fails w (.invoke (.tick now)) = false :=
    fun hstate hother => fails_invoke (by rw [hstate]; exact hother)
  unfold ReconnectWorld.tick
  split
  · rename_i hstopped
    exact h.done (Alike.refl _) (by simp [fails, hstopped])
  split
  · rename_i hstate
    exact h.done (Alike.refl _) (helsewhere hstate (by decide))
  · rename_i hstate
    exact h.done (Alike.refl _) (helsewhere hstate (by decide))
  · rename_i hstream
    exact h.done (Alike.refl _) (by simp [fails, hstream])
  · rename_i stream hstate hstream
    split
    · rename_i hup
      refine Promoting.promoteToConnected ?_ now
      refine ⟨h.configured, ?_, ?_, .inr ⟨rfl, h.detaches⟩, ?_, ?_⟩
      · rw [hstate]
        decide
      · rw [hstream]
        rfl
      · exact not_attach h.asked
      · simp [fails, h.unfailing, hstream, hup]
    · split
      · exact h.giveUp hstate now _
      · rename_i hfine
        exact h.done (Alike.refl _) (by simp_all [fails])
  · rename_i hstate _
    exact h.done (Alike.refl _) (helsewhere hstate (by decide))
  · rename_i hstate _
    have hfine := helsewhere hstate (by decide)
    split
    · exact h.done (Alike.refl _) hfine
    split
    · exact h.done (Alike.refl _) hfine
    · exact h.markDisconnected _ hfine
  · rename_i hstate
    split
    · rename_i hdue
      exact h.tryAttempt (.inr hstate) (Alike.refl _) (UInt64.le_trans hdue hnow)
    · exact h.done (Alike.refl _) (helsewhere hstate (by decide))

end

end Stretches

/-- **The orchestrator keeps to the budget** in each of its operations. -/
theorem reconnect_calm (k : Terms) :
    CalmComponent run outside (fun w op => op.timely w) note
      (Paced k) Drifts (Rest k) where
  drift_refl := Drifts.refl
  drift_trans _ _ _ := Drifts.trans
  rest_drift _ _ _ := Rest.drift
  held := by
    intro op t w houter hrest htimely
    cases op with
    | start now => exact hrest.start now
    | tick now => exact hrest.tick htimely
    | markDisconnected reason => exact hrest.markDisconnected reason rfl
    | stop | setOnReconnectEvent set => exact hrest.done ⟨rfl, rfl, rfl, rfl, rfl⟩ rfl
    | noteSubscribeReplay | streamState stream state | clock tsc nsPerCycle sample => cases houter
  outer := by
    intro op w houter htimely
    cases op with
    | noteSubscribeReplay => exact ⟨_, rfl, ⟨_, rfl⟩, UInt64.le_refl _⟩
    | streamState stream state => exact ⟨_, rfl, ⟨w.orch.metrics, rfl⟩, UInt64.le_refl _⟩
    | clock tsc nsPerCycle sample => exact ⟨_, rfl, ⟨w.orch.metrics, rfl⟩, htimely⟩
    | start now
    | tick now
    | markDisconnected reason
    | stop
    | setOnReconnectEvent set => cases houter

/-- **Reconnect budget and pacing.**  In every run of an orchestrator limited to `N` attempts
whose callbacks do not call back, with a clock that does not go back: every stretch of its code
is paced. -/
theorem reconnect_budget (cfg : ReconnectConfig) (hlimited : cfg.policy.maxAttempts ≠ 0)
    (streams : StreamId → TcpState) (tsc : UInt64) (nsPerCycle : Option ℚ) (sample : ℚ)
    (moves : List ReconnectMove)
    (hcalm : (ReconnectMachine.create cfg streams tsc nsPerCycle sample).Along run
      (fun m move => m.Calm outside (fun w op => op.timely w) move) moves) :
    (ReconnectMachine.create cfg streams tsc nsPerCycle sample).Watched run
      outside note (Paced ⟨cfg.policy.maxAttempts.toNat, cfg.detach⟩) start
      moves := by
  refine watched_of_calm (reconnect_calm _) (.inl ⟨rfl, ?_⟩) hcalm
  refine ⟨⟨⟨rfl, ?_, rfl⟩, rfl, Nat.zero_le _, nofun⟩, ?_, rfl, nofun, rfl, fun _ => rfl⟩
  · rw [Nat.pos_iff_ne_zero]
    intro hzero
    exact hlimited (UInt32.toNat.inj hzero)
  · exact ⟨nofun, nofun⟩

/-- A reply of a factory that fails. -/
def failedReply : ReconnectReply := ⟨.error ⟨.connectFailed, "refused"⟩, .ok ()⟩

/-- One wait is allowed.  The first stream is attached and closed by the peer, so it is
detached; the second attempt fails, which is final. -/
def oneWaitMoves : List ReconnectMove :=
  [.invoke (.start 0),
    -- the factory, then the attach hook
    .answer plainReply, .answer plainReply,
    .invoke (.streamState 7 .closed), .invoke (.tick 5),
    -- the detach hook
    .answer plainReply,
    .invoke (.clock 1000000000 none 0), .invoke (.tick 999999999),
    .answer failedReply]

/-- One wait, and the failure after it. -/
theorem reconnect_budget_sample :
    (ReconnectMachine.create
        ⟨⟨100, 1600, some 2, some 0, 1⟩, true, 5000, true, false, false, true, true⟩
        (fun _ => .synSent) 10 none 0).Watched run outside note
      (Paced ⟨1, true⟩) start oneWaitMoves :=
  reconnect_budget ⟨⟨100, 1600, some 2, some 0, 1⟩, true, 5000, true, false, false, true, true⟩
    (by decide) _ _ _ _ oneWaitMoves (by decide +kernel)

end Eph.Net
