import Mathlib.Data.List.Chain
import Mathlib.Data.List.Infix
import Mathlib.Data.List.Nodup
import Ephemeral.FixSession

/-!
# Numbers on the wire

Every message takes its number in one atomic step, so no number is taken twice
and the numbers are taken without a gap.  They are *transmitted* without a gap
if the messages are sent one at a time: no thread claims a number between the
claim and the hand-over of the other one, and no send fails.  A send that fails
has used up its number, and between its claim and its hand-over a thread can be
overtaken by the other one; then the transmitted numbers have a gap or change
their order.

`SendStep` says once what a step of either thread can do to the numbers.  All
programs of the session keep to it; what holds of the numbers is then an
induction over the schedule.
-/

namespace Eph.Fix

open Atomic ByteOrder Core List MessageBuilder Function Session

variable {α : Type} {message : Message}

/-! ## The protocol of the two threads -/

/-- What one step of a thread may do to the numbers: nothing, claim the next one (and hold the
message built with it, if it could be built), or hand over the message it holds. -/
inductive SendStep (thread : SessionThread) (env : Env) (s s' : Session) : Prop where
  | quiet (idle : s.holding thread = none) (seq : s'.outboundSeq = s.outboundSeq)
      (holding : s'.holding = s.holding) (sent : s'.transmitted = s.transmitted)
  | claim (message : Option Message) (idle : s.holding thread = none)
      (room : s.outboundSeq < 0xFFFFFFFF) (seq : s'.outboundSeq = s.outboundSeq + 1)
      (numbered : ∀ m, message = some m → m.seq = s.outboundSeq)
      (holding : s'.holding = Function.update s.holding thread message)
      (sent : s'.transmitted = s.transmitted)
  | handOver (message : Message) (held : s.holding thread = some message)
      (seq : s'.outboundSeq = s.outboundSeq)
      (holding : s'.holding = Function.update s.holding thread none)
      (sent : s'.transmitted =
        if env.sendOk then s.transmitted ++ [message] else s.transmitted)

/-- The protocol of the two threads; a thread's own part of the state is whether it holds a
message. -/
def sendProtocol : Protocol SessionThread Env Session Bool where
  steps := SendStep
  view thread s := (s.holding thread).isSome
  rest := false
  idle thread env s hview := .quiet (Option.not_isSome_iff_eq_none.mp (by simp [hview])) rfl rfl rfl
  separate := by
    intro i j env s s' hne hstep
    cases hstep with
    | quiet idle seq holding sent => rw [holding]
    | claim message idle room seq numbered holding sent | handOver message held seq holding sent =>
      rw [holding, Function.update_of_ne hne.symm]

/-- A program of a thread that keeps to the protocol and holds no message between its calls. -/
abbrev Keeps (thread : SessionThread) {α : Type} (p : FixM α) : Prop :=
  Orderly (sendProtocol.steps thread) (sendProtocol.view thread) false p false

variable {thread : SessionThread}

/-- A step that leaves the numbers alone. -/
theorem keeps_atomic {f : Env → Session → α × Session}
    (hf : ∀ env s, (f env s).2.outboundSeq = s.outboundSeq ∧ (f env s).2.holding = s.holding ∧
      (f env s).2.transmitted = s.transmitted) : Keeps thread (Prog.atomic f) := by
  apply Orderly.atomic
  intro env s hview
  obtain ⟨hseq, hholding, hsent⟩ := hf env s
  have hidle : s.holding thread = none := by simpa [sendProtocol] using hview
  refine ⟨.quiet hidle hseq hholding hsent, ?_⟩
  change ((f env s).2.holding thread).isSome = false
  rw [hholding, hidle]
  rfl

theorem keeps_load (read : Session → α) : Keeps thread (Prog.load read) :=
  keeps_atomic fun _ _ => ⟨rfl, rfl, rfl⟩

theorem keeps_observe (read : Env → α) : Keeps thread (Prog.observe read) :=
  keeps_atomic fun _ _ => ⟨rfl, rfl, rfl⟩

theorem keeps_pure (a : α) : Keeps thread (pure a : FixM α) := rfl

theorem keeps_bind {α β : Type} {p : FixM α} {k : α → FixM β} (hp : Keeps thread p)
    (hk : ∀ a, Keeps thread (k a)) : Keeps thread (p >>= k) :=
  hp.bind hk

theorem keeps_ite {c : Prop} [Decidable c] {p q : FixM α} (hp : Keeps thread p)
    (hq : Keeps thread q) : Keeps thread (if c then p else q) := by
  split
  · exact hp
  · exact hq

/-- A store of a field that is not about numbers. -/
theorem keeps_store {write : Env → Session → Session}
    (hwrite : ∀ env s, (write env s).outboundSeq = s.outboundSeq ∧
      (write env s).holding = s.holding ∧ (write env s).transmitted = s.transmitted) :
    Keeps thread (Prog.store write) :=
  keeps_atomic hwrite

theorem keeps_updateSentTime : Keeps thread updateSentTime :=
  keeps_store fun _ _ => ⟨rfl, rfl, rfl⟩

theorem keeps_setState (state : SessionState) : Keeps thread (setState state) :=
  keeps_store fun _ _ => ⟨rfl, rfl, rfl⟩

/-- A thread that holds a message hands it over. -/
theorem orderly_transmit :
    Orderly (sendProtocol.steps thread) (sendProtocol.view thread) false (transmit thread)
      true := by
  apply Orderly.atomic
  intro env s hview
  obtain ⟨message, hheld⟩ := Option.isSome_iff_exists.mp hview
  simp only [hheld]
  refine ⟨.handOver message hheld rfl rfl rfl, ?_⟩
  simp [sendProtocol]

section

variable (cfg : FixSessionConfig)

/-- A number is claimed, and the message built with it is handed over before anything else. -/
theorem keeps_send (outgoing : Outgoing) : Keeps thread (send cfg thread outgoing) := by
  intro env s hview
  have hidle : s.holding thread = none := by simpa [sendProtocol] using hview
  by_cases hfull : s.outboundSeq ≥ 0xFFFFFFFF
  · simp only [hfull, if_true]
    exact ⟨.quiet hidle rfl rfl rfl, hview⟩
  simp only [hfull, if_false]
  refine ⟨.claim _ hidle (UInt32.not_le.mp hfull) rfl ?_ rfl rfl, ?_⟩
  · intro m hm
    obtain ⟨bytes, -, rfl⟩ := Option.map_eq_some_iff.mp hm
    rfl
  cases hbytes : outgoing.compose cfg s.outboundSeq env.wall with
  | none =>
    simp only [sendProtocol, Option.map_none, update_self]
    rfl
  | some bytes =>
    have hheld : sendProtocol.view thread
        { s with
          outboundSeq := s.outboundSeq + 1
          holding := update s.holding thread
            ((some bytes).map (Message.mk s.outboundSeq)) } = true := by
      simp [sendProtocol]
    rw [hheld]
    refine orderly_transmit.bind fun ok => keeps_ite ?_ (keeps_pure ok)
    exact keeps_bind keeps_updateSentTime fun _ => keeps_pure ok

theorem keeps_sendApp (builder : MessageBuilder) : Keeps .app (sendApp cfg builder) :=
  keeps_bind (keeps_load _) fun _ => keeps_ite (keeps_send cfg _) (keeps_pure _)

theorem keeps_sendTestRequest : Keeps .poll (sendTestRequest cfg) := by
  refine keeps_bind (keeps_observe _) fun now => keeps_bind (keeps_send cfg _) fun ok => ?_
  exact keeps_ite (keeps_bind (keeps_store fun _ _ => ⟨rfl, rfl, rfl⟩) fun _ => keeps_pure _)
    (keeps_pure _)

theorem keeps_trackSequence (msg : MessageView) : Keeps .poll (trackSequence cfg msg) := by
  unfold trackSequence
  split
  · exact keeps_pure _
  refine keeps_ite (keeps_pure _) (keeps_ite (keeps_pure _) ?_)
  refine keeps_bind (keeps_load _) fun expected => ?_
  refine keeps_bind (keeps_store fun _ _ => ⟨rfl, rfl, rfl⟩) fun _ => ?_
  have hadvance : ∀ recv : UInt32, Keeps .poll
      ((Prog.store fun _ s => { s with expectedInboundSeq := nextExpected recv }) >>=
        fun _ => (pure true : FixM Bool)) := by
    intro recv
    exact keeps_bind (keeps_store fun _ _ => ⟨rfl, rfl, rfl⟩) fun _ => keeps_pure _
  refine keeps_ite (keeps_ite ?_ (hadvance _)) (keeps_ite (hadvance _) (keeps_pure _))
  exact keeps_bind (keeps_send cfg _) fun _ => hadvance _

end

variable (msg : MessageView)

theorem keeps_adoptHeartbeat : Keeps .poll (adoptHeartbeat msg) := by
  unfold adoptHeartbeat
  split
  · exact keeps_pure _
  · refine keeps_ite (keeps_bind (keeps_load _) fun prev => ?_) (keeps_pure _)
    exact keeps_ite (keeps_store fun _ _ => ⟨rfl, rfl, rfl⟩) (keeps_pure _)

theorem keeps_onLogon (curState : SessionState) : Keeps .poll (onLogon msg curState) :=
  keeps_bind (keeps_adoptHeartbeat msg) fun _ =>
    keeps_ite (keeps_bind (keeps_setState _) fun _ => keeps_pure _) (keeps_pure _)

variable (cfg : FixSessionConfig)

theorem keeps_onLogout (curState : SessionState) : Keeps .poll (onLogout cfg curState) := by
  have hdone : Keeps .poll (setState .kDisconnected >>= fun _ => (pure true : FixM Bool)) :=
    keeps_bind (keeps_setState _) fun _ => keeps_pure _
  exact keeps_ite hdone (keeps_ite (keeps_bind (keeps_send cfg _) fun _ => hdone)
    (keeps_ite hdone (keeps_pure _)))

theorem keeps_onSequenceReset : Keeps .poll (onSequenceReset msg) := by
  have hstore : ∀ ns : UInt32, Keeps .poll
      ((Prog.store fun _ s => { s with expectedInboundSeq := ns }) >>=
        fun _ => (pure true : FixM Bool)) := by
    intro ns
    exact keeps_bind (keeps_store fun _ _ => ⟨rfl, rfl, rfl⟩) fun _ => keeps_pure _
  unfold onSequenceReset
  split
  · exact keeps_pure _
  · refine keeps_ite (keeps_pure _) (keeps_ite (keeps_pure _) (keeps_ite ?_ (hstore _)))
    exact keeps_bind (keeps_load _) fun expected => keeps_ite (keeps_pure _) (hstore _)

theorem keeps_dispatch (msgType : Bytes) : Keeps .poll (dispatch cfg msg msgType) := by
  have hreply : ∀ outgoing, Keeps .poll
      (send cfg .poll outgoing >>= fun _ => (pure true : FixM Bool)) := by
    intro outgoing
    exact keeps_bind (keeps_send cfg outgoing) fun _ => keeps_pure _
  refine keeps_bind (keeps_load _) fun curState => ?_
  refine keeps_ite (keeps_onLogon msg curState) (keeps_ite (keeps_onLogout cfg curState) ?_)
  refine keeps_ite ?_ (keeps_ite (hreply _) (keeps_ite (keeps_onSequenceReset msg) ?_))
  · exact keeps_bind (keeps_store fun _ _ => ⟨rfl, rfl, rfl⟩) fun _ => keeps_pure _
  · exact keeps_ite (keeps_bind (keeps_load _) fun next => hreply _) (keeps_pure _)

theorem keeps_onRx (data : Bytes) : Keeps .poll (onRx cfg data) := by
  refine keeps_bind (keeps_store fun _ _ => ⟨rfl, rfl, rfl⟩) fun _ => ?_
  split
  · exact keeps_pure _
  split
  · exact keeps_pure _
  · exact keeps_bind (keeps_trackSequence cfg _) fun _ =>
      keeps_ite (keeps_dispatch _ cfg _) (keeps_pure _)

theorem keeps_maybeSendHeartbeat : Keeps .poll (maybeSendHeartbeat cfg) := by
  refine keeps_bind (keeps_observe _) fun now => keeps_bind (keeps_load _) fun lastSent => ?_
  refine keeps_bind (keeps_load _) fun hbSec => keeps_ite ?_ (keeps_pure _)
  exact keeps_bind (keeps_send cfg _) fun _ => keeps_pure _

theorem keeps_giveUp (recvElapsed timeout : Int) : Keeps .poll (giveUp recvElapsed timeout) := by
  refine keeps_ite (keeps_bind (keeps_load _) fun pending => ?_) (keeps_pure _)
  exact keeps_ite (keeps_bind (keeps_setState _) fun _ => keeps_pure _) (keeps_pure _)

theorem keeps_probe (recvElapsed hbSec : Int) : Keeps .poll (probe cfg recvElapsed hbSec) := by
  refine keeps_ite (keeps_bind (keeps_load _) fun pending => ?_) (keeps_pure _)
  refine keeps_ite (keeps_pure _) ?_
  exact keeps_bind (keeps_sendTestRequest cfg) fun _ => keeps_pure _

theorem keeps_tick : Keeps .poll (tick cfg) := by
  refine keeps_bind (keeps_load _) fun state => keeps_ite (keeps_pure _) ?_
  refine keeps_bind (keeps_observe _) fun now => keeps_bind (keeps_load _) fun hbSec => ?_
  refine keeps_bind (keeps_maybeSendHeartbeat cfg) fun _ => ?_
  refine keeps_bind (keeps_load _) fun lastRecv => ?_
  refine keeps_bind (keeps_giveUp _ _) fun dead => keeps_ite (keeps_pure _) ?_
  exact keeps_bind (keeps_probe cfg _ _) fun _ => keeps_pure _

/-- Both threads keep to the protocol, whatever they are asked to send and whatever arrives. -/
theorem twoThreads_followed (session : Session)
    (builders : List MessageBuilder) (calls : List PollCall) :
    sendProtocol.Followed (twoThreads cfg session builders calls) := by
  intro thread
  cases thread with
  | app => exact Orderly.each (keeps_sendApp cfg) builders
  | poll =>
    apply Orderly.each
    intro call
    cases call with
    | onRx data => exact keeps_onRx cfg data
    | tick => exact keeps_tick cfg

/-! ## Numbers -/

/-- The numbers on the wire, in the order of transmission. -/
def Session.numbers (s : Session) : List ℕ := s.transmitted.map fun message => message.seq.toNat

/-- Numbers that follow each other without a gap or a repetition. -/
def Consecutive (numbers : List ℕ) : Prop := numbers.IsChain fun a b => b = a + 1

instance (numbers : List ℕ) : Decidable (Consecutive numbers) :=
  inferInstanceAs (Decidable (numbers.IsChain fun a b => b = a + 1))

/-- The numbers held by the two threads are below the next one to be claimed, are not on the wire
and differ. -/
structure Numbered (s : Session) : Prop where
  held_lt : ∀ thread message, s.holding thread = some message →
    message.seq.toNat < s.outboundSeq.toNat
  sent_lt : ∀ number ∈ s.numbers, number < s.outboundSeq.toNat
  held_new : ∀ thread message, s.holding thread = some message →
    message.seq.toNat ∉ s.numbers
  held_ne : ∀ thread thread' message message', thread ≠ thread' →
    s.holding thread = some message → s.holding thread' = some message' →
      message.seq.toNat ≠ message'.seq.toNat

variable {thread : SessionThread}

/-- After a thread's part is changed, a held message is the thread's new one or another thread's
old one. -/
theorem held_cases {holding : SessionThread → Option Message} {new : Option Message}
    {other : SessionThread} (h : update holding thread new other = some message) :
    other = thread ∧ new = some message ∨ other ≠ thread ∧ holding other = some message := by
  by_cases hother : other = thread
  · subst hother
    rw [update_self] at h
    exact Or.inl ⟨rfl, h⟩
  · rw [update_of_ne hother] at h
    exact Or.inr ⟨hother, h⟩

variable {s s' : Session}

/-- The numbers follow from what was sent. -/
theorem numbers_of_sent (sent : s'.transmitted = s.transmitted) : s'.numbers = s.numbers := by
  rw [numbers, sent, numbers]

/-- The counter after a claim. -/
theorem toNat_claimed (room : s.outboundSeq < 0xFFFFFFFF)
    (seq : s'.outboundSeq = s.outboundSeq + 1) :
    s'.outboundSeq.toNat = s.outboundSeq.toNat + 1 := by
  rw [UInt32.lt_iff_toNat_lt] at room
  rw [seq, UInt32.toNat_add]
  exact Nat.mod_eq_of_lt (Nat.lt_of_le_of_lt room (by decide))

/-- A claim takes a number that is neither held nor on the wire. -/
theorem Numbered.claim (h : Numbered s) {message : Option Message}
    (room : s.outboundSeq < 0xFFFFFFFF) (seq : s'.outboundSeq = s.outboundSeq + 1)
    (numbered : ∀ m, message = some m → m.seq = s.outboundSeq)
    (holding : s'.holding = update s.holding thread message)
    (sent : s'.transmitted = s.transmitted) : Numbered s' := by
  have hseq := toNat_claimed room seq
  have hnumbers := numbers_of_sent sent
  refine ⟨?_, ?_, ?_, ?_⟩
  · intro other m hm
    rw [holding] at hm
    rcases held_cases hm with ⟨-, hnew⟩ | ⟨-, hold⟩
    · rw [numbered m hnew]
      omega
    · have hlt := h.held_lt other m hold
      omega
  · intro number hnumber
    rw [hnumbers] at hnumber
    have hlt := h.sent_lt number hnumber
    omega
  · intro other m hm
    rw [holding] at hm
    rw [hnumbers]
    rcases held_cases hm with ⟨-, hnew⟩ | ⟨-, hold⟩
    · rw [numbered m hnew]
      exact fun hmem => Nat.lt_irrefl _ (h.sent_lt _ hmem)
    · exact h.held_new other m hold
  · intro t t' m m' hne hm hm'
    rw [holding] at hm hm'
    rcases held_cases hm with ⟨rfl, hnew⟩ | ⟨-, hold⟩
    · rcases held_cases hm' with ⟨rfl, -⟩ | ⟨-, hold'⟩
      · exact absurd rfl hne
      · rw [numbered m hnew]
        exact (h.held_lt t' m' hold').ne'
    · rcases held_cases hm' with ⟨-, hnew'⟩ | ⟨-, hold'⟩
      · rw [numbered m' hnew']
        exact (h.held_lt t m hold).ne
      · exact h.held_ne t t' m m' hne hold hold'

/-- A hand-over moves a held number to the wire, or loses it. -/
theorem Numbered.handOver (h : Numbered s) (held : s.holding thread = some message)
    (seq : s'.outboundSeq = s.outboundSeq)
    (holding : s'.holding = update s.holding thread none)
    (sent : s'.numbers = s.numbers ∨ s'.numbers = s.numbers ++ [message.seq.toNat]) :
    Numbered s' := by
  have hold : ∀ other m, s'.holding other = some m → other ≠ thread ∧ s.holding other = some m := by
    intro other m hm
    rw [holding] at hm
    rcases held_cases hm with ⟨-, hnew⟩ | hkept
    · cases hnew
    · exact hkept
  have hmem : ∀ number ∈ s'.numbers, number ∈ s.numbers ∨ number = message.seq.toNat := by
    intro number hnumber
    rcases sent with hsame | hmore
    · exact Or.inl (hsame ▸ hnumber)
    · rw [hmore, mem_append, mem_singleton] at hnumber
      exact hnumber
  refine ⟨?_, ?_, ?_, ?_⟩
  · intro other m hm
    rw [seq]
    exact h.held_lt other m (hold other m hm).2
  · intro number hnumber
    rw [seq]
    rcases hmem number hnumber with hwas | rfl
    · exact h.sent_lt number hwas
    · exact h.held_lt thread message held
  · intro other m hm hnumber
    obtain ⟨hne, hwas⟩ := hold other m hm
    rcases hmem _ hnumber with hsent | hsame
    · exact h.held_new other m hwas hsent
    · exact h.held_ne other thread m message hne hwas held hsame
  · intro t t' m m' hne hm hm'
    exact h.held_ne t t' m m' hne (hold t m hm).2 (hold t' m' hm').2

/-- The numbers after a hand-over. -/
theorem numbers_handOver {env : Env}
    (sent : s'.transmitted = if env.sendOk then s.transmitted ++ [message] else s.transmitted) :
    s'.numbers = if env.sendOk then s.numbers ++ [message.seq.toNat] else s.numbers := by
  rw [numbers, sent]
  split
  · rw [map_append, map_singleton, numbers]
  · rw [numbers]

/-- Every step keeps the numbers apart. -/
theorem Numbered.step (h : Numbered s) {env : Env} (hstep : SendStep thread env s s') :
    Numbered s' := by
  cases hstep with
  | quiet idle seq holding sent =>
    have hnumbers := numbers_of_sent sent
    exact ⟨by rw [holding, seq]; exact h.held_lt, by rw [hnumbers, seq]; exact h.sent_lt,
      by rw [holding, hnumbers]; exact h.held_new, by rw [holding]; exact h.held_ne⟩
  | claim message idle room seq numbered holding sent =>
    exact h.claim room seq numbered holding sent
  | handOver message held seq holding sent =>
    refine h.handOver held seq holding ?_
    rw [numbers_handOver sent]
    split
    · exact Or.inr rfl
    · exact Or.inl rfl

/-! ## One message at a time -/

/-- What keeps the messages of a step in line: a number is claimed only while no claimed number
waits for its hand-over, a message is built with it, and the send callback accepts the message
that is handed over. -/
def Serial (s : Session) (event : SessionThread × Env) (s' : Session) : Prop :=
  (s'.outboundSeq = s.outboundSeq ∨
    (s.holding .app).isNone ∧ (s.holding .poll).isNone ∧ (s'.holding event.1).isSome) ∧
  ((s.holding event.1).isSome → event.2.sendOk = true)

instance (s : Session) (event : SessionThread × Env) (s' : Session) :
    Decidable (Serial s event s') :=
  inferInstanceAs (Decidable (_ ∧ _))

/-- The number is the one after the last on the wire. -/
def Session.Follows (s : Session) (n : ℕ) : Prop :=
  ∀ last ∈ s.numbers.getLast?, n = last + 1

/-- The session as messages leave it that were sent one at a time: the next number to be claimed
is the next on the wire, or it is the one after the only message that is held. -/
structure InLine (s : Session) : Prop where
  consecutive : Consecutive s.numbers
  idle : (∀ thread, s.holding thread = none) → s.Follows s.outboundSeq.toNat
  held : ∀ thread message, s.holding thread = some message → s.Follows message.seq.toNat ∧
    s.outboundSeq.toNat = message.seq.toNat + 1 ∧ ∀ other, other ≠ thread → s.holding other = none

/-- A claim by the only thread that has something to send. -/
theorem InLine.claim (h : InLine s) {message : Option Message}
    (room : s.outboundSeq < 0xFFFFFFFF) (seq : s'.outboundSeq = s.outboundSeq + 1)
    (numbered : ∀ m, message = some m → m.seq = s.outboundSeq)
    (holding : s'.holding = update s.holding thread message)
    (sent : s'.transmitted = s.transmitted) (halone : ∀ other, s.holding other = none)
    (hbuilt : (s'.holding thread).isSome) : InLine s' := by
  have hnumbers := numbers_of_sent sent
  refine ⟨hnumbers ▸ h.consecutive, ?_, ?_⟩
  · intro hnone
    rw [hnone thread] at hbuilt
    cases hbuilt
  · intro other m hm
    rw [holding] at hm
    rcases held_cases hm with ⟨rfl, hnew⟩ | ⟨-, hold⟩
    · rw [numbered m hnew, Follows, hnumbers, toNat_claimed room seq]
      refine ⟨h.idle halone, rfl, fun t ht => ?_⟩
      rw [holding, update_of_ne ht]
      exact halone t
    · rw [halone other] at hold
      cases hold

/-- A hand-over that is accepted. -/
theorem InLine.handOver (h : InLine s) (held : s.holding thread = some message)
    (seq : s'.outboundSeq = s.outboundSeq) (holding : s'.holding = update s.holding thread none)
    (sent : s'.numbers = s.numbers ++ [message.seq.toNat]) : InLine s' := by
  obtain ⟨hfollows, hnext, halone⟩ := h.held thread message held
  have hnone : ∀ other, s'.holding other = none := by
    intro other
    rw [holding]
    by_cases hother : other = thread
    · rw [hother, update_self]
    · rw [update_of_ne hother, halone other hother]
  refine ⟨?_, ?_, fun other m hm => ?_⟩
  · rw [sent, Consecutive, isChain_append]
    refine ⟨h.consecutive, isChain_singleton _, ?_⟩
    intro last hlast n hn
    rw [head?_cons, Option.mem_some_iff] at hn
    rw [← hn]
    exact hfollows last hlast
  · intro _ last hlast
    rw [sent, getLast?_concat, Option.mem_some_iff] at hlast
    rw [seq, hnext, hlast]
  · rw [hnone other] at hm
    cases hm

/-- A step that keeps the messages in line. -/
theorem InLine.step (h : InLine s) {event : SessionThread × Env}
    (hstep : SendStep event.1 event.2 s s') (hserial : Serial s event s') : InLine s' := by
  cases hstep with
  | quiet idle seq holding sent =>
    have hnumbers := numbers_of_sent sent
    refine ⟨by rw [hnumbers]; exact h.consecutive, ?_, ?_⟩
    · rw [holding, Follows, hnumbers, seq]
      exact h.idle
    · rw [holding, seq]
      intro thread message hheld
      rw [Follows, hnumbers]
      exact h.held thread message hheld
  | claim message idle room seq numbered holding sent =>
    rcases hserial.1 with hsame | ⟨happ, hpoll, hbuilt⟩
    · have hmore := toNat_claimed room seq
      rw [hsame] at hmore
      omega
    refine h.claim room seq numbered holding sent (fun other => ?_) hbuilt
    cases other with
    | app => exact Option.isNone_iff_eq_none.mp happ
    | poll => exact Option.isNone_iff_eq_none.mp hpoll
  | handOver message held seq holding sent =>
    refine h.handOver held seq holding ?_
    rw [numbers_handOver sent, if_pos (hserial.2 (by rw [held]; rfl))]

/-- An active session that has sent its Logon. -/
def loggedOn : Session where
  state := .kActive
  heartbeatIntervalSec := 30
  outboundSeq := 2
  lastInboundSeq := 1
  expectedInboundSeq := 2
  lastSentTime := 0
  lastRecvTime := 0
  testRequestPending := false
  holding _ := none
  transmitted := []

end Eph.Fix
