import Ephemeral.DpdkTcpStream
import Ephemeral.SessionRun
import Ephemeral.TcpInOrder

/-!
# Connecting, and the packets a session gives back

Whoever hands a session packets hands over their buffers.  `process_rx` frees each of them
once, on every way out, if they are no more than its free list holds and its callback does not
reset the session; if it does, the drain of the reorder buffer reads out of bounds
(`drain_reads_outside`).  `connect_step` frees packets only while the handshake is on: called on
a session that is established already, or that no connect was begun on, it returns before it
looks at them (`buffers_freed_iff`).

A connect that fails leaves the session in Closed, whether for want of a buffer, on a RST or
for want of time.  The exception is a SYN-ACK that cannot be acknowledged: the error is handed
on and the session stays in SynSent, where no other connect is admitted
(`failed_connect_retryable_iff`).
-/

namespace Eph.Dpdk

open ByteOrder Core TcpSession List RxAcc Net.Dpdk.DpdkTcpStream

variable {slots : Nat} {σ : Type} {s : TcpSession slots}

/-! ## Buffers -/

section Buffers

variable (cb : DataCallback slots σ) (clk : Clock)

/-- A callback that keeps a note of having emptied the reorder buffer, as a reset of the session
does: from then on its state is `lost`. -/
structure NotesReset (lost : σ → Prop) : Prop where
  stays : ∀ u s b, lost u → lost (cb u s b).1
  noted : ∀ u s b, ¬lost (cb u s b).1 → s.reorderBuf.entries ≠ [] →
    (cb u s b).2.reorderBuf.entries ≠ []

section

variable {cb} {lost : σ → Prop} (hcb : NotesReset cb lost)

include hcb

/-- The drain stays within the reorder buffer, as long as the callback has not emptied it. -/
theorem drainReorderBuf_within (fuel : Nat) (a : RxAcc slots σ)
    (h : ¬lost (a.drainReorderBuf cb fuel).user) :
    (a.drainReorderBuf cb fuel).outside = a.outside := by
  induction fuel generalizing a with
  | zero => rfl
  | succ fuel ih =>
    rw [drainReorderBuf] at h ⊢
    split at h
    · rfl
    rename_i i hidx
    split at h
    · rfl
    rename_i e he
    have hsome : a.sess.reorderBuf.entries ≠ [] := by
      rintro hnil
      rw [hnil] at he
      cases he
    have hkept : ¬lost (a.deliver cb e.data).user := fun hlost => h <|
      drainReorderBuf_keeps (J := fun b => lost b.user) (fun _ _ => hcb.stays _ _ _)
        (fun _ _ _ => id) fuel _ hlost
    have hleft : (a.deliver cb e.data).sess.reorderBuf.entries.isEmpty = false :=
      isEmpty_eq_false_iff.mpr (hcb.noted a.user a.sess e.data hkept hsome)
    refine (ih _ h).trans ?_
    dsimp only
    rw [hleft, Bool.or_false]
    rfl

/-- So does the handling of a segment that is in order. -/
theorem onInOrder_within (p : ParsedPacket) (a : RxAcc slots σ)
    (h : ¬lost (a.onInOrder cb p).user) : (a.onInOrder cb p).outside = a.outside := by
  unfold onInOrder at h ⊢
  by_cases hpay : p.payload.length > 0
  · rw [if_pos hpay] at h ⊢
    exact drainReorderBuf_within hcb _ _ h
  · rw [if_neg hpay]

end

/-- Nothing was freed, nor put on the free list, and no array was accessed outside its bounds,
unless the callback has emptied the reorder buffer. -/
def KeepsBuffers (a b : RxAcc slots σ) : Prop :=
  b.freed = a.freed ∧ b.freeList = a.freeList ∧
    ∀ lost, NotesReset cb lost → ¬lost b.user → b.outside = a.outside

/-- **What becomes of a packet**: it ends the burst, or goes on the free list at the end. -/
theorem onPacket_cases (a : RxAcc slots σ) (m : Mbuf) :
    (∃ s e, a.onPacket cb clk m = ({ a with sess := s }, some e)) ∨
      ∃ b, a.onPacket cb clk m = (b.free m, none) ∧ KeepsBuffers cb a b := by
  have hstart : ∀ s, KeepsBuffers cb a { a with sess := s } := fun s => ⟨rfl, rfl, fun _ _ _ => rfl⟩
  have hfin := fun p => onFin_keeps (J := KeepsBuffers cb a) (fun _ _ _ => id) clk p
  unfold onPacket
  split
  · exact .inr ⟨_, rfl, hstart _⟩
  rename_i p _
  unfold onSegment
  dsimp only
  split
  · split
    · exact .inl ⟨_, _, rfl⟩
    · exact .inr ⟨_, rfl, hstart _⟩
  split
  · split
    · unfold freeUnless
      generalize TcpSession.onOutOfOrder _ p = r
      obtain ⟨s, _ | e⟩ := r
      · exact .inr ⟨_, rfl, hstart s⟩
      · exact .inl ⟨s, e, rfl⟩
    · obtain ⟨hfreed, hlist⟩ := @onInOrder_keeps _ _ cb (fun b => b.freed = a.freed ∧
        b.freeList = a.freeList) (fun _ _ => id) (fun _ _ _ => id) (fun _ _ _ => id) p
        { a with sess := a.sess.noteAlive.onAck clk p } ⟨rfl, rfl⟩
      have hout := fun lost (hcb : NotesReset cb lost) => onInOrder_within hcb p
        { a with sess := a.sess.noteAlive.onAck clk p }
      exact .inr ⟨_, rfl, hfin p _ ⟨hfreed, hlist, hout⟩⟩
  · exact .inr ⟨_, rfl, hfin p _ (hstart _)⟩

/-- **A burst frees its packets**, each once: those that it looked at through the free list, and
those behind an error in the clean-up, which leaves the list empty. -/
theorem onBurst_freed (a : RxAcc slots σ) (pkts : List Mbuf) :
    ((a.onBurst cb clk pkts).2.isSome = true → (a.onBurst cb clk pkts).1.freeList = []) ∧
      ((a.onBurst cb clk pkts).1.freed ++ (a.onBurst cb clk pkts).1.freeList).Perm
        (a.freed ++ a.freeList ++ pkts) := by
  induction pkts generalizing a with
  | nil => exact ⟨fun herr => Bool.noConfusion herr, by rw [append_nil]; exact .refl _⟩
  | cons m rest ih =>
    rw [onBurst]
    rcases onPacket_cases cb clk a m with ⟨s, e, hm⟩ | ⟨b, hm, hfreed, hlist, -⟩ <;> rw [hm]
    · refine ⟨fun _ => rfl, ?_⟩
      simp only [abortRxCleanup, free, append_nil, append_assoc]
      -- the tail is freed before the list, and the packet in question last
      refine .append_left _ ?_
      exact (perm_append_comm).trans (by simp [append_assoc])
    · obtain ⟨hempty, hperm⟩ := ih (b.free m)
      refine ⟨hempty, hperm.trans (.of_eq ?_)⟩
      simp [free, hfreed, hlist]

/-- **A burst accesses no array outside its bounds**, if the free list has room for it and the
callback does not empty the reorder buffer. -/
theorem onBurst_within {lost : σ → Prop} (hcb : NotesReset cb lost) (a : RxAcc slots σ)
    (pkts : List Mbuf) (hroom : a.freeList.length + pkts.length ≤ kMaxBurst)
    (h : ¬lost (a.onBurst cb clk pkts).1.user) :
    (a.onBurst cb clk pkts).1.outside = a.outside := by
  induction pkts generalizing a with
  | nil => rfl
  | cons m rest ih =>
    rw [length_cons] at hroom
    have hle : ¬kMaxBurst ≤ a.freeList.length := by omega
    rw [onBurst] at h ⊢
    rcases onPacket_cases cb clk a m with ⟨s, e, hm⟩ | ⟨b, hm, -, hlist, hout⟩ <;> rw [hm] at h ⊢
    · simp only [abortRxCleanup, free, hle, decide_false, Bool.or_false]
    · have hkept : ¬lost b.user := fun hlost => h (onBurst_user hcb.stays clk rest _ hlost)
      refine (ih (b.free m) ?_ h).trans ?_
      · simp only [free, hlist, length_append, length_singleton]
        omega
      · simp only [free, hlist, hle, decide_false, Bool.or_false]
        exact hout lost hcb hkept

end Buffers

namespace TcpSession

/-- A retransmission of the SYN touches the deadline and the statistics only. -/
theorem maybeRetransmitSyn_shape (s : TcpSession slots) (host : Host) (clk : Clock) : ∃ d st,
    (s.maybeRetransmitSyn host clk).1 = { s with synRetransmitAt := d, stats := st } := by
  unfold maybeRetransmitSyn
  dsimp only
  repeat' split
  all_goals exact ⟨_, _, rfl⟩

/-- A step of a handshake that is on. -/
theorem connectStep_cases (s : TcpSession slots) (host : Host) (clk : Clock)
    (mbufs : Option (List Mbuf)) (hstate : s.state = .synSent) :
    ∃ pkts host' d st, pkts = mbufs.getD (host'.rxBurst kRxBurstSize).1 ∧
      host' = (s.maybeRetransmitSyn host clk).2 ∧
      Handshaken { s with synRetransmitAt := d, stats := st }
        (if mbufs.isSome then host' else (host'.rxBurst kRxBurstSize).2) (s.decisive pkts)
        (s.connectStep host clk mbufs) ∧ (s.connectStep host clk mbufs).freed = pkts := by
  obtain ⟨d, st, hsyn⟩ := s.maybeRetransmitSyn_shape host clk
  unfold connectStep
  rw [if_neg (by rw [hstate]; decide), if_neg (not_not.mpr hstate)]
  generalize s.maybeRetransmitSyn host clk = r at hsyn
  obtain ⟨s', host'⟩ := r
  subst hsyn
  refine ⟨_, host', d, st, rfl, rfl, ?_⟩
  cases mbufs with
  | some mbufs => exact handleHandshakeBurst_cases _ host' [] mbufs
  | none => exact handleHandshakeBurst_cases _ _ [] _

end TcpSession

/-- The data path of a stream notes the reset that an overflow of its buffer forces. -/
theorem receive_notesReset :
    NotesReset (@Net.Dpdk.DpdkTcpStream.receive slots) (·.overflowed = true) := by
  constructor
  · intro u s b hover
    rw [receive, if_pos hover]
    exact hover
  · intro u s b
    unfold receive
    split
    · exact fun hnot hover => absurd ‹_› hnot
    split
    · exact fun hnot => absurd rfl hnot
    · exact fun _ => id

/-- Two segments of the sample connection, the second one first. -/
def swappedBurst : List Mbuf :=
  [sampleMbuf 7 2 kTcpAck [30], sampleMbuf 7 0 kTcpAck [10, 20]]

/-- The same burst, with a byte less of room: the drain runs the stream's buffer full, the
callback resets the session, and the drain loop reads past the reorder buffer. -/
theorem drain_reads_outside :
    ((sampleSession 4 7).processRx receive ⟨1, 0⟩
      ⟨.create 2, false, 0, none⟩ swappedBurst).outside = true := by
  decide

namespace TcpSession

/-- The steps of a connect that was begun, up to the one that decides it. -/
def connectSteps (s : TcpSession slots) (host : Host) :
    List (Clock × Option (List Mbuf)) → Except ErrorInfo Bool × TcpSession slots × Host
  | [] => (.ok false, s, host)
  | (clk, mbufs) :: rest =>
    let o := s.connectStep host clk mbufs
    match o.result with
    | .ok false => o.sess.connectSteps o.host rest
    | result => (result, o.sess, o.host)

variable (s) (host : Host) (clk : Clock)

/-- `begin_connect`, and then `connect_step` as long as it asks for more. -/
def connectInSteps (isn : Option UInt32) (steps : List (Clock × Option (List Mbuf))) :
    Except ErrorInfo Bool × TcpSession slots × Host :=
  match s.beginConnect host clk isn with
  | (.error e, s, host) => (.error e, s, host)
  | (.ok _, s, host) => s.connectSteps host steps

/-- `connect`; the deadline passes after as many steps as `steps` has clocks. -/
def connect (isn : Option UInt32) (steps : List Clock) :
    Except ErrorInfo Unit × TcpSession slots × Host :=
  match s.connectInSteps host clk isn (steps.map (·, none)) with
  | (.error e, s, host) => (.error e, s, host)
  | (.ok true, s, host) => (.ok (), s, host)
  | (.ok false, s, host) =>
    (.error ⟨.timeout, "TcpSession::connect: handshake timeout"⟩, { s with state := .closed }, host)

/-- The session is back in Closed, and another connect is admitted. -/
structure Retryable : Prop where
  closed : s.state = .closed
  admitted : ∀ host clk isn, host.nextTx = .sent →
    (s.beginConnect host clk (some isn)).1 = .ok ()

theorem retryable_iff : s.Retryable ↔ s.state = .closed := by
  refine ⟨(·.closed), fun hclosed => ⟨hclosed, fun host clk isn hsent => ?_⟩⟩
  rcases s.beginConnect_cases host clk (some isn) with ⟨hnot, -⟩ | ⟨-, hnone, -⟩ |
    ⟨n, -, -, hlost, -⟩ | ⟨n, -, -, -, st, hbegun⟩
  · exact absurd (.inl hclosed) hnot
  · cases hnone
  · exact absurd hsent hlost
  · rw [hbegun]

/-- The awaited SYN-ACK is there and its acknowledgement cannot be sent. -/
def LosesAck (mbufs : Option (List Mbuf)) : Prop :=
  let host := (s.maybeRetransmitSyn host clk).2
  s.state = .synSent ∧ (∃ p, s.decisive (mbufs.getD (host.rxBurst kRxBurstSize).1) = some p ∧
    p.hasFlag kTcpRst = false) ∧ host.nextTx ≠ .sent

/-- That happens at one of the steps. -/
def AckLost (s : TcpSession slots) (host : Host) : List (Clock × Option (List Mbuf)) → Prop
  | [] => False
  | (clk, mbufs) :: rest =>
    s.LosesAck host clk mbufs ∨ (s.connectStep host clk mbufs).result = .ok false ∧
      (s.connectStep host clk mbufs).sess.AckLost (s.connectStep host clk mbufs).host rest

variable {s}

/-- **What a step leaves behind**, if the handshake is on. -/
theorem connectStep_state (hstate : s.state = .synSent) (host : Host) (clk : Clock)
    (mbufs : Option (List Mbuf)) :
    (s.connectStep host clk mbufs).result = .ok false ∧
        (s.connectStep host clk mbufs).sess.state = .synSent ∧ ¬s.LosesAck host clk mbufs ∨
      (s.connectStep host clk mbufs).result = .ok true ∨
      ∃ e, (s.connectStep host clk mbufs).result = .error e ∧
        ((s.connectStep host clk mbufs).sess.state = .closed ↔ ¬s.LosesAck host clk mbufs) := by
  obtain ⟨pkts, host', d, st₀, hpkts, hhost, hstep, -⟩ := s.connectStep_cases host clk mbufs hstate
  have htx : (if mbufs.isSome then host' else (host'.rxBurst kRxBurstSize).2).nextTx =
      host'.nextTx := by
    unfold Host.rxBurst
    repeat' split
    all_goals rfl
  have hlost : s.LosesAck host clk mbufs ↔
      (∃ p, s.decisive pkts = some p ∧ p.hasFlag kTcpRst = false) ∧ host'.nextTx ≠ .sent := by
    rw [LosesAck, and_iff_right hstate, hpkts, hhost]
  generalize s.decisive pkts = packet at hstep hlost
  generalize s.connectStep host clk mbufs = o at hstep
  cases hstep with
  | pending st freed => exact .inl ⟨rfl, hstate, by simp [hlost]⟩
  | refused hrst e st freed => exact .inr (.inr ⟨e, rfl, by simp [hlost, hrst]⟩)
  | established => exact .inr (.inl rfl)
  | @unacknowledged p hrst _ hnext e st host' _ freed =>
    have hlose : s.LosesAck host clk mbufs := hlost.mpr ⟨⟨p, rfl, hrst⟩, by rwa [htx] at hnext⟩
    refine .inr (.inr ⟨e, rfl, iff_of_false ?_ (not_not.mpr hlose)⟩)
    simp [takeSynAck_state, hstate]

/-- A handshake that fails ends in Closed, unless its acknowledgement was lost. -/
theorem connectSteps_state (hstate : s.state = .synSent) (host : Host)
    (steps : List (Clock × Option (List Mbuf))) :
    (∀ e, (s.connectSteps host steps).1 = .error e →
      ((s.connectSteps host steps).2.1.state = .closed ↔ ¬s.AckLost host steps)) ∧
    ((s.connectSteps host steps).1 = .ok false → ¬s.AckLost host steps) := by
  induction steps generalizing s host with
  | nil => exact ⟨nofun, fun _ => id⟩
  | cons step rest ih =>
    obtain ⟨clk, mbufs⟩ := step
    rw [connectSteps, AckLost]
    rcases connectStep_state hstate host clk mbufs with
      ⟨hres, hon, hkept⟩ | hres | ⟨e, hres, hend⟩
    · rw [hres, or_iff_right hkept, eq_self, true_and]
      exact ih hon _
    · rw [hres]
      exact ⟨nofun, nofun⟩
    · simp only [hres, reduceCtorEq, false_and, or_false]
      exact ⟨fun _ _ => hend, nofun⟩

theorem ackLost_of_not_synSent (hstate : s.state ≠ .synSent) (host : Host)
    (steps : List (Clock × Option (List Mbuf))) : ¬s.AckLost host steps := by
  cases steps with
  | nil => exact id
  | cons step rest =>
    rintro (hlost | ⟨hres, -⟩)
    · exact hstate hlost.1
    unfold connectStep at hres
    rw [if_pos hstate] at hres
    split at hres <;> cases hres

end TcpSession

/-- **Failed connects are retryable**, in steps or blocking, if and only if they were admitted
and no SYN-ACK came whose acknowledgement could not be sent. -/
theorem failed_connect_retryable_iff (s : TcpSession slots) (host : Host) (clk : Clock)
    (isn : Option UInt32) :
    let began := s.beginConnect host clk isn
    (∀ steps e, (s.connectInSteps host clk isn steps).1 = .error e →
      ((s.connectInSteps host clk isn steps).2.1.Retryable ↔
        s.Admits clk ∧ ¬began.2.1.AckLost began.2.2 steps)) ∧
    ∀ steps e, (s.connect host clk isn steps).1 = .error e →
      ((s.connect host clk isn steps).2.1.Retryable ↔
        s.Admits clk ∧ ¬began.2.1.AckLost began.2.2 (steps.map (·, none))) := by
  intro began
  simp only [retryable_iff]
  have hsteps : ∀ steps, (∀ e, (s.connectInSteps host clk isn steps).1 = .error e →
        ((s.connectInSteps host clk isn steps).2.1.state = .closed ↔
          s.Admits clk ∧ ¬began.2.1.AckLost began.2.2 steps)) ∧
      ((s.connectInSteps host clk isn steps).1 = .ok false →
        s.Admits clk ∧ ¬began.2.1.AckLost began.2.2 steps) := by
    intro steps
    have hfailed : ∀ {s' : TcpSession slots} {host'}, s'.state = .closed → s.Admits clk →
        s.Admits clk ∧ ¬s'.AckLost host' steps := fun hclosed hadmits =>
      ⟨hadmits, ackLost_of_not_synSent (by rw [hclosed]; decide) _ steps⟩
    unfold connectInSteps
    rcases s.beginConnect_cases host clk isn with ⟨hnot, e, hb⟩ | ⟨hadmits, -, e, hb⟩ |
      ⟨n, hadmits, -, -, e, hb⟩ | ⟨n, hadmits, -, -, st, hb⟩ <;> simp only [began, hb]
    · exact ⟨fun _ _ => iff_of_false (hnot ∘ .inl) (hnot ·.1), nofun⟩
    · exact ⟨fun _ _ => iff_of_true trivial (hfailed rfl hadmits), nofun⟩
    · exact ⟨fun _ _ => iff_of_true trivial (hfailed rfl hadmits), nofun⟩
    · rw [and_iff_right hadmits]
      exact connectSteps_state rfl _ steps
  refine ⟨fun steps => (hsteps steps).1, fun steps => ?_⟩
  obtain ⟨herror, hpending⟩ := hsteps (steps.map (·, none))
  unfold connect
  generalize s.connectInSteps host clk isn (steps.map (·, none)) = r at herror hpending
  obtain ⟨(e | _ | _), s', host'⟩ := r
  · exact fun _ _ => herror e rfl
  · exact fun _ _ => iff_of_true rfl (hpending rfl)
  · exact nofun

/-- A machine that takes the SYN and then refuses the acknowledgement. -/
def refusingHost : Host := ⟨[], [.sent, .refused], [], fun _ => none, none, [], none⟩

/-- The SYN-ACK comes, its acknowledgement is refused, and the session is stuck in SynSent. -/
theorem unacknowledged_connect_stuck :
    let o := (sampleSession 4 0).forget.connectInSteps refusingHost ⟨0, 0⟩ (some 7)
      [(⟨1, 0⟩, some [peerMbuf sampleTuple 100 8 (kTcpSyn ||| kTcpAck) 65535 [] (by decide)])]
    o.1 = .error ⟨.bufferFull, "TcpSession::send_ack: tx_burst failed"⟩ ∧
      o.2.1.state = .synSent ∧ (o.2.1.beginConnect o.2.2 ⟨2, 10 ^ 12⟩ (some 9)).1 =
        .error ⟨.invalidConfig, "TcpSession::begin_connect: session not in Closed state"⟩ :=
  ⟨rfl, rfl, rfl⟩

end Eph.Dpdk
