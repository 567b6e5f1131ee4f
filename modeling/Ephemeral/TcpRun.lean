import Ephemeral.TcpReassembly

/-!
# Runs of the receive path

A run is a sequence of `process_rx` bursts on one session.  `rxRun` is what the
session, the caller and the results look like after it, and `rxArrivals` lists
the matching segments that were examined, each with the session as it was when
the segment arrived.

`Following` is the invariant of an open connection that is fed slices of one
stream: what the caller was handed is the stream up to the frontier.  It survives
every burst, failed ones included, and a burst without error is a run of the
abstract receiver over its arrivals (`onBurst_follows`).
-/

namespace Eph.Dpdk

open ByteOrder Core List Reassembly TcpSession RxAcc

variable {slots : Nat} {σ : Type} {p : ParsedPacket} {s s' : TcpSession slots}

/-- The segment of a packet, if it is ours, with the session and the caller as they
are when it arrives. -/
def RxAcc.arrival (a : RxAcc slots σ) (m : Mbuf) : List (RxAcc slots σ × ParsedPacket) :=
  ((a.sess.matching m).map fun p => (a, p)).toList

theorem mem_arrival {a : RxAcc slots σ} {m : Mbuf} {x : RxAcc slots σ × ParsedPacket}
    (h : x ∈ a.arrival m) : x.1 = a := by
  unfold arrival at h
  cases hm : a.sess.matching m with
  | none => simp [hm] at h
  | some p =>
    rw [hm] at h
    rw [mem_singleton.mp h]

/-- The matching segments of a burst that the packet loop examines, each with the
session and the caller as they were on arrival. -/
def RxAcc.arrivals (cb : DataCallback slots σ) (clk : Clock) :
    RxAcc slots σ → List Mbuf → List (RxAcc slots σ × ParsedPacket)
  | _, [] => []
  | a, m :: rest =>
    match a.onPacket cb clk m with
    | (a', none) => a.arrival m ++ arrivals cb clk a' rest
    | (_, some _) => a.arrival m

/-- A session and its caller after some bursts, with the results they returned and
the segments that arrived. -/
structure RxRun (slots : Nat) (σ : Type) where
  sess : TcpSession slots
  user : σ
  results : List (Except ErrorInfo Nat)
  arrivals : List (RxAcc slots σ × ParsedPacket)

/-- One more burst. -/
def RxRun.burst (cb : DataCallback slots σ) (r : RxRun slots σ) (b : Clock × List Mbuf) :
    RxRun slots σ :=
  let o := r.sess.processRx cb b.1 r.user b.2
  { sess := o.sess
    user := o.user
    results := r.results ++ [o.result]
    arrivals := r.arrivals ++ RxAcc.arrivals cb b.1 (.start r.user r.sess) b.2 }

/-- A run of bursts from a session and a fresh caller. -/
def TcpSession.rxRun (s : TcpSession slots) (cb : DataCallback slots σ) (user : σ)
    (bursts : List (Clock × List Mbuf)) : RxRun slots σ :=
  bursts.foldl (RxRun.burst cb) ⟨s, user, [], []⟩

/-- Every burst of the run returned success. -/
def RxRun.Succeeded (r : RxRun slots σ) : Prop :=
  ∀ res ∈ r.results, res.isOk = true

instance (r : RxRun slots σ) : Decidable r.Succeeded :=
  inferInstanceAs (Decidable (∀ res ∈ r.results, res.isOk = true))

/-- The matching segments of all bursts. -/
def TcpSession.segments (s : TcpSession slots) (bursts : List (Clock × List Mbuf)) :
    List ParsedPacket :=
  bursts.flatMap fun b => b.2.filterMap s.matching

theorem TcpSession.rxRun_concat (s : TcpSession slots) (cb : DataCallback slots σ) (user : σ)
    (bursts : List (Clock × List Mbuf)) (b : Clock × List Mbuf) :
    s.rxRun cb user (bursts ++ [b]) = (s.rxRun cb user bursts).burst cb b := by
  simp [rxRun]

/-- `s'` has the state, configuration, frontier and reorder buffer of `s`. -/
structure SameReceive (s s' : TcpSession slots) : Prop where
  state : s'.state = s.state
  config : s'.config = s.config
  rcvNxt : s'.rcvNxt = s.rcvNxt
  reorderBuf : s'.reorderBuf = s.reorderBuf

theorem SameReceive.receiver (h : SameReceive s s') (base : UInt32) :
    s'.receiver base = s.receiver base := by
  rw [TcpSession.receiver, TcpSession.receiver, h.rcvNxt, h.reorderBuf]

theorem SameReceive.onStream (h : SameReceive s s') {stream : Bytes} {base : UInt32}
    (hs : OnStream stream base s) : OnStream stream base s' :=
  ⟨by rw [h.receiver]; exact hs.next_le, by rw [h.reorderBuf]; exact hs.entries⟩

theorem noteDropped_same (s : TcpSession slots) (m : Mbuf) : SameReceive s (s.noteDropped m) := by
  unfold noteDropped
  split
  · exact ⟨rfl, rfl, rfl, rfl⟩
  · exact ⟨rfl, rfl, rfl, rfl⟩

theorem SameReceive.refl (s : TcpSession slots) : SameReceive s s :=
  ⟨rfl, rfl, rfl, rfl⟩

theorem SameReceive.trans {s s' s'' : TcpSession slots} (h : SameReceive s s')
    (h' : SameReceive s' s'') : SameReceive s s'' :=
  ⟨h'.state.trans h.state, h'.config.trans h.config, h'.rcvNxt.trans h.rcvNxt,
    h'.reorderBuf.trans h.reorderBuf⟩

section

variable (s : TcpSession slots)

/-- `process_rx` is its packet loop, except that success may arm the deferred
acknowledgement. -/
theorem processRx_spec (cb : DataCallback slots σ) (clk : Clock) (user : σ) (pkts : List Mbuf) :
    SameReceive (RxAcc.onBurst cb clk (.start user s) pkts).1.sess
        (s.processRx cb clk user pkts).sess ∧
      (s.processRx cb clk user pkts).user =
        (RxAcc.onBurst cb clk (.start user s) pkts).1.user ∧
      ((s.processRx cb clk user pkts).result.isOk = true ↔
        (RxAcc.onBurst cb clk (.start user s) pkts).2 = none) := by
  unfold processRx
  generalize onBurst cb clk (.start user s) pkts = r
  obtain ⟨a, err⟩ := r
  cases err with
  | some err => exact ⟨SameReceive.refl _, rfl, by simp [Except.isOk, Except.toBool]⟩
  | none =>
    refine ⟨?_, rfl, by simp [Except.isOk, Except.toBool]⟩
    dsimp only
    split
    · exact ⟨rfl, rfl, rfl, rfl⟩
    · exact SameReceive.refl _

/-- **Induction over a run.**  A property of session, caller and arrivals that
every packet preserves, and that does not depend on the acknowledgement
bookkeeping, holds after every run; it makes no difference whether bursts fail. -/
theorem TcpSession.rxRun_induction (cb : DataCallback slots σ)
    (user : σ) (bursts : List (Clock × List Mbuf))
    (P : TcpSession slots → σ → List (RxAcc slots σ × ParsedPacket) → Prop)
    (hstart : P s user [])
    (hsame : ∀ s s' u trace, SameReceive s s' → P s u trace → P s' u trace)
    (hpacket : ∀ (a : RxAcc slots σ) clk m trace, (∃ b ∈ bursts, m ∈ b.2) → P a.sess a.user trace →
      P (a.onPacket cb clk m).1.sess (a.onPacket cb clk m).1.user (trace ++ a.arrival m)) :
    P (s.rxRun cb user bursts).sess (s.rxRun cb user bursts).user
      (s.rxRun cb user bursts).arrivals := by
  have hburst : ∀ clk pkts (a : RxAcc slots σ) trace, (∀ m ∈ pkts, ∃ b ∈ bursts, m ∈ b.2) →
      P a.sess a.user trace → P (a.onBurst cb clk pkts).1.sess (a.onBurst cb clk pkts).1.user
        (trace ++ a.arrivals cb clk pkts) := by
    intro clk pkts
    induction pkts with
    | nil => exact fun a trace _ h => by simpa [onBurst, arrivals] using h
    | cons m rest ih =>
      intro a trace hmem h
      have hstep := hpacket a clk m trace (hmem m mem_cons_self) h
      rw [onBurst, arrivals]
      generalize a.onPacket cb clk m = r at hstep
      obtain ⟨a', err⟩ := r
      cases err with
      | some err => exact hstep
      | none =>
        rw [← append_assoc]
        exact ih a' _ (fun m' hm' => hmem m' (mem_cons_of_mem m hm')) hstep
  induction bursts using List.reverseRecOn with
  | nil => exact hstart
  | append_singleton pre b ih =>
    have hpre := ih
      (fun a clk m trace hm => hpacket a clk m trace (by
        obtain ⟨b', hb', hm⟩ := hm
        exact ⟨b', mem_append_left _ hb', hm⟩))
      (fun clk pkts a trace hmem => hburst clk pkts a trace (by
        intro m hm
        obtain ⟨b', hb', hm⟩ := hmem m hm
        exact ⟨b', mem_append_left _ hb', hm⟩))
    rw [s.rxRun_concat cb user pre b]
    obtain ⟨hsame', huser, -⟩ := processRx_spec (s.rxRun cb user pre).sess cb b.1
      (s.rxRun cb user pre).user b.2
    refine hsame _ _ _ _ hsame' ?_
    rw [RxRun.burst, huser]
    exact hburst b.1 b.2 (.start _ _) _
      (fun m hm => ⟨b, mem_append_right _ mem_cons_self, hm⟩) hpre

/-- While our FIN is not outstanding, an acknowledgement moves only the send side. -/
theorem onAck_same (clk : Clock) (p : ParsedPacket)
    (hstate : s.state ≠ .finWait1 ∧ s.state ≠ .closing ∧ s.state ≠ .lastAck) :
    SameReceive s (s.onAck clk p) := by
  have htake : SameReceive s (s.takeAck p) := ⟨rfl, rfl, rfl, rfl⟩
  unfold onAck
  split_ifs
  · have hfin : (s.takeAck p).finAcked clk = s.takeAck p := by
      obtain ⟨h1, h2, h3⟩ := hstate
      have hst := htake.state
      unfold finAcked
      split <;> simp_all
    rw [hfin]
    exact htake
  · exact htake
  · exact SameReceive.refl s

end

/-- The session just before the data and FIN blocks: liveness noted and the
acknowledgement taken. -/
def TcpSession.prologue (s : TcpSession slots) (clk : Clock) (p : ParsedPacket) :
    TcpSession slots :=
  s.noteAlive.onAck clk p

theorem prologue_same (s : TcpSession slots) (clk : Clock) (p : ParsedPacket)
    (hstate : s.state ≠ .finWait1 ∧ s.state ≠ .closing ∧ s.state ≠ .lastAck) :
    SameReceive s (s.prologue clk p) :=
  { onAck_same s.noteAlive clk p hstate with }

section

variable (cb : DataCallback slots σ) (clk : Clock) (a : RxAcc slots σ) (m : Mbuf)
  (hrst : p.hasFlag kTcpRst = false) (hrecv : (a.sess.prologue clk p).state.receiving = true)

include hrst hrecv

/-- A segment without RST that is off the frontier and carries payload. -/
theorem onSegment_outOfOrder
    (hoff : p.seq ≠ (a.sess.prologue clk p).rcvNxt ∧ p.payload.length > 0) :
    a.onSegment cb clk m p =
      (RxAcc.freeUnless { a with sess := ((a.sess.prologue clk p).onOutOfOrder p).1 }
        ((a.sess.prologue clk p).onOutOfOrder p).2 m,
        ((a.sess.prologue clk p).onOutOfOrder p).2) := by
  unfold prologue at *
  simp only [onSegment, hrst, hrecv, hoff, Bool.false_eq_true, if_false, if_true,
    ne_eq, not_false_eq_true, and_self]

/-- A segment without RST that is on the frontier or carries no payload. -/
theorem onSegment_inOrder (hon : ¬(p.seq ≠ (a.sess.prologue clk p).rcvNxt ∧ p.payload.length > 0)) :
    a.onSegment cb clk m p =
      (((({ a with sess := a.sess.prologue clk p } : RxAcc slots σ).onInOrder cb p).onFin clk
        p).free m, none) := by
  unfold prologue at *
  simp only [onSegment, hrst, hrecv, hon, Bool.false_eq_true, if_false, if_true]

end

theorem onFin_of_not_fin (a : RxAcc slots σ) (clk : Clock) (hfin : p.hasFlag kTcpFin = false) :
    a.onFin clk p = a := by
  simp [onFin, hfin]

section Keeps

variable {cb : DataCallback slots σ} {J : RxAcc slots σ → Prop}
  (hdeliver : ∀ a payload, J a → J (RxAcc.deliver cb a payload))
  (hcontrol : ∀ a s ack, J a → J { a with sess := s, needAck := ack })
  (hremove : ∀ a s out, J a → J { a with sess := s, outside := out })

include hcontrol

/-- The FIN block changes the session and the acknowledgement flag only. -/
theorem onFin_keeps (clk : Clock) (p : ParsedPacket) (a : RxAcc slots σ) (h : J a) :
    J (a.onFin clk p) := by
  unfold onFin
  dsimp only
  split
  · split
    · exact hcontrol _ _ _ h
    · split <;> exact hcontrol _ _ _ h
    · exact hcontrol _ _ _ h
    · exact hcontrol _ _ _ h
    · exact h
  · exact h

include hdeliver hremove

omit hcontrol in

/-- The drain loop delivers, and between two deliveries changes the session only. -/
theorem drainReorderBuf_keeps (fuel : Nat) (a : RxAcc slots σ) (h : J a) :
    J (a.drainReorderBuf cb fuel) := by
  induction fuel generalizing a with
  | zero => exact h
  | succ fuel ih =>
    rw [drainReorderBuf]
    split
    · exact h
    split
    · exact h
    · exact ih _ (hremove _ _ _ (hdeliver _ _ h))

/-- In-order payload is delivered, and so is what waited for it. -/
theorem onInOrder_keeps (p : ParsedPacket) (a : RxAcc slots σ) (h : J a) :
    J (a.onInOrder cb p) := by
  unfold onInOrder
  split
  · exact drainReorderBuf_keeps hdeliver hremove _ _ (hcontrol _ _ _ (hdeliver _ _ h))
  · exact h

/-- **What every delivery keeps**, every change of the session and of the acknowledgement flag,
and every packet put on the free list, a segment keeps, whatever is in it. -/
theorem onSegment_keeps (hfree : ∀ a m, J a → J (RxAcc.free a m)) (clk : Clock)
    (a : RxAcc slots σ) (m : Mbuf) (p : ParsedPacket) (h : J a) :
    J (a.onSegment cb clk m p).1 := by
  have hunless : ∀ (a : RxAcc slots σ) err, J a → J (a.freeUnless err m) := by
    intro a err h
    unfold freeUnless
    split
    · exact h
    · exact hfree _ _ h
  unfold onSegment
  dsimp only
  split
  · split
    · exact hcontrol _ _ _ h
    · exact hfree _ _ (hcontrol _ _ _ h)
  split
  · split
    · exact hunless _ _ (hcontrol _ _ _ h)
    · exact hfree _ _ (onFin_keeps hcontrol clk p _
        (onInOrder_keeps hdeliver hcontrol hremove p _ (hcontrol _ _ _ h)))
  · exact hfree _ _ (onFin_keeps hcontrol clk p _ (hcontrol _ _ _ h))

end Keeps

section User

variable {cb : DataCallback slots σ} {I : σ → Prop} (hcb : ∀ u s d, I u → I (cb u s d).1)

include hcb

/-- **What every call of the callback keeps, a burst keeps**, whatever is in it. -/
theorem onBurst_user (clk : Clock) (pkts : List Mbuf) (a : RxAcc slots σ) (h : I a.user) :
    I (a.onBurst cb clk pkts).1.user := by
  induction pkts generalizing a with
  | nil => exact h
  | cons m rest ih =>
    have hpkt : I (a.onPacket cb clk m).1.user := by
      unfold onPacket
      split
      · exact h
      · exact onSegment_keeps (J := fun a => I a.user) (fun _ _ => hcb _ _ _) (fun _ _ _ => id)
          (fun _ _ _ => id) (fun _ _ => id) clk _ _ _ h
    rw [onBurst]
    split
    · rename_i hm
      rw [hm] at hpkt
      exact ih _ hpkt
    · rename_i hm
      rw [hm] at hpkt
      exact hpkt

end User

/-- A segment of the peer's stream: a slice, without RST or FIN. -/
structure IsData (stream : Bytes) (base : UInt32) (p : ParsedPacket) : Prop where
  slice : IsSlice stream base p.seq p.payload
  noRst : p.hasFlag kTcpRst = false
  noFin : p.hasFlag kTcpFin = false

/-- An open connection whose caller has been handed the stream up to the frontier. -/
structure Following (stream : Bytes) (base : UInt32) (s : TcpSession slots)
    (user : List Bytes) : Prop where
  state : s.state = .established
  onStream : OnStream stream base s
  delivered : user.flatten = stream.take (s.receiver base).next

section Following

variable {stream : Bytes} {base : UInt32}

theorem Following.of_same {user : List Bytes} (h : Following stream base s user)
    (hsame : SameReceive s s') : Following stream base s' user :=
  ⟨hsame.state.trans h.state, hsame.onStream h.onStream, by rw [hsame.receiver]; exact h.delivered⟩

/-- A simulated step that delivers a gap-free run keeps the caller up to date. -/
theorem Following.of_simulates {a a' : RxAcc slots (List Bytes)} {st' : State} {out : List Seg}
    (h : Following stream base a.sess a.user) (hsim : Simulates stream base a a' st' out)
    (hcons : Consecutive (a.sess.receiver base).next out st'.next) :
    Following stream base a'.sess a'.user := by
  refine ⟨hsim.control.state.trans h.state, hsim.onStream, ?_⟩
  rw [hsim.user, hsim.receiver, flatten_append, h.delivered]
  exact hcons.take_append stream

/-- The receive path is active in an open connection, before and after the
acknowledgement is taken. -/
theorem Following.prologue {user : List Bytes}
    (h : Following stream base s user) (clk : Clock) (p : ParsedPacket) :
    SameReceive s (s.prologue clk p) ∧ (s.prologue clk p).state.receiving = true ∧
      Following stream base (s.prologue clk p) user := by
  have hsame : SameReceive s (s.prologue clk p) := prologue_same s clk p (by simp [h.state])
  refine ⟨hsame, ?_, h.of_same hsame⟩
  rw [hsame.state, h.state]
  rfl

/-- From `a` to `a'` the connection has stayed the same and the caller up to date. -/
def KeepsUp (stream : Bytes) (base : UInt32) (a a' : RxAcc slots (List Bytes)) : Prop :=
  Following stream base a'.sess a'.user ∧ a'.sess.config = a.sess.config

variable {a : RxAcc slots (List Bytes)}

/-- The abstract receiver takes the step for the payload of `p`. -/
def Arrives (base : UInt32) (a a' : RxAcc slots (List Bytes)) (p : ParsedPacket) : Prop :=
  ∃ out, arrive slots kDefaultMss (a.sess.receiver base) (toSeg base p.seq p.payload) =
    some (a'.sess.receiver base, out)

section

variable (hstream : stream.length < 2 ^ 31) (h : Following stream base a.sess a.user)

include hstream h

/-- **A slice off the frontier**, with or without FIN.  It keeps the caller up to
date whether or not it is accepted, and when no error is raised the session took
the step of the abstract receiver. -/
theorem onSegment_following_off (clk : Clock) (m : Mbuf) (hp : IsSlice stream base p.seq p.payload)
    (hrst : p.hasFlag kTcpRst = false) (hseq : p.seq ≠ a.sess.rcvNxt) :
    KeepsUp stream base a (a.onSegment collect clk m p).1 ∧
      ((a.onSegment collect clk m p).2 = none →
        Arrives base a (a.onSegment collect clk m p).1 p) := by
  obtain ⟨hsame, hrecv, hb⟩ := h.prologue clk p
  rw [← hsame.rcvNxt] at hseq
  rw [KeepsUp, Arrives, ← hsame.receiver base, ← hsame.config,
    onSegment_outOfOrder collect clk a m hrst hrecv ⟨hseq, hp.pos⟩, freeUnless_sess,
    freeUnless_user]
  generalize a.sess.prologue clk p = s at hseq hb
  rcases onOutOfOrder_simulates hstream (a := { a with sess := s }) hb.onStream hp hseq
    with ⟨st', harrive, -, hsim⟩ | ⟨-, herr, hsim⟩
  · have hcons := arrive_consecutive harrive
    refine ⟨⟨Following.of_simulates (a := { a with sess := s }) hb hsim hcons,
      hsim.control.config⟩, fun _ => ⟨[], ?_⟩⟩
    rw [hsim.receiver]
    exact harrive
  · refine ⟨⟨Following.of_simulates (a := { a with sess := s }) hb hsim rfl,
      hsim.control.config⟩, ?_⟩
    intro hnone
    exact absurd (hnone.symm.trans herr) (by simp)

/-- **A slice on the frontier**, up to the FIN block: the session took the step of
the abstract receiver and the caller is up to date. -/
theorem onInOrder_following (hp : IsSlice stream base p.seq p.payload)
    (hseq : p.seq = a.sess.rcvNxt) :
    KeepsUp stream base a (a.onInOrder collect p) ∧ Arrives base a (a.onInOrder collect p) p := by
  obtain ⟨st', out, harrive, hsim⟩ := onInOrder_simulates hstream h.onStream hp hseq
  refine ⟨⟨h.of_simulates hsim (arrive_consecutive harrive), hsim.control.config⟩, out, ?_⟩
  rw [hsim.receiver]
  exact harrive

/-- **One data segment**, on or off the frontier. -/
theorem onSegment_following (clk : Clock) (m : Mbuf) (hp : IsData stream base p) :
    KeepsUp stream base a (a.onSegment collect clk m p).1 ∧
      ((a.onSegment collect clk m p).2 = none →
        Arrives base a (a.onSegment collect clk m p).1 p) := by
  by_cases hseq : p.seq = a.sess.rcvNxt
  · obtain ⟨hsame, hrecv, hb⟩ := h.prologue clk p
    rw [← hsame.rcvNxt] at hseq
    rw [KeepsUp, Arrives, ← hsame.receiver base, ← hsame.config,
      onSegment_inOrder collect clk a m hp.noRst hrecv (by simp [hseq]),
      onFin_of_not_fin _ clk hp.noFin]
    generalize a.sess.prologue clk p = s at hseq hb
    obtain ⟨hkeeps, harrive⟩ :=
      onInOrder_following hstream (a := { a with sess := s }) hb hp.slice hseq
    exact ⟨hkeeps, fun _ => harrive⟩
  · exact onSegment_following_off hstream h clk m hp.slice hp.noRst hseq

end

theorem matching_congr (h : s'.config = s.config) : s'.matching = s.matching := by
  funext m
  rw [matching, matching, h]

/-- An arrival as the abstract receiver records it. -/
def toArrival (base : UInt32) (x : RxAcc slots σ × ParsedPacket) : State × Seg :=
  (x.1.sess.receiver base, toSeg base x.2.seq x.2.payload)

/-- One packet of a burst of data segments. -/
theorem onPacket_following (hstream : stream.length < 2 ^ 31) (clk : Clock) (m : Mbuf)
    (h : Following stream base a.sess a.user)
    (hm : ∀ p, a.sess.matching m = some p → IsData stream base p) :
    KeepsUp stream base a (a.onPacket collect clk m).1 ∧
      ((a.onPacket collect clk m).2 = none → Run slots kDefaultMss (a.sess.receiver base)
        ((a.arrival m).map (toArrival base))
        ((a.onPacket collect clk m).1.sess.receiver base)) := by
  unfold onPacket arrival
  cases hmatch : a.sess.matching m with
  | none =>
    have hsame := noteDropped_same a.sess m
    refine ⟨⟨h.of_same hsame, hsame.config⟩, fun _ => ?_⟩
    dsimp only
    rw [free_sess, hsame.receiver]
    exact Run.nil _
  | some p =>
    obtain ⟨hkeeps, harr⟩ := onSegment_following hstream h clk m (hm p hmatch)
    refine ⟨hkeeps, fun hnone => ?_⟩
    obtain ⟨out, harrive⟩ := harr hnone
    exact Run.cons harrive (Run.nil _)

/-- What a burst of data segments does: the caller stays up to date, and a burst
without error is a run of the abstract receiver over all its segments. -/
structure BurstFollows (stream : Bytes) (base : UInt32) (a : RxAcc slots (List Bytes))
    (clk : Clock) (pkts : List Mbuf) : Prop where
  following : Following stream base (a.onBurst collect clk pkts).1.sess
    (a.onBurst collect clk pkts).1.user
  config : (a.onBurst collect clk pkts).1.sess.config = a.sess.config
  run : (a.onBurst collect clk pkts).2 = none → Run slots kDefaultMss (a.sess.receiver base)
    ((a.arrivals collect clk pkts).map (toArrival base))
    ((a.onBurst collect clk pkts).1.sess.receiver base)
  segments : (a.onBurst collect clk pkts).2 = none →
    (a.arrivals collect clk pkts).map (·.2) = pkts.filterMap a.sess.matching
  arrived : ∀ x ∈ a.arrivals collect clk pkts, Following stream base x.1.sess x.1.user

/-- **One burst of data segments**, by induction on its packets. -/
theorem onBurst_follows (hstream : stream.length < 2 ^ 31) (clk : Clock) (pkts : List Mbuf)
    (h : Following stream base a.sess a.user)
    (hpkts : ∀ m ∈ pkts, ∀ p, a.sess.matching m = some p → IsData stream base p) :
    BurstFollows stream base a clk pkts := by
  induction pkts generalizing a with
  | nil => exact ⟨h, rfl, fun _ => Run.nil _, fun _ => rfl, by simp [arrivals]⟩
  | cons m rest ih =>
    have hhere : ∀ x ∈ a.arrival m, Following stream base x.1.sess x.1.user := by
      intro x hx
      rw [mem_arrival hx]
      exact h
    obtain ⟨⟨hfol, hcfg⟩, hrun⟩ := onPacket_following hstream clk m h (hpkts m mem_cons_self)
    have hmatch := matching_congr hcfg
    generalize hstep : a.onPacket collect clk m = r at hfol hcfg hrun hmatch
    obtain ⟨a', err⟩ := r
    cases err with
    | some err =>
      have hburst : a.onBurst collect clk (m :: rest) =
          (a'.abortRxCleanup m rest, some err) := by
        rw [onBurst, hstep]
      constructor
      · rw [hburst]; exact hfol
      · rw [hburst]; exact hcfg
      · rw [hburst]; intro hnone; cases hnone
      · rw [hburst]; intro hnone; cases hnone
      · rw [arrivals, hstep]; exact hhere
    | none =>
      have hburst : a.onBurst collect clk (m :: rest) = a'.onBurst collect clk rest := by
        rw [onBurst, hstep]
      have harr : a.arrivals collect clk (m :: rest) =
          a.arrival m ++ a'.arrivals collect clk rest := by
        rw [arrivals, hstep]
      have hrest := ih hfol (by
        rw [hmatch]
        exact fun m' hm' => hpkts m' (mem_cons_of_mem m hm'))
      constructor
      · rw [hburst]; exact hrest.following
      · rw [hburst]; exact hrest.config.trans hcfg
      · rw [hburst, harr, map_append]
        exact fun hnone => (hrun rfl).append (hrest.run hnone)
      · rw [hburst, harr, map_append]
        intro hnone
        rw [hrest.segments hnone, hmatch, arrival, filterMap_cons]
        cases a.sess.matching m <;> rfl
      · rw [harr]
        exact forall_mem_append.mpr ⟨hhere, hrest.arrived⟩

/-- What a run of data segments does. -/
structure RunFollows (stream : Bytes) (base : UInt32) (s : TcpSession slots)
    (bursts : List (Clock × List Mbuf)) : Prop where
  following : Following stream base (s.rxRun collect [] bursts).sess
    (s.rxRun collect [] bursts).user
  config : (s.rxRun collect [] bursts).sess.config = s.config
  run : (s.rxRun collect [] bursts).Succeeded → Run slots kDefaultMss (s.receiver base)
    ((s.rxRun collect [] bursts).arrivals.map (toArrival base))
    ((s.rxRun collect [] bursts).sess.receiver base)
  segments : (s.rxRun collect [] bursts).Succeeded →
    (s.rxRun collect [] bursts).arrivals.map (·.2) = s.segments bursts
  arrived : ∀ x ∈ (s.rxRun collect [] bursts).arrivals, Following stream base x.1.sess x.1.user

/-- **A run of data segments**, by induction on its bursts. -/
theorem rxRun_follows (hstream : stream.length < 2 ^ 31) (h : Following stream base s [])
    (bursts : List (Clock × List Mbuf)) (hsegs : ∀ p ∈ s.segments bursts, IsData stream base p) :
    RunFollows stream base s bursts := by
  induction bursts using List.reverseRecOn with
  | nil =>
    exact ⟨h, rfl, fun _ => Run.nil _, fun _ => rfl, by simp [rxRun]⟩
  | append_singleton bursts b ih =>
    have hsplit : s.segments (bursts ++ [b]) =
        s.segments bursts ++ b.2.filterMap s.matching := by
      simp [segments]
    rw [hsplit] at hsegs
    have hpre := ih fun p hp => hsegs p (mem_append_left _ hp)
    have hmatch : (RxAcc.start (s.rxRun collect [] bursts).user
        (s.rxRun collect [] bursts).sess).sess.matching = s.matching := matching_congr hpre.config
    have hburst := onBurst_follows hstream b.1 b.2
      (a := .start (s.rxRun collect [] bursts).user (s.rxRun collect [] bursts).sess)
      hpre.following (by
        intro m hm p hp
        rw [hmatch] at hp
        exact hsegs p (mem_append_right _ (mem_filterMap.mpr ⟨m, hm, hp⟩)))
    obtain ⟨hsame, huser, hok⟩ := processRx_spec (s.rxRun collect [] bursts).sess collect b.1
      (s.rxRun collect [] bursts).user b.2
    have hstep := s.rxRun_concat collect [] bursts b
    have hsucc : (s.rxRun collect [] (bursts ++ [b])).Succeeded →
        (s.rxRun collect [] bursts).Succeeded ∧
          (onBurst collect b.1 (.start (s.rxRun collect [] bursts).user
            (s.rxRun collect [] bursts).sess) b.2).2 = none := by
      rw [hstep]
      intro hall
      refine ⟨fun res hres => hall res (mem_append_left _ hres), hok.mp ?_⟩
      exact hall _ (mem_append_right _ mem_cons_self)
    constructor
    · rw [hstep]
      simp only [RxRun.burst, huser]
      exact hburst.following.of_same hsame
    · rw [hstep]
      exact (hsame.config.trans hburst.config).trans hpre.config
    · intro hall
      obtain ⟨hall', hnone⟩ := hsucc hall
      rw [hstep]
      simp only [RxRun.burst, map_append]
      rw [hsame.receiver]
      exact (hpre.run hall').append (hburst.run hnone)
    · intro hall
      obtain ⟨hall', hnone⟩ := hsucc hall
      rw [hstep, hsplit]
      simp only [RxRun.burst, map_append]
      rw [hpre.segments hall', hburst.segments hnone, hmatch]
    · rw [hstep]
      exact forall_mem_append.mpr ⟨hpre.arrived, hburst.arrived⟩

end Following

end Eph.Dpdk
