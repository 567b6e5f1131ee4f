import Ephemeral.TcpTransmit

/-!
# In-order input

A connection whose peer's segments arrive one after the other.  `carried` is the
byte string that a run of packets carries from a sequence number on, and `Ready` a
session that waits for exactly that sequence number.  Such a session hands all of it
to its callback, in `process_rx` and in `poll_rx`; `Absorbs` says what a callback
makes of the bytes, and `Took` that packets were taken from the receive queue.
-/

namespace Eph.Dpdk

open ByteOrder Core List RxAcc TcpSession

variable {slots : Nat} {σ : Type} {s : TcpSession slots} {seq : UInt32} {a : RxAcc slots σ}
  {pkts : List Mbuf}

/-- The bytes that packets carry from `seq` on, if each is the next segment of the
connection: it belongs to it, has neither RST nor FIN, and starts where the one
before it ended.  Pure acknowledgements carry nothing. -/
def carried (t : ConnectionTuple) : UInt32 → List Mbuf → Option Bytes
  | _, [] => some []
  | seq, m :: rest =>
    match (parsePacket m).filter (·.matches t) with
    | none => none
    | some p =>
      if p.seq = seq ∧ p.hasFlag kTcpRst = false ∧ p.hasFlag kTcpFin = false then
        (carried t (seq + UInt32.ofNat p.payload.length) rest).map (p.payload ++ ·)
      else none

variable {t : ConnectionTuple}

/-- The next segment, and what follows it. -/
theorem carried_cons {m : Mbuf} {rest : List Mbuf} {bytes : Bytes}
    (h : carried t seq (m :: rest) = some bytes) :
    ∃ p tail, (parsePacket m).filter (·.matches t) = some p ∧ p.seq = seq ∧
      p.hasFlag kTcpRst = false ∧ p.hasFlag kTcpFin = false ∧
      carried t (seq + UInt32.ofNat p.payload.length) rest = some tail ∧
      bytes = p.payload ++ tail := by
  rw [carried] at h
  split at h
  · cases h
  rename_i p hp
  split at h
  · rename_i hok
    obtain ⟨tail, htail, rfl⟩ := Option.map_eq_some_iff.mp h
    exact ⟨p, tail, hp, hok.1, hok.2.1, hok.2.2, htail, rfl⟩
  · cases h

theorem carried_append {pkts more : List Mbuf} {bytes : Bytes}
    (h : carried t seq (pkts ++ more) = some bytes) :
    ∃ front back, carried t seq pkts = some front ∧
      carried t (seq + UInt32.ofNat front.length) more = some back ∧ bytes = front ++ back := by
  induction pkts generalizing seq bytes with
  | nil => exact ⟨[], bytes, rfl, by simpa using h, rfl⟩
  | cons m pkts ih =>
    obtain ⟨p, tail, hp, hseq, hrst, hfin, htail, rfl⟩ := carried_cons h
    obtain ⟨front, back, hfront, hback, rfl⟩ := ih htail
    refine ⟨p.payload ++ front, back, ?_, ?_, (append_assoc ..).symm⟩
    · rw [carried, hp]
      simp only [hseq, hrst, hfin, and_self, if_true, hfront, Option.map_some]
    · rw [length_append, UInt32.ofNat_add, ← UInt32.add_assoc]
      exact hback

theorem carried_concat {pkts more : List Mbuf} {front back : Bytes}
    (hfront : carried t seq pkts = some front)
    (hback : carried t (seq + UInt32.ofNat front.length) more = some back) :
    carried t seq (pkts ++ more) = some (front ++ back) := by
  induction pkts generalizing seq front with
  | nil =>
    cases hfront
    simpa using hback
  | cons m pkts ih =>
    obtain ⟨p, tail, hp, hseq, hrst, hfin, htail, rfl⟩ := carried_cons hfront
    rw [length_append, UInt32.ofNat_add, ← UInt32.add_assoc] at hback
    rw [cons_append, carried, hp]
    simp only [hseq, hrst, hfin, and_self, if_true, ih htail hback, Option.map_some, append_assoc]

/-- An open session of the connection `t` that waits for the byte `seq` and holds
nothing back. -/
structure Ready (t : ConnectionTuple) (seq : UInt32) (s : TcpSession slots) : Prop where
  state : s.state = .established
  tuple : s.config.tuple = t
  rcvNxt : s.rcvNxt = seq
  empty : s.reorderBuf.entries = []

theorem Ready.of_same {s s' : TcpSession slots} (h : Ready t seq s) (hsame : SameReceive s s') :
    Ready t seq s' :=
  ⟨hsame.state.trans h.state, by rw [hsame.config]; exact h.tuple, hsame.rcvNxt.trans h.rcvNxt,
    by rw [hsame.reorderBuf]; exact h.empty⟩

/-- A callback that leaves the receive side alone, and whose effect on the caller and
on the fed payload is described by `P`: there, `P u f d` says that the state `u` and
the feed `f` account for the bytes `d`.  The callback has `room` for so many bytes. -/
structure Absorbs (cb : DataCallback slots σ) (room : Nat → Prop)
    (P : σ → Bytes → Bytes → Prop) : Prop where
  same : ∀ u s d acc, P u s.rxFeed acc → room (acc.length + d.length) →
    SameReceive s (cb u s d).2
  step : ∀ u s d acc, P u s.rxFeed acc → room (acc.length + d.length) →
    P (cb u s d).1 (cb u s d).2.rxFeed (acc ++ d)

/-- The header of a segment does not touch the fed payload. -/
theorem prologue_rxFeed (s : TcpSession slots) (clk : Clock) (p : ParsedPacket) :
    (s.prologue clk p).rxFeed = s.rxFeed := by
  unfold prologue onAck finAcked
  split_ifs
  · split <;> rfl
  · rfl
  · rfl

section Carried

variable {cb : DataCallback slots σ} {room : Nat → Prop} {P : σ → Bytes → Bytes → Prop}
  {t : ConnectionTuple} {seq : UInt32} {bytes acc : Bytes}

/-- One segment at the frontier. -/
theorem onSegment_ready (hcb : Absorbs cb room P) (clk : Clock) (m : Mbuf)
    (hready : Ready t seq a.sess) (hP : P a.user a.sess.rxFeed acc) {p : ParsedPacket}
    (hseq : p.seq = seq) (hrst : p.hasFlag kTcpRst = false) (hfin : p.hasFlag kTcpFin = false)
    (hroom : room (acc.length + p.payload.length)) :
    (a.onSegment cb clk m p).2 = none ∧
      Ready t (seq + UInt32.ofNat p.payload.length) (a.onSegment cb clk m p).1.sess ∧
      P (a.onSegment cb clk m p).1.user (a.onSegment cb clk m p).1.sess.rxFeed
        (acc ++ p.payload) := by
  have hsame := prologue_same a.sess clk p (by simp [hready.state])
  have hb := hready.of_same hsame
  have hfeed := prologue_rxFeed a.sess clk p
  rw [onSegment_inOrder cb clk a m hrst (by rw [hb.state]; rfl) (by simp [hb.rcvNxt, hseq]),
    onFin_of_not_fin _ clk hfin]
  generalize a.sess.prologue clk p = s at hb hfeed
  rw [← hfeed] at hP
  refine ⟨rfl, ?_⟩
  by_cases hpay : p.payload.length > 0
  · have hcbs := hcb.same a.user s p.payload acc hP hroom
    have hempty : (cb a.user s p.payload).2.reorderBuf.entries = [] := by
      rw [hcbs.reorderBuf, hb.empty]
    have hin : (onInOrder cb { a with sess := s } p) =
        { deliver cb { a with sess := s } p.payload with needAck := true } := by
      simp only [onInOrder, hpay, if_true, deliver, hempty, length_nil, drainReorderBuf]
    rw [hin]
    refine ⟨⟨?_, ?_, ?_, hempty⟩, hcb.step _ _ _ _ hP hroom⟩
    · exact hcbs.state.trans hb.state
    · exact (congrArg TcpConfig.tuple hcbs.config).trans hb.tuple
    · simp only [free_sess, deliver]
      rw [hcbs.rcvNxt, hb.rcvNxt]
  · have hnil : p.payload = [] := length_eq_zero_iff.mp (by omega)
    have hin : (onInOrder cb { a with sess := s } p) = { a with sess := s } := by
      simp only [onInOrder, hpay, if_false]
    rw [hin, hnil, append_nil]
    exact ⟨by simpa using hb, hP⟩

end Carried

/-! ## Polling -/

/-- Packets that carry `got` were taken from the receive queue, and the session `s'`
waits for what follows them. -/
structure Took (t : ConnectionTuple) (seq : UInt32) (host : Host) (s' : TcpSession slots)
    (host' : Host) (got : Bytes) : Prop where
  taken : ∃ pkts, host.rx.flatten = pkts ++ host'.rx.flatten ∧ carried t seq pkts = some got
  ready : Ready t (seq + UInt32.ofNat got.length) s'

namespace Took

variable {t : ConnectionTuple} {seq : UInt32} {host host' host'' : Host}
  {s s' s'' : TcpSession slots} {got got' : Bytes}

/-- Nothing was taken. -/
theorem nothing (h : Ready t seq s) (hrx : host'.rx.flatten = host.rx.flatten) :
    Took t seq host s host' [] :=
  ⟨⟨[], by rw [hrx, nil_append], rfl⟩, by simpa using h⟩

theorem trans (h : Took t seq host s' host' got)
    (h' : Took t (seq + UInt32.ofNat got.length) host' s'' host'' got') :
    Took t seq host s'' host'' (got ++ got') := by
  obtain ⟨pkts, hrx, hcarried⟩ := h.taken
  obtain ⟨pkts', hrx', hcarried'⟩ := h'.taken
  refine ⟨⟨pkts ++ pkts', ?_, carried_concat hcarried hcarried'⟩, ?_⟩
  · rw [hrx, hrx', append_assoc]
  · rw [length_append, UInt32.ofNat_add, ← UInt32.add_assoc]
    exact h'.ready

/-- What is still to come after the taken packets. -/
theorem remaining (h : Took t seq host s' host' got) {rest : Bytes}
    (hrest : carried t seq host.rx.flatten = some rest) :
    ∃ later, carried t (seq + UInt32.ofNat got.length) host'.rx.flatten = some later ∧
      rest = got ++ later := by
  obtain ⟨pkts, hrx, hpkts⟩ := h.taken
  rw [hrx] at hrest
  obtain ⟨front, later, hfront, hlater, hsplit⟩ := carried_append hrest
  rw [hpkts] at hfront
  cases hfront
  exact ⟨later, hlater, hsplit⟩

theorem ready_nil (h : Took t seq host s' host' []) : Ready t seq s' := by
  simpa using h.ready

theorem trans_nil (h : Took t seq host s' host' []) (h' : Took t seq host' s'' host'' got') :
    Took t seq host s'' host'' got' := by
  have hseq : Took t (seq + UInt32.ofNat ([] : Bytes).length) host' s'' host'' got' := by
    simpa using h'
  exact h.trans hseq

/-- The session may change in ways that do not concern what it has received. -/
theorem of_same (h : Took t seq host s' host' got) (hsame : SameReceive s' s'')
    (hrx : host''.rx = host'.rx) : Took t seq host s'' host'' got :=
  ⟨by rw [hrx]; exact h.taken, h.ready.of_same hsame⟩

end Took

/-- The pieces of a byte string make it up. -/
theorem flatten_chunks {n : Nat} (hn : 0 < n) (fuel : Nat) (data : Bytes)
    (hfuel : data.length ≤ fuel) : (chunks n fuel data).flatten = data := by
  induction fuel generalizing data with
  | zero => rw [length_eq_zero_iff.mp (Nat.le_zero.mp hfuel), chunks, flatten_nil]
  | succ fuel ih =>
    unfold chunks
    split
    · rename_i hempty
      rw [isEmpty_iff.mp hempty, flatten_nil]
    rename_i hne
    have hpos : 0 < data.length := length_pos_iff.mpr (by simpa using hne)
    rw [flatten_cons, ih (data.drop n) (by rw [length_drop]; omega), take_append_drop]

/-- A burst is the front of the queue. -/
theorem rxBurst_flatten (host : Host) (limit : Nat) :
    host.rx.flatten = (host.rxBurst limit).1 ++ (host.rxBurst limit).2.rx.flatten := by
  unfold Host.rxBurst
  split
  · rw [nil_append]
  rename_i burst rest hrx
  split
  · rw [hrx, flatten_cons]
  · rw [hrx, flatten_cons]
    rw [flatten_cons, ← append_assoc, take_append_drop]

/-! ## A callback that can run full -/

section Full

variable {cb : DataCallback slots σ} {room : Nat → Prop} {P : σ → Bytes → Bytes → Prop}
  {I : σ → Prop} {total : Nat} (hcb : Absorbs cb room P) (hkept : ∀ u s d, I u → I (cb u s d).1)
  (hfull : ∀ u s d acc, P u s.rxFeed acc → acc.length + d.length ≤ total →
    ¬ room (acc.length + d.length) → I (cb u s d).1)
  {t : ConnectionTuple} {seq : UInt32} {bytes acc : Bytes}

include hcb hkept hfull

omit hcb in
/-- One segment at the frontier: it finds room, or the callback runs full. -/
theorem onSegment_ready_or_full (clk : Clock) (m : Mbuf) (hready : Ready t seq a.sess)
    (hP : P a.user a.sess.rxFeed acc) (hroom : room acc.length) {p : ParsedPacket}
    (hseq : p.seq = seq) (hrst : p.hasFlag kTcpRst = false) (hfin : p.hasFlag kTcpFin = false)
    (htotal : acc.length + p.payload.length ≤ total) :
    I (a.onSegment cb clk m p).1.user ∨ room (acc.length + p.payload.length) := by
  by_cases hfits : room (acc.length + p.payload.length)
  · exact .inr hfits
  left
  have hpay : p.payload.length > 0 := by
    refine Nat.pos_of_ne_zero fun hzero => hfits ?_
    rw [hzero]
    exact hroom
  have hb := hready.of_same (prologue_same a.sess clk p (by simp [hready.state]))
  rw [onSegment_inOrder cb clk a m hrst (by rw [hb.state]; rfl) (by simp [hb.rcvNxt, hseq]),
    onFin_of_not_fin _ clk hfin]
  rw [← prologue_rxFeed a.sess clk p] at hP
  simp only [onInOrder, hpay, if_true]
  exact drainReorderBuf_keeps (J := fun a => I a.user) (fun _ _ => hkept _ _ _)
    (fun _ _ _ => id) _ _ (hfull _ _ _ _ hP htotal hfits)

/-- A burst of consecutive segments: all of it is handed over, or the callback runs full. -/
theorem onBurst_ready_or_full (clk : Clock) (hready : Ready t seq a.sess)
    (hP : P a.user a.sess.rxFeed acc) (hroom : room acc.length)
    (hcarried : carried t seq pkts = some bytes) (htotal : acc.length + bytes.length ≤ total) :
    I (a.onBurst cb clk pkts).1.user ∨
      ((a.onBurst cb clk pkts).2 = none ∧
        Ready t (seq + UInt32.ofNat bytes.length) (a.onBurst cb clk pkts).1.sess ∧
        P (a.onBurst cb clk pkts).1.user (a.onBurst cb clk pkts).1.sess.rxFeed (acc ++ bytes)) := by
  induction pkts generalizing a seq bytes acc with
  | nil =>
    cases hcarried
    right
    simpa [onBurst] using ⟨hready, hP⟩
  | cons m rest ih =>
    obtain ⟨p, tail, hp, hseq, hrst, hfin, htail, rfl⟩ := carried_cons hcarried
    rw [length_append] at htotal
    have hmatch : a.sess.matching m = some p := by
      rw [matching, hready.tuple]
      exact hp
    have hpkt : a.onPacket cb clk m = onSegment cb clk a m p := by
      simp only [onPacket, hmatch]
    rcases onSegment_ready_or_full hkept hfull clk m hready hP hroom hseq hrst hfin (by omega) with
      hI | hfits
    · left
      rw [onBurst, hpkt]
      split
      · rename_i hm
        rw [hm] at hI
        exact onBurst_user hkept clk rest _ hI
      · rename_i hm
        rw [hm] at hI
        exact hI
    · obtain ⟨hnone, hready', hP'⟩ :=
        onSegment_ready hcb clk m hready hP hseq hrst hfin hfits
      have hpkt' : a.onPacket cb clk m = ((onSegment cb clk a m p).1, none) := by
        rw [hpkt, ← hnone]
      rw [onBurst, hpkt']
      rw [length_append, UInt32.ofNat_add, ← UInt32.add_assoc, ← append_assoc]
      refine ih hready' hP' (by rw [length_append]; exact hfits) htail ?_
      rw [length_append]
      omega

/-- **`process_rx` on consecutive segments**, with a callback that can run full. -/
theorem processRx_ready_or_full (clk : Clock) (user : σ) (acc : Bytes) (hready : Ready t seq s)
    (hP : P user s.rxFeed acc) (hroom : room acc.length)
    (hcarried : carried t seq pkts = some bytes) (htotal : acc.length + bytes.length ≤ total) :
    I (s.processRx cb clk user pkts).user ∨
      ((∃ n, (s.processRx cb clk user pkts).result = .ok n) ∧
        Ready t (seq + UInt32.ofNat bytes.length) (s.processRx cb clk user pkts).sess ∧
        P (s.processRx cb clk user pkts).user (s.processRx cb clk user pkts).sess.rxFeed
          (acc ++ bytes)) := by
  have hburst := onBurst_ready_or_full hcb hkept hfull clk (a := .start user s)
    hready hP hroom hcarried htotal
  unfold processRx
  generalize onBurst cb clk (.start user s) pkts = r at hburst
  obtain ⟨a, err⟩ := r
  rcases hburst with hI | ⟨hnone, hready', hP'⟩
  · left
    cases err with
    | none | some e => exact hI
  right
  obtain rfl : err = none := hnone
  refine ⟨⟨a.dataCount, rfl⟩, ?_⟩
  dsimp only
  split
  · exact ⟨hready'.of_same ⟨rfl, rfl, rfl, rfl⟩, hP'⟩
  · exact ⟨hready', hP'⟩

/-- **`poll_rx` of a session with nothing in its feed**, with a callback that can run
full. -/
theorem pollRx_ready_or_full (clk : Clock) {host : Host} (user : σ) (acc : Bytes)
    (hready : Ready t seq s) (hfeed : s.rxFeed = []) (hP : P user [] acc) (hroom : room acc.length)
    {rest : Bytes} (hrest : carried t seq host.rx.flatten = some rest)
    (htotal : acc.length + rest.length ≤ total) (hquiet : ∀ u f d, P u f d → f = []) :
    I (s.pollRx host clk cb user).user ∨
      ∃ got, (∃ n, (s.pollRx host clk cb user).result = .ok n) ∧
        Took t seq host (s.pollRx host clk cb user).sess (s.pollRx host clk cb user).host got ∧
        P (s.pollRx host clk cb user).user [] (acc ++ got) ∧
        (s.pollRx host clk cb user).sess.rxFeed = [] := by
  have hempty : (!s.rxFeed.isEmpty) = false := by rw [hfeed]; rfl
  have hidle : ∀ h : Host, h.rx.flatten = host.rx.flatten →
      Took t seq host (s.flushPendingAck h clk).1 (s.flushPendingAck h clk).2 [] ∧
        (s.flushPendingAck h clk).1.rxFeed = [] := by
    intro h hrx
    obtain ⟨hsame, hrx'⟩ := s.flushPendingAck_same h clk
    exact ⟨(Took.nothing hready hrx).of_same hsame.toSameReceive hrx', hsame.rxFeed.trans hfeed⟩
  by_cases honly : s.feedOnly = true
  · refine .inr ⟨[], ?_⟩
    simp only [pollRx, hempty, honly, Bool.false_eq_true, if_false, if_true]
    exact ⟨⟨0, rfl⟩, (hidle host rfl).1, by simpa using hP, (hidle host rfl).2⟩
  have hflat := rxBurst_flatten host s.burstLimit
  simp only [pollRx, hempty, honly, Bool.false_eq_true, if_false]
  generalize host.rxBurst s.burstLimit = burst at hflat
  obtain ⟨pkts, host'⟩ := burst
  cases pkts with
  | nil =>
    have hrx : host'.rx.flatten = host.rx.flatten := by simpa using hflat.symm
    exact .inr ⟨[], ⟨0, rfl⟩, (hidle host' hrx).1, by simpa using hP, (hidle host' hrx).2⟩
  | cons m pkts =>
    rw [hflat] at hrest
    obtain ⟨got, back, hgot, -, rfl⟩ := carried_append hrest
    rw [length_append] at htotal
    have hfeed' : (s.noteBurst clk).rxFeed = [] := hfeed
    rcases processRx_ready_or_full hcb hkept hfull clk (s := s.noteBurst clk) user acc
      (hready.of_same ⟨rfl, rfl, rfl, rfl⟩) (by rw [hfeed']; exact hP) hroom hgot
      (by omega) with hI | ⟨hok, hready', hP'⟩
    · exact .inl hI
    · have hnone := hquiet _ _ _ hP'
      rw [hnone] at hP'
      exact .inr ⟨got, hok, ⟨⟨m :: pkts, hflat, hgot⟩, hready'⟩, hP', hnone⟩

end Full

/-! ## A callback with room for everything -/

section Poll

variable {cb : DataCallback slots σ} {room : Nat → Prop} {Q : σ → Bytes → Prop}
  {t : ConnectionTuple} {seq : UInt32} {rest : Bytes}

/-- The pieces of the feed, one after the other. -/
theorem foldl_ready (f₀ : Bytes) (hcb : Absorbs cb room fun u f d => Q u d ∧ f = f₀)
    (pieces : List Bytes) (user : σ) {acc : Bytes} (hready : Ready t seq s) (hfeed : s.rxFeed = f₀)
    (hQ : Q user acc) (hroom : ∀ n ≤ acc.length + pieces.flatten.length, room n) :
    Ready t seq (pieces.foldl (fun a piece => cb a.1 a.2 piece) (user, s)).2 ∧
      Q (pieces.foldl (fun a piece => cb a.1 a.2 piece) (user, s)).1 (acc ++ pieces.flatten) := by
  induction pieces generalizing user s acc with
  | nil => exact ⟨hready, by simpa using hQ⟩
  | cons piece pieces ih =>
    rw [flatten_cons, length_append] at hroom
    have hfits := hroom (acc.length + piece.length) (by omega)
    obtain ⟨hQ', hfeed'⟩ := hcb.step user s piece acc ⟨hQ, hfeed⟩ hfits
    have hready' := hready.of_same (hcb.same user s piece acc ⟨hQ, hfeed⟩ hfits)
    rw [foldl_cons, flatten_cons, ← append_assoc]
    refine ih _ hready' hfeed' hQ' fun n hn => hroom n ?_
    rw [length_append] at hn
    omega

/-- **`poll_rx` of a session that waits for the next byte.**  The callback is handed
the fed payload and the bytes of the packets that are taken from the queue, and the
feed is empty afterwards. -/
theorem pollRx_ready (hcb : ∀ f₀, Absorbs cb room fun u f d => Q u d ∧ f = f₀) (clk : Clock)
    {host : Host} (user : σ) (acc : Bytes) (hready : Ready t seq s) (hQ : Q user acc)
    (hrest : carried t seq host.rx.flatten = some rest)
    (hroom : ∀ n ≤ acc.length + s.rxFeed.length + rest.length, room n) :
    ∃ got, (∃ n, (s.pollRx host clk cb user).result = .ok n) ∧
      Took t seq host (s.pollRx host clk cb user).sess (s.pollRx host clk cb user).host got ∧
      Q (s.pollRx host clk cb user).user (acc ++ (s.rxFeed ++ got)) ∧
      (s.pollRx host clk cb user).sess.rxFeed = [] := by
  by_cases hfeed : s.rxFeed = []
  · rw [hfeed, length_nil, Nat.add_zero] at hroom
    rcases pollRx_ready_or_full (I := fun _ => False) (hcb []) (fun _ _ _ => id)
      (fun _ _ _ _ _ hle hnot => hnot (hroom _ hle)) clk user acc hready hfeed ⟨hQ, rfl⟩
      (hroom _ (by omega)) hrest (Nat.le_refl _) (fun _ _ _ h => h.2) with
      hno | ⟨got, hok, htook, ⟨hQ', -⟩, hfeed'⟩
    · exact hno.elim
    · refine ⟨got, hok, htook, ?_, hfeed'⟩
      rw [hfeed, nil_append]
      exact hQ'
  · have hempty : (!s.rxFeed.isEmpty) = true := by simpa using hfeed
    have hpieces := flatten_chunks (n := 0xFFFF) (by decide) s.rxFeed.length s.rxFeed
      (Nat.le_refl _)
    obtain ⟨hready', hQ'⟩ := foldl_ready s.rxFeed (hcb s.rxFeed)
      (chunks 0xFFFF s.rxFeed.length s.rxFeed) user hready rfl hQ
      (by rw [hpieces]; exact fun n hn => hroom n (by omega))
    rw [hpieces] at hQ'
    rw [pollRx, if_pos hempty, deliverFeed]
    refine ⟨[], ⟨_, rfl⟩, Took.nothing (hready'.of_same ⟨rfl, rfl, rfl, rfl⟩) rfl, ?_, rfl⟩
    rw [append_nil]
    exact hQ'

end Poll

end Eph.Dpdk
