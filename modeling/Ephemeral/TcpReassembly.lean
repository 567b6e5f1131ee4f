import Ephemeral.TcpSession

/-!
# The receive path refines stream reassembly

Seen from the first sequence number of the peer's stream, the frontier and the
reorder buffer of a session are the state of the abstract receiver of
`Reassembly`: sequence numbers become offsets, buffered segments become slices.
As long as every segment is a slice of one stream of fewer than `2 ^ 31` bytes,
the serial comparisons decide what the offsets say, and the receive path takes
the same step as the abstract receiver (`onOutOfOrder_simulates`,
`onInOrder_simulates`), handing the callback the contents of the slices it
delivers.
-/

namespace Eph.Dpdk

open ByteOrder Core List Reassembly TcpSession

variable {slots : Nat} {σ : Type} {a : RxAcc slots (List Bytes)}

/-- The callback of a caller that records the payloads it is handed. -/
def collect : DataCallback slots (List Bytes) :=
  fun out s payload => (out ++ [payload], s)

/-- A segment as a slice of the stream that starts at `base`. -/
def toSeg (base seq : UInt32) (payload : Bytes) : Seg :=
  ⟨Serial.offset base seq, payload.length⟩

/-- The abstract receiver that a session implements. -/
def TcpSession.receiver (s : TcpSession slots) (base : UInt32) : State :=
  ⟨Serial.offset base s.rcvNxt, s.reorderBuf.entries.map fun e => toSeg base e.seq e.data⟩

/-- The bytes at `seq` are a non-empty slice of the stream `stream`. -/
structure IsSlice (stream : Bytes) (base seq : UInt32) (payload : Bytes) : Prop where
  pos : 0 < payload.length
  stop_le : (toSeg base seq payload).stop ≤ stream.length
  content : (toSeg base seq payload).content stream = payload

/-- The receive side of a session holds nothing but slices of the stream. -/
structure OnStream (stream : Bytes) (base : UInt32) (s : TcpSession slots) : Prop where
  next_le : (s.receiver base).next ≤ stream.length
  entries : ∀ e ∈ s.reorderBuf.entries, IsSlice stream base e.seq e.data

/-- `s'` differs from `s` only in its frontier, reorder buffer and counters. -/
def ReceiveOnly (s s' : TcpSession slots) : Prop :=
  s' = { s with rcvNxt := s'.rcvNxt, reorderBuf := s'.reorderBuf, stats := s'.stats }

theorem ReceiveOnly.trans {s s' s'' : TcpSession slots} (h : ReceiveOnly s s')
    (h' : ReceiveOnly s' s'') : ReceiveOnly s s'' := by
  unfold ReceiveOnly at *
  rw [h', h]

theorem ReceiveOnly.state {s s' : TcpSession slots} (h : ReceiveOnly s s') :
    s'.state = s.state := by
  rw [h]

theorem ReceiveOnly.config {s s' : TcpSession slots} (h : ReceiveOnly s s') :
    s'.config = s.config := by
  rw [h]

@[simp] theorem deliver_collect_user (a : RxAcc slots (List Bytes)) (payload : Bytes) :
    (a.deliver collect payload).user = a.user ++ [payload] := rfl

theorem deliver_collect_sess (a : RxAcc slots (List Bytes)) (payload : Bytes) :
    (a.deliver collect payload).sess = { a.sess with
      rcvNxt := a.sess.rcvNxt + UInt32.ofNat payload.length
      stats := { a.sess.stats with rxBytes := a.sess.stats.rxBytes + payload.length } } := rfl

/-- Looking for a buffered segment at the frontier is looking for a held slice
there. -/
theorem findIdx?_receiver (s : TcpSession slots) (base : UInt32) :
    (s.receiver base).held.findIdx? (·.off == (s.receiver base).next) =
      s.reorderBuf.entries.findIdx? (·.seq == s.rcvNxt) := by
  rw [receiver, findIdx?_map]
  congr 1
  funext e
  simp only [Function.comp, toSeg]
  rw [Bool.eq_iff_iff, beq_iff_eq, beq_iff_eq, Serial.offset_inj]

/-- The step from `a` to `a'` is the abstract step to `st'` that delivers `out`. -/
structure Simulates (stream : Bytes) (base : UInt32) (a a' : RxAcc slots (List Bytes))
    (st' : State) (out : List Seg) : Prop where
  receiver : a'.sess.receiver base = st'
  user : a'.user = a.user ++ out.map (Seg.content stream)
  onStream : OnStream stream base a'.sess
  control : ReceiveOnly a.sess a'.sess

section Simulation

variable {stream : Bytes} {base : UInt32}

theorem Simulates.trans {a a' a'' : RxAcc slots (List Bytes)} {st' st'' : State}
    {out out' : List Seg} (h : Simulates stream base a a' st' out)
    (h' : Simulates stream base a' a'' st'' out') :
    Simulates stream base a a'' st'' (out ++ out') :=
  ⟨h'.receiver, by rw [h'.user, h.user, map_append, append_assoc], h'.onStream,
    h.control.trans h'.control⟩

/-- Delivering a slice that starts at the frontier moves the frontier to its end. -/
theorem deliver_simulates (hstream : stream.length < 2 ^ 31) (h : OnStream stream base a.sess)
    {seq : UInt32} {payload : Bytes} (hslice : IsSlice stream base seq payload)
    (hseq : seq = a.sess.rcvNxt) :
    Simulates stream base a (a.deliver collect payload)
      { a.sess.receiver base with next := (toSeg base seq payload).stop }
      [toSeg base seq payload] := by
  have hstop := hslice.stop_le
  have hnext : Serial.offset base (a.sess.rcvNxt + UInt32.ofNat payload.length) =
      (toSeg base seq payload).stop := by
    subst hseq
    exact Serial.offset_add base _ (by unfold toSeg Seg.stop at hstop; dsimp only at hstop; omega)
  refine ⟨?_, ?_, ⟨?_, h.entries⟩, rfl⟩
  · rw [receiver, deliver_collect_sess]
    rw [hnext]
    rfl
  · rw [deliver_collect_user, map_singleton, hslice.content]
  · rw [receiver, deliver_collect_sess]
    rw [hnext]
    exact hstop

/-- Freeing a slot is swap-removal of the slice it holds. -/
theorem swapRemove_simulates (h : OnStream stream base a.sess) {i : Nat} {e : ReorderEntry}
    (hi : a.sess.reorderBuf.entries[i]? = some e) (outside : Bool) :
    Simulates stream base a
      { a with
        sess := { a.sess with reorderBuf := a.sess.reorderBuf.swapRemove i }
        outside := outside }
      { a.sess.receiver base with held := swapRemove (a.sess.receiver base).held i } [] := by
  refine ⟨?_, by simp, ⟨h.next_le, ?_⟩, rfl⟩
  · simp only [receiver, ReorderBuf.swapRemove, map_swapRemove]
  · intro e' he'
    exact h.entries e' ((perm_swapRemove hi).mem_iff.mpr (mem_cons_of_mem e he'))

section

variable (hstream : stream.length < 2 ^ 31)

include hstream

/-- **The drain loop simulates the abstract drain.** -/
theorem drainReorderBuf_simulates (fuel : Nat)
    (a : RxAcc slots (List Bytes)) (h : OnStream stream base a.sess) :
    Simulates stream base a (a.drainReorderBuf collect fuel)
      (drain fuel (a.sess.receiver base)).1 (drain fuel (a.sess.receiver base)).2 := by
  induction fuel generalizing a with
  | zero => exact ⟨rfl, by simp [RxAcc.drainReorderBuf, drain], h, rfl⟩
  | succ fuel ih =>
    unfold drain RxAcc.drainReorderBuf takeFirst
    rw [findIdx?_receiver]
    cases hidx : a.sess.reorderBuf.entries.findIdx? (·.seq == a.sess.rcvNxt) with
    | none => exact ⟨rfl, by simp, h, rfl⟩
    | some i =>
      obtain ⟨hlt, hseq, -⟩ := findIdx?_eq_some_iff_getElem.mp hidx
      have hget := getElem?_eq_getElem hlt
      have hheld : (a.sess.receiver base).held[i]? =
          some (toSeg base (a.sess.reorderBuf.entries[i]).seq
            (a.sess.reorderBuf.entries[i]).data) := by
        simp only [receiver, getElem?_map, hget, Option.map_some]
      have hmem := getElem_mem hlt
      generalize a.sess.reorderBuf.entries[i] = e at hseq hget hheld hmem
      have hseq' : e.seq = a.sess.rcvNxt := by simpa using hseq
      have hnext : (a.sess.receiver base).next + (toSeg base e.seq e.data).len =
          (toSeg base e.seq e.data).stop := by
        rw [Seg.stop, toSeg, hseq']
        rfl
      have hdel := deliver_simulates hstream h (h.entries e hmem) hseq'
      have hrem := swapRemove_simulates hdel.onStream (i := i) (e := e) hget
        (a.outside || a.sess.reorderBuf.entries.isEmpty)
      have hrec := hrem.receiver
      rw [hdel.receiver] at hrec
      simp only [hget, hheld, hnext]
      have hrest := ih _ hrem.onStream
      rw [hrec] at hrest
      exact (hdel.trans hrem).trans hrest

section

variable (h : OnStream stream base a.sess) {p : ParsedPacket}
  (hslice : IsSlice stream base p.seq p.payload)

include h hslice

/-- **In-order data simulates an arrival at the frontier.** -/
theorem onInOrder_simulates (hseq : p.seq = a.sess.rcvNxt) :
    ∃ st' out, arrive slots kDefaultMss (a.sess.receiver base) (toSeg base p.seq p.payload) =
        some (st', out) ∧ Simulates stream base a (a.onInOrder collect p) st' out := by
  have hoff : (toSeg base p.seq p.payload).off = (a.sess.receiver base).next := by
    rw [toSeg, receiver, hseq]
  have hdel := deliver_simulates hstream h hslice hseq
  have hdrain := drainReorderBuf_simulates hstream a.sess.reorderBuf.entries.length
    { a.deliver collect p.payload with needAck := true } hdel.onStream
  have hrec : (a.sess.receiver base).held.length = a.sess.reorderBuf.entries.length := by
    rw [receiver, length_map]
  have hstart : { a.sess.receiver base with
      next := (a.sess.receiver base).next + (toSeg base p.seq p.payload).len } =
      (a.deliver collect p.payload).sess.receiver base := by
    rw [hdel.receiver, ← hoff]
    rfl
  refine ⟨_, _, by rw [arrive, if_pos hoff, hrec, hstart], ?_⟩
  rw [RxAcc.onInOrder, if_pos hslice.pos]
  have hack : Simulates stream base a { a.deliver collect p.payload with needAck := true } _ _ :=
    { hdel with }
  exact hack.trans hdrain

/-- **Out-of-order data simulates an arrival off the frontier**; the overflow of
the buffer is the overflow of the abstract receiver and changes neither. -/
theorem onOutOfOrder_simulates (hseq : p.seq ≠ a.sess.rcvNxt) :
    (∃ st', arrive slots kDefaultMss (a.sess.receiver base) (toSeg base p.seq p.payload) =
        some (st', []) ∧ (a.sess.onOutOfOrder p).2 = none ∧
        Simulates stream base a { a with sess := (a.sess.onOutOfOrder p).1 } st' []) ∨
    (arrive slots kDefaultMss (a.sess.receiver base) (toSeg base p.seq p.payload) = none ∧
        (a.sess.onOutOfOrder p).2 = some reorderOverflowError ∧
        Simulates stream base a { a with sess := (a.sess.onOutOfOrder p).1 }
          (a.sess.receiver base) []) := by
  have hstop := hslice.stop_le
  have hnext := h.next_le
  have hoff : (toSeg base p.seq p.payload).off ≠ (a.sess.receiver base).next := by
    rw [toSeg, receiver, ne_eq, Serial.offset_inj]
    exact hseq
  have hafter : seqAfter p.seq a.sess.rcvNxt = true ↔
      (a.sess.receiver base).next < (toSeg base p.seq p.payload).off := by
    apply Serial.after_iff_offset
    · unfold toSeg Seg.stop at hstop
      dsimp only at hstop
      omega
    · unfold receiver at hnext
      dsimp only at hnext
      omega
  have hcount : (a.sess.receiver base).held.length = a.sess.reorderBuf.entries.length := by
    rw [receiver, length_map]
  have hlen : (toSeg base p.seq p.payload).len = p.payload.length := rfl
  rw [arrive, if_neg hoff, hcount, hlen]
  rcases onOutOfOrder_cases a.sess p with ⟨st, heq, hdrop⟩ | ⟨st, hle, hslot, heq, hahead⟩ |
    ⟨st, heq, hle, hahead, hfull⟩
  · refine .inl ⟨a.sess.receiver base, ?_, by rw [heq], ?_⟩
    · rcases hdrop with hbig | hbehind
      · rw [if_neg (Nat.not_le_of_lt hbig)]
        split <;> rfl
      · rw [if_neg (by rw [← hafter, hbehind]; simp)]
    · rw [heq]
      exact ⟨rfl, by simp, ⟨h.next_le, h.entries⟩, rfl⟩
  · refine .inl ⟨_, by rw [if_pos (hafter.mp hahead), if_pos hle, if_pos hslot], by rw [heq], ?_⟩
    rw [heq]
    refine ⟨?_, by simp, ⟨h.next_le, ?_⟩, rfl⟩
    · simp only [receiver, ReorderBuf.push, map_append, map_singleton]
    · exact forall_mem_append.mpr ⟨h.entries, forall_mem_singleton.mpr hslice⟩
  · refine .inr ⟨?_, by rw [heq], ?_⟩
    · rw [if_pos (hafter.mp hahead), if_pos hle, if_neg (Nat.not_lt_of_le hfull)]
    · rw [heq]
      exact ⟨rfl, by simp, ⟨h.next_le, h.entries⟩, rfl⟩

end

end

end Simulation

end Eph.Dpdk
