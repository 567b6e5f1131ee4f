import Mathlib.Data.List.Induction
import Mathlib.Data.List.TakeDrop
import Ephemeral.BoundedQueue

/-!
# The bounded queue is a queue in every interleaving

The indices in memory wrap, the cached indices are stale and the threads stand
anywhere inside their calls.  The invariant `Inv` names the unbounded positions
behind the four indices: `released` for `head_`, `seenHead` and `seenTail` for
the cached copies, and the number of values produced for `tail_`.  They satisfy

  `seenHead ≤ released ≤ seenTail ≤ produced ≤ seenHead + capacity`,

so no two of them are ever a full period apart and every wrapped difference
the code computes is the true one.  What each thread's local variables are
worth is said once for each place the thread can stand at
(`ProducerPc.At`, `ConsumerPc.At`).

Every step of either thread keeps `Inv`, hence so does every run.  The queue's
contract is read off from it: what was consumed is a prefix of what was
produced, the slot about to be written holds nothing that is still wanted, and
between calls the ring holds exactly the values produced and not consumed.

A drain asks for a full ring of values, but goes by the cached tail unless that shows an
empty queue: it finds every value exactly if the cached tail is `head_` or `tail_`
(`try_consume_all_iff`).
-/

namespace Eph.Containers

open List Ring UInt64 Function

universe u

variable {α : Type u} {c : Capacity}

/-! ## What the tests mean for the positions behind the indices -/

/-- The producer's test on positions: with no more than a full ring between the two positions,
the call goes on exactly if its values fit. -/
theorem ProducerOp.lacksRoom_eq_false_iff (op : ProducerOp α) {tail head : ℕ} (hle : head ≤ tail)
    (hfull : tail ≤ head + c.size) :
    op.lacksRoom c (UInt64.ofNat tail) (UInt64.ofNat head) = false ↔
      tail + op.count.toNat ≤ head + c.size := by
  have hlt := c.size_lt
  have hsub : (UInt64.ofNat tail - UInt64.ofNat head).toNat = tail - head :=
    toNat_ofNat_sub hle (by omega)
  have hroom : (c.value - (UInt64.ofNat tail - UInt64.ofNat head)).toNat =
      c.size - (tail - head) := by
    rw [UInt64.toNat_sub_of_le, hsub]
    · rfl
    rw [le_iff_toNat_le, hsub]
    change tail - head ≤ c.size
    omega
  have hsize : c.value.toNat = c.size := rfl
  cases op with
  | tryProduce writerFunc =>
    simp only [lacksRoom, count, decide_eq_false_iff_not, le_iff_toNat_le, hsub, hsize, toNat_one]
    omega
  | tryPushN data | tryProduceN n writer =>
    simp only [lacksRoom, count, decide_eq_false_iff_not, lt_iff_toNat_lt, hroom]
    omega

/-- Two wrapped positions less than a period apart are equal exactly if the positions are. -/
theorem ofNat_eq_iff {head tail : ℕ} (hle : head ≤ tail) (hnear : tail - head < 2 ^ 64) :
    UInt64.ofNat tail = UInt64.ofNat head ↔ tail = head := by
  rw [← UInt64.zero_add (UInt64.ofNat head), ← UInt64.sub_eq_iff_eq_add, ← UInt64.toNat_inj,
    toNat_ofNat_sub hle hnear, UInt64.toNat_zero]
  omega

/-- The consumer's test on positions: every form of it compares the two positions. -/
theorem ConsumerOp.seesNone_eq_false_iff (op : ConsumerOp) {head tail : ℕ} (hle : head ≤ tail)
    (hnear : tail - head < 2 ^ 64) :
    op.seesNone (UInt64.ofNat head) (UInt64.ofNat tail) = false ↔ head < tail := by
  have heq := ofNat_eq_iff hle hnear
  have hzero : UInt64.ofNat tail - UInt64.ofNat head = 0 ↔ tail = head := by
    rw [UInt64.sub_eq_iff_eq_add, UInt64.zero_add, heq]
  cases op with
  | tryConsume | tryPeek => simp only [seesNone, beq_eq_false_iff_ne, ne_eq, heq]; omega
  | tryPopN size | tryConsumeN n => simp only [seesNone, beq_eq_false_iff_ne, ne_eq, hzero]; omega

/-- A call visits something when something is there, and no more than that. -/
theorem ConsumerOp.count_bounds (op : ConsumerOp) {available : UInt64} (hlimit : op.limit ≠ 0)
    (havailable : 0 < available.toNat) :
    0 < (op.count available).toNat ∧ (op.count available).toNat ≤ available.toNat := by
  cases op with
  | tryConsume | tryPeek => exact ⟨Nat.one_pos, havailable⟩
  | tryPopN n | tryConsumeN n =>
    have hn : 0 < n.toNat := toNat_pos hlimit
    simp only [count, lt_iff_toNat_lt]
    split <;> omega

variable {op : ConsumerOp}

/-! ## The invariant -/

/-- What the producer's local variables are worth, wherever it stands. -/
def ProducerPc.At (c : Capacity) (produced staged : List α) (seenHead : ℕ) :
    ProducerPc α → Prop
  | .idle _ => staged = []
  | .loadHead op tail =>
    staged = [] ∧ tail = UInt64.ofNat produced.length ∧ 0 < op.count.toNat
  | .copy op tail i =>
    staged.length = i.toNat ∧ tail = UInt64.ofNat produced.length ∧ i.toNat < op.count.toNat ∧
      produced.length + op.count.toNat ≤ seenHead + c.size
  | .publish op tail =>
    staged.length = op.count.toNat ∧ tail = UInt64.ofNat produced.length

/-- What the consumer's local variables are worth, wherever it stands: in particular how far the
values consumed have got beyond those released. -/
def ConsumerPc.At (produced consumed : List α) (released seenTail : ℕ) : ConsumerPc → Prop
  | .idle _ => consumed = produced.take released
  | .loadTail op head =>
    consumed = produced.take released ∧ head = UInt64.ofNat released ∧ op.limit ≠ 0
  | .copy op head n i =>
    consumed = produced.take (released + i.toNat) ∧ head = UInt64.ofNat released ∧
      i.toNat < n.toNat ∧ released + n.toNat ≤ seenTail ∧ (op.advances = false → i = 0)
  | .advance _ head n =>
    consumed = produced.take (released + n.toNat) ∧ head = UInt64.ofNat released ∧
      released + n.toNat ≤ seenTail

/-- Producing more does not disturb a consumer, which has taken only what was there. -/
theorem ConsumerPc.At.append {produced consumed : List α} {released seenTail : ℕ}
    {pc : ConsumerPc} (h : pc.At produced consumed released seenTail) (hle : released ≤ seenTail)
    (hseen : seenTail ≤ produced.length) (more : List α) :
    pc.At (produced ++ more) consumed released seenTail := by
  have htake : ∀ k, k ≤ seenTail → (produced ++ more).take k = produced.take k := by
    intro k hk
    exact take_append_of_le_length (hk.trans hseen)
  cases pc with
  | idle returned => exact h.trans (htake _ hle).symm
  | loadTail op head => exact ⟨h.1.trans (htake _ hle).symm, h.2⟩
  | copy op head n i =>
    obtain ⟨hconsumed, hhead, hi, hn, hpeek⟩ := h
    exact ⟨hconsumed.trans (htake _ (by omega)).symm, hhead, hi, hn, hpeek⟩
  | advance op head n =>
    obtain ⟨hconsumed, hhead, hn⟩ := h
    exact ⟨hconsumed.trans (htake _ hn).symm, hhead, hn⟩

/-- The invariant of the two threads, with the positions behind the indices. -/
structure Inv (m : Machine α c) (released seenHead seenTail : ℕ) : Prop where
  tail_eq : m.queue.tail = UInt64.ofNat m.produced.length
  head_eq : m.queue.head = UInt64.ofNat released
  shadowHead_eq : m.queue.shadowHead = UInt64.ofNat seenHead
  shadowTail_eq : m.queue.shadowTail = UInt64.ofNat seenTail
  seenHead_le : seenHead ≤ released
  released_le : released ≤ seenTail
  seenTail_le : seenTail ≤ m.produced.length
  room : m.produced.length + m.staged.length ≤ seenHead + c.size
  ring : window m.queue.buffer released (m.produced.length + m.staged.length - released) =
    (m.produced ++ m.staged).drop released
  producer : m.producer.At c m.produced m.staged seenHead
  consumer : m.consumer.At m.produced m.consumed released seenTail
  peeks : ∀ peek ∈ m.peeked, m.produced[peek.1]? = some peek.2

namespace Inv

variable {m : Machine α c} {released seenHead seenTail : ℕ}

section

variable (h : Inv m released seenHead seenTail)

include h

/-- The cached tail is less than a period ahead of the head, -/
theorem seenTail_near : seenTail - released < 2 ^ 64 := by
  have hroom := h.room
  have hseen := h.seenTail_le
  have hle := h.seenHead_le
  have hsize := c.size_lt
  omega

/-- and so is the tail itself. -/
theorem produced_near : m.produced.length - released < 2 ^ 64 := by
  have hroom := h.room
  have hle := h.seenHead_le
  have hsize := c.size_lt
  omega

end

end Inv

/-! ## Steps of the producer -/

variable {released seenHead seenTail : ℕ} {m : Machine α c}

theorem inv_beginProduce (h : Inv m released seenHead seenTail) {returned : Option Bool}
    (hpc : m.producer = .idle returned) : Inv (beginProduce m) released seenHead seenTail := by
  have hstaged : m.staged = [] := by
    have hat := h.producer
    rwa [hpc] at hat
  unfold beginProduce
  split
  · exact h
  case _ op rest hcalls =>
    split
    · exact { h with producer := hstaged }
    case isFalse hcount =>
      have hpos := toNat_pos hcount
      split
      · exact { h with producer := ⟨hstaged, h.tail_eq, hpos⟩ }
      case isFalse hroom =>
        rw [h.tail_eq, h.shadowHead_eq, Bool.not_eq_true,
          op.lacksRoom_eq_false_iff (h.seenHead_le.trans (h.released_le.trans h.seenTail_le))
            ((Nat.le_add_right _ _).trans h.room)] at hroom
        exact { h with producer := ⟨by rw [hstaged]; rfl, h.tail_eq, hpos, hroom⟩ }

section

variable (h : Inv m released seenHead seenTail) {op : ProducerOp α}

include h

theorem inv_loadHead {tail : UInt64} (hpc : m.producer = .loadHead op tail) :
    Inv (loadHead m op tail) released released seenTail := by
  have hat := h.producer
  rw [hpc] at hat
  obtain ⟨hstaged, htail, hpos⟩ := hat
  have hseen := h.seenHead_le
  have hroom := h.room
  refine { h with
    shadowHead_eq := h.head_eq
    seenHead_le := le_rfl
    room := by change m.produced.length + m.staged.length ≤ released + c.size; omega
    producer := ?_ }
  simp only [loadHead]
  split
  · exact hstaged
  case isFalse hfits =>
    rw [htail, h.head_eq, Bool.not_eq_true,
      op.lacksRoom_eq_false_iff (h.released_le.trans h.seenTail_le) (by omega)] at hfits
    exact ⟨by rw [hstaged]; rfl, htail, hpos, hfits⟩

/-- The slot written is the one right after the values that are still wanted. -/
theorem inv_writeSlot {tail i : UInt64} (hpc : m.producer = .copy op tail i) :
    Inv (writeSlot m op tail i) released seenHead seenTail := by
  have hat := h.producer
  rw [hpc] at hat
  obtain ⟨hstaged, htail, hi, hfits⟩ := hat
  have hseen := h.seenHead_le
  have hreleased := h.released_le.trans h.seenTail_le
  obtain ⟨count, hcount⟩ : ∃ count, m.produced.length + m.staged.length = released + count :=
    ⟨m.produced.length + m.staged.length - released, by omega⟩
  have hslot : c.slot (tail + i) = Fin.ofNat c.size (released + count) := by
    rw [← hcount, ← c.slot_ofNat, htail, UInt64.ofNat_add, hstaged, UInt64.ofNat_toNat]
  have hnext := toNat_succ hi
  have hring := h.ring
  rw [hcount, Nat.add_sub_cancel_left] at hring
  refine { h with room := ?_, ring := ?_, producer := ?_ }
  · simp only [writeSlot, length_append, length_singleton]
    omega
  · have hlength : m.produced.length + (m.staged.length + 1) - released = count + 1 := by omega
    simp only [writeSlot, length_append, length_singleton, hlength, hslot]
    rw [window_push _ _ (by omega), hring, ← append_assoc]
    exact (drop_append_of_le_length (by rw [length_append]; omega)).symm
  · simp only [writeSlot, lt_iff_toNat_lt, hnext]
    split
    case isTrue hmore =>
      exact ⟨by simp only [length_append, length_singleton]; omega, htail, by omega, hfits⟩
    case isFalse hdone =>
      exact ⟨by simp only [length_append, length_singleton]; omega, htail⟩

theorem inv_publish {tail : UInt64} (hpc : m.producer = .publish op tail) :
    Inv (publish m op tail) released seenHead seenTail := by
  obtain ⟨hstaged, htail⟩ : m.staged.length = op.count.toNat ∧
      tail = UInt64.ofNat m.produced.length := by
    have hat := h.producer
    rwa [hpc] at hat
  have hroom := h.room
  have hseen := h.seenTail_le
  refine { h with
    tail_eq := ?_, seenTail_le := ?_, room := ?_, ring := ?_, producer := rfl, consumer := ?_,
    peeks := ?_ }
  · simp only [publish, length_append, UInt64.ofNat_add, hstaged, UInt64.ofNat_toNat, htail]
  · simp only [publish, length_append]
    omega
  · simp only [publish, length_append, length_nil]
    omega
  · simpa only [publish, length_append, length_nil, Nat.add_zero, append_nil] using h.ring
  · exact h.consumer.append h.released_le h.seenTail_le m.staged
  · intro peek hpeek
    have hold := h.peeks peek hpeek
    exact (List.getElem?_append_left (List.getElem?_eq_some_iff.mp hold).1).trans hold

end

/-! ## Steps of the consumer -/

/-- Where a call that found values stands: it visits some of those, from the head on. -/
theorem ConsumerOp.at_copy (op : ConsumerOp) {produced consumed : List α}
    (hconsumed : consumed = produced.take released) (hlimit : op.limit ≠ 0)
    (hlt : released < seenTail) (hnear : seenTail - released < 2 ^ 64) :
    (ConsumerPc.copy op (UInt64.ofNat released)
      (op.count (UInt64.ofNat seenTail - UInt64.ofNat released)) 0).At
        produced consumed released seenTail := by
  have hsub := toNat_ofNat_sub hlt.le hnear
  obtain ⟨hpos, hle⟩ := op.count_bounds hlimit
    (show 0 < (UInt64.ofNat seenTail - UInt64.ofNat released).toNat by omega)
  exact ⟨hconsumed, rfl, hpos, by omega, fun _ => rfl⟩

section

variable (h : Inv m released seenHead seenTail)

include h

/-- Between calls the values consumed are those released. -/
theorem Inv.consumed_of_idle {returned : Option ConsumerResult}
    (hpc : m.consumer = .idle returned) : m.consumed = m.produced.take released := by
  have hat := h.consumer
  rwa [hpc] at hat

theorem inv_beginConsume {returned : Option ConsumerResult} (hpc : m.consumer = .idle returned) :
    Inv (beginConsume m) released seenHead seenTail := by
  have hconsumed := h.consumed_of_idle hpc
  unfold beginConsume
  split
  · exact h
  case _ op rest hcalls =>
    split
    · exact { h with consumer := hconsumed }
    case isFalse hlimit =>
      split
      · exact { h with consumer := ⟨hconsumed, h.head_eq, hlimit⟩ }
      case isFalse hsees =>
        rw [h.head_eq, h.shadowTail_eq, Bool.not_eq_true,
          op.seesNone_eq_false_iff h.released_le h.seenTail_near] at hsees
        refine { h with consumer := ?_ }
        rw [h.head_eq, h.shadowTail_eq]
        exact op.at_copy hconsumed hlimit hsees h.seenTail_near

theorem inv_loadTail {head : UInt64} (hpc : m.consumer = .loadTail op head) :
    Inv (loadTail m op head) released seenHead m.produced.length := by
  have hat := h.consumer
  rw [hpc] at hat
  obtain ⟨hconsumed, hhead, hlimit⟩ := hat
  have hle := h.released_le.trans h.seenTail_le
  refine { h with
    shadowTail_eq := h.tail_eq, released_le := hle, seenTail_le := le_rfl, consumer := ?_ }
  simp only [loadTail, hhead, h.tail_eq]
  split
  · exact hconsumed
  case isFalse hsees =>
    rw [Bool.not_eq_true, op.seesNone_eq_false_iff hle h.produced_near] at hsees
    exact op.at_copy hconsumed hlimit hsees h.produced_near

/-- The value in the slot visited is the next one produced. -/
theorem Inv.buffer_slot {i : UInt64} (hi : released + i.toNat < m.produced.length) :
    m.produced[released + i.toNat]? =
      some (m.queue.buffer (c.slot (UInt64.ofNat released + i))) := by
  have hslot : c.slot (UInt64.ofNat released + i) = Fin.ofNat c.size (released + i.toNat) := by
    rw [← c.slot_ofNat, UInt64.ofNat_add, UInt64.ofNat_toNat]
  have hring := congrArg (fun values => values[i.toNat]?) h.ring
  simp only [getElem?_drop, List.getElem?_append_left hi] at hring
  rw [hslot, ← hring, getElem?_window _ (by omega)]

theorem inv_readSlot {head n i : UInt64} (hpc : m.consumer = .copy op head n i) :
    Inv (readSlot m op head n i) released seenHead seenTail := by
  have hat := h.consumer
  rw [hpc] at hat
  obtain ⟨hconsumed, hhead, hi, hn, hpeek⟩ := hat
  have hseen := h.seenTail_le
  have hvalue := h.buffer_slot (i := i) (by omega)
  rw [← hhead] at hvalue
  have hnext := toNat_succ hi
  unfold readSlot
  split
  case isTrue hadvances =>
    have hmore : m.consumed ++ [m.queue.buffer (c.slot (head + i))] =
        m.produced.take (released + (i.toNat + 1)) := by
      rw [hconsumed, ← Nat.add_assoc, take_add_one, hvalue]
      rfl
    refine { h with consumer := ?_ }
    simp only [lt_iff_toNat_lt, hnext]
    split
    case isTrue hlt =>
      exact ⟨by rw [hnext]; exact hmore, hhead, by omega, hn,
        fun hstays => absurd (hadvances.symm.trans hstays) (by decide)⟩
    case isFalse hdone =>
      exact ⟨by rw [show n.toNat = i.toNat + 1 by omega]; exact hmore, hhead, hn⟩
  case isFalse hstays =>
    have hzero : i.toNat = 0 := by rw [hpeek (by simpa using hstays)]; rfl
    rw [hzero, Nat.add_zero] at hconsumed hvalue
    refine { h with consumer := hconsumed, peeks := ?_ }
    refine forall_mem_append.mpr ⟨h.peeks, forall_mem_singleton.mpr ?_⟩
    have hlength : m.consumed.length = released := by
      rw [hconsumed, length_take]
      omega
    rw [hlength]
    exact hvalue

theorem inv_advance {head n : UInt64} (hpc : m.consumer = .advance op head n) :
    Inv (advance m op head n) (released + n.toNat) seenHead seenTail := by
  have hat := h.consumer
  rw [hpc] at hat
  obtain ⟨hconsumed, hhead, hn⟩ := hat
  refine { h with
    head_eq := ?_, seenHead_le := ?_, released_le := hn, ring := ?_, consumer := hconsumed }
  · simp only [advance, hhead, UInt64.ofNat_add, UInt64.ofNat_toNat]
  · exact h.seenHead_le.trans (Nat.le_add_right _ _)
  · rw [← drop_drop]
    simp only [advance]
    rw [← h.ring, drop_window, Nat.sub_sub]

end

/-! ## Runs -/

theorem Inv.step (h : Inv m released seenHead seenTail) (thread : Thread) :
    ∃ released seenHead seenTail, Inv (step m thread) released seenHead seenTail := by
  cases thread with
  | producer =>
    simp only [Containers.step, producerStep]
    split
    case _ returned hpc => exact ⟨_, _, _, inv_beginProduce h hpc⟩
    case _ op tail hpc => exact ⟨_, _, _, inv_loadHead h hpc⟩
    case _ op tail i hpc => exact ⟨_, _, _, inv_writeSlot h hpc⟩
    case _ op tail hpc => exact ⟨_, _, _, inv_publish h hpc⟩
  | consumer =>
    simp only [Containers.step, consumerStep]
    split
    case _ returned hpc => exact ⟨_, _, _, inv_beginConsume h hpc⟩
    case _ op head hpc => exact ⟨_, _, _, inv_loadTail h hpc⟩
    case _ op head n i hpc => exact ⟨_, _, _, inv_readSlot h hpc⟩
    case _ op head n hpc => exact ⟨_, _, _, inv_advance h hpc⟩

/-- Every run keeps the invariant. -/
theorem inv_run [Inhabited α] (c : Capacity) (producerCalls : List (ProducerOp α))
    (consumerCalls : List ConsumerOp) (schedule : List Thread) :
    ∃ released seenHead seenTail,
      Inv (run c producerCalls consumerCalls schedule) released seenHead seenTail := by
  induction schedule using List.reverseRecOn with
  | nil =>
    exact ⟨0, 0, 0, rfl, rfl, rfl, rfl, le_rfl, le_rfl, le_rfl, Nat.zero_le _, rfl, rfl, rfl, nofun⟩
  | append_singleton front thread ih =>
    obtain ⟨released, seenHead, seenTail, h⟩ := ih
    rw [run, foldl_append]
    exact h.step thread

/-! ## The contract -/

namespace Inv

variable {m : Machine α c} {released seenHead seenTail : ℕ}

section

variable (h : Inv m released seenHead seenTail)

include h

/-- The values consumed are the first ones produced, at least as many as were released. -/
theorem consumed_eq :
    ∃ k, released ≤ k ∧ k ≤ m.produced.length ∧ m.consumed = m.produced.take k := by
  have hle := h.released_le
  have hseen := h.seenTail_le
  have hat := h.consumer
  cases hpc : m.consumer with
  | idle returned =>
    rw [hpc] at hat
    exact ⟨released, le_rfl, by omega, hat⟩
  | loadTail op head =>
    rw [hpc] at hat
    exact ⟨released, le_rfl, by omega, hat.1⟩
  | copy op head n i =>
    rw [hpc] at hat
    obtain ⟨hconsumed, -, hi, hn, -⟩ := hat
    exact ⟨released + i.toNat, by omega, by omega, hconsumed⟩
  | advance op head n =>
    rw [hpc] at hat
    obtain ⟨hconsumed, -, hn⟩ := hat
    exact ⟨released + n.toNat, by omega, by omega, hconsumed⟩

theorem released_le_consumed : released ≤ m.consumed.length := by
  obtain ⟨k, hk, hle, hconsumed⟩ := h.consumed_eq
  rw [hconsumed, length_take]
  omega

/-- The slot about to be written is not that of any position still to be consumed: the two are
less than one revolution apart. -/
theorem writing_ne {k : ℕ} (hfrom : released ≤ k) (hto : k < m.produced.length + m.staged.length) :
    m.writing ≠ some (c.slot (UInt64.ofNat k)) := by
  unfold Machine.writing
  split
  case _ op tail i hpc =>
    have hat := h.producer
    rw [hpc] at hat
    obtain ⟨hstaged, htail, hi, hfits⟩ := hat
    have hseen := h.seenHead_le
    have hslot : c.slot (tail + i) =
        Fin.ofNat c.size (m.produced.length + m.staged.length) := by
      rw [← c.slot_ofNat, htail, UInt64.ofNat_add, hstaged, UInt64.ofNat_toNat]
    rw [hslot, c.slot_ofNat]
    intro hsame
    exact ofNat_ne hto (by omega) (Option.some.inj hsame)
  · intro hsame
    cases hsame

theorem size_eq : m.queue.size.toNat = m.produced.length - released := by
  rw [BoundedQueue.size, h.tail_eq, h.head_eq]
  exact toNat_ofNat_sub (h.released_le.trans h.seenTail_le) h.produced_near

/-- Between calls the ring holds what was produced and not consumed. -/
theorem contents_eq (hquiet : m.Quiescent) :
    m.queue.contents = m.produced.drop m.consumed.length := by
  obtain ⟨⟨returned, hproducer⟩, ⟨returned', hconsumer⟩⟩ := hquiet
  have hstaged : m.staged = [] := by
    have hat := h.producer
    rwa [hproducer] at hat
  have hle := h.released_le.trans h.seenTail_le
  have hring := h.ring
  have hlength : m.consumed.length = released := by
    rw [h.consumed_of_idle hconsumer, length_take]
    omega
  rw [hstaged, length_nil, Nat.add_zero, append_nil] at hring
  rw [hlength, ← hring, BoundedQueue.contents, h.size_eq, h.head_eq, window]
  apply map_congr_left
  intro i hi
  rw [← UInt64.ofNat_add, c.slot_ofNat]

end

end Inv

/-- A step changes no slot but the one the producer is about to write. -/
theorem buffer_step (m : Machine α c) (thread : Thread) {slot : Fin c.size}
    (hslot : m.writing ≠ some slot) : (step m thread).queue.buffer slot = m.queue.buffer slot := by
  cases thread with
  | producer =>
    simp only [step, producerStep]
    split
    · unfold beginProduce
      split
      · rfl
      · split_ifs <;> rfl
    · rfl
    case _ op tail i hpc =>
      have hne : slot ≠ c.slot (tail + i) := by
        intro hsame
        exact hslot (by simp only [Machine.writing, hpc, hsame])
      exact update_of_ne hne _ _
    · rfl
  | consumer =>
    simp only [step, consumerStep]
    split
    · unfold beginConsume
      split
      · rfl
      · split_ifs <;> rfl
    · rfl
    · unfold readSlot
      split_ifs <;> rfl
    · rfl

/-- **The bounded queue is a queue.**  For every capacity, all sequences of calls of the producer
and of the consumer and every interleaving of their memory accesses: the values consumed are a
prefix of the values successfully produced; no step writes a slot whose value has been written
and not yet consumed; and whenever neither thread is inside a call, the ring holds exactly the
remaining values, in order. -/
theorem bounded_queue_fifo [Inhabited α] (c : Capacity) (producerCalls : List (ProducerOp α))
    (consumerCalls : List ConsumerOp) (schedule : List Thread) :
    let m := run c producerCalls consumerCalls schedule
    m.consumed <+: m.produced ∧
      (∀ k, m.consumed.length ≤ k → k < m.produced.length + m.staged.length →
        m.writing ≠ some (c.slot (UInt64.ofNat k)) ∧
          ∀ thread, (step m thread).queue.buffer (c.slot (UInt64.ofNat k)) =
            m.queue.buffer (c.slot (UInt64.ofNat k))) ∧
      (m.Quiescent → m.queue.contents = m.produced.drop m.consumed.length) := by
  intro m
  obtain ⟨released, seenHead, seenTail, h⟩ := inv_run c producerCalls consumerCalls schedule
  refine ⟨?_, ?_, h.contents_eq⟩
  · obtain ⟨k, -, -, hconsumed⟩ := h.consumed_eq
    rw [hconsumed]
    exact List.take_prefix k m.produced
  · intro k hfrom hto
    have hkept := h.writing_ne (h.released_le_consumed.trans hfrom) hto
    exact ⟨hkept, fun thread => buffer_step m thread hkept⟩

/-- **A peek shows the next value.**  Every value `try_peek` shows is the value produced at the
position the consumer had reached. -/
theorem peeked_is_next [Inhabited α] (c : Capacity) (producerCalls : List (ProducerOp α))
    (consumerCalls : List ConsumerOp) (schedule : List Thread) :
    let m := run c producerCalls consumerCalls schedule
    ∀ peek ∈ m.peeked, m.produced[peek.1]? = some peek.2 := by
  obtain ⟨released, seenHead, seenTail, h⟩ := inv_run c producerCalls consumerCalls schedule
  exact h.peeks

/-- A peek between two pushes shows the first value. -/
theorem peeked_is_next_first :
    let m := run ⟨4, 2, rfl⟩ [.tryPush 1, .tryPush 2] [.tryPeek]
      (List.replicate 3 .producer ++ List.replicate 3 .consumer)
    (0, 1) ∈ m.peeked ∧ m.produced[0]? = some 1 :=
  ⟨by decide, peeked_is_next _ _ _ _ (0, 1) (by decide)⟩

/-! ## Draining -/

/-- `try_consume_all` is `try_consume_n` with the capacity.  While the producer does nothing it
takes two loads at most, a visit of every slot and a store. -/
def Machine.tryConsumeAll (m : Machine α c) : Machine α c :=
  consumerStep^[c.size + 3] { m with consumerCalls := [.tryConsumeN c.value] }

/-- The consumer has returned from its last call, with the values up to `last` consumed. -/
structure Returned (produced : List α) (last : ℕ) (m : Machine α c) : Prop where
  inv : ∃ seenHead seenTail, Inv m last seenHead seenTail
  idle : ∃ returned, m.consumer = .idle returned
  calls : m.consumerCalls = []
  produced : m.produced = produced

/-- A consumer that has returned does nothing more. -/
theorem Returned.iterate {produced : List α} {last : ℕ} (h : Returned produced last m) (k : ℕ) :
    Returned produced last (consumerStep^[k] m) := by
  have hfixed : consumerStep m = m := by
    obtain ⟨returned, hidle⟩ := h.idle
    simp only [consumerStep, hidle, beginConsume, h.calls]
  rw [iterate_fixed hfixed]
  exact h

section

variable (h : Inv m released seenHead seenTail) (hcalls : m.consumerCalls = [])

include h hcalls

/-- The visits of a call and its store of the head. -/
theorem Inv.iterate_copy {head n i : UInt64} (hadvances : op.advances = true)
    (hpc : m.consumer = .copy op head n i) {k : ℕ} (hk : n.toNat < i.toNat + k) :
    Returned m.produced (released + n.toNat) (consumerStep^[k] m) := by
  have hat := h.consumer
  rw [hpc] at hat
  obtain ⟨-, -, hi, -⟩ := hat
  induction k generalizing m i with
  | zero => omega
  | succ k ih =>
    have hnext := toNat_succ hi
    have hread : consumerStep m = readSlot m op head n i := by rw [consumerStep, hpc]
    have hinv := inv_readSlot h hpc
    rw [← hread] at hinv
    rw [readSlot, if_pos hadvances] at hread
    rw [iterate_succ_apply]
    by_cases hmore : i.toNat + 1 < n.toNat
    · have hlt : i + 1 < n := by rw [lt_iff_toNat_lt, hnext]; exact hmore
      rw [hread, if_pos hlt] at hinv ⊢
      exact ih hinv hcalls rfl (by omega) (by omega)
    have hlast : ¬ i + 1 < n := by rw [lt_iff_toNat_lt, hnext]; exact hmore
    rw [hread, if_neg hlast] at hinv ⊢
    obtain ⟨k, rfl⟩ : ∃ j, k = j + 1 := ⟨k - 1, by omega⟩
    rw [iterate_succ_apply]
    exact Returned.iterate ⟨⟨_, _, inv_advance hinv rfl⟩, ⟨_, rfl⟩, hcalls, rfl⟩ k

end

/-- A call that asks for as many values as the ring has slots visits all that it finds. -/
theorem ConsumerOp.count_capacity {available : UInt64} (h : available.toNat ≤ c.size) :
    (tryConsumeN c.value).count available = available := by
  rw [count, ite_eq_left_iff, lt_iff_toNat_lt]
  exact fun hge => UInt64.toNat_inj.mp (Nat.le_antisymm (Nat.le_of_not_lt hge) h)

/-- The visits of a drain go up to the cached tail. -/
theorem Inv.iterate_copyAll (h : Inv m released seenHead seenTail) (hcalls : m.consumerCalls = [])
    (hpc : m.consumer = .copy (.tryConsumeN c.value) m.queue.head
      ((ConsumerOp.tryConsumeN c.value).count (m.queue.shadowTail - m.queue.head)) 0)
    {k : ℕ} (hk : c.size < k) : Returned m.produced seenTail (consumerStep^[k] m) := by
  have hroom := h.room
  have hseen := h.seenHead_le
  have hle := h.released_le
  have htail := h.seenTail_le
  have hnear := toNat_ofNat_sub hle h.seenTail_near
  rw [← h.shadowTail_eq, ← h.head_eq] at hnear
  rw [ConsumerOp.count_capacity (by omega)] at hpc
  have hreturned := h.iterate_copy hcalls rfl hpc (k := k) (by rw [UInt64.toNat_zero]; omega)
  rwa [hnear, Nat.add_sub_of_le hle] at hreturned

/-- **What a drain consumes**: the values up to the cached tail, which is loaded anew only if it
shows an empty queue. -/
theorem Inv.tryConsumeAll (h : Inv m released seenHead seenTail)
    {returned : Option ConsumerResult} (hidle : m.consumer = .idle returned) :
    Returned m.produced (if released < seenTail then seenTail else m.produced.length)
      m.tryConsumeAll := by
  have hlimit : (ConsumerOp.tryConsumeN c.value).limit ≠ 0 := by
    intro hzero
    exact absurd (congrArg UInt64.toNat hzero) c.size_pos.ne'
  have hbegun := inv_beginConsume (m := { m with consumerCalls := [.tryConsumeN c.value] })
    { h with } hidle
  rw [Machine.tryConsumeAll, iterate_succ_apply]
  simp only [consumerStep, hidle]
  have hsees := (ConsumerOp.tryConsumeN c.value).seesNone_eq_false_iff h.released_le h.seenTail_near
  rw [← h.head_eq, ← h.shadowTail_eq] at hsees
  by_cases hlt : released < seenTail
  · rw [if_pos hlt]
    simp only [beginConsume, if_neg hlimit, hsees.mpr hlt, Bool.false_eq_true, if_false] at hbegun ⊢
    exact hbegun.iterate_copyAll rfl rfl (by omega)
  rw [if_neg hlt]
  have hnone := Bool.eq_true_of_not_eq_false (mt hsees.mp hlt)
  simp only [beginConsume, if_neg hlimit, hnone, if_true] at hbegun ⊢
  have hloaded := inv_loadTail hbegun rfl
  have hle := h.released_le.trans h.seenTail_le
  have hmore := (ConsumerOp.tryConsumeN c.value).seesNone_eq_false_iff hle h.produced_near
  rw [← h.head_eq, ← h.tail_eq] at hmore
  rw [iterate_succ_apply]
  simp only [consumerStep]
  cases hempty : (ConsumerOp.tryConsumeN c.value).seesNone m.queue.head m.queue.tail with
  | false =>
    simp only [loadTail, hempty, Bool.false_eq_true, if_false] at hloaded ⊢
    exact hloaded.iterate_copyAll rfl rfl (by omega)
  | true =>
    rw [hempty] at hmore
    have hall : released = m.produced.length :=
      Nat.le_antisymm hle (Nat.le_of_not_lt fun hlt => nomatch hmore.mpr hlt)
    simp only [loadTail, hempty, if_true] at hloaded ⊢
    rw [← hall]
    exact Returned.iterate ⟨⟨_, _, hloaded⟩, ⟨_, rfl⟩, rfl, rfl⟩ _

/-- **What `try_consume_all` leaves behind.**  In every reachable state in which neither thread is
inside a call, it visits all values in the ring, in order, and leaves the ring empty, exactly if the
consumer's cached tail is the tail or shows an empty queue. -/
theorem try_consume_all_iff [Inhabited α] (c : Capacity) (producerCalls : List (ProducerOp α))
    (consumerCalls : List ConsumerOp) (schedule : List Thread)
    (hquiet : (run c producerCalls consumerCalls schedule).Quiescent) :
    let m := run c producerCalls consumerCalls schedule
    let m' := m.tryConsumeAll
    (m'.consumed = m.consumed ++ m.queue.contents ∧ m'.queue.size = 0) ↔
      m.queue.shadowTail = m.queue.head ∨ m.queue.shadowTail = m.queue.tail := by
  intro m m'
  obtain ⟨released, seenHead, seenTail, h⟩ := inv_run c producerCalls consumerCalls schedule
  obtain ⟨returned, hidle⟩ := hquiet.2
  have hreturned := h.tryConsumeAll hidle
  have hle := h.released_le
  have hseen := h.seenTail_le
  have hnear := h.produced_near
  have hcached : m.queue.shadowTail = m.queue.head ∨ m.queue.shadowTail = m.queue.tail ↔
      seenTail = released ∨ m.produced.length = seenTail := by
    rw [h.shadowTail_eq, h.head_eq, h.tail_eq, ofNat_eq_iff hle h.seenTail_near,
      eq_comm (a := UInt64.ofNat seenTail), ofNat_eq_iff hseen (by omega)]
  have hall : m.consumed ++ m.queue.contents = m.produced := by
    rw [h.contents_eq hquiet, h.consumed_of_idle hidle, length_take_of_le (hle.trans hseen),
      take_append_drop]
  obtain ⟨⟨_, _, hinv⟩, ⟨_, hidle'⟩, -, hproduced⟩ := hreturned
  rw [hcached, hall, hinv.consumed_of_idle hidle', hproduced, take_eq_self_iff, ← UInt64.toNat_inj,
    hinv.size_eq, hproduced, UInt64.toNat_zero, Nat.sub_eq_zero_iff_le, and_self]
  change _ ≤ _ ↔ _ ∨ (run c producerCalls consumerCalls schedule).produced.length = _
  split <;> omega

/-- A peek caches the tail: a drain finds the values pushed before it, -/
theorem try_consume_all_two :
    let m := run ⟨4, 2, rfl⟩ [.tryPush 1, .tryPush 2] [.tryPeek]
      (List.replicate 6 .producer ++ List.replicate 3 .consumer)
    m.tryConsumeAll.consumed = [1, 2] := by
  refine (try_consume_all_iff ⟨4, 2, rfl⟩ [.tryPush 1, .tryPush 2] [.tryPeek] _
    ⟨⟨some true, rfl⟩, some (.bool true), by decide⟩).mpr (.inr (by decide)) |>.1.trans ?_
  decide

/-- and none that is pushed later. -/
theorem try_consume_all_stale :
    let m := run ⟨4, 2, rfl⟩ [.tryPush 1, .tryPush 2] [.tryPeek]
      (List.replicate 3 .producer ++ List.replicate 3 .consumer ++ List.replicate 3 .producer)
    m.Quiescent ∧ m.queue.contents = [1, 2] ∧ m.tryConsumeAll.consumed = [1] ∧
      m.tryConsumeAll.queue.contents = [2] :=
  ⟨⟨⟨some true, rfl⟩, some (.bool true), by decide⟩, by decide⟩

end Eph.Containers
