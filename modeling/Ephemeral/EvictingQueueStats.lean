import Ephemeral.EvictingQueueRun

/-!
# What the evicting queues report

`stats` counts nothing: it derives its numbers from the writer's index and the
number of the value read last.  The values add up: each is read, lost or still
in the queue.  But `total_popped` is the number of the value read last, so that
it counts what the reads have skipped as well.  Both are facts about the
reader's log (`SeqLock.Log`).
-/

namespace Eph.Containers

open List Ring SeqLock

universe u

variable {w : ℕ} {β : Type u} {produced : List (Fin w → β)} {reads : List (Reading (Fin w) β)}

/-- A program has as many calls as it has produced values. -/
theorem ProducedBy.length_le {program : List (WriterFunc w β)} (h : ProducedBy program produced) :
    produced.length ≤ program.length := by
  by_contra hmore
  have hlast : produced[program.length]? = _ := getElem?_eq_getElem (by omega)
  obtain ⟨call, old, hcall, -⟩ := h _ _ hlast
  rw [getElem?_eq_none le_rfl] at hcall
  cases hcall

/-! ## The statistics -/

/-- How many of the values up to number `n` no read has returned. -/
def missed (n : ℕ) (reads : List (Reading (Fin w) β)) : ℕ :=
  (range' 1 n).countP (· ∉ reads.map (·.index))

/-- The values read and the values missed are all values up to any number that no read passed. -/
theorem reads_add_missed {last n : ℕ} (h : Log produced reads last)
    (hn : ∀ reading ∈ reads, reading.index ≤ n) : reads.length + missed n reads = n := by
  have hperm : (range' 1 n).filter (· ∈ reads.map (·.index)) ~ reads.map (·.index) := by
    refine (perm_ext_iff_of_nodup (filter_sublist.nodup nodup_range')
      (pairwise_map.mpr (h.increasing.imp Nat.ne_of_lt))).mpr fun i => ?_
    rw [mem_filter, mem_range'_1, decide_eq_true_eq, and_iff_right_iff_imp]
    intro hindex
    obtain ⟨reading, hmem, rfl⟩ := mem_map.mp hindex
    have hpos := (h.exact reading hmem).index_range.1
    have hle := hn reading hmem
    omega
  have hread := hperm.length_eq
  rw [← countP_eq_length_filter, length_map] at hread
  have hall := length_eq_countP_add_countP (· ∈ reads.map (·.index)) (l := range' 1 n)
  rw [hread, length_range'] at hall
  simpa [missed] using hall.symm

/-- `EvictingQueueStats`. -/
structure EvictingQueueStats where
  totalPushed : UInt64
  totalPopped : UInt64
  overwritten : UInt64
  currentSize : UInt64
  capacity : UInt64

/-- No read has returned value number `i`, but one has returned a later value. -/
def Skipped (reads : List (Reading (Fin w) β)) (i : ℕ) : Prop :=
  i ∉ reads.map (·.index) ∧ ∃ j ∈ reads.map (·.index), i < j

/-- Value number `i` was skipped, or no read has returned it and its slot, one of `capacity`, was
written again. -/
def Lost (capacity pushed : ℕ) (reads : List (Reading (Fin w) β)) (i : ℕ) : Prop :=
  Skipped reads i ∨ (i ∉ reads.map (·.index) ∧ i + capacity ≤ pushed)

instance (reads : List (Reading (Fin w) β)) : DecidablePred (Skipped reads) :=
  fun _ => inferInstanceAs (Decidable (_ ∧ _))

instance (capacity pushed : ℕ) (reads : List (Reading (Fin w) β)) :
    DecidablePred (Lost capacity pushed reads) :=
  fun _ => inferInstanceAs (Decidable (_ ∨ _))

/-- Of the values produced, `total_pushed` counts those read, those lost and those in the queue,
and `total_popped` those read and those skipped. -/
structure AddsUp (stats : EvictingQueueStats) (produced : List (Fin w → β))
    (reads : List (Reading (Fin w) β)) : Prop where
  pushed : stats.totalPushed.toNat = reads.length + (range' 1 produced.length).countP
    (Lost stats.capacity.toNat produced.length reads) + stats.currentSize.toNat
  popped : stats.totalPopped.toNat = reads.length +
    (range' 1 produced.length).countP (Skipped reads)

/-- A count of unread values, all of them up to some number. -/
theorem countP_eq_missed {P : ℕ → Prop} [DecidablePred P] {n pushed : ℕ} (hn : n ≤ pushed)
    (hP : ∀ i, 0 < i → (P i ↔ i ∉ reads.map (·.index) ∧ i ≤ n)) :
    (range' 1 pushed).countP P = missed n reads := by
  obtain ⟨more, rfl⟩ := Nat.exists_eq_add_of_le hn
  have hbehind : (range' (1 + n) more).countP P = 0 := by
    refine countP_eq_zero.mpr fun i hi => ?_
    rw [mem_range'_1] at hi
    rw [decide_eq_true_eq, hP i (by omega)]
    omega
  rw [← range'_append_1, countP_append, hbehind, Nat.add_zero, missed]
  refine countP_congr fun i hi => ?_
  rw [mem_range'_1] at hi
  rw [decide_eq_true_eq, decide_eq_true_eq, hP i (by omega)]
  exact and_iff_left (by omega)

/-- **The account of a log**, for statistics that are taken from its last number. -/
theorem addsUp {stats : EvictingQueueStats} {last : ℕ} (h : Log produced reads last)
    (hpushed : stats.totalPushed.toNat = produced.length) (hpopped : stats.totalPopped.toNat = last)
    (hsize : stats.currentSize.toNat = min (produced.length - last) stats.capacity.toNat) :
    AddsUp stats produced reads := by
  have hskipped : ∀ i, 0 < i → (Skipped reads i ↔ i ∉ reads.map (·.index) ∧ i ≤ last) := by
    intro i hi
    refine and_congr_right fun hunread => ⟨?_, fun hle => ?_⟩
    · rintro ⟨j, hj, hlt⟩
      obtain ⟨reading, hmem, rfl⟩ := mem_map.mp hj
      exact hlt.le.trans (h.le_last reading hmem)
    · rcases mem_cons.mp h.last_mem with rfl | hlast
      · omega
      · refine ⟨last, hlast, lt_of_le_of_ne hle ?_⟩
        rintro rfl
        exact hunread hlast
  have hmade := h.last_le
  have hlost : ∀ i, 0 < i → (Lost stats.capacity.toNat produced.length reads i ↔
      i ∉ reads.map (·.index) ∧ i ≤ max last (produced.length - stats.capacity.toNat)) := by
    intro i hi
    rw [Lost, hskipped i hi, ← and_or_left]
    exact and_congr_right fun _ => by omega
  constructor
  · have hall := reads_add_missed h (n := max last (produced.length - stats.capacity.toNat))
      fun reading hmem => (h.le_last reading hmem).trans (le_max_left _ _)
    rw [countP_eq_missed (by omega) hlost]
    omega
  · rw [countP_eq_missed hmade hskipped, reads_add_missed h h.le_last, hpopped]

namespace Evicting

variable {c : Capacity}

/-- `stats` of the ring. -/
def EvictingQueue.stats (q : EvictingQueue c w β) : EvictingQueueStats :=
  let written := q.globalIndex
  let read := q.lastGlobalIndex
  let pending := if read ≤ written then written - read else 0
  { totalPushed := written
    totalPopped := read
    overwritten := if read + c.value < written then written - read - c.value else 0
    currentSize := if pending ≤ c.value then pending else c.value
    capacity := c.value }

/-- The published index is the writer's. -/
def Published (m : Machine c w β) : Prop := m.queue.globalIndex = m.queue.shadowGlobalIndex

/-- No step separates the two indices. -/
theorem Published.step {m : Machine c w β} (h : Published m) (actor : Actor) :
    Published (step m actor) := by
  cases actor with
  | writer =>
    simp only [Evicting.step, writerStep]
    split
    · unfold beginProduce
      split <;> exact h
    case _ words _ => cases words <;> exact h
    · exact rfl
  | reader =>
    simp only [Evicting.step, readerStep]
    split
    · unfold beginConsume
      split <;> exact h
    · exact h
    · exact h
    case _ rest _ _ => cases rest <;> exact h
    · exact h

/-- The statistics of a queue of several slots add up between two pushes. -/
theorem stats_addsUp {program : List (WriterFunc w β)} {m : Machine c w β}
    (hfew : program.length < 2 ^ 63) (h : Inv program m) (hpublished : Published m)
    (hidle : m.writer = .idle) :
    AddsUp m.queue.stats m.produced m.reads := by
  have hat := h.writer
  rw [hidle] at hat
  have hmade := h.values.length_le
  have hpushed : m.queue.globalIndex.toNat = m.produced.length := by
    rw [hpublished, hat.2.1, UInt64.toNat_ofNat_of_lt' (show _ < 2 ^ 64 by omega)]
  have hread : m.queue.lastGlobalIndex ≤ m.queue.globalIndex := by
    rw [UInt64.le_iff_toNat_le, hpushed]
    exact h.log.last_le
  refine addsUp h.log hpushed rfl ?_
  simp only [EvictingQueue.stats]
  rw [if_pos hread, ← hpushed, ← UInt64.toNat_sub_of_le _ _ hread]
  split <;> rename_i hroom <;> rw [UInt64.le_iff_toNat_le] at hroom <;> omega

end Evicting

namespace SingleSlot

/-- `write_count`. -/
def EvictingQueue.writeCount (q : EvictingQueue w β) : UInt64 := q.slot.seq / 2

/-- `read_count`. -/
def EvictingQueue.readCount (q : EvictingQueue w β) : UInt64 := q.lastSeq / 2

/-- `stats` of the single slot. -/
def EvictingQueue.stats (q : EvictingQueue w β) : EvictingQueueStats where
  totalPushed := q.writeCount
  totalPopped := q.readCount
  overwritten :=
    if q.writeCount ≤ q.readCount + 1 then 0 else q.writeCount - q.readCount - 1
  currentSize := if q.slot.seq &&& 1 ≠ 0 ∨ q.slot.seq ≤ q.lastSeq then 0 else 1
  capacity := 1

/-- The statistics of the slot add up between two pushes. -/
theorem stats_addsUp {program : List (WriterFunc w β)} {m : Machine w β}
    (hfew : program.length < 2 ^ 63) (h : Inv program m) (hidle : m.writer = .idle) :
    AddsUp m.queue.stats m.produced m.reads := by
  have hat := h.writer
  rw [hidle] at hat
  have hmade := h.values.length_le
  have hseq : m.queue.slot.seq.toNat = 2 * m.produced.length := by
    rw [hat.2, UInt64.toNat_ofNat_of_lt' (show _ < 2 ^ 64 by omega)]
  refine addsUp h.log ?_ (UInt64.toNat_div _ _) ?_
  · exact (UInt64.toNat_div _ _).trans (hseq ▸ Nat.mul_div_cancel_left _ Nat.two_pos)
  have hread := h.log.last_le
  have hunlocked : m.queue.slot.seq &&& 1 = 0 := by
    rw [← UInt64.toNat_inj, UInt64.toNat_and, hseq]
    simp
  simp only [EvictingQueue.stats, hunlocked, ne_eq, not_true_eq_false, false_or]
  split <;> rename_i hnew <;> rw [UInt64.le_iff_toNat_le, hseq] at hnew
  · rw [UInt64.toNat_zero]
    omega
  · rw [UInt64.toNat_one]
    omega

end SingleSlot

/-- **What the statistics count.**  For all calls of `produce` (fewer than `2 ^ 63`), all calls of
`try_consume_latest` and every interleaving of their accesses, on both queues: between calls of
`produce` the values produced are those read, those lost and those in the queue, and `total_popped`
counts the values read and the values skipped. -/
theorem evicting_stats_account [Inhabited β] (program : List (WriterFunc w β))
    (hfew : program.length < 2 ^ 63) (visitors : List (List (Fin w))) (schedule : List Actor) :
    (∀ (c : Capacity) (m : Evicting.Machine c w β),
      m = Evicting.run c program visitors schedule → m.writer = .idle →
        AddsUp m.queue.stats m.produced m.reads) ∧
      ∀ m : SingleSlot.Machine w β,
        m = SingleSlot.run program visitors schedule → m.writer = .idle →
          AddsUp m.queue.stats m.produced m.reads := by
  refine ⟨?_, ?_⟩
  · rintro c m rfl hidle
    exact Evicting.stats_addsUp hfew (Evicting.inv_run hfew c visitors schedule)
      (foldlRecOn schedule Evicting.step (motive := Evicting.Published) rfl
        fun m h actor _ => h.step actor) hidle
  · rintro m rfl hidle
    exact SingleSlot.stats_addsUp hfew (SingleSlot.inv_run hfew visitors schedule) hidle

/-- Two words pushed, one read and one more pushed, on a ring of two slots and on the single
slot. -/
theorem evicting_stats_three_words :
    let program := replicate 3 (pushWords fun _ : Fin 1 => 7)
    let schedule := replicate 8 Actor.writer ++ replicate 6 Actor.reader ++
      replicate 4 Actor.writer
    let ring := Evicting.run ⟨2, 1, rfl⟩ program [allWords 1] schedule
    let single := SingleSlot.run program [allWords 1] schedule
    AddsUp ring.queue.stats ring.produced ring.reads ∧
      AddsUp single.queue.stats single.produced single.reads := by
  intro program schedule ring single
  have h := evicting_stats_account program (by decide) [allWords 1] schedule
  exact ⟨h.1 ⟨2, 1, rfl⟩ ring rfl (by decide +kernel), h.2 single rfl (by decide +kernel)⟩

/-- Two words pushed and then one read: both queues count two reads. -/
theorem evicting_stats_skipped :
    let program := replicate 2 (pushWords fun _ : Fin 1 => 7)
    let schedule := replicate 8 Actor.writer ++ replicate 6 Actor.reader
    let ring := Evicting.run ⟨2, 1, rfl⟩ program [allWords 1] schedule
    let single := SingleSlot.run program [allWords 1] schedule
    (ring.queue.stats.totalPopped = 2 ∧ ring.reads.length = 1) ∧
      single.queue.stats.totalPopped = 2 ∧ single.reads.length = 1 := by
  decide

end Eph.Containers
