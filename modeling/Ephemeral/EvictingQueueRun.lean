import Ephemeral.EvictingQueue

/-!
# Reads of the evicting queue are never torn

Both forms of the queue are sequence locks, slot by slot.  The ring's sequence
word counts a locked slot *above* the unlocked one of the same index
(`2 * idx + 1` against `2 * idx`), the single slot's counts it below, so the
epoch of a ring slot is not the sequence word itself (`Evicting.epoch`).

The invariants say where the writer stands in its program and what the reader
has so far; a step of the writer moves every cell in the sense of
`SeqLock.Cell.Moves` and a step of the reader leaves the cells alone.  The
reader's index does not enter: whichever slot it looks at, and however often
that slot was overwritten since, a successful read is exact.
-/

namespace Eph.Containers

open List Ring SeqLock

universe u

variable {w : ℕ} {β : Type u} {visitor : List (Fin w)} {calls : List (WriterFunc w β)}
  {slot : Slot w β} {words : List β}

/-- A writer inside call number `n` of the program has stored a first part of that call's words and
has the rest before it. -/
def Storing (program : List (WriterFunc w β)) (n : ℕ) (rest : WriterFunc w β)
    (data : Fin w → β) : Prop :=
  ∃ call done old, program[n]? = some call ∧ call = done ++ rest ∧ data = storeAll old done

/-- Each value produced is what its call of the program left in a slot: the words the call stored,
over whatever stood in the slot before. -/
def ProducedBy (program : List (WriterFunc w β)) (produced : List (Fin w → β)) : Prop :=
  ∀ (j : ℕ) (value : Fin w → β), produced[j]? = some value →
    ∃ call old, program[j]? = some call ∧ value = storeAll old call

namespace Storing

variable {program : List (WriterFunc w β)} {n : ℕ} {rest : WriterFunc w β} {data : Fin w → β}

theorem begin {call : WriterFunc w β} (hcalls : call :: calls = program.drop n) (data : Fin w → β) :
    Storing program n call data := by
  refine ⟨call, [], data, ?_, rfl, rfl⟩
  have hhead := congrArg (fun calls => calls[0]?) hcalls
  simpa using hhead.symm

theorem store {i : Fin w} {word : β} (h : Storing program n ((i, word) :: rest) data) :
    Storing program n rest (Function.update data i word) := by
  obtain ⟨call, done, old, hcall, hsplit, hdata⟩ := h
  refine ⟨call, done ++ [(i, word)], old, hcall, ?_, ?_⟩
  · rw [hsplit, append_assoc]
    rfl
  · rw [hdata, storeAll, storeAll, foldl_append]
    rfl

/-- After its last word the call has produced its value. -/
theorem produced {values : List (Fin w → β)} (h : Storing program values.length [] data)
    (hvalues : ProducedBy program values) : ProducedBy program (values ++ [data]) := by
  obtain ⟨call, done, old, hcall, hsplit, hdata⟩ := h
  rw [append_nil] at hsplit
  intro j value hj
  rcases Nat.lt_trichotomy j values.length with hlt | heq | hgt
  · rw [getElem?_append_left hlt] at hj
    exact hvalues j value hj
  · subst heq
    rw [getElem?_concat_length, Option.some.injEq] at hj
    exact ⟨call, old, hcall, by rw [← hj, hdata, hsplit]⟩
  · rw [getElem?_eq_none (by rw [length_append, length_singleton]; omega)] at hj
    cases hj

theorem lt_length (h : Storing program n rest data) : n < program.length := by
  obtain ⟨call, done, old, hcall, -⟩ := h
  exact (List.getElem?_eq_some_iff.mp hcall).1

end Storing

theorem drop_succ_eq {program : List (WriterFunc w β)} {n : ℕ} {call : WriterFunc w β}
    (hcalls : call :: calls = program.drop n) : calls = program.drop (n + 1) := by
  rw [← tail_drop, ← hcalls]
  rfl

/-! ## The ring of slots -/

namespace Evicting

variable {c : Capacity}

theorem toNat_encodeSeq {n : ℕ} (h : n < 2 ^ 63) (locked : Bool) :
    (encodeSeq (UInt64.ofNat n) locked).toNat = 2 * n + locked.toNat := by
  have hflag : locked.toUInt64.toNat = locked.toNat := by cases locked <;> rfl
  have hindex : (UInt64.ofNat n <<< 1).toNat = n <<< 1 := by
    rw [UInt64.toNat_shiftLeft, UInt64.toNat_ofNat_of_lt' (show n < 2 ^ 64 by omega)]
    exact Nat.mod_eq_of_lt (by rw [Nat.shiftLeft_eq]; change n * 2 < 2 ^ 64; omega)
  rw [encodeSeq, UInt64.toNat_or, hflag, hindex,
    ← Nat.shiftLeft_add_eq_or_of_lt (by cases locked <;> decide), Nat.shiftLeft_eq, Nat.mul_comm]

theorem toNat_decodeIdx (seq : UInt64) : (decodeIdx seq).toNat = seq.toNat / 2 := by
  rw [decodeIdx, UInt64.toNat_shiftRight]
  exact Nat.shiftRight_eq_div_pow _ 1

theorem isLocked_eq_false_iff (seq : UInt64) : isLocked seq = false ↔ seq.toNat % 2 = 0 := by
  rw [isLocked, bne_eq_false_iff_eq, ← UInt64.toNat_inj, UInt64.toNat_and]
  exact Iff.of_eq (congrArg (· = 0) (Nat.and_one_is_mod _))

/-- The epoch that a sequence word stands for: a locked word belongs before the unlocked one of its
index. -/
def epoch (seq : UInt64) : ℕ :=
  if seq.toNat % 2 = 0 then seq.toNat else seq.toNat - 2

theorem epoch_locked {n : ℕ} (h : n + 1 < 2 ^ 63) :
    epoch (encodeSeq (UInt64.ofNat (n + 1)) true) = 2 * n + 1 := by
  rw [epoch, toNat_encodeSeq h, Bool.toNat_true, if_neg (by omega)]
  omega

theorem epoch_unlocked {n : ℕ} (h : n + 1 < 2 ^ 63) :
    epoch (encodeSeq (UInt64.ofNat (n + 1)) false) = 2 * (n + 1) := by
  rw [epoch, toNat_encodeSeq h, Bool.toNat_false, if_pos (by omega), Nat.add_zero]

/-- A slot as a sequence-lock cell. -/
def cell (slot : Slot w β) : Cell (Fin w) β := ⟨epoch slot.seq, slot.data⟩

/-- Where the writer stands in its program once `n` values are complete. -/
def WriterPc.At (program calls : List (WriterFunc w β)) (queue : EvictingQueue c w β) (n : ℕ) :
    WriterPc w β → Prop
  | .idle =>
    calls = program.drop n ∧ queue.shadowGlobalIndex = UInt64.ofNat n ∧
      ∀ s, epoch (queue.slots s).seq ≤ 2 * n
  | .write nextIdx rest =>
    calls = program.drop (n + 1) ∧ nextIdx = UInt64.ofNat (n + 1) ∧
      Storing program n rest (queue.slots (c.slot nextIdx)).data ∧
      epoch (queue.slots (c.slot nextIdx)).seq = 2 * n + 1 ∧
      ∀ s, epoch (queue.slots s).seq ≤ 2 * n + 1
  | .publish nextIdx =>
    calls = program.drop n ∧ nextIdx = UInt64.ofNat n ∧ ∀ s, epoch (queue.slots s).seq ≤ 2 * n

/-- What the reader's local variables are worth. -/
def ReaderPc.At (produced : List (Fin w → β)) (queue : EvictingQueue c w β) :
    ReaderPc w β → Prop
  | .idle _ => True
  | .loadLast _ _ => True
  | .loadSeq _ _ lastRead => lastRead = queue.lastGlobalIndex
  | .copy visitor idx seq1 rest words =>
    queue.lastGlobalIndex.toNat < seq1.toNat / 2 ∧
      Snapshot (cell (queue.slots (c.slot idx))) seq1.toNat visitor rest words
  | .storeLast visitor actualIdx words =>
    queue.lastGlobalIndex.toNat < actualIdx.toNat ∧
      Reading.Exact produced ⟨actualIdx.toNat, visitor, words⟩

/-- The invariant of the two threads. -/
structure Inv (program : List (WriterFunc w β)) (m : Machine c w β) : Prop where
  values : ProducedBy program m.produced
  cells : ∀ s, (cell (m.queue.slots s)).Complete m.produced
  log : Log m.produced m.reads m.queue.lastGlobalIndex.toNat
  writer : m.writer.At program m.writerCalls m.queue m.produced.length
  reader : m.reader.At m.produced m.queue

/-- The writer's moves do not disturb the reader. -/
theorem ReaderPc.At.moves {produced produced' : List (Fin w → β)}
    {queue queue' : EvictingQueue c w β} {pc : ReaderPc w β} (h : pc.At produced queue)
    (hgrows : produced <+: produced') (hlast : queue'.lastGlobalIndex = queue.lastGlobalIndex)
    (hmoves : ∀ s, (cell (queue.slots s)).Moves (cell (queue'.slots s))) :
    pc.At produced' queue' := by
  cases pc with
  | idle returned | loadLast visitor idx => trivial
  | loadSeq visitor idx lastRead => exact h.trans hlast.symm
  | copy visitor idx seq1 rest words => exact ⟨by rw [hlast]; exact h.1, h.2.moves (hmoves _)⟩
  | storeLast visitor actualIdx words => exact ⟨by rw [hlast]; exact h.1, h.2.mono hgrows⟩

variable {program : List (WriterFunc w β)} {m : Machine c w β}

/-- A step of the writer that changes the slot at `idx` by a move to a complete or unfinished
value. -/
theorem Inv.setSlot (h : Inv program m) {idx : UInt64} {writer : WriterPc w β}
    {produced : List (Fin w → β)} (hgrows : m.produced <+: produced)
    (hvalues : ProducedBy program produced)
    (hmove : (cell (m.queue.slots (c.slot idx))).Moves (cell slot) ∧ (cell slot).Complete produced)
    (hwriter : writer.At program calls (m.queue.setSlot idx slot) produced.length) :
    Inv program
      { m with
        queue := m.queue.setSlot idx slot, writer := writer, writerCalls := calls,
        produced := produced } where
  values := hvalues
  cells := (Function.forall_update_iff m.queue.slots
    fun _ slot => (cell slot).Complete produced).mpr
      ⟨hmove.2, fun s _ => (h.cells s).mono hgrows⟩
  log := h.log.mono hgrows
  writer := hwriter
  reader := h.reader.moves hgrows rfl ((Function.forall_update_iff m.queue.slots
    fun s slot => (cell (m.queue.slots s)).Moves (cell slot)).mpr
      ⟨hmove.1, fun _ _ => Cell.Moves.refl _⟩)

/-- Changing one slot keeps a bound on the epochs that the new slot meets. -/
theorem epoch_setSlot_le {queue : EvictingQueue c w β} {bound : ℕ}
    (h : ∀ s, epoch (queue.slots s).seq ≤ bound) {idx : UInt64} {bound' : ℕ}
    (hslot : epoch slot.seq ≤ bound') (hle : bound ≤ bound') (s : Fin c.size) :
    epoch ((queue.setSlot idx slot).slots s).seq ≤ bound' :=
  (Function.forall_update_iff queue.slots fun _ slot => epoch slot.seq ≤ bound').mpr
    ⟨hslot, fun s _ => (h s).trans hle⟩ s

@[simp] theorem slots_setSlot (queue : EvictingQueue c w β) (idx : UInt64) (slot : Slot w β) :
    (queue.setSlot idx slot).slots (c.slot idx) = slot :=
  Function.update_self _ _ _

section

variable (h : Inv program m)

include h

theorem inv_beginProduce (hfew : program.length < 2 ^ 63) (hpc : m.writer = .idle) :
    Inv program (beginProduce m) := by
  obtain ⟨hcalls, hshadow, hepochs⟩ : m.writerCalls = program.drop m.produced.length ∧
      m.queue.shadowGlobalIndex = UInt64.ofNat m.produced.length ∧
        ∀ s, epoch (m.queue.slots s).seq ≤ 2 * m.produced.length := by
    have hat := h.writer
    rwa [hpc] at hat
  unfold beginProduce
  split
  · exact h
  case _ call rest hnext =>
    rw [hnext] at hcalls
    have hidx : m.queue.shadowGlobalIndex + 1 = UInt64.ofNat (m.produced.length + 1) := by
      rw [hshadow, UInt64.ofNat_add]
      rfl
    simp only [hidx]
    have hstoring := Storing.begin hcalls
      (m.queue.slots (c.slot (UInt64.ofNat (m.produced.length + 1)))).data
    have hn := hstoring.lt_length
    have hlocked := epoch_locked (show m.produced.length + 1 < 2 ^ 63 by omega)
    refine h.setSlot prefix_rfl h.values (Cell.lock (hepochs _) hlocked) ?_
    refine ⟨drop_succ_eq hcalls, rfl, ?_, ?_, ?_⟩
    · rw [slots_setSlot]
      exact hstoring
    · rw [slots_setSlot]
      exact hlocked
    · exact epoch_setSlot_le hepochs hlocked.le (Nat.le_succ _)

theorem inv_writeWord (hfew : program.length < 2 ^ 63) {nextIdx : UInt64} {words : WriterFunc w β}
    (hpc : m.writer = .write nextIdx words) : Inv program (writeWord m nextIdx words) := by
  have hat := h.writer
  rw [hpc] at hat
  obtain ⟨hcalls, hidx, hstoring, hepoch, hepochs⟩ := hat
  cases words with
  | cons write rest =>
    obtain ⟨i, word⟩ := write
    refine h.setSlot prefix_rfl h.values (Cell.store hepoch hepoch) ⟨hcalls, hidx, ?_, ?_, ?_⟩
    · rw [slots_setSlot]
      exact hstoring.store
    · rw [slots_setSlot]
      exact hepoch
    · exact epoch_setSlot_le hepochs hepoch.le le_rfl
  | nil =>
    have hn := hstoring.lt_length
    have hunlocked := epoch_unlocked (show m.produced.length + 1 < 2 ^ 63 by omega)
    rw [← hidx] at hunlocked
    refine h.setSlot (prefix_append _ _) (hstoring.produced h.values)
      (Cell.unlock hepoch hunlocked) ?_
    simp only [WriterPc.At, length_append, length_singleton]
    exact ⟨hcalls, hidx, epoch_setSlot_le hepochs hunlocked.le (by omega)⟩

theorem inv_beginConsume : Inv program (beginConsume m) := by
  unfold beginConsume
  split
  · exact h
  · exact { h with reader := trivial }

theorem inv_loadLast (visitor : List (Fin w)) (idx : UInt64) :
    Inv program (loadLast m visitor idx) := by
  refine { h with reader := ?_ }
  simp only [loadLast]
  split
  · trivial
  · exact rfl

theorem inv_loadSeq {idx lastRead : UInt64} (hpc : m.reader = .loadSeq visitor idx lastRead) :
    Inv program (loadSeq m visitor idx lastRead) := by
  have hlast : lastRead = m.queue.lastGlobalIndex := by
    have hat := h.reader
    rwa [hpc] at hat
  refine { h with reader := ?_ }
  simp only [loadSeq]
  split
  · trivial
  case isFalse hlocked =>
    rw [Bool.not_eq_true, isLocked_eq_false_iff] at hlocked
    split
    · trivial
    case isFalse hnew =>
      rw [UInt64.le_iff_toNat_le, toNat_decodeIdx, hlast, not_le] at hnew
      have hepoch : epoch (m.queue.slots (c.slot idx)).seq =
          (m.queue.slots (c.slot idx)).seq.toNat := if_pos hlocked
      refine ⟨hnew, ?_⟩
      rw [← hepoch]
      exact Snapshot.start visitor (by simp only [cell, hepoch, hlocked])

theorem inv_readWord {idx seq1 : UInt64} {rest : List (Fin w)}
    (hpc : m.reader = .copy visitor idx seq1 rest words) :
    Inv program (readWord m visitor idx seq1 rest words) := by
  have hat := h.reader
  rw [hpc] at hat
  obtain ⟨hnew, hsnapshot⟩ := hat
  cases rest with
  | cons i rest => exact { h with reader := ⟨hnew, hsnapshot.read⟩ }
  | nil =>
    refine { h with reader := ?_ }
    simp only [readWord]
    split
    case isTrue hsame =>
      have hepoch : (cell (m.queue.slots (c.slot idx))).epoch = seq1.toNat := by
        rw [cell, ← hsame]
        exact if_pos hsnapshot.even
      have hexact := hsnapshot.exact hepoch (h.cells _) (by omega)
      rw [← toNat_decodeIdx] at hexact
      exact ⟨by rwa [toNat_decodeIdx], hexact⟩
    · trivial

theorem inv_storeLast {actualIdx : UInt64} (hpc : m.reader = .storeLast visitor actualIdx words) :
    Inv program (storeLast m visitor actualIdx words) := by
  have hat := h.reader
  rw [hpc] at hat
  obtain ⟨hnew, hexact⟩ := hat
  exact { h with log := h.log.append hexact hnew, reader := trivial, writer := h.writer }

theorem Inv.step (hfew : program.length < 2 ^ 63) (actor : Actor) : Inv program (step m actor) := by
  cases actor with
  | writer =>
    simp only [Evicting.step, writerStep]
    split
    case _ hpc => exact inv_beginProduce h hfew hpc
    case _ nextIdx words hpc => exact inv_writeWord h hfew hpc
    case _ nextIdx hpc =>
      have hat := h.writer
      rw [hpc] at hat
      exact { h with
        writer := ⟨hat.1, hat.2.1, hat.2.2⟩
        reader := h.reader.moves prefix_rfl rfl fun s => Cell.Moves.refl _ }
  | reader =>
    simp only [Evicting.step, readerStep]
    split
    case _ returned hpc => exact inv_beginConsume h
    case _ visitor idx hpc => exact inv_loadLast h visitor idx
    case _ visitor idx lastRead hpc => exact inv_loadSeq h hpc
    case _ visitor idx seq1 rest words hpc => exact inv_readWord h hpc
    case _ visitor actualIdx words hpc => exact inv_storeLast h hpc

end

/-- Every run keeps the invariant. -/
theorem inv_run [Inhabited β] (hfew : program.length < 2 ^ 63) (c : Capacity)
    (visitors : List (List (Fin w))) (schedule : List Actor) :
    Inv program (run c program visitors schedule) := by
  refine foldlRecOn schedule Evicting.step ?_ fun m h actor _ => h.step hfew actor
  refine ⟨?_, ?_, Log.empty _ rfl, ⟨rfl, rfl, fun s => le_rfl⟩, trivial⟩
  · intro j value hj
    cases hj
  · intro s heven hpos
    cases hpos

end Evicting

/-! ## The single slot -/

namespace SingleSlot

/-- The slot as a sequence-lock cell: the sequence word is the epoch. -/
def cell (slot : Slot w β) : Cell (Fin w) β := ⟨slot.seq.toNat, slot.data⟩

/-- Where the writer stands in its program once `n` values are complete. -/
def WriterPc.At (program calls : List (WriterFunc w β)) (slot : Slot w β) (n : ℕ) :
    WriterPc w β → Prop
  | .idle => calls = program.drop n ∧ slot.seq = UInt64.ofNat (2 * n)
  | .lock seq words =>
    calls = program.drop (n + 1) ∧ Storing program n words slot.data ∧
      slot.seq = UInt64.ofNat (2 * n) ∧ seq = slot.seq
  | .write seq rest =>
    calls = program.drop (n + 1) ∧ Storing program n rest slot.data ∧
      slot.seq = UInt64.ofNat (2 * n + 1) ∧ seq = UInt64.ofNat (2 * n)

/-- What the reader's local variables are worth. -/
def ReaderPc.At (produced : List (Fin w → β)) (queue : EvictingQueue w β) :
    ReaderPc w β → Prop
  | .idle _ => True
  | .loadLast visitor seq0 =>
    seq0.toNat % 2 = 0 → Snapshot (cell queue.slot) seq0.toNat visitor visitor []
  | .copy visitor seq0 rest words =>
    queue.lastSeq.toNat < seq0.toNat ∧ Snapshot (cell queue.slot) seq0.toNat visitor rest words
  | .storeLast visitor seq1 words =>
    queue.lastSeq.toNat < seq1.toNat ∧ seq1.toNat % 2 = 0 ∧
      Reading.Exact produced ⟨seq1.toNat / 2, visitor, words⟩

/-- The invariant of the two threads. -/
structure Inv (program : List (WriterFunc w β)) (m : Machine w β) : Prop where
  values : ProducedBy program m.produced
  complete : (cell m.queue.slot).Complete m.produced
  log : Log m.produced m.reads (m.queue.lastSeq.toNat / 2)
  even : m.queue.lastSeq.toNat % 2 = 0
  writer : m.writer.At program m.writerCalls m.queue.slot m.produced.length
  reader : m.reader.At m.produced m.queue

/-- The writer's moves do not disturb the reader. -/
theorem ReaderPc.At.moves {produced produced' : List (Fin w → β)} {queue : EvictingQueue w β}
    {pc : ReaderPc w β} (h : pc.At produced queue) (hgrows : produced <+: produced')
    (hmoves : (cell queue.slot).Moves (cell slot)) :
    pc.At produced' { queue with slot := slot } := by
  cases pc with
  | idle returned => trivial
  | loadLast visitor seq0 => exact fun heven => (h heven).moves hmoves
  | copy visitor seq0 rest words => exact ⟨h.1, h.2.moves hmoves⟩
  | storeLast visitor seq1 words => exact ⟨h.1, h.2.1, h.2.2.mono hgrows⟩

variable {program : List (WriterFunc w β)} {m : Machine w β}

/-- A step of the writer that moves the slot to a complete or unfinished value. -/
theorem Inv.setSlot (h : Inv program m) {writer : WriterPc w β} {produced : List (Fin w → β)}
    (hgrows : m.produced <+: produced) (hvalues : ProducedBy program produced)
    (hmove : (cell m.queue.slot).Moves (cell slot) ∧ (cell slot).Complete produced)
    (hwriter : writer.At program m.writerCalls slot produced.length) :
    Inv program
      { m with
        queue := { m.queue with slot := slot }, writer := writer, produced := produced } where
  values := hvalues
  complete := hmove.2
  log := h.log.mono hgrows
  even := h.even
  writer := hwriter
  reader := h.reader.moves hgrows hmove.1

section

variable (h : Inv program m)

include h

theorem inv_beginProduce (hpc : m.writer = .idle) : Inv program (beginProduce m) := by
  have hat := h.writer
  rw [hpc] at hat
  obtain ⟨hcalls, hseq⟩ := hat
  unfold beginProduce
  split
  · exact h
  case _ call rest hnext =>
    rw [hnext] at hcalls
    exact { h with writer := ⟨drop_succ_eq hcalls, Storing.begin hcalls _, hseq, rfl⟩ }

theorem inv_lock (hfew : program.length < 2 ^ 63) {seq : UInt64} {words : WriterFunc w β}
    (hpc : m.writer = .lock seq words) : Inv program (lock m seq words) := by
  have hat := h.writer
  rw [hpc] at hat
  obtain ⟨hcalls, hstoring, hslot, hseq⟩ := hat
  have hn := hstoring.lt_length
  rw [hslot] at hseq
  have hlocked : seq + 1 = UInt64.ofNat (2 * m.produced.length + 1) := by
    rw [hseq, UInt64.ofNat_add]
    rfl
  have hbefore := UInt64.toNat_ofNat_of_lt' (show 2 * m.produced.length < 2 ^ 64 by omega)
  have hafter := UInt64.toNat_ofNat_of_lt' (show 2 * m.produced.length + 1 < 2 ^ 64 by omega)
  refine h.setSlot prefix_rfl h.values ?_ ⟨hcalls, hstoring, hlocked, hseq⟩
  exact Cell.lock (by rw [cell, hslot, hbefore]) (by rw [cell, hlocked, hafter])

theorem inv_writeWord (hfew : program.length < 2 ^ 63) {seq : UInt64} {words : WriterFunc w β}
    (hpc : m.writer = .write seq words) : Inv program (writeWord m seq words) := by
  have hat := h.writer
  rw [hpc] at hat
  obtain ⟨hcalls, hstoring, hslot, hseq⟩ := hat
  have hn := hstoring.lt_length
  have hepoch : m.queue.slot.seq.toNat = 2 * m.produced.length + 1 := by
    rw [hslot, UInt64.toNat_ofNat_of_lt' (show 2 * m.produced.length + 1 < 2 ^ 64 by omega)]
  cases words with
  | cons write rest =>
    obtain ⟨i, word⟩ := write
    refine h.setSlot prefix_rfl h.values ?_ ⟨hcalls, hstoring.store, hslot, hseq⟩
    exact Cell.store hepoch hepoch
  | nil =>
    have hunlocked : seq + 2 = UInt64.ofNat (2 * (m.produced.length + 1)) := by
      rw [hseq, Nat.mul_succ, UInt64.ofNat_add]
      rfl
    have hafter := UInt64.toNat_ofNat_of_lt' (show 2 * (m.produced.length + 1) < 2 ^ 64 by omega)
    refine h.setSlot (prefix_append _ _) (hstoring.produced h.values)
      (Cell.unlock hepoch (by rw [cell, hunlocked, hafter])) ?_
    simp only [WriterPc.At, length_append, length_singleton]
    exact ⟨hcalls, hunlocked⟩

theorem inv_beginConsume : Inv program (beginConsume m) := by
  unfold beginConsume
  split
  · exact h
  · exact { h with reader := fun heven => Snapshot.start _ heven }

theorem inv_loadLast {seq0 : UInt64} (hpc : m.reader = .loadLast visitor seq0) :
    Inv program (loadLast m visitor seq0) := by
  have hsnapshot : seq0.toNat % 2 = 0 →
      Snapshot (cell m.queue.slot) seq0.toNat visitor visitor [] := by
    have hat := h.reader
    rwa [hpc] at hat
  refine { h with reader := ?_ }
  simp only [loadLast]
  split
  · trivial
  case isFalse hgo =>
    obtain ⟨hnew, hodd⟩ := not_or.mp hgo
    rw [UInt64.le_iff_toNat_le, not_le] at hnew
    have heven : seq0.toNat % 2 = 0 := by
      rw [ne_eq, not_not, ← UInt64.toNat_inj, UInt64.toNat_and] at hodd
      exact (Nat.and_one_is_mod _).symm.trans hodd
    exact ⟨hnew, hsnapshot heven⟩

theorem inv_readWord {seq0 : UInt64} {rest : List (Fin w)}
    (hpc : m.reader = .copy visitor seq0 rest words) :
    Inv program (readWord m visitor seq0 rest words) := by
  have hat := h.reader
  rw [hpc] at hat
  obtain ⟨hnew, hsnapshot⟩ := hat
  cases rest with
  | cons i rest => exact { h with reader := ⟨hnew, hsnapshot.read⟩ }
  | nil =>
    refine { h with reader := ?_ }
    simp only [readWord]
    split
    case isTrue hsame =>
      rw [← hsame]
      exact ⟨hnew, hsnapshot.even,
        hsnapshot.exact (congrArg UInt64.toNat hsame.symm) h.complete (by omega)⟩
    · trivial

theorem inv_storeLast {seq1 : UInt64} (hpc : m.reader = .storeLast visitor seq1 words) :
    Inv program (storeLast m visitor seq1 words) := by
  have hat := h.reader
  rw [hpc] at hat
  obtain ⟨hnew, heven, hexact⟩ := hat
  have hlast := h.even
  refine { h with log := h.log.append hexact ?_, even := heven, reader := trivial }
  change m.queue.lastSeq.toNat / 2 < seq1.toNat / 2
  omega

theorem Inv.step (hfew : program.length < 2 ^ 63) (actor : Actor) : Inv program (step m actor) := by
  cases actor with
  | writer =>
    simp only [SingleSlot.step, writerStep]
    split
    case _ hpc => exact inv_beginProduce h hpc
    case _ seq words hpc => exact inv_lock h hfew hpc
    case _ seq words hpc => exact inv_writeWord h hfew hpc
  | reader =>
    simp only [SingleSlot.step, readerStep]
    split
    case _ returned hpc => exact inv_beginConsume h
    case _ visitor seq0 hpc => exact inv_loadLast h hpc
    case _ visitor seq0 rest words hpc => exact inv_readWord h hpc
    case _ visitor seq1 words hpc => exact inv_storeLast h hpc

end

/-- Every run keeps the invariant. -/
theorem inv_run [Inhabited β] (hfew : program.length < 2 ^ 63) (visitors : List (List (Fin w)))
    (schedule : List Actor) : Inv program (run program visitors schedule) := by
  refine foldlRecOn schedule SingleSlot.step ?_ fun m h actor _ => h.step hfew actor
  refine ⟨?_, ?_, Log.empty _ (by simp [start]), rfl, ⟨rfl, rfl⟩, trivial⟩
  · intro j value hj
    cases hj
  · intro heven hpos
    cases hpos

end SingleSlot

/-! ## Both queues -/

/-- **Reads are never torn.**  For all calls of `produce` (fewer than `2 ^ 63` of them), all calls
of `try_consume_latest` and every interleaving of their accesses, on the ring of slots of any
capacity and on the single slot: every successful read returned the words of one complete value, as
one call of `produce` left it in its slot, and the numbers of those calls increase from read to
read. -/
theorem evicting_reads_exact [Inhabited β] (program : List (WriterFunc w β))
    (hfew : program.length < 2 ^ 63) (visitors : List (List (Fin w))) (schedule : List Actor) :
    (∀ c : Capacity, let m := Evicting.run c program visitors schedule
      ProducedBy program m.produced ∧ (∀ reading ∈ m.reads, reading.Exact m.produced) ∧
        m.reads.Pairwise fun earlier later => earlier.index < later.index) ∧
      let m := SingleSlot.run program visitors schedule
      ProducedBy program m.produced ∧ (∀ reading ∈ m.reads, reading.Exact m.produced) ∧
        m.reads.Pairwise fun earlier later => earlier.index < later.index := by
  refine ⟨?_, ?_⟩
  · intro c
    have h := Evicting.inv_run hfew c visitors schedule
    exact ⟨h.values, h.log.exact, h.log.increasing⟩
  · have h := SingleSlot.inv_run hfew visitors schedule
    exact ⟨h.values, h.log.exact, h.log.increasing⟩

/-- Two words pushed and read: both queues return them. -/
theorem evicting_reads_exact_two_words :
    let program := [pushWords fun i : Fin 2 => i.val + 1]
    let schedule := List.replicate 5 Actor.writer ++ List.replicate 7 Actor.reader
    let ring := Evicting.run ⟨2, 1, rfl⟩ program [allWords 2] schedule
    let single := SingleSlot.run program [allWords 2] schedule
    (ring.reads.map (·.words) = [[1, 2]] ∧ ∀ reading ∈ ring.reads, reading.Exact ring.produced) ∧
      single.reads.map (·.words) = [[1, 2]] ∧
        ∀ reading ∈ single.reads, reading.Exact single.produced := by
  intro program schedule ring single
  have h := evicting_reads_exact program (by decide) [allWords 2] schedule
  exact ⟨⟨by decide, (h.1 ⟨2, 1, rfl⟩).2.1⟩, by decide, h.2.2.1⟩

end Eph.Containers
