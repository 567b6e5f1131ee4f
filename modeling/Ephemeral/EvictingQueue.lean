import Ephemeral.RingWindow
import Ephemeral.SeqLock

/-!
# The evicting queue, one memory access at a time

`EvictingQueue` keeps the latest values of one writer for one reader.  The
writer never waits: it locks the next slot by an odd sequence word, stores the
value, unlocks the slot and publishes the index.  The reader copies the latest
slot and then checks that the slot's sequence word is the one it saw before.
The primary template has a ring of slots (`Evicting`); the specialisation for
one slot (`SingleSlot`) keeps no index besides the sequence word.

A value has `w` words.  A step of a thread performs one atomic access or
copies one word.  A writer's visitor is the list of the words it stores, in
its order; a reader's visitor is the list of the words it reads.
-/

namespace Eph.Containers

open Ring SeqLock

universe u

variable {w : ℕ} {β : Type u}

/-- The words a call of `produce` stores, in order. -/
abbrev WriterFunc (w : ℕ) (β : Type u) := List (Fin w × β)

/-- `push` stores every word of its value. -/
def pushWords (value : Fin w → β) : WriterFunc w β :=
  (List.finRange w).map fun i => (i, value i)

/-- `try_pop_latest` reads every word. -/
def allWords (w : ℕ) : List (Fin w) := List.finRange w

/-- A slot: its sequence word and its data. -/
structure Slot (w : ℕ) (β : Type u) where
  seq : UInt64 := 0
  data : Fin w → β

/-- Which thread steps. -/
inductive Actor where
  | writer
  | reader
  deriving DecidableEq

/-! ## The ring of slots -/

namespace Evicting

variable {c : Capacity}

/-- `encode_seq`: the index above the lock flag. -/
def encodeSeq (idx : UInt64) (locked : Bool) : UInt64 := idx <<< 1 ||| locked.toUInt64

/-- `decode_idx`. -/
def decodeIdx (seq : UInt64) : UInt64 := seq >>> 1

/-- `is_locked`. -/
def isLocked (seq : UInt64) : Bool := seq &&& 1 != 0

/-- The queue's memory. -/
structure EvictingQueue (c : Capacity) (w : ℕ) (β : Type u) where
  /-- `global_index_`. -/
  globalIndex : UInt64 := 0
  /-- `writer_.shadow_global_index_`. -/
  shadowGlobalIndex : UInt64 := 0
  /-- `reader_.last_global_index_`. -/
  lastGlobalIndex : UInt64 := 0
  /-- `slots_`. -/
  slots : Fin c.size → Slot w β

/-- Where the writer stands: the access it makes next, with its local variables. -/
inductive WriterPc (w : ℕ) (β : Type u) where
  /-- Between calls. -/
  | idle
  /-- The slot is locked; these words are still to be stored, and then the slot is unlocked. -/
  | write (nextIdx : UInt64) (words : WriterFunc w β)
  /-- About to store `global_index_`. -/
  | publish (nextIdx : UInt64)
  deriving DecidableEq

/-- Where the reader stands. -/
inductive ReaderPc (w : ℕ) (β : Type u) where
  /-- Between calls, with what the last call returned. -/
  | idle (returned : Option Bool)
  /-- About to load `last_global_index_`. -/
  | loadLast (visitor : List (Fin w)) (idx : UInt64)
  /-- About to load the slot's sequence word. -/
  | loadSeq (visitor : List (Fin w)) (idx lastRead : UInt64)
  /-- Copying the words of `rest`; after the last one the sequence word is loaded again. -/
  | copy (visitor : List (Fin w)) (idx seq1 : UInt64) (rest : List (Fin w)) (words : List β)
  /-- About to store `last_global_index_`. -/
  | storeLast (visitor : List (Fin w)) (actualIdx : UInt64) (words : List β)

/-- The two threads over one queue, with the history of values and of successful reads. -/
structure Machine (c : Capacity) (w : ℕ) (β : Type u) where
  queue : EvictingQueue c w β
  writer : WriterPc w β
  reader : ReaderPc w β
  /-- The calls of `produce` still to be made. -/
  writerCalls : List (WriterFunc w β)
  /-- The calls of `try_consume_latest` still to be made. -/
  readerCalls : List (List (Fin w))
  /-- The values produced, in order: what each call left in its slot when it unlocked it. -/
  produced : List (Fin w → β)
  /-- The successful reads, in order. -/
  reads : List (Reading (Fin w) β)

/-- Change one slot. -/
def EvictingQueue.setSlot (q : EvictingQueue c w β) (idx : UInt64) (slot : Slot w β) :
    EvictingQueue c w β :=
  { q with slots := Function.update q.slots (c.slot idx) slot }

variable (m : Machine c w β) (visitor : List (Fin w))

/-- Start a call of `produce`: lock the next slot. -/
def beginProduce : Machine c w β :=
  match m.writerCalls with
  | [] => m
  | writerFunc :: rest =>
    let nextIdx := m.queue.shadowGlobalIndex + 1
    let slot := m.queue.slots (c.slot nextIdx)
    { m with
      queue := m.queue.setSlot nextIdx { slot with seq := encodeSeq nextIdx true }
      writer := .write nextIdx writerFunc
      writerCalls := rest }

/-- Store one word, or unlock the slot after the last one. -/
def writeWord (nextIdx : UInt64) (words : WriterFunc w β) : Machine c w β :=
  let slot := m.queue.slots (c.slot nextIdx)
  match words with
  | (i, word) :: rest =>
    { m with
      queue := m.queue.setSlot nextIdx { slot with data := Function.update slot.data i word }
      writer := .write nextIdx rest }
  | [] =>
    { m with
      queue := m.queue.setSlot nextIdx { slot with seq := encodeSeq nextIdx false }
      writer := .publish nextIdx
      produced := m.produced ++ [slot.data] }

/-- Store `global_index_` and remember it. -/
def publishIndex (nextIdx : UInt64) : Machine c w β :=
  { m with
    queue := { m.queue with globalIndex := nextIdx, shadowGlobalIndex := nextIdx }
    writer := .idle }

/-- One step of the writer. -/
def writerStep : Machine c w β :=
  match m.writer with
  | .idle => beginProduce m
  | .write nextIdx words => writeWord m nextIdx words
  | .publish nextIdx => publishIndex m nextIdx

/-- Start a call of `try_consume_latest`: load `global_index_`. -/
def beginConsume : Machine c w β :=
  match m.readerCalls with
  | [] => m
  | visitor :: rest =>
    { m with reader := .loadLast visitor m.queue.globalIndex, readerCalls := rest }

/-- Load `last_global_index_`: there may be nothing new. -/
def loadLast (idx : UInt64) : Machine c w β :=
  let lastRead := m.queue.lastGlobalIndex
  { m with
    reader := if idx ≤ lastRead then .idle (some false) else .loadSeq visitor idx lastRead }

/-- Load the slot's sequence word: the slot may be locked, or hold a value already read. -/
def loadSeq (idx lastRead : UInt64) : Machine c w β :=
  let seq1 := (m.queue.slots (c.slot idx)).seq
  { m with
    reader :=
      if isLocked seq1 then .idle (some false)
      else if decodeIdx seq1 ≤ lastRead then .idle (some false)
      else .copy visitor idx seq1 visitor [] }

/-- Copy one word, or load the sequence word again after the last one. -/
def readWord (idx seq1 : UInt64) (rest : List (Fin w)) (words : List β) : Machine c w β :=
  let slot := m.queue.slots (c.slot idx)
  match rest with
  | i :: rest => { m with reader := .copy visitor idx seq1 rest (words ++ [slot.data i]) }
  | [] =>
    { m with
      reader :=
        if seq1 = slot.seq then .storeLast visitor (decodeIdx seq1) words
        else .idle (some false) }

/-- Store `last_global_index_`; the read has succeeded. -/
def storeLast (actualIdx : UInt64) (words : List β) : Machine c w β :=
  { m with
    queue := { m.queue with lastGlobalIndex := actualIdx }
    reader := .idle (some true)
    reads := m.reads ++ [⟨actualIdx.toNat, visitor, words⟩] }

/-- One step of the reader. -/
def readerStep : Machine c w β :=
  match m.reader with
  | .idle _ => beginConsume m
  | .loadLast visitor idx => loadLast m visitor idx
  | .loadSeq visitor idx lastRead => loadSeq m visitor idx lastRead
  | .copy visitor idx seq1 rest words => readWord m visitor idx seq1 rest words
  | .storeLast visitor actualIdx words => storeLast m visitor actualIdx words

/-- One step of the machine. -/
def step : Actor → Machine c w β
  | .writer => writerStep m
  | .reader => readerStep m

/-- A fresh queue, with the calls the two threads are going to make. -/
def start [Inhabited β] (c : Capacity) (writerCalls : List (WriterFunc w β))
    (readerCalls : List (List (Fin w))) : Machine c w β where
  queue := { slots := fun _ => { data := fun _ => default } }
  writer := .idle
  reader := .idle none
  writerCalls := writerCalls
  readerCalls := readerCalls
  produced := []
  reads := []

/-- The machine after the steps of a schedule. -/
def run [Inhabited β] (c : Capacity) (writerCalls : List (WriterFunc w β))
    (readerCalls : List (List (Fin w))) (schedule : List Actor) : Machine c w β :=
  schedule.foldl step (start c writerCalls readerCalls)

end Evicting

/-! ## The single slot -/

namespace SingleSlot

/-- The queue's memory: `seq_`, `data_` and `last_seq_`. -/
structure EvictingQueue (w : ℕ) (β : Type u) where
  slot : Slot w β
  lastSeq : UInt64 := 0

/-- Where the writer stands. -/
inductive WriterPc (w : ℕ) (β : Type u) where
  /-- Between calls. -/
  | idle
  /-- About to store the odd sequence word. -/
  | lock (seq : UInt64) (words : WriterFunc w β)
  /-- These words are still to be stored, and then the even sequence word. -/
  | write (seq : UInt64) (words : WriterFunc w β)
  deriving DecidableEq

/-- Where the reader stands. -/
inductive ReaderPc (w : ℕ) (β : Type u) where
  /-- Between calls, with what the last call returned. -/
  | idle (returned : Option Bool)
  /-- About to load `last_seq_`. -/
  | loadLast (visitor : List (Fin w)) (seq0 : UInt64)
  /-- Copying the words of `rest`; after the last one the sequence word is loaded again. -/
  | copy (visitor : List (Fin w)) (seq0 : UInt64) (rest : List (Fin w)) (words : List β)
  /-- About to store `last_seq_`. -/
  | storeLast (visitor : List (Fin w)) (seq1 : UInt64) (words : List β)

/-- The two threads over one queue, with the history of values and of successful reads. -/
structure Machine (w : ℕ) (β : Type u) where
  queue : EvictingQueue w β
  writer : WriterPc w β
  reader : ReaderPc w β
  /-- The calls of `produce` still to be made. -/
  writerCalls : List (WriterFunc w β)
  /-- The calls of `try_consume_latest` still to be made. -/
  readerCalls : List (List (Fin w))
  /-- The values produced, in order: what each call left in its slot when it unlocked it. -/
  produced : List (Fin w → β)
  /-- The successful reads, in order. -/
  reads : List (Reading (Fin w) β)

/-- Store the sequence word. -/
def EvictingQueue.setSeq (q : EvictingQueue w β) (seq : UInt64) : EvictingQueue w β :=
  { q with slot := { q.slot with seq := seq } }

variable (m : Machine w β) (visitor : List (Fin w))

/-- Start a call of `produce`: load the sequence word. -/
def beginProduce : Machine w β :=
  match m.writerCalls with
  | [] => m
  | writerFunc :: rest =>
    { m with writer := .lock m.queue.slot.seq writerFunc, writerCalls := rest }

/-- Store the odd sequence word. -/
def lock (seq : UInt64) (words : WriterFunc w β) : Machine w β :=
  { m with queue := m.queue.setSeq (seq + 1), writer := .write seq words }

/-- Store one word, or the even sequence word after the last one. -/
def writeWord (seq : UInt64) (words : WriterFunc w β) : Machine w β :=
  match words with
  | (i, word) :: rest =>
    { m with
      queue :=
        { m.queue with
          slot := { m.queue.slot with data := Function.update m.queue.slot.data i word } }
      writer := .write seq rest }
  | [] =>
    { m with
      queue := m.queue.setSeq (seq + 2)
      writer := .idle
      produced := m.produced ++ [m.queue.slot.data] }

/-- One step of the writer. -/
def writerStep : Machine w β :=
  match m.writer with
  | .idle => beginProduce m
  | .lock seq words => lock m seq words
  | .write seq words => writeWord m seq words

/-- Start a call of `try_consume_latest`: load the sequence word. -/
def beginConsume : Machine w β :=
  match m.readerCalls with
  | [] => m
  | visitor :: rest =>
    { m with reader := .loadLast visitor m.queue.slot.seq, readerCalls := rest }

/-- Load `last_seq_`: there may be nothing new, or the writer may be at work. -/
def loadLast (seq0 : UInt64) : Machine w β :=
  { m with
    reader :=
      if seq0 ≤ m.queue.lastSeq ∨ seq0 &&& 1 ≠ 0 then .idle (some false)
      else .copy visitor seq0 visitor [] }

/-- Copy one word, or load the sequence word again after the last one. -/
def readWord (seq0 : UInt64) (rest : List (Fin w)) (words : List β) : Machine w β :=
  match rest with
  | i :: rest =>
    { m with reader := .copy visitor seq0 rest (words ++ [m.queue.slot.data i]) }
  | [] =>
    let seq1 := m.queue.slot.seq
    { m with
      reader := if seq0 = seq1 then .storeLast visitor seq1 words else .idle (some false) }

/-- Store `last_seq_`; the read has succeeded.  The value's number is half the sequence word. -/
def storeLast (seq1 : UInt64) (words : List β) : Machine w β :=
  { m with
    queue := { m.queue with lastSeq := seq1 }
    reader := .idle (some true)
    reads := m.reads ++ [⟨seq1.toNat / 2, visitor, words⟩] }

/-- One step of the reader. -/
def readerStep : Machine w β :=
  match m.reader with
  | .idle _ => beginConsume m
  | .loadLast visitor seq0 => loadLast m visitor seq0
  | .copy visitor seq0 rest words => readWord m visitor seq0 rest words
  | .storeLast visitor seq1 words => storeLast m visitor seq1 words

/-- One step of the machine. -/
def step : Actor → Machine w β
  | .writer => writerStep m
  | .reader => readerStep m

/-- A fresh queue, with the calls the two threads are going to make. -/
def start [Inhabited β] (writerCalls : List (WriterFunc w β))
    (readerCalls : List (List (Fin w))) : Machine w β where
  queue := { slot := { data := fun _ => default } }
  writer := .idle
  reader := .idle none
  writerCalls := writerCalls
  readerCalls := readerCalls
  produced := []
  reads := []

/-- The machine after the steps of a schedule. -/
def run [Inhabited β] (writerCalls : List (WriterFunc w β)) (readerCalls : List (List (Fin w)))
    (schedule : List Actor) : Machine w β :=
  schedule.foldl step (start writerCalls readerCalls)

end SingleSlot

end Eph.Containers
