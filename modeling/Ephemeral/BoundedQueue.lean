import Ephemeral.RingWindow

/-!
# The bounded queue, one memory access at a time

`BoundedQueue` is a ring of slots with two wrapping indices.  The producer owns
`tail_` and a cached copy of `head_`; the consumer owns `head_` and a cached
copy of `tail_`.  Each side refreshes its cached copy only when that copy says
the queue is full (or empty).

The two threads are modelled as one machine.  A step of a thread performs one
load or store of an index or one slot copy, together with the thread-local work
up to its next access of shared memory.  A thread runs a list of calls; a
schedule lists which thread steps next.  Every sequentially consistent
interleaving is the run of some schedule.

A visitor is given by what it does to the slot.  A writer may look at the old
contents of its slot and at its index, so it is a function of both; whatever
else a stateful visitor depends on is fixed once the execution is.
-/

namespace Eph.Containers

open Ring

universe u

variable {α : Type u} {c : Capacity}

/-! ## Calls -/

/-- A span of values handed to a batch push; its length is a `size_t`. -/
structure Span (α : Type u) where
  /-- The values. -/
  data : List α
  /-- The number of values fits the 64-bit size. -/
  fits : data.length < 2 ^ 64

/-- `std::span::size`. -/
def Span.size (span : Span α) : UInt64 := UInt64.ofNat span.data.length

/-- A call on the producer's side. -/
inductive ProducerOp (α : Type u) where
  | tryProduce (writerFunc : α → α)
  | tryPushN (data : Span α)
  | tryProduceN (n : UInt64) (writer : α → UInt64 → α)

namespace ProducerOp

/-- `try_push` is `try_produce` with a writer that assigns the slot. -/
def tryPush (data : α) : ProducerOp α := .tryProduce fun _ => data

/-- The number of slots the call writes. -/
def count : ProducerOp α → UInt64
  | tryProduce _ => 1
  | tryPushN data => data.size
  | tryProduceN n _ => n

/-- What the call leaves in its `i`-th slot, given what stood there. -/
def put : ProducerOp α → UInt64 → α → α
  | tryProduce writerFunc, _, slot => writerFunc slot
  | tryPushN data, i, slot => data.data.getD i.toNat slot
  | tryProduceN _ writer, i, slot => writer slot i

/-- The call's test for too little room, given the tail and a value of the head.  `try_produce`
compares the distance with the capacity; the batch calls compare the free room with their size. -/
def lacksRoom (c : Capacity) : ProducerOp α → UInt64 → UInt64 → Bool
  | tryProduce _, tail, head => c.value ≤ tail - head
  | tryPushN data, tail, head => c.value - (tail - head) < data.size
  | tryProduceN n _, tail, head => c.value - (tail - head) < n

end ProducerOp

/-- A call on the consumer's side.  The visitor only reads, so a call is given by how many values
it asks for. -/
inductive ConsumerOp where
  | tryConsume
  | tryPeek
  | tryPopN (size : UInt64)
  | tryConsumeN (n : UInt64)
  deriving DecidableEq

/-- What a call on the consumer's side returns. -/
inductive ConsumerResult where
  | bool (ok : Bool)
  | count (n : UInt64)
  deriving DecidableEq

namespace ConsumerOp

/-- The number of values the call asks for. -/
def limit : ConsumerOp → UInt64
  | tryConsume => 1
  | tryPeek => 1
  | tryPopN size => size
  | tryConsumeN n => n

/-- The call's test for an empty queue, given the head and a value of the tail. -/
def seesNone : ConsumerOp → UInt64 → UInt64 → Bool
  | tryConsume, head, tail => tail == head
  | tryPeek, head, tail => tail == head
  | tryPopN _, head, tail => tail - head == 0
  | tryConsumeN _, head, tail => tail - head == 0

/-- The number of values the call visits when `available` of them are there. -/
def count : ConsumerOp → UInt64 → UInt64
  | tryConsume, _ => 1
  | tryPeek, _ => 1
  | tryPopN size, available => if available < size then available else size
  | tryConsumeN n, available => if available < n then available else n

/-- Whether the call moves the head past what it visited. -/
def advances : ConsumerOp → Bool
  | tryPeek => false
  | _ => true

/-- The call's return value after it visited `n` values. -/
def result : ConsumerOp → UInt64 → ConsumerResult
  | tryConsume, n => .bool (n != 0)
  | tryPeek, n => .bool (n != 0)
  | tryPopN _, n => .count n
  | tryConsumeN _, n => .count n

end ConsumerOp

/-! ## The queue and its two threads -/

/-- The queue's memory. -/
structure BoundedQueue (α : Type u) (c : Capacity) where
  /-- `writer_.tail_`. -/
  tail : UInt64 := 0
  /-- `writer_.shadow_head_`. -/
  shadowHead : UInt64 := 0
  /-- `reader_.head_`. -/
  head : UInt64 := 0
  /-- `reader_.shadow_tail_`. -/
  shadowTail : UInt64 := 0
  /-- `buffer_`. -/
  buffer : Fin c.size → α

/-- `BoundedQueue::size`. -/
def BoundedQueue.size (q : BoundedQueue α c) : UInt64 := q.tail - q.head

/-- The values in the ring from the head up to the tail. -/
def BoundedQueue.contents (q : BoundedQueue α c) : List α :=
  (List.range q.size.toNat).map fun i => q.buffer (c.slot (q.head + UInt64.ofNat i))

/-- Where the producer stands: the access it makes next, with its local variables. -/
inductive ProducerPc (α : Type u) where
  /-- Between calls, with what the last call returned. -/
  | idle (returned : Option Bool)
  /-- About to load `head_`, because the cached head left too little room. -/
  | loadHead (op : ProducerOp α) (tail : UInt64)
  /-- About to write its `i`-th slot. -/
  | copy (op : ProducerOp α) (tail i : UInt64)
  /-- About to store `tail_`. -/
  | publish (op : ProducerOp α) (tail : UInt64)

/-- Where the consumer stands. -/
inductive ConsumerPc where
  /-- Between calls, with what the last call returned. -/
  | idle (returned : Option ConsumerResult)
  /-- About to load `tail_`, because the cached tail showed an empty queue. -/
  | loadTail (op : ConsumerOp) (head : UInt64)
  /-- About to visit the `i`-th of `n` slots. -/
  | copy (op : ConsumerOp) (head n i : UInt64)
  /-- About to store `head_`. -/
  | advance (op : ConsumerOp) (head n : UInt64)
  deriving DecidableEq

/-- The two threads over one queue, with the history of the values that passed through it. -/
structure Machine (α : Type u) (c : Capacity) where
  queue : BoundedQueue α c
  producer : ProducerPc α
  consumer : ConsumerPc
  /-- The calls the producer has still to make. -/
  producerCalls : List (ProducerOp α)
  /-- The calls the consumer has still to make. -/
  consumerCalls : List ConsumerOp
  /-- The values produced by the calls that succeeded, in order. -/
  produced : List α
  /-- The values the producer's current call has written so far. -/
  staged : List α
  /-- The values visited by the calls that consume, in order. -/
  consumed : List α
  /-- The values shown by `try_peek`, each with the number of values consumed before. -/
  peeked : List (ℕ × α)

/-! ## The producer's steps -/

variable (m : Machine α c)

/-- Start the next call: a batch of no values returns at once; every other call loads `tail_` and
compares it with the cached head. -/
def beginProduce : Machine α c :=
  match m.producerCalls with
  | [] => m
  | op :: rest =>
    if op.count = 0 then
      { m with producer := .idle (some true), producerCalls := rest }
    else if op.lacksRoom c m.queue.tail m.queue.shadowHead then
      { m with producer := .loadHead op m.queue.tail, producerCalls := rest }
    else
      { m with producer := .copy op m.queue.tail 0, producerCalls := rest }

/-- Load `head_` into the cached head and decide. -/
def loadHead (op : ProducerOp α) (tail : UInt64) : Machine α c :=
  { m with
    queue := { m.queue with shadowHead := m.queue.head }
    producer :=
      if op.lacksRoom c tail m.queue.head then .idle (some false) else .copy op tail 0 }

/-- Write one slot. -/
def writeSlot (op : ProducerOp α) (tail i : UInt64) : Machine α c :=
  let slot := c.slot (tail + i)
  let value := op.put i (m.queue.buffer slot)
  { m with
    queue := { m.queue with buffer := Function.update m.queue.buffer slot value }
    producer := if i + 1 < op.count then .copy op tail (i + 1) else .publish op tail
    staged := m.staged ++ [value] }

/-- Store `tail_`, which makes the slots written visible. -/
def publish (op : ProducerOp α) (tail : UInt64) : Machine α c :=
  { m with
    queue := { m.queue with tail := tail + op.count }
    producer := .idle (some true)
    produced := m.produced ++ m.staged
    staged := [] }

/-- One step of the producer. -/
def producerStep : Machine α c :=
  match m.producer with
  | .idle _ => beginProduce m
  | .loadHead op tail => loadHead m op tail
  | .copy op tail i => writeSlot m op tail i
  | .publish op tail => publish m op tail

/-! ## The consumer's steps -/

/-- Start the next call: a batch of no values returns at once; every other call loads `head_` and
compares it with the cached tail. -/
def beginConsume : Machine α c :=
  match m.consumerCalls with
  | [] => m
  | op :: rest =>
    if op.limit = 0 then
      { m with consumer := .idle (some (op.result 0)), consumerCalls := rest }
    else if op.seesNone m.queue.head m.queue.shadowTail then
      { m with consumer := .loadTail op m.queue.head, consumerCalls := rest }
    else
      { m with
        consumer := .copy op m.queue.head (op.count (m.queue.shadowTail - m.queue.head)) 0
        consumerCalls := rest }

/-- Load `tail_` into the cached tail and decide. -/
def loadTail (op : ConsumerOp) (head : UInt64) : Machine α c :=
  { m with
    queue := { m.queue with shadowTail := m.queue.tail }
    consumer :=
      if op.seesNone head m.queue.tail then .idle (some (op.result 0))
      else .copy op head (op.count (m.queue.tail - head)) 0 }

/-- Visit one slot.  `try_peek` is done after its only slot; the other calls go on to store
`head_`. -/
def readSlot (op : ConsumerOp) (head n i : UInt64) : Machine α c :=
  let value := m.queue.buffer (c.slot (head + i))
  if op.advances then
    { m with
      consumer := if i + 1 < n then .copy op head n (i + 1) else .advance op head n
      consumed := m.consumed ++ [value] }
  else
    { m with
      consumer := .idle (some (op.result n))
      peeked := m.peeked ++ [(m.consumed.length, value)] }

/-- Store `head_`, which frees the slots visited. -/
def advance (op : ConsumerOp) (head n : UInt64) : Machine α c :=
  { m with
    queue := { m.queue with head := head + n }
    consumer := .idle (some (op.result n)) }

/-- One step of the consumer. -/
def consumerStep : Machine α c :=
  match m.consumer with
  | .idle _ => beginConsume m
  | .loadTail op head => loadTail m op head
  | .copy op head n i => readSlot m op head n i
  | .advance op head n => advance m op head n

/-! ## Runs -/

/-- Which thread steps. -/
inductive Thread where
  | producer
  | consumer
  deriving DecidableEq

/-- One step of the machine. -/
def step : Thread → Machine α c
  | .producer => producerStep m
  | .consumer => consumerStep m

/-- A fresh queue, with the calls the two threads are going to make. -/
def start [Inhabited α] (c : Capacity) (producerCalls : List (ProducerOp α))
    (consumerCalls : List ConsumerOp) : Machine α c where
  queue := { buffer := fun _ => default }
  producer := .idle none
  consumer := .idle none
  producerCalls := producerCalls
  consumerCalls := consumerCalls
  produced := []
  staged := []
  consumed := []
  peeked := []

/-- The machine after the steps of a schedule. -/
def run [Inhabited α] (c : Capacity) (producerCalls : List (ProducerOp α))
    (consumerCalls : List ConsumerOp) (schedule : List Thread) : Machine α c :=
  schedule.foldl step (start c producerCalls consumerCalls)

/-- Neither thread is inside a call. -/
def Machine.Quiescent : Prop :=
  (∃ returned, m.producer = .idle returned) ∧ ∃ returned, m.consumer = .idle returned

/-- The slot that the producer's next step writes, if it writes one. -/
def Machine.writing : Option (Fin c.size) :=
  match m.producer with
  | .copy _ tail i => some (c.slot (tail + i))
  | _ => none

end Eph.Containers
