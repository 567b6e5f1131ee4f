import Mathlib.Data.List.Basic
import Mathlib.Order.Nat

/-!
# Sequence locks

One writer stores values of several words into a cell, one word at a time; one
reader copies the words out without a lock.  The cell carries an epoch: odd
while the writer is at work, even once a value is complete.  The epoch never
goes back, and within an even epoch no word changes (`Cell.Moves`).  A reader
that saw an even epoch before its copy and the same epoch after it has
therefore copied one complete value, however often the writer came round in
between (`Snapshot.exact`).

The history lists the values in the order they were completed.  They are
counted from one, so value number `i` stands in the cell at epoch `2 * i`.
-/

namespace SeqLock

open List

variable {ι β : Type*} {history history' : List (ι → β)}

/-! ## Values stored word by word -/

section Stores

variable [DecidableEq ι]

/-- The words after the stores of `writes`, in order. -/
def storeAll (data : ι → β) (writes : List (ι × β)) : ι → β :=
  writes.foldl (fun words write => Function.update words write.1 write.2) data

end Stores

/-! ## The history -/

/-- `value` is value number `index` of the history, counted from one. -/
def Written (history : List (ι → β)) (index : ℕ) (value : ι → β) : Prop :=
  0 < index ∧ history[index - 1]? = some value

/-- The history only grows. -/
theorem Written.mono (hgrows : history <+: history') {index : ℕ} {value : ι → β}
    (h : Written history index value) : Written history' index value := by
  obtain ⟨more, rfl⟩ := hgrows
  refine ⟨h.1, ?_⟩
  rw [List.getElem?_append_left (List.getElem?_eq_some_iff.mp h.2).1]
  exact h.2

/-- The value added last. -/
theorem Written.last (history : List (ι → β)) (value : ι → β) :
    Written (history ++ [value]) (history.length + 1) value :=
  ⟨Nat.succ_pos _, getElem?_concat_length⟩

/-! ## The cell -/

/-- A cell: its epoch and its words. -/
structure Cell (ι β : Type*) where
  epoch : ℕ
  data : ι → β

/-- What the writer may do to a cell: start a later epoch, or store words in an odd one. -/
def Cell.Moves (before after : Cell ι β) : Prop :=
  before.epoch < after.epoch ∨
    before.epoch = after.epoch ∧ (before.epoch % 2 = 0 → before.data = after.data)

theorem Cell.Moves.refl (cell : Cell ι β) : cell.Moves cell :=
  Or.inr ⟨rfl, fun _ => rfl⟩

/-- In an even epoch the cell holds the value that the epoch counts. -/
def Cell.Complete (history : List (ι → β)) (cell : Cell ι β) : Prop :=
  cell.epoch % 2 = 0 → 0 < cell.epoch → Written history (cell.epoch / 2) cell.data

section Writer

variable {before after : Cell ι β} {n : ℕ}

/-- The writer locks a cell that holds none but the first `n` values. -/
theorem Cell.lock (hbefore : before.epoch ≤ 2 * n) (hafter : after.epoch = 2 * n + 1) :
    before.Moves after ∧ after.Complete history :=
  ⟨.inl (by omega), fun heven => by omega⟩

/-- It stores a word. -/
theorem Cell.store (hbefore : before.epoch = 2 * n + 1) (hafter : after.epoch = 2 * n + 1) :
    before.Moves after ∧ after.Complete history :=
  ⟨.inr ⟨by omega, fun heven => by omega⟩, fun heven => by omega⟩

/-- It unlocks the cell, and has completed one value more. -/
theorem Cell.unlock (hbefore : before.epoch = 2 * history.length + 1)
    (hafter : after.epoch = 2 * (history.length + 1)) :
    before.Moves after ∧ after.Complete (history ++ [after.data]) := by
  refine ⟨.inl (by omega), fun _ _ => ?_⟩
  rw [hafter, Nat.mul_div_cancel_left _ Nat.two_pos]
  exact Written.last _ _

end Writer

theorem Cell.Complete.mono (hgrows : history <+: history') {cell : Cell ι β}
    (h : cell.Complete history) : cell.Complete history' :=
  fun heven hpos => (h heven hpos).mono hgrows

/-! ## The reader's copy -/

/-- A copy of the words at `visitor` under way: begun in the even epoch `seen`, with those at
`rest` still to be copied.  The copy is right as long as the epoch has not moved on, and the epoch
does not come back. -/
structure Snapshot (cell : Cell ι β) (seen : ℕ) (visitor rest : List ι) (words : List β) :
    Prop where
  even : seen % 2 = 0
  le : seen ≤ cell.epoch
  same : cell.epoch = seen → words ++ rest.map cell.data = visitor.map cell.data

/-- A successful read: the value's number, the words asked for and the words returned. -/
structure Reading (ι β : Type*) where
  index : ℕ
  visitor : List ι
  words : List β

/-- The words returned are those of the one value number `index`. -/
def Reading.Exact (history : List (ι → β)) (reading : Reading ι β) : Prop :=
  ∃ value, Written history reading.index value ∧ reading.words = reading.visitor.map value

theorem Reading.Exact.mono (hgrows : history <+: history') {reading : Reading ι β}
    (h : reading.Exact history) : reading.Exact history' := by
  obtain ⟨value, hwritten, hwords⟩ := h
  exact ⟨value, hwritten.mono hgrows, hwords⟩

namespace Snapshot

variable {cell after : Cell ι β} {seen : ℕ} {visitor rest : List ι} {words : List β}

theorem start (visitor : List ι) (heven : cell.epoch % 2 = 0) :
    Snapshot cell cell.epoch visitor visitor [] :=
  ⟨heven, le_rfl, fun _ => rfl⟩

/-- Copying one more word. -/
theorem read {i : ι} (h : Snapshot cell seen visitor (i :: rest) words) :
    Snapshot cell seen visitor rest (words ++ [cell.data i]) := by
  refine ⟨h.even, h.le, ?_⟩
  intro hsame
  rw [← h.same hsame, append_assoc]
  rfl

/-- The writer's moves keep the copy under way. -/
theorem moves (h : Snapshot cell seen visitor rest words) (hmoves : cell.Moves after) :
    Snapshot after seen visitor rest words := by
  have hle := h.le
  rcases hmoves with hlater | ⟨hepoch, hdata⟩
  · exact ⟨h.even, by omega, fun hsame => by omega⟩
  refine ⟨h.even, by omega, ?_⟩
  intro hsame
  have hseen : cell.epoch = seen := hepoch.trans hsame
  rw [← hdata (by rw [hseen]; exact h.even)]
  exact h.same hseen

/-- **Never torn.**  A copy that ends in the epoch it began in is the complete value of that
epoch. -/
theorem exact (h : Snapshot cell seen visitor [] words)
    (hsame : cell.epoch = seen) (hcomplete : cell.Complete history) (hpos : 0 < seen) :
    Reading.Exact history ⟨seen / 2, visitor, words⟩ := by
  refine ⟨cell.data, ?_, (append_nil _).symm.trans (h.same hsame)⟩
  rw [← hsame]
  exact hcomplete (by rw [hsame]; exact h.even) (by omega)

end Snapshot

/-- A read returns the number of a value that has been produced. -/
theorem Reading.Exact.index_range {reading : Reading ι β} (h : reading.Exact history) :
    0 < reading.index ∧ reading.index ≤ history.length := by
  obtain ⟨value, ⟨hpos, hvalue⟩, -⟩ := h
  have hlt := (List.getElem?_eq_some_iff.mp hvalue).1
  exact ⟨hpos, by omega⟩

/-! ## The reader's log -/

/-- The successful reads so far: each exact, with increasing numbers, up to the last, which is 0
before the first read. -/
structure Log (history : List (ι → β)) (reads : List (Reading ι β)) (last : ℕ) : Prop where
  exact : ∀ reading ∈ reads, reading.Exact history
  increasing : reads.Pairwise fun earlier later => earlier.index < later.index
  le_last : ∀ reading ∈ reads, reading.index ≤ last
  last_mem : last ∈ 0 :: reads.map (·.index)

theorem Log.empty (history : List (ι → β)) {last : ℕ} (hlast : last = 0) : Log history [] last := by
  refine ⟨?_, List.Pairwise.nil, ?_, mem_singleton.mpr hlast⟩ <;>
  · intro reading hmem
    cases hmem

theorem Log.mono (hgrows : history <+: history') {reads : List (Reading ι β)} {last : ℕ}
    (h : Log history reads last) : Log history' reads last :=
  { h with exact := fun reading hmem => (h.exact reading hmem).mono hgrows }

theorem Log.append {reads : List (Reading ι β)} {last : ℕ}
    (h : Log history reads last) {reading : Reading ι β} (hexact : reading.Exact history)
    (hlater : last < reading.index) : Log history (reads ++ [reading]) reading.index := by
  refine ⟨?_, ?_, ?_, by simp⟩
  · exact forall_mem_append.mpr ⟨h.exact, forall_mem_singleton.mpr hexact⟩
  · rw [pairwise_append]
    refine ⟨h.increasing, pairwise_singleton _ _, ?_⟩
    intro earlier hearlier later hlater'
    rw [mem_singleton.mp hlater']
    exact (h.le_last earlier hearlier).trans_lt hlater
  · exact forall_mem_append.mpr ⟨fun other hold => (h.le_last other hold).trans hlater.le,
      forall_mem_singleton.mpr le_rfl⟩

/-- The last value read has been produced. -/
theorem Log.last_le {reads : List (Reading ι β)} {last : ℕ} (h : Log history reads last) :
    last ≤ history.length := by
  rcases mem_cons.mp h.last_mem with rfl | hlast
  · exact Nat.zero_le _
  · obtain ⟨reading, hmem, rfl⟩ := mem_map.mp hlast
    exact (h.exact reading hmem).index_range.2

end SeqLock
