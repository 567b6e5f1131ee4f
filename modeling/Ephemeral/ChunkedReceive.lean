import Mathlib.Data.List.Basic

/-!
# Receiving a stream in chunks

A decoder looks at the bytes received so far and says that a message is complete, and how
long it is, or that more bytes are needed, or that the bytes are malformed.  A receive loop
appends each chunk to what it holds and takes messages off the front while the decoder finds
them.

A text delimits itself for a decoder if the decoder asks for more on every strict part of it
and recognises it whatever follows.  Where a stream consists of such texts, it does not matter
how it is cut: the loop recovers their messages (`receive_delimited`).

A `Format` is an encoder that writes into a buffer and a decoder, both with every access to
memory checked.  `Format.RoundTrip` is what one expects of the two together.
-/

variable {α μ ε : Type*}

/-- What a decoder makes of the bytes in front of it: a message and its length, `none` where
more bytes are needed. -/
abbrev Decoder (α μ ε : Type*) := List α → Except ε (Option (μ × Nat))

/-- The text announces its own end: no strict part of it is judged, and no bytes behind it
change the verdict. -/
structure Decoder.Delimits (decode : Decoder α μ ε) (text : List α) (message : μ) : Prop where
  pos : 0 < text.length
  whole : ∀ rest, decode (text ++ rest) = .ok (some (message, text.length))
  part : ∀ n, n < text.length → decode (text.take n) = .ok none

/-- The receiving side: what it holds, what it has recovered, and why it gave up. -/
@[ext]
structure Receiver (α μ ε : Type*) where
  pending : List α
  messages : List μ
  failed : Option ε
  deriving DecidableEq

namespace Receiver

open List

/-- The loop over the bytes held, for at most `fuel` messages. -/
def drain (decode : Decoder α μ ε) : Nat → Receiver α μ ε → Receiver α μ ε
  | 0, r => r
  | fuel + 1, r =>
    if r.pending.isEmpty then r
    else
      match decode r.pending with
      | .error e => { r with failed := some e }
      | .ok none => r
      | .ok (some (message, n)) =>
        drain decode fuel { r with
          pending := r.pending.drop n
          messages := r.messages ++ [message] }

/-- A chunk arrives. -/
def feed (decode : Decoder α μ ε) (r : Receiver α μ ε) (chunk : List α) : Receiver α μ ε :=
  if r.failed.isSome then r
  else
    let held := r.pending ++ chunk
    drain decode held.length { r with pending := held }

/-- The whole receive loop, from its start. -/
def receive (decode : Decoder α μ ε) (chunks : List (List α)) : Receiver α μ ε :=
  chunks.foldl (feed decode) ⟨[], [], none⟩

/-- The bytes of a list of texts, one behind the other. -/
def wire (texts : List (List α × μ)) : List α := (texts.map Prod.fst).flatten

/-- The receiver between two chunks: it has the messages `done`, holds a strict part of the
next text, and what it holds and what is to come are the texts `todo`. -/
structure Standing (r : Receiver α μ ε) (done : List μ) (todo : List (List α × μ))
    (later : List α) : Prop where
  failed : r.failed = none
  messages : r.messages = done
  stream : r.pending ++ later = wire todo
  short : ∀ text ∈ todo.head?, r.pending.length < text.1.length

section Delimited

variable {decode : Decoder α μ ε} {todo : List (List α × μ)}
  (h : ∀ text ∈ todo, decode.Delimits text.1 text.2)

include h

/-- The loop takes off the texts that have arrived whole, and stops inside the next one. -/
theorem drain_standing
    (r : Receiver α μ ε) {later : List α} (fuel : Nat) (hfuel : r.pending.length ≤ fuel)
    (hfailed : r.failed = none) (hstream : r.pending ++ later = wire todo) :
    ∃ taken left, todo = taken ++ left ∧
      Standing (drain decode fuel r) (r.messages ++ taken.map Prod.snd) left later := by
  induction todo generalizing r fuel with
  | nil =>
    have hempty : r.pending = [] := (append_eq_nil_iff.mp hstream).1
    have hdrain : drain decode fuel r = r := by
      cases fuel <;> simp [drain, hempty]
    rw [hdrain]
    exact ⟨[], [], rfl, hfailed, by simp, hstream, nofun⟩
  | cons text todo ih =>
    have htext := h text mem_cons_self
    have hpos := htext.pos
    have hwire : wire (text :: todo) = text.1 ++ wire todo := by simp [wire]
    rw [hwire] at hstream
    rcases Nat.lt_or_ge r.pending.length text.1.length with hshort | hfull
    · -- Only a part of the next text is here: the decoder asks for more.
      have hpart : r.pending = text.1.take r.pending.length := by
        have htake := congrArg (List.take r.pending.length) hstream
        rwa [take_left, take_append_of_le_length (Nat.le_of_lt hshort)] at htake
      have hdrain : drain decode fuel r = r := by
        cases fuel with
        | zero => rfl
        | succ fuel =>
          have hmore := htext.part _ hshort
          rw [← hpart] at hmore
          simp only [drain, hmore, ite_self]
      rw [hdrain]
      refine ⟨[], text :: todo, rfl, hfailed, by simp, by rw [hwire, hstream], ?_⟩
      intro first hfirst
      cases hfirst
      exact hshort
    · obtain ⟨held, hheld⟩ : ∃ held, r.pending = text.1 ++ held := by
        refine ⟨r.pending.drop text.1.length, ?_⟩
        have htake := congrArg (List.take text.1.length) hstream
        rw [take_left, take_append_of_le_length hfull] at htake
        conv_lhs => rw [← take_append_drop text.1.length r.pending, htake]
      have hnonempty : r.pending.isEmpty = false := by
        rw [← Bool.not_eq_true, isEmpty_iff_length_eq_zero]
        omega
      have hrest : held ++ later = wire todo := by
        rw [hheld, append_assoc] at hstream
        exact append_cancel_left hstream
      have hlength : r.pending.length = text.1.length + held.length := by
        rw [hheld, length_append]
      obtain ⟨fuel, rfl⟩ : ∃ k, fuel = k + 1 := ⟨fuel - 1, by omega⟩
      have hround : drain decode (fuel + 1) r =
          drain decode fuel { r with
            pending := held
            messages := r.messages ++ [text.2] } := by
        rw [drain, hnonempty, hheld, htext.whole held]
        simp
      obtain ⟨taken, left, hsplit, hstanding⟩ :=
        ih (fun t ht => h t (mem_cons_of_mem _ ht))
          { r with pending := held, messages := r.messages ++ [text.2] } fuel
          (by dsimp only; omega) hfailed hrest
      refine ⟨text :: taken, left, by rw [hsplit, cons_append], ?_⟩
      rw [hround]
      rwa [append_assoc] at hstanding

/-- A chunk arrives between two texts or inside one. -/
theorem feed_standing {r : Receiver α μ ε}
    {done : List μ} {chunk later : List α} (hr : Standing r done todo (chunk ++ later)) :
    ∃ taken left, todo = taken ++ left ∧
      Standing (feed decode r chunk) (done ++ taken.map Prod.snd) left later := by
  have hstream := hr.stream
  rw [← append_assoc] at hstream
  have hfeed : feed decode r chunk =
      drain decode (r.pending ++ chunk).length { r with pending := r.pending ++ chunk } := by
    rw [feed, hr.failed]
    rfl
  rw [hfeed, ← hr.messages]
  exact drain_standing h { r with pending := r.pending ++ chunk } _ (Nat.le_refl _) hr.failed
    hstream

/-- The chunks that are still to come bring the texts that are still to come. -/
theorem foldl_feed_standing {r : Receiver α μ ε} {done : List μ} {chunks : List (List α)}
    {later : List α} (hr : Standing r done todo (chunks.flatten ++ later)) :
    ∃ taken left, todo = taken ++ left ∧
      Standing (chunks.foldl (feed decode) r) (done ++ taken.map Prod.snd) left later := by
  induction chunks generalizing r done todo with
  | nil => exact ⟨[], todo, rfl, by simpa using hr⟩
  | cons chunk chunks ih =>
    rw [flatten_cons, append_assoc] at hr
    obtain ⟨first, rest, rfl, hfed⟩ := feed_standing h hr
    obtain ⟨second, left, rfl, hrun⟩ := ih (fun t ht => h t (mem_append_right _ ht)) hfed
    refine ⟨first ++ second, left, (append_assoc ..).symm, ?_⟩
    rwa [map_append, ← append_assoc]

/-- **However the stream is cut, the loop recovers the messages of its texts**, in order, and
holds nothing back. -/
theorem receive_delimited {chunks : List (List α)} (hchunks : chunks.flatten = wire todo) :
    receive decode chunks = ⟨[], todo.map Prod.snd, none⟩ := by
  have hstart : Standing (⟨[], [], none⟩ : Receiver α μ ε) [] todo (chunks.flatten ++ []) := by
    refine ⟨rfl, rfl, by simpa using hchunks, ?_⟩
    intro text htext
    exact (h text (mem_of_mem_head? htext)).pos
  obtain ⟨taken, left, rfl, hend⟩ := foldl_feed_standing h hstart
  rw [receive]
  have hpending := hend.stream
  rw [append_nil] at hpending
  cases left with
  | nil =>
    rw [append_nil]
    exact Receiver.ext hpending hend.messages hend.failed
  | cons text left =>
    -- Nothing is to come, so a text cannot be there in part only.
    have hshort := hend.short text rfl
    have hlength := congrArg List.length hpending
    simp only [wire, map_cons, flatten_cons, length_append] at hlength
    omega

end Delimited

end Receiver

/-! ## Encoders and decoders over memory -/

/-- An encoder and a decoder of messages in memory.  `encode buf x` is the buffer after the
call with the number of elements written, if `x` was accepted; it is `none` if an element was
written outside the buffer.  `decode data` is `none` if an element outside `data` was read. -/
structure Format (α σ μ ε : Type*) where
  encode : List α → σ → Option (List α × Option Nat)
  decode : List α → Option (Except ε (Option (μ × Nat)))

namespace Format

variable {σ : Type*}

variable (f : Format α σ μ ε)

/-- The encoder accepts `x` for some buffer and writes `text`. -/
def Encodes (x : σ) (text : List α) : Prop :=
  ∃ buf mem n, f.encode buf x = some (mem, some n) ∧ text = mem.take n

/-- The decoder as a receive loop uses it. -/
def decoder : Decoder α μ ε := fun data =>
  (f.decode data).getD (.ok none)

/-- What was encoded comes back as `message` says, whatever the chunks; a strict part of one
encoding is incomplete; and the decoder reads nothing but its data. -/
structure RoundTrip (message : σ → μ) : Prop where
  received : ∀ items : List (σ × List α), (∀ i ∈ items, f.Encodes i.1 i.2) →
    ∀ chunks : List (List α), chunks.flatten = (items.map Prod.snd).flatten →
      Receiver.receive f.decoder chunks = ⟨[], items.map fun i => message i.1, none⟩
  incomplete : ∀ x text, f.Encodes x text → ∀ n, n < text.length →
    f.decode (text.take n) = some (.ok none)
  reads : ∀ data, f.decode data ≠ none

/-- **Texts that delimit themselves make a round trip.** -/
theorem roundTrip_of_delimits {f : Format α σ μ ε} {message : σ → μ}
    (hreads : ∀ data, f.decode data ≠ none)
    (htexts : ∀ x text, f.Encodes x text → f.decoder.Delimits text (message x)) :
    f.RoundTrip message where
  received := by
    intro items hitems chunks hchunks
    have hwire : chunks.flatten =
        Receiver.wire (items.map fun i => (i.2, message i.1)) := by
      rw [hchunks, Receiver.wire, List.map_map]
      rfl
    have hall : ∀ text ∈ items.map fun i => (i.2, message i.1),
        f.decoder.Delimits text.1 text.2 := by
      intro text htext
      obtain ⟨i, hi, rfl⟩ := List.mem_map.mp htext
      exact htexts i.1 i.2 (hitems i hi)
    rw [Receiver.receive_delimited hall hwire, List.map_map]
    rfl
  incomplete := by
    intro x text h n hn
    have hpart := (htexts x text h).part n hn
    obtain ⟨r, hr⟩ := Option.ne_none_iff_exists'.mp (hreads (text.take n))
    rw [decoder, hr, Option.getD_some] at hpart
    rw [hr, hpart]
  reads := hreads

end Format
