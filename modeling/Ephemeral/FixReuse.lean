import Ephemeral.FixRoundTrip

/-!
# A builder used again

A builder is reused through `reset`, which forgets the fields but leaves the
buffer as it is, with whatever an earlier message left in it.  `finish_reset`
follows any sequence of setter, `finish` and `reset` calls: the first `finish`
since the last `reset` writes the fields set since then and nothing else.

Every write stays inside a buffer that has room for the header.  A buffer
without that room is refused by the constructor through the overflow latch, but
`reset` clears the latch on any buffer (`builder_safe_iff`).

A second `finish` without a `reset` is not refused, unlike a setter call after
`finish`.  It takes the CheckSum field of the first message for a part of the
body, and the body for where it was before the first `finish` moved it.
-/

namespace Eph.Fix

open ByteOrder MessageBuilder Option

variable {b b' : MessageBuilder}

/-- `reset`. -/
def MessageBuilder.reset (b : MessageBuilder) : MessageBuilder :=
  { b with
    bodyStart := kHeaderReserve
    pos := kHeaderReserve
    totalLen := 0
    fieldCount := 0
    overflow := false
    finished := false }

/-- A call on a builder.  The setters without a `Call` of their own do what one of these does:
`set_bool` and `set_char` are `set`, `begin_group` is `set_int`, `set_double` is `set_decimal` of
the text it formats, and a setter that refuses its value (no finite number, a `_unique` tag that is
there already) fails as `set_decimal` of an empty text. -/
inductive BuilderCall
  | set (c : Call)
  | finish (beginString : Bytes)
  | reset

open BuilderCall

namespace BuilderCall

def apply (b : MessageBuilder) : BuilderCall → Option MessageBuilder
  | set c => Call.apply b c
  | finish beginString => (b.finish beginString).map Prod.snd
  | reset => some b.reset

/-- The builder after a sequence of calls. -/
def run (b : MessageBuilder) (calls : List BuilderCall) : Option MessageBuilder :=
  calls.foldlM apply b

/-- The fields set since the last `reset`, after one more call. -/
def addField (fields : List Field) : BuilderCall → List Field
  | set c => fields ++ [c.field]
  | reset => []
  | finish _ => fields

/-- The fields set since the last `reset`. -/
def fieldsSet (calls : List BuilderCall) : List Field :=
  calls.foldl addField []

/-- Whether `finish` has been called since the last `reset`, after one more call. -/
def finishCall (called : Bool) : BuilderCall → Bool
  | finish _ => true
  | reset => false
  | set _ => called

/-- Whether `finish` has been called since the last `reset`. -/
def finishCalled (calls : List BuilderCall) : Bool :=
  calls.foldl finishCall false

end BuilderCall

/-! ## The buffer keeps its size -/

/-- The buffer has the same size in both states, and the body begins at the same byte. -/
def SameBuffer (b b' : MessageBuilder) : Prop :=
  b'.mem.length = b.mem.length ∧ b'.capacity = b.capacity ∧ b'.bodyStart = b.bodyStart

theorem Call.apply_sameBuffer {c : Call} (h : Call.apply b c = some b') : SameBuffer b b' := by
  rcases c.apply_cases b with ⟨-, hc⟩ | hc | ⟨hc, -⟩
  · cases hc.symm.trans h
    exact ⟨rfl, rfl, rfl⟩
  · cases hc.symm.trans h
    exact ⟨rfl, rfl, rfl⟩
  · rcases setTrusted_cases (hc.symm.trans h) with
      ⟨rfl, -⟩ | ⟨mem, hmem, rfl⟩ | ⟨mem, hpoke, -, rfl⟩
    · exact ⟨rfl, rfl, rfl⟩
    · exact ⟨hmem, rfl, rfl⟩
    · exact ⟨length_of_poke hpoke, rfl, rfl⟩

theorem finish_sameBuffer {beginString : Bytes} {n : Nat} (h : b.finish beginString = some (n, b'))
    : SameBuffer b b' ∧ (0 < n → b.overflow = false ∧ b.bodyStart ≤ b.mem.length) := by
  rcases finish_cases h with
    ⟨rfl, mem, hmem, rfl⟩ | ⟨hover, -, gap, mem₁, mem₂, mem₃, hgap, h₁, h₂, -, h₃, -, rfl⟩
  · exact ⟨⟨hmem, rfl, rfl⟩, nofun⟩
  refine ⟨⟨(length_of_poke h₃).trans ((length_of_poke h₂).trans (length_of_poke h₁)), rfl, rfl⟩,
    fun _ => ⟨hover, ?_⟩⟩
  unfold poke at h₁
  split at h₁
  · omega
  · cases h₁

theorem BuilderCall.apply_size {c : BuilderCall} (h : apply b c = some b') :
    b'.mem.length = b.mem.length ∧ b'.capacity = b.capacity := by
  cases c with
  | set c =>
    obtain ⟨hmem, hcap, -⟩ := Call.apply_sameBuffer h
    exact ⟨hmem, hcap⟩
  | finish beginString =>
    obtain ⟨⟨n, b₁⟩, hfinish, rfl⟩ := map_eq_some_iff.mp h
    obtain ⟨⟨hmem, hcap, -⟩, -⟩ := finish_sameBuffer hfinish
    exact ⟨hmem, hcap⟩
  | reset =>
    cases h
    exact ⟨rfl, rfl⟩

/-! ## Writes stay inside the buffer -/

/-- The buffer is the caller's, with room for the reserved bytes. -/
structure Roomy (b : MessageBuilder) : Prop where
  size : b.mem.length = b.capacity
  reserve : kHeaderReserve ≤ b.capacity
  bodyStart : b.bodyStart = kHeaderReserve

theorem setTrusted_safe (h : Roomy b) (t : UInt32) (value : Bytes) :
    ∃ b', b.setTrusted t value = some b' := by
  have hsize := h.size
  unfold setTrusted
  split
  · exact ⟨_, rfl⟩
  split
  · exact ⟨_, rfl⟩
  split
  · exact ⟨_, rfl⟩
  simp only [bind_eq_bind, bind_some]
  split
  · rename_i htag
    obtain ⟨mem, hmem, hlen⟩ := exists_poke (hsize.symm ▸ htag)
    rw [hmem, bind_some]
    split
    · exact ⟨_, rfl⟩
    obtain ⟨mem', hmem', -⟩ := @exists_poke mem (b.pos + (formatUint t.toNat).length)
      (61 :: (value ++ [SOH])) (by simp; omega)
    exact ⟨_, by rw [hmem']; rfl⟩
  · rw [if_pos (by omega)]
    exact ⟨_, rfl⟩

theorem finish_safe (h : Roomy b) (beginString : Bytes) :
    ∃ n b', b.finish beginString = some (n, b') := by
  have hsize := h.size
  have hreserve := h.reserve
  have hstart := h.bodyStart
  unfold MessageBuilder.finish
  dsimp only
  split
  · exact ⟨_, _, rfl⟩
  split
  · exact ⟨_, _, rfl⟩
  split
  · exact ⟨_, _, rfl⟩
  split
  · exact ⟨_, _, rfl⟩
  split
  · exact ⟨_, _, rfl⟩
  obtain ⟨mem₁, hmem₁, hlen₁⟩ := @exists_poke b.mem
    (b.bodyStart - (header beginString (b.pos - b.bodyStart)).length)
    (header beginString (b.pos - b.bodyStart)) (by omega)
  rw [hmem₁, bind_eq_bind, bind_some]
  split
  · exact ⟨_, _, rfl⟩
  rename_i hroom
  obtain ⟨mem₂, hmem₂, -⟩ := exists_poke (show b.pos + (trailer _).length ≤ mem₁.length by
    change b.pos + kTrailerLen ≤ mem₁.length
    omega)
  have hmove : ∀ i j, 0 + ((mem₂.drop i).take j).length ≤ mem₂.length := by
    intro i j
    rw [Nat.zero_add, List.length_take, List.length_drop]
    omega
  rw [hmem₂, bind_some, poke_of_le (hmove _ _)]
  exact ⟨_, _, rfl⟩

/-- **One call** writes inside the buffer. -/
theorem Roomy.apply (h : Roomy b) (c : BuilderCall) :
    ∃ b', apply b c = some b' ∧ Roomy b' := by
  have hkept : ∀ {b'}, SameBuffer b b' → Roomy b' := fun ⟨hmem, hcap, hstart⟩ =>
    ⟨hmem.trans (h.size.trans hcap.symm), hcap ▸ h.reserve, hstart.trans h.bodyStart⟩
  cases c with
  | set c =>
    obtain ⟨b', hb'⟩ : ∃ b', Call.apply b c = some b' := by
      rcases c.apply_cases b with ⟨-, hc⟩ | hc | ⟨hc, -⟩
      · exact ⟨_, hc⟩
      · exact ⟨_, hc⟩
      · exact hc ▸ setTrusted_safe h _ _
    exact ⟨b', hb', hkept (Call.apply_sameBuffer hb')⟩
  | finish beginString =>
    obtain ⟨n, b', hb'⟩ := finish_safe h beginString
    exact ⟨b', by rw [BuilderCall.apply, hb']; rfl, hkept (finish_sameBuffer hb').1⟩
  | reset => exact ⟨_, rfl, h.size, h.reserve, rfl⟩

theorem Roomy.run (h : Roomy b) (calls : List BuilderCall) :
    ∃ b', run b calls = some b' := by
  induction calls generalizing b with
  | nil => exact ⟨b, rfl⟩
  | cons c calls ih =>
    obtain ⟨b₁, hb₁, h₁⟩ := h.apply c
    rw [run, List.foldlM_cons, hb₁]
    exact ih h₁

/-- The overflow stays until `reset`. -/
theorem BuilderCall.run_overflow {calls : List BuilderCall} (hover : b.overflow = true)
    (hreset : .reset ∉ calls) (h : run b calls = some b') : b'.overflow = true := by
  induction calls generalizing b with
  | nil =>
    cases h
    exact hover
  | cons c calls ih =>
    rw [run, List.foldlM_cons] at h
    obtain ⟨b₁, hb₁, h⟩ := bind_eq_some_iff.mp h
    refine ih ?_ (fun hmem => hreset (List.mem_cons_of_mem _ hmem)) h
    cases c with
    | set c => exact Call.apply_overflow hover hb₁
    | finish beginString =>
      rw [apply, MessageBuilder.finish, if_pos hover] at hb₁
      cases hb₁
      exact hover
    | reset => exact absurd List.mem_cons_self hreset

/-- In a buffer without room for the reserved bytes, the header lands outside. -/
theorem finish_reset_outside (h : b.mem.length < kHeaderReserve) : b.reset.finish [70] = none := by
  have hpoke : poke b.mem 24 (header [70] 0) = none :=
    if_neg (by change ¬ 32 ≤ _; exact Nat.not_le.mpr h)
  change (poke b.mem 24 (header [70] 0)).bind _ = none
  rw [hpoke, bind_none]

/-- **Which buffers are safe.**  All sequences of calls write inside the buffer and keep an overflow
until `reset`, exactly if the buffer is not null and has room for the reserved bytes. -/
theorem builder_safe_iff (cap : Nat) (buf : Option (Vector UInt8 cap)) :
    (∀ calls, ∃ b, run (create (buf.map Vector.toList) cap) calls = some b ∧
      ∀ front rest b₁, calls = front ++ rest → .reset ∉ rest →
        run (create (buf.map Vector.toList) cap) front = some b₁ →
        b₁.overflow = true → ∀ beginString, b.finish beginString = some (0, b)) ↔
      buf.isSome ∧ kHeaderReserve ≤ cap := by
  constructor
  · intro h
    obtain ⟨b, hb, -⟩ := h [.reset, .finish [70]]
    by_contra hno
    have hsmall : (create (buf.map Vector.toList) cap).mem.length < kHeaderReserve := by
      cases buf with
      | none => simp [create, kHeaderReserve]
      | some mem =>
        have hcap : cap < kHeaderReserve := by simpa using hno
        simp [create, hcap]
    simp [run, apply, finish_reset_outside hsmall] at hb
  · rintro ⟨hbuf, hcap⟩
    obtain ⟨mem, rfl⟩ := isSome_iff_exists.mp hbuf
    have hroomy : Roomy (create (some mem.toList) cap) := by
      rw [create, if_neg (by simp [Nat.not_lt.mpr hcap])]
      exact ⟨mem.length_toList, hcap, rfl⟩
    intro calls
    obtain ⟨b, hb⟩ := hroomy.run calls
    refine ⟨b, hb, ?_⟩
    rintro front rest b₁ rfl hreset hfront hover beginString
    rw [run, List.foldlM_append] at hb
    obtain ⟨b₂, hb₂, hb⟩ := bind_eq_some_iff.mp hb
    cases hb₂.symm.trans hfront
    exact if_pos (run_overflow hover hreset hb)

/-- After `reset` on a buffer that is too small or null, `finish` writes past it. -/
theorem reset_writes_outside :
    run (create (some (List.replicate 16 0)) 16) [.reset, .finish [70]] = none ∧
      run (create none 64) [.reset, .finish [70]] = none := by
  decide

/-! ## What the builder holds -/

/-- After calls that set `fields` since the last `reset`, with or without a `finish`: the buffer is
the caller's (or too small for any message), and without a `finish` the builder has overflowed or
holds the fields. -/
structure Reusable (cap : Nat) (b : MessageBuilder) (fields : List Field) (called : Bool) :
    Prop where
  size : b.mem.length < kHeaderReserve ∨ b.mem.length = b.capacity
  capacity : b.capacity = cap
  holds : called = false →
    b.mem.length < b.bodyStart ∨ b.overflow = true ∨ Composed cap b fields

variable {cap : Nat} {b b' : MessageBuilder} {fields : List Field} {called : Bool}

theorem Reusable.reset (h : Reusable cap b fields called) : Reusable cap b.reset [] false := by
  refine { h with holds := fun _ => ?_ }
  by_cases hsmall : b.mem.length < kHeaderReserve
  · exact .inl hsmall
  have hmem : b.mem.length = b.capacity := h.size.resolve_left hsmall
  refine .inr (.inr ⟨⟨rfl, rfl⟩, rfl, rfl, h.capacity, hmem, ?_, by simp⟩)
  exact ⟨b.mem.take kHeaderReserve, b.mem.drop kHeaderReserve,
    (List.take_append_drop _ _).symm, by rw [List.length_take]; omega⟩

theorem Reusable.create {buf : Option Bytes} (hbuf : ∀ mem ∈ buf, mem.length = cap) :
    Reusable cap (create buf cap) [] false := by
  have hstart : Reusable cap ⟨buf.getD [], cap, 0, 0, 0, 0, true, false⟩ [] false := by
    refine ⟨?_, rfl, fun _ => .inr (.inl rfl)⟩
    cases buf with
    | none => exact .inl (by simp [kHeaderReserve])
    | some mem => exact .inr (hbuf mem rfl)
  unfold MessageBuilder.create
  split
  · exact hstart
  · exact hstart.reset

/-- **One call** keeps the builder reusable. -/
theorem Reusable.apply {c : BuilderCall} (h : Reusable cap b fields called)
    (hc : apply b c = some b') :
    Reusable cap b' (c.addField fields) (c.finishCall called) := by
  obtain ⟨hmem, hcap⟩ := apply_size hc
  have hsize : b'.mem.length < kHeaderReserve ∨ b'.mem.length = b'.capacity := by
    rw [hmem, hcap]
    exact h.size
  have hcapacity : b'.capacity = cap := hcap.trans h.capacity
  cases c with
  | finish beginString => exact ⟨hsize, hcapacity, nofun⟩
  | reset =>
    cases hc
    exact h.reset
  | set c =>
    refine ⟨hsize, hcapacity, fun hcalled => ?_⟩
    rcases h.holds hcalled with hsmall | hholds
    · rw [hmem, (Call.apply_sameBuffer hc).2.2]
      exact .inl hsmall
    · exact .inr (Call.apply_composed hholds hc)

/-- **Any sequence of calls** does. -/
theorem Reusable.run (calls : List BuilderCall) (h : Reusable cap b fields called)
    (hrun : run b calls = some b') :
    Reusable cap b' (calls.foldl addField fields)
      (calls.foldl finishCall called) := by
  induction calls generalizing b fields called with
  | nil =>
    cases hrun
    exact h
  | cons c calls ih =>
    rw [run, List.foldlM_cons] at hrun
    obtain ⟨b₁, hc, hrun⟩ := bind_eq_some_iff.mp hrun
    exact ih (h.apply hc) hrun

/-! ## The message of the first `finish` -/

/-- **The first `finish` since the last `reset`.**  After any calls on a builder, the first `finish`
since the last `reset` (or since construction) that returns `n > 0` leaves a message of the fields
set since then, with their BodyLength and CheckSum, at the front of the buffer; within its limits
the parser accepts it and returns those fields. -/
theorem finish_reset (buf : Option Bytes) (hcap : cap < 2 ^ 64)
    (hbuf : ∀ mem ∈ buf, mem.length = cap) (calls : List BuilderCall)
    (hrun : run (create buf cap) calls = some b)
    (hfirst : finishCalled calls = false) (beginString : Bytes) {n : Nat}
    (hfinish : b.finish beginString = some (n, b')) (hn : 0 < n) :
    b'.mem.take n = messageBytes beginString (bodyBytes (fieldsSet calls)) ∧
      ∀ maxFields maxBodyLength, (∀ f ∈ fieldsSet calls, f.tag ≠ 0) →
        (fieldsSet calls).length ≤ maxFields →
        (bodyBytes (fieldsSet calls)).length ≤ maxBodyLength →
        parse maxFields maxBodyLength (b'.mem.take n) =
          .ok ⟨fieldsSet calls, n, beginString⟩ := by
  obtain ⟨-, hused⟩ := finish_sameBuffer hfinish
  obtain ⟨hready, hroom⟩ := hused hn
  rcases (Reusable.run calls (.create hbuf) hrun).holds hfirst with hsmall | hover | hcomposed
  · exact absurd hroom (Nat.not_le.mpr hsmall)
  · rw [hready] at hover
    cases hover
  change Composed cap b (fieldsSet calls) at hcomposed
  rcases finish_composed hcomposed hfinish with rfl | ⟨hbegin, hlen, htake⟩
  · exact absurd hn (Nat.lt_irrefl 0)
  refine ⟨htake, fun maxFields maxBodyLength htags hfields hbody => ?_⟩
  have hsize := Nat.lt_of_le_of_lt (length_bodyBytes_le hcomposed) hcap
  have hparse := parse_messageBytes hbegin htags hcomposed.clean hfields hsize maxBodyLength []
  rw [List.append_nil, if_pos hbody, ← hlen] at hparse
  rw [htake]
  exact hparse

/-- A second message on the same buffer. -/
def secondMessage : List BuilderCall :=
  [.set (.set 35 [65]), .finish sampleBeginString, .reset, .set (.setInt 34 7)]

/-- Nothing of the first message is left in it. -/
theorem finish_reset_second :
    ∃ b b' n, run (create (some (List.replicate 64 0)) 64) secondMessage = some b ∧
      b.finish sampleBeginString = some (n, b') ∧ 0 < n ∧
      b'.mem.take n = messageBytes sampleBeginString (bodyBytes [⟨34, [55]⟩]) := by
  refine ⟨_, _, _, rfl, rfl, by decide, ?_⟩
  exact (finish_reset (some (List.replicate 64 0)) (show 64 < 2 ^ 64 by decide) (by decide)
    secondMessage rfl rfl sampleBeginString rfl (by decide)).1

/-- A second `finish` on the same fields adds the CheckSum field of the first to the body. -/
theorem finish_twice :
    ∃ b b' n view, run (create (some (List.replicate 64 0)) 64)
        [.set (.setInt 34 7), .finish sampleBeginString] = some b ∧
      b.finish sampleBeginString = some (n, b') ∧ 0 < n ∧
      parse 128 kDefaultMaxBodyLength (b'.mem.take n) = .ok view ∧
      view.fields ≠ [⟨34, [55]⟩] := by
  refine ⟨_, _, _, _, rfl, rfl, by decide, rfl, by decide⟩

end Eph.Fix
