import Ephemeral.CoreTypes

/-!
# Stream codecs and the drain loop

A stream hands the bytes it has received to its codec, which takes a front part of
them, may leave an automatic response on the output sink, and may return a frame.
Four loops of the library do this, in the two backends with and without TLS; they
differ in where the bytes come from and in how they are given back.  `drainFrames` is
their common shape, over operations on a world `ω`.

`recording` makes any codec keep an account of what it was shown: the bytes it has
taken, and the rest of the last view.  Together they are the byte sequence presented
to the codec, and one run of the loop extends it by what is new in the view
(`drainFrames_presented`).
-/

namespace Eph.Net

open ByteOrder Core List

/-- `HandshakePhase`: the legs of a connection attempt. -/
inductive HandshakePhase
  | init
  | tcpConnecting
  | tcpConnected
  | tlsHandshaking
  | tlsConnected
  | wsHandshaking
  | established
  | failed
  deriving DecidableEq

/-- The scratch size of an automatic response. -/
def kCodecAutoResponseBytes : Nat := 1024

/-- What one call of `decode` leaves behind; `consumed` bytes of the view were
trimmed from its front. -/
structure Decoded (γ : Type) where
  codec : γ
  consumed : Nat
  out : OutputBuffer
  result : Except ErrorInfo (Option Bytes)

/-- A codec with state `γ`.  Not every codec can take up permessage-deflate. -/
structure StreamCodec (γ : Type) where
  decode : γ → Bytes → OutputBuffer → Decoded γ
  enablePermessageDeflate : Option (γ → Bool → γ)

/-- The operations of a drain loop: decode at the head of a view and send the
automatic response, give back what was consumed, and hand a frame to the
application. -/
structure DrainOps (ω : Type) where
  decode : ω → Bytes → ω × Nat × Except ErrorInfo (Option Bytes)
  consume : ω → Nat → ω
  deliver : ω → Bytes → ω

/-- The drain loop.  It ends on an empty view, when the codec makes no progress, or
with the codec's error; the rest of the view is returned.  Every other round consumes
a byte, so the length of the view bounds the rounds. -/
def drainFrames {ω : Type} (ops : DrainOps ω) :
    Nat → ω → Bytes → ω × Bytes × Option ErrorInfo
  | 0, w, view => (w, view, none)
  | fuel + 1, w, view =>
    if view.isEmpty then (w, view, none)
    else
      match ops.decode w view with
      | (w, _, .error e) => (w, view, some e)
      | (w, consumed, .ok none) =>
        let w := ops.consume w consumed
        if consumed = 0 then (w, view, none)
        else drainFrames ops fuel w (view.drop consumed)
      | (w, consumed, .ok (some frame)) =>
        let w := ops.consume w consumed
        if consumed = 0 then (w, view, none)
        else
          drainFrames ops fuel (if frame.isEmpty then w else ops.deliver w frame)
            (view.drop consumed)

/-- **The invariant rule of the loop**: what every operation keeps, the loop keeps. -/
theorem drainFrames_keeps {ω : Type} {ops : DrainOps ω} {P : ω → Prop}
    (hdecode : ∀ w view, P w → P (ops.decode w view).1)
    (hconsume : ∀ w n, P w → P (ops.consume w n))
    (hdeliver : ∀ w frame, P w → P (ops.deliver w frame)) (fuel : Nat) (w : ω) (view : Bytes)
    (hP : P w) : P (drainFrames ops fuel w view).1 := by
  induction fuel generalizing w view with
  | zero => exact hP
  | succ fuel ih =>
    rw [drainFrames]
    by_cases hnil : view.isEmpty = true
    · rw [if_pos hnil]
      exact hP
    rw [if_neg hnil]
    have hdec := hdecode w view hP
    generalize ops.decode w view = d at hdec
    obtain ⟨w₁, n, result⟩ := d
    have hcons := hconsume w₁ n hdec
    match result with
    | .error e => exact hdec
    | .ok none =>
      dsimp only
      split
      · exact hcons
      · exact ih _ _ hcons
    | .ok (some frame) =>
      dsimp only
      split
      · exact hcons
      apply ih
      split
      · exact hcons
      · exact hdeliver _ frame hcons

/-! ## What a codec is shown -/

/-- A codec with an account of what it was shown. -/
structure Recorded (γ : Type) where
  codec : γ
  taken : Bytes
  rest : Bytes

/-- The byte sequence presented to the codec so far. -/
def Recorded.presented {γ : Type} (c : Recorded γ) : Bytes :=
  c.taken ++ c.rest

/-- The codec that keeps the account. -/
def recording {γ : Type} (codec : StreamCodec γ) : StreamCodec (Recorded γ) where
  decode c view out :=
    let d := codec.decode c.codec view out
    ⟨⟨d.codec, c.taken ++ view.take d.consumed, view.drop d.consumed⟩, d.consumed, d.out, d.result⟩
  enablePermessageDeflate :=
    codec.enablePermessageDeflate.map fun enable c noTakeover =>
      { c with codec := enable c.codec noTakeover }

section Presented

variable {ω γ : Type} {ops : DrainOps ω} {codecOf : ω → Recorded γ}

/-- The operations drive a recording codec and touch its account nowhere else. -/
structure Records (ops : DrainOps ω) (codecOf : ω → Recorded γ) : Prop where
  decode : ∀ w view w' n r, ops.decode w view = (w', n, r) →
    (codecOf w').taken = (codecOf w).taken ++ view.take n ∧ (codecOf w').rest = view.drop n
  consume : ∀ w n, codecOf (ops.consume w n) = codecOf w
  deliver : ∀ w frame, codecOf (ops.deliver w frame) = codecOf w

/-- **A drain loop presents its whole view**, and what it leaves is what the codec saw
last, unless the codec reported an error.  An empty view adds nothing. -/
theorem drainFrames_presented (hops : Records ops codecOf) (fuel : Nat) (w : ω) (view : Bytes)
    (hfuel : view.length ≤ fuel) (hview : view = [] → (codecOf w).rest = []) {w' : ω}
    {rest : Bytes} {err : Option ErrorInfo} (hrun : drainFrames ops fuel w view = (w', rest, err)) :
    (codecOf w').presented = (codecOf w).taken ++ view ∧
      (err = none → (codecOf w').rest = rest) := by
  induction fuel generalizing w view with
  | zero =>
    obtain rfl := length_eq_zero_iff.mp (Nat.le_zero.mp hfuel)
    cases hrun
    exact ⟨by rw [Recorded.presented, hview rfl], fun _ => hview rfl⟩
  | succ fuel ih =>
    rw [drainFrames] at hrun
    by_cases hnil : view = []
    · -- On an empty view the loop does nothing, in the first round or in a later one.
      subst hnil
      cases hrun
      exact ⟨by rw [Recorded.presented, hview rfl], fun _ => hview rfl⟩
    rw [if_neg (by simpa using hnil)] at hrun
    generalize hdec : ops.decode w view = d at hrun
    obtain ⟨w₁, n, result⟩ := d
    obtain ⟨htaken, hrest⟩ := hops.decode w view w₁ n result hdec
    have hshown : (codecOf w₁).presented = (codecOf w).taken ++ view := by
      rw [Recorded.presented, htaken, hrest, append_assoc, take_append_drop]
    cases result with
    | error e =>
      cases hrun
      exact ⟨hshown, fun h => by cases h⟩
    | ok frame =>
      -- With a frame or without, the loop goes on behind what the codec consumed.
      obtain ⟨w₂, hw₂, hloop⟩ : ∃ w₂, codecOf w₂ = codecOf w₁ ∧
          (if n = 0 then (ops.consume w₁ n, view, none)
            else drainFrames ops fuel w₂ (view.drop n)) = (w', rest, err) := by
        cases frame with
        | none => exact ⟨_, hops.consume w₁ n, hrun⟩
        | some frame =>
          refine ⟨_, ?_, hrun⟩
          split
          · exact hops.consume w₁ n
          · rw [hops.deliver, hops.consume]
      split at hloop
      · -- No progress: the whole view is left, and it is what the codec saw.
        rename_i hzero
        cases hloop
        rw [hops.consume]
        exact ⟨hshown, fun _ => by rw [hrest, hzero, drop_zero]⟩
      obtain ⟨hpres, hleft⟩ := ih w₂ (view.drop n) (by rw [length_drop]; omega)
        (fun h => by rw [hw₂, hrest, h]) hloop
      refine ⟨?_, hleft⟩
      rw [hpres, hw₂, htaken, append_assoc, take_append_drop]

end Presented

end Eph.Net
