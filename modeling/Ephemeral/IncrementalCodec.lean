import Ephemeral.StreamCodec

/-!
# Codecs that can be fed in pieces

`Decodes` says what a codec makes of a byte string: call after call it takes frames from
the front, until it makes no more progress.  A codec is `Incremental` if a call that made
progress would have done the same with more bytes behind, a call that made none left the
state alone, and an error does not go away with more bytes.

For an incremental codec it does not matter where a byte string is cut: the frames of the
first piece, and then those of the undecoded rest with the second piece behind it, are the
frames of the whole (`Decodes.extend`).  A drain loop on a view delivers what the codec
decodes from it (`drainFrames_decodes`).
-/

namespace Eph.Net

open ByteOrder Core List

variable {γ : Type} {frames : List Bytes} {r : Option Bytes}

/-- One call, with the output sink that the streams provide. -/
def StreamCodec.step (codec : StreamCodec γ) (c : γ) (view : Bytes) : Decoded γ :=
  codec.decode c view (OutputBuffer.create kCodecAutoResponseBytes)

/-- `Decodes codec c view frames c' rest`: from state `c` the codec takes `frames` from the
view, without an error, and stops in state `c'` with `rest` undecoded. -/
inductive Decodes (codec : StreamCodec γ) : γ → Bytes → List Bytes → γ → Bytes → Prop
  | empty (c : γ) : Decodes codec c [] [] c []
  | stop {c : γ} {view : Bytes} {r : Option Bytes} (hview : view ≠ [])
      (hresult : (codec.step c view).result = .ok r) (hidle : (codec.step c view).consumed = 0) :
      Decodes codec c view [] (codec.step c view).codec view
  | round {c c' : γ} {view rest : Bytes} {r : Option Bytes} {frames : List Bytes}
      (hview : view ≠ []) (hresult : (codec.step c view).result = .ok r)
      (hmoved : (codec.step c view).consumed ≠ 0)
      (hmore : Decodes codec (codec.step c view).codec (view.drop (codec.step c view).consumed)
        frames c' rest) : Decodes codec c view (r.toList ++ frames) c' rest

/-- Decoding is deterministic. -/
theorem Decodes.unique {codec : StreamCodec γ} {c c₁ c₂ : γ} {view rest₁ rest₂ : Bytes}
    {frames₁ frames₂ : List Bytes} (h₁ : Decodes codec c view frames₁ c₁ rest₁)
    (h₂ : Decodes codec c view frames₂ c₂ rest₂) : frames₁ = frames₂ ∧ c₁ = c₂ ∧ rest₁ = rest₂ := by
  induction h₁ generalizing frames₂ with
  | empty c =>
    cases h₂ with
    | empty => exact ⟨rfl, rfl, rfl⟩
    | stop hview | round hview => exact absurd rfl hview
  | stop hview hresult hidle =>
    cases h₂ with
    | empty => exact absurd rfl hview
    | stop => exact ⟨rfl, rfl, rfl⟩
    | round _ _ hmoved => exact absurd hidle hmoved
  | round hview hresult hmoved _ ih =>
    cases h₂ with
    | empty => exact absurd rfl hview
    | stop _ _ hidle => exact absurd hidle hmoved
    | round _ hresult' _ hmore =>
      obtain ⟨rfl, hc, hrest⟩ := ih hmore
      obtain rfl := Except.ok.inj (hresult.symm.trans hresult')
      exact ⟨rfl, hc, hrest⟩

/-- A codec that can be fed in pieces. -/
structure StreamCodec.Incremental (codec : StreamCodec γ) : Prop where
  bounded : ∀ c view, (codec.step c view).consumed ≤ view.length
  progress : ∀ c view more r, (codec.step c view).result = .ok r →
    (codec.step c view).consumed ≠ 0 → codec.step c (view ++ more) = codec.step c view
  waiting : ∀ c view r, (codec.step c view).result = .ok r →
    (codec.step c view).consumed = 0 → (codec.step c view).codec = c
  failing : ∀ c view more e, (codec.step c view).result = .error e →
    ∃ e', (codec.step c (view ++ more)).result = .error e'

section Incremental

variable {codec : StreamCodec γ}

/-- A codec that waits for more bytes, or gives an answer that stands whatever follows. -/
theorem StreamCodec.Incremental.of_settled
    (hbounded : ∀ c view, (codec.step c view).consumed ≤ view.length)
    (h : ∀ c view, ((codec.step c view).result = .ok none ∧ (codec.step c view).consumed = 0 ∧
        (codec.step c view).codec = c) ∨
      ((∀ more, codec.step c (view ++ more) = codec.step c view) ∧
        ∀ r, (codec.step c view).result = .ok r → (codec.step c view).consumed ≠ 0)) :
    codec.Incremental where
  bounded := hbounded
  progress := by
    intro c view more r _ hmoved
    rcases h c view with ⟨-, hidle, -⟩ | ⟨hsettled, -⟩
    · exact absurd hidle hmoved
    · exact hsettled more
  waiting := by
    intro c view r hresult hidle
    rcases h c view with ⟨-, -, hkept⟩ | ⟨-, hmoved⟩
    · exact hkept
    · exact absurd hidle (hmoved r hresult)
  failing := by
    intro c view more e hresult
    rcases h c view with ⟨hok, -⟩ | ⟨hsettled, -⟩
    · exact absurd (hok.symm.trans hresult) nofun
    · exact ⟨e, by rw [hsettled, hresult]⟩

section

variable (hinc : codec.Incremental)

include hinc

/-- The first round on a piece of a string that decodes without an error: the codec waits
for more, or it does what it does on the whole. -/
theorem StreamCodec.Incremental.round {c : γ} {piece more : Bytes}
    (hwhole : (codec.step c (piece ++ more)).result = .ok r) :
    Decodes codec c piece [] c piece ∨
      (piece ≠ [] ∧ codec.step c (piece ++ more) = codec.step c piece) := by
  by_cases hpiece : piece = []
  · exact .inl (hpiece ▸ .empty c)
  cases hresult : (codec.step c piece).result with
  | error e =>
    obtain ⟨e', he'⟩ := hinc.failing c piece more e hresult
    exact absurd (he'.symm.trans hwhole) nofun
  | ok r' =>
    by_cases hidle : (codec.step c piece).consumed = 0
    · have hstop := Decodes.stop hpiece hresult hidle
      rw [hinc.waiting c piece r' hresult hidle] at hstop
      exact .inl hstop
    · exact .inr ⟨hpiece, hinc.progress c piece more r' hresult hidle⟩

/-- **Cutting.** What decodes as a whole decodes in two pieces, the undecoded rest of the
first in front of the second. -/
theorem Decodes.split {c c' : γ} {piece more rest : Bytes}
    (h : Decodes codec c (piece ++ more) frames c' rest) :
    ∃ first second c₁ pending, frames = first ++ second ∧
      Decodes codec c piece first c₁ pending ∧
      Decodes codec c₁ (pending ++ more) second c' rest := by
  generalize hview : piece ++ more = view at h
  induction h generalizing piece with
  | empty c =>
    obtain ⟨rfl, rfl⟩ := append_eq_nil_iff.mp hview
    exact ⟨[], [], c, [], rfl, .empty c, .empty c⟩
  | @stop c view r hne hresult hidle =>
    subst hview
    rcases hinc.round hresult with hwait | ⟨hpiece, hsame⟩
    · exact ⟨[], [], c, piece, rfl, hwait, .stop hne hresult hidle⟩
    -- The codec stops on the piece for the same reason as on the whole.
    rw [hsame] at hresult hidle
    have hkept := hinc.waiting c piece r hresult hidle
    have hstop := Decodes.stop hpiece hresult hidle
    rw [hkept] at hstop
    refine ⟨[], [], c, piece, rfl, hstop, ?_⟩
    exact .stop hne (hsame ▸ hresult) (hsame ▸ hidle)
  | @round c c' view rest r frames hne hresult hmoved hmore ih =>
    subst hview
    rcases hinc.round hresult with hwait | ⟨hpiece, hsame⟩
    · exact ⟨[], _, c, piece, rfl, hwait, .round hne hresult hmoved hmore⟩
    rw [hsame] at hresult hmoved ih
    obtain ⟨first, second, c₁, pending, hframes, hfirst, hsecond⟩ :=
      ih (drop_append_of_le_length (hinc.bounded c piece)).symm
    exact ⟨r.toList ++ first, second, c₁, pending, by rw [hframes, append_assoc],
      .round hpiece hresult hmoved hfirst, hsecond⟩

/-- **Joining.** Two pieces decoded one after the other are decoded as a whole. -/
theorem Decodes.append {c c₁ c' : γ} {piece pending more rest : Bytes}
    {first second : List Bytes} (h : Decodes codec c piece first c₁ pending)
    (hmore : Decodes codec c₁ (pending ++ more) second c' rest) :
    Decodes codec c (piece ++ more) (first ++ second) c' rest := by
  induction h with
  | empty c => exact hmore
  | @stop c view r hne hresult hidle => rwa [hinc.waiting c view r hresult hidle] at hmore
  | @round c c₁ view pending r frames hne hresult hmoved _ ih =>
    have hsame := hinc.progress c view more r hresult hmoved
    have hcut : (view ++ more).drop _ = view.drop _ ++ more :=
      drop_append_of_le_length (hinc.bounded c view)
    rw [append_assoc]
    refine .round (by simp [hne]) (by rw [hsame, hresult]) (by rwa [hsame]) ?_
    rw [hsame, hcut]
    exact ih hmore

/-- **Going on.** A codec that has decoded `seen` of a string that decodes without an error
decodes a further piece of it, behind its undecoded rest. -/
theorem Decodes.extend {c c₁ c' : γ} {seen new later pending rest : Bytes}
    {frames sofar : List Bytes} (hall : Decodes codec c (seen ++ new ++ later) frames c' rest)
    (hseen : Decodes codec c seen sofar c₁ pending) :
    ∃ fresh c₂ pending₂, Decodes codec c₁ (pending ++ new) fresh c₂ pending₂ ∧
      Decodes codec c (seen ++ new) (sofar ++ fresh) c₂ pending₂ := by
  obtain ⟨_, _, _, _, -, htwo, -⟩ := hall.split hinc
  obtain ⟨first, fresh, d, held, -, hone, hnew⟩ := htwo.split hinc
  obtain ⟨-, rfl, rfl⟩ := hone.unique hseen
  exact ⟨fresh, _, _, hnew, hseen.append hinc hnew⟩

end

end Incremental

/-! ## The drain loop on such a codec -/

section Drain

variable {ω : Type}

/-- The operations drive `codec`: its state is `codecOf w`, and what was delivered is
`messages w`. -/
structure Drives (ops : DrainOps ω) (codec : StreamCodec γ) (codecOf : ω → γ)
    (messages : ω → List Bytes) : Prop where
  decode : ∀ w view, (ops.decode w view).2 =
    ((codec.step (codecOf w) view).consumed, (codec.step (codecOf w) view).result)
  decode_codec : ∀ w view,
    codecOf (ops.decode w view).1 = (codec.step (codecOf w) view).codec
  decode_messages : ∀ w view, messages (ops.decode w view).1 = messages w
  consume_codec : ∀ w n, codecOf (ops.consume w n) = codecOf w
  consume_messages : ∀ w n, messages (ops.consume w n) = messages w
  deliver_codec : ∀ w f, codecOf (ops.deliver w f) = codecOf w
  deliver_messages : ∀ w f, messages (ops.deliver w f) = messages w ++ [f]

/-- The frames that a drain loop hands on: the empty ones it drops. -/
def handedOn (frames : List Bytes) : List Bytes :=
  frames.filter fun f => !f.isEmpty

theorem handedOn_append (frames more : List Bytes) :
    handedOn (frames ++ more) = handedOn frames ++ handedOn more :=
  filter_append ..

/-- What the loop does with the frame of a round, if there is one. -/
def DrainOps.handOver (ops : DrainOps ω) (w : ω) : Option Bytes → ω
  | none => w
  | some frame => if frame.isEmpty then w else ops.deliver w frame

/-- A round without an error: the loop stops where the codec made no progress, and goes on
with the rest of the view otherwise. -/
theorem drainFrames_round {ops : DrainOps ω} {w w₁ : ω} {view : Bytes} {n : Nat} (hview : view ≠ [])
    (hdecode : ops.decode w view = (w₁, n, .ok r)) (fuel : Nat) :
    drainFrames ops (fuel + 1) w view =
      if n = 0 then (ops.consume w₁ n, view, none)
      else drainFrames ops fuel (ops.handOver (ops.consume w₁ n) r) (view.drop n) := by
  rw [drainFrames, if_neg (by simpa using hview), hdecode]
  cases r <;> rfl

variable {ops : DrainOps ω} {codec : StreamCodec γ} {codecOf : ω → γ} {messages : ω → List Bytes}

/-- One call of the codec in the loop. -/
theorem Drives.decode_eq (hops : Drives ops codec codecOf messages) (w : ω) {view : Bytes}
    (hresult : (codec.step (codecOf w) view).result = .ok r) :
    ops.decode w view = ((ops.decode w view).1, (codec.step (codecOf w) view).consumed, .ok r) := by
  rw [← hresult]
  exact Prod.ext rfl (hops.decode w view)

/-- The world after a round. -/
theorem Drives.handOver (hops : Drives ops codec codecOf messages) (w : ω) (view : Bytes)
    (n : Nat) (r : Option Bytes) :
    codecOf (ops.handOver (ops.consume (ops.decode w view).1 n) r) =
        (codec.step (codecOf w) view).codec ∧
      messages (ops.handOver (ops.consume (ops.decode w view).1 n) r) =
        messages w ++ handedOn r.toList := by
  have hcodec := (hops.consume_codec (ops.decode w view).1 n).trans (hops.decode_codec w view)
  have hmessages :=
    (hops.consume_messages (ops.decode w view).1 n).trans (hops.decode_messages w view)
  cases r with
  | none => exact ⟨hcodec, by rw [DrainOps.handOver, hmessages]; simp [handedOn]⟩
  | some f =>
    rw [DrainOps.handOver]
    split
    · rename_i hempty
      exact ⟨hcodec, by rw [hmessages]; simp [handedOn, isEmpty_iff.mp hempty]⟩
    rename_i hfull
    refine ⟨(hops.deliver_codec _ f).trans hcodec, ?_⟩
    rw [hops.deliver_messages, hmessages]
    simp [handedOn, hfull]

section Account

variable {J : ω → Bytes → Prop} (hdecode : ∀ w view, J w view → J (ops.decode w view).1 view)
  (hconsume : ∀ w n view, J w view → J (ops.consume w n) (view.drop n))
  (hdeliver : ∀ w f view, J w view → J (ops.deliver w f) view)

include hdecode hconsume hdeliver in
/-- **The loop delivers what the codec decodes**, and leaves what the codec leaves. -/
theorem drainFrames_decodes (hops : Drives ops codec codecOf messages) {c c' : γ}
    {view rest : Bytes} (h : Decodes codec c view frames c' rest) (fuel : Nat) (w : ω)
    (hfuel : view.length ≤ fuel) (hcodec : codecOf w = c) (hJ : J w view) :
    ∃ w', drainFrames ops fuel w view = (w', rest, none) ∧ codecOf w' = c' ∧
      messages w' = messages w ++ handedOn frames ∧ J w' rest := by
  induction h generalizing fuel w with
  | empty c =>
    refine ⟨w, ?_, hcodec, (append_nil _).symm, hJ⟩
    cases fuel <;> rfl
  | @stop c view r hne hresult hidle =>
    subst hcodec
    have hpos := length_pos_iff.mpr hne
    cases fuel with
    | zero => omega
    | succ fuel =>
      refine ⟨ops.consume (ops.decode w view).1 0, ?_, ?_, ?_, ?_⟩
      · rw [drainFrames_round hne (hops.decode_eq w hresult), if_pos hidle, hidle]
      · rw [hops.consume_codec, hops.decode_codec]
      · rw [hops.consume_messages, hops.decode_messages]
        exact (append_nil _).symm
      · exact hconsume _ 0 _ (hdecode w view hJ)
  | @round c c' view rest r frames hne hresult hmoved _ ih =>
    subst hcodec
    obtain ⟨hc, hm⟩ := hops.handOver w view (codec.step (codecOf w) view).consumed r
    have hpos := length_pos_iff.mpr hne
    cases fuel with
    | zero => omega
    | succ fuel =>
      have hleft := hconsume _ (codec.step (codecOf w) view).consumed _ (hdecode w view hJ)
      obtain ⟨w', hloop, hcodec', hmessages, hJ'⟩ := ih fuel _
        (by rw [length_drop]; omega) hc
        (by
          cases r with
          | none => exact hleft
          | some f =>
            rw [DrainOps.handOver]
            split
            · exact hleft
            · exact hdeliver _ f _ hleft)
      refine ⟨w', ?_, hcodec', ?_, hJ'⟩
      · rw [drainFrames_round hne (hops.decode_eq w hresult), if_neg hmoved, hloop]
      · rw [hmessages, hm, handedOn_append, append_assoc]

end Account

end Drain

end Eph.Net
