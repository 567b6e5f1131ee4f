import Ephemeral.IncrementalCodec
import Ephemeral.WsCodec

/-!
# The stream codecs of the library

The three codecs that a stream can be built with: the identity codec
`RawStreamCodec`, the length-prefix codec `LengthPrefixCodec`, and `WsCodec`, each as a
`StreamCodec`.

`WsCodec` finds the end of a frame in the frame itself and can be fed in pieces
(`wsStreamCodec_incremental`).
-/

namespace Eph.Codec

open ByteOrder Core Net List

/-- `RawStreamCodec::decode`: the whole view is a frame. -/
def rawStreamCodec : StreamCodec Unit where
  decode := fun _ view out =>
    if view.length = 0 then ⟨(), 0, out, .ok none⟩
    else ⟨(), view.length, out, .ok (some view)⟩
  enablePermessageDeflate := none

/-- The largest payload that `LengthPrefixCodec` takes. -/
def kMaxFrameLen : Nat := 16 * 1024 * 1024

/-- `LengthPrefixCodec::decode`: a big-endian length, then the payload. -/
def lengthPrefixCodec : StreamCodec Unit where
  decode := fun _ view out =>
    if view.length < 4 then ⟨(), 0, out, .ok none⟩
    else
      let payloadLen := beNat (view.take 4)
      if payloadLen > kMaxFrameLen then
        ⟨(), 0, out, .error ⟨.codecOverflow,
          "LengthPrefixCodec: frame length exceeds kMaxFrameLen"⟩⟩
      else if view.length < 4 + payloadLen then ⟨(), 0, out, .ok none⟩
      else ⟨(), 4 + payloadLen, out, .ok (some ((view.drop 4).take payloadLen))⟩
  enablePermessageDeflate := none

variable {ι : Type} (inflate : Inflate ι) (c : WsCodec ι) (keys : MaskKeyCache)

/-- `WsCodec` in a stream; its masking keys are drawn from a supply that the codec's user
threads through. -/
def wsStreamCodec : StreamCodec (WsCodec ι × MaskKeyCache) where
  decode := fun c view out =>
    let d := c.1.decode inflate c.2 view out
    ⟨(d.codec, d.keys), view.length - d.view.length, d.out, d.result⟩
  enablePermessageDeflate := some fun c serverNoCtxTakeover =>
    ({ c.1 with cfg := { c.1.cfg with
        permessageDeflate := true
        serverNoContextTakeover := serverNoCtxTakeover } }, c.2)

/-- What `WsCodec` does with a whole frame does not depend on the bytes behind it; an error
apart, the frame is taken off the view. -/
theorem WsCodec.onFrame_uniform (out : OutputBuffer) (f : DecodedFrame) :
    ∃ c' keys' out' result taken,
      (∀ view, c.onFrame inflate keys view out f = ⟨c', keys', view.drop taken, out', result⟩) ∧
      (taken = f.totalLen ∨ taken = 0 ∧ ∃ e, result = .error e) := by
  unfold onFrame
  by_cases hrsv : (f.rsv1 && f.isControl) = true
  · simp only [hrsv, if_true]
    exact ⟨_, _, _, _, 0, fun view => rfl, .inr ⟨rfl, _, rfl⟩⟩
  by_cases hping : f.isPing = true
  · by_cases hauto : c.cfg.autoPong = true
    · cases hpong : emitPong keys out f with
      | mk keys' sent =>
        cases sent with
        | error e =>
          simp only [hrsv, hping, hauto, if_true]
          exact ⟨_, _, _, _, 0, fun view => rfl, .inr ⟨rfl, _, rfl⟩⟩
        | ok out' =>
          simp only [hrsv, hping, hauto, if_true]
          exact ⟨_, _, _, _, _, fun view => rfl, .inl rfl⟩
    · simp only [hrsv, hping, hauto, if_true]
      exact ⟨_, _, _, _, _, fun view => rfl, .inl rfl⟩
  by_cases hpong : f.isPong = true
  · simp only [hrsv, hping, hpong, if_true]
    exact ⟨_, _, _, _, _, fun view => rfl, .inl rfl⟩
  by_cases hclose : f.isClose = true
  · by_cases hauto : c.cfg.autoCloseAck = true
    · cases hack : emitClose keys out (ackCode f) with
      | mk keys' sent =>
        cases sent with
        | error e =>
          simp only [hrsv, hping, hpong, hclose, hauto, if_true]
          exact ⟨_, _, _, _, 0, fun view => rfl, .inr ⟨rfl, _, rfl⟩⟩
        | ok out' =>
          simp only [hrsv, hping, hpong, hclose, hauto, if_true]
          exact ⟨_, _, _, _, _, fun view => rfl, .inl rfl⟩
    · simp only [hrsv, hping, hpong, hclose, hauto, if_true]
      exact ⟨_, _, _, _, _, fun view => rfl, .inl rfl⟩
  by_cases hdata : f.isData = true
  · cases hbegin : c.beginFrame f with
    | mk c' refused =>
      cases refused with
      | some e =>
        simp only [hrsv, hping, hpong, hclose, hdata]
        exact ⟨_, _, _, _, 0, fun view => rfl, .inr ⟨rfl, _, rfl⟩⟩
      | none =>
        simp only [hrsv, hping, hpong, hclose, hdata]
        exact ⟨_, _, _, _, _, fun view => rfl, .inl rfl⟩
  · simp only [hrsv, hping, hpong, hclose, hdata]
    exact ⟨_, _, _, _, 0, fun view => rfl, .inr ⟨rfl, _, rfl⟩⟩

/-- A decoded frame has a header of two bytes at least, and lies in the view. -/
theorem decodeFrame_totalLen {wire : Bytes} {allowRsv1 : Bool} {f : DecodedFrame}
    (h : decodeFrame wire allowRsv1 = .ok f) : 0 < f.totalLen ∧ f.totalLen ≤ wire.length := by
  obtain ⟨-, n, pos, pos', key, hlength, hkey, hfit, htotal⟩ := decodeFrame_inv h
  have hpos : 2 ≤ pos := by
    unfold decodeLength at hlength
    dsimp only at hlength
    split_ifs at hlength <;> cases hlength <;> omega
  have hpos' : pos ≤ pos' := by
    unfold decodeKey at hkey
    split_ifs at hkey <;> cases hkey <;> omega
  omega

/-- A call of `decode`: it waits for more bytes, or what it does stands whatever follows. -/
theorem WsCodec.decode_settled (view : Bytes) (out : OutputBuffer) :
    c.decode inflate keys view out = ⟨c, keys, view, out, .ok none⟩ ∨
      ∃ c' keys' out' result taken, taken ≤ view.length ∧
        (∀ more, c.decode inflate keys (view ++ more) out =
          ⟨c', keys', (view ++ more).drop taken, out', result⟩) ∧
        ∀ r, result = .ok r → taken ≠ 0 := by
  by_cases hshort : view.length < 2
  · exact .inl (if_pos hshort)
  have hlong : ∀ more, ¬ (view ++ more).length < 2 := fun more => by
    rw [length_append]
    omega
  by_cases hwait : decodeFrame view c.cfg.permessageDeflate = .error .kIncomplete
  · left
    rw [decode, if_neg hshort, hwait]
  right
  have hsame := decodeFrame_append hwait
  cases hframe : decodeFrame view c.cfg.permessageDeflate with
  | error e =>
    have hne : e ≠ .kIncomplete := fun he => hwait (by rw [hframe, he])
    refine ⟨c, keys, out, .error ⟨.wsFrameBad, decodeErrorName e⟩, 0, Nat.zero_le _, ?_, nofun⟩
    intro more
    rw [decode, if_neg (hlong more), hsame, hframe]
    cases e <;> first | rfl | exact absurd rfl hne
  | ok f =>
    obtain ⟨hpos, hfits⟩ := decodeFrame_totalLen hframe
    obtain ⟨c', keys', out', result, taken, honFrame, htaken⟩ :=
      c.onFrame_uniform inflate keys out f
    refine ⟨c', keys', out', result, taken, by omega, ?_, ?_⟩
    · intro more
      rw [decode, if_neg (hlong more), hsame, hframe]
      exact honFrame (view ++ more)
    · rintro r rfl
      rcases htaken with htaken | ⟨-, e, he⟩
      · omega
      · cases he

/-- **`WsCodec` can be fed in pieces**: it waits until a frame is complete, and then does
not look behind it. -/
theorem wsStreamCodec_incremental : (wsStreamCodec inflate).Incremental := by
  refine .of_settled (fun c view => Nat.sub_le ..) ?_
  rintro ⟨c, keys⟩ view
  rcases c.decode_settled inflate keys view (OutputBuffer.create kCodecAutoResponseBytes) with
    hwait | ⟨c', keys', out', result, taken, hfits, hsettled, hmoved⟩
  · left
    simp only [StreamCodec.step, wsStreamCodec, hwait, Nat.sub_self, and_self]
  right
  have hstep : ∀ more, (wsStreamCodec inflate).step (c, keys) (view ++ more) =
      ⟨(c', keys'), taken, out', result⟩ := by
    intro more
    have hconsumed : (view ++ more).length - ((view ++ more).drop taken).length = taken := by
      rw [length_drop, length_append]
      omega
    simp only [StreamCodec.step, wsStreamCodec, hsettled more, hconsumed]
  have hself := hstep []
  rw [append_nil] at hself
  refine ⟨fun more => (hstep more).trans hself.symm, ?_⟩
  rw [hself]
  exact hmoved

end Eph.Codec
