import Ephemeral.WsFrame

/-!
# The WebSocket stream codec

`WsCodec` sits between the byte stream and the application: `decode` looks at
the frame at the head of the view, answers control frames on the output sink,
reassembles fragmented messages in `fragBuf`, and hands complete messages out.
A call that cannot make progress leaves the view as it was.

A data frame is joined to the fragments of its message (`onData_spec`).  A new message takes
the place of one that is not complete (`fragments_joined`), and one past the limit is refused
when its last frame is complete (`oversize_rejected`).

Two things lie outside the library and are parameters here: the masking keys,
drawn from the kernel's random source (`MaskKeyCache`), and the DEFLATE
decompressor of the permessage-deflate path (`Inflate`).
-/

namespace Eph.Codec

open ByteOrder Core Net DecodedFrame

/-- The supply of masking keys: `pos` keys have been drawn so far. -/
structure MaskKeyCache where
  draw : Nat → MaskKey
  pos : Nat

/-- `generate_mask_key`: the key the next frame is masked with. -/
def MaskKeyCache.key (keys : MaskKeyCache) : MaskKey :=
  keys.draw keys.pos

/-- The supply after one key has been taken. -/
def MaskKeyCache.next (keys : MaskKeyCache) : MaskKeyCache :=
  { keys with pos := keys.pos + 1 }

/-- `WsInflater::inflate_message`: the decompressor state, the compressed bytes,
the size limit and whether the context is reset afterwards. -/
abbrev Inflate (ι : Type) :=
  ι → Bytes → Nat → Bool → ι × Except ErrorInfo Bytes

structure WsCodecConfig where
  maxMessageSize : Nat := 1 <<< 20
  autoPong : Bool := true
  autoCloseAck : Bool := true
  permessageDeflate : Bool := false
  serverNoContextTakeover : Bool := false
  deriving DecidableEq

/-- The codec state.  `fragOpcode` is zero when no fragmented message is in
flight. -/
structure WsCodec (ι : Type) where
  cfg : WsCodecConfig
  fragBuf : Bytes
  fragOpcode : UInt8
  compressedMsg : Bool
  inflater : ι
  deflateBytesIn : UInt64
  deflateBytesOut : UInt64

variable {ι : Type}

/-- The constructor. -/
def WsCodec.create (cfg : WsCodecConfig) (inflater : ι) : WsCodec ι :=
  ⟨cfg, [], 0, false, inflater, 0, 0⟩

/-- What a call of `decode` returns: a message, nothing yet, or an error. -/
abbrev DecodeResult := Except ErrorInfo (Option Bytes)

/-- What one call of `decode` leaves behind. -/
structure WsDecoded (ι : Type) where
  codec : WsCodec ι
  keys : MaskKeyCache
  view : Bytes
  out : OutputBuffer
  result : DecodeResult

/-- `emit_pong`. -/
def emitPong (keys : MaskKeyCache) (out : OutputBuffer) (ping : DecodedFrame) :
    MaskKeyCache × Except ErrorInfo OutputBuffer :=
  if ping.payload.length > kMaxControlPayloadLen then
    (keys, .error ⟨.codecBad, "WsCodec::emit_pong: control payload exceeds 125 bytes"⟩)
  else
    match buildPongFrame ping.unmasked keys.key with
    | [] => (keys.next, .error ⟨.codecBad, "WsCodec: build_pong_frame failed"⟩)
    | frame => (keys.next, out.append frame)

/-- `emit_close`. -/
def emitClose (keys : MaskKeyCache) (out : OutputBuffer) (code : UInt16) :
    MaskKeyCache × Except ErrorInfo OutputBuffer :=
  match buildCloseFrame code [] keys.key with
  | [] => (keys.next, .error ⟨.codecBad, "WsCodec: build_close_frame failed"⟩)
  | frame => (keys.next, out.append frame)

/-- The status code a Close frame is acknowledged with. -/
def ackCode (f : DecodedFrame) : UInt16 :=
  if f.payload.length = 0 then kNormal
  else if !isValidCloseCode f.closeStatusCode then kProtocolError
  else f.closeStatusCode

section Step

variable (inflate : Inflate ι) (c : WsCodec ι) (f : DecodedFrame)

/-- The bookkeeping at the start of a data frame: a new message discards what
was in flight, a continuation must have something to continue. -/
def WsCodec.beginFrame : WsCodec ι × Option ErrorInfo :=
  if f.opcode != kContinuation then
    let c :=
      { c with
        fragBuf := []
        fragOpcode := if f.fin then 0 else f.opcode
        compressedMsg := f.rsv1 }
    if f.rsv1 && !c.cfg.permessageDeflate then
      (c, some ⟨.codecBad,
        "WsCodec::decode: compressed frame without permessage-deflate negotiation"⟩)
    else (c, none)
  else if c.fragOpcode == 0 then
    (c, some ⟨.wsFrameBad, "WsCodec::decode: orphan continuation frame"⟩)
  else if f.rsv1 then
    (c, some ⟨.wsFrameBad, "WsCodec::decode: RSV1 on continuation frame"⟩)
  else (c, none)

/-- Append the frame's payload to the message in flight, or drop the message
with the given error text when it grows past the limit. -/
def WsCodec.accumulate (overflow : String) : WsCodec ι × Option ErrorInfo :=
  if c.fragBuf.length + f.payload.length > c.cfg.maxMessageSize then
    ({ c with fragBuf := [] }, some ⟨.codecOverflow, overflow⟩)
  else ({ c with fragBuf := c.fragBuf ++ f.unmasked }, none)

/-- The permessage-deflate path: fragments are collected still compressed and
inflated once the message is complete. -/
def WsCodec.onCompressed : WsCodec ι × DecodeResult :=
  match c.accumulate f "WsCodec::decode: compressed payload exceeds max" with
  | (c, some e) => (c, .error e)
  | (c, none) =>
    if !f.fin then (c, .ok none)
    else
      let (inflater, inflated) :=
        inflate c.inflater c.fragBuf c.cfg.maxMessageSize c.cfg.serverNoContextTakeover
      let done := { c with inflater, fragBuf := [], fragOpcode := 0, compressedMsg := false }
      match inflated with
      | .error e => (done, .error e)
      | .ok msg =>
        ({ done with
            deflateBytesIn := done.deflateBytesIn + UInt64.ofNat c.fragBuf.length
            deflateBytesOut := done.deflateBytesOut + UInt64.ofNat msg.length },
          .ok (some msg))

/-- The fast path: an unfragmented message is handed out without being copied,
unless it has to be unmasked. -/
def WsCodec.onSingle : WsCodec ι × DecodeResult :=
  if f.payload.length > c.cfg.maxMessageSize then
    (c, .error ⟨.codecOverflow, "WsCodec::decode: single-frame payload exceeds max"⟩)
  else if f.masked && f.payload.length > 0 then
    ({ c with fragBuf := f.unmasked }, .ok (some f.unmasked))
  else (c, .ok (some f.payload))

/-- The slow path: the message in flight grows by one fragment. -/
def WsCodec.onFragment : WsCodec ι × DecodeResult :=
  match c.accumulate f "WsCodec::decode: reassembled payload exceeds max" with
  | (c, some e) => (c, .error e)
  | (c, none) =>
    if !f.fin then (c, .ok none)
    else ({ c with fragOpcode := 0 }, .ok (some c.fragBuf))

/-- A data frame, once `beginFrame` has accepted it. -/
def WsCodec.onData : WsCodec ι × DecodeResult :=
  if c.compressedMsg then c.onCompressed inflate f
  else if f.opcode != kContinuation && f.fin && c.fragBuf.isEmpty then c.onSingle f
  else c.onFragment f

/-- `decode` once a whole frame `f` stands at the head of the view. -/
def WsCodec.onFrame (keys : MaskKeyCache) (view : Bytes)
    (out : OutputBuffer) (f : DecodedFrame) : WsDecoded ι :=
  let trimmed := view.drop f.totalLen
  if f.rsv1 && f.isControl then
    ⟨c, keys, view, out, .error ⟨.wsFrameBad, "WsCodec::decode: RSV1 set on control frame"⟩⟩
  else if f.isPing then
    if c.cfg.autoPong then
      match emitPong keys out f with
      | (keys, .error e) => ⟨c, keys, view, out, .error e⟩
      | (keys, .ok out) => ⟨c, keys, trimmed, out, .ok none⟩
    else ⟨c, keys, trimmed, out, .ok none⟩
  else if f.isPong then ⟨c, keys, trimmed, out, .ok none⟩
  else if f.isClose then
    let received : ErrorInfo := ⟨.wsCloseReceived, "WsCodec::decode: peer sent close frame"⟩
    if c.cfg.autoCloseAck then
      match emitClose keys out (ackCode f) with
      | (keys, .error e) => ⟨c, keys, view, out, .error e⟩
      | (keys, .ok out) => ⟨c, keys, trimmed, out, .error received⟩
    else ⟨c, keys, trimmed, out, .error received⟩
  else if !f.isData then
    ⟨c, keys, view, out, .error ⟨.wsFrameBad, "WsCodec::decode: unexpected non-data frame"⟩⟩
  else
    match c.beginFrame f with
    | (c, some e) => ⟨c, keys, view, out, .error e⟩
    | (c, none) =>
      let (c, result) := c.onData inflate f
      ⟨c, keys, trimmed, out, result⟩

/-- `WsCodec::decode`. -/
def WsCodec.decode (keys : MaskKeyCache) (view : Bytes) (out : OutputBuffer) : WsDecoded ι :=
  if view.length < 2 then ⟨c, keys, view, out, .ok none⟩
  else
    match decodeFrame view c.cfg.permessageDeflate with
    | .error .kIncomplete => ⟨c, keys, view, out, .ok none⟩
    | .error e => ⟨c, keys, view, out, .error ⟨.wsFrameBad, decodeErrorName e⟩⟩
    | .ok f => c.onFrame inflate keys view out f

/-! ## What a data frame does -/

/-- The message in flight. -/
def WsCodec.inFlight : Option Bytes :=
  if c.fragOpcode = 0 then none else some c.fragBuf

/-- The message a data frame belongs to, up to the end of the frame. -/
def WsCodec.joined : Bytes :=
  (if f.opcode = kContinuation then c.fragBuf else []) ++ f.unmasked

/-- What a complete message is handed out as. -/
def WsCodec.handOut (compressed : Bool) (msg : Bytes) : DecodeResult :=
  if compressed then
    (inflate c.inflater msg c.cfg.maxMessageSize c.cfg.serverNoContextTakeover).2.map some
  else .ok (some msg)

end Step

theorem length_unmasked (f : DecodedFrame) : f.unmasked.length = f.payload.length := by
  unfold unmasked
  split
  · rw [applyMask_eq, length_maskBytes]
  · rfl

variable {c c' : WsCodec ι} {f : DecodedFrame}

open WsCodec

/-- What `beginFrame` has done to a frame that it lets through. -/
theorem beginFrame_inv (h : c.beginFrame f = (c', none)) :
    c'.cfg = c.cfg ∧ c'.inflater = c.inflater ∧
      c'.fragBuf = (if f.opcode = kContinuation then c.fragBuf else []) ∧
      c'.compressedMsg = (if f.opcode = kContinuation then c.compressedMsg else f.rsv1) ∧
      (c'.fragOpcode = 0 ↔ f.opcode ≠ kContinuation ∧ f.fin = true) := by
  unfold beginFrame at h
  by_cases hop : f.opcode = kContinuation
  · rw [if_neg (by simp [hop])] at h
    split at h
    · cases h
    rename_i hflight
    split at h
    · cases h
    · cases h
      simpa [hop] using hflight
  · rw [if_pos (by simpa using hop)] at h
    dsimp only at h
    split at h
    · cases h
    cases h
    refine ⟨rfl, rfl, (if_neg hop).symm, (if_neg hop).symm, ?_⟩
    dsimp only
    cases f.fin with
    | true => simp [hop]
    | false => exact ⟨fun hzero => absurd hzero hop, fun hfin => nomatch hfin.2⟩

/-- **A data frame** that `beginFrame` lets through is joined to its message, unless that grows
past the limit. -/
theorem onData_spec (inflate : Inflate ι) (h : c.beginFrame f = (c', none)) :
    (c'.onData inflate f).1.cfg = c.cfg ∧
      ((c'.onData inflate f).1.compressedMsg = true → c'.compressedMsg = true) ∧
      if (c.joined f).length > c.cfg.maxMessageSize then
        ∃ text, (c'.onData inflate f).2 = .error ⟨.codecOverflow, text⟩
      else
        (c'.onData inflate f).1.inFlight = (if f.fin then none else some (c.joined f)) ∧
        (c'.onData inflate f).2 =
          if f.fin then c.handOut inflate c'.compressedMsg (c.joined f) else .ok none := by
  obtain ⟨hcfg, hinflater, hbuf, -, hop⟩ := beginFrame_inv h
  have hjoined : c.joined f = c'.fragBuf ++ f.unmasked := by rw [joined, hbuf]
  rw [hjoined, List.length_append, length_unmasked, handOut, ← hinflater, ← hcfg]
  unfold onData onCompressed onFragment accumulate
  by_cases hover : c'.fragBuf.length + f.payload.length > c'.cfg.maxMessageSize
  · rw [if_pos hover, if_pos hover]
    split
    · exact ⟨rfl, id, _, rfl⟩
    split
    · rename_i hsingle
      rw [Bool.and_eq_true, List.isEmpty_iff] at hsingle
      rw [hsingle.2, List.length_nil, Nat.zero_add] at hover
      rw [onSingle, if_pos hover]
      exact ⟨rfl, id, _, rfl⟩
    · exact ⟨rfl, id, _, rfl⟩
  · rw [if_neg hover, if_neg hover]
    have hflight : f.fin = false → c'.fragOpcode ≠ 0 :=
      fun hfin hzero => nomatch hfin.symm.trans (hop.mp hzero).2
    split
    · rename_i hcompressed
      cases hfin : f.fin with
      | false => exact ⟨rfl, id, if_neg (hflight hfin), rfl⟩
      | true =>
        dsimp only [Bool.not_true]
        rcases inflate c'.inflater (c'.fragBuf ++ f.unmasked) c'.cfg.maxMessageSize
          c'.cfg.serverNoContextTakeover with ⟨inflater, e | msg⟩
        · exact ⟨rfl, fun _ => hcompressed, rfl, rfl⟩
        · exact ⟨rfl, fun _ => hcompressed, rfl, rfl⟩
    · split
      · rename_i hsingle
        simp only [Bool.and_eq_true, bne_iff_ne, List.isEmpty_iff] at hsingle
        obtain ⟨⟨hne, hfin⟩, hempty⟩ := hsingle
        have hzero := hop.mpr ⟨hne, hfin⟩
        rw [hempty, List.length_nil, Nat.zero_add] at hover
        rw [onSingle, if_neg hover, hfin, hempty, List.nil_append]
        split
        · exact ⟨rfl, id, if_pos hzero, rfl⟩
        rename_i hplain
        -- A payload that is not masked, or empty, is handed out as it lies in the buffer.
        have hsame : f.unmasked = f.payload := by
          unfold unmasked
          cases hmasked : f.masked with
          | false => rfl
          | true =>
            have hnone : f.payload = [] := by simpa [hmasked] using hplain
            rw [hnone]
            rfl
        rw [hsame]
        exact ⟨rfl, id, if_pos hzero, rfl⟩
      · cases hfin : f.fin with
        | false => exact ⟨rfl, id, if_neg (hflight hfin), rfl⟩
        | true => exact ⟨rfl, id, rfl, rfl⟩

section Frame

variable (inflate : Inflate ι) (keys : MaskKeyCache) {view : Bytes} (out : OutputBuffer)
  (h : decodeFrame view c.cfg.permessageDeflate = .ok f)

include h

/-- On a complete frame `decode` goes straight to the frame's handler. -/
theorem decode_of_frame : c.decode inflate keys view out = c.onFrame inflate keys view out f := by
  unfold decode
  rw [if_neg (Nat.not_lt.mpr (decodeFrame_inv h).1), h]

/-- A complete data frame goes through `beginFrame` and `onData`. -/
theorem decode_data (hdata : f.isData = true) :
    c.decode inflate keys view out =
      match c.beginFrame f with
      | (c, some e) => ⟨c, keys, view, out, .error e⟩
      | (c, none) =>
        ⟨(c.onData inflate f).1, keys, view.drop f.totalLen, out, (c.onData inflate f).2⟩ := by
  have hop : (f.opcode = kText ∨ f.opcode = kBinary) ∨ f.opcode = kContinuation := by
    simpa [isData] using hdata
  have hkind : f.isControl = false ∧ f.isPing = false ∧ f.isPong = false ∧ f.isClose = false := by
    unfold isControl isPing isPong isClose
    rcases hop with (hop | hop) | hop <;> rw [hop] <;> decide
  rw [decode_of_frame inflate keys out h]
  simp only [onFrame, hkind, hdata, Bool.and_false, Bool.not_true, Bool.false_eq_true, if_false]

end Frame

section Fragments

variable (inflate : Inflate ι) (c : WsCodec ι) (keys : MaskKeyCache) (out : OutputBuffer)
  {view : Bytes} (hf : decodeFrame view c.cfg.permessageDeflate = .ok f)

include hf

/-- A call on part of a frame changes nothing. -/
theorem decode_part {n : Nat} (hn : n < f.totalLen) :
    c.decode inflate keys (view.take n) out = ⟨c, keys, view.take n, out, .ok none⟩ := by
  unfold decode
  split
  · rfl
  · rw [decodeFrame_take hf hn]

/-- **What becomes of the fragments of a message.**  A control frame leaves them alone, a
continuation without a message is refused, a new message is taken as if there were none, and
an accepted data frame is joined to those of its own message. -/
theorem fragments_joined {d : WsDecoded ι} (hd : d = c.decode inflate keys view out) :
    (f.isData = false → d.codec = c) ∧
    (f.opcode = kContinuation → c.inFlight = none → d = ⟨c, keys, view, out,
        .error ⟨.wsFrameBad, "WsCodec::decode: orphan continuation frame"⟩⟩) ∧
    (f.opcode = kText ∨ f.opcode = kBinary →
      d = { c with fragBuf := [], fragOpcode := 0 }.decode inflate keys view out) ∧
    ∀ result, f.isData = true → d.result = .ok result →
      d.codec.inFlight = (if f.fin then none else some (c.joined f)) ∧
      .ok result = if f.fin then
        c.handOut inflate (if f.opcode = kContinuation then c.compressedMsg else f.rsv1)
          (c.joined f)
      else .ok none := by
  refine ⟨?_, ?_, ?_, ?_⟩
  · intro hcontrol
    rw [hd, decode_of_frame inflate keys out hf, onFrame, hcontrol]
    simp only [Bool.not_false, if_true]
    repeat' split
    all_goals rfl
  · intro hop hnone
    have hzero : c.fragOpcode = 0 := by simpa [inFlight] using hnone
    rw [decode_data inflate keys out hf (by simp [isData, hop])] at hd
    simpa [beginFrame, hop, hzero] using hd
  · intro hop
    have hdata : f.isData = true := by
      simp only [isData, Bool.or_eq_true, beq_iff_eq]
      exact .inl hop
    have hnew : f.opcode ≠ kContinuation := by rcases hop with hop | hop <;> rw [hop] <;> decide
    have hbegin : c.beginFrame f = { c with fragBuf := [], fragOpcode := 0 }.beginFrame f := by
      simp [beginFrame, hnew]
    rw [decode_data inflate keys out (by exact hf) hdata, ← hbegin]
    exact hd.trans (decode_data inflate keys out hf hdata)
  · intro result hdata hresult
    rw [hd, decode_data inflate keys out hf hdata] at hresult
    rw [hd, decode_data inflate keys out hf hdata]
    rcases hbegin : c.beginFrame f with ⟨c', e | e⟩
    · rw [hbegin] at hresult
      dsimp only at hresult ⊢
      obtain ⟨-, -, -, hcompressed, -⟩ := beginFrame_inv hbegin
      have hspec := (onData_spec inflate hbegin).2.2
      split at hspec
      · obtain ⟨text, herror⟩ := hspec
        cases herror.symm.trans hresult
      · rw [← hresult, ← hcompressed]
        exact hspec
    · rw [hbegin] at hresult
      cases hresult

/-- **A message past the limit** is refused, but no earlier than its last frame is complete. -/
theorem oversize_rejected (hdata : f.isData = true)
    (hover : (c.joined f).length > c.cfg.maxMessageSize) :
    (∀ n < f.totalLen, c.decode inflate keys (view.take n) out =
      ⟨c, keys, view.take n, out, .ok none⟩) ∧
    ∃ e, (c.decode inflate keys view out).result = .error e := by
  refine ⟨fun n hn => decode_part inflate c keys out hf hn, ?_⟩
  rw [decode_data inflate keys out hf hdata]
  rcases hbegin : c.beginFrame f with ⟨c', e | e⟩
  · obtain ⟨text, herror⟩ := if_pos hover ▸ (onData_spec inflate hbegin).2.2
    exact ⟨_, herror⟩
  · exact ⟨e, rfl⟩

end Fragments

section Samples

/-- A codec that is never asked to inflate, with one masking key. -/
def sampleCall (c : WsCodec Unit) (view : Bytes) : WsDecoded Unit :=
  c.decode (fun i _ _ _ => (i, .ok [])) ⟨fun _ => .zero, 0⟩ view (OutputBuffer.create 16)

/-- The first frame of a text, -/
theorem fragments_joined_text :
    (sampleCall (WsCodec.create {} ()) [0x01, 0x01, 97]).codec.inFlight = some [97] :=
  ((@fragments_joined _ _ _ (create {} ()) _ _ [0x01, 0x01, 97] rfl _ rfl).2.2.2 none rfl rfl).1

/-- which a whole text takes the place of. -/
theorem fragments_replaced :
    let c := (sampleCall (create {} ()) [0x01, 0x01, 97]).codec
    c.inFlight = some [97] ∧ (sampleCall c [0x81, 0x01, 98]).result = .ok (some [98]) ∧
      (sampleCall c [0x81, 0x01, 98]).codec.inFlight = none :=
  ⟨rfl, rfl, rfl⟩

/-- Five bytes, where four are the limit, -/
theorem oversize_rejected_five :
    ∃ e, (sampleCall (WsCodec.create { maxMessageSize := 4 } ())
      [0x82, 0x05, 1, 2, 3, 4, 5]).result = .error e :=
  (@oversize_rejected _ _ _ (create { maxMessageSize := 4 } ()) _ _
    [0x82, 0x05, 1, 2, 3, 4, 5] rfl rfl (by decide)).2

/-- are waited for once the header has announced them. -/
theorem oversize_waits :
    (sampleCall (WsCodec.create { maxMessageSize := 4 } ()) [0x82, 0x05]).result = .ok none :=
  rfl

end Samples

end Eph.Codec
