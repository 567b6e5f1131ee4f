import Ephemeral.WsCodec

/-!
# A WebSocket byte stream through the codec

The server sends messages, each cut into a first frame and continuation frames,
with Ping and Pong frames anywhere between frames.  The resulting bytes reach
the codec in arbitrary chunks.  `ws_stream_correct` says that calling `decode`
until it stops making progress, after every chunk, returns the messages in
order and answers every Ping with one Pong carrying its payload.

`assemble` is what reassembly is for, in terms of frames: it has no wire format,
no masking and no buffers.  `decode_frame_step` shows that one call of the codec
on a complete frame is one step of it, and the run lemmas carry that through
every chunk boundary.
-/

namespace Eph.Codec

open ByteOrder Core Net List OutputBuffer

variable {ι : Type} {c : WsCodec ι} {fs : List ServerFrame} {cfg : WsCodecConfig}

/-! ## Frames and messages the server sends -/

/-- A data payload a frame can carry. -/
abbrev DataPayload := { p : Bytes // p.length ≤ kMaxPayloadLen }

/-- A control payload a frame can carry. -/
abbrev ControlPayload := { p : Bytes // p.length ≤ kMaxControlPayloadLen }

inductive MessageKind
  | text
  | binary
  deriving DecidableEq

def MessageKind.opcode : MessageKind → UInt8
  | .text => kText
  | .binary => kBinary

/-- The frames of the stream: a message's first frame, its continuations, and
the control frames between them. -/
inductive ServerFrame
  | start (kind : MessageKind) (fin : Bool) (payload : DataPayload)
  | continuation (fin : Bool) (payload : DataPayload)
  | ping (payload : ControlPayload)
  | pong (payload : ControlPayload)
  deriving DecidableEq

namespace ServerFrame

def opcode : ServerFrame → UInt8
  | start kind _ _ => kind.opcode
  | continuation _ _ => kContinuation
  | ping _ => kPing
  | pong _ => kPong

def fin : ServerFrame → Bool
  | start _ fin _ => fin
  | continuation fin _ => fin
  | ping _ => true
  | pong _ => true

def payload : ServerFrame → Bytes
  | start _ _ p => p.1
  | continuation _ p => p.1
  | ping p => p.1
  | pong p => p.1

variable (f : ServerFrame)

/-- Server frames are not masked. -/
def encode : Bytes :=
  rawFrame f.opcode f.fin none f.payload

def isData : ServerFrame → Bool
  | start _ _ _ => true
  | continuation _ _ => true
  | ping _ => false
  | pong _ => false

/-- The payload a Pong is owed for. -/
def pingPayload? : ServerFrame → Option Bytes
  | ping p => some p.1
  | _ => none

/-- Every server frame is one the decoder accepts. -/
theorem frameOk : FrameOk f.opcode f.fin f.payload.length := by
  cases f with
  | start kind fin p => cases kind <;> exact frameOk_data (by simp [opcode, MessageKind.opcode]) p.2
  | continuation fin p => exact frameOk_data (.inl rfl) p.2
  | ping p => exact frameOk_control (.inl rfl) p.2
  | pong p => exact frameOk_control (.inr rfl) p.2

/-- The decoder's view of the frame. -/
def decoded : DecodedFrame :=
  ⟨f.opcode, f.fin, false, false, f.payload, .zero, f.encode.length⟩

theorem decodeFrame_encode (rest : Bytes) (allowRsv1 : Bool) :
    decodeFrame (f.encode ++ rest) allowRsv1 = .ok f.decoded :=
  decodeFrame_rawFrame f.frameOk none rest allowRsv1

theorem two_le_length_encode : 2 ≤ f.encode.length := by
  obtain ⟨h, -⟩ := decodeFrame_inv (f.decodeFrame_encode [] false)
  simpa using h

end ServerFrame

/-- A message cut into a first fragment and further ones, possibly empty. -/
structure FragmentedMessage where
  kind : MessageKind
  first : DataPayload
  rest : List DataPayload

/-- The continuation frames for the remaining fragments; the last one is final. -/
def continuations : List DataPayload → List ServerFrame
  | [] => []
  | p :: ps => .continuation ps.isEmpty p :: continuations ps

namespace FragmentedMessage

def payload (m : FragmentedMessage) : Bytes :=
  m.first.1 ++ m.rest.flatMap (·.1)

def frames (m : FragmentedMessage) : List ServerFrame :=
  .start m.kind m.rest.isEmpty m.first :: continuations m.rest

end FragmentedMessage

/-! ## What reassembly means -/

/-- One frame of reassembly: the message in flight, if any, and the message the
frame completes, if any.  `none` is a frame the protocol does not allow there
or a message that grows past `max`. -/
def assembleStep (max : Nat) :
    Option Bytes → ServerFrame → Option (Option Bytes × Option Bytes)
  | st, .ping _ => some (st, none)
  | st, .pong _ => some (st, none)
  | none, .start _ fin p =>
    if p.1.length > max then none
    else if fin then some (none, some p.1) else some (some p.1, none)
  | some acc, .continuation fin p =>
    if acc.length + p.1.length > max then none
    else if fin then some (none, some (acc ++ p.1)) else some (some (acc ++ p.1), none)
  | _, _ => none

/-- Reassembly of a whole stream: what is left in flight, and the messages. -/
def assemble (max : Nat) : Option Bytes → List ServerFrame → Option (Option Bytes × List Bytes)
  | st, [] => some (st, [])
  | st, f :: fs => do
    let (st, msg) ← assembleStep max st f
    let (st, msgs) ← assemble max st fs
    some (st, msg.toList ++ msgs)

variable {f : ServerFrame}

variable {st st' : Option Bytes}

theorem assemble_cons {max : Nat} {msg : Option Bytes}
    (h : assembleStep max st f = some (st', msg)) :
    assemble max st (f :: fs) = (assemble max st' fs).map fun r => (r.1, msg.toList ++ r.2) := by
  simp only [assemble, h, Option.bind_eq_bind, Option.bind_some]
  cases assemble max st' fs <;> rfl

/-- A data frame that brings its message to `acc`, with `rest` still to come of it. -/
private theorem assemble_data {max : Nat} {acc : Bytes}
    {rest : List DataPayload} {out : List Bytes}
    (hstep : assembleStep max st f =
      some (if rest.isEmpty then (none, some acc) else (some acc, none)))
    (hrest : assemble max (if rest.isEmpty then none else some acc) fs =
      some (none, (if rest.isEmpty then [] else [acc ++ rest.flatMap (·.1)]) ++ out)) :
    assemble max st (f :: fs) = some (none, (acc ++ rest.flatMap (·.1)) :: out) := by
  cases rest with
  | nil | cons q qs => simpa [assemble_cons hstep] using hrest

open ServerFrame

/-- Reassembly from the middle of a message: `rest` is what is still to come of
it, nothing when no message is in flight. -/
private theorem assemble_from {max : Nat} (acc : Bytes) (rest : List DataPayload)
    {msgs : List FragmentedMessage}
    (hdata : fs.filter (·.isData) = continuations rest ++ msgs.flatMap (·.frames))
    (hacc : (acc ++ rest.flatMap (·.1)).length ≤ max) (hmax : ∀ m ∈ msgs, m.payload.length ≤ max) :
    assemble max (if rest.isEmpty then none else some acc) fs =
      some (none, (if rest.isEmpty then [] else [acc ++ rest.flatMap (·.1)]) ++
        msgs.map (·.payload)) := by
  induction fs generalizing acc rest msgs with
  | nil =>
    cases rest with
    | cons p ps => simp [continuations] at hdata
    | nil =>
      cases msgs with
      | cons m ms => simp [continuations, FragmentedMessage.frames] at hdata
      | nil => rfl
  | cons f fs ih =>
    cases f with
    | ping p | pong p =>
      rw [assemble_cons rfl, ih acc rest (by simpa [isData] using hdata) hacc hmax]
      rfl
    | continuation fin p =>
      rw [filter_cons_of_pos (by rfl)] at hdata
      cases rest with
      | nil => cases msgs <;> simp [continuations, FragmentedMessage.frames] at hdata
      | cons q qs =>
        simp only [continuations, cons_append, List.cons.injEq, continuation.injEq] at hdata
        obtain ⟨⟨rfl, rfl⟩, htail⟩ := hdata
        simp only [flatMap_cons, length_append] at hacc
        have hfits : ¬ acc.length + p.1.length > max := by omega
        have hstep : assembleStep max (some acc) (.continuation qs.isEmpty p) =
            some (if qs.isEmpty then (none, some (acc ++ p.1)) else (some (acc ++ p.1), none)) := by
          cases qs <;> simp [assembleStep, hfits]
        have hrest := ih (acc ++ p.1) qs htail
          (by simpa only [append_assoc, length_append] using hacc) hmax
        simpa using assemble_data hstep hrest
    | start kind fin p =>
      rw [filter_cons_of_pos (by rfl)] at hdata
      cases rest with
      | cons q qs => simp [continuations] at hdata
      | nil =>
        cases msgs with
        | nil => simp [continuations] at hdata
        | cons m ms =>
          simp only [continuations, nil_append, flatMap_cons,
            FragmentedMessage.frames, cons_append, List.cons.injEq,
            ServerFrame.start.injEq] at hdata
          obtain ⟨⟨rfl, rfl, rfl⟩, htail⟩ := hdata
          have hm : m.payload.length ≤ max := hmax m (by simp)
          have htails : ∀ m' ∈ ms, m'.payload.length ≤ max := fun m' h => hmax m' (by simp [h])
          have hrest := ih m.first.1 m.rest htail hm htails
          rw [FragmentedMessage.payload, length_append] at hm
          have hfits : ¬ m.first.1.length > max := by omega
          have hstep : assembleStep max none (.start m.kind m.rest.isEmpty m.first) =
              some (if m.rest.isEmpty then (none, some m.first.1) else (some m.first.1, none)) := by
            cases m.rest <;> simp [assembleStep, hfits]
          exact assemble_data hstep hrest

/-! ## One call of the codec -/

/-- The codec stands where reassembly stands. -/
structure Tracks (cfg : WsCodecConfig) (c : WsCodec ι) (st : Option Bytes) : Prop where
  cfg_eq : c.cfg = cfg
  plain : c.compressedMsg = false
  inFlight : match st with
    | none => c.fragOpcode = 0
    | some acc => c.fragOpcode ≠ 0 ∧ c.fragBuf = acc

/-- A codec with the message `st` in flight. -/
theorem Tracks.of_inFlight (hcfg : c.cfg = cfg)
    (hplain : c.compressedMsg = false) (h : c.inFlight = st) : Tracks cfg c st := by
  subst h
  refine ⟨hcfg, hplain, ?_⟩
  by_cases hop : c.fragOpcode = 0
  · rw [WsCodec.inFlight, if_pos hop]
    exact hop
  · rw [WsCodec.inFlight, if_neg hop]
    exact ⟨hop, rfl⟩

/-- The automatic response a frame provokes. -/
def reply (keys : MaskKeyCache) : ServerFrame → Bytes
  | .ping p => buildPongFrame p.1 keys.key
  | _ => []

/-- The key supply after the frame has been answered. -/
def keysAfter (keys : MaskKeyCache) : ServerFrame → MaskKeyCache
  | .ping _ => keys.next
  | _ => keys

/-- Room enough for any automatic Pong. -/
def kMaxPong : Nat := kMaxFrameHeaderLen + kMaxControlPayloadLen

section

variable (inflate : Inflate ι)

private theorem decode_ping_step (hpong : c.cfg.autoPong = true)
    (keys : MaskKeyCache) (p : ControlPayload) (rest : Bytes) {cap : Nat} (hcap : kMaxPong ≤ cap) :
    let f := ServerFrame.ping p
    let d := c.decode inflate keys (f.encode ++ rest) (create cap)
    d.codec = c ∧ d.keys = keys.next ∧ d.view = rest ∧
      d.out.bytes = buildPongFrame p.1 keys.key ∧ d.result = .ok none := by
  intro f
  have hlen : (buildPongFrame p.1 keys.key).length = p.1.length + 6 :=
    length_buildPongFrame p.2 keys.key
  have hfits : (buildPongFrame p.1 keys.key).length ≤ cap := by
    have hp : p.1.length ≤ 125 := p.2
    have hmax : 139 ≤ cap := hcap
    omega
  have hemit : emitPong keys (create cap) f.decoded =
      (keys.next, .ok ⟨cap, buildPongFrame p.1 keys.key, hfits⟩) := by
    have hshort : ¬ f.decoded.payload.length > kMaxControlPayloadLen := Nat.not_lt.mpr p.2
    have hun : f.decoded.unmasked = p.1 := rfl
    unfold emitPong
    rw [if_neg hshort, hun]
    split
    · rename_i hnil
      rw [hnil] at hlen
      simp at hlen
    · rw [append, dif_neg (by simpa [create] using hfits)]
      rfl
  have hdrop : (f.encode ++ rest).drop f.decoded.totalLen = rest := drop_left' rfl
  have hframe : c.onFrame inflate keys (f.encode ++ rest) (create cap) f.decoded =
      ⟨c, keys.next, rest, ⟨cap, buildPongFrame p.1 keys.key, hfits⟩, .ok none⟩ := by
    simp only [WsCodec.onFrame, hdrop, hpong, hemit]
    rfl
  rw [decode_of_frame inflate keys _ (f.decodeFrame_encode rest _), hframe]
  exact ⟨rfl, rfl, rfl, rfl, rfl⟩

/-- What reassembly does with a data frame that it allows. -/
theorem assembleStep_data {max : Nat} {msg : Option Bytes}
    (hf : f.isData = true) (h : assembleStep max st f = some (st', msg)) :
    (f.opcode = kContinuation ↔ st.isSome) ∧ ¬ (st.getD [] ++ f.payload).length > max ∧
      st' = (if f.fin then none else some (st.getD [] ++ f.payload)) ∧
      msg = if f.fin then some (st.getD [] ++ f.payload) else none := by
  cases f with
  | ping p | pong p => cases hf
  | start kind fin p =>
    have hop : (ServerFrame.start kind fin p).opcode ≠ kContinuation := by
      cases kind <;> exact fun heq => nomatch heq
    cases st with
    | some acc => cases h
    | none =>
      simp only [assembleStep] at h
      split at h
      · cases h
      rename_i hfits
      refine ⟨by simp [hop], by simpa [payload] using hfits, ?_⟩
      cases fin <;> cases h <;> exact ⟨rfl, rfl⟩
  | continuation fin p =>
    cases st with
    | none => cases h
    | some acc =>
      simp only [assembleStep] at h
      split at h
      · cases h
      rename_i hfits
      refine ⟨iff_of_true rfl rfl, by simpa [payload] using hfits, ?_⟩
      cases fin <;> cases h <;> exact ⟨rfl, rfl⟩

/-- A data frame. -/
private theorem decode_data_step {msg : Option Bytes} (h : Tracks cfg c st) (hf : f.isData = true)
    (hstep : assembleStep cfg.maxMessageSize st f = some (st', msg)) (keys : MaskKeyCache)
    (rest : Bytes) (out : OutputBuffer) :
    let d := c.decode inflate keys (f.encode ++ rest) out
    Tracks cfg d.codec st' ∧ d.keys = keys ∧ d.view = rest ∧ d.out = out ∧ d.result = .ok msg := by
  intro d
  obtain ⟨hop, hfits, rfl, rfl⟩ := assembleStep_data hf hstep
  have hdata : f.decoded.isData = true := by
    cases f with
    | start kind _ _ => cases kind <;> rfl
    | continuation _ _ => rfl
    | ping _ | pong _ => cases hf
  obtain ⟨⟨c', hbegin⟩, hjoined⟩ : (∃ c', c.beginFrame f.decoded = (c', none)) ∧
      c.joined f.decoded = st.getD [] ++ f.payload := by
    have hflight := h.inFlight
    cases st with
    | none =>
      have hnew : f.decoded.opcode ≠ kContinuation := fun heq => nomatch hop.mp heq
      exact ⟨⟨_, if_pos (by simpa using hnew)⟩, by rw [WsCodec.joined, if_neg hnew]; rfl⟩
    | some acc =>
      have hcont : f.opcode = kContinuation := hop.mpr rfl
      refine ⟨⟨c, ?_⟩, by rw [WsCodec.joined, if_pos (by exact hcont), hflight.2]; rfl⟩
      simp [WsCodec.beginFrame, decoded, hcont, hflight.1]
  obtain ⟨-, -, -, hcompressed, -⟩ := beginFrame_inv hbegin
  have hplain : c'.compressedMsg = false := by
    rw [hcompressed, h.plain]
    exact ite_self _
  obtain ⟨hcfg, hcomp, hspec⟩ := onData_spec inflate hbegin
  rw [hjoined, h.cfg_eq, if_neg hfits] at hspec
  have hd : d = _ := decode_data inflate keys out (f.decodeFrame_encode rest _) hdata
  rw [hd, hbegin]
  dsimp only
  refine ⟨.of_inFlight (hcfg.trans h.cfg_eq) ?_ hspec.1, rfl, drop_left' rfl, rfl, ?_⟩
  · rw [← Bool.not_eq_true]
    exact mt hcomp (by rw [hplain]; decide)
  · rw [hspec.2, hplain]
    cases hfin : f.fin <;> simp [decoded, hfin, WsCodec.handOut]

/-- **One call on a complete frame is one step of reassembly.**  The codec
consumes the frame, answers it, and returns what reassembly returns. -/
theorem decode_frame_step (hpong : cfg.autoPong = true) {msg : Option Bytes} (h : Tracks cfg c st)
    (hstep : assembleStep cfg.maxMessageSize st f = some (st', msg)) (keys : MaskKeyCache)
    (rest : Bytes) {cap : Nat} (hcap : kMaxPong ≤ cap) :
    let d := c.decode inflate keys (f.encode ++ rest) (create cap)
    Tracks cfg d.codec st' ∧ d.keys = keysAfter keys f ∧ d.view = rest ∧
      d.out.bytes = reply keys f ∧ d.result = .ok msg := by
  cases f with
  | ping p =>
    obtain ⟨rfl, rfl⟩ : st = st' ∧ none = msg := by simpa [assembleStep] using hstep
    obtain ⟨hc, hk, hv, ho, hr⟩ := decode_ping_step inflate (h.cfg_eq ▸ hpong) keys p rest hcap
    refine ⟨?_, hk, hv, ho, hr⟩
    rw [hc]
    exact h
  | pong p =>
    obtain ⟨rfl, rfl⟩ : st = st' ∧ none = msg := by simpa [assembleStep] using hstep
    have hdrop : ((ServerFrame.pong p).encode ++ rest).drop
        (ServerFrame.pong p).decoded.totalLen = rest := drop_left' rfl
    rw [decode_of_frame inflate keys _ (decodeFrame_encode _ rest _)]
    exact ⟨h, rfl, hdrop, rfl, rfl⟩
  | start kind fin p | continuation fin p =>
    obtain ⟨ht, hk, hv, ho, hr⟩ := decode_data_step inflate h rfl hstep keys rest _
    exact ⟨ht, hk, hv, congrArg bytes ho, hr⟩

end

/-! ## A caller that feeds chunks -/

/-- A caller of the codec: the unconsumed input, the messages returned so far,
the automatic responses written so far, and the error that stopped it. -/
structure Pump (ι : Type) where
  codec : WsCodec ι
  keys : MaskKeyCache
  buf : Bytes
  messages : List Bytes
  wrote : List Bytes
  error : Option ErrorInfo

/-- The caller's loop.  Each call gets a fresh output buffer of `cap` bytes; what
it consumed leaves the input; the loop ends when a call consumes nothing.
Every call that goes on consumes at least one byte, so `buf.length + 1` rounds
are enough. -/
def Pump.drain (inflate : Inflate ι) (cap : Nat) : Nat → Pump ι → Pump ι
  | 0, s => s
  | fuel + 1, s =>
    let d := s.codec.decode inflate s.keys s.buf (OutputBuffer.create cap)
    let wrote := if d.out.bytes.isEmpty then s.wrote else s.wrote ++ [d.out.bytes]
    match d.result with
    | .error e => { s with codec := d.codec, keys := d.keys, wrote, error := some e }
    | .ok msg =>
      let s' : Pump ι := ⟨d.codec, d.keys, d.view, s.messages ++ msg.toList, wrote, s.error⟩
      if d.view.length = s.buf.length then s' else Pump.drain inflate cap fuel s'

/-- A chunk arrives: it is appended to the input, which is then drained. -/
def Pump.feed (inflate : Inflate ι) (cap : Nat) (s : Pump ι) (chunk : Bytes) : Pump ι :=
  if s.error.isSome then s
  else
    Pump.drain inflate cap ((s.buf ++ chunk).length + 1) { s with buf := s.buf ++ chunk }

def Pump.run (inflate : Inflate ι) (cap : Nat) (s : Pump ι) (chunks : List Bytes) : Pump ι :=
  chunks.foldl (Pump.feed inflate cap) s

/-- A fresh codec with nothing received. -/
def Pump.create (cfg : WsCodecConfig) (inflater : ι) (keys : MaskKeyCache) : Pump ι :=
  ⟨WsCodec.create cfg inflater, keys, [], [], [], none⟩

/-- The automatic responses a stream of frames provokes. -/
def replies : MaskKeyCache → List ServerFrame → List Bytes
  | _, [] => []
  | keys, f :: fs =>
    (if (reply keys f).isEmpty then [] else [reply keys f]) ++ replies (keysAfter keys f) fs

/-- Where a run stands: the frames `todo` are still to be decoded, their bytes
are partly in the input buffer and partly still `pending`, and what has been
returned and written so far plus what they will add is the whole. -/
structure Standing (cfg : WsCodecConfig) (msgs wrote : List Bytes) (s : Pump ι)
    (todo : List ServerFrame) (pending : Bytes) : Prop where
  ok : s.error = none
  bytes : s.buf ++ pending = todo.flatMap ServerFrame.encode
  reassembles : ∃ st msgs', Tracks cfg s.codec st ∧
    assemble cfg.maxMessageSize st todo = some (none, msgs') ∧ s.messages ++ msgs' = msgs
  replies : s.wrote ++ replies s.keys todo = wrote

section Run

variable (inflate : Inflate ι) {cfg : WsCodecConfig} {msgs wrote : List Bytes} {s : Pump ι}
  {todo : List ServerFrame} {pending : Bytes} {cap : Nat}

/-- One round of the loop with a complete frame at the head of the input. -/
private theorem drain_step (hpong : cfg.autoPong = true) (hcap : kMaxPong ≤ cap)
    {rest : Bytes} (h : Standing cfg msgs wrote s (f :: todo) pending)
    (hbuf : s.buf = f.encode ++ rest) (fuel : Nat) :
    ∃ s', s'.buf = rest ∧ Standing cfg msgs wrote s' todo pending ∧
      s.drain inflate cap (fuel + 1) = s'.drain inflate cap fuel := by
  obtain ⟨st, msgs', htracks, hasm, hmsgs⟩ := h.reassembles
  cases hstep : assembleStep cfg.maxMessageSize st f with
  | none => simp [assemble, hstep] at hasm
  | some r =>
    obtain ⟨st', msg⟩ := r
    rw [assemble_cons hstep] at hasm
    obtain ⟨r, hrest, hr⟩ := Option.map_eq_some_iff.mp hasm
    obtain ⟨hst, hms⟩ := Prod.mk.inj hr
    obtain ⟨ht, hk, hv, ho, hres⟩ := decode_frame_step inflate hpong htracks hstep s.keys rest hcap
    rw [← hbuf] at ht hk hv ho hres
    generalize hd : s.codec.decode inflate s.keys s.buf (create cap) = d
      at ht hk hv ho hres
    refine ⟨⟨d.codec, d.keys, d.view, s.messages ++ msg.toList,
      if d.out.bytes.isEmpty then s.wrote else s.wrote ++ [d.out.bytes], s.error⟩, hv,
      ⟨h.ok, ?_, ⟨st', r.2, ht, ?_, ?_⟩, ?_⟩, ?_⟩
    · have hbytes := h.bytes
      rw [hbuf, flatMap_cons, append_assoc] at hbytes
      rw [hv]
      exact append_cancel_left hbytes
    · rw [hrest, ← hst]
    · rw [append_assoc, hms, hmsgs]
    · have hrep := h.replies
      rw [Eph.Codec.replies, ← ho, ← hk] at hrep
      rw [← hrep]
      split <;> simp
    · have hne : ¬ d.view.length = s.buf.length := by
        have h2 := f.two_le_length_encode
        rw [hv, hbuf, length_append]
        omega
      rw [Pump.drain, hd]
      simp only [hres, if_neg hne]

/-- The input holds no complete frame. -/
def Stalled (s : Pump ι) (todo : List ServerFrame) : Prop :=
  ∀ f ∈ todo.head?, s.buf.length < f.encode.length

/-- A stalled loop ends at once and leaves everything as it was. -/
private theorem drain_of_stalled (h : Standing cfg msgs wrote s todo pending)
    (hstall : Stalled s todo) (fuel : Nat) : s.drain inflate cap (fuel + 1) = s := by
  have hdecode : s.codec.decode inflate s.keys s.buf (create cap) =
      ⟨s.codec, s.keys, s.buf, create cap, .ok none⟩ := by
    cases todo with
    | nil =>
      have hbuf : s.buf = [] := (append_eq_nil_iff.mp h.bytes).1
      rw [hbuf]
      rfl
    | cons f fs =>
      have hlt : s.buf.length < f.encode.length := hstall f rfl
      have hcut : f.encode.take s.buf.length = s.buf := by
        have hbytes := congrArg (List.take s.buf.length) h.bytes
        rw [take_left' rfl, flatMap_cons, take_append_of_le_length (by omega)] at hbytes
        exact hbytes.symm
      have hpart := decode_part inflate s.codec s.keys (create cap) (f.decodeFrame_encode [] _) hlt
      rwa [append_nil, hcut] at hpart
  rw [Pump.drain, hdecode]
  simp [create]

/-- **Draining keeps the run's standing** and stops only when no complete frame is
left in the input. -/
theorem drain_standing (hpong : cfg.autoPong = true) (hcap : kMaxPong ≤ cap)
    (h : Standing cfg msgs wrote s todo pending) {fuel : Nat} (hfuel : s.buf.length < fuel) :
    ∃ todo', Standing cfg msgs wrote (s.drain inflate cap fuel) todo' pending ∧
      Stalled (s.drain inflate cap fuel) todo' := by
  obtain ⟨fuel, rfl⟩ : ∃ k, fuel = k + 1 := ⟨fuel - 1, by omega⟩
  induction todo generalizing s fuel with
  | nil =>
    have hstall : Stalled s [] := by simp [Stalled]
    rw [drain_of_stalled inflate h hstall]
    exact ⟨[], h, hstall⟩
  | cons f fs ih =>
    by_cases hlt : s.buf.length < f.encode.length
    · have hstall : Stalled s (f :: fs) := by simpa [Stalled] using hlt
      rw [drain_of_stalled inflate h hstall]
      exact ⟨f :: fs, h, hstall⟩
    have hbuf : s.buf = f.encode ++ s.buf.drop f.encode.length := by
      have hbytes := congrArg (List.take f.encode.length) h.bytes
      rw [flatMap_cons, take_left' rfl, take_append_of_le_length (by omega)] at hbytes
      conv_lhs => rw [← take_append_drop f.encode.length s.buf, hbytes]
    obtain ⟨s', hrest, hs', hdrain⟩ := drain_step inflate hpong hcap h hbuf fuel
    have hshort : s'.buf.length + 2 ≤ s.buf.length := by
      have h2 := f.two_le_length_encode
      rw [hrest, length_drop]
      omega
    obtain ⟨k, rfl⟩ : ∃ k, fuel = k + 1 := ⟨fuel - 1, by omega⟩
    rw [hdrain]
    exact ih hs' k (by omega)

/-- What holds at a chunk boundary holds at the next one. -/
theorem run_standing (hpong : cfg.autoPong = true) (hcap : kMaxPong ≤ cap) (chunks : List Bytes)
    (h : Standing cfg msgs wrote s todo chunks.flatten) (hstall : Stalled s todo) :
    ∃ todo', Standing cfg msgs wrote (s.run inflate cap chunks) todo' [] ∧
      Stalled (s.run inflate cap chunks) todo' := by
  induction chunks generalizing s todo with
  | nil => exact ⟨todo, h, hstall⟩
  | cons chunk chunks ih =>
    have hbytes : (s.buf ++ chunk) ++ chunks.flatten = todo.flatMap encode := by
      rw [append_assoc, ← flatten_cons]
      exact h.bytes
    have hfed : Standing cfg msgs wrote { s with buf := s.buf ++ chunk } todo chunks.flatten :=
      ⟨h.ok, hbytes, h.reassembles, h.replies⟩
    obtain ⟨todo', hs', hstall'⟩ := drain_standing inflate hpong hcap hfed
      (Nat.lt_succ_self (s.buf ++ chunk).length)
    have hfeed : s.feed inflate cap chunk =
        Pump.drain inflate cap ((s.buf ++ chunk).length + 1)
          { s with buf := s.buf ++ chunk } := by
      simp [Pump.feed, h.ok]
    rw [Pump.run, foldl_cons, hfeed]
    exact ih hs' hstall'

end Run

/-! ## The stream -/

/-- The bytes are one Pong frame, masked as a client must, with this payload. -/
def IsPongFor (bytes payload : Bytes) : Prop :=
  ∃ f, decodeFrame bytes false = .ok f ∧ f.totalLen = bytes.length ∧ f.isPong = true ∧
    f.masked = true ∧ f.unmasked = payload

theorem buildPongFrame_isPongFor {payload : Bytes} (h : payload.length ≤ kMaxControlPayloadLen)
    (k : MaskKey) : IsPongFor (buildPongFrame payload k) payload := by
  have hdec := decodeFrame_rawFrame (frameOk_control (.inr rfl) h) (some k) [] false
  rw [append_nil, ← buildPongFrame_eq h] at hdec
  refine ⟨_, hdec, rfl, rfl, rfl, ?_⟩
  exact (applyMask_eq ..).trans (maskBytes_maskBytes k payload)

/-- The responses to a stream are one Pong for each of its Pings, in order. -/
theorem replies_pongs (keys : MaskKeyCache) (fs : List ServerFrame) :
    List.Forall₂ IsPongFor (replies keys fs) (fs.filterMap ServerFrame.pingPayload?) := by
  induction fs generalizing keys with
  | nil => exact .nil
  | cons f fs ih =>
    cases f with
    | ping p =>
      have hne : (buildPongFrame p.1 keys.key).isEmpty = false := by
        have hlen := length_buildPongFrame p.2 keys.key
        cases hb : buildPongFrame p.1 keys.key with
        | nil => simp [hb] at hlen
        | cons b bs => rfl
      simp only [replies, reply, hne, Bool.false_eq_true, if_false]
      exact .cons (buildPongFrame_isPongFor p.2 keys.key) (ih keys.next)
    | pong p | start kind fin p | continuation fin p => exact ih keys

/-- **The codec returns the messages and answers the Pings.**  For messages of at
most the configured size, cut into frames in any way, with Pings and Pongs
anywhere between the frames, and for any split of the bytes into chunks: no
error, the messages in order, and one Pong for each Ping. -/
theorem ws_stream_correct (inflate : Inflate ι) (inflater : ι) (keys : MaskKeyCache)
    (cfg : WsCodecConfig) (hpong : cfg.autoPong = true) {cap : Nat} (hcap : kMaxPong ≤ cap)
    (msgs : List FragmentedMessage) (hsize : ∀ m ∈ msgs, m.payload.length ≤ cfg.maxMessageSize)
    (frames : List ServerFrame) (hframes : frames.filter (·.isData) = msgs.flatMap (·.frames))
    (chunks : List Bytes) (hchunks : chunks.flatten = frames.flatMap ServerFrame.encode) :
    let s := (Pump.create cfg inflater keys).run inflate cap chunks
    s.error = none ∧ s.messages = msgs.map (·.payload) ∧ s.buf = [] ∧
      List.Forall₂ IsPongFor s.wrote (frames.filterMap pingPayload?) := by
  have hstart : Standing cfg (msgs.map (·.payload)) (replies keys frames)
      (Pump.create cfg inflater keys) frames chunks.flatten :=
    ⟨rfl, hchunks,
      ⟨none, _, ⟨rfl, rfl, rfl⟩, assemble_from [] [] hframes (Nat.zero_le _) hsize, rfl⟩, rfl⟩
  have hstall : Stalled (Pump.create cfg inflater keys) frames := by
    intro f _
    have h2 := f.two_le_length_encode
    exact Nat.lt_of_lt_of_le (by decide : 0 < 2) h2
  obtain ⟨todo, hend, hstalled⟩ := run_standing inflate hpong hcap chunks hstart hstall
  have hbytes := hend.bytes
  rw [append_nil] at hbytes
  -- everything has been received, so a stalled input can only be an empty one
  cases todo with
  | cons f fs =>
    have hlt := hstalled f rfl
    rw [hbytes, flatMap_cons, length_append] at hlt
    omega
  | nil =>
    obtain ⟨st, msgs', -, hasm, hmsgs⟩ := hend.reassembles
    cases hasm
    have hwrote := hend.replies
    simp only [replies, append_nil] at hwrote hmsgs
    refine ⟨hend.ok, hmsgs, hbytes, ?_⟩
    rw [hwrote]
    exact replies_pongs keys frames

/-- A text message in two frames with a Ping between them, then an empty binary
message. -/
def sampleMessages : List FragmentedMessage :=
  [⟨.text, ⟨[72, 105], by decide⟩, [⟨[33], by decide⟩]⟩, ⟨.binary, ⟨[], by decide⟩, []⟩]

def sampleFrames : List ServerFrame :=
  [.start .text false ⟨[72, 105], by decide⟩, .ping ⟨[7], by decide⟩,
    .continuation true ⟨[33], by decide⟩, .start .binary true ⟨[], by decide⟩]

/-- Both messages come out, and the Ping is answered. -/
theorem ws_stream_correct_sample : let chunks : List Bytes :=
      [[0x01], [0x02, 72, 105, 0x89, 0x01], [7, 0x80, 0x01, 33, 0x82], [0x00]]
    let s := (Pump.create {} () ⟨fun _ => ⟨1, 2, 3, 4⟩, 0⟩).run
      (fun _ _ _ _ => ((), .ok [])) 1024 chunks
    s.error = none ∧ s.messages = [[72, 105, 33], []] ∧ s.buf = [] ∧
      List.Forall₂ IsPongFor s.wrote [[7]] :=
  ws_stream_correct _ () _ _ rfl (by decide) sampleMessages (by decide) sampleFrames
    (by decide) _ (by decide)

end Eph.Codec
