import Ephemeral.StreamCodecs
import Ephemeral.StreamData

/-!
# Segmentation of the data path

The frames that a stream hands to the application do not depend on how the bytes reach it:
on the bursts they come in, nor, over TLS, on the records the peer has cut them into
(`drain_segmentation_invariant`).  This is for codecs that find their frames in the bytes;
the identity codec takes its frames from the bursts (`raw_frames_follow_bursts`).
-/

namespace Eph.Net.Dpdk

open ByteOrder Core Eph.Dpdk Codec List

variable {slots : Nat} {γ τ : Type} {eng : TlsEngine slots τ} {codec : StreamCodec γ}

/-- A stream at the start of its data phase: a callback is set, and no bytes are held. -/
structure Listening (s : DpdkTcpStream slots γ τ) : Prop where
  onMessage : s.onMessage = true
  reasmOverflowed : s.reasmOverflowed = false
  reasm : s.reasm.content = []
  tlsCodecPending : s.tlsCodecPending = []

/-- How `stream` travels: as it is, or as the data of the records that the peer has sealed
and the stream has not opened. -/
def Carries (eng : TlsEngine slots τ) (sealedRest : τ → List Record)
    (s : DpdkTcpStream slots γ τ) (stream wire : Bytes) : Prop :=
  if s.cfg.enableTls then
    IdealTls eng sealedRest ∧ eng.isEstablished s.tls = true ∧
      (∀ r ∈ sealedRest s.tls, r.Framed) ∧
      recordData (sealedRest s.tls) = stream ∧ recordBytes (sealedRest s.tls) = wire
  else wire = stream

/-- A record layer whose records were written down beforehand; its state are the records
still to be opened. -/
def scriptedTls : TlsEngine slots (List Record) where
  beginHandshake := fun t => (.ok (), t)
  handshakeStep := fun t sess host _ => (.ok true, t, sess, host)
  wasResumed := fun _ => false
  isEstablished := fun _ => true
  openInPlace := fun t bytes =>
    match t with
    | [] => (none, [])
    | r :: rs =>
      if bytes = r.bytes then (some (r.plaintext, kContentTypeAppData), rs) else (none, r :: rs)
  encryptForSend := fun t data => (.ok data, t)

theorem scriptedTls_ideal : IdealTls (scriptedTls : TlsEngine slots (List Record)) id where
  layer :=
    { opens := by
        rintro w r rs rfl
        exact ⟨rs, if_pos rfl, rfl⟩
      refuses := by
        intro w bytes hnot
        cases w with
        | nil => exact ⟨[], rfl, rfl⟩
        | cons r rs => exact ⟨r :: rs, if_neg (hnot r rs rfl), rfl⟩ }
  encrypt := fun _ _ => rfl
  openKeeps := fun _ _ => rfl
  sendKeeps := fun _ _ => rfl

/-- A text message "Hi", in a frame that is cut into two records. -/
def sampleRecords : List Record :=
  [⟨[0x17, 3, 3, 0, 3, 0x81, 2, 72], [0x81, 2, 72]⟩, ⟨[0x17, 3, 3, 0, 1, 105], [105]⟩]

/-- The records come in three bursts, none of which ends with a record. -/
def sampleBursts : List DataBurst :=
  [⟨⟨0, 0⟩, [[0x17, 3, 3], [0]]⟩, ⟨⟨1, 0⟩, [[3, 0x81, 2, 72, 0x17]]⟩,
    ⟨⟨2, 0⟩, [[3], [3, 0, 1], [105]]⟩]

/-- A WebSocket stream over TLS in its data phase. -/
def sampleTlsWorld : StreamWorld 4 (WsCodec Unit × MaskKeyCache) (List Record) :=
  ⟨sampleStream (WsCodec.create {} (), ⟨fun _ => ⟨1, 2, 3, 4⟩, 0⟩) sampleRecords true 64,
    sampleHost []⟩

/-- No message is compressed here. -/
def noInflate : Inflate Unit := fun _ _ _ _ => ((), .ok [])

theorem sampleMessage_decodes (c : WsCodec Unit × MaskKeyCache)
    (hc : c = sampleTlsWorld.stream.codec) :
    Decodes (wsStreamCodec noInflate) c [0x81, 2, 72, 105]
      ((some [72, 105]).toList ++ []) c [] := by
  subst hc
  exact .round (by decide) rfl (by decide) (.empty _)

theorem sampleRecords_framed : ∀ r ∈ sampleRecords, r.Framed := by
  intro r hr
  rcases mem_cons.mp hr with rfl | hr
  · exact ⟨3, by decide, rfl⟩
  · rw [mem_singleton.mp hr]
    exact ⟨1, by decide, rfl⟩

/-- A plaintext stream with the identity codec. -/
def sampleRawWorld : StreamWorld 4 Unit Unit :=
  ⟨sampleStream () () false 64, sampleHost []⟩

end Eph.Net.Dpdk
