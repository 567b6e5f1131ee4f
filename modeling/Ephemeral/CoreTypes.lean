import Ephemeral.ByteOrder

/-!
# Core vocabulary: error categories and the codec output sink

The library reports failures as a typed category with a static detail string
(`ErrorInfo`), and hands codecs an `OutputBuffer`, a bounded region to which
they append automatic responses.
-/

namespace Eph.Core

open ByteOrder

/-- The bytes of an ASCII literal. -/
def ascii (s : String) : Bytes :=
  s.toList.map fun c => UInt8.ofNat c.toNat

/-- Error categories, in the order of the source enumeration. -/
inductive Error
  | ok
  | connectFailed
  | disconnected
  | timeout
  | notAttached
  | tlsHandshakeFailed
  | tlsRecordBad
  | tlsCipherFailed
  | wsHandshakeFailed
  | wsFrameBad
  | wsCloseReceived
  | codecBad
  | codecOverflow
  | wouldBlock
  | bufferFull
  | invalidConfig
  | outOfMemory
  | proxyConnectFailed
  | proxyHandshakeFailed
  | proxyAuthRequired
  | notFound
  | daemonDisconnected
  deriving DecidableEq

/-- A typed category with its detail string. -/
structure ErrorInfo where
  code : Error
  detail : String
  deriving DecidableEq

/-- The bounded region a codec appends its automatic responses to.  The
committed bytes never exceed the capacity. -/
structure OutputBuffer where
  cap : Nat
  bytes : Bytes
  fits : bytes.length ≤ cap

/-- A buffer over an empty region of `cap` bytes. -/
def OutputBuffer.create (cap : Nat) : OutputBuffer :=
  ⟨cap, [], Nat.zero_le cap⟩

/-- `OutputBuffer::append`: all of `src`, or none of it. -/
def OutputBuffer.append (out : OutputBuffer) (src : Bytes) : Except ErrorInfo OutputBuffer :=
  if h : src.length > out.cap - out.bytes.length then
    .error ⟨.bufferFull, "OutputBuffer::append: capacity exceeded"⟩
  else
    .ok ⟨out.cap, out.bytes ++ src, by
      have hfits := out.fits
      rw [List.length_append]
      omega⟩

end Eph.Core
