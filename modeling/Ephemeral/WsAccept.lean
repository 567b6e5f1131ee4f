import Ephemeral.CoreTypes

/-!
# The Sec-WebSocket-Accept digest

`wsComputeAccept` is `ws_compute_accept`: the SHA-1 of the client key followed by a
fixed GUID, in base64.  The hash is the one the library carries with it; `WsSha1` is
its state, fed byte by byte.
-/

namespace Eph.Net

open ByteOrder Core

/-- The base64 alphabet. -/
def kBase64Chars : Bytes :=
  ascii "ABCDEFGHIJKLMNOPQRSTUVWXYZabcdefghijklmnopqrstuvwxyz0123456789+/"

/-- The base64 character of the six bits of `triple` above bit `shift`. -/
def base64Char (triple shift : UInt32) : UInt8 :=
  kBase64Chars.getD ((triple >>> shift) &&& 0x3F).toNat 0

/-- `base64_encode`: three bytes become four characters; a short last group is
padded with `=`. -/
def base64Encode : Bytes → Bytes
  | [] => []
  | [a] =>
    let triple := a.toUInt32 <<< 16
    [base64Char triple 18, base64Char triple 12, 61, 61]
  | [a, b] =>
    let triple := (a.toUInt32 <<< 16) ||| (b.toUInt32 <<< 8)
    [base64Char triple 18, base64Char triple 12, base64Char triple 6, 61]
  | a :: b :: c :: rest =>
    let triple := (a.toUInt32 <<< 16) ||| (b.toUInt32 <<< 8) ||| c.toUInt32
    [base64Char triple 18, base64Char triple 12, base64Char triple 6, base64Char triple 0] ++
      base64Encode rest

/-- The chaining value of the hash. -/
structure Sha1Words where
  a : UInt32
  b : UInt32
  c : UInt32
  d : UInt32
  e : UInt32
  deriving DecidableEq

/-- The state of the hash: chaining value, message length in bits, and the bytes of
the block under construction. -/
structure WsSha1 where
  h : Sha1Words
  length : UInt64
  buffer : Bytes
  deriving DecidableEq

namespace WsSha1

/-- `rotl`. -/
def rotl (x n : UInt32) : UInt32 :=
  (x <<< n) ||| (x >>> (32 - n))

/-- `init`. -/
def init : WsSha1 :=
  ⟨⟨0x67452301, 0xEFCDAB89, 0x98BADCFE, 0x10325476, 0xC3D2E1F0⟩, 0, []⟩

/-- The message schedule, newest word first: `n` more words behind the given ones. -/
def schedule : Nat → List UInt32 → List UInt32
  | 0, w => w
  | n + 1, w =>
    schedule n (rotl (w.getD 2 0 ^^^ w.getD 7 0 ^^^ w.getD 13 0 ^^^ w.getD 15 0) 1 :: w)

/-- The round function and constant of round `i`. -/
def roundMix (i : Nat) (b c d : UInt32) : UInt32 × UInt32 :=
  if i < 20 then ((b &&& c) ||| (~~~b &&& d), 0x5A827999)
  else if i < 40 then (b ^^^ c ^^^ d, 0x6ED9EBA1)
  else if i < 60 then ((b &&& c) ||| (b &&& d) ||| (c &&& d), 0x8F1BBCDC)
  else (b ^^^ c ^^^ d, 0xCA62C1D6)

/-- One round. -/
def round (v : Sha1Words) (w : UInt32 × Nat) : Sha1Words :=
  let (f, k) := roundMix w.2 v.b v.c v.d
  ⟨rotl v.a 5 + f + v.e + k + w.1, v.a, rotl v.b 30, v.c, v.d⟩

/-- `process_block`. -/
def processBlock (h : Sha1Words) (block : Bytes) : Sha1Words :=
  let w := ((List.range 16).map fun i => be32At block (i * 4)).reverse
  let v := (schedule 64 w).reverse.zipIdx.foldl round h
  ⟨h.a + v.a, h.b + v.b, h.c + v.c, h.d + v.d, h.e + v.e⟩

/-- `update` by one byte. -/
def push (s : WsSha1) (b : UInt8) : WsSha1 :=
  let buffer := s.buffer ++ [b]
  if buffer.length = 64 then ⟨processBlock s.h buffer, s.length + 8, []⟩
  else ⟨s.h, s.length + 8, buffer⟩

/-- `update`. -/
def update (s : WsSha1) (data : Bytes) : WsSha1 :=
  data.foldl push s

/-- The zero padding, up to the last eight bytes of a block. -/
def padZeros : Nat → WsSha1 → WsSha1
  | 0, s => s
  | n + 1, s => if s.buffer.length = 56 then s else padZeros n (s.push 0)

/-- `finalize`: the length is taken before the padding is fed. -/
def finalize (s : WsSha1) : Bytes :=
  let t := (padZeros 64 (s.push 0x80)).update (toBe 8 s.length.toNat)
  toBe 4 t.h.a.toNat ++ toBe 4 t.h.b.toNat ++ toBe 4 t.h.c.toNat ++ toBe 4 t.h.d.toNat ++
    toBe 4 t.h.e.toNat

end WsSha1

/-- `ws_sha1`. -/
def wsSha1 (input : Bytes) : Bytes :=
  (WsSha1.init.update input).finalize

def kWsMagicGuid : Bytes := ascii "258EAFA5-E914-47DA-95CA-C5AB0DC85B11"

/-- `ws_compute_accept`; the key is cut at the scratch budget of 156 bytes. -/
def wsComputeAccept (clientKey : Bytes) : Bytes :=
  base64Encode (wsSha1 (clientKey.take 156 ++ kWsMagicGuid))

example : wsComputeAccept (ascii "dGhlIHNhbXBsZSBub25jZQ==") =
    ascii "s3pPLMBiTxaQ9kYGzzhZRbK+xOo=" := by
  decide +kernel

end Eph.Net
