import Ephemeral.ByteOrder

/-!
# Received frames and the TCP segment parser

`parsePacket` is the L2/L3/L4 parser of `eph/dpdk/packet_parse.hpp`: Ethernet
II, IPv4 without fragments, TCP.  It rejects a frame by returning `none`, and
its result carries the fields that the session reads through the header
pointers of the source, together with the option bytes and the payload.
-/

namespace Eph.Dpdk

open ByteOrder List

def kEtherHeaderLen : Nat := 14
def kIpv4HeaderLen : Nat := 20
def kTcpHeaderLen : Nat := 20
def kEtherTypeIpv4 : UInt16 := 0x0800
def kIpProtoTcp : UInt8 := 6
def kIpMoreFragments : UInt16 := 0x2000
def kIpFragOffsetMask : UInt16 := 0x1FFF

/-- Standard Ethernet segment size, and the capacity of a reorder slot. -/
def kDefaultMss : Nat := 1460

def kTcpFin : UInt8 := 0x01
def kTcpSyn : UInt8 := 0x02
def kTcpRst : UInt8 := 0x04
def kTcpPsh : UInt8 := 0x08
def kTcpAck : UInt8 := 0x10

/-- The NIC's verdict on a checksum, as the receive offload flags encode it. -/
inductive RxCksum
  | unknown
  | bad
  | good
  | none
  deriving DecidableEq

/-- A received packet buffer: its segment count, the bytes of its first
segment (`data_len` is a 16-bit count), and the NIC's checksum verdicts. -/
structure Mbuf where
  nbSegs : Nat
  data : Bytes
  ipCksum : RxCksum
  l4Cksum : RxCksum
  data_len : data.length < 2 ^ 16

/-- The TCP 4-tuple of a connection, in host byte order. -/
structure ConnectionTuple where
  srcIp : UInt32
  dstIp : UInt32
  srcPort : UInt16
  dstPort : UInt16
  deriving DecidableEq

/-- The accepted part of an IPv4 header. -/
structure ParsedIpHeader where
  ihl : Nat
  proto : UInt8
  totalLength : UInt16
  srcAddr : UInt32
  dstAddr : UInt32
  deriving DecidableEq

/-- A parsed TCP segment.  `payload` is empty where the source has a null
payload pointer. -/
structure ParsedPacket where
  srcIp : UInt32
  dstIp : UInt32
  srcPort : UInt16
  dstPort : UInt16
  seq : UInt32
  ack : UInt32
  flags : UInt8
  window : UInt16
  options : Bytes
  payload : Bytes
  deriving DecidableEq

/-- `ParsedPacket::has_flag`. -/
def ParsedPacket.hasFlag (p : ParsedPacket) (flag : UInt8) : Bool :=
  p.flags &&& flag != 0

/-- `ParsedPacket::matches`: an incoming packet has source and destination
swapped relative to our tuple. -/
def ParsedPacket.matches (p : ParsedPacket) (t : ConnectionTuple) : Bool :=
  p.srcIp == t.dstIp && p.dstIp == t.srcIp && p.srcPort == t.dstPort && p.dstPort == t.srcPort

/-- The fragment bits of the IPv4 header: more-fragments or a non-zero offset. -/
def fragmentBits (data : Bytes) : UInt16 :=
  be16At data (kEtherHeaderLen + 6) &&& (kIpMoreFragments ||| kIpFragOffsetMask)

/-- `parse_ip_header`. -/
def parseIpHeader (m : Mbuf) : Option ParsedIpHeader :=
  if m.nbSegs > 1 then none
  else if m.data.length < kEtherHeaderLen + kIpv4HeaderLen then none
  else if be16At m.data 12 ≠ kEtherTypeIpv4 then none
  else
    let versionIhl := u8At m.data kEtherHeaderLen
    let ihl := (versionIhl &&& 0x0F).toNat * 4
    if versionIhl >>> 4 ≠ 4 then none
    else if ihl < kIpv4HeaderLen then none
    else if kEtherHeaderLen + ihl > m.data.length then none
    else if fragmentBits m.data ≠ 0 then none
    else some {
      ihl := ihl
      proto := u8At m.data (kEtherHeaderLen + 9)
      totalLength := be16At m.data (kEtherHeaderLen + 2)
      srcAddr := be32At m.data (kEtherHeaderLen + 12)
      dstAddr := be32At m.data (kEtherHeaderLen + 16) }

/-- `is_ip_fragment`: the peek that attributes a drop to fragmentation. -/
def isIpFragment (m : Mbuf) : Bool :=
  if m.nbSegs > 1 then false
  else if m.data.length < kEtherHeaderLen + kIpv4HeaderLen then false
  else if be16At m.data 12 ≠ kEtherTypeIpv4 then false
  else fragmentBits m.data != 0

/-- `parse_tcp_from_ip`.  The payload length comes from the IP total length,
not from the frame, because short frames are padded. -/
def parseTcpFromIp (m : Mbuf) (ip : ParsedIpHeader) : Option ParsedPacket :=
  if ip.proto ≠ kIpProtoTcp then none
  else
    let tcpOffset := kEtherHeaderLen + ip.ihl
    if m.data.length < tcpOffset + kTcpHeaderLen then none
    else
      let tcpDoff := (u8At m.data (tcpOffset + 12) >>> 4).toNat * 4
      if tcpDoff < kTcpHeaderLen || tcpDoff > 60 then none
      else if tcpOffset + tcpDoff > m.data.length then none
      else
        let ipTotal := ip.totalLength.toNat
        let dataStart := ip.ihl + tcpDoff
        if dataStart > ipTotal then none
        else if kEtherHeaderLen + ipTotal > m.data.length then none
        else some {
          srcIp := ip.srcAddr
          dstIp := ip.dstAddr
          srcPort := be16At m.data tcpOffset
          dstPort := be16At m.data (tcpOffset + 2)
          seq := be32At m.data (tcpOffset + 4)
          ack := be32At m.data (tcpOffset + 8)
          flags := u8At m.data (tcpOffset + 13)
          window := be16At m.data (tcpOffset + 14)
          options := (m.data.drop (tcpOffset + kTcpHeaderLen)).take (tcpDoff - kTcpHeaderLen)
          payload := (m.data.drop (kEtherHeaderLen + dataStart)).take (ipTotal - dataStart) }

/-- `parse_packet`. -/
def parsePacket (m : Mbuf) : Option ParsedPacket := do
  let ip ← parseIpHeader m
  if ip.proto ≠ kIpProtoTcp then none
  else parseTcpFromIp m ip

section Peer

variable (t : ConnectionTuple) (seq ack : UInt32) (flags : UInt8) (window : UInt16)
  (payload : Bytes)

/-- The frame in which the peer of the connection `t` sends a segment without
options: Ethernet and IPv4 headers, TCP header, payload.  Addresses on the wire are
the peer's view, so source and destination are swapped; checksum fields are left to
the NIC. -/
def peerFrame : Bytes :=
  List.replicate 12 0 ++ toBe 2 kEtherTypeIpv4.toNat ++
    [0x45, 0] ++ toBe 2 (40 + payload.length) ++ [0, 0, 0, 0, 64, 6, 0, 0] ++
    toBe 4 t.dstIp.toNat ++ toBe 4 t.srcIp.toNat ++
    toBe 2 t.dstPort.toNat ++ toBe 2 t.srcPort.toNat ++ toBe 4 seq.toNat ++ toBe 4 ack.toNat ++
    [0x50, flags] ++ toBe 2 window.toNat ++ [0, 0, 0, 0] ++ payload

@[simp] theorem length_peerFrame :
    (peerFrame t seq ack flags window payload).length = 54 + payload.length := by
  simp only [peerFrame, length_append, length_replicate, length_toBe, length_cons, length_nil]

/-- The packet buffer that holds such a frame. -/
def peerMbuf (h : payload.length ≤ kDefaultMss) : Mbuf where
  nbSegs := 1
  data := peerFrame t seq ack flags window payload
  ipCksum := .good
  l4Cksum := .good
  data_len := by
    rw [length_peerFrame]
    unfold kDefaultMss at h
    omega

/-- The fields of the segment, where the parser looks for them. -/
theorem peerFrame_fields :
    let f := peerFrame t seq ack flags window payload
    (be16At f 12 = kEtherTypeIpv4 ∧ u8At f kEtherHeaderLen = 0x45 ∧
      be16At f (kEtherHeaderLen + 2) = UInt16.ofNat (40 + payload.length) ∧ be16At f 20 = 0 ∧
      u8At f (kEtherHeaderLen + 9) = 6 ∧ be32At f (kEtherHeaderLen + 12) = t.dstIp ∧
      be32At f (kEtherHeaderLen + 16) = t.srcIp) ∧
    be16At f 34 = t.dstPort ∧ be16At f 36 = t.srcPort ∧ be32At f 38 = seq ∧ be32At f 42 = ack ∧
      u8At f 46 = 0x50 ∧ u8At f 47 = flags ∧ be16At f 48 = window ∧ f.drop 54 = payload := by
  refine ⟨⟨?_, ?_, ?_, ?_, ?_, ?_, ?_⟩, ?_, ?_, ?_, ?_, ?_, ?_, ?_, drop_left' (by simp)⟩
  case refine_4 =>
    simp [peerFrame]
    rfl
  all_goals simp [peerFrame, kEtherHeaderLen]

theorem parseIpHeader_peerMbuf (h : payload.length ≤ kDefaultMss) :
    parseIpHeader (peerMbuf t seq ack flags window payload h) =
      some ⟨20, 6, UInt16.ofNat (40 + payload.length), t.dstIp, t.srcIp⟩ := by
  have hsegs : (peerMbuf t seq ack flags window payload h).nbSegs = 1 := rfl
  have hdata : (peerMbuf t seq ack flags window payload h).data =
      peerFrame t seq ack flags window payload := rfl
  obtain ⟨⟨htype, hversion, htotal, hbits, hproto, hsrc, hdst⟩, -⟩ :=
    peerFrame_fields t seq ack flags window payload
  have hwhole : fragmentBits (peerFrame t seq ack flags window payload) = 0 := by
    simp [fragmentBits, kEtherHeaderLen, hbits]
  unfold parseIpHeader
  rw [hsegs, hdata, length_peerFrame, if_neg (by decide), if_neg (by change ¬ _ < 34; omega),
    if_neg (not_not_intro htype)]
  rw [hversion, if_neg (by decide), if_neg (by decide), if_neg (by change ¬ 34 > _; omega),
    if_neg (not_not_intro hwhole), hproto, htotal, hsrc, hdst]
  rfl

/-- **Round trip**: the parser reads back what the peer put into the segment. -/
theorem parsePacket_peerMbuf (h : payload.length ≤ kDefaultMss) :
    parsePacket (peerMbuf t seq ack flags window payload h) =
      some ⟨t.dstIp, t.srcIp, t.dstPort, t.srcPort, seq, ack, flags, window, [], payload⟩ := by
  have hdata : (peerMbuf t seq ack flags window payload h).data =
      peerFrame t seq ack flags window payload := rfl
  have htotal : (UInt16.ofNat (40 + payload.length)).toNat = 40 + payload.length := by
    unfold kDefaultMss at h
    exact UInt16.toNat_ofNat_of_lt' (show _ < 65536 by omega)
  obtain ⟨-, hsrcPort, hdstPort, hseq, hack, hdoff, hflags, hwindow, hpayload⟩ :=
    peerFrame_fields t seq ack flags window payload
  have hwords : ((0x50 : UInt8) >>> 4).toNat * 4 = 20 := by decide
  simp only [parsePacket, parseIpHeader_peerMbuf, Option.bind_eq_bind, Option.bind_some,
    parseTcpFromIp, hdata, length_peerFrame, kEtherHeaderLen, kTcpHeaderLen, Nat.reduceAdd,
    hdoff, hwords, htotal, hsrcPort, hdstPort, hseq, hack, hflags, hwindow, hpayload]
  rw [if_neg (by decide), if_neg (by decide), if_neg (by omega), if_neg (by decide),
    if_neg (by omega), if_neg (by omega), if_neg (by omega)]
  simp

end Peer

/-- The TCP options the session looks for. -/
structure TcpOptions where
  mss : Option UInt16
  wscale : Option UInt8
  sackPerm : Bool
  deriving DecidableEq

/-- Record one option of kind `kind` and length `len` at position `i`. -/
def TcpOptions.record (out : TcpOptions) (opts : Bytes) (i : Nat) (kind : UInt8) (len : Nat) :
    TcpOptions :=
  if kind = 2 then
    if len = 4 then { out with mss := some (be16At opts (i + 2)) } else out
  else if kind = 3 then
    if len = 3 then { out with wscale := some (u8At opts (i + 2)) } else out
  else if kind = 4 then
    if len = 2 then { out with sackPerm := true } else out
  else out

/-- The option loop of `parse_tcp_options` from position `i`.  Every round
advances `i`, so the length of the option area bounds the number of rounds. -/
def tcpOptionsLoop (opts : Bytes) : Nat → Nat → TcpOptions → TcpOptions
  | 0, _, out => out
  | fuel + 1, i, out =>
    if i < opts.length then
      let kind := u8At opts i
      if kind = 0 then out
      else if kind = 1 then tcpOptionsLoop opts fuel (i + 1) out
      else if i + 1 ≥ opts.length then out
      else
        let len := (u8At opts (i + 1)).toNat
        if len < 2 then out
        else if i + len > opts.length then out
        else tcpOptionsLoop opts fuel (i + len) (out.record opts i kind len)
    else out

/-- `parse_tcp_options`. -/
def parseTcpOptions (p : ParsedPacket) : TcpOptions :=
  tcpOptionsLoop p.options p.options.length 0 ⟨none, none, false⟩

end Eph.Dpdk
