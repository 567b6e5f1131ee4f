import Ephemeral.Dns
import Ephemeral.UdpParse

/-!
# The DNS receive filter

`try_parse_dns_packet` of `eph/dpdk/dns.hpp` reads a frame itself instead of calling the UDP
parser.  It repeats that parser's checks but for three: the IP version, the fragment bits,
and that the datagram fills the payload that the IP header announces.
-/

namespace Eph.Dpdk.Dns

open ByteOrder

/-- The length of the IP header, as the frame announces it. -/
def headerLen (data : Bytes) : Nat := (u8At data kEtherHeaderLen &&& 0x0F).toNat * 4

/-- The UDP length that the frame announces, behind that header. -/
def udpLength (data : Bytes) : Nat := (be16At data (kEtherHeaderLen + headerLen data + 4)).toNat

/-- The checks of `try_parse_dns_packet`, and the message that it then gives to
`parse_dns_response`.  A destination port or local address of zero is not compared. -/
def dnsMessage (m : Mbuf) (nameserverIp : UInt32) (expectedSrcPort expectedDstPort : UInt16)
    (expectedLocalIp : UInt32) : Option Bytes :=
  let ihl := headerLen m.data
  let udpOffset := kEtherHeaderLen + ihl
  let udpLen := udpLength m.data
  if m.nbSegs > 1 then none
  else if m.data.length < kEtherHeaderLen + kIpv4HeaderLen + kUdpHeaderLen + kDnsHeaderLen then none
  else if be16At m.data 12 ≠ kEtherTypeIpv4 then none
  else if ihl < kIpv4HeaderLen then none
  else if u8At m.data (kEtherHeaderLen + 9) ≠ kIpProtoUdp then none
  else if be32At m.data (kEtherHeaderLen + 12) ≠ nameserverIp then none
  else if expectedLocalIp ≠ 0 ∧ be32At m.data (kEtherHeaderLen + 16) ≠ expectedLocalIp then none
  else if udpOffset + kUdpHeaderLen + kDnsHeaderLen > m.data.length then none
  else if be16At m.data udpOffset ≠ expectedSrcPort then none
  else if expectedDstPort ≠ 0 ∧ be16At m.data (udpOffset + 2) ≠ expectedDstPort then none
  else if udpLen < kUdpHeaderLen + kDnsHeaderLen then none
  else if udpOffset + udpLen > m.data.length then none
  else some ((m.data.drop (udpOffset + kUdpHeaderLen)).take (udpLen - kUdpHeaderLen))

/-- `try_parse_dns_packet`. -/
def tryParseDnsPacket (m : Mbuf) (txId : UInt16) (nameserverIp : UInt32)
    (expectedSrcPort expectedDstPort : UInt16) (expectedLocalIp : UInt32) : Option UInt32 :=
  (dnsMessage m nameserverIp expectedSrcPort expectedDstPort expectedLocalIp).bind fun message =>
    (parseDnsResponse message txId).toOption

/-- **The filter against the UDP parser.**  A frame from which the filter takes an address is
a datagram to the UDP parser, with the message as its payload, exactly when it passes the
three checks that the filter leaves out. -/
theorem dns_filter_iff {m : Mbuf} {txId expectedSrcPort expectedDstPort : UInt16}
    {nameserverIp expectedLocalIp address : UInt32}
    (h : tryParseDnsPacket m txId nameserverIp expectedSrcPort expectedDstPort expectedLocalIp =
      some address) :
    (∃ p, parseUdpPacket m = some p ∧
      dnsMessage m nameserverIp expectedSrcPort expectedDstPort expectedLocalIp = some p.payload) ↔
    u8At m.data kEtherHeaderLen >>> 4 = 4 ∧ fragmentBits m.data = 0 ∧
      (be16At m.data (kEtherHeaderLen + 2)).toNat = headerLen m.data + udpLength m.data := by
  obtain ⟨message, hmessage, -⟩ := Option.bind_eq_some_iff.mp h
  rw [hmessage]
  simp only [dnsMessage, Option.ite_none_left_eq_some, not_not, Option.some.injEq] at hmessage
  obtain ⟨hsegs, hlen, htype, hihl, hproto, -, -, hroom, -, -, hudp, hfits, rfl⟩ := hmessage
  simp only [parseUdpPacket, parseIpHeader, parseUdpFromIp, Option.bind_eq_bind,
    Option.bind_eq_some_iff, Option.ite_none_left_eq_some, not_not, Option.some.injEq, and_assoc,
    exists_and_left, exists_eq_left']
  unfold udpLength headerLen at *
  constructor
  · rintro ⟨-, -, -, hversion, -, -, hwhole, -, -, -, -, -, htotal, hequal, -⟩
    exact ⟨hversion, hwhole, by omega⟩
  · rintro ⟨hversion, hwhole, htotal⟩
    exact ⟨hsegs, by omega, htype, hversion, hihl, by omega, hwhole, hproto, hproto, by omega,
      by omega, hfits, by omega, by omega, rfl⟩

/-- A response with the address 1.2.3.4, in a frame from 8.8.8.8 whose fragment offset has the
low byte `fragment`. -/
def answerFrame (fragment : UInt8) : Bytes :=
  List.replicate 12 0 ++ [8, 0] ++
    [0x45, 0, 0, 55, 0, 0, 0, fragment, 64, 17, 0, 0, 8, 8, 8, 8, 10, 0, 0, 1] ++
    [0, 53, 0x30, 0x39, 0, 35, 0, 0] ++
    [0x34, 0x12, 0x80, 0, 0, 0, 0, 1, 0, 0, 0, 0] ++
    [0, 0, 1, 0, 1, 0, 0, 0, 0, 0, 4, 1, 2, 3, 4]

def answerMbuf (fragment : UInt8) : Mbuf :=
  ⟨1, answerFrame fragment, .good, .good, by simp [answerFrame]⟩

/-- An unfragmented answer is the payload of its datagram. -/
theorem dns_filter_whole :
    ∃ p, parseUdpPacket (answerMbuf 0) = some p ∧
      dnsMessage (answerMbuf 0) 0x08080808 53 12345 0x0A000001 = some p.payload :=
  (dns_filter_iff (show tryParseDnsPacket (answerMbuf 0) 0x1234 0x08080808 53 12345 0x0A000001 =
    some 0x01020304 by decide +kernel)).mpr (by decide +kernel)

/-- A later fragment is taken for a datagram, and its address is returned. -/
theorem dns_filter_fragment :
    tryParseDnsPacket (answerMbuf 1) 0x1234 0x08080808 53 12345 0x0A000001 = some 0x01020304 ∧
      parseUdpPacket (answerMbuf 1) = none := by
  decide +kernel

end Eph.Dpdk.Dns
