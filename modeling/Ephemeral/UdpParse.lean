import Ephemeral.PacketParse

/-!
# The UDP datagram parser

The UDP half of `eph/dpdk/packet_parse.hpp`, over the IPv4 header parser that it shares with TCP.
A datagram must fill the payload that the IP header announces exactly.
-/

namespace Eph.Dpdk

open ByteOrder

def kUdpHeaderLen : Nat := 8
def kIpProtoUdp : UInt8 := 17

/-- A parsed datagram; its payload may be empty. -/
structure ParsedUdpPacket where
  srcIp : UInt32
  dstIp : UInt32
  srcPort : UInt16
  dstPort : UInt16
  payload : Bytes
  deriving DecidableEq

/-- `parse_udp_from_ip`. -/
def parseUdpFromIp (m : Mbuf) (ip : ParsedIpHeader) : Option ParsedUdpPacket :=
  if ip.proto ≠ kIpProtoUdp then none
  else
    let udpOffset := kEtherHeaderLen + ip.ihl
    if udpOffset + kUdpHeaderLen > m.data.length then none
    else
      let udpLen := (be16At m.data (udpOffset + 4)).toNat
      let ipTotal := ip.totalLength.toNat
      if udpLen < kUdpHeaderLen then none
      else if udpOffset + udpLen > m.data.length then none
      else if ipTotal < ip.ihl + kUdpHeaderLen then none
      else if udpLen ≠ ipTotal - ip.ihl then none
      else some {
        srcIp := ip.srcAddr
        dstIp := ip.dstAddr
        srcPort := be16At m.data udpOffset
        dstPort := be16At m.data (udpOffset + 2)
        payload := (m.data.drop (udpOffset + kUdpHeaderLen)).take (udpLen - kUdpHeaderLen) }

/-- `parse_udp_packet`. -/
def parseUdpPacket (m : Mbuf) : Option ParsedUdpPacket := do
  let ip ← parseIpHeader m
  if ip.proto ≠ kIpProtoUdp then none
  else parseUdpFromIp m ip

end Eph.Dpdk
