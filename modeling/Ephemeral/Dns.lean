import Ephemeral.HostOrder

/-!
# DNS queries and responses

The resolver asks for the address of a hostname and reads the first A record of the
answer.  `build_dns_query` writes the hostname as a sequence of labels, each behind its
length, up to the empty label of the root.  `parse_dns_response` does not look at the names
of a response: it walks over them with `skip_dns_name`, which follows compression pointers
and gives up after a fixed number of steps.

The transaction id is compared as it lies in memory, least significant byte first; all
other numbers are in network byte order.
-/

namespace Eph.Dpdk.Dns

open ByteOrder

def kDnsHeaderLen : Nat := 12

def kMaxDnsPacketLen : Nat := 512

def kDnsFlagQr : UInt16 := 0x8000

def kDnsFlagRd : UInt16 := 0x0100

def kDnsRcodeMask : UInt16 := 0x000F

def kDnsTypeA : UInt16 := 1

def kDnsClassIn : UInt16 := 1

/-- The full stop between two labels. -/
def dot : UInt8 := 46

/-! ## Queries -/

/-- A label behind its length; a label is neither empty nor longer than 63 bytes. -/
def encodeLabel (label : Bytes) : Option Bytes :=
  if label.length = 0 ∨ label.length > 63 then none
  else some (UInt8.ofNat label.length :: label)

/-- The loop of `encode_qname`: `label` holds the bytes since the last full stop. -/
def encodeLabels : Bytes → Bytes → Option Bytes
  | label, [] => encodeLabel label
  | label, c :: cs =>
    if c = dot then do
      let first ← encodeLabel label
      let rest ← encodeLabels [] cs
      some (first ++ rest)
    else encodeLabels (label ++ [c]) cs

/-- `encode_qname`. -/
def encodeQname (hostname : Bytes) : Option Bytes :=
  if hostname.isEmpty ∨ hostname.length > 253 then none
  else (encodeLabels [] hostname).map (· ++ [0])

/-- The question section: the name, type A and class IN. -/
def questionSection (qname : Bytes) : Bytes :=
  qname ++ toBe 2 kDnsTypeA.toNat ++ toBe 2 kDnsClassIn.toNat

/-- `build_dns_query`. -/
def buildDnsQuery (txId : UInt16) (hostname : Bytes) : Option Bytes :=
  (encodeQname hostname).map fun qname =>
    toLe16 txId ++ toBe 2 kDnsFlagRd.toNat ++ toBe 2 1 ++ toBe 2 0 ++ toBe 2 0 ++ toBe 2 0 ++
      questionSection qname

/-! ## Responses -/

/-- The steps after which `skip_dns_name` gives up. -/
def kMaxIterations : Nat := 32

/-- The loop of `skip_dns_name`.  `endOffset` is where the name ends, once a pointer has been
followed. -/
def skipLoop (data : Bytes) : Nat → Nat → Option Nat → Nat
  | 0, _, _ => 0
  | iterations + 1, offset, endOffset =>
    if data.length ≤ offset then 0
    else
      let labelLen := u8At data offset
      if labelLen = 0 then endOffset.getD (offset + 1)
      else if labelLen &&& 0xC0 = 0xC0 then
        if data.length ≤ offset + 1 then 0
        else
          let ptr := (labelLen &&& 0x3F).toNat * 256 + (u8At data (offset + 1)).toNat
          if data.length ≤ ptr then 0
          else skipLoop data iterations ptr (some (endOffset.getD (offset + 2)))
      else if labelLen > 63 then 0
      else if data.length < offset + 1 + labelLen.toNat then 0
      else skipLoop data iterations (offset + 1 + labelLen.toNat) endOffset

/-- `skip_dns_name`: the offset behind the name, 0 on error. -/
def skipDnsName (data : Bytes) (offset : Nat) : Nat :=
  skipLoop data kMaxIterations offset none

/-- Four hexadecimal digits. -/
def hex4 (n : Nat) : String :=
  let digits := Nat.toDigits 16 n
  String.ofList (List.replicate (4 - digits.length) '0' ++ digits)

/-- The question section is skipped; `left` questions are to come. -/
def skipQuestions (data : Bytes) (qdCount : Nat) : Nat → Nat → Except String Nat
  | 0, offset => .ok offset
  | left + 1, start =>
    let i := qdCount - (left + 1)
    let len := data.length
    let offset := skipDnsName data start
    if offset = 0 then
      .error s!"DNS response: malformed question name at qd[{i}/{qdCount}], dns_len={len}"
    else
      let offset := offset + 4
      if data.length < offset then
        .error (s!"DNS response: truncated question at qd[{i}/{qdCount}] " ++
          s!"(offset={offset} > dns_len={len})")
      else skipQuestions data qdCount left offset

/-- The answer section is searched for an A record; `left` records are to come. -/
def findA (data : Bytes) (anCount : Nat) : Nat → Nat → Except String UInt32
  | 0, _ =>
    .error (s!"DNS response: no A record found among {anCount} answer record(s) " ++
      "(only AAAA / CNAME / etc. seen)")
  | left + 1, start =>
    let i := anCount - (left + 1)
    let len := data.length
    let offset := skipDnsName data start
    if offset = 0 ∨ data.length < offset + 10 then
      .error (s!"DNS response: malformed answer RR at an[{i}/{anCount}] " ++
        s!"(offset={offset}, dns_len={len}, need offset+10 bytes for fixed RR header)")
    else
      let rrType := be16At data offset
      let rrClass := be16At data (offset + 2)
      let rdlength := (be16At data (offset + 8)).toNat
      let offset := offset + 10
      if kMaxDnsPacketLen < rdlength ∨ data.length < offset + rdlength then
        .error (s!"DNS response: RDATA exceeds packet at an[{i}/{anCount}] " ++
          s!"(rdlength={rdlength}, offset={offset}, dns_len={len}, " ++
          s!"kMaxDnsPacketLen={kMaxDnsPacketLen})")
      else if rrType = kDnsTypeA ∧ rrClass = kDnsClassIn ∧ rdlength = 4 then
        .ok (be32At data offset)
      else findA data anCount left (offset + rdlength)

/-- `parse_dns_response`: the address of the first A record. -/
def parseDnsResponse (data : Bytes) (txId : UInt16) : Except String UInt32 :=
  let len := data.length
  let id := le16At data
  let flags := be16At data 2
  let rcode := (flags &&& kDnsRcodeMask).toNat
  let qdCount := (be16At data 4).toNat
  let anCount := (be16At data 6).toNat
  if data.length < kDnsHeaderLen then
    .error (s!"DNS response too short: dns_len={len} bytes < " ++
      s!"kDnsHeaderLen={kDnsHeaderLen} bytes")
  else if id ≠ txId then
    .error ("DNS response: transaction ID mismatch (got=0x" ++ hex4 id.toNat ++
      ", expected=0x" ++ hex4 txId.toNat ++
      ") — possible delayed reply from prior query or spoofed packet")
  else if flags &&& kDnsFlagQr = 0 then
    .error ("DNS response: QR bit not set (flags=0x" ++ hex4 flags.toNat ++
      ") — peer sent a query packet on the response port")
  else if rcode ≠ 0 then .error s!"DNS response: RCODE={rcode}"
  else if 16 < qdCount then
    .error (s!"DNS response: unreasonable question count qd_count={qdCount} (cap=16); " ++
      "rejecting as malformed/malicious")
  else if 64 < anCount then
    .error (s!"DNS response: unreasonable answer count an_count={anCount} (cap=64); " ++
      "rejecting to prevent CPU exhaustion from spoofed responses")
  else if anCount = 0 then .error "DNS response: no answer records"
  else
    match skipQuestions data qdCount qdCount kDnsHeaderLen with
    | .error e => .error e
    | .ok offset => findA data anCount anCount offset

end Eph.Dpdk.Dns
