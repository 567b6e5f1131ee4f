import Ephemeral.Dns

/-!
# Queries and responses agree, as long as names are short

The query encoder admits every hostname of at most 253 characters, which may have up to
127 labels.  The response parser walks over the question and over the owner of each answer,
and gives up on a name after 32 steps; a label, a pointer that is followed and the root take
one step each.  So the echo of a long name is refused, and a name is refused earlier when it
is reached through a pointer.

`NameAt` is the meaning of a name in a message, with the number of steps it takes, and
`skipDnsName_eq` says what the parser makes of it.  `StandardResponse` is the answer of a
server to a query; the parser returns its address exactly when every name in it is short
(`dns_agreement_iff`).
-/

namespace Eph.Dpdk.Dns

open ByteOrder List

/-! ## Names in a message -/

/-- `NameAt msg offset steps stop`: a name begins at `offset` and ends before `stop`, and it is
read in `steps` steps: labels, pointers and the root. -/
inductive NameAt (msg : Bytes) : Nat → Nat → Nat → Prop
  | root {offset : Nat} (hin : offset < msg.length) (hzero : u8At msg offset = 0) :
      NameAt msg offset 1 (offset + 1)
  | label {offset steps stop : Nat} (hin : offset < msg.length)
      (hpos : 0 < (u8At msg offset).toNat) (hmax : (u8At msg offset).toNat ≤ 63)
      (tail : NameAt msg (offset + 1 + (u8At msg offset).toNat) steps stop) :
      NameAt msg offset (steps + 1) stop
  | pointer {offset target steps stop : Nat} (hin : offset + 1 < msg.length)
      (hmark : u8At msg offset &&& 0xC0 = 0xC0)
      (htarget : target = (u8At msg offset &&& 0x3F).toNat * 256 + (u8At msg (offset + 1)).toNat)
      (tail : NameAt msg target steps stop) : NameAt msg offset (steps + 1) (offset + 2)

variable {offset steps stop : Nat} {msg : Bytes}

/-- A name begins inside the message. -/
theorem NameAt.lt (h : NameAt msg offset steps stop) : offset < msg.length := by
  cases h with
  | root hin _ | label hin _ _ _ => exact hin
  | pointer hin _ _ _ => omega

/-- A name takes at least a byte. -/
theorem NameAt.lt_stop (h : NameAt msg offset steps stop) : offset < stop := by
  induction h with
  | root | label _ _ _ _ ih | pointer => omega

/-- A length byte has its two top bits clear. -/
theorem length_not_pointer (b : UInt8) (h : b.toNat ≤ 63) : ¬(b &&& 0xC0 = 0xC0) := by
  have hall : ∀ n : Fin 256, n.val ≤ 63 → ¬(UInt8.ofNat n.val &&& 0xC0 = 0xC0) := by
    decide +kernel
  have hb := hall ⟨b.toNat, b.toNat_lt⟩ h
  rwa [UInt8.ofNat_toNat] at hb

/-- A pointer byte is no length and not the root. -/
theorem pointer_ne_zero (b : UInt8) (h : b &&& 0xC0 = 0xC0) : ¬b = 0 := by
  rintro rfl
  exact absurd h (by decide)

/-- **What the walk makes of a name.**  With enough steps it ends behind the name, or where the
first pointer ended; with fewer it fails. -/
theorem skipLoop_eq (h : NameAt msg offset steps stop) (iterations : Nat) (endOffset : Option Nat) :
    skipLoop msg iterations offset endOffset =
      if steps ≤ iterations then endOffset.getD stop else 0 := by
  induction h generalizing iterations endOffset with
  | @root offset hin hzero =>
    cases iterations with
    | zero => rfl
    | succ n =>
      rw [skipLoop, if_neg (by omega)]
      simp only [hzero, if_true]
      rw [if_pos (by omega)]
  | @label offset steps stop hin hpos hmax tail ih =>
    cases iterations with
    | zero => rfl
    | succ n =>
      have hnext := tail.lt
      have hzero : ¬u8At msg offset = 0 := by
        intro heq
        rw [heq] at hpos
        cases hpos
      have hlen : ¬u8At msg offset > 63 := by
        intro hgt
        have := UInt8.lt_iff_toNat_lt.mp hgt
        have h63 : (63 : UInt8).toNat = 63 := rfl
        omega
      rw [skipLoop, if_neg (by omega)]
      rw [if_neg hzero, if_neg (length_not_pointer _ hmax), if_neg hlen, if_neg (by omega), ih]
      simp only [Nat.add_le_add_iff_right]
  | @pointer offset target steps stop hin hmark htarget tail ih =>
    cases iterations with
    | zero => rfl
    | succ n =>
      have hnext := tail.lt
      rw [skipLoop, if_neg (by omega)]
      rw [if_neg (pointer_ne_zero _ hmark), if_pos hmark, if_neg (by omega), ← htarget,
        if_neg (by omega), ih]
      simp only [Nat.add_le_add_iff_right, Option.getD_some]

/-- `skip_dns_name` on a name: its end, if it takes at most 32 steps. -/
theorem skipDnsName_eq (h : NameAt msg offset steps stop) :
    skipDnsName msg offset = if steps ≤ kMaxIterations then stop else 0 :=
  skipLoop_eq h kMaxIterations none

/-- A name is read in one way only. -/
theorem NameAt.unique {offset steps stop steps' stop' : Nat} (h : NameAt msg offset steps stop)
    (h' : NameAt msg offset steps' stop') : steps = steps' ∧ stop = stop' := by
  have hread : ∀ n, (if steps ≤ n then stop else 0) = if steps' ≤ n then stop' else 0 := by
    intro n
    have := skipLoop_eq h n none
    rw [skipLoop_eq h' n none] at this
    exact this.symm
  have hpos := h.lt_stop
  have hpos' := h'.lt_stop
  have h1 := hread steps
  have h2 := hread steps'
  rw [if_pos (Nat.le_refl _)] at h1
  rw [if_pos (Nat.le_refl steps')] at h2
  split_ifs at h1 h2 <;> omega

/-! ## The name of a query -/

/-- The byte behind a part of the message. -/
theorem u8At_behind (pre : Bytes) (b : UInt8) (rest : Bytes) :
    u8At (pre ++ b :: rest) pre.length = b := by
  rw [u8At_append (Nat.le_refl _), Nat.sub_self, u8At_zero]

/-- A label that was encoded, in front of a name. -/
theorem nameAt_encodeLabel {label first : Bytes} (h : encodeLabel label = some first)
    (pre rest : Bytes) (htail : NameAt (pre ++ first ++ rest) (pre ++ first).length steps stop) :
    NameAt (pre ++ first ++ rest) pre.length (steps + 1) stop := by
  unfold encodeLabel at h
  split at h
  · cases h
  cases h
  have hbyte : u8At (pre ++ UInt8.ofNat label.length :: label ++ rest) pre.length =
      UInt8.ofNat label.length := by
    rw [append_assoc, cons_append, u8At_behind]
  have hnat : (UInt8.ofNat label.length).toNat = label.length := by
    rw [UInt8.toNat_ofNat']
    omega
  refine NameAt.label ?_ ?_ ?_ ?_
  · simp only [length_append, length_cons]
    omega
  · rw [hbyte, hnat]
    omega
  · rw [hbyte, hnat]
    omega
  · rw [hbyte, hnat]
    have hlength : (pre ++ UInt8.ofNat label.length :: label).length =
        pre.length + 1 + label.length := by
      simp only [length_append, length_cons]
      omega
    rw [hlength] at htail
    exact htail

/-- The labels of a hostname take a step each. -/
theorem nameAt_encodeLabels {label cs out : Bytes} (h : encodeLabels label cs = some out)
    (pre rest : Bytes) :
    NameAt (pre ++ out ++ 0 :: rest) pre.length (cs.count dot + 2)
      (pre.length + out.length + 1) := by
  have hroot : ∀ front : Bytes, NameAt (front ++ 0 :: rest) front.length 1 (front.length + 1) :=
    fun front => NameAt.root (by simp) (u8At_behind front 0 rest)
  induction cs generalizing label out pre with
  | nil =>
    have hname := nameAt_encodeLabel h pre (0 :: rest) (hroot (pre ++ out))
    rw [length_append] at hname
    exact hname
  | cons c cs ih =>
    unfold encodeLabels at h
    split at h
    · rename_i hdot
      obtain ⟨first, hfirst, h⟩ := Option.bind_eq_some_iff.mp h
      obtain ⟨others, hothers, h⟩ := Option.bind_eq_some_iff.mp h
      cases h
      have htail := ih hothers (pre ++ first)
      rw [hdot, count_cons_self]
      have hname := nameAt_encodeLabel hfirst pre (others ++ 0 :: rest) (by
        rw [← append_assoc]
        exact htail)
      have hmsg : pre ++ (first ++ others) ++ 0 :: rest =
          pre ++ first ++ (others ++ 0 :: rest) := by
        simp only [append_assoc]
      have hstop : pre.length + (first ++ others).length + 1 =
          (pre ++ first).length + others.length + 1 := by
        simp only [length_append]
        omega
      rw [hmsg, hstop]
      exact hname
    · rename_i hdot
      rw [count_cons_of_ne hdot]
      exact ih h pre

/-- The question of a query begins with the name of the host. -/
theorem nameAt_question {hostname qname : Bytes} (h : encodeQname hostname = some qname)
    (pre rest : Bytes) :
    NameAt (pre ++ qname ++ rest) pre.length (hostname.count dot + 2)
      (pre.length + qname.length) := by
  unfold encodeQname at h
  split at h
  · cases h
  obtain ⟨out, hout, rfl⟩ := Option.map_eq_some_iff.mp h
  have hname := nameAt_encodeLabels hout pre rest
  have hmsg : pre ++ (out ++ [0]) ++ rest = pre ++ out ++ 0 :: rest := by simp
  have hstop : pre.length + (out ++ [0]).length = pre.length + out.length + 1 := by
    simp only [length_append, length_singleton]
    omega
  rw [hmsg, hstop]
  exact hname

/-! ## The answer of a server -/

/-- A resource record of class IN. -/
structure Record where
  owner : Bytes
  type : UInt16
  ttl : UInt32
  rdata : Bytes

variable (r : Record)

/-- A record behind its owner's name. -/
def Record.body : Bytes :=
  toBe 2 r.type.toNat ++ (toBe 2 kDnsClassIn.toNat ++ (toBe 4 r.ttl.toNat ++
    (toBe 2 r.rdata.length ++ r.rdata)))

def Record.bytes : Bytes := r.owner ++ r.body

/-- The record type CNAME. -/
def cnameType : UInt16 := 5

/-- A response without an error: some CNAME records, an A record with the given owner and time
to live, and whatever the other two sections hold. -/
structure StandardResponse where
  flags : UInt16
  response : flags &&& kDnsFlagQr ≠ 0
  noError : flags &&& kDnsRcodeMask = 0
  nsCount : UInt16
  arCount : UInt16
  cnames : List Record
  isCname : ∀ r ∈ cnames, r.type = cnameType
  owner : Bytes
  ttl : UInt32
  rest : Bytes

namespace StandardResponse

variable (r : StandardResponse)

/-- The A record. -/
def address (ip : UInt32) : Record :=
  ⟨r.owner, kDnsTypeA, r.ttl, toBe 4 ip.toNat⟩

def answers (ip : UInt32) : List Record := r.cnames ++ [r.address ip]

/-- The header; the response has one question. -/
def header (txId : UInt16) : Bytes :=
  toLe16 txId ++ (toBe 2 r.flags.toNat ++ (toBe 2 1 ++ (toBe 2 (r.cnames.length + 1) ++
    (toBe 2 r.nsCount.toNat ++ toBe 2 r.arCount.toNat))))

/-- The response to a query with the given question. -/
def bytes (txId : UInt16) (question : Bytes) (ip : UInt32) : Bytes :=
  r.header txId ++ question ++ (r.answers ip).flatMap Record.bytes ++ r.rest

end StandardResponse

/-- Where the owners' names of some records begin and end. -/
def ownerSpans : Nat → List Record → List (Nat × Nat)
  | _, [] => []
  | offset, r :: rs =>
    (offset, offset + r.owner.length) :: ownerSpans (offset + r.bytes.length) rs

/-- Every owner is a name of the message. -/
def WellNamed (msg : Bytes) (spans : List (Nat × Nat)) : Prop :=
  ∀ span ∈ spans, ∃ steps, NameAt msg span.1 steps span.2

/-- The names at the given offsets take at most 32 steps. -/
def ShortNames (msg : Bytes) (offsets : List Nat) : Prop :=
  ∀ offset ∈ offsets, ∀ steps stop, NameAt msg offset steps stop → steps ≤ kMaxIterations

/-- The first of some names is short, and so are the others. -/
theorem shortNames_cons {offsets : List Nat} (h : NameAt msg offset steps stop) :
    ShortNames msg (offset :: offsets) ↔ steps ≤ kMaxIterations ∧ ShortNames msg offsets := by
  unfold ShortNames
  rw [forall_mem_cons]
  refine and_congr_left fun _ => ⟨fun hshort => hshort steps stop h, ?_⟩
  intro hsteps steps' stop' h'
  rw [← (h.unique h').1]
  exact hsteps

/-! ## The search for the address -/

@[simp] theorem Record.length_body : r.body.length = 10 + r.rdata.length := by
  simp only [Record.body, length_append, length_toBe]
  omega

open Record

@[simp] theorem Record.length_bytes : r.bytes.length = r.owner.length + 10 + r.rdata.length := by
  rw [bytes, length_append, length_body]
  omega

/-- What the parser reads behind an owner's name. -/
theorem Record.reads (front post : Bytes) (h : r.rdata.length ≤ kMaxDnsPacketLen) :
    be16At (front ++ (r.body ++ post)) front.length = r.type ∧
    be16At (front ++ (r.body ++ post)) (front.length + 2) = kDnsClassIn ∧
    (be16At (front ++ (r.body ++ post)) (front.length + 8)).toNat = r.rdata.length ∧
    be32At (front ++ (r.body ++ post)) (front.length + 10) = be32At (r.rdata ++ post) 0 := by
  have hrd : (UInt16.ofNat r.rdata.length).toNat = r.rdata.length := by
    rw [UInt16.toNat_ofNat', Nat.mod_eq_of_lt]
    exact Nat.lt_of_le_of_lt h (by decide)
  refine ⟨?_, ?_, ?_, ?_⟩ <;> simp [Record.body, append_assoc, hrd]

/-- **One record.**  If its owner's name is short, an address ends the search and any other
record is passed over; a long name ends it with an error. -/
theorem findA_record {pre post : Bytes} {r : Record}
    (hname : NameAt (pre ++ r.bytes ++ post) pre.length steps (pre.length + r.owner.length))
    (hrd : r.rdata.length ≤ kMaxDnsPacketLen) (anCount left : Nat) :
    ∃ e, findA (pre ++ r.bytes ++ post) anCount (left + 1) pre.length =
      if steps ≤ kMaxIterations then
        if r.type = kDnsTypeA ∧ r.rdata.length = 4 then .ok (be32At (r.rdata ++ post) 0)
        else findA (pre ++ r.bytes ++ post) anCount left (pre.length + r.bytes.length)
      else .error e := by
  have hskip := skipDnsName_eq hname
  by_cases hsteps : steps ≤ kMaxIterations
  · rw [if_pos hsteps] at hskip
    refine ⟨"", ?_⟩
    rw [if_pos hsteps]
    have hstop := hname.lt_stop
    have hmsg : pre ++ r.bytes ++ post = (pre ++ r.owner) ++ (r.body ++ post) := by
      simp only [bytes, append_assoc]
    have hlen : (pre ++ r.bytes ++ post).length =
        pre.length + r.owner.length + 10 + r.rdata.length + post.length := by
      simp only [length_append, length_bytes]
      omega
    obtain ⟨htype, hclass, hlength, haddress⟩ := r.reads (pre ++ r.owner) post hrd
    rw [← hmsg, length_append] at htype hclass hlength haddress
    have hnext : pre.length + r.bytes.length =
        pre.length + r.owner.length + 10 + r.rdata.length := by
      rw [length_bytes]
      omega
    rw [findA]
    rw [hskip, if_neg (by omega), htype, hclass, hlength, if_neg (by omega), haddress, hnext]
    simp only [true_and]
  · rw [if_neg hsteps] at hskip
    simp only [if_neg hsteps]
    rw [findA]
    rw [hskip, if_pos (Or.inl rfl)]
    exact ⟨_, rfl⟩

/-- **The search through the answers.**  The address is found exactly when every owner's name
is short. -/
theorem findA_answers_iff (ip : UInt32) (address : Record) (htype : address.type = kDnsTypeA)
    (haddress : address.rdata = toBe 4 ip.toNat) {post : Bytes} (anCount : Nat)
    {cnames : List Record} (hcnames : ∀ r ∈ cnames, r.type = cnameType)
    (hrd : ∀ r ∈ cnames, r.rdata.length ≤ kMaxDnsPacketLen) (pre : Bytes)
    (hnames : WellNamed (pre ++ (cnames ++ [address]).flatMap Record.bytes ++ post)
      (ownerSpans pre.length (cnames ++ [address]))) :
    findA (pre ++ (cnames ++ [address]).flatMap Record.bytes ++ post) anCount
        (cnames.length + 1) pre.length = .ok ip ↔
      ShortNames (pre ++ (cnames ++ [address]).flatMap Record.bytes ++ post)
        ((ownerSpans pre.length (cnames ++ [address])).map Prod.fst) := by
  -- Along the records, what has been passed over goes to the front of the message.
  induction cnames generalizing pre with
  | nil =>
    obtain ⟨steps, hname⟩ := hnames _ mem_cons_self
    simp only [nil_append, flatMap_singleton, length_nil, Nat.zero_add,
      ownerSpans, map_cons, map_nil] at hname ⊢
    obtain ⟨e, hstep⟩ := findA_record hname (by rw [haddress, length_toBe]; decide) anCount 0
    rw [hstep, shortNames_cons hname, htype, haddress, be32At_toBe, UInt32.ofNat_toNat, length_toBe]
    by_cases hsteps : steps ≤ kMaxIterations
    · simp [hsteps, ShortNames]
    · simp [hsteps]
  | cons r rs ih =>
    obtain ⟨steps, hname⟩ := hnames _ mem_cons_self
    have hmsg : pre ++ (r :: rs ++ [address]).flatMap bytes ++ post =
        pre ++ r.bytes ++ (rs ++ [address]).flatMap bytes ++ post := by
      simp only [cons_append, flatMap_cons, append_assoc]
    have hmsg' : pre ++ (r :: rs ++ [address]).flatMap bytes ++ post =
        pre ++ r.bytes ++ ((rs ++ [address]).flatMap bytes ++ post) := by
      rw [hmsg, append_assoc]
    have hspans : ownerSpans pre.length (r :: rs ++ [address]) =
        (pre.length, pre.length + r.owner.length) ::
          ownerSpans (pre ++ r.bytes).length (rs ++ [address]) := by
      rw [length_append]
      rfl
    rw [hspans] at hnames ⊢
    rw [map_cons, shortNames_cons hname]
    have hothers := ih (fun x hx => hcnames x (mem_cons_of_mem _ hx))
      (fun x hx => hrd x (mem_cons_of_mem _ hx)) (pre ++ r.bytes) (by
        rw [← hmsg]
        exact fun span hspan => hnames span (mem_cons_of_mem _ hspan))
    rw [← hmsg] at hothers
    rw [hmsg'] at hname
    obtain ⟨e, hstep⟩ := findA_record hname (hrd r mem_cons_self) anCount (rs.length + 1)
    rw [← hmsg', hcnames r mem_cons_self, ← length_append] at hstep
    rw [length_cons, hstep, ← hothers]
    by_cases hsteps : steps ≤ kMaxIterations
    · simp [hsteps, cnameType, kDnsTypeA]
    · simp [hsteps]

/-! ## The whole response -/

/-- A record takes at least ten bytes. -/
theorem length_records (rs : List Record) : 10 * rs.length ≤ (rs.flatMap Record.bytes).length := by
  induction rs with
  | nil => exact Nat.zero_le _
  | cons r rs ih =>
    rw [flatMap_cons, length_append, length_bytes, length_cons]
    omega

/-- The data of a record is a part of the records. -/
theorem rdata_le_records {r : Record} {rs : List Record} (h : r ∈ rs) :
    r.rdata.length ≤ (rs.flatMap Record.bytes).length := by
  induction rs with
  | nil => cases h
  | cons r' rs ih =>
    rw [flatMap_cons, length_append, length_bytes]
    rcases mem_cons.mp h with rfl | h
    · omega
    · have := ih h
      omega

namespace StandardResponse

variable (r : StandardResponse) (txId : UInt16)

@[simp] theorem length_header : (r.header txId).length = kDnsHeaderLen := by
  simp [header, toLe16, kDnsHeaderLen]

/-- What the parser reads in the header. -/
theorem header_reads (rest : Bytes) (h : r.cnames.length + 1 ≤ 64) :
    le16At (r.header txId ++ rest) = txId ∧
    be16At (r.header txId ++ rest) 2 = r.flags ∧
    (be16At (r.header txId ++ rest) 4).toNat = 1 ∧
    (be16At (r.header txId ++ rest) 6).toNat = r.cnames.length + 1 := by
  have hcount : (UInt16.ofNat (r.cnames.length + 1)).toNat = r.cnames.length + 1 := by
    rw [UInt16.toNat_ofNat', Nat.mod_eq_of_lt (by omega)]
  refine ⟨?_, ?_, ?_, ?_⟩
  · rw [header, append_assoc, le16At_toLe16]
  · simp [header, toLe16, append_assoc]
  · simp [header, toLe16, append_assoc]
  · simp only [header, toLe16, append_assoc, cons_append, nil_append, be16At_cons]
    rw [be16At_append (by simp), be16At_append (by simp)]
    simp only [length_toBe, Nat.reduceSub, be16At_toBe]
    exact hcount

/-- The lengths of the parts of a response. -/
theorem length_bytes (question : Bytes) (ip : UInt32) :
    (r.bytes txId question ip).length =
      kDnsHeaderLen + question.length + ((r.answers ip).flatMap Record.bytes).length +
        r.rest.length := by
  simp only [bytes, length_append, length_header]

section Small

variable {question : Bytes} {ip : UInt32}
  (hlen : (r.bytes txId question ip).length ≤ kMaxDnsPacketLen)
include hlen

/-- The records of a small response fit into it. -/
theorem records_le : ((r.answers ip).flatMap Record.bytes).length ≤ kMaxDnsPacketLen := by
  rw [length_bytes] at hlen
  omega

/-- A small response has fewer records than the parser's cap. -/
theorem count_le : r.cnames.length + 1 ≤ 64 := by
  have hrecords := length_records (r.answers ip)
  have hfit := r.records_le txId hlen
  have hmax : kMaxDnsPacketLen = 512 := rfl
  have hanswers : (r.answers ip).length = r.cnames.length + 1 := by
    simp [answers]
  omega

theorem cname_rdata_le {c : Record} (hc : c ∈ r.cnames) : c.rdata.length ≤ kMaxDnsPacketLen :=
  Nat.le_trans (rdata_le_records (mem_append_left [r.address ip] hc)) (r.records_le txId hlen)

/-- The header of a small response passes every check. -/
theorem parseDnsResponse_bytes :
    parseDnsResponse (r.bytes txId question ip) txId =
      (skipQuestions (r.bytes txId question ip) 1 1 kDnsHeaderLen).bind
        (findA (r.bytes txId question ip) (r.cnames.length + 1) (r.cnames.length + 1)) := by
  have hcount := r.count_le txId hlen
  have hlength := r.length_bytes txId question ip
  obtain ⟨hid, hflags, hqd, han⟩ := r.header_reads txId (question ++
    (r.answers ip).flatMap Record.bytes ++ r.rest) hcount
  have hmsg : r.header txId ++ (question ++ (r.answers ip).flatMap Record.bytes ++ r.rest) =
      r.bytes txId question ip := by
    simp only [bytes, append_assoc]
  rw [hmsg] at hid hflags hqd han
  have hrcode : (r.flags &&& kDnsRcodeMask).toNat = 0 := by
    rw [r.noError]
    rfl
  unfold parseDnsResponse
  dsimp only
  rw [hid, hflags, hqd, han, hrcode, if_neg (by omega), if_neg (fun h => h rfl),
    if_neg r.response, if_neg (fun h => h rfl), if_neg (by omega), if_neg (by omega),
    if_neg (by omega)]
  cases skipQuestions (r.bytes txId question ip) 1 1 kDnsHeaderLen with
  | error e | ok offset => rfl

end Small

/-- The question of the response begins with the name of the host. -/
theorem nameAt_bytes {hostname qname : Bytes} (h : encodeQname hostname = some qname)
    (ip : UInt32) :
    NameAt (r.bytes txId (questionSection qname) ip) kDnsHeaderLen (hostname.count dot + 2)
      (kDnsHeaderLen + qname.length) := by
  have hname := nameAt_question h (r.header txId) (toBe 2 kDnsTypeA.toNat ++
    toBe 2 kDnsClassIn.toNat ++ (r.answers ip).flatMap Record.bytes ++ r.rest)
  rw [length_header] at hname
  simpa only [bytes, questionSection, append_assoc] using hname

end StandardResponse

/-- The question of a query, which the response repeats. -/
theorem buildDnsQuery_drop {txId : UInt16} {hostname query : Bytes}
    (h : buildDnsQuery txId hostname = some query) :
    ∃ qname, encodeQname hostname = some qname ∧
      query.drop kDnsHeaderLen = questionSection qname ∧
      query.length = kDnsHeaderLen + (questionSection qname).length := by
  obtain ⟨qname, hqname, rfl⟩ := Option.map_eq_some_iff.mp h
  refine ⟨qname, hqname, drop_left' rfl, ?_⟩
  rw [length_append]
  rfl

/-- One question is skipped if its name is short. -/
theorem skipQuestions_one (h : NameAt msg kDnsHeaderLen steps stop) (hin : stop + 4 ≤ msg.length) :
    ∃ e, skipQuestions msg 1 1 kDnsHeaderLen =
      if steps ≤ kMaxIterations then .ok (stop + 4) else .error e := by
  have hskip := skipDnsName_eq h
  have hstop := h.lt_stop
  by_cases hsteps : steps ≤ kMaxIterations
  · rw [if_pos hsteps] at hskip
    refine ⟨"", ?_⟩
    rw [if_pos hsteps, skipQuestions]
    rw [hskip, if_neg (by omega), if_neg (by omega), skipQuestions]
  · rw [if_neg hsteps] at hskip
    simp only [if_neg hsteps]
    rw [skipQuestions]
    rw [hskip, if_pos rfl]
    exact ⟨_, rfl⟩

/-- **Queries and responses agree exactly when every name is short.**  A standard response of at
most 512 bytes is accepted with its address if and only if the labels of the hostname and the
root are at most 32, and every owner's name is read in at most 32 steps. -/
theorem dns_agreement_iff {hostname query : Bytes} {txId : UInt16}
    (hquery : buildDnsQuery txId hostname = some query) (ip : UInt32) (r : StandardResponse)
    (hnames : WellNamed (r.bytes txId (query.drop kDnsHeaderLen) ip)
      (ownerSpans query.length (r.answers ip)))
    (hlen : (r.bytes txId (query.drop kDnsHeaderLen) ip).length ≤ kMaxDnsPacketLen) :
    parseDnsResponse (r.bytes txId (query.drop kDnsHeaderLen) ip) txId = .ok ip ↔
      hostname.count dot + 2 ≤ kMaxIterations ∧
        ShortNames (r.bytes txId (query.drop kDnsHeaderLen) ip)
          ((ownerSpans query.length (r.answers ip)).map Prod.fst) := by
  obtain ⟨qname, hqname, hquestion, hstart⟩ := buildDnsQuery_drop hquery
  rw [hquestion, hstart] at hnames ⊢
  rw [hquestion] at hlen
  have hsection : (questionSection qname).length = qname.length + 4 := by
    simp [questionSection]
  have hlength := r.length_bytes txId (questionSection qname) ip
  obtain ⟨e, hskip⟩ := skipQuestions_one (r.nameAt_bytes txId hqname ip) (by omega)
  -- The search begins behind the header and the question.
  have hfront : (r.header txId ++ questionSection qname).length =
      kDnsHeaderLen + (questionSection qname).length := by
    rw [length_append, StandardResponse.length_header]
  have hfind := findA_answers_iff ip (r.address ip) rfl rfl (r.cnames.length + 1) r.isCname
    (fun c hc => r.cname_rdata_le txId hlen hc) (r.header txId ++ questionSection qname)
    (by rw [hfront]; exact hnames)
  rw [hfront, hsection, ← Nat.add_assoc] at hfind
  rw [hsection, ← Nat.add_assoc, r.parseDnsResponse_bytes txId hlen, hskip]
  by_cases hsteps : hostname.count dot + 2 ≤ kMaxIterations
  · rw [if_pos hsteps, and_iff_right hsteps]
    exact hfind
  · rw [if_neg hsteps]
    exact iff_of_false (by nofun) fun h => hsteps h.1

/-- An owner's name that points at the question. -/
def questionPointer : Bytes := [0xC0, 0x0C]

/-- The hostname `a.b`, which is an alias of `c`. -/
def aliasHostname : Bytes := [97, dot, 98]

/-- The alias under a pointer, and the address under its own name. -/
def aliasResponse : StandardResponse where
  flags := 0x8180
  response := by decide
  noError := by decide
  nsCount := 0
  arCount := 0
  cnames := [⟨questionPointer, cnameType, 60, [1, 99, 0]⟩]
  isCname := by simp
  owner := [1, 99, 0]
  ttl := 60
  rest := []

def aliasQuery : Bytes := (buildDnsQuery 0x1234 aliasHostname).getD []

/-- An alias is followed to its address. -/
theorem dns_agreement_alias :
    parseDnsResponse (aliasResponse.bytes 0x1234 (aliasQuery.drop kDnsHeaderLen) 0x0A000001)
      0x1234 = .ok 0x0A000001 := by
  have hquestion : NameAt (aliasResponse.bytes 0x1234 (aliasQuery.drop kDnsHeaderLen) 0x0A000001)
      kDnsHeaderLen 3 17 :=
    NameAt.label (by decide +kernel) (by decide +kernel) (by decide +kernel)
      (NameAt.label (by decide +kernel) (by decide +kernel) (by decide +kernel)
        (NameAt.root (by decide +kernel) (by decide +kernel)))
  have hcname : NameAt (aliasResponse.bytes 0x1234 (aliasQuery.drop kDnsHeaderLen) 0x0A000001)
      21 4 23 :=
    NameAt.pointer (by decide +kernel) (by decide +kernel) (by decide +kernel) hquestion
  have haddress : NameAt (aliasResponse.bytes 0x1234 (aliasQuery.drop kDnsHeaderLen) 0x0A000001)
      36 2 39 :=
    NameAt.label (by decide +kernel) (by decide +kernel) (by decide +kernel)
      (NameAt.root (by decide +kernel) (by decide +kernel))
  have hspans : ownerSpans aliasQuery.length (aliasResponse.answers 0x0A000001) =
      [(21, 23), (36, 39)] := by decide +kernel
  have hquery : buildDnsQuery 0x1234 aliasHostname = some aliasQuery := by decide +kernel
  refine (dns_agreement_iff hquery _ _ ?_ (by decide +kernel)).mpr ⟨by decide, ?_⟩
  · rw [hspans]
    intro span hspan
    rcases mem_cons.mp hspan with rfl | hspan
    · exact ⟨4, hcname⟩
    · obtain rfl := mem_singleton.mp hspan
      exact ⟨2, haddress⟩
  · rw [hspans]
    refine (shortNames_cons hcname).mpr ⟨by decide, (shortNames_cons haddress).mpr ⟨by decide, ?_⟩⟩
    exact fun _ h => nomatch h

/-- A hostname of 32 labels of one letter. -/
def deepHostname : Bytes := 97 :: (List.replicate 31 [dot, 97]).flatten

def deepQuery : Bytes := (buildDnsQuery 0x1234 deepHostname).getD []

/-- An address and nothing else, under a pointer. -/
def plainResponse : StandardResponse :=
  { aliasResponse with cnames := [], isCname := nofun, owner := questionPointer }

/-- The query for a hostname of 32 labels is sent, and its answer refused. -/
theorem deep_hostname_refused :
    buildDnsQuery 0x1234 deepHostname = some deepQuery ∧
    WellNamed (plainResponse.bytes 0x1234 (deepQuery.drop kDnsHeaderLen) 0x0A000001)
      (ownerSpans deepQuery.length (plainResponse.answers 0x0A000001)) ∧
    (plainResponse.bytes 0x1234 (deepQuery.drop kDnsHeaderLen) 0x0A000001).length ≤
      kMaxDnsPacketLen ∧
    parseDnsResponse (plainResponse.bytes 0x1234 (deepQuery.drop kDnsHeaderLen) 0x0A000001)
      0x1234 ≠ .ok 0x0A000001 := by
  have hquery : buildDnsQuery 0x1234 deepHostname = some deepQuery := by decide +kernel
  refine ⟨hquery, ?_, by decide +kernel, ?_⟩
  · obtain ⟨qname, hqname, hquestion, -⟩ := buildDnsQuery_drop hquery
    have hname := plainResponse.nameAt_bytes 0x1234 hqname 0x0A000001
    rw [← hquestion] at hname
    have hspans : ownerSpans deepQuery.length (plainResponse.answers 0x0A000001) =
        [(81, 83)] := by decide +kernel
    rw [hspans]
    intro span hspan
    obtain rfl := mem_singleton.mp hspan
    exact ⟨_, NameAt.pointer (by decide +kernel) (by decide +kernel) (by decide +kernel) hname⟩
  · intro h
    have hsome := congrArg Except.toOption h
    revert hsome
    decide +kernel

end Eph.Dpdk.Dns
