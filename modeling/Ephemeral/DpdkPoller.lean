import Ephemeral.CoreTypes
import Ephemeral.LinearProbing
import Ephemeral.UdpParse

/-!
# The poller's registrations and its routing table

`DpdkPoller` keeps the registered objects in a packed array and routes a packet to one of them by
its 5-tuple, through an open-addressed table of 128 slots.  `add` appends an entry and inserts a
route to it; `remove` turns the route into a tombstone, closes the gap in the array, and corrects
the indices of the entries that moved.

The functions take the hash of a 5-tuple as a parameter, `hash`; the poller's own is `hashTuple`.
-/

namespace Eph.Net.Dpdk

open Core Eph.Dpdk ByteOrder LinearProbing

/-- A 5-tuple as its owner sees it: the source is the local end. -/
structure FiveTuple where
  srcIp : UInt32
  dstIp : UInt32
  srcPort : UInt16
  dstPort : UInt16
  proto : UInt8
  deriving DecidableEq

/-- The packet seen from the other end. -/
def FiveTuple.swap (t : FiveTuple) : FiveTuple :=
  { t with srcIp := t.dstIp, dstIp := t.srcIp, srcPort := t.dstPort, dstPort := t.srcPort }

/-- `detail::hash_tuple`: FNV-1a over values that do not change when the ends are swapped. -/
def hashTuple (t : FiveTuple) : UInt32 :=
  let mix (h v : UInt64) : UInt64 := (h ^^^ v) * 1099511628211
  let h := mix 14695981039346656037 (t.srcIp ^^^ t.dstIp).toUInt64
  let h := mix h (t.srcIp.toUInt64 + t.dstIp.toUInt64)
  let h := mix h (t.srcPort ^^^ t.dstPort).toUInt64
  let h := mix h (t.srcPort.toUInt64 + t.dstPort.toUInt64)
  let h := mix h t.proto.toUInt64
  (h ^^^ (h >>> 32)).toUInt32

def kMaxConnHard : Nat := 64
def kRouteTableSize : Nat := 128
def kInvalidSlot : UInt8 := 0xFF

instance : NeZero kRouteTableSize := ⟨by decide⟩

/-- The state byte of a route slot. -/
inductive SlotState
  | kEmpty
  | kOccupied
  | kTombstone
  deriving DecidableEq

/-- `RouteSlot`.  A slot that becomes a tombstone keeps its key. -/
structure RouteSlot where
  state : SlotState
  entryIdx : UInt8
  tuple : FiveTuple
  connHash : UInt32
  deriving DecidableEq

/-- A slot that was never used. -/
def RouteSlot.initial : RouteSlot := ⟨.kEmpty, kInvalidSlot, ⟨0, 0, 0, 0, 0⟩, 0⟩

abbrev RouteTable := Fin kRouteTableSize → RouteSlot

/-- What routing reads of a `PollableEntry`. -/
structure PollableEntry (ω : Type) where
  obj : ω
  connHash : UInt32
  tuple : FiveTuple
  deriving DecidableEq

/-- The poller.  `entries` are the first `n_entries_` elements of its array. -/
structure DpdkPoller (ω : Type) where
  maxConnections : Nat
  entries : List (PollableEntry ω)
  routeTable : RouteTable
  hashCollisionDrops : Nat

/-- `create`. -/
def DpdkPoller.create (ω : Type) (maxConnections : Nat) : Except ErrorInfo (DpdkPoller ω) :=
  if maxConnections = 0 || maxConnections > kMaxConnHard then
    .error ⟨.invalidConfig, "DpdkPoller::create: max_connections out of range"⟩
  else .ok ⟨maxConnections, [], fun _ => .initial, 0⟩

/-! ## The routing table -/

/-- The first slot of a probe: the low bits of the hash. -/
def homeSlot (hash : UInt32) : Fin kRouteTableSize :=
  ⟨hash.toNat % kRouteTableSize, Nat.mod_lt _ (by decide)⟩

/-- The loop of `find_route_slot_`: how it ends, and whether it passed a slot with the same hash
and another key. -/
def findRouteLoop (table : RouteTable) (hash : UInt32) (tuple : FiveTuple) :
    Nat → Fin kRouteTableSize → Bool → ProbeEnd UInt8 × Bool
  | 0, _, collision => (.exhausted, collision)
  | steps + 1, idx, collision =>
    let s := table idx
    match s.state with
    | .kEmpty => (.atEmpty, collision)
    | .kOccupied =>
      if s.connHash == hash && s.tuple == tuple then (.found s.entryIdx, collision)
      else findRouteLoop table hash tuple steps (idx + 1) (collision || s.connHash == hash)
    | .kTombstone => findRouteLoop table hash tuple steps (idx + 1) collision

variable (table : RouteTable)

/-- `find_route_slot_`: the index, and `last_lookup_had_collision_`. -/
def findRouteSlot (hash : UInt32) (tuple : FiveTuple) : UInt8 × Bool :=
  match findRouteLoop table hash tuple kRouteTableSize (homeSlot hash) false with
  | (.found idx, collision) => (idx, collision)
  | (_, collision) => (kInvalidSlot, collision)

/-- The loop of `insert_route_`: the slot it takes, `none` where it gives up. -/
def insertRouteLoop (table : RouteTable) : Nat → Fin kRouteTableSize → Option (Fin kRouteTableSize)
  | 0, _ => none
  | steps + 1, idx =>
    match (table idx).state with
    | .kEmpty | .kTombstone => some idx
    | .kOccupied => insertRouteLoop table steps (idx + 1)

/-- `insert_route_`: `none` is the logged failure, which leaves the table as it is. -/
def insertRoute (hash : UInt32) (tuple : FiveTuple) (entryIdx : Nat) : Option RouteTable :=
  (insertRouteLoop table kRouteTableSize (homeSlot hash)).map fun idx =>
    Function.update table idx ⟨.kOccupied, UInt8.ofNat entryIdx, tuple, hash⟩

/-- The loop of `tombstone_route_`. -/
def tombstoneRouteLoop (table : RouteTable) (hash : UInt32) (tuple : FiveTuple) :
    Nat → Fin kRouteTableSize → RouteTable
  | 0, _ => table
  | steps + 1, idx =>
    let s := table idx
    match s.state with
    | .kEmpty => table
    | .kOccupied =>
      if s.connHash == hash && s.tuple == tuple then
        Function.update table idx { s with state := .kTombstone, entryIdx := kInvalidSlot }
      else tombstoneRouteLoop table hash tuple steps (idx + 1)
    | .kTombstone => tombstoneRouteLoop table hash tuple steps (idx + 1)

/-- `tombstone_route_`. -/
def tombstoneRoute (hash : UInt32) (tuple : FiveTuple) : RouteTable :=
  tombstoneRouteLoop table hash tuple kRouteTableSize (homeSlot hash)

/-- `shift_down_route_indices_above_`. -/
def shiftDownRouteIndicesAbove (removedIdx : UInt8) : RouteTable := fun i =>
  let s := table i
  if s.state == .kOccupied && s.entryIdx > removedIdx && s.entryIdx != kInvalidSlot then
    { s with entryIdx := s.entryIdx - 1 }
  else s

/-! ## Registration -/

section Registration

variable {ω : Type} [DecidableEq ω] (hash : FiveTuple → UInt32)

/-- `add`; `none` is the null pointer. -/
def DpdkPoller.add (p : DpdkPoller ω) (obj : Option ω) (tuple : FiveTuple) :
    DpdkPoller ω × Except ErrorInfo Unit :=
  match obj with
  | none => (p, .error ⟨.invalidConfig, "DpdkPoller::add: nullptr"⟩)
  | some obj =>
    if p.entries.length ≥ p.maxConnections then
      (p, .error ⟨.outOfMemory, "DpdkPoller::add: entries table full"⟩)
    else if p.entries.any (fun e => e.obj == obj) then
      (p, .error ⟨.invalidConfig, "DpdkPoller::add: already registered"⟩)
    else if (findRouteSlot p.routeTable (hash tuple) tuple).1 != kInvalidSlot then
      (p, .error ⟨.invalidConfig, "DpdkPoller::add: 5-tuple already registered"⟩)
    else
      let entryIdx := p.entries.length
      ({ p with
          entries := p.entries ++ [⟨obj, hash tuple, tuple⟩]
          routeTable := (insertRoute p.routeTable (hash tuple) tuple entryIdx).getD p.routeTable },
        .ok ())

/-- `remove`. -/
def DpdkPoller.remove (p : DpdkPoller ω) (obj : Option ω) : DpdkPoller ω × Except ErrorInfo Unit :=
  match obj with
  | none => (p, .error ⟨.invalidConfig, "DpdkPoller::remove: nullptr"⟩)
  | some obj =>
    let i := p.entries.findIdx fun e => e.obj == obj
    match p.entries[i]? with
    | none => (p, .error ⟨.notFound, "DpdkPoller::remove: not registered"⟩)
    | some e =>
      let table := tombstoneRoute p.routeTable e.connHash e.tuple
      let entries := p.entries.eraseIdx i
      ({ p with
          entries := entries
          routeTable :=
            if i < entries.length then shiftDownRouteIndicesAbove table (UInt8.ofNat i)
            else table },
        .ok ())

/-! ## Lookup -/

/-- The 5-tuple of a received packet, TCP or UDP. -/
def packetTuple (m : Mbuf) : Option FiveTuple := do
  let ip ← parseIpHeader m
  if ip.proto = kIpProtoTcp then
    let parsed ← parseTcpFromIp m ip
    some ⟨parsed.srcIp, parsed.dstIp, parsed.srcPort, parsed.dstPort, ip.proto⟩
  else if ip.proto = kIpProtoUdp then
    let parsed ← parseUdpFromIp m ip
    some ⟨parsed.srcIp, parsed.dstIp, parsed.srcPort, parsed.dstPort, ip.proto⟩
  else none

/-- `lookup_by_5tuple_`: the index of the entry that the packet is for. -/
def DpdkPoller.lookupBy5tuple (p : DpdkPoller ω) (m : Mbuf) : DpdkPoller ω × Option Nat :=
  match packetTuple m with
  | none => (p, none)
  | some packet =>
    let key := packet.swap
    let (idx, collision) := findRouteSlot p.routeTable (hash key) key
    if idx != kInvalidSlot then (p, some idx.toNat)
    else if collision then ({ p with hashCollisionDrops := p.hashCollisionDrops + 1 }, none)
    else (p, none)

/-- A call that changes the registrations. -/
inductive PollerCall (ω : Type)
  | add (obj : Option ω) (tuple : FiveTuple)
  | remove (obj : Option ω)

/-- The poller after a call. -/
def DpdkPoller.step (p : DpdkPoller ω) : PollerCall ω → DpdkPoller ω
  | .add obj tuple => (p.add hash obj tuple).1
  | .remove obj => (p.remove obj).1

/-- The poller after a sequence of calls. -/
def DpdkPoller.run (p : DpdkPoller ω) (calls : List (PollerCall ω)) : DpdkPoller ω :=
  calls.foldl (DpdkPoller.step hash) p

end Registration

end Eph.Net.Dpdk
