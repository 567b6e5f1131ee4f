import Ephemeral.CoreTypes
import Ephemeral.Interleaving
import Ephemeral.PacketParse
import Mathlib.Data.Fintype.Basic

/-!
# The shared directory of ICMP targets

Processes register their connections in a table in shared memory, so that whoever receives
an ICMP message can find the process it is for.  A slot of the table goes from `Free` over
`InProgress` to `Published` and back; its plain words are written while it is in progress and
left as they are when it is freed.  A generation counter, which `unregister` increments before
it frees the slot, is meant to tell a later registration of the slot from an earlier one.

The calls on the table run at the same time, in different processes.  Every access to an
atomic word, every write and every read of a plain word is one step.  A call that runs is a
thread; what it does to memory next, and where it stands then, depends on what it reads.

To be able to speak of registrations the table also records, for each slot, the call that
claimed it and has not been released since (`holder`), and how often its generation was
incremented (`bumps`).  Nothing the calls do depends on these records.
-/

namespace Eph.Dpdk

open Core Function Interleave

variable {e : IcmpDirectoryEntry} {t : IcmpTarget}

/-- `kIcmpDirectoryMaxEntries`. -/
def kIcmpDirectoryMaxEntries : Nat := 1024

/-- `kIcmpDirectoryNoOwner`. -/
def kIcmpDirectoryNoOwner : UInt8 := 0xFF

/-- The states of a slot. -/
inductive SlotState
  | free
  | published
  | inProgress
  deriving DecidableEq

/-- What a registration is found under. -/
structure IcmpKey where
  tuple : ConnectionTuple
  proto : UInt8
  deriving DecidableEq

/-- What a registration says. -/
structure IcmpTarget where
  key : IcmpKey
  ownerProc : UInt8
  deriving DecidableEq

/-- A slot. -/
structure IcmpDirectoryEntry where
  claimed : SlotState
  proto : UInt8
  ownerProc : UInt8
  srcIp : UInt32
  dstIp : UInt32
  srcPort : UInt16
  dstPort : UInt16
  generation : UInt32
  deriving DecidableEq

/-- A slot of a new directory. -/
def IcmpDirectoryEntry.init : IcmpDirectoryEntry :=
  ⟨.free, 0, kIcmpDirectoryNoOwner, 0, 0, 0, 0, 0⟩

/-- The plain words of a slot. -/
inductive Word
  | proto
  | ownerProc
  | srcIp
  | dstIp
  | srcPort
  | dstPort
  deriving DecidableEq

namespace Word

/-- The order in which `register_target` writes the words. -/
def afterWrite : Word → Option Word
  | proto => some ownerProc
  | ownerProc => some srcIp
  | srcIp => some dstIp
  | dstIp => some srcPort
  | srcPort => some dstPort
  | dstPort => none

/-- The order in which the words of a key are compared; the owner is not part of the key. -/
def afterCompare : Word → Option Word
  | proto => some srcIp
  | ownerProc => some srcIp
  | srcIp => some dstIp
  | dstIp => some srcPort
  | srcPort => some dstPort
  | dstPort => none

/-- The place of a word in the order of writing. -/
def index : Word → Nat
  | proto => 0
  | ownerProc => 1
  | srcIp => 2
  | dstIp => 3
  | srcPort => 4
  | dstPort => 5

end Word

namespace IcmpDirectoryEntry

variable (e t)

/-- The key a slot shows. -/
def key : IcmpKey :=
  ⟨⟨e.srcIp, e.dstIp, e.srcPort, e.dstPort⟩, e.proto⟩

/-- Write one word. -/
def write : Word → IcmpDirectoryEntry
  | .proto => { e with proto := t.key.proto }
  | .ownerProc => { e with ownerProc := t.ownerProc }
  | .srcIp => { e with srcIp := t.key.tuple.srcIp }
  | .dstIp => { e with dstIp := t.key.tuple.dstIp }
  | .srcPort => { e with srcPort := t.key.tuple.srcPort }
  | .dstPort => { e with dstPort := t.key.tuple.dstPort }

/-- One word is as the target has it. -/
def Wrote : Word → Prop
  | .proto => e.proto = t.key.proto
  | .ownerProc => e.ownerProc = t.ownerProc
  | .srcIp => e.srcIp = t.key.tuple.srcIp
  | .dstIp => e.dstIp = t.key.tuple.dstIp
  | .srcPort => e.srcPort = t.key.tuple.srcPort
  | .dstPort => e.dstPort = t.key.tuple.dstPort

/-- Compare one word of the key. -/
def agrees (k : IcmpKey) : Word → Bool
  | .proto => e.proto == k.proto
  | .ownerProc => true
  | .srcIp => e.srcIp == k.tuple.srcIp
  | .dstIp => e.dstIp == k.tuple.dstIp
  | .srcPort => e.srcPort == k.tuple.srcPort
  | .dstPort => e.dstPort == k.tuple.dstPort

/-- The slot says what the target says. -/
def Carries : Prop :=
  e.key = t.key ∧ e.ownerProc = t.ownerProc

variable {e t}

theorem carries_of_wrote (h : ∀ w, e.Wrote t w) : e.Carries t := by
  obtain ⟨⟨⟨si, di, sp, dp⟩, p⟩, o⟩ := t
  have hproto : e.proto = p := h .proto
  have howner : e.ownerProc = o := h .ownerProc
  have hsi : e.srcIp = si := h .srcIp
  have hdi : e.dstIp = di := h .dstIp
  have hsp : e.srcPort = sp := h .srcPort
  have hdp : e.dstPort = dp := h .dstPort
  exact ⟨by rw [key, hproto, hsi, hdi, hsp, hdp], howner⟩

variable (e t)

theorem wrote_write {v : Word} (h : e.Wrote t v) (w : Word) : (e.write t w).Wrote t v := by
  cases v <;> cases w <;> first | rfl | exact h

@[simp] theorem write_claimed (w : Word) : (e.write t w).claimed = e.claimed := by
  cases w <;> rfl

@[simp] theorem write_generation (w : Word) : (e.write t w).generation = e.generation := by
  cases w <;> rfl

end IcmpDirectoryEntry

/-! ## The calls -/

/-- `LookupResult`. -/
structure LookupResult where
  ownerProc : UInt8
  generation : UInt32
  slotIdx : Nat
  deriving DecidableEq

/-- Where a call of `register_target` stands. -/
inductive RegisterPoint
  | start
  /-- Pass 1: about to load `claimed` of slot `j`, or found it published and about to compare. -/
  | early (j : Nat)
  | earlyCompare (j : Nat) (w : Word)
  /-- Pass 2: about to move slot `i` from free to in progress. -/
  | claim (i : Nat)
  | write (i : Nat) (w : Word)
  | publish (i : Nat)
  /-- Slot `i` is published; the scan for duplicates is at slot `j`. -/
  | scan (i j : Nat)
  | scanCompare (i j : Nat) (w : Word)
  /-- A duplicate was found in a lower slot: about to free slot `i`. -/
  | yield (i : Nat)
  | registered (i : Nat)
  | refused (error : ErrorInfo)
  deriving DecidableEq

namespace RegisterPoint

/-- The slot the call has claimed. -/
def slot : RegisterPoint → Option Nat
  | write i _ | publish i | scan i _ | scanCompare i _ _ | yield i | registered i => some i
  | _ => none

/-- The slot the call has claimed, while it runs. -/
def working : RegisterPoint → Option Nat
  | write i _ | publish i | scan i _ | scanCompare i _ _ | yield i => some i
  | _ => none

/-- The slot the call has published. -/
def shown : RegisterPoint → Option Nat
  | scan i _ | scanCompare i _ _ | yield i | registered i => some i
  | _ => none

/-- What the call has made of the slot it has claimed. -/
def Fits (e : IcmpDirectoryEntry) (t : IcmpTarget) : RegisterPoint → Prop
  | write _ w => e.claimed = .inProgress ∧ ∀ v : Word, v.index < w.index → e.Wrote t v
  | publish _ => e.claimed = .inProgress ∧ e.Carries t
  | scan _ _ | scanCompare _ _ _ | yield _ | registered _ => e.claimed = .published ∧ e.Carries t
  | _ => False

variable {p : RegisterPoint}

theorem slot_of_working {i : Nat} (h : p.working = some i) : p.slot = some i := by
  cases p <;> simp_all [working, slot]

theorem slot_of_shown {i : Nat} (h : p.shown = some i) : p.slot = some i := by
  cases p <;> simp_all [shown, slot]

theorem working_of_shown {i : Nat} (h : p.shown = some i) :
    p.working = some i ∨ p.working = none := by
  cases p <;> simp_all [shown, working]

theorem shown_ne_claim {i k : Nat} (h : p.shown = some i) : p ≠ .claim k := by
  rintro rfl
  cases h

/-- A claimed slot is not free. -/
theorem Fits.not_free (h : p.Fits e t) : e.claimed ≠ .free := by
  cases p <;> simp_all [Fits]

/-- The generation of the slot does not matter. -/
theorem Fits.generation (h : p.Fits e t) (g : UInt32) : p.Fits { e with generation := g } t := by
  cases p with
  | write i w =>
    refine ⟨h.1, fun v hv => ?_⟩
    have hwrote := h.2 v hv
    cases v <;> exact hwrote
  | publish i | scan i j | scanCompare i j w | yield i | registered i => exact h
  | _ => exact h.elim

end RegisterPoint

/-- Where a call of `unregister` stands. -/
inductive UnregisterPoint
  | start
  | bump
  | release
  | done
  deriving DecidableEq

/-- Where a call of `lookup` stands. -/
inductive LookupPoint
  | start
  | look (j : Nat)
  | compare (j : Nat) (w : Word)
  | owner (j : Nat)
  | generation (j : Nat) (ownerProc : UInt8)
  | found (r : LookupResult)
  | missing
  deriving DecidableEq

/-- Where a call of `is_slot_alive` stands. -/
inductive AlivePoint
  | start
  | generation
  | answered (alive : Bool)
  deriving DecidableEq

/-- A call with its arguments. -/
inductive IcmpCall
  | registerTarget (t : IcmpTarget) (now : RegisterPoint)
  | unregister (slotIdx : Nat) (now : UnregisterPoint)
  | lookup (k : IcmpKey) (now : LookupPoint)
  | isSlotAlive (slotIdx : Nat) (expectedGen : UInt32) (now : AlivePoint)
  deriving DecidableEq

/-- What a step does to memory. -/
inductive Access
  /-- Nothing: a load, or a compare-and-swap that fails. -/
  | read
  /-- The compare-and-swap from free to in progress. -/
  | claim (i : Nat)
  | write (i : Nat) (t : IcmpTarget) (w : Word)
  /-- The store of `Published`. -/
  | publish (i : Nat)
  /-- The increment of the generation. -/
  | bump (i : Nat)
  /-- The store of `Free`. -/
  | release (i : Nat)
  deriving DecidableEq

/-- The slot a step changes. -/
def Access.slot : Access → Option Nat
  | .read => none
  | .claim i | .write i _ _ | .publish i | .bump i | .release i => some i

/-- The slots, and the records. -/
structure Directory (ι : Type) where
  entries : Nat → IcmpDirectoryEntry
  holder : Nat → Option ι
  bumps : Nat → Nat

namespace Directory

variable {ι : Type}

/-- A new directory. -/
def init : Directory ι := ⟨fun _ => .init, fun _ => none, fun _ => 0⟩

/-- Change one slot. -/
def edit (d : Directory ι) (i : Nat) (f : IcmpDirectoryEntry → IcmpDirectoryEntry) : Directory ι :=
  { d with entries := Function.update d.entries i (f (d.entries i)) }

/-- The effect of a step of call `me`. -/
def perform (me : ι) (d : Directory ι) : Access → Directory ι
  | .read => d
  | .claim i =>
    { d.edit i ({ · with claimed := .inProgress }) with
      holder := Function.update d.holder i (some me) }
  | .write i t w => d.edit i (·.write t w)
  | .publish i => d.edit i ({ · with claimed := .published })
  | .bump i =>
    { d.edit i (fun e => { e with generation := e.generation + 1 }) with
      bumps := Function.update d.bumps i (d.bumps i + 1) }
  | .release i =>
    { d.edit i ({ · with claimed := .free }) with holder := Function.update d.holder i none }

/-- A step leaves alone every slot but the one it accesses. -/
theorem perform_off (me : ι) (d : Directory ι) {a : Access} {k : Nat} (h : a.slot ≠ some k) :
    (d.perform me a).entries k = d.entries k ∧ (d.perform me a).holder k = d.holder k ∧
      (d.perform me a).bumps k = d.bumps k := by
  have hne : ∀ i, a.slot = some i → k ≠ i := by
    rintro i hi rfl
    exact h hi
  cases a with
  | read => exact ⟨rfl, rfl, rfl⟩
  | claim i | release i =>
    exact ⟨update_of_ne (hne i rfl) .., update_of_ne (hne i rfl) .., rfl⟩
  | write i t w | publish i => exact ⟨update_of_ne (hne i rfl) .., rfl, rfl⟩
  | bump i =>
    exact ⟨update_of_ne (hne i rfl) .., rfl, update_of_ne (hne i rfl) ..⟩

section At

variable (me : ι) (d : Directory ι) (i : Nat)

@[simp] theorem perform_claim_entries :
    (d.perform me (.claim i)).entries i = { d.entries i with claimed := .inProgress } :=
  update_self ..

@[simp] theorem perform_claim_holder : (d.perform me (.claim i)).holder i = some me :=
  update_self ..

@[simp] theorem perform_write_entries (t : IcmpTarget) (w : Word) :
    (d.perform me (.write i t w)).entries i = (d.entries i).write t w :=
  update_self ..

@[simp] theorem perform_write_holder (t : IcmpTarget) (w : Word) :
    (d.perform me (.write i t w)).holder = d.holder := rfl

@[simp] theorem perform_publish_entries :
    (d.perform me (.publish i)).entries i = { d.entries i with claimed := .published } :=
  update_self ..

@[simp] theorem perform_publish_holder : (d.perform me (.publish i)).holder = d.holder := rfl

@[simp] theorem perform_bump_entries :
    (d.perform me (.bump i)).entries i =
      { d.entries i with generation := (d.entries i).generation + 1 } :=
  update_self ..

@[simp] theorem perform_bump_holder : (d.perform me (.bump i)).holder = d.holder := rfl

@[simp] theorem perform_bump_bumps : (d.perform me (.bump i)).bumps i = d.bumps i + 1 :=
  update_self ..

@[simp] theorem perform_release_entries :
    (d.perform me (.release i)).entries i = { d.entries i with claimed := .free } :=
  update_self ..

@[simp] theorem perform_release_holder : (d.perform me (.release i)).holder i = none :=
  update_self ..

end At

end Directory

/-! ## Steps of the calls -/

open RegisterPoint

section Steps

variable (maxEntries : Nat) (entries : Nat → IcmpDirectoryEntry)

/-- The error of a target that names no owner. -/
def noOwnerGiven : ErrorInfo :=
  ⟨.invalidConfig, "IcmpDirectory::register_target: 0xFF is reserved as no-owner sentinel"⟩

/-- The error of a target that is found in the first pass. -/
def alreadyRegistered : ErrorInfo :=
  ⟨.invalidConfig, "IcmpDirectory::register_target: (tuple, proto) already registered"⟩

/-- The error of a call that gave its slot back. -/
def lostRace : ErrorInfo :=
  ⟨.invalidConfig, "IcmpDirectory::register_target: (tuple, " ++
    "proto) already registered (lost TOCTOU " ++ "race against a concurrent peer)"⟩

/-- The error of a call that found no free slot. -/
def directoryFull : ErrorInfo :=
  ⟨.outOfMemory, "IcmpDirectory::register_target: directory full (1024 slots)"⟩

namespace RegisterPoint

/-- The second pass from slot `i` on. -/
def claimFrom (i : Nat) : RegisterPoint :=
  if i < maxEntries then .claim i else .refused directoryFull

/-- The first pass from slot `j` on. -/
def earlyFrom (j : Nat) : RegisterPoint :=
  if j < maxEntries then .early j else claimFrom maxEntries 0

/-- The scan passes over the call's own slot. -/
def skipOwn (i j : Nat) : Nat := if j = i then j + 1 else j

/-- The scan of the call that has published slot `i`, from slot `j` on. -/
def scanFrom (i j : Nat) : RegisterPoint :=
  if skipOwn i j < maxEntries then .scan i (skipOwn i j) else .registered i

/-- `register_target`, step by step. -/
def next (t : IcmpTarget) : RegisterPoint → Access × RegisterPoint
  | .start =>
    if t.ownerProc = kIcmpDirectoryNoOwner then (.read, .refused noOwnerGiven)
    else (.read, earlyFrom maxEntries 0)
  | .early j =>
    if (entries j).claimed = .published then (.read, .earlyCompare j .proto)
    else (.read, earlyFrom maxEntries (j + 1))
  | .earlyCompare j w =>
    if (entries j).agrees t.key w then
      match w.afterCompare with
      | some v => (.read, .earlyCompare j v)
      | none => (.read, .refused alreadyRegistered)
    else (.read, earlyFrom maxEntries (j + 1))
  | .claim i =>
    if (entries i).claimed = .free then (.claim i, .write i .proto)
    else (.read, claimFrom maxEntries (i + 1))
  | .write i w =>
    match w.afterWrite with
    | some v => (.write i t w, .write i v)
    | none => (.write i t w, .publish i)
  | .publish i => (.publish i, scanFrom maxEntries i 0)
  | .scan i j =>
    if (entries j).claimed = .published then (.read, .scanCompare i j .proto)
    else (.read, scanFrom maxEntries i (j + 1))
  | .scanCompare i j w =>
    if (entries j).agrees t.key w then
      match w.afterCompare with
      | some v => (.read, .scanCompare i j v)
      | none => if j < i then (.read, .yield i) else (.read, scanFrom maxEntries i (j + 1))
    else (.read, scanFrom maxEntries i (j + 1))
  | .yield i => (.release i, .refused lostRace)
  | .registered i => (.read, .registered i)
  | .refused error => (.read, .refused error)

theorem claimFrom_slot (i : Nat) : (claimFrom maxEntries i).slot = none := by
  unfold claimFrom
  split <;> rfl

theorem scanFrom_shown (i j : Nat) : (scanFrom maxEntries i j).shown = some i := by
  unfold scanFrom
  split <;> rfl

theorem lt_of_claimFrom {i k : Nat} (h : claimFrom maxEntries i = .claim k) : k < maxEntries := by
  unfold claimFrom at h
  split at h
  · cases h
    assumption
  · cases h

/-- What a step of `register_target` can be: one outside of any slot; the claim of a free slot; a
write to the claimed slot; its publication; a step of the scan, or none after it; the release of
the slot. -/
inductive Stepped (t : IcmpTarget) : RegisterPoint → Access → RegisterPoint → Prop
  | outside {p q} (hp : p.slot = none) (hq : q.slot = none)
      (hlt : ∀ k, q = .claim k → k < maxEntries) : Stepped t p .read q
  | claims (i) (hfree : (entries i).claimed = .free) :
      Stepped t (.claim i) (.claim i) (.write i .proto)
  | writes (i) {w v} (hv : w.afterWrite = some v) :
      Stepped t (.write i w) (.write i t w) (.write i v)
  | writesLast (i) {w} (hw : w.afterWrite = none) :
      Stepped t (.write i w) (.write i t w) (.publish i)
  | publishes (i) : Stepped t (.publish i) (.publish i) (scanFrom maxEntries i 0)
  | scans {p q} (i) (hp : p.shown = some i) (hq : q.shown = some i)
      (hover : p.working = none → q.working = none) : Stepped t p .read q
  | yields (i) : Stepped t (.yield i) (.release i) (.refused lostRace)

theorem next_stepped (t : IcmpTarget) (p : RegisterPoint) :
    Stepped maxEntries entries t p (next maxEntries entries t p).1
      (next maxEntries entries t p).2 := by
  have hearly : ∀ {p : RegisterPoint} (j : Nat), p.slot = none →
      Stepped maxEntries entries t p .read (earlyFrom maxEntries j) := by
    intro p j hp
    unfold earlyFrom
    split
    · exact .outside hp rfl nofun
    · exact .outside hp (claimFrom_slot maxEntries 0) fun _ hq => lt_of_claimFrom maxEntries hq
  cases p with
  | start =>
    simp only [next]
    split
    · exact .outside rfl rfl nofun
    · exact hearly 0 rfl
  | early j =>
    simp only [next]
    split
    · exact .outside rfl rfl nofun
    · exact hearly (j + 1) rfl
  | earlyCompare j w =>
    simp only [next]
    split
    · cases w.afterCompare with
      | some v | none => exact .outside rfl rfl nofun
    · exact hearly (j + 1) rfl
  | claim i =>
    simp only [next]
    split
    · exact .claims i ‹_›
    · exact .outside rfl (claimFrom_slot ..) fun _ hq => lt_of_claimFrom maxEntries hq
  | write i w =>
    simp only [next]
    cases hw : w.afterWrite with
    | some v => exact .writes i hw
    | none => exact .writesLast i hw
  | publish i => exact .publishes i
  | scan i j =>
    simp only [next]
    split
    · exact .scans i rfl rfl nofun
    · exact .scans i rfl (scanFrom_shown ..) nofun
  | scanCompare i j w =>
    simp only [next]
    split
    · cases w.afterCompare with
      | some v => exact .scans i rfl rfl nofun
      | none =>
        dsimp only
        split
        · exact .scans i rfl rfl nofun
        · exact .scans i rfl (scanFrom_shown ..) nofun
    · exact .scans i rfl (scanFrom_shown ..) nofun
  | yield i => exact .yields i
  | registered i => exact .scans i rfl rfl id
  | refused error => exact .outside rfl rfl nofun

end RegisterPoint

/-- An index outside the table, by its declared and by its effective size. -/
def outsideTable (slotIdx : Nat) : Bool :=
  kIcmpDirectoryMaxEntries ≤ slotIdx || maxEntries ≤ slotIdx

/-- `unregister`, step by step. -/
def UnregisterPoint.next (slotIdx : Nat) : UnregisterPoint → Access × UnregisterPoint
  | .start =>
    if outsideTable maxEntries slotIdx then (.read, .done)
    else
      match (entries slotIdx).claimed with
      | .free => (.read, .done)
      | .inProgress => (.read, .done)
      | .published => (.read, .bump)
  | .bump => (.bump slotIdx, .release)
  | .release => (.release slotIdx, .done)
  | .done => (.read, .done)

namespace LookupPoint

/-- The search from slot `j` on. -/
def lookFrom (j : Nat) : LookupPoint :=
  if j < maxEntries then .look j else .missing

/-- `lookup`, step by step. -/
def next (k : IcmpKey) : LookupPoint → LookupPoint
  | .start => lookFrom maxEntries 0
  | .look j =>
    if (entries j).claimed = .published then .compare j .proto else lookFrom maxEntries (j + 1)
  | .compare j w =>
    if (entries j).agrees k w then
      match w.afterCompare with
      | some v => .compare j v
      | none => .owner j
    else lookFrom maxEntries (j + 1)
  | .owner j => .generation j (entries j).ownerProc
  | .generation j ownerProc => .found ⟨ownerProc, (entries j).generation, j⟩
  | .found r => .found r
  | .missing => .missing

end LookupPoint

/-- `is_slot_alive`, step by step. -/
def AlivePoint.next (slotIdx : Nat) (expectedGen : UInt32) : AlivePoint → AlivePoint
  | .start =>
    if outsideTable maxEntries slotIdx then .answered false
    else if (entries slotIdx).claimed = .published then .generation
    else .answered false
  | .generation => .answered ((entries slotIdx).generation == expectedGen)
  | .answered alive => .answered alive

/-- The next step of a call. -/
def IcmpCall.next : IcmpCall → Access × IcmpCall
  | .registerTarget t now =>
    ((RegisterPoint.next maxEntries entries t now).1,
      .registerTarget t (RegisterPoint.next maxEntries entries t now).2)
  | .unregister slotIdx now =>
    ((UnregisterPoint.next maxEntries entries slotIdx now).1,
      .unregister slotIdx (UnregisterPoint.next maxEntries entries slotIdx now).2)
  | .lookup k now => (.read, .lookup k (LookupPoint.next maxEntries entries k now))
  | .isSlotAlive slotIdx expectedGen now =>
    (.read, .isSlotAlive slotIdx expectedGen
      (AlivePoint.next maxEntries entries slotIdx expectedGen now))

/-- What a step of a call can be: one of `register_target`; one that frees a slot, of
`unregister`; or one that no registration notices. -/
inductive IcmpCall.Stepped : IcmpCall → Access → IcmpCall → Prop
  | registers {t p a q} (h : RegisterPoint.Stepped maxEntries entries t p a q) :
      Stepped (.registerTarget t p) a (.registerTarget t q)
  | aside {call a call'} (hcall : ∀ t p, call ≠ .registerTarget t p)
      (hcall' : ∀ t p, call' ≠ .registerTarget t p) (ha : a = .read ∨ ∃ m, a = .bump m) :
      Stepped call a call'
  | frees (slotIdx) :
      Stepped (.unregister slotIdx .release) (.release slotIdx) (.unregister slotIdx .done)

theorem IcmpCall.next_stepped (call : IcmpCall) :
    Stepped maxEntries entries call (call.next maxEntries entries).1
      (call.next maxEntries entries).2 := by
  cases call with
  | registerTarget t p => exact .registers (RegisterPoint.next_stepped maxEntries entries t p)
  | lookup k p | isSlotAlive slotIdx expectedGen p => exact .aside nofun nofun (.inl rfl)
  | unregister slotIdx p =>
    cases p with
    | start =>
      refine .aside nofun nofun (.inl ?_)
      simp only [IcmpCall.next, UnregisterPoint.next]
      split
      · rfl
      · cases (entries slotIdx).claimed <;> rfl
    | bump => exact .aside nofun nofun (.inr ⟨slotIdx, rfl⟩)
    | release => exact .frees slotIdx
    | done => exact .aside nofun nofun (.inl rfl)

end Steps

namespace IcmpDirectory

variable {ι : Type}

/-- A configuration of calls on a directory. -/
abbrev Calls (ι : Type) := Config ι (Directory ι) IcmpCall

/-- A step of one call. -/
def move (maxEntries : Nat) : Moves ι Unit (Directory ι) IcmpCall := fun me _ d call =>
  (d.perform me (call.next maxEntries d.entries).1, (call.next maxEntries d.entries).2)

/-- Call `i` has made the access `a`, and the others stand where they stood. -/
structure Moved (c c' : Calls ι) (i : ι) (a : Access) : Prop where
  shared : c'.shared = c.shared.perform i a
  others : ∀ j, j ≠ i → c'.point j = c.point j

variable [DecidableEq ι] {maxEntries j : Nat} {c : Calls ι} {i : ι} {t : IcmpTarget}

theorem step_moved (maxEntries : Nat) (c : Calls ι) (i : ι) (u : Unit) :
    ∃ a, Moved c (c.step (move maxEntries) (i, u)) i a ∧
      IcmpCall.Stepped maxEntries c.shared.entries (c.point i) a
        ((c.step (move maxEntries) (i, u)).point i) := by
  refine ⟨_, ⟨rfl, fun j hne => c.step_point_of_ne u hne⟩, ?_⟩
  rw [Config.step_point_self]
  exact IcmpCall.next_stepped ..

section

variable (hj : j ≤ maxEntries)
  (hopen : ∀ m, m < maxEntries → j ≤ m → (c.shared.entries m).claimed ≠ .published)

include hj hopen

/-- The first pass over slots that are not published ends with the second. -/
theorem reaches_secondPass
    (hpoint : c.point i = .registerTarget t (RegisterPoint.earlyFrom maxEntries j)) :
    Reaches (move maxEntries) c
      (c.put i (.registerTarget t (RegisterPoint.claimFrom maxEntries 0))) := by
  have hend : earlyFrom maxEntries (j + (maxEntries - j)) =
      claimFrom maxEntries 0 := by
    unfold earlyFrom
    rw [if_neg (by omega)]
  rw [← hend]
  refine reaches_loop (fun m => .registerTarget t (earlyFrom maxEntries m))
    (maxEntries - j) j hpoint fun m hm hlt => (?_ : move maxEntries i () _ _ = _)
  have hhere : earlyFrom maxEntries m = .early m := by
    unfold earlyFrom
    rw [if_pos (by omega)]
  have hskip := hopen m (by omega) hm
  simp only [hhere, move, IcmpCall.next, RegisterPoint.next, if_neg hskip, Directory.perform]

/-- The scan over slots that are not published ends the call. -/
theorem reaches_registered {s : Nat} (hsj : s < j)
    (hpoint : c.point i = .registerTarget t (RegisterPoint.scanFrom maxEntries s j)) :
    Reaches (move maxEntries) c (c.put i (.registerTarget t (.registered s))) := by
  have hskip : ∀ m, j ≤ m → skipOwn s m = m := fun m hm => if_neg (by omega)
  have hend : scanFrom maxEntries s (j + (maxEntries - j)) = .registered s := by
    unfold scanFrom
    rw [hskip _ (by omega), if_neg (by omega)]
  rw [← hend]
  refine reaches_loop (fun m => .registerTarget t (scanFrom maxEntries s m))
    (maxEntries - j) j hpoint fun m hm hlt => (?_ : move maxEntries i () _ _ = _)
  have hhere : scanFrom maxEntries s m = .scan s m := by
    unfold scanFrom
    rw [hskip m hm, if_pos (by omega)]
  have hunpublished := hopen m (by omega) hm
  simp only [hhere, move, IcmpCall.next, RegisterPoint.next, if_neg hunpublished, Directory.perform]

end

end IcmpDirectory

end Eph.Dpdk
