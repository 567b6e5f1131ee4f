import Ephemeral.CoreTypes
import Ephemeral.Interleaving
import Mathlib.Data.Fintype.Basic

/-!
# Process slots of the multi-process registry

Several processes share a table of slots in a memory zone.  A process takes the lowest slot
it can: first any slot whose `claimed` word it moves from 0 to 1; failing that, a slot whose
recorded owner no longer runs, by moving `claimed` from 1 to 0 and back to 1.  The owner's
process number is kept next to `claimed`, in a word of its own, and whether the owner runs is
asked of the operating system.

Every access to `claimed`, every store to `pid` and `lcore_mask`, the load of `pid` and the
question to the system is one step.  Processes die at any point, and what they have written
stays.

A slot may look abandoned without being so: its `pid` is still 0 while a process enters it,
and 0 again while a process leaves it; and the owner recorded at the time of the question may
have been replaced since.  If no slot is taken over in one of these situations
(`Unmistaken`), each slot has at most one running owner.
-/

namespace Eph.Dpdk

open Core Interleave List Function

variable {i : Nat}

/-- The words of a slot that claiming and releasing touch. -/
structure ProcSlot where
  claimed : Bool
  pid : Int
  lcoreMask : UInt64
  deriving DecidableEq

/-- How the system answers signal 0. -/
inductive KillResult
  | delivered
  | esrch
  | eperm
  | other
  deriving DecidableEq

/-- `is_pid_alive`. -/
def isPidAlive (kill : Int → KillResult) (pid : Int) : Bool :=
  if pid ≤ 0 then false
  else
    match kill pid with
    | .delivered => true
    | .esrch => false
    | .eperm => true
    | .other => false

/-- The processes around a registry.  A handle belongs to the process whose number it reports;
a process that one may not signal answers `EPERM`. -/
structure MpPeers (ι : Type) where
  totalProcs : Nat
  pid : ι → Int
  signalable : Int → Bool
  pid_pos : ∀ h, 0 < pid h

/-- The slots, and which processes run. -/
structure MpShared where
  procs : Nat → ProcSlot
  alive : Int → Bool

namespace MpShared

/-- The system's answer to signal 0 for a positive process number. -/
def kill (signalable : Int → Bool) (s : MpShared) (pid : Int) : KillResult :=
  if s.alive pid then if signalable pid then .delivered else .eperm else .esrch

/-- The probe is exact: it says no for numbers that are not positive, and otherwise whether the
process runs. -/
theorem isPidAlive_kill (signalable : Int → Bool) (s : MpShared) (pid : Int) :
    isPidAlive (s.kill signalable) pid = (decide (0 < pid) && s.alive pid) := by
  unfold isPidAlive kill
  by_cases hpos : pid ≤ 0
  · have hneg : ¬ 0 < pid := by omega
    simp [hpos, hneg]
  · have hgt : 0 < pid := by omega
    cases s.alive pid <;> cases signalable pid <;> simp [hpos, hgt]

variable (s : MpShared) (i : Nat) (f : ProcSlot → ProcSlot)

/-- Change one slot. -/
def edit : MpShared :=
  { s with procs := update s.procs i (f (s.procs i)) }

@[simp] theorem edit_alive : (s.edit i f).alive = s.alive := rfl

@[simp] theorem edit_procs_self : (s.edit i f).procs i = f (s.procs i) :=
  update_self ..

end MpShared

/-! ## The handle -/

namespace MpRegistryHandle

/-- Where a handle is.  Between calls it owns a slot or not, and remembers how its last call
failed, if it did; the other points are inside `try_claim_free_slot` or `release_`. -/
inductive Point
  /-- No slot is owned. -/
  | unowned (failure : Option ErrorInfo)
  /-- Pass 1: about to move `claimed` of slot `i` from 0 to 1. -/
  | takeFree (i : Nat)
  /-- Pass 2: about to read the owner of slot `i`. -/
  | readPid (i : Nat)
  /-- About to ask whether process `storedPid` runs. -/
  | probe (i : Nat) (storedPid : Int)
  /-- The answer was no; about to move `claimed` from 1 to 0. -/
  | reclaim (i : Nat) (storedPid : Int)
  /-- About to move it from 0 to 1. -/
  | retake (i : Nat)
  /-- The slot is taken: about to clear its `pid`, clear its `lcore_mask`, store the own process
  number, and publish `claimed` once more. -/
  | clearPid (i : Nat)
  | clearMask (i : Nat)
  | storePid (i : Nat)
  | republish (i : Nat)
  /-- The call has returned slot `i`. -/
  | owner (i : Nat) (failure : Option ErrorInfo)
  /-- In `release_`: about to clear `pid`, clear `lcore_mask`, and store 0 to `claimed`. -/
  | releasePid (i : Nat)
  | releaseMask (i : Nat)
  | releaseClaimed (i : Nat)
  deriving DecidableEq

/-- The error of a call on a handle that owns a slot. -/
def alreadyOwns : ErrorInfo :=
  ⟨.invalidConfig, "MpRegistry::try_claim_free_slot: handle already owns a slot"⟩

/-- The error of a call that found no slot. -/
def allClaimed : ErrorInfo :=
  ⟨.outOfMemory, "MpRegistry: all process slots are claimed " ++
    "(MpTopology::kMaxProcs reached — start fewer peers; " ++
    "the cap is a compile-time constant since the 2026-05-02 " ++
    "daemon reshape removed the configurable max_procs field)"⟩

/-- The second pass from slot `i` on. -/
def pass2 (total i : Nat) : Point :=
  if i < total then .readPid i else .unowned (some allClaimed)

/-- The first pass from slot `i` on. -/
def pass1 (total i : Nat) : Point :=
  if i < total then .takeFree i else pass2 total 0

/-- `try_claim_free_slot` is called.  The number of slots is laid down with the table and never
changes; it is at most 64, so that an index fits the byte it is returned in. -/
def tryClaimFreeSlot (total : Nat) : Point → Point
  | .unowned _ => pass1 total 0
  | .owner i _ => .owner i (some alreadyOwns)
  | p => p

/-- `release_` is called.  Afterwards the handle is as good as a fresh one. -/
def release : Point → Point
  | .owner i _ => .releasePid i
  | .unowned _ => .unowned none
  | p => p

/-- The next step inside a call. -/
def step {ι : Type} (peers : MpPeers ι) (h : ι) (s : MpShared) : Point → MpShared × Point
  | .unowned failure => (s, .unowned failure)
  | .takeFree i =>
    if (s.procs i).claimed then (s, pass1 peers.totalProcs (i + 1))
    else (s.edit i ({ · with claimed := true }), .clearPid i)
  | .readPid i => (s, .probe i (s.procs i).pid)
  | .probe i storedPid =>
    if isPidAlive (s.kill peers.signalable) storedPid then (s, pass2 peers.totalProcs (i + 1))
    else (s, .reclaim i storedPid)
  | .reclaim i _ =>
    if (s.procs i).claimed then (s.edit i ({ · with claimed := false }), .retake i)
    else (s, pass2 peers.totalProcs (i + 1))
  | .retake i =>
    if (s.procs i).claimed then (s, pass2 peers.totalProcs (i + 1))
    else (s.edit i ({ · with claimed := true }), .clearPid i)
  | .clearPid i => (s.edit i ({ · with pid := 0 }), .clearMask i)
  | .clearMask i => (s.edit i ({ · with lcoreMask := 0 }), .storePid i)
  | .storePid i => (s.edit i ({ · with pid := peers.pid h }), .republish i)
  | .republish i => (s.edit i ({ · with claimed := true }), .owner i none)
  | .owner i failure => (s, .owner i failure)
  | .releasePid i => (s.edit i ({ · with pid := 0 }), .releaseMask i)
  | .releaseMask i => (s.edit i ({ · with lcoreMask := 0 }), .releaseClaimed i)
  | .releaseClaimed i => (s.edit i ({ · with claimed := false }), .unowned none)

/-- What may happen to a handle: a call begins, a call goes on, or its process dies. -/
inductive Event
  | claim
  | release
  | step
  | die
  deriving DecidableEq

/-- A handle of a dead process does nothing. -/
def move {ι : Type} (peers : MpPeers ι) : Moves ι Event MpShared Point := fun h event s p =>
  if s.alive (peers.pid h) then
    match event with
    | .claim => (s, tryClaimFreeSlot peers.totalProcs p)
    | .release => (s, release p)
    | .step => step peers h s p
    | .die => ({ s with alive := update s.alive (peers.pid h) false }, p)
  else (s, p)

/-- The slot a handle is in: from the step that takes it to the step that gives it back. -/
def Point.slot : Point → Option Nat
  | .clearPid i | .clearMask i | .storePid i | .republish i => some i
  | .owner i _ | .releasePid i | .releaseMask i | .releaseClaimed i => some i
  | _ => none

/-- The slot a handle owns: `try_claim_free_slot` returned it and it is not yet given back. -/
def Point.owned : Point → Option Nat
  | .owner i _ | .releasePid i | .releaseMask i | .releaseClaimed i => some i
  | _ => none

/-- The slot about to be taken over, with the process number that was found dead. -/
def Point.takeover : Point → Option (Nat × Int)
  | .reclaim i storedPid => some (i, storedPid)
  | _ => none

/-- The slot carries the process number of the handle. -/
def Point.named : Point → Bool
  | .republish _ | .owner _ _ | .releasePid _ => true
  | _ => false

theorem Point.slot_of_owned {p : Point} (h : p.owned = some i) : p.slot = some i := by
  cases p <;> simp_all [Point.owned, Point.slot]

theorem pass2_slot (total i : Nat) : (pass2 total i).slot = none := by
  unfold pass2
  split <;> rfl

theorem pass1_slot (total i : Nat) : (pass1 total i).slot = none := by
  unfold pass1
  split
  · rfl
  · exact pass2_slot total 0

theorem pass2_ne_reclaim (total i j : Nat) (pid : Int) : pass2 total i ≠ .reclaim j pid := by
  unfold pass2
  split <;> simp

theorem pass1_ne_reclaim (total i j : Nat) (pid : Int) : pass1 total i ≠ .reclaim j pid := by
  unfold pass1
  split
  · simp
  · exact pass2_ne_reclaim total 0 j pid

/-- Beginning a call puts a handle into no slot and changes nothing about the one it is in. -/
def Begins (p q : Point) : Prop :=
  (∀ i, q.slot = some i → p.slot = some i ∧ (q.named = true → p.named = true)) ∧
    ∀ i pid, q = .reclaim i pid → p = .reclaim i pid

theorem begins_refl (p : Point) : Begins p p := ⟨fun _ hslot => ⟨hslot, id⟩, fun _ _ hq => hq⟩

theorem tryClaimFreeSlot_begins (total : Nat) (p : Point) :
    Begins p (tryClaimFreeSlot total p) := by
  cases p with
  | unowned failure =>
    refine ⟨fun i hslot => ?_, fun i pid hq => absurd hq (pass1_ne_reclaim _ _ i pid)⟩
    rw [tryClaimFreeSlot, pass1_slot] at hslot
    cases hslot
  | owner i failure => exact ⟨fun k hslot => ⟨hslot, fun _ => rfl⟩, fun k pid hq => by cases hq⟩
  | _ => exact begins_refl _

theorem release_begins (p : Point) : Begins p (release p) := by
  cases p with
  | unowned failure => exact ⟨fun k hslot => (nomatch hslot), fun k pid hq => (nomatch hq)⟩
  | owner i failure => exact ⟨fun k hslot => ⟨hslot, fun _ => rfl⟩, fun k pid hq => by cases hq⟩
  | _ => exact begins_refl _

/-! ## Runs -/

section Runs

variable {ι : Type} {peers : MpPeers ι}

/-- A configuration of handles. -/
abbrev Fleet (ι : Type) := Config ι MpShared Point

/-- The registry as the primary lays it out, and no handle owns a slot. -/
def fresh (masks : Nat → UInt64) : Fleet ι where
  shared := ⟨fun i => ⟨false, 0, masks i⟩, fun _ => true⟩
  point := fun _ => .unowned none

variable (peers) (c : Fleet ι)

/-- The handle's process runs. -/
def Runs (h : ι) : Prop := c.shared.alive (peers.pid h) = true

instance (h : ι) : Decidable (Runs peers c h) := inferInstanceAs (Decidable (_ = _))

/-- The handle is in slot `i`. -/
def In (h : ι) (i : Nat) : Prop := (c.point h).slot = some i

/-- The handle owns slot `i`. -/
def Owns (h : ι) (i : Nat) : Prop := (c.point h).owned = some i

instance (h : ι) (i : Nat) : Decidable (In c h i) := inferInstanceAs (Decidable (_ = _))

instance (h : ι) (i : Nat) : Decidable (Owns c h i) := inferInstanceAs (Decidable (_ = _))

/-- The step does not mistake a slot for an abandoned one.  If it takes `claimed` of a slot from 1
to 0 after a probe, the slot still carries the process number that was probed, and no handle of
a running process is just entering the slot or just leaving it. -/
def Unmistaken (event : ι × Event) : Prop :=
  event.2 = .step → ∀ t ∈ (c.point event.1).takeover, (c.shared.procs t.1).claimed = true →
    (c.shared.procs t.1).pid = t.2 ∧
      ∀ h, Runs peers c h → In c h t.1 → (c.point h).named = true

instance [Fintype ι] (c : Fleet ι) (event : ι × Event) : Decidable (Unmistaken peers c event) :=
  inferInstanceAs (Decidable (_ → _))

/-- No two running handles own one slot. -/
def SoleOwners : Prop :=
  ∀ h h' i, Runs peers c h → Runs peers c h' → Owns c h i → Owns c h' i → h = h'

/-- What every run keeps in which no slot is mistaken for an abandoned one: running handles are
alone in their slots, these are marked as claimed, carry their process numbers as far as they
have stored them, and a slot is about to be taken over only after its owner was found dead. -/
structure Exclusive : Prop where
  claimed : ∀ h i, Runs peers c h → In c h i → (c.shared.procs i).claimed = true
  alone : ∀ h h' i, Runs peers c h → Runs peers c h' → In c h i → In c h' i → h = h'
  named : ∀ h i, Runs peers c h → In c h i → (c.point h).named = true →
    (c.shared.procs i).pid = peers.pid h
  probed : ∀ h i storedPid, c.point h = .reclaim i storedPid →
    storedPid ≤ 0 ∨ c.shared.alive storedPid = false

variable {peers}

theorem exclusive_fresh (masks : Nat → UInt64) : Exclusive peers (fresh masks : Fleet ι) where
  claimed h i _ hin := by cases hin
  alone h h' i _ _ hin _ := by cases hin
  named h i _ hin _ := by cases hin
  probed h i storedPid hpoint := by cases hpoint

variable {c c' : Fleet ι} {h : ι}

/-- A step that leaves the slots alone, starts no process and enters no slot. -/
theorem Exclusive.weaken (hinv : Exclusive peers c) (hprocs : c'.shared.procs = c.shared.procs)
    (hdead : ∀ pid, c.shared.alive pid = false → c'.shared.alive pid = false)
    (hin : ∀ j i, In c' j i → In c j i ∧ ((c'.point j).named = true → (c.point j).named = true))
    (hprobed : ∀ j i storedPid, c'.point j = .reclaim i storedPid →
      storedPid ≤ 0 ∨ c.shared.alive storedPid = false) : Exclusive peers c' := by
  have hruns : ∀ j, Runs peers c' j → Runs peers c j := by
    intro j hj
    by_contra hnot
    have hnow := hdead (peers.pid j) (Bool.eq_false_iff.mpr hnot)
    rw [hj] at hnow
    cases hnow
  constructor
  · intro j i hlive hj
    rw [hprocs]
    exact hinv.claimed j i (hruns j hlive) (hin j i hj).1
  · intro j j' i hlive hlive' hj hj'
    exact hinv.alone j j' i (hruns j hlive) (hruns j' hlive') (hin j i hj).1 (hin j' i hj').1
  · intro j i hlive hj hnamed
    rw [hprocs]
    exact hinv.named j i (hruns j hlive) (hin j i hj).1 ((hin j i hj).2 hnamed)
  · intro j i storedPid hj
    exact (hprobed j i storedPid hj).imp_right (hdead storedPid)

/-- A step that leaves the shared state alone and enters no slot. -/
theorem Exclusive.quiet (hinv : Exclusive peers c) (hshared : c'.shared = c.shared)
    (hothers : ∀ j, j ≠ h → c'.point j = c.point j)
    (hslot : ∀ i, In c' h i → In c h i ∧ ((c'.point h).named = true → (c.point h).named = true))
    (hprobed : ∀ i storedPid, c'.point h = .reclaim i storedPid →
      storedPid ≤ 0 ∨ c.shared.alive storedPid = false) : Exclusive peers c' := by
  refine hinv.weaken (by rw [hshared]) (fun pid hpid => by rwa [hshared]) (fun j i hj => ?_)
    fun j i storedPid hj => ?_
  · by_cases hjh : j = h
    · subst hjh
      exact hslot i hj
    · unfold In at hj ⊢
      rw [hothers j hjh] at hj ⊢
      exact ⟨hj, id⟩
  · by_cases hjh : j = h
    · subst hjh
      exact hprobed i storedPid hj
    · rw [hothers j hjh] at hj
      exact hinv.probed j i storedPid hj

variable {f : ProcSlot → ProcSlot}

section

variable (hinv : Exclusive peers c)

include hinv

/-- A step that changes one slot in which no other running handle is. -/
theorem Exclusive.edit (hshared : c'.shared = c.shared.edit i f)
    (hothers : ∀ j, j ≠ h → c'.point j = c.point j)
    (hfree : ∀ j, j ≠ h → Runs peers c j → ¬ In c j i)
    (hslot : ∀ k, In c' h k → k = i ∧ (f (c.shared.procs i)).claimed = true ∧
      ((c'.point h).named = true → (f (c.shared.procs i)).pid = peers.pid h))
    (hprobed : ∀ k storedPid, c'.point h ≠ .reclaim k storedPid) : Exclusive peers c' := by
  have hruns : ∀ j, Runs peers c' j → Runs peers c j := fun j hj => by
    unfold Runs at hj ⊢
    rwa [hshared, MpShared.edit_alive] at hj
  -- another running handle is in the slot it was in, which is not the one that changes
  have hother : ∀ j k, j ≠ h → Runs peers c' j → In c' j k →
      In c j k ∧ k ≠ i ∧ c'.shared.procs k = c.shared.procs k := by
    intro j k hjh hlive hj
    have hj' : In c j k := by
      unfold In at hj ⊢
      rwa [hothers j hjh] at hj
    have hki : k ≠ i := by
      rintro rfl
      exact hfree j hjh (hruns j hlive) hj'
    exact ⟨hj', hki, by rw [hshared]; exact update_of_ne hki ..⟩
  constructor
  · intro j k hlive hj
    by_cases hjh : j = h
    · subst hjh
      obtain ⟨rfl, hclaimed, -⟩ := hslot k hj
      rw [hshared, MpShared.edit_procs_self]
      exact hclaimed
    · obtain ⟨hj', -, hsame⟩ := hother j k hjh hlive hj
      rw [hsame]
      exact hinv.claimed j k (hruns j hlive) hj'
  · intro j j' k hlive hlive' hj hj'
    by_cases hjh : j = h
    · by_cases hjh' : j' = h
      · rw [hjh, hjh']
      · subst hjh
        exact absurd (hslot k hj).1 (hother j' k hjh' hlive' hj').2.1
    · by_cases hjh' : j' = h
      · subst hjh'
        exact absurd (hslot k hj').1 (hother j k hjh hlive hj).2.1
      · exact hinv.alone j j' k (hruns j hlive) (hruns j' hlive') (hother j k hjh hlive hj).1
          (hother j' k hjh' hlive' hj').1
  · intro j k hlive hj hnamed
    by_cases hjh : j = h
    · subst hjh
      obtain ⟨rfl, -, hpid⟩ := hslot k hj
      rw [hshared, MpShared.edit_procs_self]
      exact hpid hnamed
    · obtain ⟨hj', -, hsame⟩ := hother j k hjh hlive hj
      rw [hothers j hjh] at hnamed
      rw [hsame]
      exact hinv.named j k (hruns j hlive) hj' hnamed
  · intro j k storedPid hj
    rw [hshared, MpShared.edit_alive]
    by_cases hjh : j = h
    · subst hjh
      exact absurd hj (hprobed k storedPid)
    · rw [hothers j hjh] at hj
      exact hinv.probed j k storedPid hj

/-- A process dies. -/
theorem Exclusive.die (pid : Int)
    (halive : c'.shared.alive = update c.shared.alive pid false)
    (hprocs : c'.shared.procs = c.shared.procs) (hpoint : c'.point = c.point) :
    Exclusive peers c' := by
  refine hinv.weaken hprocs (fun q hq => ?_) (fun j i hj => ?_) fun j i storedPid hj => ?_
  · rw [halive, update_apply]
    split
    · rfl
    · exact hq
  · unfold In at hj ⊢
    rw [hpoint] at hj ⊢
    exact ⟨hj, id⟩
  · rw [hpoint] at hj
    exact hinv.probed j i storedPid hj

/-- No other running handle is in the slot of a running handle. -/
theorem Exclusive.no_other (hlive : Runs peers c h) (hin : In c h i) {j : ι} (hne : j ≠ h)
    (hj : Runs peers c j) : ¬ In c j i :=
  fun hjin => hne (hinv.alone j h i hj hlive hjin hin)

/-- A step that leaves the shared state alone and the handle in no slot. -/
theorem Exclusive.outside (hshared : c'.shared = c.shared)
    (hothers : ∀ j, j ≠ h → c'.point j = c.point j) {p : Point} (hpoint : c'.point h = p)
    (hslot : p.slot = none)
    (hprobed : ∀ i storedPid, p = .reclaim i storedPid →
      storedPid ≤ 0 ∨ c.shared.alive storedPid = false) :
    Exclusive peers c' := by
  subst hpoint
  refine hinv.quiet hshared hothers (fun i hin => ?_) hprobed
  unfold In at hin
  rw [hslot] at hin
  cases hin

section

variable {i : Nat} (hshared : c'.shared = c.shared.edit i f)
  (hothers : ∀ j, j ≠ h → c'.point j = c.point j) {p : Point} (hpoint : c'.point h = p)
  (hfree : ∀ j, j ≠ h → Runs peers c j → ¬ In c j i)

include hshared hothers hpoint hfree

/-- A step that changes a slot and leaves the handle in it. -/
theorem Exclusive.inside (hslot : p.slot = some i)
    (hclaimed : (f (c.shared.procs i)).claimed = true)
    (hnamed : p.named = true → (f (c.shared.procs i)).pid = peers.pid h) : Exclusive peers c' := by
  subst hpoint
  refine hinv.edit hshared hothers hfree (fun k hk => ?_) (fun k storedPid hk => ?_)
  · unfold In at hk
    rw [hslot] at hk
    cases hk
    exact ⟨rfl, hclaimed, hnamed⟩
  · rw [hk] at hslot
    cases hslot

/-- A step that changes a slot and leaves the handle in none. -/
theorem Exclusive.leaving (hslot : p.slot = none)
    (hprobed : ∀ k storedPid, p ≠ .reclaim k storedPid) : Exclusive peers c' := by
  subst hpoint
  refine hinv.edit hshared hothers hfree (fun k hk => ?_) hprobed
  unfold In at hk
  rw [hslot] at hk
  cases hk

end

/-- Beginning a call keeps the invariant. -/
theorem Exclusive.begins (hshared : c'.shared = c.shared)
    (hothers : ∀ j, j ≠ h → c'.point j = c.point j) (hbegins : Begins (c.point h) (c'.point h)) :
    Exclusive peers c' :=
  hinv.quiet hshared hothers (fun i hin => hbegins.1 i hin) fun i storedPid hq =>
    hinv.probed h i storedPid (hbegins.2 i storedPid hq)

/-- A step inside a call keeps the invariant. -/
theorem Exclusive.stepped (hlive : Runs peers c h) (hok : Unmistaken peers c (h, .step))
    (hmove : (c'.shared, c'.point h) = step peers h c.shared (c.point h))
    (hothers : ∀ j, j ≠ h → c'.point j = c.point j) : Exclusive peers c' := by
  -- the next slot of a pass: nothing is touched
  have hpass1 : ∀ i, (c'.shared, c'.point h) = (c.shared, pass1 peers.totalProcs i) →
      Exclusive peers c' := fun i he =>
    hinv.outside (Prod.mk.inj he).1 hothers (Prod.mk.inj he).2 (pass1_slot ..)
      fun k q hq => absurd hq (pass1_ne_reclaim _ _ k q)
  have hpass2 : ∀ i, (c'.shared, c'.point h) = (c.shared, pass2 peers.totalProcs i) →
      Exclusive peers c' := fun i he =>
    hinv.outside (Prod.mk.inj he).1 hothers (Prod.mk.inj he).2 (pass2_slot ..)
      fun k q hq => absurd hq (pass2_ne_reclaim _ _ k q)
  -- a slot is taken: it was not claimed, so that nobody is in it
  have htake : ∀ i, (c.shared.procs i).claimed ≠ true → (c'.shared, c'.point h) =
      (c.shared.edit i ({ · with claimed := true }), .clearPid i) → Exclusive peers c' := by
    intro i hfree he
    obtain ⟨hs, hq⟩ := Prod.mk.inj he
    exact hinv.inside hs hothers hq
      (fun j _ hj hin => hfree (hinv.claimed j i hj hin)) rfl rfl nofun
  -- a word of the own slot is changed, and the handle stays in it
  have hstay : ∀ i (f : ProcSlot → ProcSlot) (p : Point),
      (c'.shared, c'.point h) = (c.shared.edit i f, p) → In c h i → p.slot = some i →
      (∀ slot : ProcSlot, slot.claimed = true → (f slot).claimed = true) →
      (p.named = true → (f (c.shared.procs i)).pid = peers.pid h) → Exclusive peers c' := by
    intro i f p he hin hslot hclaimed hnamed
    obtain ⟨hs, hq⟩ := Prod.mk.inj he
    exact hinv.inside hs hothers hq (fun j hne hj => hinv.no_other hlive hin hne hj) hslot
      (hclaimed _ (hinv.claimed h i hlive hin)) hnamed
  -- the slot the handle is in, by its point
  have hin : ∀ {i}, (c.point h).slot = some i → In c h i := fun hslot => hslot
  generalize hp : c.point h = p at hmove hin
  cases p with
  | unowned failure | readPid i =>
    obtain ⟨hs, hq⟩ := Prod.mk.inj hmove
    exact hinv.outside hs hothers hq rfl nofun
  | takeFree i =>
    simp only [step] at hmove
    split at hmove
    · exact hpass1 (i + 1) hmove
    · exact htake i ‹_› hmove
  | probe i storedPid =>
    simp only [step, MpShared.isPidAlive_kill] at hmove
    split at hmove
    · exact hpass2 (i + 1) hmove
    rename_i hdead
    obtain ⟨hs, hq⟩ := Prod.mk.inj hmove
    refine hinv.outside hs hothers hq rfl fun k q he => ?_
    cases he
    simp only [Bool.and_eq_true, decide_eq_true_eq, not_and, Bool.not_eq_true] at hdead
    by_cases hpos : 0 < storedPid
    · exact .inr (hdead hpos)
    · exact .inl (by omega)
  | reclaim i storedPid =>
    simp only [step] at hmove
    split at hmove
    · rename_i hclaimed
      obtain ⟨hs, hq⟩ := Prod.mk.inj hmove
      have htaken : (i, storedPid) ∈ (c.point h).takeover := by
        rw [hp]
        rfl
      obtain ⟨hpid, hsettled⟩ := hok rfl (i, storedPid) htaken hclaimed
      -- a running handle in the slot would have stored its process number there, and the
      -- process of that number was found dead
      refine hinv.leaving hs hothers hq (fun j _ hj hin => ?_) rfl nofun
      have hown : storedPid = peers.pid j :=
        hpid.symm.trans (hinv.named j i hj hin (hsettled j hj hin))
      have hpos := peers.pid_pos j
      rcases hinv.probed h i storedPid hp with hneg | hdead
      · omega
      · rw [hown, hj] at hdead
        cases hdead
    · exact hpass2 (i + 1) hmove
  | retake i =>
    simp only [step] at hmove
    split at hmove
    · exact hpass2 (i + 1) hmove
    · exact htake i ‹_› hmove
  | clearPid i | clearMask i | releasePid i | releaseMask i =>
    exact hstay i _ _ hmove (hin rfl) rfl (fun _ hc => hc) nofun
  | storePid i =>
    exact hstay i _ _ hmove (hin rfl) rfl (fun _ hc => hc) fun _ => rfl
  | republish i =>
    have hname := hinv.named h i hlive
    rw [hp] at hname
    exact hstay i _ _ hmove (hin rfl) rfl (fun _ _ => rfl) fun _ => hname (hin rfl) rfl
  | owner i failure =>
    obtain ⟨hs, hq⟩ := Prod.mk.inj hmove
    refine hinv.begins hs hothers ?_
    rw [hp, hq]
    exact begins_refl _
  | releaseClaimed i =>
    obtain ⟨hs, hq⟩ := Prod.mk.inj hmove
    exact hinv.leaving hs hothers hq (fun j hne hj => hinv.no_other hlive (hin rfl) hne hj) rfl
      nofun

theorem Exclusive.soleOwners : SoleOwners peers c :=
  fun h h' i hlive hlive' howns howns' =>
    hinv.alone h h' i hlive hlive' (Point.slot_of_owned howns) (Point.slot_of_owned howns')

end

/-- A move that does not kill a process leaves the running ones running; one that does leaves the
slots alone. -/
theorem move_alive_or_procs (h : ι) (e : Event) (s : MpShared) (p : Point) :
    (move peers h e s p).1.alive = s.alive ∨ (move peers h e s p).1.procs = s.procs := by
  unfold move
  split
  · cases e with
    | step =>
      refine .inl ?_
      cases p <;> simp only [step] <;> (try split) <;> rfl
    | _ => exact .inr rfl
  · exact .inr rfl

variable [DecidableEq ι]

/-- Every move keeps the invariant, unless it mistakes a slot for an abandoned one. -/
theorem Exclusive.moved (hinv : Exclusive peers c) {event : ι × Event}
    (hok : Unmistaken peers c event) :
    Exclusive peers (c.step (move peers) event) := by
  obtain ⟨h, e⟩ := event
  have hothers : ∀ j, j ≠ h →
      (c.step (move peers) (h, e)).point j = c.point j :=
    fun j hne => c.step_point_of_ne e hne
  have hself : (c.step (move peers) (h, e)).point h =
      (move peers h e c.shared (c.point h)).2 := c.step_point_self h e
  have hmove : (c.step (move peers) (h, e)).shared =
      (move peers h e c.shared (c.point h)).1 := rfl
  by_cases hlive : Runs peers c h
  · have hif : c.shared.alive (peers.pid h) = true := hlive
    simp only [move, if_pos hif] at hself hmove
    cases e with
    | claim =>
      refine hinv.begins hmove hothers ?_
      rw [hself]
      exact tryClaimFreeSlot_begins ..
    | release =>
      refine hinv.begins hmove hothers ?_
      rw [hself]
      exact release_begins _
    | step => exact hinv.stepped hlive hok (Prod.ext hmove hself) hothers
    | die =>
      refine hinv.die (peers.pid h) ?_ ?_ (funext fun j => ?_)
      · rw [hmove]
      · rw [hmove]
      by_cases hjh : j = h
      · subst hjh
        exact hself
      · exact hothers j hjh
  · have hif : ¬ c.shared.alive (peers.pid h) = true := hlive
    simp only [move, if_neg hif] at hself hmove
    refine hinv.begins hmove hothers ?_
    rw [hself]
    exact begins_refl _

/-- The step leaves the slots that other running handles own claimed. -/
def Respects (peers : MpPeers ι) (c : Fleet ι) (event : ι × Event) : Prop :=
  ∀ h i, h ≠ event.1 → Runs peers c h → Owns c h i →
    ((c.step (move peers) event).shared.procs i).claimed = true

theorem Exclusive.respects (hinv : Exclusive peers c) {event : ι × Event}
    (hok : Unmistaken peers c event) : Respects peers c event := by
  intro h i hne hlive howns
  have hin : In c h i := Point.slot_of_owned howns
  rcases move_alive_or_procs event.1 event.2 c.shared (c.point event.1) with halive | hprocs
  · have hlive' : Runs peers (c.step (move peers) event) h := by
      unfold Runs at hlive ⊢
      rw [← hlive]
      exact congrFun halive (peers.pid h)
    refine (hinv.moved hok).claimed h i hlive' ?_
    unfold In at hin ⊢
    rw [← hin]
    exact congrArg Point.slot (c.step_point_of_ne event.2 hne)
  · have hsame : (c.step (move peers) event).shared.procs i = c.shared.procs i :=
      congrFun hprocs i
    rw [hsame]
    exact hinv.claimed h i hlive hin

/-- **Exclusive process slots.**  In every interleaving of claims, releases and deaths in which no
step mistakes a slot for an abandoned one, no two running processes own one slot, and no step
gives back a slot that another running process owns. -/
theorem process_slots_exclusive (peers : MpPeers ι) (masks : Nat → UInt64)
    (schedule : List (ι × Event))
    (hok : Throughout (move peers) (Unmistaken peers) (fresh masks) schedule) :
    Throughout (move peers) (fun c event => SoleOwners peers c ∧ Respects peers c event)
        (fresh masks) schedule ∧
      SoleOwners peers ((fresh masks).run (move peers) schedule) := by
  have hkeeps : ∀ (c : Fleet ι) event, Unmistaken peers c event → Exclusive peers c →
      Exclusive peers (c.step (move peers) event) :=
    fun c event hstep hinv => hinv.moved hstep
  constructor
  · exact throughout_of hkeeps (exclusive_fresh masks) hok
      fun c event hstep hinv => ⟨hinv.soleOwners, hinv.respects hstep⟩
  · exact (run_keeps hkeeps (exclusive_fresh masks) hok).soleOwners

end Runs

/-- Two handles of two processes, and one slot. -/
def twoPeers : MpPeers Bool where
  totalProcs := 1
  pid h := if h then 102 else 101
  signalable _ := true
  pid_pos h := by cases h <;> decide

/-- The first process takes the slot and dies; the second takes it over and gives it back. -/
def orderlyRun : List (Bool × Event) :=
  (false, .claim) :: replicate 5 (false, .step) ++
    (false, .die) :: (true, .claim) :: replicate 9 (true, .step) ++
    (true, .release) :: replicate 3 (true, .step)

/-- A slot that changes hands. -/
theorem process_slots_exclusive_takeover :
    Throughout (move twoPeers) (Unmistaken twoPeers) (fresh fun _ => 0) orderlyRun ∧
      SoleOwners twoPeers ((fresh fun _ => 0).run (move twoPeers) orderlyRun) :=
  have hok : Throughout (move twoPeers) (Unmistaken twoPeers) (fresh fun _ => 0) orderlyRun := by
    decide +kernel
  ⟨hok, (process_slots_exclusive twoPeers (fun _ => 0) orderlyRun hok).2⟩

/-- The second process reads the slot's `pid` while the first is entering the slot. -/
def enteringRun : List (Bool × Event) :=
  [(false, .claim), (false, .step), (true, .claim), (true, .step), (true, .step), (true, .step)]

/-- While the first process enters the slot, the second finds the process number 0 in it.  Whether
it goes on at once or only after the first has returned, it takes the slot over: in the one case
both processes own it, in the other the slot of a running owner is set back. -/
theorem process_slots_shared :
    (∃ c, c = (fresh fun _ => 0).run (move twoPeers)
        (enteringRun ++ replicate 6 (true, .step) ++ replicate 4 (false, .step)) ∧
      Runs twoPeers c false ∧ Runs twoPeers c true ∧ Owns c false 0 ∧ Owns c true 0) ∧
    ∃ c, c = (fresh fun _ => 0).run (move twoPeers)
        (enteringRun ++ replicate 4 (false, .step)) ∧
      Runs twoPeers c false ∧ Owns c false 0 ∧ (c.shared.procs 0).claimed = true ∧
      ((c.step (move twoPeers) (true, .step)).shared.procs 0).claimed = false := by
  refine ⟨⟨_, rfl, ?_⟩, ⟨_, rfl, ?_⟩⟩ <;> decide +kernel

end MpRegistryHandle

end Eph.Dpdk
