import Mathlib.Algebra.GroupWithZero.Nat
import Mathlib.Data.List.Nodup
import Mathlib.Data.List.Range

/-!
# The queue allocator

The daemon owns the queue pairs of a network card and grants contiguous ranges of them to
other processes, which later release them by message.  The allocator keeps one bit a queue
in four 64-bit words, and stamps each queue with the generation of the claim that took it.
A release is honoured only if every queue of its range is taken and carries the release's
generation; release messages may be late, repeated or made up.

The history of a run is the list of ranges that were granted and freed.  From it one can
say what a queue's bit ought to be: a queue is `Outstanding` under a grant that contains it
until a range that contains it is freed under the grant's generation.
-/

namespace Eph.Dpdk

open List Function

/-- The largest pool. -/
def kMaxAllocatorQueues : Nat := 256

/-- A half-open range of queues with the generation of its claim. -/
structure QueueRange where
  lo : Nat
  hi : Nat
  generation : UInt64
  deriving DecidableEq

/-- The queues of a range. -/
def QueueRange.Contains (r : QueueRange) (q : Nat) : Prop := r.lo ≤ q ∧ q < r.hi

instance (r : QueueRange) (q : Nat) : Decidable (r.Contains q) :=
  inferInstanceAs (Decidable (_ ∧ _))

theorem QueueRange.mem_range' (r : QueueRange) (q : Nat) :
    q ∈ range' r.lo (r.hi - r.lo) ↔ r.Contains q := by
  rw [mem_range'_1]
  unfold QueueRange.Contains
  omega

/-- The shared header.  Of the bitmap the words below `kMaxAllocatorQueues / 64` are used. -/
structure QueueHeader where
  totalQueues : Nat
  bitmap : Nat → BitVec 64
  claimGen : Nat → UInt64
  generation : UInt64
  staleReleases : UInt64
  bounded : totalQueues ≤ kMaxAllocatorQueues

/-- How `release` ends; the source only logs it. -/
inductive ReleaseEnd
  | empty
  | outOfRange
  | fromFuture
  | stale
  | freed
  deriving DecidableEq

namespace QueueHeader

/-- `init_header`. -/
def init (totalQueues : Nat) (bounded : totalQueues ≤ kMaxAllocatorQueues) : QueueHeader :=
  ⟨totalQueues, fun _ => 0, fun _ => 0, 0, 0, bounded⟩

variable (hdr : QueueHeader)

/-- `bit_is_set`. -/
def bitIsSet (i : Nat) : Bool :=
  (hdr.bitmap (i / 64) >>> (i % 64)) &&& 1#64 != 0#64

/-- `set_bit`. -/
def setBit (i : Nat) : QueueHeader :=
  { hdr with
    bitmap := update hdr.bitmap (i / 64) (hdr.bitmap (i / 64) ||| (1#64 <<< (i % 64))) }

/-- `clear_bit`. -/
def clearBit (i : Nat) : QueueHeader :=
  { hdr with
    bitmap := update hdr.bitmap (i / 64) (hdr.bitmap (i / 64) &&& ~~~(1#64 <<< (i % 64))) }

/-- Set the bit of a queue and stamp it. -/
def stamp (gen : UInt64) (hdr : QueueHeader) (i : Nat) : QueueHeader :=
  { hdr.setBit i with claimGen := update hdr.claimGen i gen }

/-- The first-fit scan of `claim`, with `n` queues to go from queue `i`. -/
def claimScan (hdr : QueueHeader) (count : Nat) :
    (n i runStart runLen : Nat) → Option Nat
  | 0, _, _, _ => none
  | n + 1, i, runStart, runLen =>
    if hdr.bitIsSet i then claimScan hdr count n (i + 1) (i + 1) 0
    else if count ≤ runLen + 1 then some runStart
    else claimScan hdr count n (i + 1) runStart (runLen + 1)

/-- Take the queues `[lo, lo + count)` under a new generation. -/
def grant (lo count : Nat) : QueueRange × QueueHeader :=
  let gen := hdr.generation + 1
  (⟨lo, lo + count, gen⟩, (range' lo count).foldl (stamp gen) { hdr with generation := gen })

/-- `claim`. -/
def claim (count : Nat) : Except String QueueRange × QueueHeader :=
  if count = 0 then (.error "QueueAllocator::claim: count must be >= 1", hdr)
  else if hdr.totalQueues < count then (.error "QueuePoolExhausted", hdr)
  else
    match hdr.claimScan count hdr.totalQueues 0 0 0 with
    | none => (.error "QueuePoolExhausted", hdr)
    | some lo => (.ok (hdr.grant lo count).1, (hdr.grant lo count).2)

/-- A release that is not honoured counts. -/
def countStale : QueueHeader :=
  { hdr with staleReleases := hdr.staleReleases + 1 }

/-- Some queue of the range is free or belongs to another claim. -/
def isStale (range : QueueRange) : Bool :=
  (range' range.lo (range.hi - range.lo)).any fun j =>
    !hdr.bitIsSet j || hdr.claimGen j != range.generation

/-- `release`. -/
def release (range : QueueRange) : ReleaseEnd × QueueHeader :=
  if range.hi ≤ range.lo then (.empty, hdr)
  else if hdr.totalQueues < range.hi then (.outOfRange, hdr.countStale)
  else if hdr.generation < range.generation then (.fromFuture, hdr.countStale)
  else if hdr.isStale range then (.stale, hdr.countStale)
  else (.freed, (range' range.lo (range.hi - range.lo)).foldl clearBit hdr)

end QueueHeader

/-! ## The message handlers -/

/-- `QueueClaimRequest`. -/
structure QueueClaimRequest where
  version : UInt8
  count : Nat

/-- `QueueReleaseRequest`. -/
structure QueueReleaseRequest where
  version : UInt8
  range : QueueRange

/-- `QueueClaimReply`: the granted range, or the error text. -/
abbrev QueueClaimReply := Except String QueueRange

/-- What a run has done to the pool. -/
inductive QueueEntry
  | granted (r : QueueRange)
  | freed (r : QueueRange)
  deriving DecidableEq

/-- The allocator with its history. -/
structure QueueService where
  header : QueueHeader
  history : List QueueEntry

open QueueService

namespace QueueService

/-- A new pool. -/
def create (totalQueues : Nat) (bounded : totalQueues ≤ kMaxAllocatorQueues) : QueueService :=
  ⟨.init totalQueues bounded, []⟩

variable (s : QueueService)

/-- `release`, recorded. -/
def release (range : QueueRange) : QueueService :=
  match s.header.release range with
  | (.freed, hdr) => ⟨hdr, s.history ++ [.freed range]⟩
  | (_, hdr) => ⟨hdr, s.history⟩

/-- `claim`, recorded. -/
def claim (count : Nat) : QueueClaimReply × QueueService :=
  match s.header.claim count with
  | (.error e, hdr) => (.error e, ⟨hdr, s.history⟩)
  | (.ok r, hdr) => (.ok r, ⟨hdr, s.history ++ [.granted r]⟩)

/-- `on_queue_claim_thunk`: `active` says whether the daemon has published its allocator,
`parsed` is the payload if it has the right size, and `sent` whether the reply to a grant
could be sent. -/
def onQueueClaimThunk (active : Bool) (parsed : Option QueueClaimRequest) (sent : Bool) :
    QueueClaimReply × QueueService :=
  if !active then (.error "daemon not ready (allocator inactive)", s)
  else
    match parsed with
    | none => (.error "invalid claim payload", s)
    | some req =>
      if req.version ≠ 1 then (.error "unsupported claim wire version", s)
      else
        match s.claim req.count with
        | (.error e, s) => (.error e, s)
        | (.ok r, s) => (.ok r, if sent then s else s.release r)

/-- `on_queue_release_thunk`. -/
def onQueueReleaseThunk (active : Bool) (parsed : Option QueueReleaseRequest) : QueueService :=
  if !active then s
  else
    match parsed with
    | none => s
    | some req => if req.version ≠ 1 then s else s.release req.range

end QueueService

/-- A message to the daemon. -/
inductive QueueMessage
  | claim (active : Bool) (parsed : Option QueueClaimRequest) (sent : Bool)
  | release (active : Bool) (parsed : Option QueueReleaseRequest)

/-- A claim message. -/
def QueueMessage.isClaim : QueueMessage → Bool
  | claim _ _ _ => true
  | release _ _ => false

/-- Handle a message. -/
def QueueService.handle (s : QueueService) : QueueMessage → QueueService
  | .claim active parsed sent => (s.onQueueClaimThunk active parsed sent).2
  | .release active parsed => s.onQueueReleaseThunk active parsed

/-- Handle a list of messages. -/
def QueueService.run (s : QueueService) (messages : List QueueMessage) : QueueService :=
  messages.foldl handle s

/-! ## Bits -/

namespace QueueHeader

variable {hdr : QueueHeader}

theorem bitIsSet_eq (hdr : QueueHeader) (i : Nat) :
    hdr.bitIsSet i = (hdr.bitmap (i / 64)).getLsbD (i % 64) := by
  unfold bitIsSet
  rw [BitVec.and_one_eq_setWidth_ofBool_getLsbD, BitVec.getLsbD_ushiftRight, Nat.add_zero]
  cases (hdr.bitmap (i / 64)).getLsbD (i % 64)
  · rfl
  · rfl

/-- The mask of queue `j` has its bit where queue `j` is, in the word of queue `j`. -/
theorem mask_getLsbD {i j : Nat} (hword : i / 64 = j / 64) :
    (1#64 <<< (j % 64)).getLsbD (i % 64) = decide (i = j) := by
  have hj := Nat.mod_lt j (show 0 < 64 by decide)
  rw [← BitVec.twoPow_eq, BitVec.getLsbD_twoPow, decide_eq_true hj, Bool.true_and, decide_eq_decide]
  omega

@[simp] theorem bitIsSet_setBit (i j : Nat) :
    (hdr.setBit j).bitIsSet i = (decide (i = j) || hdr.bitIsSet i) := by
  rw [bitIsSet_eq, bitIsSet_eq]
  dsimp only [setBit]
  by_cases hword : i / 64 = j / 64
  · rw [hword, update_self, BitVec.getLsbD_or, mask_getLsbD hword, Bool.or_comm]
  have hij : i ≠ j := fun h => hword (by rw [h])
  rw [update_of_ne hword]
  simp [hij]

@[simp] theorem bitIsSet_clearBit (i j : Nat) :
    (hdr.clearBit j).bitIsSet i = (!decide (i = j) && hdr.bitIsSet i) := by
  have hi := Nat.mod_lt i (show 0 < 64 by decide)
  rw [bitIsSet_eq, bitIsSet_eq]
  dsimp only [clearBit]
  by_cases hword : i / 64 = j / 64
  · rw [hword, update_self, BitVec.getLsbD_and, BitVec.getLsbD_not, mask_getLsbD hword,
      Bool.and_comm]
    simp [hi]
  · have hij : i ≠ j := fun h => hword (by rw [h])
    rw [update_of_ne hword]
    simp [hij]

/-- Stamping a list of queues. -/
theorem foldl_stamp (gen : UInt64) (qs : List Nat) (hdr : QueueHeader) :
    (∀ i, (qs.foldl (stamp gen) hdr).bitIsSet i = (decide (i ∈ qs) || hdr.bitIsSet i)) ∧
    (∀ i, (qs.foldl (stamp gen) hdr).claimGen i = if i ∈ qs then gen else hdr.claimGen i) ∧
    (qs.foldl (stamp gen) hdr).generation = hdr.generation ∧
    (qs.foldl (stamp gen) hdr).totalQueues = hdr.totalQueues := by
  induction qs generalizing hdr with
  | nil => exact ⟨fun _ => rfl, fun _ => rfl, rfl, rfl⟩
  | cons q qs ih =>
    obtain ⟨hbits, hgens, hkept⟩ := ih (stamp gen hdr q)
    have hfirst : ∀ i, (stamp gen hdr q).bitIsSet i = (decide (i = q) || hdr.bitIsSet i) :=
      fun i => bitIsSet_setBit i q
    refine ⟨fun i => ?_, fun i => ?_, hkept⟩
    · rw [foldl_cons, hbits, hfirst]
      simp only [mem_cons, Bool.decide_or]
      rw [← Bool.or_assoc, Bool.or_comm (decide (i ∈ qs))]
    rw [foldl_cons, hgens]
    by_cases hmem : i ∈ qs
    · simp [hmem]
    by_cases hq : i = q
    · simp [hq, stamp]
    · simp [hmem, hq, stamp]

/-- What a grant leaves in the header. -/
theorem grant_spec (hdr : QueueHeader) (lo count : Nat) :
    (∀ q, (hdr.grant lo count).2.bitIsSet q =
      (decide ((hdr.grant lo count).1.Contains q) || hdr.bitIsSet q)) ∧
    (∀ q, (hdr.grant lo count).2.claimGen q =
      if (hdr.grant lo count).1.Contains q then hdr.generation + 1 else hdr.claimGen q) ∧
    (hdr.grant lo count).2.generation = hdr.generation + 1 ∧
    (hdr.grant lo count).2.totalQueues = hdr.totalQueues := by
  obtain ⟨hbits, hgens, hkept⟩ := foldl_stamp (hdr.generation + 1) (range' lo count)
    { hdr with generation := hdr.generation + 1 }
  have hin : ∀ q, q ∈ range' lo count ↔ (hdr.grant lo count).1.Contains q :=
    fun q => mem_range'_1
  refine ⟨fun q => (hbits q).trans ?_, fun q => (hgens q).trans ?_, hkept⟩
  · rw [decide_eq_decide.mpr (hin q)]
    rfl
  · exact if_congr (hin q) rfl rfl

/-- Clearing a list of queues. -/
theorem foldl_clearBit (qs : List Nat) (hdr : QueueHeader) :
    (∀ i, (qs.foldl clearBit hdr).bitIsSet i = (!decide (i ∈ qs) && hdr.bitIsSet i)) ∧
    (qs.foldl clearBit hdr).claimGen = hdr.claimGen ∧
    (qs.foldl clearBit hdr).generation = hdr.generation ∧
    (qs.foldl clearBit hdr).totalQueues = hdr.totalQueues := by
  induction qs generalizing hdr with
  | nil => simp
  | cons q qs ih =>
    obtain ⟨hbits, hkept⟩ := ih (hdr.clearBit q)
    refine ⟨fun i => ?_, hkept⟩
    rw [foldl_cons, hbits, bitIsSet_clearBit]
    simp only [mem_cons, Bool.decide_or, Bool.not_or]
    rw [← Bool.and_assoc, Bool.and_comm (!decide (i ∈ qs))]

/-! ## First fit -/

/-- A contiguous run of `count` free queues, at least one. -/
def FreeRun (hdr : QueueHeader) (lo count : Nat) : Prop :=
  0 < count ∧ lo + count ≤ hdr.totalQueues ∧
    ∀ q, lo ≤ q → q < lo + count → hdr.bitIsSet q = false

/-- `found` is the lowest run, or there is none. -/
def Lowest (hdr : QueueHeader) (count : Nat) (found : Option Nat) : Prop :=
  (∀ lo, found = some lo → hdr.FreeRun lo count ∧ ∀ lo', hdr.FreeRun lo' count → lo ≤ lo') ∧
  (found = none → ∀ lo, ¬ hdr.FreeRun lo count)

/-- The scan finds the lowest run.  The invariant: the queues of the current run are free, it
is too short, and no run that is long enough starts before it. -/
theorem claimScan_lowest {count : Nat} (hcount : 0 < count) :
    ∀ {n i runStart runLen : Nat}, i + n = hdr.totalQueues → runStart + runLen = i →
      runLen < count → (∀ q, runStart ≤ q → q < i → hdr.bitIsSet q = false) →
      (∀ lo, hdr.FreeRun lo count → runStart ≤ lo) →
      hdr.Lowest count (hdr.claimScan count n i runStart runLen) := by
  intro n
  induction n with
  | zero =>
    intro i runStart runLen htotal hrun hshort _ hleast
    refine ⟨fun lo h => (by cases h), fun _ lo hlo => ?_⟩
    have hstart := hleast lo hlo
    have hend := hlo.2.1
    omega
  | succ n ih =>
    intro i runStart runLen htotal hrun hshort hfree hleast
    unfold claimScan
    by_cases hset : hdr.bitIsSet i = true
    · -- Queue `i` is taken, so no run starts at or before it.
      rw [if_pos hset]
      refine ih (by omega) (Nat.add_zero _) hcount (fun q _ _ => by omega) fun lo hlo => ?_
      have hstart := hleast lo hlo
      by_contra hbefore
      have hclear := hlo.2.2 i (by omega) (by omega)
      rw [hset] at hclear
      cases hclear
    · rw [if_neg hset]
      have hfree' : ∀ q, runStart ≤ q → q < i + 1 → hdr.bitIsSet q = false := by
        intro q hlo hhi
        by_cases hq : q = i
        · rw [hq]
          exact Bool.eq_false_iff.mpr hset
        · exact hfree q hlo (by omega)
      by_cases hlong : count ≤ runLen + 1
      · rw [if_pos hlong]
        refine ⟨fun lo h => ?_, fun h => by cases h⟩
        cases h
        exact ⟨⟨hcount, by omega, fun q hlo hhi => hfree' q hlo (by omega)⟩, hleast⟩
      · rw [if_neg hlong]
        exact ih (by omega) (by omega) (by omega) hfree' hleast

/-- What `claim` does: it grants the lowest run, or there is none and nothing changes. -/
theorem claim_cases (hdr : QueueHeader) (count : Nat) :
    (∃ lo, hdr.FreeRun lo count ∧ (∀ lo', hdr.FreeRun lo' count → lo ≤ lo') ∧
      hdr.claim count = (.ok (hdr.grant lo count).1, (hdr.grant lo count).2)) ∨
    ((∀ lo, ¬ hdr.FreeRun lo count) ∧ ∃ e, hdr.claim count = (.error e, hdr)) := by
  unfold claim
  by_cases hzero : count = 0
  · rw [if_pos hzero]
    exact .inr ⟨fun lo hlo => absurd hlo.1 (by omega), _, rfl⟩
  rw [if_neg hzero]
  by_cases hmany : hdr.totalQueues < count
  · rw [if_pos hmany]
    exact .inr ⟨fun lo hlo => absurd hlo.2.1 (by omega), _, rfl⟩
  rw [if_neg hmany]
  have hscan : hdr.Lowest count (hdr.claimScan count hdr.totalQueues 0 0 0) :=
    claimScan_lowest (Nat.pos_of_ne_zero hzero) (Nat.zero_add _) (Nat.add_zero 0)
      (Nat.pos_of_ne_zero hzero) (fun q _ _ => by omega) fun _ _ => Nat.zero_le _
  generalize hdr.claimScan count hdr.totalQueues 0 0 0 = found at hscan
  cases found with
  | none => exact .inr ⟨hscan.2 rfl, _, rfl⟩
  | some lo => exact .inl ⟨lo, (hscan.1 lo rfl).1, (hscan.1 lo rfl).2, rfl⟩

/-- **First fit.**  A claim succeeds exactly when there is a free run of its length, and then
gets the lowest one. -/
theorem claim_first_fit (hdr : QueueHeader) (count : Nat) :
    ((∃ r, (hdr.claim count).1 = .ok r) ↔ ∃ lo, hdr.FreeRun lo count) ∧
    ∀ r, (hdr.claim count).1 = .ok r → r.hi = r.lo + count ∧ hdr.FreeRun r.lo count ∧
      ∀ lo, hdr.FreeRun lo count → r.lo ≤ lo := by
  obtain ⟨lo, hfree, hleast, hclaim⟩ | ⟨hnone, e, hclaim⟩ := hdr.claim_cases count
  · rw [hclaim]
    refine ⟨⟨fun _ => ⟨lo, hfree⟩, fun _ => ⟨_, rfl⟩⟩, ?_⟩
    rintro r hr
    cases hr
    exact ⟨rfl, hfree, hleast⟩
  · rw [hclaim]
    refine ⟨⟨?_, fun ⟨lo, hlo⟩ => (hnone lo hlo).elim⟩, ?_⟩
    · rintro ⟨r, hr⟩
      cases hr
    · rintro r hr
      cases hr

/-- What `release` does: it frees a range all of whose queues carry its generation, or leaves
the pool as it is. -/
theorem release_cases (hdr : QueueHeader) (range : QueueRange) :
    ((hdr.release range).1 = .freed ∧ (hdr.release range).2 =
        (range' range.lo (range.hi - range.lo)).foldl clearBit hdr ∧
      range.lo < range.hi ∧
      ∀ q, range.Contains q → hdr.bitIsSet q = true ∧ hdr.claimGen q = range.generation) ∨
    ((hdr.release range).1 ≠ .freed ∧
      ((hdr.release range).2 = hdr ∨ (hdr.release range).2 = hdr.countStale) ∧
      (range.hi ≤ range.lo ∨ hdr.totalQueues < range.hi ∨ hdr.generation < range.generation ∨
        ∃ q, range.Contains q ∧
          ¬ (hdr.bitIsSet q = true ∧ hdr.claimGen q = range.generation))) := by
  unfold release
  by_cases hempty : range.hi ≤ range.lo
  · rw [if_pos hempty]
    exact .inr ⟨by simp, .inl rfl, .inl hempty⟩
  rw [if_neg hempty]
  by_cases hout : hdr.totalQueues < range.hi
  · rw [if_pos hout]
    exact .inr ⟨by simp, .inr rfl, .inr (.inl hout)⟩
  rw [if_neg hout]
  by_cases hfuture : hdr.generation < range.generation
  · rw [if_pos hfuture]
    exact .inr ⟨by simp, .inr rfl, .inr (.inr (.inl hfuture))⟩
  rw [if_neg hfuture]
  have hmem := range.mem_range'
  by_cases hstale : hdr.isStale range = true
  · rw [if_pos hstale]
    obtain ⟨q, hq, hbad⟩ := any_eq_true.mp hstale
    refine .inr ⟨by simp, .inr rfl, .inr (.inr (.inr ⟨q, (hmem q).mp hq, ?_⟩))⟩
    rintro ⟨hset, hgen⟩
    simp [hset, hgen] at hbad
  · rw [if_neg hstale]
    refine .inl ⟨rfl, rfl, by omega, fun q hq => ?_⟩
    have hgood : ¬ (!hdr.bitIsSet q || hdr.claimGen q != range.generation) = true :=
      fun h => hstale (any_eq_true.mpr ⟨q, (hmem q).mpr hq, h⟩)
    simpa using hgood

end QueueHeader

/-! ## The history -/

/-- The grants of a history, in order. -/
def grants (history : List QueueEntry) : List QueueRange :=
  history.filterMap fun
    | .granted r => some r
    | .freed _ => none

/-- Queue `q` belongs to the grant `r` and has not been freed under its generation since. -/
def Outstanding (history : List QueueEntry) (r : QueueRange) (q : Nat) : Prop :=
  ∃ before after, history = before ++ .granted r :: after ∧ r.Contains q ∧
    ∀ r', .freed r' ∈ after → r'.generation = r.generation → ¬ r'.Contains q

variable {history : List QueueEntry} {r r' : QueueRange} {q : Nat}

theorem mem_grants : r ∈ grants history ↔ .granted r ∈ history := by
  unfold grants
  rw [mem_filterMap]
  constructor
  · rintro ⟨entry, hmem, hentry⟩
    cases entry with
    | granted r' =>
      cases hentry
      exact hmem
    | freed r' => cases hentry
  · intro hmem
    exact ⟨_, hmem, rfl⟩

theorem Outstanding.mem_grants (h : Outstanding history r q) : r ∈ grants history := by
  obtain ⟨before, after, rfl, -, -⟩ := h
  exact Dpdk.mem_grants.mpr (by simp)

/-- What one more entry does: a grant makes its queues outstanding, and freeing a range ends it
for the queues that it contains and the generation that it names. -/
theorem outstanding_concat {entry : QueueEntry} :
    Outstanding (history ++ [entry]) r q ↔
      (Outstanding history r q ∧ ∀ r', .freed r' = entry → r'.generation = r.generation →
        ¬ r'.Contains q) ∨ (entry = .granted r ∧ r.Contains q) := by
  constructor
  · rintro ⟨before, after, hsplit, hcontains, hfreed⟩
    rcases eq_nil_or_concat after with rfl | ⟨after', last, rfl⟩
    · exact .inr ⟨by simpa using (append_inj' hsplit rfl).2, hcontains⟩
    rw [concat_eq_append, ← cons_append, ← append_assoc] at hsplit
    rw [concat_eq_append] at hfreed
    obtain ⟨rfl, hlast⟩ := append_inj' hsplit rfl
    obtain rfl : entry = last := by simpa using hlast
    refine .inl ⟨⟨before, after', rfl, hcontains, ?_⟩, ?_⟩
    · exact fun r' hmem => hfreed r' (mem_append_left _ hmem)
    · exact fun r' heq => hfreed r' (mem_append_right _ (mem_singleton.mpr heq))
  · rintro (⟨⟨before, after, rfl, hcontains, hfreed⟩, hlast⟩ | ⟨rfl, hcontains⟩)
    · refine ⟨before, after ++ [entry], by simp, hcontains, fun r' hmem => ?_⟩
      exact (mem_append.mp hmem).elim (hfreed r') fun hnew => hlast r' (mem_singleton.mp hnew)
    · exact ⟨history, [], rfl, hcontains, nofun⟩

theorem outstanding_granted :
    Outstanding (history ++ [.granted r']) r q ↔
      Outstanding history r q ∨ (r = r' ∧ r.Contains q) := by
  simp [outstanding_concat, eq_comm]

theorem outstanding_freed :
    Outstanding (history ++ [.freed r']) r q ↔
      Outstanding history r q ∧ ¬ (r'.generation = r.generation ∧ r'.Contains q) := by
  simp [outstanding_concat]

/-! ## The header follows the history -/

/-- The bits and stamps of the header are those of the history, and the grants of the history
are numbered from one to the header's generation. -/
structure Tracks (hdr : QueueHeader) (history : List QueueEntry) : Prop where
  bits : ∀ q, hdr.bitIsSet q = true ↔ ∃ r, Outstanding history r q
  stamps : ∀ r q, Outstanding history r q → hdr.claimGen q = r.generation
  numbered : (grants history).map (fun r => r.generation.toNat) =
    range' 1 (grants history).length
  current : hdr.generation.toNat = (grants history).length
  within : ∀ r ∈ grants history, r.hi ≤ hdr.totalQueues

namespace Tracks

variable {hdr : QueueHeader}

theorem generation_le (h : Tracks hdr history) (hr : r ∈ grants history) :
    r.generation ≤ hdr.generation := by
  have hmem : r.generation.toNat ∈ (grants history).map fun r => r.generation.toNat :=
    mem_map.mpr ⟨r, hr, rfl⟩
  rw [h.numbered, mem_range'_1] at hmem
  have hcurrent := h.current
  rw [UInt64.le_iff_toNat_le]
  omega

/-- A queue is outstanding under one grant at most. -/
theorem unique (h : Tracks hdr history) (hr : Outstanding history r q)
    (hr' : Outstanding history r' q) : r = r' := by
  -- grants are told apart by their generations
  have hnodup : ((grants history).map fun r => r.generation.toNat).Nodup := by
    rw [h.numbered]
    exact nodup_range'
  exact inj_on_of_nodup_map hnodup hr.mem_grants hr'.mem_grants
    (by rw [← h.stamps r q hr, h.stamps r' q hr'])

theorem init (totalQueues : Nat) (bounded : totalQueues ≤ kMaxAllocatorQueues) :
    Tracks (.init totalQueues bounded) [] where
  bits q := by
    constructor
    · intro h
      rw [QueueHeader.bitIsSet_eq] at h
      simp [QueueHeader.init] at h
    · rintro ⟨r, before, after, hsplit, -, -⟩
      simp at hsplit
  stamps r q := by
    rintro ⟨before, after, hsplit, -, -⟩
    simp at hsplit
  numbered := rfl
  current := rfl
  within r hr := by cases hr

theorem countStale (h : Tracks hdr history) : Tracks hdr.countStale history :=
  { h with }

theorem grants_granted : grants (history ++ [.granted r]) = grants history ++ [r] := by
  simp [grants]

theorem grants_freed : grants (history ++ [.freed r]) = grants history := by
  simp [grants]

section

variable (h : Tracks hdr history)

include h

/-- A grant of free queues. -/
theorem grant {lo count : Nat} (hfree : hdr.FreeRun lo count)
    (hroom : (grants history).length + 1 < 2 ^ 64) :
    Tracks (hdr.grant lo count).2 (history ++ [.granted (hdr.grant lo count).1]) := by
  obtain ⟨hbits, hstamps, hgen, htotal⟩ := hdr.grant_spec lo count
  have hnext : (hdr.generation + 1).toNat = (grants history).length + 1 := by
    rw [UInt64.toNat_add, h.current]
    exact Nat.mod_eq_of_lt hroom
  refine ⟨fun q => ?_, fun r q hr => ?_, ?_, ?_, fun r hr => ?_⟩
  · rw [hbits, Bool.or_eq_true, decide_eq_true_iff, h.bits]
    constructor
    · rintro (hq | ⟨r, hr⟩)
      · exact ⟨_, outstanding_granted.mpr (.inr ⟨rfl, hq⟩)⟩
      · exact ⟨r, outstanding_granted.mpr (.inl hr)⟩
    · rintro ⟨r, hr⟩
      rcases outstanding_granted.mp hr with hr | ⟨rfl, hq⟩
      · exact .inr ⟨r, hr⟩
      · exact .inl hq
  · rw [hstamps]
    rcases outstanding_granted.mp hr with hr | ⟨rfl, hq⟩
    · -- An outstanding queue is not in a free run.
      have hout : ¬ (hdr.grant lo count).1.Contains q := by
        intro hq
        have hclear := hfree.2.2 q hq.1 hq.2
        rw [(h.bits q).mpr ⟨r, hr⟩] at hclear
        cases hclear
      rw [if_neg hout]
      exact h.stamps r q hr
    · rw [if_pos hq]
      rfl
  · rw [grants_granted, map_append, length_append, h.numbered, map_singleton,
      length_singleton, range'_1_concat]
    change _ ++ [(hdr.generation + 1).toNat] = _
    rw [hnext, Nat.add_comm 1]
  · rw [hgen, grants_granted, length_append]
    exact hnext
  · rw [htotal]
    rw [grants_granted, mem_append, mem_singleton] at hr
    rcases hr with hr | rfl
    · exact h.within r hr
    · exact hfree.2.1

/-- A range is freed whose queues carry its generation. -/
theorem free {range : QueueRange}
    (hall : ∀ q, range.Contains q → hdr.bitIsSet q = true ∧ hdr.claimGen q = range.generation) :
    Tracks ((range' range.lo (range.hi - range.lo)).foldl QueueHeader.clearBit hdr)
      (history ++ [.freed range]) := by
  obtain ⟨hbits, hgens, hgen, htotal⟩ := QueueHeader.foldl_clearBit
    (range' range.lo (range.hi - range.lo)) hdr
  have hin := range.mem_range'
  refine ⟨fun q => ?_, fun r q hr => ?_, ?_, ?_, ?_⟩
  · rw [hbits, Bool.and_eq_true, Bool.not_eq_true', decide_eq_false_iff_not, hin, h.bits]
    constructor
    · rintro ⟨hout, r, hr⟩
      exact ⟨r, outstanding_freed.mpr ⟨hr, fun hboth => hout hboth.2⟩⟩
    rintro ⟨r, hr⟩
    obtain ⟨hr, hnot⟩ := outstanding_freed.mp hr
    refine ⟨fun hq => hnot ⟨?_, hq⟩, r, hr⟩
    rw [← (hall q hq).2]
    exact h.stamps r q hr
  · rw [hgens]
    exact h.stamps r q (outstanding_freed.mp hr).1
  · rw [grants_freed]
    exact h.numbered
  · rw [hgen, grants_freed]
    exact h.current
  · rw [grants_freed, htotal]
    exact h.within

/-- No queue is outstanding under two grants. -/
theorem disjoint :
    (grants history).Pairwise fun r r' =>
      ∀ q, ¬ (Outstanding history r q ∧ Outstanding history r' q) := by
  have hnodup : (grants history).Nodup := by
    refine List.Nodup.of_map (fun r => r.generation.toNat) ?_
    rw [h.numbered]
    exact nodup_range'
  refine hnodup.imp fun hne q hboth => hne (h.unique hboth.1 hboth.2)

/-- Which releases free their range: those whose queues are all outstanding under the
generation that they name.  Such queues are in the pool, and the generation is not one of the
future. -/
theorem release_freed_iff (range : QueueRange) :
    (hdr.release range).1 = .freed ↔ range.lo < range.hi ∧
      ∀ q, range.Contains q → ∃ r, r.generation = range.generation ∧ Outstanding history r q := by
  constructor
  · intro hend
    obtain ⟨-, -, hpos, hall⟩ | ⟨hnot, -⟩ := hdr.release_cases range
    · refine ⟨hpos, fun q hq => ?_⟩
      obtain ⟨hset, hgen⟩ := hall q hq
      obtain ⟨r, hr⟩ := (h.bits q).mp hset
      exact ⟨r, (h.stamps r q hr).symm.trans hgen, hr⟩
    · exact absurd hend hnot
  · rintro ⟨hpos, hall⟩
    obtain ⟨hend, -⟩ | ⟨-, -, hwhy⟩ := hdr.release_cases range
    · exact hend
    exfalso
    obtain ⟨r, hgen, hr⟩ := hall (range.hi - 1) ⟨by omega, by omega⟩
    have hlast : range.hi - 1 < r.hi := by
      obtain ⟨-, -, -, hcontains, -⟩ := hr
      exact hcontains.2
    have hwithin := h.within r hr.mem_grants
    have hknown := h.generation_le hr.mem_grants
    rw [hgen] at hknown
    rcases hwhy with hempty | hout | hfuture | ⟨q, hq, hnot⟩
    · omega
    · omega
    · exact absurd hfuture (UInt64.not_lt.mpr hknown)
    · obtain ⟨r', hgen', hr'⟩ := hall q hq
      exact hnot ⟨(h.bits q).mpr ⟨r', hr'⟩, (h.stamps r' q hr').trans hgen'⟩

/-- A release that names another generation leaves the queue taken. -/
theorem release_other (range : QueueRange) (r : QueueRange) (q : Nat) (hr : Outstanding history r q)
    (hgen : range.generation ≠ r.generation) : (hdr.release range).2.bitIsSet q = true := by
  have hset := (h.bits q).mpr ⟨r, hr⟩
  obtain ⟨-, hhdr, -, hall⟩ | ⟨-, hhdr | hhdr, -⟩ := hdr.release_cases range
  · have hout : ¬ range.Contains q :=
      fun hq => hgen ((hall q hq).2.symm.trans (h.stamps r q hr))
    rw [hhdr, (QueueHeader.foldl_clearBit _ hdr).1, hset]
    simp [range.mem_range', hout]
  · rw [hhdr]
    exact hset
  · rw [hhdr]
    exact hset

end

section

variable {s : QueueService} (h : Tracks s.header s.history)

include h

/-- A release of any kind keeps the header in step with the history. -/
theorem release (range : QueueRange) :
    Tracks (s.release range).header (s.release range).history ∧
      grants (s.release range).history = grants s.history := by
  obtain ⟨hend, hhdr, -, hall⟩ | ⟨hend, hhdr, -⟩ := s.header.release_cases range
  all_goals
    unfold QueueService.release
    generalize s.header.release range = ended at hend hhdr
    obtain ⟨how, hdr⟩ := ended
  · cases hend
    cases hhdr
    exact ⟨h.free hall, grants_freed⟩
  · have hkept : Tracks hdr s.history := by
      rcases hhdr with rfl | rfl
      · exact h
      · exact h.countStale
    cases how with
    | freed => exact absurd rfl hend
    | empty | outOfRange | fromFuture | stale => exact ⟨hkept, rfl⟩

/-- So does a claim, which adds one grant at most. -/
theorem claim (count : Nat) (hroom : (grants s.history).length + 1 < 2 ^ 64) :
    Tracks (s.claim count).2.header (s.claim count).2.history ∧
      (grants (s.claim count).2.history).length ≤ (grants s.history).length + 1 := by
  unfold QueueService.claim
  obtain ⟨lo, hfree, -, hclaim⟩ | ⟨-, e, hclaim⟩ := s.header.claim_cases count
  · rw [hclaim]
    refine ⟨h.grant hfree hroom, ?_⟩
    rw [grants_granted, length_append]
    exact Nat.le_refl _
  · rw [hclaim]
    exact ⟨h, Nat.le_succ _⟩

/-- A message keeps the header in step with the history; only claims add grants. -/
theorem handle (message : QueueMessage)
    (hroom : (grants s.history).length + (if message.isClaim then 1 else 0) < 2 ^ 64) :
    Tracks (s.handle message).header (s.handle message).history ∧
      (grants (s.handle message).history).length ≤
        (grants s.history).length + if message.isClaim then 1 else 0 := by
  cases message with
  | claim active parsed sent =>
    have hkept : Tracks s.header s.history ∧
        (grants s.history).length ≤ (grants s.history).length + 1 := ⟨h, Nat.le_succ _⟩
    unfold QueueService.handle QueueService.onQueueClaimThunk
    dsimp only
    split
    · exact hkept
    split
    · exact hkept
    rename_i req
    split
    · exact hkept
    obtain ⟨hnext, hlength⟩ := h.claim req.count hroom
    generalize s.claim req.count = answer at hnext hlength
    obtain ⟨reply, s'⟩ := answer
    cases reply with
    | error e => exact ⟨hnext, hlength⟩
    | ok r =>
      cases sent with
      | true => exact ⟨hnext, hlength⟩
      | false =>
        -- The reply could not be sent and the claim is rolled back.
        obtain ⟨hback, hgrants⟩ := hnext.release r
        exact ⟨hback, (congrArg length hgrants).le.trans hlength⟩
  | release active parsed =>
    unfold QueueService.handle QueueService.onQueueReleaseThunk
    dsimp only
    split
    · exact ⟨h, Nat.le_add_right _ _⟩
    split
    · exact ⟨h, Nat.le_add_right _ _⟩
    rename_i req
    split
    · exact ⟨h, Nat.le_add_right _ _⟩
    · obtain ⟨hback, hgrants⟩ := h.release req.range
      exact ⟨hback, (congrArg length hgrants).le⟩

/-- In every run of fewer than `2 ^ 64` claims the header follows the history. -/
theorem run (messages : List QueueMessage)
    (hroom : (grants s.history).length + messages.countP QueueMessage.isClaim < 2 ^ 64) :
    Tracks (s.run messages).header (s.run messages).history := by
  induction messages generalizing s with
  | nil => exact h
  | cons message rest ih =>
    rw [countP_cons] at hroom
    obtain ⟨hnext, hlength⟩ := h.handle message (by omega)
    exact ih hnext (by omega)

end

end Tracks

/-- **Exclusive ownership of queues.**  After any messages with fewer than `2 ^ 64` claims among
them: a queue's bit is set exactly when the queue is outstanding under some grant; no queue is
outstanding under two grants; a release frees its range exactly if all its queues are
outstanding under the generation it names, and one that names another generation leaves a queue
taken; and a claim succeeds exactly when there is a free run of its length, and gets the lowest
one. -/
theorem queue_ownership (totalQueues : Nat) (bounded : totalQueues ≤ kMaxAllocatorQueues)
    (messages : List QueueMessage) (hclaims : messages.countP QueueMessage.isClaim < 2 ^ 64) :
    let s := (create totalQueues bounded).run messages
    (∀ q, s.header.bitIsSet q = true ↔ ∃ r, Outstanding s.history r q) ∧
    ((grants s.history).Pairwise fun r r' =>
      ∀ q, ¬ (Outstanding s.history r q ∧ Outstanding s.history r' q)) ∧
    (∀ range, (s.header.release range).1 = .freed ↔ range.lo < range.hi ∧
      ∀ q, range.Contains q → ∃ r, r.generation = range.generation ∧ Outstanding s.history r q) ∧
    (∀ range r q, Outstanding s.history r q → range.generation ≠ r.generation →
      (s.header.release range).2.bitIsSet q = true) ∧
    (∀ count, ((∃ r, (s.header.claim count).1 = .ok r) ↔ ∃ lo, s.header.FreeRun lo count) ∧
      ∀ r, (s.header.claim count).1 = .ok r → r.hi = r.lo + count ∧
        s.header.FreeRun r.lo count ∧ ∀ lo, s.header.FreeRun lo count → r.lo ≤ lo) := by
  intro s
  have h : Tracks s.header s.history :=
    (Tracks.init totalQueues bounded).run messages (by
      change 0 + _ < _
      rwa [Nat.zero_add])
  exact ⟨h.bits, h.disjoint, h.release_freed_iff, h.release_other, s.header.claim_first_fit⟩

/-- Two claims, a release of part of the first range, a repeat of it, and a release of the
second range under the wrong generation. -/
def sampleQueueMessages : List QueueMessage :=
  [.claim true (some ⟨1, 2⟩) true, .claim true (some ⟨1, 1⟩) true,
    .release true (some ⟨1, ⟨0, 1, 1⟩⟩), .release true (some ⟨1, ⟨0, 1, 1⟩⟩),
    .release true (some ⟨1, ⟨2, 3, 1⟩⟩)]

/-- Two of the three granted queues are still owned. -/
theorem queue_ownership_four :
    ((create 4 (by decide)).run sampleQueueMessages).history =
      [.granted ⟨0, 2, 1⟩, .granted ⟨2, 3, 2⟩, .freed ⟨0, 1, 1⟩] ∧
    ∀ q, ((create 4 (by decide)).run sampleQueueMessages).header.bitIsSet q = true ↔
      ∃ r, Outstanding [.granted ⟨0, 2, 1⟩, .granted ⟨2, 3, 2⟩, .freed ⟨0, 1, 1⟩] r q := by
  have hhistory : ((create 4 (by decide)).run sampleQueueMessages).history =
      [.granted ⟨0, 2, 1⟩, .granted ⟨2, 3, 2⟩, .freed ⟨0, 1, 1⟩] := by
    decide +kernel
  refine ⟨hhistory, fun q => ?_⟩
  rw [← hhistory]
  exact (queue_ownership 4 (by decide) sampleQueueMessages (by decide)).1 q

end Eph.Dpdk
