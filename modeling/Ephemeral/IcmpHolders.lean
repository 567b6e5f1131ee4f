import Ephemeral.IcmpDirectory

/-!
# Who holds a slot of the ICMP directory

As long as `unregister` only frees slots whose registration has returned, the records agree
with the memory: a slot is free exactly if nobody holds it, whoever holds it has brought it
as far as its call has got, and a call that still runs holds the slot it works on.  The
condition is needed: `unregister` loads `claimed` and stores `Free` in two steps, and between
them the slot may have been freed by another and claimed again.
-/

namespace Eph.Dpdk

open Interleave RegisterPoint Directory

variable {e : IcmpDirectoryEntry} {p : RegisterPoint}

/-- A call that is to be made. -/
inductive IcmpRequest
  | registerTarget (t : IcmpTarget)
  | unregister (slotIdx : Nat)
  | lookup (k : IcmpKey)
  | isSlotAlive (slotIdx : Nat) (expectedGen : UInt32)
  deriving DecidableEq

/-- The call at its beginning. -/
def IcmpRequest.begin : IcmpRequest → IcmpCall
  | .registerTarget t => .registerTarget t .start
  | .unregister slotIdx => .unregister slotIdx .start
  | .lookup k => .lookup k .start
  | .isSlotAlive slotIdx expectedGen => .isSlotAlive slotIdx expectedGen .start

namespace IcmpDirectory

variable {ι : Type}

/-- A new directory and the calls that will be made on it. -/
def opening (requests : ι → IcmpRequest) : Calls ι where
  shared := .init
  point := fun i => (requests i).begin

/-- The slot that a call of `unregister` is about to free. -/
def unregisters : IcmpCall → Option Nat
  | .unregister slotIdx .release => some slotIdx
  | _ => none

/-- A call of `register_target` that returned a slot. -/
def hasReturned : IcmpCall → Bool
  | .registerTarget _ (.registered _) => true
  | _ => false

/-- If the step is `unregister` freeing a slot, the call that holds the slot has returned. -/
def Returned (c : Calls ι) (event : ι × Unit) : Prop :=
  ∀ k ∈ unregisters (c.point event.1), ∀ i ∈ c.shared.holder k, hasReturned (c.point i) = true

instance (c : Calls ι) (event : ι × Unit) : Decidable (Returned c event) :=
  inferInstanceAs (Decidable (∀ _ ∈ _, _))

/-- The records about slot `k` are right. -/
structure HeldAt (maxEntries : Nat) (c : Calls ι) (k : Nat) : Prop where
  inside : ∀ i, c.shared.holder k = some i → k < maxEntries
  free_iff : (c.shared.entries k).claimed = .free ↔ c.shared.holder k = none
  holds : ∀ i, c.shared.holder k = some i → ∃ t p, c.point i = .registerTarget t p ∧
    p.slot = some k ∧ p.Fits (c.shared.entries k) t
  works : ∀ i t p, c.point i = .registerTarget t p → p.working = some k →
    c.shared.holder k = some i
  tries : ∀ i t, c.point i = .registerTarget t (.claim k) → k < maxEntries

/-- The records are right. -/
def Held (maxEntries : Nat) (c : Calls ι) : Prop := ∀ k, HeldAt maxEntries c k

variable {maxEntries k : Nat} {c c' : Calls ι} {i : ι}

theorem held_opening (requests : ι → IcmpRequest) : Held maxEntries (opening requests) := by
  intro k
  -- no call stands anywhere but at its beginning
  have hbegin : ∀ i t p, (opening requests).point i = .registerTarget t p → p = .start := by
    intro i t p hpoint
    have hcall : (requests i).begin = .registerTarget t p := hpoint
    cases hr : requests i with
    | registerTarget t' =>
      rw [hr] at hcall
      cases hcall
      rfl
    | _ =>
      rw [hr] at hcall
      cases hcall
  refine ⟨nofun, ⟨fun _ => rfl, fun _ => rfl⟩, nofun, ?_, ?_⟩
  · intro i t p hpoint hworking
    rw [hbegin i t p hpoint] at hworking
    cases hworking
  · intro i t hpoint
    cases hbegin i t _ hpoint

/-- A step that has nothing to do with the slot, but for its generation. -/
theorem HeldAt.frame (h : HeldAt maxEntries c k) {g : UInt32}
    (hentries : c'.shared.entries k = { c.shared.entries k with generation := g })
    (hholder : c'.shared.holder k = c.shared.holder k)
    (hothers : ∀ j, j ≠ i → c'.point j = c.point j)
    (hbefore : c.shared.holder k ≠ some i)
    (hafter : ∀ t p, c'.point i = .registerTarget t p →
      p.working ≠ some k ∧ (p = .claim k → k < maxEntries)) : HeldAt maxEntries c' k := by
  constructor
  · rw [hholder]
    exact h.inside
  · rw [hholder, hentries]
    exact h.free_iff
  · intro j hj
    rw [hholder] at hj
    obtain ⟨t, p, hpoint, hslot, hfits⟩ := h.holds j hj
    have hne : j ≠ i := by
      rintro rfl
      exact hbefore hj
    exact ⟨t, p, by rw [hothers j hne, hpoint], hslot, by rw [hentries]; exact hfits.generation g⟩
  · intro j t p hpoint hworking
    rw [hholder]
    have hne : j ≠ i := by
      rintro rfl
      exact (hafter t p hpoint).1 hworking
    rw [hothers j hne] at hpoint
    exact h.works j t p hpoint hworking
  · intro j t hpoint
    by_cases hne : j = i
    · rw [hne] at hpoint
      exact (hafter t _ hpoint).2 rfl
    · rw [hothers j hne] at hpoint
      exact h.tries j t hpoint

variable {t : IcmpTarget}

/-- A call works on a slot that nobody else holds. -/
theorem HeldAt.kept (h : HeldAt maxEntries c k) (hsole : ∀ j, c.shared.holder k = some j → j = i)
    (hlt : k < maxEntries) (hholder : c'.shared.holder k = some i)
    (hothers : ∀ j, j ≠ i → c'.point j = c.point j) (hpoint : c'.point i = .registerTarget t p)
    (hslot : p.slot = some k) (hfits : p.Fits (c'.shared.entries k) t) :
    HeldAt maxEntries c' k := by
  constructor
  · exact fun _ _ => hlt
  · rw [hholder]
    exact ⟨fun hfree => absurd hfree hfits.not_free, nofun⟩
  · intro j hj
    rw [hholder] at hj
    cases hj
    exact ⟨t, p, hpoint, hslot, hfits⟩
  · intro j t' p' hpoint' hworking
    by_cases hne : j = i
    · rw [hne, hholder]
    · rw [hothers j hne] at hpoint'
      exact absurd (hsole j (h.works j t' p' hpoint' hworking)) hne
  · exact fun _ _ _ => hlt

/-- The call that holds the slot goes on with it. -/
theorem HeldAt.stay (h : HeldAt maxEntries c k) (hmine : c.shared.holder k = some i)
    (hholder : c'.shared.holder k = c.shared.holder k)
    (hothers : ∀ j, j ≠ i → c'.point j = c.point j) (hpoint : c'.point i = .registerTarget t p)
    (hslot : p.slot = some k) (hfits : p.Fits (c'.shared.entries k) t) : HeldAt maxEntries c' k :=
  h.kept (fun _ hj => Option.some.inj (hj.symm.trans hmine)) (h.inside i hmine)
    (hholder.trans hmine) hothers hpoint hslot hfits

/-- A slot is freed that no running call works on afterwards. -/
theorem HeldAt.freed (hfree : (c'.shared.entries k).claimed = .free)
    (hholder : c'.shared.holder k = none)
    (htries : ∀ j t, c'.point j = .registerTarget t (.claim k) → k < maxEntries)
    (hworks : ∀ j t p, c'.point j = .registerTarget t p → p.working ≠ some k) :
    HeldAt maxEntries c' k where
  inside j hj := by
    rw [hholder] at hj
    cases hj
  free_iff := ⟨fun _ => hholder, fun _ => hfree⟩
  holds j hj := by
    rw [hholder] at hj
    cases hj
  works j t p hpoint hworking := absurd hworking (hworks j t p hpoint)
  tries := htries

/-- The slot a call of `register_target` stands in after a write carries what it has written. -/
theorem wrote_written {j : Nat} {w u : Word} (h : (RegisterPoint.write j w).Fits e t)
    (hu : u = w ∨ u.index < w.index) : (e.write t w).Wrote t u := by
  rcases hu with rfl | hlt
  · cases u <;> rfl
  · exact e.wrote_write t (h.2 u hlt) w

/-- A published slot is published for its target at every later point of the call. -/
theorem fits_shown (hp : p.shown = some k) : p.Fits e t ↔ e.claimed = .published ∧ e.Carries t := by
  cases p <;> simp_all [shown, RegisterPoint.Fits]

section

variable (h : Held maxEntries c)

include h

/-- A step of `register_target` keeps the records right. -/
theorem Held.register {p q : RegisterPoint} {a : Access} (hpoint : c.point i = .registerTarget t p)
    (hstep : RegisterPoint.Stepped maxEntries c.shared.entries t p a q) (hmoved : Moved c c' i a)
    (hpoint' : c'.point i = .registerTarget t q) : Held maxEntries c' := by
  obtain ⟨hshared, hothers⟩ := hmoved
  intro k
  -- what the call has made of the slot, if it holds it
  have hheld : c.shared.holder k = some i → p.slot = some k ∧ p.Fits (c.shared.entries k) t := by
    intro hmine
    obtain ⟨t', p', hp', hslot, hfits⟩ := (h k).holds i hmine
    rw [hpoint] at hp'
    cases hp'
    exact ⟨hslot, hfits⟩
  -- a slot that the step does not touch and that the call does not hold
  have hframe : a.slot ≠ some k → c.shared.holder k ≠ some i → q.working ≠ some k →
      (∀ m, q = .claim m → m < maxEntries) → HeldAt maxEntries c' k := by
    intro haccess hbefore hafter hlt
    obtain ⟨hentries, hholder, -⟩ := c.shared.perform_off i haccess
    refine (h k).frame (by rw [hshared, hentries]) (by rw [hshared, hholder]) hothers hbefore ?_
    intro t' q' hq'
    rw [hpoint'] at hq'
    cases hq'
    exact ⟨hafter, hlt k⟩
  -- a slot other than the one the call stands in
  have hother : ∀ j, j ≠ k → a.slot = some j → p.slot = some j ∨ p.slot = none →
      q.working = some j ∨ q.working = none → (∀ m, q ≠ .claim m) → HeldAt maxEntries c' k := by
    intro j hjk haccess hbefore hafter hclaim
    have hne : some j ≠ some k := fun hs => hjk (Option.some.inj hs)
    refine hframe (by rw [haccess]; exact hne) (fun hmine => ?_) (fun hworking => ?_)
      fun m hm => absurd hm (hclaim m)
    · rcases hbefore with hp | hp
      · exact hne (hp.symm.trans (hheld hmine).1)
      · exact (nomatch hp.symm.trans (hheld hmine).1)
    · rcases hafter with hq | hq
      · exact hne (hq.symm.trans hworking)
      · exact (nomatch hq.symm.trans hworking)
  cases hstep with
  | outside hp hq hlt =>
    refine hframe nofun (fun hmine => ?_) (fun hworking => ?_) hlt
    · exact (nomatch hp.symm.trans (hheld hmine).1)
    · exact (nomatch hq.symm.trans (slot_of_working hworking))
  | claims j hfree =>
    by_cases hjk : j = k
    · subst hjk
      refine (h j).kept (by simp [(h j).free_iff.mp hfree]) ((h j).tries i t hpoint) ?_ hothers
        hpoint' rfl ?_
      · rw [hshared, perform_claim_holder]
      · rw [hshared, perform_claim_entries]
        exact ⟨rfl, fun v hv => absurd hv (Nat.not_lt_zero _)⟩
    · exact hother j hjk rfl (.inr rfl) (.inl rfl) nofun
  | @writes j w v hv =>
    by_cases hjk : j = k
    · subst hjk
      have hmine := (h j).works i t _ hpoint rfl
      refine (h j).stay hmine (by rw [hshared, perform_write_holder]) hothers hpoint' rfl ?_
      rw [hshared, perform_write_entries]
      have hfits := (hheld hmine).2
      refine ⟨by rw [IcmpDirectoryEntry.write_claimed]; exact hfits.1,
        fun u hu => wrote_written hfits ?_⟩
      cases w <;> cases hv <;> cases u <;> first | contradiction | (simp [Word.index] at hu ⊢)
    · exact hother j hjk rfl (.inl rfl) (.inl rfl) nofun
  | @writesLast j w hw =>
    by_cases hjk : j = k
    · subst hjk
      have hmine := (h j).works i t _ hpoint rfl
      refine (h j).stay hmine (by rw [hshared, perform_write_holder]) hothers hpoint' rfl ?_
      rw [hshared, perform_write_entries]
      have hfits := (hheld hmine).2
      refine ⟨by rw [IcmpDirectoryEntry.write_claimed]; exact hfits.1,
        IcmpDirectoryEntry.carries_of_wrote fun u => wrote_written hfits ?_⟩
      cases w <;> cases hw
      cases u <;> simp [Word.index]
    · exact hother j hjk rfl (.inl rfl) (.inl rfl) nofun
  | publishes j =>
    have hshown := scanFrom_shown maxEntries j 0
    by_cases hjk : j = k
    · subst hjk
      have hmine := (h j).works i t _ hpoint rfl
      refine (h j).stay hmine (by rw [hshared, perform_publish_holder]) hothers hpoint'
        (slot_of_shown hshown) ?_
      rw [fits_shown hshown, hshared, perform_publish_entries]
      exact ⟨rfl, (hheld hmine).2.2⟩
    · exact hother j hjk rfl (.inl rfl) (working_of_shown hshown) fun m hm =>
        shown_ne_claim hshown hm
  | scans j hp hq hover =>
    by_cases hmine : c.shared.holder k = some i
    · obtain ⟨hslot, hfits⟩ := hheld hmine
      obtain rfl : j = k := Option.some.inj ((slot_of_shown hp).symm.trans hslot)
      refine (h j).stay hmine (by rw [hshared]; rfl) hothers hpoint' (slot_of_shown hq) ?_
      rw [fits_shown hp] at hfits
      rw [fits_shown hq, hshared]
      exact hfits
    · refine hframe nofun hmine (fun hworking => ?_) fun m hm =>
        (shown_ne_claim hq hm).elim
      rcases working_of_shown hp with hpw | hpw
      · obtain rfl : j = k := Option.some.inj ((slot_of_shown hq).symm.trans
          (slot_of_working hworking))
        exact hmine ((h j).works i t p hpoint hpw)
      · exact (nomatch (hover hpw).symm.trans hworking)
  | yields j =>
    by_cases hjk : j = k
    · subst hjk
      have hmine := (h j).works i t _ hpoint rfl
      refine HeldAt.freed ?_ ?_ (fun _ _ _ => (h j).inside i hmine) (fun m t' p' hm hworking => ?_)
      · rw [hshared, perform_release_entries]
      · rw [hshared, perform_release_holder]
      by_cases hmi : m = i
      · rw [hmi, hpoint'] at hm
        cases hm
        cases hworking
      · rw [hothers m hmi] at hm
        have hother := (h j).works m t' p' hm hworking
        exact hmi (Option.some.inj (hother.symm.trans hmine))
    · exact hother j hjk rfl (.inl rfl) (.inr rfl) nofun

/-- A step of another call keeps the records of the slots that it does not free. -/
theorem Held.aside (hpoint : ∀ t p, c.point i ≠ .registerTarget t p)
    (hpoint' : ∀ t p, c'.point i ≠ .registerTarget t p) {a : Access} (hmoved : Moved c c' i a)
    (ha : a.slot ≠ some k ∨ a = .bump k) : HeldAt maxEntries c' k := by
  have hbefore : c.shared.holder k ≠ some i := by
    intro hmine
    obtain ⟨t, p, hp, -⟩ := (h k).holds i hmine
    exact hpoint t p hp
  obtain ⟨g, hentries, hholder⟩ : ∃ g, c'.shared.entries k =
      { c.shared.entries k with generation := g } ∧ c'.shared.holder k = c.shared.holder k := by
    rw [hmoved.shared]
    rcases ha with hoff | rfl
    · obtain ⟨hentries, hholder, -⟩ := c.shared.perform_off i hoff
      exact ⟨_, hentries, hholder⟩
    · exact ⟨_, c.shared.perform_bump_entries i k, congrFun (c.shared.perform_bump_holder i k) k⟩
  exact (h k).frame hentries hholder hmoved.others hbefore fun t p hp => absurd hp (hpoint' t p)

/-- `unregister` frees a slot whose registration has returned. -/
theorem Held.unregister (hpoint' : ∀ t p, c'.point i ≠ .registerTarget t p)
    (hmoved : Moved c c' i (.release k))
    (hreturned : ∀ j ∈ c.shared.holder k, hasReturned (c.point j) = true) :
    HeldAt maxEntries c' k := by
  have hothers : ∀ j t p, c'.point j = .registerTarget t p → c.point j = .registerTarget t p := by
    intro j t p hj
    have hji : j ≠ i := by
      rintro rfl
      exact hpoint' t p hj
    rwa [hmoved.others j hji] at hj
  refine HeldAt.freed ?_ ?_ (fun j t hj => (h k).tries j t (hothers j t _ hj)) ?_
  · rw [hmoved.shared, perform_release_entries]
  · rw [hmoved.shared, perform_release_holder]
  intro j t p hj hworking
  have hdone := hreturned j ((h k).works j t p (hothers j t p hj) hworking)
  rw [hothers j t p hj] at hdone
  cases p <;> simp_all [hasReturned, working]

/-- Every step keeps the records right, unless it is `unregister` freeing a slot whose
registration has not returned. -/
theorem Held.step [DecidableEq ι] {event : ι × Unit}
    (hreturned : Returned c event) : Held maxEntries (c.step (move maxEntries) event) := by
  obtain ⟨i, u⟩ := event
  obtain ⟨a, hmoved, hstep⟩ := step_moved maxEntries c i u
  generalize c.step (move maxEntries) (i, u) = c' at hmoved hstep ⊢
  unfold Returned at hreturned
  generalize hp : c.point i = call at hstep hreturned
  generalize hq : c'.point i = call' at hstep
  cases hstep with
  | registers hregister => exact h.register hp hregister hmoved hq
  | aside hcall hcall' ha =>
    refine fun k => h.aside (by rwa [hp]) (by rwa [hq]) hmoved ?_
    rcases ha with rfl | ⟨m, rfl⟩
    · exact .inl nofun
    by_cases hmk : m = k
    · exact .inr (by rw [hmk])
    · exact .inl fun hs => hmk (Option.some.inj hs)
  | frees m =>
    intro k
    by_cases hmk : m = k
    · subst hmk
      exact h.unregister (by simp [hq]) hmoved (hreturned m rfl)
    · exact h.aside (by simp [hp]) (by simp [hq]) hmoved (.inl fun hs => hmk (Option.some.inj hs))

end

end IcmpDirectory

end Eph.Dpdk
