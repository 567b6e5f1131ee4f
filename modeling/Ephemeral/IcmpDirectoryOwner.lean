import Ephemeral.IcmpHolders

/-!
# At most one owner for a target

Two calls that register the same target may both pass the first check.  Each then claims a
slot, publishes it, and scans the table; the one that finds the target in a lower slot gives
way.  The scan of the call in the higher slot must therefore come to the lower slot after that
was published.  It may also come too early: the lower slot may still be in progress, or not
yet claimed.  Then the call in the lower slot finds the higher one, relies on the other to give
way, and both keep their slots.

If no call publishes a slot that the scan of such a competitor has already passed
(`Unpassed`), the competitor is always still on its way to the lower slot, and at most one of
them ends with a slot.
-/

namespace Eph.Dpdk

open Interleave RegisterPoint

variable {key : IcmpKey} {p q : RegisterPoint} {t : IcmpTarget}

namespace IcmpDirectory

variable {ι : Type}

/-- The key and the slot that a call has published. -/
def showing : IcmpCall → Option (IcmpKey × Nat)
  | .registerTarget t p => p.shown.map (t.key, ·)
  | _ => none

/-- The key and the slot that a call is about to publish. -/
def publishing : IcmpCall → Option (IcmpKey × Nat)
  | .registerTarget t (.publish i) => some (t.key, i)
  | _ => none

/-- The scan of a call has passed slot `a`. -/
def past : IcmpCall → Nat → Bool
  | .registerTarget _ (.scan _ j), a => a < j
  | .registerTarget _ (.scanCompare _ j _), a => a < j
  | .registerTarget _ (.registered _), _ => true
  | _, _ => false

/-- If the step publishes a slot, no call that holds a higher slot for the same key has passed the
slot in its scan. -/
def Unpassed (c : Calls ι) (event : ι × Unit) : Prop :=
  ∀ mine ∈ publishing (c.point event.1), ∀ i, ∀ theirs ∈ showing (c.point i),
    theirs.1 = mine.1 → mine.2 < theirs.2 → c.shared.holder theirs.2 = some i →
      past (c.point i) mine.2 = false

instance [DecidableEq ι] [Fintype ι] (c : Calls ι) (event : ι × Unit) :
    Decidable (Unpassed c event) :=
  inferInstanceAs (Decidable (∀ _ ∈ _, _))

/-- Of two calls that have published the same key, the one in the higher slot has not passed the
lower one. -/
def Ordered (c : Calls ι) : Prop :=
  ∀ i j key a b, showing (c.point i) = some (key, a) → showing (c.point j) = some (key, b) →
    c.shared.holder a = some i → c.shared.holder b = some j → a < b →
      past (c.point j) a = false

theorem showing_eq {call : IcmpCall} {a : Nat} (h : showing call = some (key, a)) :
    ∃ t p, call = .registerTarget t p ∧ t.key = key ∧ p.shown = some a := by
  cases call with
  | registerTarget t p =>
    have hmap : p.shown.map (t.key, ·) = some (key, a) := h
    obtain ⟨s, hs, hpair⟩ := Option.map_eq_some_iff.mp hmap
    cases hpair
    exact ⟨t, p, rfl, rfl, hs⟩
  | _ => cases h

/-- A slot that somebody holds and shows is published for the key. -/
theorem Held.published {maxEntries : Nat} {c : Calls ι} (h : Held maxEntries c) {i : ι} {a : Nat}
    (hshow : showing (c.point i) = some (key, a)) (hholder : c.shared.holder a = some i) :
    a < maxEntries ∧ (c.shared.entries a).claimed = .published ∧
      (c.shared.entries a).key = key := by
  obtain ⟨t, p, hpoint, rfl, hshown⟩ := showing_eq hshow
  obtain ⟨t', p', hpoint', -, hfits⟩ := (h a).holds i hholder
  rw [hpoint] at hpoint'
  cases hpoint'
  rw [fits_shown hshown] at hfits
  exact ⟨(h a).inside i hholder, hfits.1, hfits.2.1⟩

section Scan

variable {maxEntries : Nat} {entries : Nat → IcmpDirectoryEntry} {t : IcmpTarget} {a b : Nat}

/-- A scan that goes on with the slot after one below `a` has not passed `a`. -/
theorem past_scanFrom (hab : a < b) (hb : b < maxEntries) {j : Nat} (hj : j ≤ a) :
    past (.registerTarget t (scanFrom maxEntries b j)) a = false := by
  have hskip : skipOwn b j = j := by
    unfold skipOwn
    split
    · omega
    · rfl
  unfold scanFrom
  rw [hskip, if_pos (by omega)]
  simpa [past] using hj

/-- A scan does not pass a slot that is published for its own key. -/
theorem past_next (hshown : p.shown = some b) (hab : a < b)
    (hb : b < maxEntries) (hpublished : (entries a).claimed = .published)
    (hkey : (entries a).key = t.key) (hnot : past (.registerTarget t p) a = false) :
    past (.registerTarget t (next maxEntries entries t p).2) a = false := by
  cases p with
  | scan i j =>
    cases hshown
    have hj : j ≤ a := by simpa [past] using hnot
    simp only [next]
    split
    · exact hnot
    rename_i hopen
    have hne : j ≠ a := by
      rintro rfl
      exact hopen hpublished
    exact past_scanFrom hab hb (by omega)
  | scanCompare i j w =>
    cases hshown
    have hj : j ≤ a := by simpa [past] using hnot
    simp only [next]
    split
    · cases w.afterCompare with
      | some v => exact hnot
      | none =>
        rw [if_pos (show j < b by omega)]
        rfl
    · rename_i hdiffers
      have hne : j ≠ a := by
        rintro rfl
        apply hdiffers
        rw [← hkey]
        cases w <;> simp [IcmpDirectoryEntry.agrees, IcmpDirectoryEntry.key]
      exact past_scanFrom hab hb (by omega)
  | registered i => cases hnot
  | yield i => rfl
  | _ => cases hshown

end Scan

section Runs

variable {maxEntries : Nat} {c c' : Calls ι} {i : ι}

/-- A step of a call that does not register. -/
theorem Ordered.aside (h : Ordered c) (hpoint' : showing (c'.point i) = none)
    (hothers : ∀ j, j ≠ i → c'.point j = c.point j)
    (hholder : ∀ k j, c'.shared.holder k = some j → c.shared.holder k = some j) : Ordered c' := by
  intro j m key a b hj hm ha hb hab
  have hne : ∀ n x, showing (c'.point n) = some x → n ≠ i := by
    rintro n x hn rfl
    rw [hpoint'] at hn
    cases hn
  have hsame := hothers m (hne m _ hm)
  rw [hothers j (hne j _ hj)] at hj
  rw [hsame] at hm ⊢
  exact h j m key a b hj hm (hholder a j ha) (hholder b m hb) hab

section

variable {entries : Nat → IcmpDirectoryEntry} {a : Access}
  (hstep : RegisterPoint.Stepped maxEntries entries t p a q) {s : Nat}

include hstep

/-- What a call shows after a step it showed before, unless the step publishes it. -/
theorem showing_before (hq : q.shown = some s) : p.shown = some s ∨ p = .publish s := by
  cases hstep with
  | outside _ hq' _ => exact (nomatch hq'.symm.trans (slot_of_shown hq))
  | publishes j =>
    rw [scanFrom_shown] at hq
    cases hq
    exact .inr rfl
  | scans j hp hq' _ => exact .inl (hp.trans (hq'.symm.trans hq))
  | _ => cases hq

/-- A call that shows a slot it holds after a step held it before. -/
theorem holder_before (hpoint' : c'.point i = .registerTarget t q) (hmoved : Moved c c' i a) {j : ι}
    (hshow : showing (c'.point j) = some (key, s)) (hholder : c'.shared.holder s = some j) :
    c.shared.holder s = some j := by
  rw [hmoved.shared] at hholder
  by_cases hslot : a.slot = some s
  · cases hstep with
    | claims m hfree =>
      cases hslot
      rw [Directory.perform_claim_holder] at hholder
      cases hholder
      rw [hpoint'] at hshow
      cases hshow
    | yields m =>
      cases hslot
      rw [Directory.perform_release_holder] at hholder
      cases hholder
    | _ => exact hholder
  · rwa [(c.shared.perform_off i hslot).2.1] at hholder

end

/-- A step of `register_target`. -/
theorem Ordered.register (h : Ordered c) (hheld : Held maxEntries c) {access : Access}
    (hpoint : c.point i = .registerTarget t p)
    (hstep : RegisterPoint.Stepped maxEntries c.shared.entries t p access q)
    (hnext : q = (next maxEntries c.shared.entries t p).2)
    (hunpassed : ∀ s, p = .publish s → ∀ j b, showing (c.point j) = some (t.key, b) → s < b →
      c.shared.holder b = some j → past (c.point j) s = false)
    (hmoved : Moved c c' i access) (hpoint' : c'.point i = .registerTarget t q) : Ordered c' := by
  have hothers := hmoved.others
  intro j m key a b hj hm ha hb hab
  have ha' := holder_before hstep hpoint' hmoved hj ha
  have hb' := holder_before hstep hpoint' hmoved hm hb
  -- what the moving call shows
  have hmine : ∀ s, showing (c'.point i) = some (key, s) → t.key = key ∧ q.shown = some s := by
    intro s hs
    obtain ⟨t', q', hcall, hkey, hshown⟩ := showing_eq hs
    rw [hpoint'] at hcall
    cases hcall
    exact ⟨hkey, hshown⟩
  have hbefore : ∀ s, t.key = key → p.shown = some s → showing (c.point i) = some (key, s) := by
    intro s hkey hs
    rw [hpoint, showing, hs, hkey]
    rfl
  by_cases hji : j = i
  · subst hji
    obtain ⟨hkey, hqa⟩ := hmine a hj
    by_cases hmj : m = j
    · rw [hmj] at hm
      cases hj.symm.trans hm
      exact absurd hab (Nat.lt_irrefl _)
    rw [hothers m hmj] at hm ⊢
    rcases showing_before hstep hqa with hpa | hpub
    · exact h j m key a b (hbefore a hkey hpa) hm ha' hb' hab
    · exact hunpassed a hpub m b (by rw [hkey]; exact hm) hab hb'
  · rw [hothers j hji] at hj
    by_cases hmi : m = i
    · subst hmi
      obtain ⟨hkey, hqb⟩ := hmine b hm
      obtain ⟨-, hpublished, hakey⟩ := hheld.published hj ha'
      have hbmax := (hheld b).inside m hb'
      rw [hpoint', hnext]
      rcases showing_before hstep hqb with hpb | hpub
      · refine past_next hpb hab hbmax hpublished (hakey.trans hkey.symm) ?_
        rw [← hpoint]
        exact h j m key a b hj (hbefore b hkey hpb) ha' hb' hab
      · subst hpub
        exact past_scanFrom hab hbmax (Nat.zero_le a)
    · rw [hothers m hmi] at hm ⊢
      exact h j m key a b hj hm ha' hb' hab

variable [DecidableEq ι]

/-- Every step keeps the order, unless it publishes a slot that a competitor has passed. -/
theorem Ordered.step (h : Ordered c) (hheld : Held maxEntries c) {event : ι × Unit}
    (hunpassed : Unpassed c event) : Ordered (c.step (move maxEntries) event) := by
  obtain ⟨i, u⟩ := event
  obtain ⟨a, hmoved, hstep⟩ := step_moved maxEntries c i u
  have hself : (c.step (move maxEntries) (i, u)).point i =
      ((c.point i).next maxEntries c.shared.entries).2 := c.step_point_self i u
  generalize c.step (move maxEntries) (i, u) = c' at hmoved hstep hself ⊢
  unfold Unpassed at hunpassed
  generalize hp : c.point i = call at hstep hself hunpassed
  generalize hq : c'.point i = call' at hstep hself
  cases hstep with
  | @registers t p a q hregister =>
    obtain ⟨-, hnext⟩ := IcmpCall.registerTarget.inj hself
    refine h.register hheld hp hregister hnext (fun s hs j b hj hsb hb => ?_) hmoved hq
    exact hunpassed (t.key, s) (by rw [hs]; rfl) j (t.key, b) hj rfl hsb hb
  | aside hcall hcall' ha =>
    have hshow : showing (c'.point i) = none := by
      rw [hq]
      cases call' with
      | registerTarget t q => exact absurd rfl (hcall' t q)
      | _ => rfl
    refine h.aside hshow hmoved.others fun k j hk => ?_
    rw [hmoved.shared] at hk
    rcases ha with rfl | ⟨m, rfl⟩ <;> exact hk
  | frees m =>
    refine h.aside (by rw [hq]; rfl) hmoved.others fun k j hk => ?_
    rw [hmoved.shared] at hk
    by_cases hmk : m = k
    · subst hmk
      exact (nomatch hk.symm.trans (c.shared.perform_release_holder i m))
    · have hoff : (Access.release m).slot ≠ some k := fun hs => hmk (Option.some.inj hs)
      exact (c.shared.perform_off i hoff).2.1.symm.trans hk

end Runs

/-- The call has returned slot `a` for the key, and the slot has not been unregistered since. -/
def Registered (c : Calls ι) (i : ι) (key : IcmpKey) (a : Nat) : Prop :=
  (∃ ownerProc, c.point i = .registerTarget ⟨key, ownerProc⟩ (.registered a)) ∧
    c.shared.holder a = some i

/-- No registration or unregistration is in progress in the call.  The other calls change nothing,
and may go on. -/
def atRest : IcmpCall → Bool
  | .registerTarget _ .start | .registerTarget _ (.registered _)
  | .registerTarget _ (.refused _) => true
  | .registerTarget _ _ => false
  | .unregister _ .start | .unregister _ .done => true
  | .unregister _ _ => false
  | _ => true

/-- A slot that is held by a call at rest was returned by it. -/
theorem Held.registered {maxEntries : Nat} {c : Calls ι} (h : Held maxEntries c) {i : ι} {a : Nat}
    (hholder : c.shared.holder a = some i) (hrest : atRest (c.point i) = true) :
    Registered c i (c.shared.entries a).key a := by
  obtain ⟨t, p, hpoint, hslot, hfits⟩ := (h a).holds i hholder
  rw [hpoint] at hrest
  cases p with
  | registered s =>
    cases hslot
    obtain ⟨key, ownerProc⟩ := t
    have hkey : (c.shared.entries a).key = key := hfits.2.1
    exact ⟨⟨ownerProc, by rw [hkey]; exact hpoint⟩, hholder⟩
  | start | refused error => cases hslot
  | _ => cases hrest

/-- In an orderly directory at most one call is registered for a key. -/
theorem Ordered.sole {c : Calls ι} (h : Ordered c) {i j : ι} {a b : Nat} (hi : Registered c i key a)
    (hj : Registered c j key b) : i = j := by
  obtain ⟨⟨oi, hpi⟩, hai⟩ := hi
  obtain ⟨⟨oj, hpj⟩, hbj⟩ := hj
  have hshowi : showing (c.point i) = some (key, a) := by
    rw [hpi]
    rfl
  have hshowj : showing (c.point j) = some (key, b) := by
    rw [hpj]
    rfl
  -- a call that has returned has passed every slot
  rcases Nat.lt_trichotomy a b with hab | hab | hab
  · have hpast := h i j key a b hshowi hshowj hai hbj hab
    rw [hpj] at hpast
    cases hpast
  · rw [hab, hbj] at hai
    exact (Option.some.inj hai).symm
  · have hpast := h j i key b a hshowj hshowi hbj hai hab
    rw [hpi] at hpast
    cases hpast

/-- **Unique owners.**  In every interleaving of calls in which `unregister` frees slots of
returned registrations only and no call publishes a slot that a competitor for the same key in a
higher slot has already passed: whenever no registration or unregistration is in progress, at
most one slot is published for a key; and at any time, at most one of the calls for a key has
returned a slot that was not unregistered since. -/
theorem icmp_directory_unique_owner [DecidableEq ι] (maxEntries : Nat)
    (requests : ι → IcmpRequest) (schedule : List (ι × Unit))
    (hok : Throughout (move maxEntries) (fun c event => Returned c event ∧ Unpassed c event)
      (opening requests) schedule)
    (c : Calls ι) (hc : c = (opening requests).run (move maxEntries) schedule) :
    ((∀ i, atRest (c.point i) = true) → ∀ a b, (c.shared.entries a).claimed = .published →
      (c.shared.entries b).claimed = .published →
      (c.shared.entries a).key = (c.shared.entries b).key → a = b) ∧
    ∀ i j key a b, Registered c i key a → Registered c j key b → i = j := by
  have hkeeps : ∀ (c : Calls ι) event, Returned c event ∧ Unpassed c event →
      Held maxEntries c ∧ Ordered c → Held maxEntries (c.step (move maxEntries) event) ∧
        Ordered (c.step (move maxEntries) event) := by
    intro c event hok hinv
    exact ⟨hinv.1.step hok.1, hinv.2.step hinv.1 hok.2⟩
  have hinv : Held maxEntries ((opening requests).run (move maxEntries) schedule) ∧
      Ordered ((opening requests).run (move maxEntries) schedule) :=
    run_keeps hkeeps ⟨held_opening requests, fun _ _ _ _ _ _ _ hholder => (nomatch hholder)⟩ hok
  rw [← hc] at hinv
  obtain ⟨hheld, hordered⟩ := hinv
  refine ⟨fun hrest a b ha hb hkey => ?_, fun i j key a b => hordered.sole⟩
  -- published slots are held, by calls that have returned
  have hof : ∀ s, (c.shared.entries s).claimed = .published →
      ∃ i, Registered c i (c.shared.entries s).key s := by
    intro s hs
    cases hholder : c.shared.holder s with
    | none =>
      rw [(hheld s).free_iff.mpr hholder] at hs
      cases hs
    | some i => exact ⟨i, hheld.registered hholder (hrest i)⟩
  obtain ⟨i, hi⟩ := hof a ha
  obtain ⟨j, hj⟩ := hof b hb
  rw [← hkey] at hj
  obtain rfl := hordered.sole hi hj
  obtain ⟨⟨_, hpi⟩, -⟩ := hi
  obtain ⟨⟨_, hpj⟩, -⟩ := hj
  rw [hpi] at hpj
  cases hpj
  rfl

/-! ## Two calls for one target -/

/-- A connection that two processes register. -/
def sharedTarget (ownerProc : UInt8) : IcmpTarget :=
  ⟨⟨⟨0x0A000001, 0x0A000002, 40000, 443⟩, 6⟩, ownerProc⟩

/-- Two calls that register it, for process 0 and for process 1. -/
def rivals : Bool → IcmpRequest
  | false => .registerTarget (sharedTarget 0)
  | true => .registerTarget (sharedTarget 1)

/-- Both calls pass the first check; the first claims and publishes slot 0, the second slot 1, and
the second gives way. -/
def orderlyRivals : List (Bool × Unit) :=
  List.replicate 3 (false, ()) ++ List.replicate 3 (true, ()) ++ List.replicate 8 (false, ()) ++
    List.replicate 16 (true, ()) ++ List.replicate 6 (false, ())

/-- One of the two gives way. -/
theorem icmp_directory_unique_owner_rivals :
    Throughout (move 2) (fun c event => Returned c event ∧ Unpassed c event) (opening rivals)
        orderlyRivals ∧
      ∀ i j key a b, Registered ((opening rivals).run (move 2) orderlyRivals) i key a →
        Registered ((opening rivals).run (move 2) orderlyRivals) j key b → i = j :=
  have hok : Throughout (move 2) (fun c event => Returned c event ∧ Unpassed c event)
      (opening rivals) orderlyRivals := by
    decide +kernel
  ⟨hok, (icmp_directory_unique_owner 2 rivals orderlyRivals hok _ rfl).2⟩

section Both

/-- The steps of the whole table. -/
abbrev tableMove : Moves Bool Unit (Directory Bool) IcmpCall := move kIcmpDirectoryMaxEntries

/-- The first call is at its second pass. -/
def bothStage1 : Calls Bool :=
  ((opening rivals).run tableMove [(false, ())]).put false
    (.registerTarget (sharedTarget 0) (claimFrom kIcmpDirectoryMaxEntries 0))

/-- It has claimed slot 0, and the second call is at its second pass. -/
def bothStage2 : Calls Bool :=
  (bothStage1.run tableMove [(false, ()), (true, ())]).put true
    (.registerTarget (sharedTarget 1) (claimFrom kIcmpDirectoryMaxEntries 0))

/-- The second call has claimed and published slot 1 and has returned. -/
def bothStage3 : Calls Bool :=
  (bothStage2.run tableMove (List.replicate 10 (true, ()))).put true
    (.registerTarget (sharedTarget 1) (.registered 1))

/-- The first call has published slot 0 and has returned. -/
def bothStage4 : Calls Bool :=
  (bothStage3.run tableMove (List.replicate 13 (false, ()))).put false
    (.registerTarget (sharedTarget 0) (.registered 0))

theorem reaches_bothStage4 : Reaches tableMove (opening rivals) bothStage4 := by
  have h1 : Reaches tableMove (opening rivals) bothStage1 :=
    (reaches_run _ _).trans (reaches_secondPass (Nat.zero_le _) (by decide +kernel) rfl)
  have h2 : Reaches tableMove bothStage1 bothStage2 :=
    (reaches_run _ _).trans (reaches_secondPass (Nat.zero_le _) (by decide +kernel) rfl)
  have h3 : Reaches tableMove bothStage2 bothStage3 :=
    (reaches_run _ _).trans (reaches_registered (j := 2) (by decide) (by decide +kernel)
      (by decide) rfl)
  have h4 : Reaches tableMove bothStage3 bothStage4 :=
    (reaches_run _ _).trans (reaches_registered (j := 2) (by decide) (by decide +kernel)
      (by decide) rfl)
  exact ((h1.trans h2).trans h3).trans h4

end Both

/-- The second call scans slot 0 while the first has claimed but not published it, and returns; the
first finds the second in a higher slot and returns as well.  No call is in progress any more,
and two slots are published for the connection, for two owners. -/
theorem icmp_directory_two_owners :
    ∃ schedule, ∃ c, c = (opening rivals).run tableMove schedule ∧
      (∀ i, atRest (c.point i) = true) ∧ (c.shared.entries 0).claimed = .published ∧
      (c.shared.entries 1).claimed = .published ∧
      (c.shared.entries 0).key = (c.shared.entries 1).key ∧
      Registered c false (sharedTarget 0).key 0 ∧ Registered c true (sharedTarget 0).key 1 := by
  obtain ⟨schedule, hrun⟩ := reaches_bothStage4
  refine ⟨schedule, bothStage4, hrun.symm, ?_, ?_, ?_, ?_, ⟨⟨0, ?_⟩, ?_⟩, ⟨⟨1, ?_⟩, ?_⟩⟩ <;>
    decide +kernel

end IcmpDirectory

end Eph.Dpdk
