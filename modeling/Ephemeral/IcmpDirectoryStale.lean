import Ephemeral.IcmpHolders

/-!
# What the generation of a slot tells

`lookup` returns a slot with its generation; whoever gets the result later asks
`is_slot_alive` whether the slot still carries that generation.  The answer is worth something
only if the slot cannot have changed hands under one generation.  It can, in three ways:

* a call of `register_target` that gives way frees its slot without a new generation;
* `unregister` increments the generation first and frees the slot afterwards, so that a
  `lookup` in between returns the generation under which the slot will be claimed again;
* `lookup` itself reads the generation some steps after it has found the slot published.

If no slot is freed while a `lookup` reads it, or under a generation that a `lookup` has
returned (`Unseen`), then a slot that is alive under the generation of a `lookup` is still the
registration that was found: the slot was never released in between.
-/

namespace Eph.Dpdk

open Interleave LookupPoint Directory

variable {key : IcmpKey} {r : LookupResult} {k k' : IcmpKey}

namespace IcmpDirectory

variable {ι : Type}

/-- The slot that a call is about to free. -/
def frees : IcmpCall → Option Nat
  | .registerTarget _ (.yield i) => some i
  | .unregister slotIdx .release => some slotIdx
  | _ => none

/-- The slot that a call of `lookup` has found published and is reading. -/
def reading : IcmpCall → Option Nat
  | .lookup _ (.compare j _) => some j
  | .lookup _ (.owner j) => some j
  | .lookup _ (.generation j _) => some j
  | _ => none

/-- What a call of `lookup` has returned. -/
def result : IcmpCall → Option LookupResult
  | .lookup _ (.found r) => some r
  | _ => none

/-- If the step frees a slot, no `lookup` is reading it and none has returned it with the
generation that it has. -/
def Unseen (c : Calls ι) (event : ι × Unit) : Prop :=
  ∀ k ∈ frees (c.point event.1), ∀ i, reading (c.point i) ≠ some k ∧
    ∀ r ∈ result (c.point i), r.slotIdx = k → r.generation ≠ (c.shared.entries k).generation

instance [Fintype ι] (c : Calls ι) (event : ι × Unit) : Decidable (Unseen c event) :=
  inferInstanceAs (Decidable (∀ _ ∈ _, _))

/-! ## Generations count -/

/-- The generation of a slot is the number of its increments, up to the width of the word. -/
def Counted (d : Directory ι) : Prop :=
  ∀ k, (d.entries k).generation = UInt32.ofNat (d.bumps k)

theorem Counted.perform {d : Directory ι} (h : Counted d) (me : ι) (a : Access) :
    Counted (d.perform me a) := by
  intro k
  by_cases hslot : a.slot = some k
  · cases a with
    | read => cases hslot
    | claim i =>
      cases hslot
      rw [perform_claim_entries]
      exact h k
    | write i t w =>
      cases hslot
      rw [perform_write_entries, IcmpDirectoryEntry.write_generation]
      exact h k
    | publish i =>
      cases hslot
      rw [perform_publish_entries]
      exact h k
    | bump i =>
      cases hslot
      rw [perform_bump_entries, perform_bump_bumps, UInt32.ofNat_add, ← h k]
      rfl
    | release i =>
      cases hslot
      rw [perform_release_entries]
      exact h k
  · obtain ⟨hentries, -, hbumps⟩ := d.perform_off me hslot
    rw [hentries, hbumps]
    exact h k

/-- A step increments a generation or leaves the count alone. -/
theorem perform_bumps (d : Directory ι) (me : ι) (a : Access) (k : Nat) :
    (d.perform me a).bumps k = d.bumps k ∨ (d.perform me a).bumps k = d.bumps k + 1 := by
  by_cases hslot : a.slot = some k
  · cases a with
    | bump i =>
      cases hslot
      exact .inr (perform_bump_bumps ..)
    | _ => exact .inl rfl
  · exact .inl (d.perform_off me hslot).2.2

/-! ## A registration that stays -/

/-- Call `i` has registered `t` in slot `j`, or is scanning for duplicates, and the slot has not
been released since it was claimed. -/
def Stands (c : Calls ι) (i : ι) (t : IcmpTarget) (j : Nat) : Prop :=
  c.shared.holder j = some i ∧ ∃ p, c.point i = .registerTarget t p ∧ p.shown = some j

variable {maxEntries j : Nat} {c : Calls ι} {i : ι} {t : IcmpTarget}

/-- The slot of a registration that stands is published for it. -/
theorem Stands.published (h : Stands c i t j) (hheld : Held maxEntries c) :
    (c.shared.entries j).claimed = .published ∧ (c.shared.entries j).Carries t := by
  obtain ⟨hholder, p, hpoint, hshown⟩ := h
  obtain ⟨t', p', hpoint', -, hfits⟩ := (hheld j).holds i hholder
  rw [hpoint] at hpoint'
  cases hpoint'
  rwa [fits_shown hshown] at hfits

/-- In a published slot somebody's registration stands. -/
theorem stands_of_published (hheld : Held maxEntries c)
    (hpublished : (c.shared.entries j).claimed = .published) : ∃ i t, Stands c i t j := by
  cases hholder : c.shared.holder j with
  | none =>
    rw [(hheld j).free_iff.mpr hholder] at hpublished
    cases hpublished
  | some i =>
    obtain ⟨t, p, hpoint, hslot, hfits⟩ := (hheld j).holds i hholder
    refine ⟨i, t, hholder, p, hpoint, ?_⟩
    cases p with
    | write s w | publish s => exact (nomatch hpublished.symm.trans hfits.1)
    | scan s m | scanCompare s m w | yield s | registered s => exact hslot
    | _ => cases hslot

/-! ## A lookup and the registration it found -/

/-- One word of two keys is the same. -/
def sameWord (k k' : IcmpKey) : Word → Bool
  | .proto => k.proto == k'.proto
  | .ownerProc => true
  | .srcIp => k.tuple.srcIp == k'.tuple.srcIp
  | .dstIp => k.tuple.dstIp == k'.tuple.dstIp
  | .srcPort => k.tuple.srcPort == k'.tuple.srcPort
  | .dstPort => k.tuple.dstPort == k'.tuple.dstPort

theorem agrees_eq_sameWord {e : IcmpDirectoryEntry} (h : e.key = k) (k' : IcmpKey)
    (w : Word) : e.agrees k' w = sameWord k k' w := by
  subst h
  cases w <;> rfl

theorem eq_of_sameWord (h : ∀ w, sameWord k k' w = true) : k = k' := by
  obtain ⟨⟨si, di, sp, dp⟩, p⟩ := k
  obtain ⟨⟨si', di', sp', dp'⟩, p'⟩ := k'
  have hp : p = p' := eq_of_beq (h .proto)
  have hsi : si = si' := eq_of_beq (h .srcIp)
  have hdi : di = di' := eq_of_beq (h .dstIp)
  have hsp : sp = sp' := eq_of_beq (h .srcPort)
  have hdp : dp = dp' := eq_of_beq (h .dstPort)
  rw [hp, hsi, hdi, hsp, hdp]

/-- The lookup is reading slot `j`, and what it has read is what `t` says. -/
def Matching (key : IcmpKey) (t : IcmpTarget) (j : Nat) : LookupPoint → Prop
  | .compare m w => m = j ∧ ∀ v : Word, v.index < w.index → sameWord t.key key v = true
  | .owner m => m = j ∧ t.key = key
  | .generation m ownerProc => m = j ∧ t.key = key ∧ ownerProc = t.ownerProc
  | _ => False

/-- The lookup has left slot `j` behind. -/
def Beyond (j : Nat) : LookupPoint → Prop
  | .start => False
  | .look m | .compare m _ | .owner m | .generation m _ => j < m
  | .found r => j < r.slotIdx
  | .missing => True

theorem reading_of_matching {p : LookupPoint} (h : Matching key t j p) :
    reading (.lookup key p) = some j := by
  cases p with
  | compare m w | owner m | generation m ownerProc => exact congrArg some h.1
  | _ => exact h.elim

section Lookup

variable {entries : Nat → IcmpDirectoryEntry} {key : IcmpKey} {p : LookupPoint}

theorem beyond_lookFrom {m : Nat} (h : j < m) : Beyond j (lookFrom maxEntries m) := by
  unfold lookFrom
  split
  · exact h
  · trivial

theorem Beyond.next (h : Beyond j p) : Beyond j (next maxEntries entries key p) := by
  cases p with
  | start => exact h.elim
  | look m =>
    simp only [next]
    split
    · exact h
    · exact beyond_lookFrom (Nat.lt_succ_of_lt h)
  | compare m w =>
    simp only [next]
    split
    · cases w.afterCompare with
      | some v | none => exact h
    · exact beyond_lookFrom (Nat.lt_succ_of_lt h)
  | _ => exact h

/-- A step of a lookup that reads a slot in which a registration stands. -/
theorem Matching.next (h : Matching key t j p) (maxEntries : Nat)
    (hcarries : (entries j).Carries t) :
    Matching key t j (next maxEntries entries key p) ∨
      (t.key = key ∧ next maxEntries entries key p =
        .found ⟨t.ownerProc, (entries j).generation, j⟩) ∨
      Beyond j (next maxEntries entries key p) := by
  cases p with
  | compare m w =>
    obtain ⟨rfl, hbefore⟩ := h
    simp only [next, agrees_eq_sameWord hcarries.1]
    split
    · rename_i hsame
      cases hw : w.afterCompare with
      | some v =>
        -- the words before `v` are those before `w`, `w`, and perhaps the owner, not compared
        refine .inl ⟨rfl, fun u hu => ?_⟩
        by_cases huw : u = w
        · rwa [huw]
        by_cases howner : u = .ownerProc
        · rw [howner]
          rfl
        · refine hbefore u ?_
          cases w <;> cases hw <;> cases u <;> simp_all [Word.index]
      | none =>
        refine .inl ⟨rfl, eq_of_sameWord fun u => ?_⟩
        by_cases huw : u = w
        · rwa [huw]
        · refine hbefore u ?_
          cases w <;> cases hw
          cases u <;> simp_all [Word.index]
    · exact .inr (.inr (beyond_lookFrom (Nat.lt_succ_self m)))
  | owner m =>
    obtain ⟨rfl, hkey⟩ := h
    exact .inl ⟨rfl, hkey, hcarries.2⟩
  | generation m ownerProc =>
    obtain ⟨rfl, hkey, rfl⟩ := h
    exact .inr (.inl ⟨hkey, rfl⟩)
  | _ => exact h.elim

end Lookup

/-- A lookup `l` for `key` has come to slot `j` when call `i` had registered `t` there.  Either it
is still reading the slot, and the registration stands; or it has returned the slot with a
generation, and the registration stands as long as that is the slot's; or it has gone on. -/
inductive Watched (l : ι) (key : IcmpKey) (i : ι) (t : IcmpTarget) (j : Nat) (c : Calls ι) : Prop
  | reads {p} (hpoint : c.point l = .lookup key p) (hmatch : Matching key t j p)
      (hstands : Stands c i t j)
  | returned {r n} (hpoint : c.point l = .lookup key (.found r)) (hslot : r.slotIdx = j)
      (hkey : t.key = key) (howner : r.ownerProc = t.ownerProc)
      (hgen : r.generation = UInt32.ofNat n) (hle : n ≤ c.shared.bumps j)
      (hstands : c.shared.bumps j = n → Stands c i t j)
  | passed {p} (hpoint : c.point l = .lookup key p) (hbeyond : Beyond j p)

variable {l : ι}

/-- A lookup that returned slot `j` did not leave it behind. -/
theorem not_beyond_found {p : LookupPoint} (hfound : c.point l = .lookup key (.found r))
    (hpoint : c.point l = .lookup key p) : ¬ Beyond r.slotIdx p := by
  rw [hfound] at hpoint
  cases hpoint
  exact Nat.lt_irrefl _

/-- What is kept of a configuration as the run goes on: what the lookup has returned, that it has
left a slot behind, and that generations have been incremented. -/
def Later (l : ι) (key : IcmpKey) (j : Nat) (c c' : Calls ι) : Prop :=
  (∀ r, c.point l = .lookup key (.found r) → c'.point l = .lookup key (.found r)) ∧
    (∀ p, c.point l = .lookup key p → Beyond j p → ∃ q, c'.point l = .lookup key q ∧ Beyond j q) ∧
    c.shared.bumps j ≤ c'.shared.bumps j

/-- What a lookup under watch has returned is what the registration says. -/
theorem Watched.found (h : Watched l key i t r.slotIdx c)
    (hfound : c.point l = .lookup key (.found r)) : t.key = key ∧ r.ownerProc = t.ownerProc := by
  cases h with
  | reads hpoint hmatch _ =>
    rw [hfound] at hpoint
    cases hpoint
    exact hmatch.elim
  | returned hpoint _ hkey howner _ _ _ =>
    rw [hfound] at hpoint
    cases hpoint
    exact ⟨hkey, howner⟩
  | passed hpoint hbeyond => exact absurd hbeyond (not_beyond_found hfound hpoint)

/-- Under watch, the slot that a lookup returned still is what it was if it carries the generation
now or later. -/
theorem Watched.stands {c' : Calls ι} (h : Watched l key i t r.slotIdx c)
    (hlater : Later l key r.slotIdx c c') (hfound : c'.point l = .lookup key (.found r))
    (hcounted : Counted c'.shared) (hgen : (c'.shared.entries r.slotIdx).generation = r.generation)
    (hfew : c'.shared.bumps r.slotIdx < 2 ^ 32) : Stands c i t r.slotIdx := by
  cases h with
  | reads _ _ hstands => exact hstands
  | @returned r' n hpoint _ _ _ hgen' hle hstands =>
    obtain rfl : r' = r := by
      have hsame := (hlater.1 r' hpoint).symm.trans hfound
      cases hsame
      rfl
    -- equal generations below the width of the word are equal counts
    have hbumps := hlater.2.2
    have hword : UInt32.ofNat (c'.shared.bumps r'.slotIdx) = UInt32.ofNat n := by
      rw [← hcounted, hgen, hgen']
    have hn : n < 2 ^ 32 := by omega
    have hcount : c'.shared.bumps r'.slotIdx = n := by
      have hnat := congrArg UInt32.toNat hword
      rwa [UInt32.toNat_ofNat_of_lt' hfew, UInt32.toNat_ofNat_of_lt' hn] at hnat
    exact hstands (by omega)
  | passed hpoint hbeyond =>
    obtain ⟨q, hq, hbq⟩ := hlater.2.1 _ hpoint hbeyond
    exact absurd hbq (not_beyond_found hfound hq)

section Runs

variable [DecidableEq ι] {event : ι × Unit}

/-- A registration stands until its slot is freed. -/
theorem Stands.step (h : Stands c i t j) (hheld : Held maxEntries c) {m : ι} (u : Unit)
    (hkept : frees (c.point m) ≠ some j) : Stands (c.step (move maxEntries) (m, u)) i t j := by
  have hpublished := (h.published hheld).1
  obtain ⟨hholder, p, hpoint, hshown⟩ := h
  obtain ⟨a, hmoved, hstep⟩ := step_moved maxEntries c m u
  generalize c.step (move maxEntries) (m, u) = c' at hmoved hstep ⊢
  constructor
  · -- the slot is not free, so that it is not claimed, and nobody frees it
    rw [hmoved.shared]
    by_cases hslot : a.slot = some j
    · generalize c.point m = call, c'.point m = call' at hstep hkept
      cases a with
      | claim k =>
        cases hslot
        cases hstep with
        | registers h =>
          cases h with
          | claims _ hfree => exact (nomatch hpublished.symm.trans hfree)
        | aside _ _ ha => rcases ha with ha | ⟨m, ha⟩ <;> cases ha
      | release k =>
        cases hslot
        cases hstep with
        | registers h =>
          cases h
          exact absurd rfl hkept
        | aside _ _ ha => rcases ha with ha | ⟨m, ha⟩ <;> cases ha
        | frees => exact absurd rfl hkept
      | _ => exact hholder
    · rw [(c.shared.perform_off m hslot).2.1]
      exact hholder
  · by_cases hmi : m = i
    · subst hmi
      rw [hpoint] at hstep hkept
      generalize hq : c'.point m = call' at hstep
      cases hstep with
      | registers hregister =>
        refine ⟨_, rfl, ?_⟩
        cases hregister with
        | outside hp _ _ => exact (nomatch hp.symm.trans (RegisterPoint.slot_of_shown hshown))
        | scans k hp hq _ => exact hq.trans (hp.symm.trans hshown)
        | yields k =>
          cases hshown
          exact absurd rfl hkept
        | _ => cases hshown
      | aside hcall _ _ => exact absurd rfl (hcall t p)
    · exact ⟨p, (hmoved.others i (Ne.symm hmi)).trans hpoint, hshown⟩

theorem step_shared (maxEntries : Nat) (c : Calls ι) (m : ι) (u : Unit) :
    (c.step (move maxEntries) (m, u)).shared =
      c.shared.perform m ((c.point m).next maxEntries c.shared.entries).1 := rfl

/-- A step of the lookup itself changes nothing in memory. -/
theorem step_lookup (maxEntries : Nat) {p : LookupPoint} (hpoint : c.point l = .lookup key p)
    (u : Unit) :
    (c.step (move maxEntries) (l, u)).shared = c.shared ∧
      (c.step (move maxEntries) (l, u)).point l =
        .lookup key (next maxEntries c.shared.entries key p) := by
  have hself : (c.step (move maxEntries) (l, u)).point l =
      ((c.point l).next maxEntries c.shared.entries).2 := c.step_point_self l u
  rw [step_shared, hself]
  simp only [hpoint]
  exact ⟨rfl, rfl⟩

/-- A lookup that has left a slot behind, or has returned, has done so after any step. -/
theorem Beyond.step {p : LookupPoint} (h : Beyond j p) (maxEntries : Nat)
    (hpoint : c.point l = .lookup key p) (event : ι × Unit) :
    ∃ q, (c.step (move maxEntries) event).point l = .lookup key q ∧ Beyond j q := by
  obtain ⟨m, u⟩ := event
  by_cases hml : m = l
  · subst hml
    exact ⟨_, (step_lookup maxEntries hpoint u).2, h.next⟩
  · exact ⟨p, (c.step_point_of_ne u (Ne.symm hml)).trans hpoint, h⟩

theorem step_found (maxEntries : Nat) (hpoint : c.point l = .lookup key (.found r))
    (event : ι × Unit) : (c.step (move maxEntries) event).point l = .lookup key (.found r) := by
  obtain ⟨m, u⟩ := event
  by_cases hml : m = l
  · subst hml
    exact (step_lookup maxEntries hpoint u).2
  · exact (c.step_point_of_ne u (Ne.symm hml)).trans hpoint

/-- Every step keeps watch, unless it frees a slot that a lookup has seen. -/
theorem Watched.step (h : Watched l key i t j c) (hheld : Held maxEntries c)
    (hcounted : Counted c.shared) (hunseen : Unseen c event) :
    Watched l key i t j (c.step (move maxEntries) event) := by
  obtain ⟨m, u⟩ := event
  cases h with
  | reads hpoint hmatch hstands =>
    have hkept : frees (c.point m) ≠ some j := by
      intro hfree
      have hseen := (hunseen j hfree l).1
      rw [hpoint] at hseen
      exact hseen (reading_of_matching hmatch)
    have hstands' : Stands (c.step (move maxEntries) (m, u)) i t j := hstands.step hheld u hkept
    by_cases hml : m = l
    · subst hml
      obtain ⟨hshared, hself⟩ := step_lookup maxEntries hpoint u
      rcases hmatch.next maxEntries (hstands.published hheld).2 with
        hnext | ⟨hkey, hnext⟩ | hnext
      · exact .reads hself hnext hstands'
      · rw [hnext] at hself
        exact .returned hself rfl hkey rfl (hcounted j) (by rw [hshared]) fun _ => hstands'
      · exact .passed hself hnext
    · exact .reads ((c.step_point_of_ne u (Ne.symm hml)).trans hpoint) hmatch hstands'
  | @returned r n hpoint hslot hkey howner hgen hle hstands =>
    have hpoint' := step_found maxEntries hpoint (m, u)
    have hbumps := perform_bumps c.shared m ((c.point m).next maxEntries c.shared.entries).1 j
    rw [← step_shared maxEntries c m u] at hbumps
    rcases hbumps with hsame | hmore
    · refine .returned hpoint' hslot hkey howner hgen (by rw [hsame]; exact hle) fun hn => ?_
      rw [hsame] at hn
      refine (hstands hn).step hheld u fun hfree => ?_
      have hseen := (hunseen j hfree l).2
      rw [hpoint] at hseen
      refine hseen r rfl hslot ?_
      rw [hgen, hcounted j, hn]
    · refine .returned hpoint' hslot hkey howner hgen (by omega) fun hn => ?_
      omega
  | passed hpoint hbeyond =>
    obtain ⟨q, hpoint', hbeyond'⟩ := hbeyond.step maxEntries hpoint (m, u)
    exact .passed hpoint' hbeyond'

/-- When a lookup comes to a slot it finds somebody's registration there, or goes on. -/
theorem watched_of_look (hheld : Held maxEntries c) (hpoint : c.point l = .lookup key (.look j))
    (u : Unit) :
    (∃ i t, Stands c i t j ∧ Watched l key i t j (c.step (move maxEntries) (l, u))) ∨
      ∃ p, (c.step (move maxEntries) (l, u)).point l = .lookup key p ∧ Beyond j p := by
  obtain ⟨hshared, hself⟩ := step_lookup maxEntries hpoint u
  simp only [next] at hself
  split at hself
  · rename_i hpublished
    obtain ⟨i, t, hstands⟩ := stands_of_published hheld hpublished
    have hkept : frees (c.point l) ≠ some j := by
      rw [hpoint]
      nofun
    exact .inl ⟨i, t, hstands, .reads hself ⟨rfl, fun v hv => absurd hv (Nat.not_lt_zero _)⟩
      (hstands.step hheld u hkept)⟩
  · exact .inr ⟨_, hself, beyond_lookFrom (Nat.lt_succ_self j)⟩

theorem later_run (l : ι) (key : IcmpKey) (j : Nat) (c : Calls ι) (schedule : List (ι × Unit)) :
    Later l key j c (c.run (move maxEntries) schedule) := by
  induction schedule using List.reverseRecOn with
  | nil => exact ⟨fun r hr => hr, fun p hp hb => ⟨p, hp, hb⟩, Nat.le_refl _⟩
  | append_singleton schedule event ih =>
    obtain ⟨m, u⟩ := event
    rw [Config.run_append]
    obtain ⟨hfound, hbeyond, hbumps⟩ := ih
    generalize c.run (move maxEntries) schedule = d at hfound hbeyond hbumps ⊢
    refine ⟨fun r hr => ?_, fun p hp hb => ?_, ?_⟩
    · exact step_found maxEntries (hfound r hr) (m, u)
    · obtain ⟨q, hq, hbq⟩ := hbeyond p hp hb
      exact hbq.step maxEntries hq (m, u)
    refine Nat.le_trans hbumps ?_
    have hstep := perform_bumps d.shared m ((d.point m).next maxEntries d.shared.entries).1 j
    rw [← step_shared maxEntries d m u] at hstep
    show d.shared.bumps j ≤ (d.step (move maxEntries) (m, u)).shared.bumps j
    omega

/-- **Stale handles.**  In every interleaving of calls in which `unregister` frees slots of returned
registrations only, and no slot is freed that a lookup is reading or has returned under the
generation that the slot has: if a lookup for a key comes to a slot and returns it, and
`is_slot_alive` afterwards reads the generation the lookup returned (with fewer than 2^32
increments of it so far), then one and the same registration, for this key and with the owner that
the lookup returned, has stood in the slot all the time. -/
theorem icmp_stale_handle_refused (maxEntries : Nat) (requests : ι → IcmpRequest)
    (first rest : List (ι × Unit)) (l v : ι) (key : IcmpKey) (r : LookupResult)
    (hok : Throughout (move maxEntries) (fun c event => Returned c event ∧ Unseen c event)
      (opening requests) (first ++ (l, ()) :: rest))
    (before after : Calls ι) (hbefore : before = (opening requests).run (move maxEntries) first)
    (hafter : after = before.run (move maxEntries) ((l, ()) :: rest))
    (hlook : before.point l = .lookup key (.look r.slotIdx))
    (hfound : after.point l = .lookup key (.found r))
    (hasks : after.point v = .isSlotAlive r.slotIdx r.generation .generation)
    (halive : (after.step (move maxEntries) (v, ())).point v =
      .isSlotAlive r.slotIdx r.generation (.answered true))
    (hfew : after.shared.bumps r.slotIdx < 2 ^ 32) :
    ∃ i t, t.key = key ∧ t.ownerProc = r.ownerProc ∧ ∀ part, part <+: (l, ()) :: rest →
      ∃ c, c = before.run (move maxEntries) part ∧ c.shared.holder r.slotIdx = some i ∧
        (c.shared.entries r.slotIdx).claimed = .published ∧
        (c.shared.entries r.slotIdx).Carries t := by
  have hbase : ∀ (c : Calls ι) event, Returned c event ∧ Unseen c event →
      Held maxEntries c ∧ Counted c.shared →
      Held maxEntries (c.step (move maxEntries) event) ∧
        Counted (c.step (move maxEntries) event).shared :=
    fun c event hok hinv => ⟨hinv.1.step hok.1, hinv.2.perform _ _⟩
  rw [throughout_append, ← hbefore] at hok
  obtain ⟨hfirst, hrest⟩ := hok
  have hstart : Held maxEntries before ∧ Counted before.shared := by
    rw [hbefore]
    exact run_keeps hbase ⟨held_opening requests, fun _ => rfl⟩ hfirst
  have hnow : ∀ part, part <+: (l, ()) :: rest →
      Held maxEntries (before.run (move maxEntries) part) ∧
        Counted (before.run (move maxEntries) part).shared := by
    rintro part ⟨tail, htail⟩
    rw [← htail, throughout_append] at hrest
    exact run_keeps hbase hstart hrest.1
  have hcounted : Counted after.shared := by
    rw [hafter]
    exact (hnow _ (List.prefix_refl _)).2
  have hgen : (after.shared.entries r.slotIdx).generation = r.generation := by
    have hself : (after.step (move maxEntries) (v, ())).point v =
        ((after.point v).next maxEntries after.shared.entries).2 := after.step_point_self v ()
    rw [halive, hasks] at hself
    simp only [IcmpCall.next, AlivePoint.next, IcmpCall.isSlotAlive.injEq,
      AlivePoint.answered.injEq, true_and] at hself
    exact eq_of_beq hself.symm
  -- what the lookup finds when it comes to the slot, or that it goes on
  obtain ⟨i, t, hstands, hwatched⟩ | ⟨p, hp, hbeyond⟩ := watched_of_look hstart.1 hlook ()
  · have hkeeps : ∀ (c : Calls ι) event, Returned c event ∧ Unseen c event →
        (Held maxEntries c ∧ Counted c.shared) ∧ Watched l key i t r.slotIdx c →
        (Held maxEntries (c.step (move maxEntries) event) ∧
          Counted (c.step (move maxEntries) event).shared) ∧
          Watched l key i t r.slotIdx (c.step (move maxEntries) event) :=
      fun c event hok hinv => ⟨hbase c event hok hinv.1, hinv.2.step hinv.1.1 hinv.1.2 hok.2⟩
    have hwatch : ∀ part tail, rest = part ++ tail →
        Watched l key i t r.slotIdx (before.run (move maxEntries) ((l, ()) :: part)) := by
      intro part tail htail
      have hpart := hrest.2
      rw [htail, throughout_append] at hpart
      exact (run_keeps hkeeps ⟨hbase _ _ hrest.1 hstart, hwatched⟩ hpart.1).2
    have hall : ∀ part, part <+: (l, ()) :: rest →
        Stands (before.run (move maxEntries) part) i t r.slotIdx := by
      rintro part ⟨tail, htail⟩
      cases part with
      | nil => exact hstands
      | cons event part =>
        rw [List.cons_append] at htail
        obtain ⟨rfl, hsplit⟩ := List.cons.inj htail
        have hlater : Later l key r.slotIdx
            (before.run (move maxEntries) ((l, ()) :: part)) after := by
          rw [hafter, ← htail, ← List.cons_append, Config.run_append]
          exact later_run ..
        exact (hwatch part tail hsplit.symm).stands hlater hfound hcounted hgen hfew
    have hend := hwatch rest [] (by rw [List.append_nil])
    rw [← hafter] at hend
    obtain ⟨hkey, howner⟩ := hend.found hfound
    refine ⟨i, t, hkey, howner.symm, fun part hpart => ?_⟩
    exact ⟨_, rfl, (hall part hpart).1, (hall part hpart).published (hnow part hpart).1⟩
  · have hlater : Later l key r.slotIdx (before.step (move maxEntries) (l, ()))
        ((before.step (move maxEntries) (l, ())).run (move maxEntries) rest) := later_run ..
    obtain ⟨q, hq, hbq⟩ := hlater.2.1 p hp hbeyond
    rw [← Config.run_cons, ← hafter] at hq
    exact absurd hbq (not_beyond_found hfound hq)

end Runs

/-! ## A stale handle -/

/-- The connection that is looked up. -/
def lookedUp : IcmpKey := ⟨⟨0x0A000001, 0x0A000002, 40000, 443⟩, 6⟩

/-- Another connection. -/
def unrelated : IcmpKey := ⟨⟨0x0A000001, 0x0A000002, 40001, 443⟩, 6⟩

/-- Calls 0 and 1 register the connection, for processes 0 and 1; call 2 looks it up; call 3
registers another connection, for process 2; call 4 asks about slot 1, and call 5 about slot 0. -/
def staleRequests : Fin 6 → IcmpRequest
  | 0 => .registerTarget ⟨lookedUp, 0⟩
  | 1 => .registerTarget ⟨lookedUp, 1⟩
  | 2 => .lookup lookedUp
  | 3 => .registerTarget ⟨unrelated, 2⟩
  | 4 => .isSlotAlive 1 0
  | 5 => .isSlotAlive 0 0

/-- Call 0 registers, and call 2 comes to its slot. -/
def aliveFirst : List (Fin 6 × Unit) := List.replicate 12 (0, ()) ++ [(2, ())]

/-- Call 2 returns, and call 5 has read `claimed`. -/
def aliveRest : List (Fin 6 × Unit) := List.replicate 7 (2, ()) ++ [(5, ())]

/-- The handle of a connection that stays registered. -/
theorem icmp_stale_handle_refused_alive :
    ∃ i t, t.key = lookedUp ∧ t.ownerProc = 0 ∧ ∀ part, part <+: (2, ()) :: aliveRest →
      ∃ c, c = ((opening staleRequests).run (move 2) aliveFirst).run (move 2) part ∧
        c.shared.holder 0 = some i ∧ (c.shared.entries 0).claimed = .published ∧
        (c.shared.entries 0).Carries t :=
  icmp_stale_handle_refused 2 staleRequests aliveFirst aliveRest 2 5 lookedUp ⟨0, 0, 0⟩
    (by decide +kernel) _ _ rfl rfl (by decide +kernel) (by decide +kernel) (by decide +kernel)
    (by decide +kernel) (by decide +kernel)

section Accepted

/-- The steps of the whole table. -/
abbrev staleMove : Moves (Fin 6) Unit (Directory (Fin 6)) IcmpCall := move kIcmpDirectoryMaxEntries

/-- Call 0 is at its second pass. -/
def staleStage1 : Calls (Fin 6) :=
  ((opening staleRequests).run staleMove [(0, ())]).put 0
    (.registerTarget ⟨lookedUp, 0⟩ (RegisterPoint.claimFrom kIcmpDirectoryMaxEntries 0))

/-- It has claimed slot 0, and call 1 is at its second pass. -/
def staleStage2 : Calls (Fin 6) :=
  (staleStage1.run staleMove [(0, ()), (1, ())]).put 1
    (.registerTarget ⟨lookedUp, 1⟩ (RegisterPoint.claimFrom kIcmpDirectoryMaxEntries 0))

/-- Call 1 has published slot 1, and the lookup comes there. -/
def staleStage3 : Calls (Fin 6) :=
  staleStage2.run staleMove (List.replicate 9 (1, ()) ++ List.replicate 2 (2, ()))

/-- The lookup has returned. -/
def staleStage4 : Calls (Fin 6) :=
  staleStage3.run staleMove ((2, ()) :: List.replicate 7 (2, ()))

/-- Call 0 has published slot 0, call 1 has given way, and call 3 is at its second pass. -/
def staleStage5 : Calls (Fin 6) :=
  (staleStage4.run staleMove
    (List.replicate 7 (0, ()) ++ List.replicate 7 (1, ()) ++ List.replicate 6 (3, ()))).put 3
      (.registerTarget ⟨unrelated, 2⟩ (RegisterPoint.claimFrom kIcmpDirectoryMaxEntries 0))

/-- Call 3 has published slot 1, and call 4 has asked about it. -/
def staleStage6 : Calls (Fin 6) :=
  staleStage5.run staleMove (List.replicate 9 (3, ()) ++ List.replicate 2 (4, ()))

theorem reaches_staleStage3 : Reaches staleMove (opening staleRequests) staleStage3 := by
  have h1 : Reaches staleMove (opening staleRequests) staleStage1 :=
    (reaches_run _ _).trans (reaches_secondPass (Nat.zero_le _) (by decide +kernel) rfl)
  have h2 : Reaches staleMove staleStage1 staleStage2 :=
    (reaches_run _ _).trans (reaches_secondPass (Nat.zero_le _) (by decide +kernel) rfl)
  exact (h1.trans h2).trans (reaches_run _ _)

theorem reaches_staleStage6 : Reaches staleMove staleStage4 staleStage6 := by
  have h5 : Reaches staleMove staleStage4 staleStage5 :=
    (reaches_run _ _).trans (reaches_secondPass (j := 1) (by decide) (by decide +kernel) rfl)
  exact h5.trans (reaches_run _ _)

end Accepted

/-- Call 1 publishes slot 1 for a moment, and the lookup returns the slot with generation 0.  Then
call 1 gives way, call 3 claims the slot for another connection, and generation 0 is still
alive. -/
theorem icmp_stale_handle_accepted :
    ∃ first rest last, ∃ before between after : Calls (Fin 6),
      before = (opening staleRequests).run staleMove first ∧
      between = before.run staleMove ((2, ()) :: rest) ∧ after = between.run staleMove last ∧
      before.point 2 = .lookup lookedUp (.look 1) ∧
      between.point 2 = .lookup lookedUp (.found ⟨1, 0, 1⟩) ∧
      between.point 4 = .isSlotAlive 1 0 .start ∧
      after.point 4 = .isSlotAlive 1 0 (.answered true) ∧ after.shared.bumps 1 = 0 ∧
      before.shared.holder 1 = some 1 ∧ after.shared.holder 1 = some 3 ∧
      (after.shared.entries 1).key ≠ lookedUp := by
  obtain ⟨first, hfirst⟩ := reaches_staleStage3
  obtain ⟨last, hlast⟩ := reaches_staleStage6
  refine ⟨first, List.replicate 7 (2, ()), last, staleStage3, staleStage4, staleStage6,
    hfirst.symm, rfl, hlast.symm, ?_, ?_, ?_, ?_, ?_, ?_, ?_, ?_⟩ <;> decide +kernel

end IcmpDirectory

end Eph.Dpdk
