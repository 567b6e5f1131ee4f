import Ephemeral.PollerRoutes

/-!
# Empty slots do not come back

A route that is removed leaves a tombstone, and nothing turns a tombstone into an empty slot
again.  Each registration that meets an empty slot before any tombstone uses one up, so that a
poller which has connected and disconnected often enough has none, however few entries it holds.
The lookup of an unregistered tuple then probes the whole table.

There is an empty slot after every call of a run exactly if no registration takes the last one
(`empty_slot_survives_iff`).
-/

namespace Eph.Net.Dpdk

open ByteOrder Core Eph.Dpdk Function LinearProbing List

variable {ω : Type} [DecidableEq ω] {hash : FiveTuple → UInt32} {p : DpdkPoller ω}

/-- Some slot of the routing table is empty. -/
def DpdkPoller.HasEmpty (p : DpdkPoller ω) : Prop := ∃ i, (p.routeTable i).state = .kEmpty

/-- From the home slot of the tuple on, the table is occupied up to its only empty slot. -/
def DpdkPoller.TakesLastEmpty (hash : FiveTuple → UInt32) (p : DpdkPoller ω) (t : FiveTuple) :
    Prop :=
  ∃ d, d < kRouteTableSize ∧
    (p.routeTable (after (homeSlot (hash t)) d)).state = .kEmpty ∧
    (∀ e, e < d → (p.routeTable (after (homeSlot (hash t)) e)).state = .kOccupied) ∧
    ∀ i, i ≠ after (homeSlot (hash t)) d → (p.routeTable i).state ≠ .kEmpty

omit [DecidableEq ω] in
theorem hasEmpty_iff : p.HasEmpty ↔ ∃ i, p.routeTable.view i = .empty :=
  exists_congr fun _ => view_empty_iff.symm

theorem vacancy_view_none_iff {table : RouteTable} {i : Fin kRouteTableSize} :
    vacancy (table.view i) = none ↔ (table i).state = .kOccupied := by
  cases h : (table i).state with
  | kEmpty => simp [view_empty h, vacancy]
  | kOccupied => simp [view_occupied h, vacancy]
  | kTombstone => simp [view_tombstone h, vacancy]

/-! ## One call -/

section

variable (h : Routed hash p)

include h

/-- A registration leaves an empty slot exactly if it does not take the last one. -/
theorem Routed.hasEmpty_add_iff (hempty : p.HasEmpty) {o : ω} {t : FiveTuple}
    (haccepts : p.Accepts o t) :
    (p.add hash (some o) t).1.HasEmpty ↔ ¬ p.TakesLastEmpty hash t := by
  obtain ⟨o', ho', -, table, htable, hadd⟩ | ⟨-, hrefused⟩ := h.add_cases (some o) t
  swap
  · exact absurd haccepts (hrefused o rfl)
  obtain ⟨i, table', hwalk, hinsert, hview⟩ := h.insertRoute_eq (hash t) t p.entries.length
  obtain rfl : table' = table := Option.some.inj (hinsert.symm.trans htable)
  obtain ⟨d, hd, rfl, hvacant, hbefore⟩ := walk_some_iff.mp hwalk
  have hoccupied : ∀ e, e < d →
      (p.routeTable (after (homeSlot (hash t)) e)).state = .kOccupied := fun e he =>
    vacancy_view_none_iff.mp (hbefore e he)
  have hafter : (p.add hash (some o) t).1.HasEmpty ↔
      ∃ j, j ≠ after (homeSlot (hash t)) d ∧ (p.routeTable j).state = .kEmpty := by
    rw [hadd, hasEmpty_iff]
    rw [hview]
    refine exists_congr fun j => ?_
    by_cases hj : j = after (homeSlot (hash t)) d
    · simp [hj]
    · rw [update_of_ne hj, view_empty_iff]
      exact ⟨fun hstate => ⟨hj, hstate⟩, fun hstate => hstate.2⟩
  rw [hafter]
  constructor
  · rintro ⟨j, hj, hstate⟩ ⟨d', hd', hslot, hbefore', hlast⟩
    -- the walk stops at the slot that is named as the last empty one
    have hsame : d' = d := by
      rcases Nat.lt_trichotomy d' d with hlt | heq | hgt
      · rw [hoccupied d' hlt] at hslot
        cases hslot
      · exact heq
      · rw [vacancy_view_none_iff.mpr (hbefore' d hgt)] at hvacant
        cases hvacant
    subst hsame
    exact hlast j hj hstate
  · intro hnot
    by_contra hnone
    obtain ⟨j, hj⟩ := hempty
    have hall : ∀ i, i ≠ after (homeSlot (hash t)) d → (p.routeTable i).state ≠ .kEmpty :=
      fun i hi hstate => hnone ⟨i, hi, hstate⟩
    have hat : j = after (homeSlot (hash t)) d := by
      by_contra hne
      exact hall j hne hj
    exact hnot ⟨d, hd, hat ▸ hj, hoccupied, hall⟩

/-- A removal keeps every empty slot. -/
theorem Routed.hasEmpty_remove (hempty : p.HasEmpty) (obj : Option ω) :
    (p.remove obj).1.HasEmpty := by
  obtain ⟨i, e, hi, hremove⟩ | hremove := p.remove_cases obj
  · obtain ⟨slot, hslot, hview⟩ := h.tombstoneRoute_view hi
    obtain ⟨j, hj⟩ := hasEmpty_iff.mp hempty
    have hne : j ≠ slot := by
      rintro rfl
      rw [hslot] at hj
      cases hj
    rw [hremove, hasEmpty_iff]
    refine ⟨j, ?_⟩
    split
    · rw [shiftDown_view, hview]
      dsimp only
      rw [update_of_ne hne, hj]
      rfl
    · rw [hview, update_of_ne hne, hj]
  · rwa [hremove]

/-- **One call** leaves an empty slot exactly if it is not a registration that takes the last. -/
theorem Routed.hasEmpty_step_iff (hempty : p.HasEmpty) (call : PollerCall ω) :
    (p.step hash call).HasEmpty ↔
      ∀ o t, call = .add (some o) t → p.Accepts o t → ¬ p.TakesLastEmpty hash t := by
  cases call with
  | remove obj => exact ⟨fun _ => nofun, fun _ => h.hasEmpty_remove hempty obj⟩
  | add obj t =>
    obtain ⟨o, rfl, haccepts, -⟩ | ⟨hsame, hrefused⟩ := h.add_cases obj t
    · refine (h.hasEmpty_add_iff hempty haccepts).trans ⟨?_, fun hall => hall o t rfl haccepts⟩
      intro hnot o' t' hcall _
      cases hcall
      exact hnot
    · refine iff_of_true (by rwa [DpdkPoller.step, hsame]) ?_
      intro o t' hcall haccepts
      cases hcall
      exact absurd haccepts (hrefused o rfl)

/-! ## Whole runs -/

/-- **A run** keeps an empty slot exactly if none of its calls takes the last. -/
theorem Routed.hasEmpty_run_iff (hempty : p.HasEmpty) (calls : List (PollerCall ω)) :
    (∀ k, (p.run hash (calls.take k)).HasEmpty) ↔
      ∀ k o t, calls[k]? = some (.add (some o) t) →
        (p.run hash (calls.take k)).Accepts o t →
        ¬ (p.run hash (calls.take k)).TakesLastEmpty hash t := by
  induction calls generalizing p with
  | nil =>
    refine iff_of_true (fun k => ?_) nofun
    rw [take_nil]
    exact hempty
  | cons call calls ih =>
    have hstep := h.hasEmpty_step_iff hempty call
    have hnext := h.step call
    constructor
    · intro hall k o t hk
      cases k with
      | zero => exact hstep.mp (hall 1) o t (Option.some.inj hk)
      | succ k => exact (ih hnext (hall 1)).mp (fun m => hall (m + 1)) k o t hk
    intro hall k
    have hfirst : (p.step hash call).HasEmpty :=
      hstep.mpr fun o t hcall => hall 0 o t (congrArg some hcall)
    cases k with
    | zero => exact hempty
    | succ k => exact (ih hnext hfirst).mpr (fun m o t hm => hall (m + 1) o t hm) k

end

/-- **When empty slots survive.**  After every call of a run the routing table has an empty slot,
and the lookup of any unregistered tuple stops at one, exactly if no registration of the run takes
the last empty slot. -/
theorem empty_slot_survives_iff (hash : FiveTuple → UInt32) {maxConnections : Nat}
    {p₀ : DpdkPoller ω} (hcreate : DpdkPoller.create ω maxConnections = .ok p₀)
    (calls : List (PollerCall ω)) :
    (∀ k, (p₀.run hash (calls.take k)).HasEmpty ∧
      ∀ t, (∀ e ∈ (p₀.run hash (calls.take k)).entries, e.tuple ≠ t) →
        (findRouteLoop (p₀.run hash (calls.take k)).routeTable (hash t) t kRouteTableSize
          (homeSlot (hash t)) false).1 = .atEmpty) ↔
      ∀ k o t, calls[k]? = some (.add (some o) t) →
        (p₀.run hash (calls.take k)).Accepts o t →
        ¬ (p₀.run hash (calls.take k)).TakesLastEmpty hash t := by
  have h : Routed hash p₀ := routed_create hcreate
  have hempty : p₀.HasEmpty := by
    rw [DpdkPoller.create] at hcreate
    split at hcreate
    · cases hcreate
    · cases hcreate
      exact ⟨0, rfl⟩
  rw [← h.hasEmpty_run_iff hempty calls]
  refine ⟨fun hall k => (hall k).1, fun hall k => ⟨hall k, fun t habsent => ?_⟩⟩
  have hrouted := h.run (calls.take k)
  obtain ⟨i, hwalk⟩ := (exists_walk_atEmpty_iff
    (hrouted.absent ((hrouted.miss_iff t).mpr habsent)) (homeSlot (hash t))).mpr
      (hasEmpty_iff.mp (hall k))
  rw [findRouteLoop_eq, hwalk]

/-! ## Connecting and disconnecting -/

/-- One object registers a tuple and leaves. -/
def churnCalls (o : ω) (t : FiveTuple) : List (PollerCall ω) :=
  [.add (some o) t, .remove (some o)]

/-- Ephemeral ports whose connections have the 128 slots for their homes. -/
def churnPorts : List UInt16 :=
  [49871, 49790, 49340, 49270, 49886, 49371, 49243, 49179, 49563, 49307, 49627, 49195, 49435,
    49334, 49212, 49206, 49289, 49309, 49161, 49193, 49437, 49298, 49170, 49533, 49438, 49370,
    49155, 49178, 49475, 49310, 49182, 49181, 49875, 49907, 49351, 49715, 49936, 49779, 49223,
    49255, 49445, 49383, 49159, 49191, 49442, 49415, 49674, 49543, 49424, 49301, 49153, 49189,
    49290, 49296, 49162, 49186, 49555, 49299, 49171, 49176, 49427, 49459, 49217, 49253, 49443,
    49372, 49238, 49180, 49444, 49796, 49227, 49275, 49291, 49430, 49163, 49659, 49440, 49302,
    49174, 49531, 49472, 49305, 49165, 49197, 49433, 49288, 49152, 49184, 49428, 49327, 49216,
    49187, 49507, 49300, 49156, 49177, 49887, 49919, 49222, 49254, 49962, 49791, 49239, 49271,
    49441, 49303, 49175, 49207, 49292, 49324, 49158, 49190, 49474, 49297, 49157, 49185, 49425,
    49322, 49154, 49194, 49567, 49311, 49183, 49258, 49439, 49361, 49221, 49249]

/-- A poller for one connection, which reconnects from 128 ports one after the other, has no
empty slot left; the lookup of any tuple then probes the whole table. -/
theorem churn_exhausts_empty_slots :
    ∃ p₀ : DpdkPoller Unit, DpdkPoller.create Unit 1 = .ok p₀ ∧
      let p := p₀.run hashTuple ((churnPorts.map clientTuple).flatMap (churnCalls ()))
      p.entries = [] ∧ (∀ i, (p.routeTable i).state ≠ .kEmpty) ∧
        ∀ t, (findRouteLoop p.routeTable (hashTuple t) t kRouteTableSize
          (homeSlot (hashTuple t)) false).1 = .exhausted := by
  refine ⟨⟨1, [], fun _ => .initial, 0⟩, rfl, ?_⟩
  intro p
  -- each visit leaves a tombstone in the home slot of its tuple
  obtain ⟨hentries, hall⟩ : p.entries = [] ∧ ∀ i, (p.routeTable i).state = .kTombstone := by
    decide +kernel
  refine ⟨hentries, fun i => by rw [hall i]; decide, fun t => ?_⟩
  have hwalk : walk p.routeTable.view (verdict (hashTuple t, t)) kRouteTableSize
      (homeSlot (hashTuple t)) = none := by
    rw [walk_all_none_iff]
    intro i
    rw [view_tombstone (hall i)]
    rfl
  rw [findRouteLoop_eq, hwalk]

/-- A connection is registered, removed and registered again, and empty slots are left. -/
theorem empty_slot_survives_again :
    let p₀ : DpdkPoller Unit := ⟨1, [], fun _ => .initial, 0⟩
    let t := clientTuple 50000
    (p₀.run hashTuple [.add (some ()) t, .remove (some ()), .add (some ()) t]).HasEmpty := by
  intro p₀ t
  have hiff := empty_slot_survives_iff hashTuple (rfl : DpdkPoller.create Unit 1 = .ok p₀)
    [.add (some ()) t, .remove (some ()), .add (some ()) t]
  refine ((hiff.mpr ?_) 3).1
  -- before each call two slots at least are empty
  have htwo : ∀ k < 3, ∀ i ∈ [0, 1], ((p₀.run hashTuple (List.take k
      [.add (some ()) t, .remove (some ()), .add (some ()) t])).routeTable i).state = .kEmpty := by
    decide +kernel
  rintro k o t' hk - ⟨d, -, -, -, hlast⟩
  have hempty := htwo k (List.getElem?_eq_some_iff.mp hk).1
  by_cases hzero : 0 = after (homeSlot (hashTuple t')) d
  · exact hlast 1 (hzero ▸ by decide) (hempty 1 (by decide))
  · exact hlast 0 hzero (hempty 0 (by decide))

end Eph.Net.Dpdk
