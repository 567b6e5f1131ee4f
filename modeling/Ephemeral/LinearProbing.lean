import Mathlib.Algebra.GroupWithZero.Nat
import Mathlib.Algebra.Group.Fin.Basic
import Mathlib.Data.Fintype.Card

/-!
# Open addressing with linear probing and tombstones

A table of `n` slots in a circle.  A key has a home slot; a probe starts there and goes from slot
to slot.  An empty slot ends a probe, a slot whose key was erased does not: it is a tombstone,
which a later insertion may take.

A table is `Sound` if no empty slot stands between a key's home and the key, and no key stands in
two slots.  In a sound table a probe finds a key exactly if some slot holds it
(`Sound.walk_found_iff`), and insertion, erasure and a change of values keep a table sound.  How
far the probe of an absent key goes depends on the empty slots that are left: it stops at one
exactly if there is one (`exists_walk_atEmpty_iff`).
-/

namespace LinearProbing

open Function

variable {n : Nat} [NeZero n] {K V : Type*}

/-- A slot of the table. -/
inductive Slot (K V : Type*)
  | empty
  | occupied (key : K) (value : V)
  | tombstone
  deriving DecidableEq

/-- How a probe ends: at the key, at an empty slot, or after as many slots as it may visit. -/
inductive ProbeEnd (V : Type*)
  | found (value : V)
  | atEmpty
  | exhausted
  deriving DecidableEq

/-! ## Walking the circle -/

/-- The slot `e` steps after slot `i`. -/
def after (i : Fin n) (e : Nat) : Fin n := i + Fin.ofNat n e

theorem after_zero (i : Fin n) : after i 0 = i := by
  apply Fin.ext
  simp [after]

theorem after_succ (i : Fin n) (e : Nat) : after (i + 1) e = after i (e + 1) := by
  apply Fin.ext
  simp only [after, Fin.val_add, Fin.val_ofNat, Fin.val_one', Nat.mod_add_mod, Nat.add_mod_mod]
  rw [Nat.add_assoc, Nat.add_comm 1 e]

/-- Every slot is reached in fewer than `n` steps. -/
theorem exists_after (i j : Fin n) : ∃ e, e < n ∧ after i e = j := by
  refine ⟨(j - i).val, (j - i).isLt, ?_⟩
  rw [after, Fin.ofNat_val_eq_self, add_comm, sub_add_cancel]

/-- Fewer than `n` steps do not come back to a slot. -/
theorem after_inj (i : Fin n) {e d : Nat} (he : e < n) (hd : d < n) (h : after i e = after i d) :
    e = d := by
  have hcancel : Fin.ofNat n e = Fin.ofNat n d := add_left_cancel h
  have hval := congrArg Fin.val hcancel
  simpa [Nat.mod_eq_of_lt he, Nat.mod_eq_of_lt hd] using hval

/-- The first slot from slot `i` on that `judge` has a verdict on, among so many slots. -/
def walk {σ β : Type*} (t : Fin n → σ) (judge : σ → Option β) : Nat → Fin n → Option (Fin n × β)
  | 0, _ => none
  | steps + 1, i =>
    match judge (t i) with
    | some b => some (i, b)
    | none => walk t judge steps (i + 1)

section Walk

variable {σ β : Type*} {t : Fin n → σ} {judge : σ → Option β} {steps : Nat} {i j : Fin n} {b : β}

theorem walk_some_iff :
    walk t judge steps i = some (j, b) ↔
      ∃ d, d < steps ∧ j = after i d ∧ judge (t j) = some b ∧
        ∀ e, e < d → judge (t (after i e)) = none := by
  induction steps generalizing i with
  | zero => exact ⟨nofun, fun ⟨d, hd, _⟩ => absurd hd (Nat.not_lt_zero d)⟩
  | succ steps ih =>
    rw [walk]
    cases hfirst : judge (t i) with
    | some c =>
      constructor
      · intro h
        obtain ⟨rfl, rfl⟩ := Prod.mk.inj (Option.some.inj h)
        exact ⟨0, by omega, (after_zero i).symm, hfirst, nofun⟩
      rintro ⟨d, hd, rfl, hjudge, hbefore⟩
      cases d with
      | zero =>
        rw [after_zero] at hjudge ⊢
        rw [hfirst] at hjudge
        rw [Option.some.inj hjudge]
      | succ d =>
        have h := hbefore 0 (Nat.succ_pos d)
        rw [after_zero, hfirst] at h
        cases h
    | none =>
      refine ih.trans ⟨?_, ?_⟩
      · rintro ⟨d, hd, rfl, hjudge, hbefore⟩
        refine ⟨d + 1, by omega, after_succ i d, hjudge, ?_⟩
        intro e he
        cases e with
        | zero => rwa [after_zero]
        | succ e =>
          rw [← after_succ]
          exact hbefore e (by omega)
      · rintro ⟨d, hd, rfl, hjudge, hbefore⟩
        cases d with
        | zero =>
          rw [after_zero, hfirst] at hjudge
          cases hjudge
        | succ d =>
          refine ⟨d, by omega, (after_succ i d).symm, hjudge, ?_⟩
          intro e he
          rw [after_succ]
          exact hbefore (e + 1) (by omega)

theorem walk_none_iff :
    walk t judge steps i = none ↔ ∀ e, e < steps → judge (t (after i e)) = none := by
  induction steps generalizing i with
  | zero => exact ⟨fun _ => nofun, fun _ => rfl⟩
  | succ steps ih =>
    rw [walk]
    cases hfirst : judge (t i) with
    | some c =>
      refine ⟨nofun, fun h => ?_⟩
      have hzero := h 0 (Nat.succ_pos steps)
      rw [after_zero, hfirst] at hzero
      cases hzero
    | none =>
      refine ih.trans ⟨?_, ?_⟩
      · intro h e he
        cases e with
        | zero => rwa [after_zero]
        | succ e =>
          rw [← after_succ]
          exact h e (by omega)
      · intro h e he
        rw [after_succ]
        exact h (e + 1) (by omega)

/-- A walk around the whole circle misses no slot. -/
theorem walk_all_none_iff : walk t judge n i = none ↔ ∀ j, judge (t j) = none := by
  rw [walk_none_iff]
  constructor
  · intro h j
    obtain ⟨e, he, rfl⟩ := exists_after i j
    exact h e he
  · exact fun h e _ => h _

end Walk

/-! ## The table -/

/-- What a slot says to a probe for the key: `none` lets it go on. -/
def verdict [DecidableEq K] (k : K) : Slot K V → Option (ProbeEnd V)
  | .empty => some .atEmpty
  | .occupied k' v => if k' = k then some (.found v) else none
  | .tombstone => none

/-- What a slot says to an insertion: it may be taken unless it is occupied. -/
def vacancy : Slot K V → Option Unit
  | .occupied _ _ => none
  | _ => some ()

/-- The table holds the key with the value. -/
def Holds (t : Fin n → Slot K V) (k : K) (v : V) : Prop := ∃ i, t i = .occupied k v

/-- The order in a table: from its home to its slot a key has no empty slot before it, and a key
has one slot. -/
structure Sound (home : K → Fin n) (t : Fin n → Slot K V) : Prop where
  chain : ∀ k v d, d < n → t (after (home k) d) = .occupied k v →
    ∀ e, e < d → t (after (home k) e) ≠ .empty
  unique : ∀ k v w i j, t i = .occupied k v → t j = .occupied k w → i = j

/-- The empty table. -/
theorem sound_empty (home : K → Fin n) : Sound home (fun _ => (.empty : Slot K V)) :=
  ⟨nofun, nofun⟩

section Probe

variable [DecidableEq K] {home : K → Fin n} {t : Fin n → Slot K V} {k : K} {v : V} {i : Fin n}

@[simp] theorem verdict_found_iff {s : Slot K V} :
    verdict k s = some (.found v) ↔ s = .occupied k v := by
  cases s with
  | empty | tombstone => simp [verdict]
  | occupied k' w =>
    by_cases hk : k' = k <;> simp [verdict, hk]

@[simp] theorem verdict_atEmpty_iff {s : Slot K V} : verdict k s = some .atEmpty ↔ s = .empty := by
  cases s with
  | empty | tombstone => simp [verdict]
  | occupied k' w =>
    by_cases hk : k' = k <;> simp [verdict, hk]

theorem verdict_ne_exhausted {s : Slot K V} : verdict k s ≠ some .exhausted := by
  cases s with
  | empty | tombstone => simp [verdict]
  | occupied k' w =>
    by_cases hk : k' = k <;> simp [verdict, hk]

/-- **A probe finds a key in its slot.** -/
theorem Sound.walk_found_iff (h : Sound home t) :
    walk t (verdict k) n (home k) = some (i, .found v) ↔ t i = .occupied k v := by
  rw [walk_some_iff]
  constructor
  · rintro ⟨d, -, -, hjudge, -⟩
    exact verdict_found_iff.mp hjudge
  intro hslot
  obtain ⟨d, hd, rfl⟩ := exists_after (home k) i
  refine ⟨d, hd, rfl, verdict_found_iff.mpr hslot, ?_⟩
  intro e he
  have hempty := h.chain k v d hd hslot e he
  cases hother : t (after (home k) e) with
  | empty => exact absurd hother hempty
  | tombstone => rfl
  | occupied k' w =>
    refine if_neg ?_
    rintro rfl
    -- the key is in slot `d`, not in an earlier one
    have hsame := after_inj _ (by omega) hd (h.unique k' w v _ _ hother hslot)
    omega

/-- **The probe of an absent key stops at an empty slot exactly if there is one.** -/
theorem exists_walk_atEmpty_iff (habsent : ∀ v, ¬ Holds t k v) (j : Fin n) :
    (∃ i, walk t (verdict k) n j = some (i, .atEmpty)) ↔ ∃ i, t i = .empty := by
  constructor
  · rintro ⟨i, h⟩
    obtain ⟨d, -, -, hjudge, -⟩ := walk_some_iff.mp h
    exact ⟨i, verdict_atEmpty_iff.mp hjudge⟩
  rintro ⟨i, hi⟩
  cases hwalk : walk t (verdict k) n j with
  | none =>
    have hnone := walk_all_none_iff.mp hwalk i
    rw [hi] at hnone
    cases hnone
  | some r =>
    obtain ⟨m, b⟩ := r
    obtain ⟨d, -, -, hjudge, -⟩ := walk_some_iff.mp hwalk
    cases b with
    | atEmpty => exact ⟨m, rfl⟩
    | exhausted => exact absurd hjudge verdict_ne_exhausted
    | found w => exact absurd ⟨m, verdict_found_iff.mp hjudge⟩ (habsent w)

end Probe

section Update

variable {home : K → Fin n} {t : Fin n → Slot K V} {k : K} {v : V} {i : Fin n}

/-- **Insertion** into the slot that the walk from the home finds free. -/
theorem Sound.insert (h : Sound home t) (habsent : ∀ w, ¬ Holds t k w)
    (hfree : walk t vacancy n (home k) = some (i, ())) (v : V) :
    Sound home (update t i (.occupied k v)) := by
  obtain ⟨d, hd, rfl, hvacant, hbefore⟩ := walk_some_iff.mp hfree
  have hfirst : ∀ e, e < d → t (after (home k) e) ≠ .empty := by
    intro e he hempty
    have hnone := hbefore e he
    rw [hempty] at hnone
    cases hnone
  have hkept : ∀ j, j ≠ after (home k) d →
      update t (after (home k) d) (.occupied k v) j = t j := fun j hj =>
    update_of_ne hj _ _
  refine ⟨?_, ?_⟩
  · intro k' w c hc hslot e he hempty
    -- a slot that is empty now was empty before
    by_cases hat : after (home k') e = after (home k) d
    · rw [hat, update_self] at hempty
      cases hempty
    rw [hkept _ hat] at hempty
    by_cases hnew : after (home k') c = after (home k) d
    · rw [hnew, update_self] at hslot
      cases hslot
      obtain rfl := after_inj _ hc hd hnew
      exact hfirst e he hempty
    · rw [hkept _ hnew] at hslot
      exact h.chain k' w c hc hslot e he hempty
  · intro k' w w' a b ha hb
    by_cases hat : a = after (home k) d
    · by_cases hbt : b = after (home k) d
      · rw [hat, hbt]
      rw [hat, update_self] at ha
      rw [hkept b hbt] at hb
      cases ha
      exact absurd ⟨b, hb⟩ (habsent w')
    · rw [hkept a hat] at ha
      by_cases hbt : b = after (home k) d
      · rw [hbt, update_self] at hb
        cases hb
        exact absurd ⟨a, ha⟩ (habsent w)
      · rw [hkept b hbt] at hb
        exact h.unique k' w w' a b ha hb

omit [NeZero n] in
/-- What a table holds after an insertion. -/
theorem holds_insert_iff (hfree : vacancy (t i) = some ()) {k' : K} {v' : V} :
    Holds (update t i (.occupied k v)) k' v' ↔ (k' = k ∧ v' = v) ∨ Holds t k' v' := by
  constructor
  · rintro ⟨j, hj⟩
    by_cases hat : j = i
    · rw [hat, update_self] at hj
      cases hj
      exact .inl ⟨rfl, rfl⟩
    · rw [update_of_ne hat] at hj
      exact .inr ⟨j, hj⟩
  · rintro (⟨rfl, rfl⟩ | ⟨j, hj⟩)
    · exact ⟨i, update_self ..⟩
    refine ⟨j, ?_⟩
    rwa [update_of_ne]
    rintro rfl
    rw [hj] at hfree
    cases hfree

/-- What a table holds after an erasure. -/
theorem Sound.holds_erase_iff (h : Sound home t) (hi : t i = .occupied k v) {k' : K} {v' : V} :
    Holds (update t i .tombstone) k' v' ↔ k' ≠ k ∧ Holds t k' v' := by
  constructor
  · rintro ⟨j, hj⟩
    by_cases hat : j = i
    · rw [hat, update_self] at hj
      cases hj
    rw [update_of_ne hat] at hj
    refine ⟨?_, j, hj⟩
    rintro rfl
    exact hat (h.unique k' v' v j i hj hi)
  · rintro ⟨hne, j, hj⟩
    refine ⟨j, ?_⟩
    rwa [update_of_ne]
    rintro rfl
    rw [hi] at hj
    exact hne (Slot.occupied.inj hj).1.symm

/-- **Erasure** leaves a tombstone. -/
theorem Sound.erase (h : Sound home t) (i : Fin n) :
    Sound home (update t i .tombstone) := by
  have hold : ∀ j k v, update t i .tombstone j = .occupied k v →
      t j = .occupied k v := by
    intro j k v hj
    by_cases hat : j = i
    · rw [hat, update_self] at hj
      cases hj
    · rwa [update_of_ne hat] at hj
  refine ⟨?_, fun k v w a b ha hb => h.unique k v w a b (hold a k v ha) (hold b k w hb)⟩
  intro k v d hd hslot e he hempty
  by_cases hat : after (home k) e = i
  · rw [hat, update_self] at hempty
    cases hempty
  · rw [update_of_ne hat] at hempty
    exact h.chain k v d hd (hold _ k v hslot) e he hempty

/-- The slot with another value. -/
def Slot.mapValue (f : V → V) : Slot K V → Slot K V
  | .empty => .empty
  | .occupied k v => .occupied k (f v)
  | .tombstone => .tombstone

theorem Slot.mapValue_occupied_iff {f : V → V} {s : Slot K V} :
    s.mapValue f = .occupied k v ↔ ∃ w, s = .occupied k w ∧ f w = v := by
  cases s with
  | empty | tombstone | occupied k' w => simp [Slot.mapValue]

/-- **A change of values** moves no key. -/
theorem Sound.mapValue (h : Sound home t) (f : V → V) : Sound home (fun i => (t i).mapValue f) := by
  refine ⟨?_, ?_⟩
  · intro k v d hd hslot e he hempty
    obtain ⟨w, hw, -⟩ := Slot.mapValue_occupied_iff.mp hslot
    refine h.chain k w d hd hw e he ?_
    revert hempty
    cases t (after (home k) e) <;> simp [Slot.mapValue]
  · intro k v w a b ha hb
    obtain ⟨v', hv, -⟩ := Slot.mapValue_occupied_iff.mp ha
    obtain ⟨w', hw, -⟩ := Slot.mapValue_occupied_iff.mp hb
    exact h.unique k v' w' a b hv hw

omit [NeZero n] in
theorem holds_mapValue_iff {f : V → V} :
    Holds (fun i => (t i).mapValue f) k v ↔ ∃ w, Holds t k w ∧ f w = v := by
  constructor
  · rintro ⟨j, hj⟩
    obtain ⟨w, hw, hv⟩ := Slot.mapValue_occupied_iff.mp hj
    exact ⟨w, ⟨j, hw⟩, hv⟩
  · rintro ⟨w, ⟨j, hj⟩, hv⟩
    exact ⟨j, Slot.mapValue_occupied_iff.mpr ⟨w, hj, hv⟩⟩

/-- A table without a free slot holds `n` different keys. -/
theorem Sound.full (h : Sound home t) (hfull : ∀ i, vacancy (t i) = none) :
    ∃ f : Fin n → K × V, (∀ i, Holds t (f i).1 (f i).2) ∧ Function.Injective fun i => (f i).1 := by
  have hslot : ∀ i, ∃ p : K × V, t i = .occupied p.1 p.2 := by
    intro i
    have hnone := hfull i
    cases hi : t i with
    | occupied k v => exact ⟨(k, v), rfl⟩
    | empty | tombstone =>
      rw [hi] at hnone
      cases hnone
  choose f hf using hslot
  refine ⟨f, fun i => ⟨i, hf i⟩, ?_⟩
  intro a b hab
  have hkey : (f a).1 = (f b).1 := hab
  have hb := hf b
  rw [← hkey] at hb
  exact h.unique (f a).1 _ _ a b (hf a) hb

end Update

end LinearProbing
