import Mathlib.Algebra.BigOperators.Group.List.Basic
import Mathlib.Algebra.Order.Group.Nat
import Mathlib.Data.List.AList
import Mathlib.Data.Nat.Cast.Basic

/-!
# Sums over finite maps

A component that keeps an aggregate next to a map of records says that the aggregate is
a sum over the map.  The lemmas here say how such a sum changes when one entry is
written or erased; nothing else about the map is needed to keep the aggregate right.
`mapValues` relates two such maps, entry by entry.
-/

namespace KeyedSum

open List

variable {α β γ M : Type*}

/-- The sum of a weight over the entries of a map. -/
def total [AddCommMonoid M] (w : α → β → M) (s : AList fun _ : α => β) : M :=
  (s.entries.map fun e => w e.1 e.2).sum

/-- A sum of natural numbers, cast. -/
theorem natCast_total [AddCommMonoidWithOne M] (w : α → β → ℕ) (s : AList fun _ : α => β) :
    ((total w s : ℕ) : M) = total (fun a b => (w a b : M)) s := by
  unfold total
  induction s.entries with
  | nil => exact Nat.cast_zero
  | cons e entries ih =>
    rw [map_cons, map_cons, sum_cons, sum_cons, Nat.cast_add, ih]

/-- A heavier weight gives a heavier map. -/
theorem total_mono {w w' : α → β → ℕ} (h : ∀ a b, w a b ≤ w' a b) (s : AList fun _ : α => β) :
    total w s ≤ total w' s := by
  unfold total
  induction s.entries with
  | nil => exact Nat.le_refl _
  | cons e entries ih => exact Nat.add_le_add (h e.1 e.2) ih

/-- Change every value of a map. -/
def mapValues (f : β → γ) (s : AList fun _ : α => β) : AList fun _ : α => γ where
  entries := s.entries.map fun e => ⟨e.1, f e.2⟩
  nodupKeys := by
    have hkeys : List.keys (s.entries.map fun e => (⟨e.1, f e.2⟩ : Sigma fun _ : α => γ)) =
        s.entries.keys := by
      rw [List.keys, map_map]
      rfl
    rw [List.NodupKeys, hkeys]
    exact s.keys_nodup

/-- The entries keep their keys and their order. -/
@[simp] theorem entries_mapValues (f : β → γ) (s : AList fun _ : α => β) :
    (mapValues f s).entries = s.entries.map fun e => ⟨e.1, f e.2⟩ := rfl

/-- To weigh the changed values is to change the weight. -/
theorem total_mapValues [AddCommMonoid M] (f : β → γ) (s : AList fun _ : α => β) (w : α → γ → M) :
    total w (mapValues f s) = total (fun a b => w a (f b)) s := by
  unfold total mapValues
  rw [map_map]
  rfl

variable [DecidableEq α]

/-- `erase` works on the list of entries. -/
@[simp] theorem entries_erase (s : AList fun _ : α => β) (a : α) :
    (s.erase a).entries = s.entries.kerase a := rfl

/-- An entry and the rest of the map. -/
theorem entries_perm {s : AList fun _ : α => β} {a : α} {b : β} (h : s.lookup a = some b) :
    s.entries.Perm (⟨a, b⟩ :: (s.erase a).entries) := by
  have hmem : a ∈ s.entries.keys := by
    rw [← AList.keys, ← AList.mem_keys, ← AList.lookup_isSome, h]
    rfl
  obtain ⟨b', front, back, -, hsplit, herase⟩ := exists_of_kerase hmem
  have hentry : (⟨a, b'⟩ : Sigma fun _ : α => β) ∈ s.entries := by
    rw [hsplit]
    exact mem_append_right _ mem_cons_self
  have hsame : s.lookup a = some b' := AList.mem_lookup_iff.mpr hentry
  rw [h, Option.some.injEq] at hsame
  rw [entries_erase, herase, hsplit, hsame]
  exact perm_middle

/-- What holds of the entries of a map and of a new one holds of the entries after it. -/
theorem forall_insert {P : α → β → Prop} {s : AList fun _ : α => β}
    (h : ∀ a b, s.lookup a = some b → P a b) (k : α) (v : β) :
    (∀ a b, (s.insert k v).lookup a = some b → P a b) ↔ P k v := by
  refine ⟨fun hall => hall k v (AList.lookup_insert s), fun hv a b hlookup => ?_⟩
  by_cases hk : a = k
  · subst hk
    rw [AList.lookup_insert, Option.some.injEq] at hlookup
    exact hlookup ▸ hv
  · rw [AList.lookup_insert_ne hk] at hlookup
    exact h a b hlookup

section Total

variable [AddCommMonoid M] {w : α → β → M} {s : AList fun _ : α => β} {a : α} {b : β}

/-- The weight of one entry, and of the rest. -/
theorem total_eq_of_lookup (h : s.lookup a = some b) : total w s = w a b + total w (s.erase a) := by
  unfold total
  rw [((entries_perm h).map _).sum_eq]
  rfl

/-- Weights that agree on the entries of a map give the same sum. -/
theorem total_congr {w' : α → β → M} (h : ∀ a b, s.lookup a = some b → w a b = w' a b) :
    total w s = total w' s := by
  unfold total
  rw [map_congr_left fun e he => h e.1 e.2 (AList.mem_lookup_iff.mpr he)]

/-- There is nothing to erase at an absent key. -/
theorem erase_of_lookup_none (h : s.lookup a = none) : s.erase a = s := by
  apply AList.ext
  exact kerase_of_notMem_keys (AList.lookup_eq_none.mp h)

/-- A written entry replaces the one at its key. -/
theorem total_insert (w : α → β → M) (s : AList fun _ : α => β) (a : α) (b : β) :
    total w (s.insert a b) = w a b + total w (s.erase a) := by
  have hlookup : (s.insert a b).lookup a = some b := AList.lookup_insert s
  rw [total_eq_of_lookup hlookup]
  congr 2
  apply AList.ext
  rw [entries_erase, AList.entries_insert]
  exact kerase_cons_eq (s := (⟨a, b⟩ : Sigma fun _ : α => β)) rfl

end Total

/-- A part of the map weighs no more than the map. -/
theorem total_erase_le (w : α → β → ℕ) (s : AList fun _ : α => β) (a : α) :
    total w (s.erase a) ≤ total w s := by
  cases h : s.lookup a with
  | none => rw [erase_of_lookup_none h]
  | some b =>
    rw [total_eq_of_lookup h]
    exact Nat.le_add_left _ _

section MapValues

variable (f : β → γ) (s : AList fun _ : α => β)

/-- The value at a key is changed, and no key comes or goes. -/
@[simp] theorem lookup_mapValues (a : α) : (mapValues f s).lookup a = (s.lookup a).map f := by
  obtain ⟨entries, hnodup⟩ := s
  unfold mapValues AList.lookup
  dsimp only
  clear hnodup
  induction entries with
  | nil => rfl
  | cons e entries ih =>
    obtain ⟨a', b⟩ := e
    by_cases ha : a' = a
    · subst ha
      rw [map_cons, dlookup_cons_eq, dlookup_cons_eq]
      rfl
    · rw [map_cons, dlookup_cons_ne _ _ (Ne.symm ha), dlookup_cons_ne _ _ (Ne.symm ha), ih]

/-- Erasing commutes with changing the values. -/
@[simp] theorem erase_mapValues (a : α) : (mapValues f s).erase a = mapValues f (s.erase a) := by
  apply AList.ext
  exact eraseP_map

/-- So does writing an entry. -/
@[simp] theorem insert_mapValues (a : α) (b : β) :
    (mapValues f s).insert a (f b) = mapValues f (s.insert a b) := by
  apply AList.ext
  have herase := congrArg AList.entries (erase_mapValues f s a)
  rw [entries_erase, entries_mapValues, entries_mapValues, entries_erase] at herase
  rw [AList.entries_insert, entries_mapValues, entries_mapValues, AList.entries_insert,
    map_cons, herase]

end MapValues

end KeyedSum
