import Mathlib.Data.List.Induction

/-!
# Runs by their fronts

A run is the list of what has happened, and a front of it is what had happened at some
time.  A property that each new entry either keeps or breaks for good holds of a run exactly
if no entry breaks it.
-/

namespace Fronts

open List

variable {α : Type*} {ok : List α → α → Prop}

/-- A property that a new entry keeps exactly if it is in order. -/
theorem holds_iff {P : List α → Prop} (hnil : P [])
    (hstep : ∀ front a, P (front ++ [a]) ↔ P front ∧ ok front a) (l : List α) :
    P l ↔ ∀ front a, front ++ [a] <+: l → ok front a := by
  induction l using List.reverseRecOn with
  | nil => exact iff_of_true hnil fun front a hfront => absurd (prefix_nil.mp hfront) (by simp)
  | append_singleton before last ih =>
    rw [hstep, ih]
    constructor
    · rintro ⟨hbefore, hlast⟩ front a hfront
      rcases prefix_concat_iff.mp hfront with hall | hshorter
      · obtain ⟨rfl, hsame⟩ := append_inj' hall rfl
        rw [singleton_inj.mp hsame]
        exact hlast
      · exact hbefore front a hshorter
    · intro hall
      refine ⟨fun front a hfront => ?_, hall before last (prefix_refl _)⟩
      exact hall front a (hfront.trans (prefix_append before [last]))

/-- A property of the present that a new entry keeps exactly if it is in order. -/
theorem always_iff {Q : List α → Prop} (hnil : Q [])
    (hstep : ∀ front a, Q front → (Q (front ++ [a]) ↔ ok front a)) (l : List α) :
    (∀ front, front <+: l → Q front) ↔ ∀ front a, front ++ [a] <+: l → ok front a := by
  refine holds_iff (P := fun l => ∀ front, front <+: l → Q front) ?_ (fun before last => ?_) l
  · intro front hfront
    rw [prefix_nil.mp hfront]
    exact hnil
  constructor
  · intro hall
    have hbefore : ∀ front, front <+: before → Q front :=
      fun front hfront => hall front (hfront.trans (prefix_append before [last]))
    exact ⟨hbefore, (hstep before last (hbefore before (prefix_refl _))).mp
      (hall _ (prefix_refl _))⟩
  · rintro ⟨hbefore, hlast⟩ front hfront
    rcases prefix_concat_iff.mp hfront with rfl | hshorter
    · exact (hstep before last (hbefore before (prefix_refl _))).mpr hlast
    · exact hbefore front hshorter

end Fronts
