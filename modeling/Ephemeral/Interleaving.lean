import Mathlib.Data.List.Induction

/-!
# Threads at program points

Each thread stands at a program point.  A move of a thread reads and writes the state the
threads share and takes the thread to its next point; an input of the environment may come
with it.  A schedule says who moves, and with which input; every schedule is an
interleaving.

A condition on single steps is lifted to schedules by `Throughout`: it holds of every step,
in the configuration the step starts from.  What one step keeps under such a condition, the
whole run keeps (`run_keeps`), and it holds before each step of the run (`throughout_of`).
-/

namespace Interleave

open Function

variable {ι ε σ ℓ : Type*}

/-- The shared state and the point of every thread. -/
structure Config (ι σ ℓ : Type*) where
  shared : σ
  point : ι → ℓ

/-- What a thread does at a point, given the environment's input. -/
abbrev Moves (ι ε σ ℓ : Type*) := ι → ε → σ → ℓ → σ × ℓ

variable [DecidableEq ι] (move : Moves ι ε σ ℓ)

variable (c : Config ι σ ℓ)

/-- One move of one thread. -/
def Config.step (event : ι × ε) : Config ι σ ℓ where
  shared := (move event.1 event.2 c.shared (c.point event.1)).1
  point := update c.point event.1 (move event.1 event.2 c.shared (c.point event.1)).2

/-- The configuration after a schedule. -/
def Config.run (schedule : List (ι × ε)) : Config ι σ ℓ :=
  schedule.foldl (Config.step move) c

/-- Every step of the schedule meets the condition where it starts. -/
def Throughout (ok : Config ι σ ℓ → ι × ε → Prop) : Config ι σ ℓ → List (ι × ε) → Prop
  | _, [] => True
  | c, event :: rest => ok c event ∧ Throughout ok (c.step move event) rest

variable {move}

section

variable (c : Config ι σ ℓ)

@[simp] theorem Config.run_nil : c.run move [] = c := rfl

@[simp] theorem Config.run_cons (event : ι × ε) (rest : List (ι × ε)) :
    c.run move (event :: rest) = (c.step move event).run move rest := rfl

theorem Config.run_append (first rest : List (ι × ε)) :
    c.run move (first ++ rest) = (c.run move first).run move rest :=
  List.foldl_append

/-- The thread that moves goes to its next point. -/
theorem Config.step_point_self (i : ι) (e : ε) :
    (c.step move (i, e)).point i = (move i e c.shared (c.point i)).2 :=
  update_self ..

/-- The others stay where they are. -/
theorem Config.step_point_of_ne {i j : ι} (e : ε) (h : j ≠ i) :
    (c.step move (i, e)).point j = c.point j :=
  update_of_ne h ..

end

section Conditions

variable {ok : Config ι σ ℓ → ι × ε → Prop} {Inv : Config ι σ ℓ → Prop}

instance Throughout.instDecidable [∀ c event, Decidable (ok c event)] :
    ∀ (c : Config ι σ ℓ) (schedule : List (ι × ε)), Decidable (Throughout move ok c schedule)
  | _, [] => .isTrue trivial
  | c, event :: rest =>
    have := Throughout.instDecidable (c.step move event) rest
    inferInstanceAs (Decidable (ok c event ∧ Throughout move ok (c.step move event) rest))

/-- A condition holds throughout a schedule exactly if it does so throughout the first part and,
from where that part ends, throughout the second. -/
theorem throughout_append (first rest : List (ι × ε)) :
    Throughout move ok c (first ++ rest) ↔
      Throughout move ok c first ∧ Throughout move ok (c.run move first) rest := by
  induction first generalizing c with
  | nil => simp [Throughout]
  | cons event first ih =>
    simp only [List.cons_append, Throughout, ih, Config.run_cons, and_assoc]

section

variable (hstep : ∀ c event, ok c event → Inv c → Inv (c.step move event))

include hstep

section

variable {c : Config ι σ ℓ} (hstart : Inv c) {schedule : List (ι × ε)}
  (hok : Throughout move ok c schedule)

include hstart hok

/-- What every step keeps, a run keeps. -/
theorem run_keeps : Inv (c.run move schedule) := by
  induction schedule generalizing c with
  | nil => exact hstart
  | cons event rest ih => exact ih (hstep c event hok.1 hstart) hok.2

/-- What an invariant of the run implies of single steps holds of every step of the run. -/
theorem throughout_of {good : Config ι σ ℓ → ι × ε → Prop}
    (hgood : ∀ c event, ok c event → Inv c → good c event) : Throughout move good c schedule := by
  induction schedule generalizing c with
  | nil => exact trivial
  | cons event rest ih =>
    exact ⟨hgood c event hok.1 hstart, ih (hstep c event hok.1 hstart) hok.2⟩

end

end

end Conditions

/-! ## Reachable configurations -/

/-- The configuration with one thread put elsewhere. -/
def Config.put (i : ι) (l : ℓ) : Config ι σ ℓ :=
  { c with point := update c.point i l }

theorem Config.put_point (i : ι) : c.put i (c.point i) = c := by
  unfold Config.put
  rw [update_eq_self]

theorem Config.put_put (i : ι) (l m : ℓ) : (c.put i l).put i m = c.put i m := by
  unfold Config.put
  rw [update_idem]

variable (move)

/-- Some schedule leads from one configuration to the other. -/
def Reaches (c c' : Config ι σ ℓ) : Prop := ∃ schedule, c.run move schedule = c'

variable {move}

theorem reaches_run (schedule : List (ι × ε)) : Reaches move c (c.run move schedule) :=
  ⟨schedule, rfl⟩

theorem Reaches.trans {c c' c'' : Config ι σ ℓ} (h : Reaches move c c')
    (h' : Reaches move c' c'') : Reaches move c c'' := by
  obtain ⟨first, rfl⟩ := h
  obtain ⟨rest, rfl⟩ := h'
  exact ⟨first ++ rest, c.run_append first rest⟩

/-- A thread that goes through a loop and leaves the shared state alone gets to the end of the
loop. -/
theorem reaches_loop {i : ι} {e : ε} {c : Config ι σ ℓ} (walk : Nat → ℓ) (n j : Nat)
    (hpoint : c.point i = walk j)
    (hloop : ∀ m, j ≤ m → m < j + n → move i e c.shared (walk m) = (c.shared, walk (m + 1))) :
    Reaches move c (c.put i (walk (j + n))) := by
  induction n generalizing c j with
  | zero =>
    rw [Nat.add_zero, ← hpoint, c.put_point]
    exact ⟨[], rfl⟩
  | succ n ih =>
    have hmove : move i e c.shared (c.point i) = (c.shared, walk (j + 1)) := by
      rw [hpoint]
      exact hloop j (Nat.le_refl j) (by omega)
    have hstep : c.step move (i, e) = c.put i (walk (j + 1)) := by
      unfold Config.step Config.put
      rw [hmove]
    have hrest := @ih (c.put i (walk (j + 1))) (j + 1) (update_self ..)
      fun m hm hlt => hloop m (by omega) (by omega)
    rw [c.put_put, Nat.add_right_comm, Nat.add_assoc] at hrest
    exact Reaches.trans ⟨[(i, e)], hstep⟩ hrest

end Interleave
