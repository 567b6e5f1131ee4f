import Mathlib.Data.List.Induction

/-!
# Threads of atomic steps

A program of type `Prog ε σ α` runs over a shared state `σ` in atomic steps.
Each step is given an input `ε` by the environment (an answer of a callback,
the time of day), updates the state, and what follows may depend on both.
Several threads interleave: a schedule says which thread steps next and with
which input.

To reason about all interleavings one says, for each thread, what a single step
of it may do to the shared state (its protocol), in terms of a part of the
state that only this thread changes (its view).  `Orderly` says that a program
keeps to the protocol; it is proved program by program, with a rule for
sequencing.  `Protocol.Followed.invariant` then gives what holds in every
interleaving, and `Protocol.Followed.along` what holds in those whose every step
is judged well.
-/

namespace Atomic

variable {ε σ α β γ : Type} {ι : Type*}

/-! ## Programs -/

/-- A program of atomic steps. -/
inductive Prog (ε σ α : Type) where
  | ret (a : α)
  | act (update : ε → σ → σ) (next : ε → σ → Prog ε σ α)

namespace Prog

/-- Sequencing. -/
def bind : Prog ε σ α → (α → Prog ε σ β) → Prog ε σ β
  | ret a, k => k a
  | act update next, k => act update fun e s => (next e s).bind k

instance : Monad (Prog ε σ) where
  pure := ret
  bind := bind

/-- One atomic step with a result. -/
def atomic (f : ε → σ → α × σ) : Prog ε σ α :=
  act (fun e s => (f e s).2) fun e s => ret (f e s).1

/-- Read from the shared state. -/
def load (read : σ → α) : Prog ε σ α := atomic fun _ s => (read s, s)

/-- Write to the shared state. -/
def store (write : ε → σ → σ) : Prog ε σ Unit := atomic fun e s => ((), write e s)

/-- Read the environment's input. -/
def observe (read : ε → α) : Prog ε σ α := atomic fun e s => (read e, s)

/-- Run a program for each element, in order. -/
def each (f : β → Prog ε σ α) : List β → Prog ε σ Unit
  | [] => ret ()
  | b :: rest => (f b).bind fun _ => each f rest

/-- One step of a program; a finished program stays as it is. -/
def step : Prog ε σ α → ε → σ → σ × Prog ε σ α
  | ret a, _, s => (s, ret a)
  | act update next, e, s => (update e s, next e s)

end Prog

/-! ## Keeping to a protocol -/

/-- From a state where the thread's view is `g`, every step of the program keeps to the protocol
`T`, and the program ends with the view `rest`. -/
def Orderly (T : ε → σ → σ → Prop) (view : σ → γ) (rest : γ) : Prog ε σ α → γ → Prop
  | .ret _, g => g = rest
  | .act update next, g =>
    ∀ e s, view s = g → T e s (update e s) ∧ Orderly T view rest (next e s) (view (update e s))

section Rules

variable {T : ε → σ → σ → Prop} {view : σ → γ} {rest : γ}

/-- Sequencing keeps to the protocol. -/
theorem Orderly.bind {p : Prog ε σ α} {k : α → Prog ε σ β} {g : γ} (h : Orderly T view rest p g)
    (hk : ∀ a, Orderly T view rest (k a) rest) : Orderly T view rest (p.bind k) g := by
  induction p generalizing g with
  | ret a =>
    have hrest : g = rest := h
    rw [hrest]
    exact hk a
  | act update next ih =>
    intro e s hview
    obtain ⟨hstep, hnext⟩ := h e s hview
    exact ⟨hstep, ih e s hnext⟩

/-- A single step keeps to the protocol if its update does and gives back the view. -/
theorem Orderly.atomic {f : ε → σ → α × σ} {g : γ}
    (h : ∀ e s, view s = g → T e s (f e s).2 ∧ view (f e s).2 = rest) :
    Orderly T view rest (Prog.atomic f) g :=
  h

/-- So does a program run for each element of a list. -/
theorem Orderly.each {f : β → Prog ε σ α} (h : ∀ b, Orderly T view rest (f b) rest)
    (bs : List β) : Orderly T view rest (Prog.each f bs) rest := by
  induction bs with
  | nil => exact rfl
  | cons b bs ih => exact (h b).bind fun _ => ih

/-- One step of an orderly program keeps to the protocol and leaves an orderly program. -/
theorem Orderly.step {p : Prog ε σ α} {s : σ} (h : Orderly T view rest p (view s))
    (hrest : ∀ e s, view s = rest → T e s s) (e : ε) :
    T e s (p.step e s).1 ∧ Orderly T view rest (p.step e s).2 (view (p.step e s).1) := by
  cases p with
  | ret a => exact ⟨hrest e s h, h⟩
  | act update next => exact h e s rfl

end Rules

/-! ## Interleavings -/

/-- Threads over a shared state. -/
structure Machine (ι : Type*) (ε σ : Type) where
  shared : σ
  threads : ι → Prog ε σ Unit

variable [DecidableEq ι]

/-- One step of one thread, with an input of the environment. -/
def Machine.step (m : Machine ι ε σ) (event : ι × ε) : Machine ι ε σ where
  shared := ((m.threads event.1).step event.2 m.shared).1
  threads := Function.update m.threads event.1 ((m.threads event.1).step event.2 m.shared).2

/-- The machine after the steps of a schedule. -/
def Machine.run (m : Machine ι ε σ) (schedule : List (ι × ε)) : Machine ι ε σ :=
  schedule.foldl Machine.step m

/-- A judgement on every step of a schedule: the state before it, the event and the state after
it. -/
def Machine.Along (ok : σ → ι × ε → σ → Prop) : Machine ι ε σ → List (ι × ε) → Prop
  | _, [] => True
  | m, event :: rest => ok m.shared event (m.step event).shared ∧ Along ok (m.step event) rest

instance Machine.Along.decide {ok : σ → ι × ε → σ → Prop}
    [∀ s event s', Decidable (ok s event s')] :
    ∀ (m : Machine ι ε σ) (schedule : List (ι × ε)), Decidable (m.Along ok schedule)
  | _, [] => isTrue trivial
  | m, event :: rest =>
    have : Decidable (Along ok (m.step event) rest) := Along.decide (m.step event) rest
    inferInstanceAs (Decidable (_ ∧ _))

/-- A protocol for every thread: what a step may do, what part of the state is the thread's own, and
what that part is between its calls.  No thread touches another's part. -/
structure Protocol (ι : Type*) (ε σ γ : Type) where
  steps : ι → ε → σ → σ → Prop
  view : ι → σ → γ
  rest : γ
  idle : ∀ i e s, view i s = rest → steps i e s s
  separate : ∀ i j e s s', i ≠ j → steps i e s s' → view j s' = view j s

/-- Every thread of the machine keeps to its protocol. -/
def Protocol.Followed (P : Protocol ι ε σ γ) (m : Machine ι ε σ) : Prop :=
  ∀ i, Orderly (P.steps i) (P.view i) P.rest (m.threads i) (P.view i m.shared)

section

variable {P : Protocol ι ε σ γ} {m : Machine ι ε σ} (h : P.Followed m)

include h

/-- A step of a machine that follows the protocol is a step of the protocol, and the machine goes
on following it. -/
theorem Protocol.Followed.step (event : ι × ε) :
    P.steps event.1 event.2 m.shared (m.step event).shared ∧ P.Followed (m.step event) := by
  obtain ⟨i, e⟩ := event
  obtain ⟨hstep, hnext⟩ := (h i).step (P.idle i) e
  refine ⟨hstep, ?_⟩
  intro j
  by_cases hj : j = i
  · subst hj
    simp only [Machine.step, Function.update_self]
    exact hnext
  · simp only [Machine.step, Function.update_of_ne hj]
    rw [P.separate i j e _ _ (Ne.symm hj) hstep]
    exact h j

/-- **The invariant rule.**  What every step of the protocol preserves holds in every
interleaving. -/
theorem Protocol.Followed.invariant {I : σ → Prop} (hstart : I m.shared)
    (hsteps : ∀ i e s s', I s → P.steps i e s s' → I s') (schedule : List (ι × ε)) :
    I (m.run schedule).shared := by
  induction schedule generalizing m with
  | nil => exact hstart
  | cons event rest ih =>
    obtain ⟨hstep, hnext⟩ := h.step event
    exact ih hnext (hsteps _ _ _ _ hstart hstep)

/-- The invariant rule for the interleavings whose every step is judged well. -/
theorem Protocol.Followed.along {I : σ → Prop} {ok : σ → ι × ε → σ → Prop} (hstart : I m.shared)
    (hsteps : ∀ event s s', I s → P.steps event.1 event.2 s s' → ok s event s' → I s')
    {schedule : List (ι × ε)} (hok : m.Along ok schedule) : I (m.run schedule).shared := by
  induction schedule generalizing m with
  | nil => exact hstart
  | cons event rest ih =>
    obtain ⟨hstep, hnext⟩ := h.step event
    exact ih hnext (hsteps event _ _ hstart hstep hok.1) hok.2

end

end Atomic
