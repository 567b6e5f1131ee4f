import Mathlib.Logic.Basic

/-!
# Components that call out

A component over a state `σ` runs until it calls a hook `H` of its environment.  While
the hook is running the environment may do anything, in particular invoke operations
of the component again; when the hook returns, with a reply `A`, the component goes on
from the state it then finds.  So the calls in progress form a stack, and a run is a
list of moves of the environment: invoke an operation, or return from the innermost
hook.

Reasoning about such a component is reasoning about what it finds when a hook returns.
`Accounted` says, along all continuations of an operation, that it leaves a good state
at its end, and that each of its hooks either is entered in a good state or is followed
by code that copes with every state.  `Accounted` also compares two judgements: what
one wants to know of every stretch of code between two hooks, and what one has to
require of the state in which a hook returns.  `along_iff` gives that the two agree on
whole runs.

Hooks that do not call back are simpler: what changes while one is running is only what
lies outside the component.  `watched_of_calm` is the rule for runs of that kind, for
judgements that depend on a tally kept along the run.
-/

namespace Reentrant

open List

variable {σ H A O : Type}

/-- A stretch of code: it ends, calls a hook, or does something undefined. -/
inductive Outcome (σ H A : Type) where
  | done (s : σ)
  | call (s : σ) (hook : H) (resume : A → σ → Outcome σ H A)
  | fault

/-- The state that a stretch of code leaves. -/
def Outcome.left : Outcome σ H A → Option σ
  | done s => some s
  | call s _ _ => some s
  | fault => none

/-- A hook in progress, with the code that follows it. -/
abbrev Pending (σ H A : Type) := H × (A → σ → Outcome σ H A)

/-- The component's state and the hooks in progress, the innermost first. -/
structure Machine (σ H A : Type) where
  state : σ
  pending : List (Pending σ H A)

/-- A move of the environment.  A return without a hook in progress does nothing. -/
inductive Move (O A : Type) where
  | invoke (op : O)
  | answer (reply : A)

namespace Machine

/-- The stretch of code that a move runs. -/
def outcome (ops : O → σ → Outcome σ H A) (m : Machine σ H A) : Move O A → Outcome σ H A
  | .invoke op => ops op m.state
  | .answer reply =>
    match m.pending with
    | [] => .done m.state
    | (_, resume) :: _ => resume reply m.state

/-- The hooks that stay in progress below that code. -/
def below (m : Machine σ H A) : Move O A → List (Pending σ H A)
  | .invoke _ => m.pending
  | .answer _ => m.pending.tail

/-- One move. -/
def step (ops : O → σ → Outcome σ H A) (m : Machine σ H A) (move : Move O A) :
    Option (Machine σ H A) :=
  match m.outcome ops move with
  | .done s => some ⟨s, m.below move⟩
  | .call s hook resume => some ⟨s, (hook, resume) :: m.below move⟩
  | .fault => none

/-- A judgement holds at every move of a run. -/
def Along (ops : O → σ → Outcome σ H A) (P : Machine σ H A → Move O A → Prop) :
    Machine σ H A → List (Move O A) → Prop
  | _, [] => True
  | m, move :: rest =>
    P m move ∧ match m.step ops move with
      | none => True
      | some m' => Along ops P m' rest

/-- A run can be judged if its moves can. -/
def Along.decide {ops : O → σ → Outcome σ H A} {P : Machine σ H A → Move O A → Prop}
    [∀ m move, Decidable (P m move)] :
    ∀ (m : Machine σ H A) (moves : List (Move O A)), Decidable (Along ops P m moves)
  | _, [] => isTrue trivial
  | m, move :: rest =>
    have : Decidable (match m.step ops move with
        | none => True
        | some m' => Along ops P m' rest) :=
      match m.step ops move with
      | none => isTrue trivial
      | some m' => Along.decide m' rest
    inferInstanceAs (Decidable (_ ∧ _))

instance {ops : O → σ → Outcome σ H A} {P : Machine σ H A → Move O A → Prop}
    [∀ m move, Decidable (P m move)] (m : Machine σ H A) (moves : List (Move O A)) :
    Decidable (Along ops P m moves) :=
  Along.decide m moves

/-- What is required of the state in which the innermost hook returns. -/
def Met (need : H → σ → Prop) (m : Machine σ H A) : Move O A → Prop
  | .invoke _ => True
  | .answer _ =>
    match m.pending with
    | [] => True
    | (hook, _) :: _ => need hook m.state

end Machine

section Accounts

variable (Good : σ → Prop) (judge : σ → Outcome σ H A → Prop) (need : H → σ → Prop)

/-- Code that ends in a good state, and whose every stretch after a hook is judged well
exactly if the hook's requirement is met.  A hook that is entered in a state that is not
good has no requirement, and what follows it copes with every state. -/
def Accounted : Outcome σ H A → Prop
  | .done s => Good s
  | .fault => True
  | .call s hook resume =>
    (∀ a s', Good s' → (judge s' (resume a s') ↔ need hook s') ∧ Accounted (resume a s')) ∧
    (Good s ∨ ∀ a s', (judge s' (resume a s') ∧ need hook s') ∧ Accounted (resume a s'))

variable {Good judge need}

/-- The hooks in progress are accounted for, and the state is good unless the innermost
hook is followed by code that copes. -/
structure Sound (Good : σ → Prop) (judge : σ → Outcome σ H A → Prop) (need : H → σ → Prop)
    (m : Machine σ H A) : Prop where
  frames : ∀ frame ∈ m.pending, ∀ a s', Good s' →
    (judge s' (frame.2 a s') ↔ need frame.1 s') ∧ Accounted Good judge need (frame.2 a s')
  good : Good m.state ∨ ∃ frame, m.pending.head? = some frame ∧
    ∀ a s', (judge s' (frame.2 a s') ∧ need frame.1 s') ∧
      Accounted Good judge need (frame.2 a s')

/-- What is asked of the operations: they are judged well, and accounted for when they
are invoked in a good state.  Invoked in another state they are so too, or end at once. -/
structure Operations (Good : σ → Prop) (judge : σ → Outcome σ H A → Prop) (need : H → σ → Prop)
    (ops : O → σ → Outcome σ H A) : Prop where
  judged : ∀ op s, judge s (ops op s)
  accounted : ∀ op s, Good s → Accounted Good judge need (ops op s)
  otherwise : ∀ op s, (∃ s', ops op s = .done s') ∨ Accounted Good judge need (ops op s)
  idle : ∀ s, judge s (.done s)

variable {ops : O → σ → Outcome σ H A} {m : Machine σ H A}

/-- Accounted code leaves a sound machine. -/
theorem Sound.settle (h : Sound Good judge need m) (move : Move O A)
    (hout : Accounted Good judge need (m.outcome ops move)) {m' : Machine σ H A}
    (hstep : m.step ops move = some m') : Sound Good judge need m' := by
  have hbelow : ∀ frame ∈ m.below move, frame ∈ m.pending := by
    intro frame hframe
    cases move with
    | invoke op => exact hframe
    | answer reply => exact mem_of_mem_tail hframe
  unfold Machine.step at hstep
  generalize m.outcome ops move = out at hout hstep
  cases out with
  | done s =>
    cases hstep
    exact ⟨fun frame hframe => h.frames frame (hbelow frame hframe), .inl hout⟩
  | call s hook resume =>
    cases hstep
    refine ⟨forall_mem_cons.mpr ⟨hout.1, fun frame hold => h.frames frame (hbelow frame hold)⟩, ?_⟩
    · exact hout.2.imp_right fun hcopes => ⟨_, rfl, hcopes⟩
  | fault => cases hstep

/-- One move of a sound machine: the code it runs is judged well exactly if the
requirement is met, and the machine stays sound. -/
theorem Sound.step (hops : Operations Good judge need ops) (h : Sound Good judge need m)
    (move : Move O A) :
    (judge m.state (m.outcome ops move) ↔ m.Met need move) ∧
      ∀ m', m.step ops move = some m' → Sound Good judge need m' := by
  cases move with
  | invoke op =>
    refine ⟨⟨fun _ => trivial, fun _ => hops.judged op m.state⟩, fun m' hstep => ?_⟩
    rcases h.good with hgood | hcopes
    · exact h.settle (.invoke op) (hops.accounted op m.state hgood) hstep
    rcases hops.otherwise op m.state with ⟨s', hdone⟩ | hout
    · -- The operation ends at once, and the innermost hook is still followed by code
      -- that copes.
      have hm' : m' = ⟨s', m.pending⟩ := by
        simp only [Machine.step, Machine.outcome, hdone, Machine.below] at hstep
        exact (Option.some.inj hstep).symm
      subst hm'
      exact ⟨h.frames, .inr hcopes⟩
    · exact h.settle (.invoke op) hout hstep
  | answer reply =>
    obtain ⟨s, pending⟩ := m
    cases pending with
    | nil =>
      refine ⟨⟨fun _ => trivial, fun _ => hops.idle s⟩, fun m' hstep => ?_⟩
      cases hstep
      exact h
    | cons frame rest =>
      have hreturn : (judge s (frame.2 reply s) ↔ need frame.1 s) ∧
          Accounted Good judge need (frame.2 reply s) := by
        rcases h.good with hgood | ⟨_, hhead, hcopes⟩
        · exact h.frames frame mem_cons_self reply s hgood
        cases hhead
        obtain ⟨⟨hjudge, hneed⟩, hout⟩ := hcopes reply s
        exact ⟨⟨fun _ => hneed, fun _ => hjudge⟩, hout⟩
      exact ⟨hreturn.1, fun m' hstep => h.settle (.answer reply) hreturn.2 hstep⟩

/-- **The two judgements agree on whole runs.**  From a sound machine, every stretch of
code of a run is judged well if and only if every hook of the run returns in a state that
meets its requirement. -/
theorem along_iff (hops : Operations Good judge need ops) (h : Sound Good judge need m)
    (moves : List (Move O A)) :
    m.Along ops (fun m move => judge m.state (m.outcome ops move)) moves ↔
      m.Along ops (fun m move => m.Met need move) moves := by
  induction moves generalizing m with
  | nil => exact Iff.rfl
  | cons move rest ih =>
    obtain ⟨hhere, hnext⟩ := h.step hops move
    refine and_congr hhere ?_
    cases hstep : m.step ops move with
    | none => exact Iff.rfl
    | some m' => exact ih (hnext m' hstep)

/-- A machine without hooks in progress is sound if its state is good. -/
theorem Sound.start {s : σ} (h : Good s) : Sound Good judge need (⟨s, []⟩ : Machine σ H A) :=
  ⟨fun _ hframe => (not_mem_nil hframe).elim, .inl h⟩

end Accounts

/-! ## Hooks that do not call back -/

/-- The hook that a stretch of code calls. -/
def Outcome.hook : Outcome σ H A → Option H
  | call _ hook _ => some hook
  | _ => none

/-- The reply that a move brings. -/
def Move.reply : Move O A → Option A
  | invoke _ => none
  | answer reply => some reply

section Calm

variable {G : Type} (ops : O → σ → Outcome σ H A) (outside : O → Bool) (timely : σ → O → Prop)
  (note : G → Move O A → σ → σ → Option H → G) (judge : G → Move O A → σ → σ → Option H → Prop)

/-- The moves that run no code of the component: invocations of what lies outside it, and
returns without a hook in progress. -/
def Machine.idles (m : Machine σ H A) : Move O A → Bool
  | .invoke op => outside op
  | .answer _ => m.pending.isEmpty

/-- A judgement on every stretch of code of a run, from the state before it to the state
after it, with the move it starts from, the hook it calls and a tally of the run so far. -/
def Machine.Watched : G → Machine σ H A → List (Move O A) → Prop
  | _, _, [] => True
  | g, m, move :: rest =>
    match m.step ops move with
    | none => True
    | some m' =>
      if m.idles outside move then Watched g m' rest
      else
        judge g move m.state m'.state (m.outcome ops move).hook ∧
          Watched (note g move m.state m'.state (m.outcome ops move).hook) m' rest

/-- A move of an environment whose hooks do not call back: while one is running, nothing is
invoked but what lies outside the component.  `timely` says what may be invoked when. -/
def Machine.Calm (m : Machine σ H A) : Move O A → Prop
  | .answer _ => True
  | .invoke op => timely m.state op ∧ (m.pending = [] ∨ outside op = true)

instance [∀ s op, Decidable (timely s op)] (m : Machine σ H A) (move : Move O A) :
    Decidable (m.Calm outside timely move) :=
  match move, m with
  | .answer _, _ => isTrue trivial
  | .invoke op, ⟨s, []⟩ => decidable_of_iff (timely s op) ⟨fun h => ⟨h, .inl rfl⟩, fun h => h.1⟩
  | .invoke op, ⟨s, _ :: _⟩ =>
    decidable_of_iff (timely s op ∧ outside op = true)
      ⟨fun h => ⟨h.1, .inr h.2⟩, fun h => ⟨h.1, h.2.resolve_left (cons_ne_nil _ _)⟩⟩

variable (drift : σ → σ → Prop) (rest : G → σ → Prop)

/-- Code that is judged well in every stretch, whatever its hooks reply and whatever drifts
while they run, and that ends in a state of rest. -/
def Held : Outcome σ H A → G → Move O A → σ → Prop
  | .done s', g, r, s => judge g r s s' none ∧ rest (note g r s s' none) s'
  | .fault, _, _, _ => True
  | .call s' hook resume, g, r, s => judge g r s s' (some hook) ∧
    ∀ a s'', drift s' s'' → Held (resume a s'') (note g r s s' (some hook)) (.answer a) s''

/-- The machine is at rest, or one hook is running and is followed by code that holds. -/
def Machine.Steady (g : G) (m : Machine σ H A) : Prop :=
  (m.pending = [] ∧ rest g m.state) ∨
    ∃ hook resume s, m.pending = [(hook, resume)] ∧ drift s m.state ∧
      ∀ a s', drift s s' → Held note judge drift rest (resume a s') g (.answer a) s'

/-- What is asked of a component for the rule: its operations hold when they are invoked at
rest, and those outside only let the state drift, which does not disturb the rest. -/
structure CalmComponent : Prop where
  drift_refl : ∀ s, drift s s
  drift_trans : ∀ s s' s'', drift s s' → drift s' s'' → drift s s''
  rest_drift : ∀ g s s', rest g s → drift s s' → rest g s'
  held : ∀ op g s, outside op = false → rest g s → timely s op →
    Held note judge drift rest (ops op s) g (.invoke op) s
  outer : ∀ op s, outside op = true → timely s op → ∃ s', ops op s = .done s' ∧ drift s s'

variable {ops outside timely note judge drift rest}

section

variable {g : G} {m m' : Machine σ H A} {move : Move O A}
  (hcomp : CalmComponent ops outside timely note judge drift rest)

include hcomp

/-- Code that holds leaves a steady machine, where nothing was running below it. -/
theorem Machine.Steady.of_held (hbelow : m.below move = []) (hstep : m.step ops move = some m')
    (h : Held note judge drift rest (m.outcome ops move) g move m.state) :
    judge g move m.state m'.state (m.outcome ops move).hook ∧
      m'.Steady note judge drift rest
        (note g move m.state m'.state (m.outcome ops move).hook) := by
  unfold Machine.step at hstep
  generalize m.outcome ops move = out at h hstep
  cases out with
  | done s =>
    cases hstep
    exact ⟨h.1, .inl ⟨hbelow, h.2⟩⟩
  | call s hook resume =>
    cases hstep
    exact ⟨h.1, .inr ⟨hook, resume, s, by rw [hbelow], hcomp.drift_refl s, h.2⟩⟩
  | fault => cases hstep

section

variable (h : m.Steady note judge drift rest g) (hcalm : m.Calm outside timely move)
  (hstep : m.step ops move = some m')

include h hcalm hstep

/-- A move that runs no code keeps the machine steady. -/
theorem Machine.Steady.idle (hidle : m.idles outside move = true) :
    m'.Steady note judge drift rest g := by
  cases move with
  | invoke op =>
    obtain ⟨s', hdone, hdrift⟩ := hcomp.outer op m.state hidle hcalm.1
    have hm' : m' = ⟨s', m.pending⟩ := by
      simp only [Machine.step, Machine.outcome, hdone, Machine.below] at hstep
      exact (Option.some.inj hstep).symm
    subst hm'
    rcases h with ⟨hnil, hrest⟩ | ⟨hook, resume, s, hpending, hto, hheld⟩
    · exact .inl ⟨hnil, hcomp.rest_drift _ _ _ hrest hdrift⟩
    · exact .inr ⟨hook, resume, s, hpending, hcomp.drift_trans _ _ _ hto hdrift, hheld⟩
  | answer reply =>
    have hnil : m.pending = [] := isEmpty_iff.mp hidle
    have hm' : m' = m := by
      obtain ⟨s, pending⟩ := m
      subst hnil
      exact (Option.some.inj hstep).symm
    rw [hm']
    exact h

/-- A move that runs code: it is judged well, and the machine stays steady. -/
theorem Machine.Steady.step (hbusy : m.idles outside move = false) :
    judge g move m.state m'.state (m.outcome ops move).hook ∧
      m'.Steady note judge drift rest
        (note g move m.state m'.state (m.outcome ops move).hook) := by
  cases move with
  | invoke op =>
    obtain ⟨htimely, hnil | hout⟩ := hcalm
    · rcases h with ⟨-, hrest⟩ | ⟨hook, resume, s, hpending, -, -⟩
      · exact Machine.Steady.of_held hcomp hnil hstep (hcomp.held op g m.state hbusy hrest htimely)
      · rw [hnil] at hpending
        cases hpending
    · cases hbusy.symm.trans hout
  | answer reply =>
    obtain ⟨s, pending⟩ := m
    rcases h with ⟨hnil, -⟩ | ⟨hook, resume, s', hpending, hto, hheld⟩
    · subst hnil
      cases hbusy
    · subst hpending
      exact Machine.Steady.of_held hcomp rfl hstep (hheld reply s hto)

end

end

/-- **The rule for calm runs.**  From a steady machine, every stretch of code of a run whose
hooks do not call back is judged well. -/
theorem watched_of_calm (hcomp : CalmComponent ops outside timely note judge drift rest) {g : G}
    {m : Machine σ H A} (h : m.Steady note judge drift rest g) {moves : List (Move O A)}
    (hcalm : m.Along ops (fun m move => m.Calm outside timely move) moves) :
    m.Watched ops outside note judge g moves := by
  induction moves generalizing g m with
  | nil => trivial
  | cons move moves ih =>
    obtain ⟨hmove, hlater⟩ := hcalm
    unfold Machine.Watched
    cases hstep : m.step ops move with
    | none => trivial
    | some m' =>
      rw [hstep] at hlater
      dsimp only
      split
      · rename_i hidle
        exact ih (h.idle hcomp hmove hstep hidle) hlater
      · rename_i hbusy
        obtain ⟨hjudge, hsteady⟩ := h.step hcomp hmove hstep (Bool.eq_false_iff.mpr hbusy)
        exact ⟨hjudge, ih hsteady hlater⟩

end Calm

end Reentrant
