import Mathlib.Algebra.GroupWithZero.Nat
import Mathlib.Algebra.Order.BigOperators.Group.List
import Mathlib.Algebra.Order.Group.Nat
import Mathlib.Data.List.Induction
import Mathlib.Order.Bounds.Defs

/-!
# Reassembly of a stream from slices

An abstract receiver sees slices `[off, off + len)` of a stream in any order.  It
delivers the slice that starts at its frontier `next`, holds slices that lie ahead
of it in a bounded list, and ignores the rest; after a delivery it drains the
held slices that have become deliverable.  Held slices are removed by swapping in
the last one, so their order is part of the state.

* `drain_spec` and `arrive_consecutive`: what is delivered is a gap-free
  run of slices from the old frontier to the new one;
* `Settled`: every received slice is either behind the frontier or held ahead of
  it, and `Settled.isGreatest` concludes that the frontier is the end of the
  longest covered prefix;
* `arrive_settled`: an arrival keeps the receiver settled as long as it does not
  straddle the frontier and its delivery does not stop inside a held slice, and
  `Aligned.arrive_settled` discharges both for the cells of one partition.
-/

namespace Reassembly

open List

variable {α : Type} {a b : Nat} {received : List Seg} {st : State}

/-- A slice of the stream. -/
structure Seg where
  off : Nat
  len : Nat
  deriving DecidableEq

/-- The first position after a slice. -/
def Seg.stop (s : Seg) : Nat := s.off + s.len

/-- Overwrite position `i` by the last element and drop that. -/
def swapRemove {α : Type} (l : List α) (i : Nat) : List α :=
  match l.getLast? with
  | none => []
  | some last => (l.set i last).dropLast

theorem length_swapRemove_le (l : List α) (i : Nat) : (swapRemove l i).length ≤ l.length := by
  unfold swapRemove
  split
  · exact Nat.zero_le _
  · simp

theorem map_swapRemove {α β : Type} (f : α → β) (l : List α) (i : Nat) :
    (swapRemove l i).map f = swapRemove (l.map f) i := by
  unfold swapRemove
  rw [getLast?_map]
  cases l.getLast? with
  | none => rfl
  | some last => simp [map_dropLast, map_set]

/-- Swap-removal takes out exactly the element at its position. -/
theorem perm_swapRemove {l : List α} {i : Nat} {x : α} (h : l[i]? = some x) :
    l.Perm (x :: swapRemove l i) := by
  obtain rfl | ⟨l, last, rfl⟩ := eq_nil_or_concat l
  · simp at h
  rw [concat_eq_append] at h ⊢
  rw [swapRemove, getLast?_concat]
  refine (perm_append_singleton last l).trans ?_
  by_cases hi : i < l.length
  · rw [getElem?_append_left hi] at h
    obtain ⟨hlt, rfl⟩ := List.getElem?_eq_some_iff.mp h
    simp only [set_append_left _ _ hi, dropLast_concat]
    calc List.Perm (last :: l) (last :: l[i] :: l.eraseIdx i) :=
          (getElem_cons_eraseIdx_perm hlt).symm.cons last
      List.Perm _ (l[i] :: last :: l.eraseIdx i) := List.Perm.swap _ _ _
      List.Perm _ (l[i] :: l.set i last) := (set_perm_cons_eraseIdx hlt last).symm.cons _
  · have hlast : i = l.length := by
      have := (List.getElem?_eq_some_iff.mp h).1
      rw [length_append, length_singleton] at this
      omega
    subst hlast
    rw [getElem?_concat_length] at h
    cases h
    simp

/-- The first element that satisfies `p`, with the list it leaves behind. -/
def takeFirst {α : Type} (p : α → Bool) (l : List α) : Option (α × List α) :=
  match l.findIdx? p with
  | none => none
  | some i =>
    match l[i]? with
    | none => none
    | some x => some (x, swapRemove l i)

theorem takeFirst_eq_none {p : α → Bool} {l : List α} (h : takeFirst p l = none) :
    ∀ x ∈ l, p x = false := by
  unfold takeFirst at h
  split at h
  · rename_i hidx
    exact findIdx?_eq_none_iff.mp hidx
  · rename_i i hidx
    obtain ⟨hlt, -⟩ := findIdx?_eq_some_iff_getElem.mp hidx
    simp [hlt] at h

theorem takeFirst_eq_some {p : α → Bool} {l rest : List α} {x : α}
    (h : takeFirst p l = some (x, rest)) : p x = true ∧ l.Perm (x :: rest) := by
  unfold takeFirst at h
  split at h
  · cases h
  rename_i i hidx
  obtain ⟨hlt, hp, -⟩ := findIdx?_eq_some_iff_getElem.mp hidx
  rw [getElem?_eq_getElem hlt] at h
  cases h
  exact ⟨hp, perm_swapRemove (getElem?_eq_getElem hlt)⟩

/-- The receiver: its frontier and the slices it holds. -/
structure State where
  next : Nat
  held : List Seg
  deriving DecidableEq

/-- Deliver held slices for as long as one starts at the frontier; the second
component lists them in order.  Every round removes a slice, so `held.length`
rounds suffice. -/
def drain : Nat → State → State × List Seg
  | 0, st => (st, [])
  | fuel + 1, st =>
    match takeFirst (·.off == st.next) st.held with
    | none => (st, [])
    | some (e, rest) =>
      let (st', out) := drain fuel ⟨st.next + e.len, rest⟩
      (st', e :: out)

/-- One arrival.  `none` is the overflow of the held list; slices longer than
`cap` cannot be held. -/
def arrive (slots cap : Nat) (st : State) (s : Seg) : Option (State × List Seg) :=
  if s.off = st.next then
    let (st', out) := drain st.held.length { st with next := st.next + s.len }
    some (st', s :: out)
  else if st.next < s.off then
    if s.len ≤ cap then
      if st.held.length < slots then some ({ st with held := st.held ++ [s] }, []) else none
    else some (st, [])
  else some (st, [])

/-- A gap-free run of slices from `a` to `b`. -/
def Consecutive : Nat → List Seg → Nat → Prop
  | a, [], b => a = b
  | a, s :: rest, b => s.off = a ∧ Consecutive s.stop rest b

/-- **Specification of the drain.**  With enough rounds it splits the held slices into a gap-free
run from the frontier and a rest that has nothing at the new frontier. -/
theorem drain_spec {fuel : Nat} (hfuel : st.held.length ≤ fuel) :
    Consecutive st.next (drain fuel st).2 (drain fuel st).1.next ∧
      st.held.Perm ((drain fuel st).2 ++ (drain fuel st).1.held) ∧
      ∀ e ∈ (drain fuel st).1.held, e.off ≠ (drain fuel st).1.next := by
  induction fuel generalizing st with
  | zero =>
    have hnil : st.held = [] := eq_nil_of_length_eq_zero (by omega)
    simp [drain, hnil, Consecutive]
  | succ fuel ih =>
    unfold drain
    cases h : takeFirst (·.off == st.next) st.held with
    | none => exact ⟨rfl, List.Perm.refl _, by simpa using takeFirst_eq_none h⟩
    | some taken =>
      obtain ⟨e, rest⟩ := taken
      obtain ⟨hfound, hperm⟩ := takeFirst_eq_some h
      have hoff : e.off = st.next := by simpa using hfound
      have hlen := hperm.length_eq
      rw [length_cons] at hlen
      obtain ⟨hcons, hrest, hexh⟩ := @ih ⟨st.next + e.len, rest⟩ (by dsimp only; omega)
      refine ⟨⟨hoff, ?_⟩, hperm.trans (hrest.cons e), hexh⟩
      rw [Seg.stop, hoff]
      exact hcons

variable {slots cap : Nat} {st st' : State} {out : List Seg} {s : Seg}

/-- What an arrival can be: a slice at the frontier, delivered with the held slices that continue
it; a slice ahead of it that is held; or one that changes nothing. -/
inductive Arrived (cap : Nat) (st : State) (s : Seg) : State → List Seg → Prop
  | delivered {q : Nat} {left out : List Seg} (hin : s.off = st.next)
      (hperm : st.held.Perm (out ++ left)) (hcons : Consecutive s.stop out q)
      (hexh : ∀ e ∈ left, e.off ≠ q) : Arrived cap st s ⟨q, left⟩ (s :: out)
  | held (hahead : st.next < s.off) : Arrived cap st s { st with held := st.held ++ [s] } []
  | dropped (hin : s.off ≠ st.next) (hlong : st.next < s.off → cap < s.len) :
      Arrived cap st s st []

theorem arrived (h : arrive slots cap st s = some (st', out)) : Arrived cap st s st' out := by
  unfold arrive at h
  split_ifs at h with hin hahead hlen hslot
  all_goals cases h
  · obtain ⟨hcons, hperm, hexh⟩ := @drain_spec ⟨st.next + s.len, st.held⟩ _ (Nat.le_refl _)
    refine .delivered hin hperm ?_ hexh
    rw [Seg.stop, hin]
    exact hcons
  · exact .held hahead
  · exact .dropped hin fun _ => Nat.lt_of_not_le hlen
  · exact .dropped hin fun hlt => absurd hlt hahead

/-- What an arrival delivers continues the stream from the old frontier. -/
theorem arrive_consecutive (h : arrive slots cap st s = some (st', out)) :
    Consecutive st.next out st'.next := by
  cases arrived h with
  | delivered hin _ hcons _ => exact ⟨hin, hcons⟩
  | held _ | dropped _ _ => rfl

/-- Byte `i` of the stream lies in some slice of `segs`. -/
def Covered (segs : List Seg) (i : Nat) : Prop :=
  ∃ r ∈ segs, r.off ≤ i ∧ i < r.stop

theorem Covered.mono {segs segs' : List Seg} {i : Nat} (h : Covered segs i)
    (hsub : ∀ r ∈ segs, r ∈ segs') : Covered segs' i := by
  obtain ⟨r, hr, hi⟩ := h
  exact ⟨r, hsub r hr, hi⟩

variable {segs : List Seg}

/-- A gap-free run covers everything from its start to its end. -/
theorem Consecutive.covered (h : Consecutive a segs b) : ∀ i, a ≤ i → i < b → Covered segs i := by
  induction segs generalizing a with
  | nil =>
    intro i hai hib
    have hab : a = b := h
    omega
  | cons s rest ih =>
    intro i hai hib
    obtain ⟨hoff, hrest⟩ := h
    by_cases hi : i < s.stop
    · exact ⟨s, mem_cons_self, by omega, hi⟩
    · exact (ih hrest i (by omega) hib).mono fun r hr => mem_cons_of_mem s hr

/-- The slices of a gap-free run end no later than the run. -/
theorem Consecutive.stop_le (h : Consecutive a segs b) :
    a ≤ b ∧ ∀ r ∈ segs, a ≤ r.off ∧ r.stop ≤ b := by
  induction segs generalizing a with
  | nil =>
    have hab : a = b := h
    simp [hab]
  | cons s rest ih =>
    obtain ⟨hoff, hrest⟩ := h
    obtain ⟨hle, hall⟩ := ih hrest
    have hstop : s.off ≤ s.stop := Nat.le_add_right s.off s.len
    refine ⟨by omega, ?_⟩
    intro r hr
    rcases mem_cons.mp hr with rfl | hr
    · exact ⟨by omega, hle⟩
    · have := hall r hr
      exact ⟨by omega, this.2⟩

/-- An in-order arrival moves the frontier at least to its end. -/
theorem arrive_stop_le (hin : s.off = st.next) (h : arrive slots cap st s = some (st', out)) :
    s.stop ≤ st'.next := by
  cases arrived h with
  | delivered _ _ hcons _ => exact hcons.stop_le.1
  | held hahead => omega
  | dropped hoff _ => exact absurd hin hoff

/-- The content of a slice of the stream `stream`. -/
def Seg.content {α : Type} (stream : List α) (s : Seg) : List α :=
  (stream.drop s.off).take s.len

/-- **In-order delivery.**  After the first `a` elements of the stream, the contents
of a gap-free run from `a` to `b` make up its first `b`. -/
theorem Consecutive.take_append (stream : List α) (h : Consecutive a segs b) :
    stream.take a ++ segs.flatMap (Seg.content stream) = stream.take b := by
  induction segs generalizing a with
  | nil =>
    obtain rfl : a = b := h
    simp
  | cons s rest ih =>
    obtain ⟨rfl, hrest⟩ := h
    rw [flatMap_cons, ← append_assoc, Seg.content, ← take_add]
    exact ih hrest

/-- A receiver is settled with respect to what it was given: every received slice
lies behind the frontier or is held ahead of it, everything behind the frontier
was received, and it holds nothing else. -/
structure Settled (received : List Seg) (st : State) : Prop where
  pending : ∀ r ∈ received, r.stop ≤ st.next ∨ (r ∈ st.held ∧ st.next < r.off)
  covered : ∀ i < st.next, Covered received i
  held_received : ∀ r ∈ st.held, r ∈ received

/-- The empty receiver is settled. -/
theorem settled_start : Settled [] ⟨0, []⟩ :=
  ⟨by simp, by simp, by simp⟩

/-- **Longest prefix.**  The frontier of a settled receiver is the length of the
longest covered prefix of a stream of length `total`. -/
theorem Settled.isGreatest {total : Nat} (h : Settled received st) (htotal : st.next ≤ total) :
    IsGreatest {m | m ≤ total ∧ ∀ i < m, Covered received i} st.next := by
  refine ⟨⟨htotal, h.covered⟩, ?_⟩
  rintro m ⟨-, hm⟩
  by_contra hlt
  -- the byte at the frontier would be covered by a slice that is neither behind nor ahead
  obtain ⟨r, hr, hoff, hstop⟩ := hm st.next (by omega)
  rcases h.pending r hr with hbehind | ⟨-, hahead⟩
  · omega
  · omega

/-- `q` can be reached from `a` along held slices, each starting where the one
before it ends. -/
inductive Chain (held : List Seg) : Nat → Nat → Prop
  | refl (a : Nat) : Chain held a a
  | step {e : Seg} {q : Nat} (hmem : e ∈ held) (tail : Chain held e.stop q) :
      Chain held e.off q

theorem Consecutive.chain {held : List Seg} (h : Consecutive a segs b)
    (hsub : ∀ e ∈ segs, e ∈ held) : Chain held a b := by
  induction segs generalizing a with
  | nil =>
    obtain rfl : a = b := h
    exact Chain.refl a
  | cons s rest ih =>
    obtain ⟨rfl, hrest⟩ := h
    exact Chain.step (hsub s mem_cons_self) (ih hrest fun e he => hsub e (mem_cons_of_mem s he))

/-- The arrivals a receiver deals with completely.  A slice that starts behind the
frontier ends behind it; and where the chain of held slices behind an in-order
slice stops, no held slice is cut in two. -/
def Clean (st : State) (s : Seg) : Prop :=
  (s.off < st.next → s.stop ≤ st.next) ∧
    (s.off = st.next → ∀ q, Chain st.held s.stop q → (∀ r ∈ st.held, r.off ≠ q) →
      ∀ r ∈ st.held, r.off < q → r.stop ≤ q)

/-- **An arrival keeps the receiver settled** when it is clean and can be held. -/
theorem arrive_settled (h : Settled received st) (hpos : ∀ r ∈ received, 0 < r.len)
    (hcap : s.len ≤ cap) (hclean : Clean st s) (harrive : arrive slots cap st s = some (st', out)) :
    Settled (received ++ [s]) st' := by
  have hrec : ∀ r ∈ received, r ∈ received ++ [s] := fun r hr => mem_append_left _ hr
  have hself : s ∈ received ++ [s] := mem_append_right _ mem_cons_self
  cases arrived harrive with
  | @delivered q left out' hin hperm hcons hexh =>
    obtain ⟨hq, hout⟩ := hcons.stop_le
    have hmem : ∀ r, r ∈ st.held ↔ r ∈ out' ∨ r ∈ left := fun r => hperm.mem_iff.trans mem_append
    have hcut := hclean.2 hin q (hcons.chain fun e he => (hmem e).mpr (.inl he)) (by
      intro r hr
      rcases (hmem r).mp hr with hr' | hr'
      · have := (hout r hr').2
        have := hpos r (h.held_received r hr)
        unfold Seg.stop at *
        omega
      · exact hexh r hr')
    have hback : st.next ≤ q := by
      rw [← hin]
      exact Nat.le_trans (Nat.le_add_right _ _) hq
    refine ⟨?_, ?_, ?_⟩
    · intro r hr
      rcases mem_append.mp hr with hr | hr
      · rcases h.pending r hr with hbehind | ⟨hheld, -⟩
        · exact .inl (Nat.le_trans hbehind hback)
        rcases (hmem r).mp hheld with hr' | hr'
        · exact .inl (hout r hr').2
        rcases Nat.lt_or_gt_of_ne (hexh r hr') with hlt | hgt
        · exact .inl (hcut r hheld hlt)
        · exact .inr ⟨hr', hgt⟩
      · obtain rfl := mem_singleton.mp hr
        exact .inl hq
    · intro i hi
      rcases Nat.lt_or_ge i st.next with hlt | hge
      · exact (h.covered i hlt).mono hrec
      rcases Nat.lt_or_ge i s.stop with hlt | hge'
      · exact ⟨s, hself, by omega, hlt⟩
      · refine (hcons.covered i hge' hi).mono fun r hr => hrec r ?_
        exact h.held_received r ((hmem r).mpr (.inl hr))
    · intro r hr
      exact hrec r (h.held_received r ((hmem r).mpr (.inr hr)))
  | held hahead =>
    refine ⟨?_, fun i hi => (h.covered i hi).mono hrec, ?_⟩
    · intro r hr
      rcases mem_append.mp hr with hr | hr
      · rcases h.pending r hr with hbehind | ⟨hheld, hfront⟩
        · exact .inl hbehind
        · exact .inr ⟨mem_append_left _ hheld, hfront⟩
      · obtain rfl := mem_singleton.mp hr
        exact .inr ⟨mem_append_right _ mem_cons_self, hahead⟩
    · exact forall_mem_append.mpr ⟨fun r hr => hrec r (h.held_received r hr),
        fun r hr => mem_append_right _ hr⟩
  | dropped hin hlong =>
    -- behind: a clean slice has nothing to add
    refine ⟨?_, fun i hi => (h.covered i hi).mono hrec, fun r hr => hrec r (h.held_received r hr)⟩
    exact forall_mem_append.mpr ⟨h.pending, forall_mem_singleton.mpr (.inl (hclean.1 (by omega)))⟩

/-- An arrival adds at most itself to the held slices. -/
theorem arrive_held (harrive : arrive slots cap st s = some (st', out)) :
    ∀ e ∈ st'.held, e ∈ st.held ∨ e = s := by
  intro e he
  cases arrived harrive with
  | delivered _ hperm _ _ => exact .inl (hperm.mem_iff.mpr (mem_append_right _ he))
  | held _ => simpa using he
  | dropped _ _ => exact .inl he

/-- A family of slices none of which ends inside another, as the cells of one
partition do not. -/
def Aligned (cell : Seg → Prop) : Prop :=
  ∀ c d, cell c → cell d → ¬(c.off < d.stop ∧ d.stop < c.stop)

/-- The frontier of a receiver of aligned slices lies inside none of them. -/
def OnBoundary (cell : Seg → Prop) (n : Nat) : Prop :=
  ∀ c, cell c → ¬(c.off < n ∧ n < c.stop)

theorem onBoundary_zero (cell : Seg → Prop) : OnBoundary cell 0 := by
  intro c _ h
  omega

variable {cell : Seg → Prop}

/-- The end of a chain of cells is on a boundary. -/
theorem Aligned.onBoundary_chain (hal : Aligned cell) {held : List Seg} (hheld : ∀ e ∈ held, cell e)
    {a q : Nat} (h : Chain held a q) (ha : OnBoundary cell a) : OnBoundary cell q := by
  induction h with
  | refl a => exact ha
  | step hmem tail ih => exact ih fun c hc => hal c _ hc (hheld _ hmem)

/-- An arriving cell is clean when the frontier is on a boundary. -/
theorem Aligned.clean (hal : Aligned cell) (hheld : ∀ e ∈ st.held, cell e) (hs : cell s)
    (hnext : OnBoundary cell st.next) : Clean st s := by
  refine ⟨?_, ?_⟩
  · intro hlt
    have := hnext s hs
    omega
  · intro _ q hchain _ r hr hlt
    have := hal.onBoundary_chain hheld hchain (fun c hc => hal c s hc hs) r (hheld r hr)
    omega

/-- The frontier stays on a boundary. -/
theorem Aligned.arrive_onBoundary (hal : Aligned cell) (hheld : ∀ e ∈ st.held, cell e) (hs : cell s)
    (hnext : OnBoundary cell st.next) (harrive : arrive slots cap st s = some (st', out)) :
    OnBoundary cell st'.next := by
  cases arrived harrive with
  | delivered _ hperm hcons _ =>
    refine hal.onBoundary_chain hheld (hcons.chain fun e he => ?_) fun c hc => hal c s hc hs
    exact hperm.mem_iff.mpr (mem_append_left _ he)
  | held _ | dropped _ _ => exact hnext

/-- The cells of the partition of a stream into pieces of the given lengths. -/
def IsCell (lens : List Nat) (s : Seg) : Prop :=
  ∃ i, s.off = (lens.take i).sum ∧ s.stop = (lens.take (i + 1)).sum

/-- The cells of one partition are aligned. -/
theorem aligned_isCell (lens : List Nat) : Aligned (IsCell lens) := by
  rintro c d ⟨i, hoff, hstop⟩ ⟨j, -, hstop'⟩ ⟨hlt, hgt⟩
  have hmono : ∀ i j, i ≤ j → (lens.take i).sum ≤ (lens.take j).sum :=
    fun _ _ hle => monotone_sum_take lens hle
  rcases Nat.lt_or_ge i (j + 1) with hij | hij
  · have := hmono (i + 1) (j + 1) (by omega)
    omega
  · have := hmono (j + 1) i hij
    omega

/-- A run of arrivals without overflow, recorded as the state before each arrival
together with the slice that arrived. -/
inductive Run (slots cap : Nat) : State → List (State × Seg) → State → Prop
  | nil (st : State) : Run slots cap st [] st
  | cons {st st' finish : State} {s : Seg} {out : List Seg} {rest : List (State × Seg)}
      (harrive : arrive slots cap st s = some (st', out))
      (tail : Run slots cap st' rest finish) :
      Run slots cap st ((st, s) :: rest) finish

theorem Run.append {st st' st'' : State} {trace trace' : List (State × Seg)}
    (h : Run slots cap st trace st') (h' : Run slots cap st' trace' st'') :
    Run slots cap st (trace ++ trace') st'' := by
  induction h with
  | nil st => exact h'
  | cons harrive tail ih => exact Run.cons harrive (ih h')

variable {trace : List (State × Seg)}

/-- **A run of clean arrivals keeps the receiver settled.** -/
theorem Run.settled (h : Run slots cap st trace st') (hset : Settled received st)
    (hpos : ∀ r ∈ received, 0 < r.len) (hsegs : ∀ x ∈ trace, 0 < x.2.len ∧ x.2.len ≤ cap)
    (hclean : ∀ x ∈ trace, Clean x.1 x.2) : Settled (received ++ trace.map (·.2)) st' := by
  induction h generalizing received with
  | nil st => simpa using hset
  | @cons st st' finish s out rest harrive tail ih =>
    obtain ⟨hlen, hcap⟩ := hsegs (st, s) mem_cons_self
    have hset' := arrive_settled hset hpos hcap (hclean (st, s) mem_cons_self) harrive
    have hpos' : ∀ r ∈ received ++ [s], 0 < r.len :=
      forall_mem_append.mpr ⟨hpos, forall_mem_singleton.mpr hlen⟩
    have hrest := ih hset' hpos' (fun x hx => hsegs x (mem_cons_of_mem _ hx))
      (fun x hx => hclean x (mem_cons_of_mem _ hx))
    rw [map_cons, append_cons]
    exact hrest

/-- Every arrival of a run of aligned slices is clean. -/
theorem Aligned.run_clean (hal : Aligned cell) (h : Run slots cap st trace st')
    (hheld : ∀ e ∈ st.held, cell e) (hnext : OnBoundary cell st.next)
    (hsegs : ∀ x ∈ trace, cell x.2) : ∀ x ∈ trace, Clean x.1 x.2 := by
  induction h with
  | nil st => simp
  | @cons st st' finish s out rest harrive tail ih =>
    have hs : cell s := hsegs (st, s) mem_cons_self
    have hrest := ih
      (by
        intro e he
        rcases arrive_held harrive e he with he | rfl
        · exact hheld e he
        · exact hs)
      (hal.arrive_onBoundary hheld hs hnext harrive)
      (fun x hx => hsegs x (mem_cons_of_mem _ hx))
    exact forall_mem_cons.mpr ⟨hal.clean hheld hs hnext, hrest⟩

/-- Every held slice starts after the frontier. -/
def Ahead (st : State) : Prop :=
  ∀ e ∈ st.held, st.next < e.off

/-- Some held slice starts before the frontier, where no drain looks for it. -/
def Stale (st : State) : Prop :=
  ∃ e ∈ st.held, e.off < st.next

theorem Stale.not_ahead (h : Stale st) : ¬Ahead st := by
  obtain ⟨e, he, hlt⟩ := h
  intro hahead
  have := hahead e he
  omega

/-- Two slices have no position in common. -/
def Apart (e f : Seg) : Prop :=
  e.stop ≤ f.off ∨ f.stop ≤ e.off

/-- The arrival fits among the held slices: among those that start before a position
that is reachable along held slices, itself included, no two overlap. -/
def Fits (st : State) (s : Seg) : Prop :=
  s.off = st.next → ∀ q, Chain st.held s.stop q →
    (s :: st.held).Pairwise fun e f => e.off < q → f.off < q → Apart e f

/-- The slices of a gap-free run do not overlap. -/
theorem Consecutive.pairwise (h : Consecutive a segs b) : segs.Pairwise Apart := by
  induction segs generalizing a with
  | nil => exact List.Pairwise.nil
  | cons s rest ih =>
    obtain ⟨-, hrest⟩ := h
    refine List.Pairwise.cons ?_ (ih hrest)
    intro r hr
    exact .inl (hrest.stop_le.2 r hr).1

/-- A chain of held slices cannot leave a region that no held slice leaves. -/
theorem Chain.le {held : List Seg} {a b q : Nat} (h : Chain held a b)
    (hstay : ∀ e ∈ held, e.off ≤ q → e.stop ≤ q) (ha : a ≤ q) : b ≤ q := by
  induction h with
  | refl a => exact ha
  | step hmem tail ih => exact ih (hstay _ hmem ha)

theorem pairwise_apart_symm {l l' : List Seg} {q : Nat} (hperm : l.Perm l')
    (h : l.Pairwise fun e f => e.off < q → f.off < q → Apart e f) :
    l'.Pairwise fun e f => e.off < q → f.off < q → Apart e f :=
  hperm.pairwise h fun hef hf he => (hef he hf).symm

/-- **What an arrival leaves behind.**  From a receiver that holds only slices ahead
of the frontier, an arrival that fits leads to such a receiver again, and any other
leaves a slice behind the frontier. -/
theorem arrive_ahead (h : Ahead st) (hpos : ∀ e ∈ st.held, 0 < e.len)
    (harrive : arrive slots cap st s = some (st', out)) :
    (Fits st s → Ahead st') ∧ (¬Fits st s → Stale st') := by
  cases arrived harrive with
  | @delivered q left out' hin hperm hcons hexh =>
    have hrun : Consecutive st.next (s :: out') q := ⟨hin, hcons⟩
    have hmem : ∀ r, r ∈ st.held ↔ r ∈ out' ∨ r ∈ left := fun r => hperm.mem_iff.trans mem_append
    constructor
    · intro hfits e he
      by_contra hle
      -- the slice starts inside the delivered run, so it overlaps a slice of the run
      have hheld := (hmem e).mpr (.inr he)
      have hne := hexh e he
      have hlt : e.off < q := by dsimp only at hle; omega
      obtain ⟨r, hr, hroff, hrstop⟩ := hrun.covered e.off (Nat.le_of_lt (h e hheld)) hlt
      have hpair := pairwise_apart_symm (hperm.cons s)
        (hfits hin q (hcons.chain fun e he => (hmem e).mpr (.inl he)))
      rw [← cons_append, pairwise_append] at hpair
      have hlenpos := hpos e hheld
      rcases hpair.2.2 r hr e he (by omega) hlt with hapart | hapart
      · omega
      · unfold Seg.stop at hapart
        omega
    · intro hno
      by_contra hfresh
      apply hno
      intro _ q' hchain
      have hleft : ∀ e ∈ left, q ≤ e.off := by
        intro e he
        by_contra hlt
        exact hfresh ⟨e, he, Nat.lt_of_not_le hlt⟩
      -- what starts before the new frontier was delivered, so no chain leads past it
      have hq' : q' ≤ q := by
        refine hchain.le ?_ hcons.stop_le.1
        intro e he hle
        rcases (hmem e).mp he with hout | hout
        · exact (hcons.stop_le.2 e hout).2
        have := hleft e hout
        have := hexh e hout
        omega
      apply pairwise_apart_symm (hperm.cons s).symm
      rw [← cons_append, pairwise_append]
      refine ⟨hrun.pairwise.imp fun hapart _ _ => hapart, ?_, ?_⟩
      · refine pairwise_of_forall_mem_list ?_
        intro e he f hf hlt
        have := hleft e he
        omega
      · intro e he f hf _ hlt
        have := hleft f hf
        omega
  | held hahead =>
    exact ⟨fun _ => forall_mem_append.mpr ⟨h, forall_mem_singleton.mpr hahead⟩,
      fun hno => absurd (fun heq => absurd heq hahead.ne') hno⟩
  | dropped hin _ => exact ⟨fun _ => h, fun hno => absurd (fun heq => absurd heq hin) hno⟩

/-- A slice behind the frontier stays where it is. -/
theorem Stale.arrive (h : Stale st) (harrive : arrive slots cap st s = some (st', out)) :
    Stale st' := by
  obtain ⟨e, he, hlt⟩ := h
  cases arrived harrive with
  | delivered hin hperm hcons _ =>
    have hq := hcons.stop_le
    rw [Seg.stop, hin] at hq
    rcases mem_append.mp (hperm.mem_iff.mp he) with hout | hleft
    · have := (hq.2 e hout).1
      omega
    · refine ⟨e, hleft, ?_⟩
      dsimp only
      omega
  | held _ => exact ⟨e, mem_append_left _ he, hlt⟩
  | dropped _ _ => exact ⟨e, he, hlt⟩

theorem Stale.run (h : Stale st) (hrun : Run slots cap st trace st') : Stale st' := by
  induction hrun with
  | nil st => exact h
  | cons harrive tail ih => exact ih (h.arrive harrive)

/-- The held slices of a run are those held before and those that arrived. -/
theorem Run.held (h : Run slots cap st trace st') :
    ∀ e ∈ st'.held, e ∈ st.held ∨ e ∈ trace.map (·.2) := by
  induction h with
  | nil st => exact fun e he => .inl he
  | @cons st st' finish s out rest harrive tail ih =>
    intro e he
    rw [map_cons, mem_cons]
    rcases ih e he with he | he
    · rcases arrive_held harrive e he with he | he
      · exact .inl he
      · exact .inr (.inl he)
    · exact .inr (.inr he)

/-- **What a run leaves behind.**  A run ends with nothing behind the frontier
exactly when every arrival fitted. -/
theorem Run.ahead_iff (hrun : Run slots cap st trace st') (h : Ahead st)
    (hpos : ∀ e ∈ st.held, 0 < e.len) (hsegs : ∀ x ∈ trace, 0 < x.2.len) :
    Ahead st' ↔ ∀ x ∈ trace, Fits x.1 x.2 := by
  induction hrun with
  | nil st => simp [h]
  | @cons st st' finish s out rest harrive tail ih =>
    rw [forall_mem_cons]
    obtain ⟨hfit, hno⟩ := arrive_ahead h hpos harrive
    by_cases hs : Fits st s
    · rw [and_iff_right hs]
      refine ih (hfit hs) ?_ fun x hx => hsegs x (mem_cons_of_mem _ hx)
      intro e he
      rcases arrive_held harrive e he with he | rfl
      · exact hpos e he
      · exact hsegs (st, e) mem_cons_self
    · have hstale := ((hno hs).run tail).not_ahead
      exact ⟨fun hahead => absurd hahead hstale, fun hall => absurd hall.1 hs⟩

end Reassembly
