import Mathlib.Data.List.TakeDrop

/-!
# One request and its answer over a non-blocking pipe

A client writes a request to a pipe that may accept any part of it or none, and then
reads into a buffer of fixed capacity until it can tell the answer from what the buffer
holds.  What the pipe does is a schedule: one turn for each call, and no more obstacles
once the turns run out.

A client that tries to tell the answer after each piece gives the same verdict for all
schedules if its answers are `Final`: what it can tell from a part it tells from every
longer part as well.  The verdict is then the one on the whole (`settled_verdict`), it is
reached after as many calls as there are turns and three more (`settles`), and what was
read and what is still unread make up the stream (`Sound`).
-/

namespace Exchange

open Function List

variable {α β : Type}

/-- A turn of the writing end: nothing now, or one item and up to `more` others. -/
inductive SendTurn
  | blocked
  | accepts (more : Nat)
  deriving DecidableEq

/-- A turn of the reading end: nothing now, or up to `n` items. -/
inductive RecvTurn
  | blocked
  | delivers (n : Nat)
  deriving DecidableEq

/-- The pipe: its schedule, what it has carried away, and what it has to deliver. -/
structure Wire (α : Type) where
  sends : List SendTurn
  recvs : List RecvTurn
  outgoing : List α
  unread : List α

/-- Offer items to the pipe: how many it takes. -/
def Wire.send (w : Wire α) (items : List α) : Option Nat × Wire α :=
  match w.sends with
  | [] => (some items.length, { w with outgoing := w.outgoing ++ items })
  | .blocked :: rest => (none, { w with sends := rest })
  | .accepts more :: rest =>
    (some (min (more + 1) items.length),
      { w with sends := rest, outgoing := w.outgoing ++ items.take (more + 1) })

/-- Take up to `cap` items from the pipe. -/
def Wire.recv (w : Wire α) (cap : Nat) : Option (List α) × Wire α :=
  match w.recvs with
  | [] => (some (w.unread.take cap), { w with unread := w.unread.drop cap })
  | .blocked :: rest => (none, { w with recvs := rest })
  | .delivers n :: rest =>
    (some (w.unread.take (min n cap)),
      { w with recvs := rest, unread := w.unread.drop (min n cap) })

/-- Where the client is. -/
inductive Phase (α β : Type) where
  | writing (sent : Nat)
  | reading (rx : List α)
  | overflow (rx : List α)
  | answered (rx : List α) (b : β)

/-- The verdict of a phase: nothing yet, too much without an answer, or the answer. -/
def Phase.verdict : Phase α β → Option (Option β)
  | writing _ => none
  | reading _ => none
  | overflow _ => some none
  | answered _ b => some (some b)

section Machine

variable (req : List α) (cap : Nat) (answer : List α → Option β)

/-- One call of the client. -/
def turn : Phase α β × Wire α → Phase α β × Wire α
  | (.writing sent, w) =>
    match w.send (req.drop sent) with
    | (none, w) => (.writing sent, w)
    | (some n, w) => if sent + n < req.length then (.writing (sent + n), w) else (.reading [], w)
  | (.reading rx, w) =>
    if rx.length = cap then (.overflow rx, w)
    else
      match w.recv (cap - rx.length) with
      | (none, w) => (.reading rx, w)
      | (some data, w) =>
        if data.isEmpty then (.reading rx, w)
        else
          match answer (rx ++ data) with
          | none => (.reading (rx ++ data), w)
          | some b => (.answered (rx ++ data) b, w)
  | s => s

/-- What the client can tell from a part of the stream it tells from every longer part that
fits its buffer. -/
def Final (stream : List α) : Prop :=
  ∀ p q, p ≤ q → q ≤ cap →
    answer (stream.take p) = none ∨ answer (stream.take q) = answer (stream.take p)

/-- The verdict on the whole stream. -/
def wholeVerdict (stream : List α) : Option (Option β) :=
  match answer (stream.take cap) with
  | some b => some (some b)
  | none => if cap ≤ stream.length then some none else none

/-- What has been read and what is unread make up the stream; nothing is read, nor asked for,
before the request is out; the request goes out once and in order. -/
def Sound (stream : List α) (recvs : List RecvTurn) : Phase α β × Wire α → Prop
  | (.writing sent, w) =>
    sent < req.length ∧ w.outgoing = req.take sent ∧ w.unread = stream ∧ w.recvs = recvs
  | (.reading rx, w) =>
    w.outgoing = req ∧ rx ++ w.unread = stream ∧ rx.length ≤ cap ∧ answer rx = none
  | (.overflow rx, w) =>
    w.outgoing = req ∧ rx ++ w.unread = stream ∧ rx.length = cap ∧ answer rx = none
  | (.answered rx b, w) =>
    w.outgoing = req ∧ rx ++ w.unread = stream ∧ rx.length ≤ cap ∧ answer rx = some b

/-- Nothing more will happen: there is a verdict, or all is read without one. -/
def Settled : Phase α β × Wire α → Prop
  | (.writing _, _) => False
  | (.reading rx, w) => w.unread = [] ∧ rx.length < cap
  | (.overflow _, _) => True
  | (.answered _ _, _) => True

/-- A bound on the calls before the client settles. -/
def budget : Phase α β × Wire α → Nat
  | (.writing _, w) => w.sends.length + w.recvs.length + 3
  | (.reading rx, w) => w.recvs.length + if rx.length = cap then 1 else 2
  | _ => 0

end Machine

variable {req : List α} {cap : Nat} {answer : List α → Option β} {stream : List α}
  {recvs : List RecvTurn} {s : Phase α β × Wire α}

/-- What a call of the writing end does. -/
theorem Wire.send_cases (w : Wire α) (items : List α) (hitems : items ≠ []) :
    ((w.send items).1 = none ∧ (w.send items).2.outgoing = w.outgoing ∨
      ∃ n, (w.send items).1 = some n ∧ 0 < n ∧ n ≤ items.length ∧
        (w.send items).2.outgoing = w.outgoing ++ items.take n) ∧
    (w.send items).2.unread = w.unread ∧ (w.send items).2.recvs = w.recvs ∧
    ((w.send items).2.sends.length < w.sends.length ∨ (w.send items).1 = some items.length) := by
  have hpos := length_pos_iff.mpr hitems
  unfold Wire.send
  split
  · exact ⟨.inr ⟨items.length, rfl, hpos, Nat.le_refl _, by simp⟩, rfl, rfl, .inr rfl⟩
  · rename_i rest hsends
    exact ⟨.inl ⟨rfl, rfl⟩, rfl, rfl, .inl (by rw [hsends]; exact Nat.lt_succ_self _)⟩
  · rename_i more rest hsends
    refine ⟨.inr ⟨_, rfl, by omega, Nat.min_le_right _ _, ?_⟩, rfl, rfl,
      .inl (by rw [hsends]; exact Nat.lt_succ_self _)⟩
    rw [← take_take, take_length]

/-- What a call of the reading end does. -/
theorem Wire.recv_cases (w : Wire α) (room : Nat) :
    ((w.recv room).1 = none ∧ (w.recv room).2.unread = w.unread ∨
      ∃ data, (w.recv room).1 = some data ∧ data.length ≤ room ∧
        data ++ (w.recv room).2.unread = w.unread) ∧
    (w.recv room).2.outgoing = w.outgoing ∧
    ((w.recv room).2.recvs.length < w.recvs.length ∨ w.recvs = [] ∧ (w.recv room).2.recvs = [] ∧
        (w.recv room).1 = some (w.unread.take room)) := by
  unfold Wire.recv
  split
  · rename_i hrecvs
    refine ⟨.inr ⟨_, rfl, length_take_le _ _, take_append_drop _ _⟩, rfl,
      .inr ⟨hrecvs, hrecvs, rfl⟩⟩
  · rename_i rest hrecvs
    exact ⟨.inl ⟨rfl, rfl⟩, rfl, .inl (by rw [hrecvs]; exact Nat.lt_succ_self _)⟩
  · rename_i n rest hrecvs
    refine ⟨.inr ⟨_, rfl, ?_, take_append_drop _ _⟩, rfl,
      .inl (by rw [hrecvs]; exact Nat.lt_succ_self _)⟩
    exact Nat.le_trans (length_take_le _ _) (Nat.min_le_right _ _)

/-- A call in the writing phase. -/
theorem turn_writing {sent : Nat} {w : Wire α} (hempty : answer [] = none)
    (h : Sound req cap answer stream recvs (.writing sent, w)) :
    Sound req cap answer stream recvs (turn req cap answer (.writing sent, w)) ∧
      budget cap (turn req cap answer (.writing sent, w)) <
        w.sends.length + w.recvs.length + 3 := by
  obtain ⟨hsent, hout, hunread, hrecvs⟩ := h
  have hrest : req.drop sent ≠ [] := by
    rw [ne_eq, drop_eq_nil_iff]
    omega
  obtain ⟨hwhat, hunread', hrecvs', hturns⟩ := w.send_cases (req.drop sent) hrest
  dsimp only [turn]
  generalize w.send (req.drop sent) = call at hwhat hunread' hrecvs' hturns ⊢
  obtain ⟨taken, w'⟩ := call
  dsimp only at hwhat hunread' hrecvs' hturns
  rw [hunread] at hunread'
  rcases hwhat with ⟨rfl, hout'⟩ | ⟨n, rfl, hpos, hle, hout'⟩
  · refine ⟨⟨hsent, by rw [hout', hout], hunread', by rw [hrecvs', hrecvs]⟩, ?_⟩
    rcases hturns with hless | hall
    · dsimp only [budget]
      rw [hrecvs']
      omega
    · cases hall
  · rw [length_drop] at hle hturns
    have hsofar : w'.outgoing = req.take (sent + n) := by
      rw [hout', hout, take_add]
    dsimp only
    split
    · rename_i hmore
      refine ⟨⟨hmore, hsofar, hunread', by rw [hrecvs', hrecvs]⟩, ?_⟩
      rcases hturns with hless | hall
      · dsimp only [budget]
        rw [hrecvs']
        omega
      · cases hall
        omega
    · refine ⟨⟨?_, hunread', Nat.zero_le _, hempty⟩, ?_⟩
      · rw [hsofar, take_of_length_le (by omega)]
      dsimp only [budget]
      rw [hrecvs']
      split <;> omega

/-- A call in the reading phase.  With all turns used up it reads all there is, so the
buffer is full or the pipe is empty afterwards. -/
theorem turn_reading {rx : List α} {w : Wire α}
    (h : Sound req cap answer stream recvs (.reading rx, w)) :
    Sound req cap answer stream recvs (turn req cap answer (.reading rx, w)) ∧
      (Settled cap (turn req cap answer (.reading rx, w)) ∨
        budget cap (turn req cap answer (.reading rx, w)) <
          w.recvs.length + if rx.length = cap then 1 else 2) := by
  obtain ⟨hout, hstream, hroom, hnone⟩ := h
  dsimp only [turn]
  by_cases hfull : rx.length = cap
  · rw [if_pos hfull]
    exact ⟨⟨hout, hstream, hfull, hnone⟩, .inl trivial⟩
  rw [if_neg hfull]
  obtain ⟨hwhat, hout', hturns⟩ := w.recv_cases (cap - rx.length)
  generalize w.recv (cap - rx.length) = call at hwhat hout' hturns ⊢
  obtain ⟨got, w'⟩ := call
  dsimp only at hwhat hout' hturns
  rw [hout] at hout'
  rw [if_neg hfull]
  rcases hwhat with ⟨rfl, hunread⟩ | ⟨data, rfl, hlen, hunread⟩
  · refine ⟨⟨hout', by rw [hunread, hstream], hroom, hnone⟩, .inr ?_⟩
    rcases hturns with hless | ⟨-, -, hall⟩
    · dsimp only [budget]
      rw [if_neg hfull]
      omega
    · cases hall
  · have hstream' : (rx ++ data) ++ w'.unread = stream := by
      rw [append_assoc, hunread, hstream]
    have hroom' : (rx ++ data).length ≤ cap := by
      rw [length_append]
      omega
    -- With the turns used up, either all is read or the buffer is full.
    have hafter : w'.recvs.length < w.recvs.length ∨
        (w'.recvs = [] ∧ (w'.unread = [] ∨ (rx ++ data).length = cap)) := by
      refine hturns.imp_right fun ⟨_, hlast, hall⟩ => ⟨hlast, ?_⟩
      have hdata : data = w.unread.take (cap - rx.length) := Option.some.inj hall
      by_cases hshort : w.unread.length ≤ cap - rx.length
      · left
        rw [take_of_length_le hshort] at hdata
        rw [hdata] at hunread
        simpa using hunread
      · right
        rw [length_append, hdata, length_take]
        omega
    dsimp only
    split
    · -- An empty read leaves the buffer as it is.
      rename_i hnil
      have hdata : data = [] := by simpa using hnil
      subst hdata
      rw [append_nil] at hafter
      rw [nil_append] at hunread
      refine ⟨⟨hout', by rw [hunread, hstream], hroom, hnone⟩, ?_⟩
      rcases hafter with hless | ⟨-, hdry | hcap⟩
      · right
        dsimp only [budget]
        rw [if_neg hfull]
        omega
      · exact .inl ⟨hdry, by omega⟩
      · exact absurd hcap hfull
    · cases hans : answer (rx ++ data) with
      | some b => exact ⟨⟨hout', hstream', hroom', hans⟩, .inl trivial⟩
      | none =>
        refine ⟨⟨hout', hstream', hroom', hans⟩, ?_⟩
        by_cases hcap : (rx ++ data).length = cap
        · right
          dsimp only [budget]
          rw [if_pos hcap]
          rcases hafter with hless | ⟨hlast, -⟩
          · omega
          · rw [hlast]
            exact Nat.lt_of_lt_of_le (by decide : 0 + 1 < 2) (Nat.le_add_left 2 _)
        · rcases hafter with hless | ⟨-, hdry | hfull'⟩
          · right
            dsimp only [budget]
            rw [if_neg hcap]
            omega
          · exact .inl ⟨hdry, by omega⟩
          · exact absurd hfull' hcap

theorem turn_sound (hempty : answer [] = none) (h : Sound req cap answer stream recvs s) :
    Sound req cap answer stream recvs (turn req cap answer s) := by
  obtain ⟨phase, w⟩ := s
  cases phase with
  | writing sent => exact (turn_writing hempty h).1
  | reading rx => exact (turn_reading h).1
  | overflow rx | answered rx b => exact h

/-- A settled client stays settled. -/
theorem turn_settled (h : Settled cap s) : Settled cap (turn req cap answer s) := by
  obtain ⟨phase, w⟩ := s
  cases phase with
  | writing sent => exact h.elim
  | overflow rx | answered rx b => trivial
  | reading rx =>
    obtain ⟨hdry, hroom⟩ := h
    dsimp only [turn]
    rw [if_neg (Nat.ne_of_lt hroom)]
    obtain ⟨hwhat, -, -⟩ := w.recv_cases (cap - rx.length)
    generalize w.recv (cap - rx.length) = call at hwhat ⊢
    obtain ⟨got, w'⟩ := call
    rw [hdry] at hwhat
    rcases hwhat with ⟨rfl, hunread⟩ | ⟨data, rfl, -, hunread⟩
    · exact ⟨hunread, hroom⟩
    · obtain ⟨rfl, hunread'⟩ := append_eq_nil_iff.mp hunread
      exact ⟨hunread', hroom⟩

theorem run_sound (hempty : answer [] = none) (h : Sound req cap answer stream recvs s) (n : Nat) :
    Sound req cap answer stream recvs ((turn req cap answer)^[n] s) :=
  Iterate.rec (Sound req cap answer stream recvs) h (fun _ => turn_sound hempty) n

theorem run_settled (h : Settled cap s) (n : Nat) : Settled cap ((turn req cap answer)^[n] s) :=
  Iterate.rec (Settled cap) h (fun _ => turn_settled) n

/-- **The client settles** within its budget. -/
theorem settles (hempty : answer [] = none) (h : Sound req cap answer stream recvs s) {n : Nat}
    (hn : budget cap s ≤ n) : Settled cap ((turn req cap answer)^[n] s) := by
  induction n generalizing s with
  | zero =>
    -- Only a settled client has no budget left.
    by_contra hopen
    obtain ⟨phase, w⟩ := s
    cases phase with
    | writing sent =>
      dsimp only [budget] at hn
      omega
    | reading rx =>
      dsimp only [budget] at hn
      split at hn <;> omega
    | overflow rx | answered rx b => exact hopen trivial
  | succ n ih =>
    rw [iterate_succ_apply]
    by_cases hsettled : Settled cap s
    · exact run_settled (turn_settled hsettled) n
    obtain ⟨phase, w⟩ := s
    cases phase with
    | writing sent =>
      have hless := (turn_writing hempty h).2
      exact ih (turn_sound hempty h) (Nat.le_of_lt_succ (Nat.lt_of_lt_of_le hless hn))
    | reading rx =>
      rcases (turn_reading h).2 with hnow | hless
      · exact run_settled hnow n
      · exact ih (turn_sound hempty h) (Nat.le_of_lt_succ (Nat.lt_of_lt_of_le hless hn))
    | overflow rx | answered rx b => exact absurd trivial hsettled

/-- **The verdict is the one on the whole stream.** -/
theorem settled_verdict (hfinal : Final cap answer stream) (h : Sound req cap answer stream recvs s)
    (hsettled : Settled cap s) : s.1.verdict = wholeVerdict cap answer stream := by
  obtain ⟨phase, w⟩ := s
  have hpart : ∀ rx : List α, rx ++ w.unread = stream → rx = stream.take rx.length := by
    intro rx hrx
    rw [← hrx, take_left]
  unfold wholeVerdict
  cases phase with
  | writing sent => exact hsettled.elim
  | reading rx =>
    obtain ⟨-, hstream, -, hnone⟩ := h
    obtain ⟨hdry, hroom⟩ := hsettled
    rw [hdry, append_nil] at hstream
    subst hstream
    rw [take_of_length_le (Nat.le_of_lt hroom), hnone]
    exact (if_neg (by omega)).symm
  | overflow rx =>
    obtain ⟨-, hstream, hcap, hnone⟩ := h
    have hlen : cap ≤ stream.length := by
      rw [← hstream, length_append]
      omega
    rw [← hcap, ← hpart rx hstream, hnone, hcap]
    exact (if_pos hlen).symm
  | answered rx b =>
    obtain ⟨-, hstream, hroom, hans⟩ := h
    have hrx := hpart rx hstream
    have hwhole : answer (stream.take cap) = some b := by
      rcases hfinal rx.length cap hroom (Nat.le_refl _) with hnone | hsame
      · rw [← hrx, hans] at hnone
        cases hnone
      · rw [hsame, ← hrx, hans]
    rw [hwhole]
    rfl

/-- Without obstacles in the way of the request, an answer in the first piece is the answer. -/
theorem answered_first {w w' : Wire α} {piece : List α} {b : β} (hcap : 0 < cap)
    (hsends : w.sends = [])
    (hrecv : Wire.recv { w with outgoing := w.outgoing ++ req } cap = (some piece, w'))
    (hpiece : piece ≠ []) (hanswer : answer piece = some b) (n : Nat) :
    (turn req cap answer)^[n + 2] (.writing 0, w) = (.answered piece b, w') := by
  have hfirst : turn req cap answer (.writing 0, w) =
      (.reading [], { w with outgoing := w.outgoing ++ req }) := by
    dsimp only [turn, Wire.send]
    rw [hsends, drop_zero]
    exact if_neg (by omega)
  have hsecond : turn req cap answer (.reading [], { w with outgoing := w.outgoing ++ req }) =
      (.answered piece b, w') := by
    have hsome : ¬ piece.isEmpty = true := by simpa using hpiece
    dsimp only [turn]
    rw [if_neg (by rw [length_nil]; omega), length_nil, Nat.sub_zero, hrecv]
    dsimp only
    rw [if_neg hsome, nil_append, hanswer]
  rw [iterate_succ_apply, iterate_succ_apply, hfirst, hsecond]
  exact iterate_fixed rfl n

namespace Sound

section

variable (h : Sound req cap answer stream recvs s)

include h

/-- The request goes out in order and once. -/
theorem outgoing_part : s.2.outgoing <+: req := by
  obtain ⟨phase, w⟩ := s
  cases phase with
  | writing sent =>
    rw [h.2.1]
    exact List.take_prefix _ _
  | reading rx | overflow rx | answered rx b => exact h.1 ▸ prefix_refl _

/-- Nothing is asked of the stream before the request is out. -/
theorem outgoing_or_untouched : s.2.outgoing = req ∨ (s.2.unread = stream ∧ s.2.recvs = recvs) := by
  obtain ⟨phase, w⟩ := s
  cases phase with
  | writing sent => exact .inr h.2.2
  | reading rx | overflow rx | answered rx b => exact .inl h.1

theorem outgoing_of_settled (hsettled : Settled cap s) : s.2.outgoing = req := by
  obtain ⟨phase, w⟩ := s
  cases phase with
  | writing sent => exact hsettled.elim
  | reading rx | overflow rx | answered rx b => exact h.1

/-- A verdict is the one on the whole stream. -/
theorem verdict_none_or_whole (hfinal : Final cap answer stream) :
    s.1.verdict = none ∨ s.1.verdict = wholeVerdict cap answer stream := by
  obtain ⟨phase, w⟩ := s
  cases phase with
  | writing sent | reading rx => exact .inl rfl
  | overflow rx | answered rx b => exact .inr (settled_verdict hfinal h trivial)

end

end Sound

end Exchange
