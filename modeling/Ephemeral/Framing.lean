import Mathlib.Data.List.Basic

/-!
# Cutting a stream into messages

A framing says how long the first message of a stream is, once it is complete.  It needs
nothing behind the message to say so, and does not change its mind when more arrives.  The
messages of a stream are then found one after another, and a message that is written behind a
whole number of messages is the next one.
-/

variable {α : Type*}

/-- How the first message of a stream is found. -/
structure Framing (α : Type*) where
  first : List α → Option Nat
  first_pos : ∀ {s n}, first s = some n → 0 < n
  first_le : ∀ {s n}, first s = some n → n ≤ s.length
  first_append : ∀ {s n}, first s = some n → ∀ t, first (s ++ t) = some n
  first_take : ∀ {s n}, first s = some n → first (s.take n) = some n

namespace Framing

open List

variable (F : Framing α)

/-- The messages of a stream, at most `fuel` of them. -/
def messagesOf : Nat → List α → List (List α)
  | 0, _ => []
  | fuel + 1, s =>
    match F.first s with
    | none => []
    | some n => s.take n :: messagesOf fuel (s.drop n)

/-- The messages of a stream. -/
def messages (s : List α) : List (List α) := F.messagesOf s.length s

variable {F}

theorem messagesOf_none {s : List α} (h : F.first s = none) (fuel : Nat) :
    F.messagesOf fuel s = [] := by
  cases fuel with
  | zero => rfl
  | succ fuel => simp only [messagesOf, h]

/-- As many steps as the stream is long find all messages. -/
theorem messagesOf_congr {fuel fuel' : Nat} {s : List α} (h : s.length ≤ fuel)
    (h' : s.length ≤ fuel') : F.messagesOf fuel s = F.messagesOf fuel' s := by
  induction fuel generalizing s fuel' with
  | zero =>
    have hfirst : F.first s = none := by
      cases hfirst : F.first s with
      | none => rfl
      | some n =>
        have hpos := F.first_pos hfirst
        have hle := F.first_le hfirst
        omega
    rw [messagesOf_none hfirst, messagesOf_none hfirst]
  | succ fuel ih =>
    cases hfirst : F.first s with
    | none => rw [messagesOf_none hfirst, messagesOf_none hfirst]
    | some n =>
      have hpos := F.first_pos hfirst
      have hle := F.first_le hfirst
      obtain ⟨m, rfl⟩ : ∃ m, fuel' = m + 1 := ⟨fuel' - 1, by omega⟩
      simp only [messagesOf, hfirst]
      rw [@ih m (s.drop n) (by rw [length_drop]; omega) (by rw [length_drop]; omega)]

theorem messages_none {s : List α} (h : F.first s = none) : F.messages s = [] :=
  messagesOf_none h _

theorem messages_some {s : List α} {n : Nat} (h : F.first s = some n) :
    F.messages s = s.take n :: F.messages (s.drop n) := by
  have hpos := F.first_pos h
  have hle := F.first_le h
  obtain ⟨m, hm⟩ : ∃ m, s.length = m + 1 := ⟨s.length - 1, by omega⟩
  have hshort : (s.drop n).length ≤ m := by
    rw [length_drop]
    omega
  rw [messages, hm]
  simp only [messagesOf, h]
  rw [messages, messagesOf_congr hshort (Nat.le_refl _)]

/-- A message is not empty. -/
theorem ne_nil_of_mem_messages {s m : List α} (h : m ∈ F.messages s) : m ≠ [] := by
  unfold messages at h
  generalize s.length = fuel at h
  induction fuel generalizing s with
  | zero => cases h
  | succ fuel ih =>
    cases hfirst : F.first s with
    | none =>
      rw [messagesOf_none hfirst] at h
      cases h
    | some n =>
      simp only [messagesOf, hfirst, mem_cons] at h
      rcases h with rfl | h
      · have hpos := F.first_pos hfirst
        have hle := F.first_le hfirst
        rw [← length_pos_iff, length_take]
        omega
      · exact ih h

/-- The messages lie one behind the other at the front of the stream. -/
theorem length_flatten_messagesOf (F : Framing α) (fuel : Nat) (s : List α) :
    (F.messagesOf fuel s).flatten.length ≤ s.length := by
  induction fuel generalizing s with
  | zero => exact Nat.zero_le _
  | succ fuel ih =>
    cases hfirst : F.first s with
    | none =>
      rw [messagesOf_none hfirst]
      exact Nat.zero_le _
    | some n =>
      have hrest := ih (s.drop n)
      have hle := F.first_le hfirst
      rw [length_drop] at hrest
      simp only [messagesOf, hfirst, flatten_cons, length_append, length_take]
      omega

/-- What is in front of a number of messages is itself that many messages. -/
theorem messages_of_take {s t : List α} {i : Nat} (h : ((F.messages (s ++ t)).take i).flatten = s) :
    F.messages s = (F.messages (s ++ t)).take i := by
  induction i generalizing s with
  | zero =>
    obtain rfl : s = [] := h.symm
    rfl
  | succ i ih =>
    cases hfirst : F.first (s ++ t) with
    | none =>
      rw [messages_none hfirst] at h ⊢
      obtain rfl : s = [] := h.symm
      rfl
    | some n =>
      rw [messages_some hfirst, take_succ_cons] at h ⊢
      rw [flatten_cons] at h
      have hn : n ≤ s.length := by
        have hle := F.first_le hfirst
        have hlen := congrArg List.length h
        rw [length_append, length_take] at hlen
        omega
      have htake : (s ++ t).take n = s.take n := take_append_of_le_length hn
      have hdrop : (s ++ t).drop n = s.drop n ++ t := drop_append_of_le_length hn
      -- the first message is complete without what follows it
      have hown : F.first s = some n := by
        have hfront := F.first_take hfirst
        rw [htake] at hfront
        have hgrown := F.first_append hfront (s.drop n)
        rwa [take_append_drop] at hgrown
      rw [htake, hdrop] at h ⊢
      have hrest : ((F.messages (s.drop n ++ t)).take i).flatten = s.drop n := by
        have hboth := h.trans (take_append_drop n s).symm
        exact append_cancel_left hboth
      rw [messages_some hown, ih hrest]

/-- The text is message number `i` of the stream that consists of `before` and of it. -/
def Nth (F : Framing α) (before text : List α) (i : Nat) : Prop :=
  ((F.messages (before ++ text)).take i).flatten = before ∧
    (F.messages (before ++ text))[i]? = some text

/-- If a text is message number `i`, there are `i` messages before it and none behind it. -/
theorem Nth.messages {before text : List α} {i : Nat} (h : F.Nth before text i) :
    (F.messages before).length = i ∧
      F.messages (before ++ text) = F.messages before ++ [text] := by
  obtain ⟨hfront, hhere⟩ := h
  obtain ⟨hlt, hget⟩ := List.getElem?_eq_some_iff.mp hhere
  have hbefore := messages_of_take hfront
  have hlen : (F.messages before).length = i := by
    rw [hbefore, length_take, Nat.min_eq_left (Nat.le_of_lt hlt)]
  have hsplit : F.messages (before ++ text) =
      F.messages before ++ text :: (F.messages (before ++ text)).drop (i + 1) := by
    have hcons := drop_eq_getElem_cons hlt
    rw [hget] at hcons
    rw [hbefore, ← hcons, take_append_drop]
  -- the stream has no room for another message
  have hnone : (F.messages (before ++ text)).drop (i + 1) = [] := by
    have htotal := F.length_flatten_messagesOf (before ++ text).length (before ++ text)
    have hall : (F.messages (before ++ text)).flatten.length ≤ (before ++ text).length := htotal
    rw [hsplit, flatten_append, hbefore, hfront, flatten_cons] at hall
    simp only [length_append] at hall
    cases hdrop : (F.messages (before ++ text)).drop (i + 1) with
    | nil => rfl
    | cons m rest =>
      have hmem : m ∈ F.messages (before ++ text) := mem_of_mem_drop (hdrop ▸ mem_cons_self)
      have hpos := length_pos_iff.mpr (ne_nil_of_mem_messages hmem)
      rw [hdrop, flatten_cons, length_append] at hall
      omega
  rw [hnone] at hsplit
  exact ⟨hlen, hsplit⟩

end Framing
