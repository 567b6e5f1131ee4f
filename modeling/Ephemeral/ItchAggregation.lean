import Ephemeral.ItchOrders
import Mathlib.Data.List.Infix

/-!
# Aggregated quantities

The builder keeps a total for every side and price, in floating point.  It is the sum of
the remaining quantities of the live orders there, for every sequence of messages in
which no such sum exceeds `2 ^ 53` (`itch_aggregation_exact`).  Beyond that an addition
can be lost (`itch_aggregation_loses_share`).
-/

namespace Eph.Book

open ByteOrder Itch KeyedSum OrderTable List AddOrder

/-- The sum of the remaining quantities of the builder's live orders at a side and price. -/
def ItchBookBuilder.liveQty {maxLevels : ℕ} (b : ItchBookBuilder maxLevels) (side : Side)
    (price : ℚ) : ℚ :=
  total (fun _ ord => if ord.side = side ∧ ord.price = price then ord.remainingQty else 0) b.orders

/-- The sum over the builder's orders is the sum over the table. -/
theorem Aggregates.liveQty {maxLevels : ℕ} {b : ItchBookBuilder maxLevels} {t : OrderTable}
    (h : Aggregates b t) (side : Side) (price : UInt32) :
    b.liveQty side (itchPrice Binary64.round price) = t.levelQty side price := by
  unfold ItchBookBuilder.liveQty levelQty
  rw [h.orders, total_mapValues, natCast_total]
  congr 1
  funext ref o
  unfold weight LiveOrder.toOrder
  simp only [itchPrice_injective.eq_iff]
  split_ifs
  · rfl
  · exact Nat.cast_zero.symm

/-- For the totals alone the tables must only be bounded. -/
theorem carried_true (maxLevels : ℕ) : @Carried maxLevels OrderTable.Bounded fun _ _ => True where
  start := trivial
  bounded := id
  erase := fun ref h => h.erase ref
  move := fun _ _ _ _ => trivial

/-- **Aggregation.**  As long as no sum of remaining quantities exceeds `2 ^ 53`, the total
that the builder keeps for a side and price is the sum of the remaining quantities of its
live orders there, its live orders are those that the feed leaves alive, and no quantity
is negative. -/
theorem itch_aggregation_exact (maxLevels : ℕ) (msgs : List MessageView)
    (hbound : ∀ front, front <+: msgs → (run front).Bounded) :
    let b := builderAfter maxLevels msgs
    (∀ side price, b.aggregated side price = b.liveQty side (itchPrice Binary64.round price)) ∧
      b.orders = mapValues LiveOrder.toOrder (run msgs) ∧
      (∀ ref ord, b.orders.lookup ref = some ord → 0 ≤ ord.remainingQty) ∧ b.TotalsNonneg := by
  obtain ⟨hagg, -⟩ := (carried_true maxLevels).run hbound
  refine ⟨?_, hagg.orders, ?_, hagg.nonneg⟩
  · intro side price
    rw [hagg.liveQty]
    exact hagg.totals side price
  · intro ref ord hlookup
    rw [hagg.orders, lookup_mapValues] at hlookup
    obtain ⟨o, -, rfl⟩ := Option.map_eq_some_iff.mp hlookup
    exact Nat.cast_nonneg _

/-- The message of a new order to buy. -/
def buyMessage (ref : ℕ) (price shares : ℕ) : MessageView where
  msgType := kAddOrder
  data := replicate 11 0 ++ (toBe 8 ref ++ (66 :: (toBe 4 shares ++
    (replicate 8 32 ++ toBe 4 price))))

/-- The message of an execution. -/
def executeMessage (ref shares : ℕ) : MessageView where
  msgType := kOrderExecuted
  data := replicate 11 0 ++ (toBe 8 ref ++ toBe 4 shares)

theorem ofMessage_buyMessage (ref price shares : ℕ) :
    OrderEvent.ofMessage (buyMessage ref price shares) =
      some (.add (UInt64.ofNat ref) .bid (UInt32.ofNat price) (UInt32.ofNat shares)) := by
  have href : orderRef (buyMessage ref price shares).data = UInt64.ofNat ref := by
    simp [orderRef, buyMessage]
  have hside : side (buyMessage ref price shares).data = 66 := by
    simp [AddOrder.side, buyMessage]
  have hshares : AddOrder.shares (buyMessage ref price shares).data = UInt32.ofNat shares := by
    simp [AddOrder.shares, buyMessage]
  have hlast : be32At (toBe 4 price) 0 = UInt32.ofNat price := by
    rw [← append_nil (toBe 4 price)]
    exact be32At_toBe price []
  have hprice : priceRaw (buyMessage ref price shares).data = UInt32.ofNat price := by
    simp [priceRaw, buyMessage, hlast]
  rw [OrderEvent.ofMessage, if_pos (by rfl), href, hside, hshares, hprice]
  rfl

/-- A table whose orders hold at most `2 ^ 53` shares together is bounded. -/
theorem OrderTable.bounded_of_total {t : OrderTable}
    (h : total (fun _ o => o.qty) t ≤ 2 ^ 53) : t.Bounded := by
  intro side price
  refine Nat.le_trans (total_mono ?_ t) h
  intro ref o
  unfold weight
  split_ifs
  · exact Nat.le_refl _
  · exact Nat.zero_le _

/-- An order that is added twice and then executed beyond its size, with another at its
price. -/
theorem itch_aggregation_exact_sample :
    let msgs := [buyMessage 7 10000 100, buyMessage 7 10000 40, buyMessage 8 10000 5,
      executeMessage 7 50]
    (∀ front, front <+: msgs → (run front).Bounded) ∧
      (builderAfter 20 msgs).aggregated .bid 10000 =
        (builderAfter 20 msgs).liveQty .bid (itchPrice Binary64.round 10000) := by
  intro msgs
  have hbound : ∀ front, front <+: msgs → (run front).Bounded := by
    intro front hfront
    apply bounded_of_total
    rw [← mem_inits] at hfront
    revert front
    decide
  exact ⟨hbound, (itch_aggregation_exact 20 msgs hbound).1 .bid 10000⟩

/-- All orders are to buy at one dollar, for `sum` shares together, and no reference from
`next` on is in use. -/
structure OneLevel (msgs : List MessageView) (next sum : ℕ) : Prop where
  aggregates : Aggregates (builderAfter 20 msgs) (run msgs)
  level : ∀ side price, (run msgs).levelQty side price =
    if side = .bid ∧ price = 10000 then sum else 0
  fresh : ∀ ref, next ≤ ref → ref < 2 ^ 64 →
    (run msgs).lookup (UInt64.ofNat ref) = none

theorem OrderTable.bounded_of_level {t : OrderTable} {sum : ℕ} (hsum : sum ≤ 2 ^ 53)
    (hlevel : ∀ side price, t.levelQty side price =
      if side = .bid ∧ price = 10000 then sum else 0) : t.Bounded := by
  intro side price
  rw [hlevel]
  split_ifs
  · exact hsum
  · exact Nat.zero_le _

/-- One more order at the level. -/
theorem OneLevel.buy {msgs : List MessageView} {next sum : ℕ} (h : OneLevel msgs next sum)
    (shares : ℕ) (hnext : next < 2 ^ 64) (hshares : shares < 2 ^ 32)
    (hsum : sum + shares ≤ 2 ^ 53) :
    OneLevel (msgs ++ [buyMessage next 10000 shares]) (next + 1) (sum + shares) := by
  have hnone := h.fresh next (Nat.le_refl _) hnext
  have hrun : run (msgs ++ [buyMessage next 10000 shares]) =
      (run msgs).insert (UInt64.ofNat next)
        ⟨.bid, 10000, (UInt32.ofNat shares).toNat⟩ := by
    rw [run_concat, process, ofMessage_buyMessage]
    dsimp only [apply]
    rw [erase_of_lookup_none hnone]
    rfl
  have htoNat : (UInt32.ofNat shares).toNat = shares := UInt32.toNat_ofNat_of_lt' hshares
  have hlevel : ∀ side price,
      (run (msgs ++ [buyMessage next 10000 shares])).levelQty side price =
        if side = .bid ∧ price = 10000 then sum + shares else 0 := by
    intro side price
    rw [hrun, levelQty_insert, erase_of_lookup_none hnone, h.level, htoNat]
    by_cases hsame : side = .bid ∧ price = 10000
    · obtain ⟨rfl, rfl⟩ := hsame
      rw [weight_self _ (⟨.bid, 10000, shares⟩ : LiveOrder)]
      rw [if_pos ⟨rfl, rfl⟩, if_pos ⟨rfl, rfl⟩, Nat.add_comm]
    · rw [if_neg hsame, if_neg hsame, weight_other hsame]
  refine ⟨((carried_true 20).process ⟨h.aggregates, trivial⟩
    (bounded_of_level (by omega) h.level)
    (bounded_of_level hsum hlevel)).1, hlevel, ?_⟩
  intro ref hle hlt
  rw [hrun, AList.lookup_insert_ne]
  · exact h.fresh ref (by omega) hlt
  intro heq
  have hnat := congrArg UInt64.toNat heq
  rw [UInt64.toNat_ofNat_of_lt' hlt, UInt64.toNat_ofNat_of_lt' hnext] at hnat
  omega

/-- `n` orders of the same size. -/
def equalOrders (size n : ℕ) : List MessageView :=
  (range n).map fun ref => buyMessage ref 10000 size

theorem oneLevel_equalOrders (size n : ℕ) (hsize : size < 2 ^ 32) (hn : n < 2 ^ 64)
    (hsum : n * size ≤ 2 ^ 53) : OneLevel (equalOrders size n) n (n * size) := by
  induction n with
  | zero =>
    rw [Nat.zero_mul]
    refine ⟨aggregates_empty, ?_, fun _ _ _ => rfl⟩
    intro side price
    split_ifs <;> rfl
  | succ n ih =>
    rw [Nat.succ_mul] at hsum ⊢
    have hstep := (ih (by omega) (by omega)).buy size (by omega) hsize hsum
    rw [equalOrders, range_succ, map_append]
    exact hstep

/-- With `2 ^ 53` shares at a price, a new order of one share is not counted. -/
theorem itch_aggregation_loses_share :
    ∃ msgs : List MessageView,
      (builderAfter 20 msgs).aggregated .bid 10000 = 2 ^ 53 ∧
      (builderAfter 20 msgs).liveQty .bid (itchPrice Binary64.round 10000) = 2 ^ 53 + 1 := by
  -- 2 ^ 21 orders of 2 ^ 32 - 1 shares and one of 2 ^ 21 fill the level exactly.
  have hlarge := oneLevel_equalOrders (2 ^ 32 - 1) (2 ^ 21) (by decide) (by decide) (by decide)
  obtain ⟨msgs, next, hnext, hfull⟩ : ∃ msgs next, next < 2 ^ 64 ∧ OneLevel msgs next (2 ^ 53) :=
    ⟨_, 2 ^ 21 + 1, by decide, hlarge.buy (2 ^ 21) (by decide) (by decide) (by decide)⟩
  have hnone : (builderAfter 20 msgs).orders.lookup (UInt64.ofNat next) = none := by
    rw [hfull.aggregates.orders, lookup_mapValues, hfull.fresh next (Nat.le_refl _) hnext]
    rfl
  have htotal : (builderAfter 20 msgs).aggregated .bid 10000 = 2 ^ 53 := by
    rw [hfull.aggregates.totals, hfull.level, if_pos ⟨rfl, rfl⟩]
    norm_num
  have hlive : (builderAfter 20 msgs).liveQty .bid (itchPrice Binary64.round 10000) = 2 ^ 53 := by
    rw [hfull.aggregates.liveQty, hfull.level, if_pos ⟨rfl, rfl⟩]
    norm_num
  obtain ⟨b, hb⟩ : ∃ b : ItchBookBuilder 20, b = { builderAfter 20 msgs with
      orders := (builderAfter 20 msgs).orders.insert (UInt64.ofNat next)
        ⟨itchPrice Binary64.round 10000, 1, .bid⟩ } := ⟨_, rfl⟩
  have hafter : builderAfter 20 (msgs ++ [buyMessage next 10000 1]) =
      b.addQty Binary64.round (itchPrice Binary64.round 10000) 1 .bid := by
    rw [builderAfter_concat, ItchBookBuilder.process_eq, ofMessage_buyMessage, hb]
    dsimp only [ItchBookBuilder.apply]
    rw [ItchBookBuilder.evictExistingRef, hnone]
    rfl
  have hsum : Binary64.round (b.aggregated .bid 10000 + 1) = 2 ^ 53 := by
    rw [show b.aggregated .bid 10000 = 2 ^ 53 by rw [hb]; exact htotal]
    decide +kernel
  have hset := b.addQty_levelSet .bid 10000 1 (by rw [hsum]; positivity)
  rw [← hafter, hsum] at hset
  refine ⟨msgs ++ [buyMessage next 10000 1], hset.same, ?_⟩
  unfold ItchBookBuilder.liveQty at hlive ⊢
  rw [hset.orders, hb, total_insert, erase_of_lookup_none hnone, hlive, if_pos ⟨rfl, rfl⟩, add_comm]

end Eph.Book
