import Ephemeral.PositionCash

/-!
# Pre-trade risk checks

`check_order` looks at the position that an order would lead to.  It values that position at
the price of the order, the tracker at the average price.  The two differ for an order that
adds to a position below its average price: it makes the position look cheaper than it is,
and can lead beyond the limits.  The limit on the quantity is always kept, and the others are
kept by orders of every other kind (`risk_limits_kept`).
-/

namespace Eph.Fix

open ByteOrder KeyedSum List

/-- The thresholds; zero disables a check.  The rate limit is not checked here. -/
structure RiskLimits where
  maxOrderQty : ℚ := 0
  maxOrderNotional : ℚ := 0
  maxPositionQty : ℚ := 0
  maxPositionNotional : ℚ := 0
  maxTotalExposure : ℚ := 0

/-- `RiskRejectReason`. -/
inductive RiskRejectReason
  | kOk
  | kOrderQtyExceeded
  | kOrderNotionalExceeded
  | kPositionQtyExceeded
  | kPositionNotionalExceeded
  | kTotalExposureExceeded
  | kRateLimitExceeded
  | kInvalidInput
  deriving DecidableEq

variable (limits : RiskLimits) (tracker : PositionTracker)

/-- `check_order`. -/
def RiskLimits.checkOrder (symbol : Bytes) (side : UInt8) (qty price : ℚ)
    (positions : PositionTracker) : RiskRejectReason :=
  let pos := positions.get symbol
  let projectedQty := |pos.qty + signedQty side qty|
  if qty ≤ 0 ∨ price ≤ 0 then .kInvalidInput
  else if side ≠ kSideBuy ∧ side ≠ kSideSell then .kInvalidInput
  else if limits.maxOrderQty > 0 ∧ qty > limits.maxOrderQty then .kOrderQtyExceeded
  else if limits.maxOrderNotional > 0 ∧ qty * price > limits.maxOrderNotional then
    .kOrderNotionalExceeded
  else if limits.maxPositionQty > 0 ∧ projectedQty > limits.maxPositionQty then
    .kPositionQtyExceeded
  else if limits.maxPositionNotional > 0 ∧ projectedQty * price > limits.maxPositionNotional then
    .kPositionNotionalExceeded
  else if limits.maxTotalExposure > 0 ∧
      positions.netExposure - |pos.qty| * pos.avgPrice + projectedQty * price >
        limits.maxTotalExposure then
    .kTotalExposureExceeded
  else .kOk

/-- The tracker after an order that is filled at its price if it is admitted. -/
def RiskLimits.trade (order : Fill) : PositionTracker :=
  if limits.checkOrder order.symbol order.side order.qty order.price tracker = .kOk then
    tracker.onFill order.symbol order.side order.qty order.price
  else tracker

/-- The tracker after some orders, one at a time. -/
def RiskLimits.afterOrders (orders : List Fill) : PositionTracker :=
  orders.foldl limits.trade .empty

/-- The order adds to a position at a price below its average. -/
def Fill.Averages (order : Fill) : Prop :=
  0 < (tracker.get order.symbol).qty * order.signed ∧
    order.price < (tracker.get order.symbol).avgPrice

/-- What an admitted order has passed. -/
structure RiskLimits.Admits (limits : RiskLimits) (tracker : PositionTracker) (order : Fill) :
    Prop where
  counts : order.Counts order.symbol
  qty : 0 < limits.maxPositionQty →
    |(tracker.get order.symbol).qty + order.signed| ≤ limits.maxPositionQty
  notional : 0 < limits.maxPositionNotional →
    |(tracker.get order.symbol).qty + order.signed| * order.price ≤ limits.maxPositionNotional
  exposure : 0 < limits.maxTotalExposure →
    tracker.netExposure - |(tracker.get order.symbol).qty| * (tracker.get order.symbol).avgPrice +
      |(tracker.get order.symbol).qty + order.signed| * order.price ≤ limits.maxTotalExposure

theorem RiskLimits.trade_cases (order : Fill) :
    limits.trade tracker order = tracker ∨
      (limits.checkOrder order.symbol order.side order.qty order.price tracker = .kOk ∧
        limits.Admits tracker order ∧ limits.trade tracker order =
          tracker.onFill order.symbol order.side order.qty order.price) := by
  unfold trade
  split_ifs with hok
  · refine .inr ⟨hok, ?_, rfl⟩
    unfold checkOrder at hok
    dsimp only at hok
    split_ifs at hok with hinvalid hside _ _ hqty hnotional hexposure
    exact ⟨⟨by tauto, rfl, by rwa [not_or, not_le, not_le] at hinvalid⟩,
      fun hset => not_lt.mp fun h => hqty ⟨hset, h⟩,
      fun hset => not_lt.mp fun h => hnotional ⟨hset, h⟩,
      fun hset => not_lt.mp fun h => hexposure ⟨hset, h⟩⟩
  · exact .inl rfl

/-- The exposure of a position after a fill: unless the fill averages it down, it is no more than
the position at the price of the fill, or than it was. -/
theorem Position.fill_exposure (pos : Position) {signed price : ℚ} (hsigned : signed ≠ 0)
    (havg : 0 ≤ pos.avgPrice) (hprice : 0 < price) :
    0 ≤ (pos.fill signed price).avgPrice ∧
      (¬(0 < pos.qty * signed ∧ price < pos.avgPrice) → (pos.fill signed price).avgPrice ≤ price ∨
          |pos.qty + signed| * (pos.fill signed price).avgPrice ≤ |pos.qty| * pos.avgPrice) := by
  rcases pos.fill_cases hsigned price with
    ⟨hsame, hnew, -, havg'⟩ | ⟨hless, havg', -⟩ | ⟨-, havg', -⟩
  · -- the new average lies between the old one and the price
    have hweight : ∀ x, 0 ≤ x * (pos.qty + signed) → 0 ≤ x / (pos.qty + signed) := by
      intro x hx
      rw [← mul_div_mul_right x _ hnew]
      exact div_nonneg hx (mul_self_nonneg _)
    have hold := hweight pos.qty (by nlinarith [mul_self_nonneg pos.qty])
    have hadded := hweight signed (by nlinarith [mul_self_nonneg signed])
    have hmean : (pos.fill signed price).avgPrice = pos.avgPrice * (pos.qty / (pos.qty + signed)) +
        price * (signed / (pos.qty + signed)) := by
      rw [havg']
      field_simp
      ring
    refine ⟨?_, fun hnot => .inl ?_⟩
    · rw [hmean]
      exact add_nonneg (mul_nonneg havg hold) (mul_nonneg (le_of_lt hprice) hadded)
    have hgap : price - (pos.fill signed price).avgPrice =
        (price - pos.avgPrice) * (pos.qty / (pos.qty + signed)) := by
      rw [havg']
      field_simp
      ring
    rw [← sub_nonneg, hgap]
    rcases le_or_gt pos.avgPrice price with hle | hlt
    · exact mul_nonneg (sub_nonneg.mpr hle) hold
    · have hopen : pos.qty * signed = 0 := le_antisymm (not_lt.mp fun h => hnot ⟨h, hlt⟩) hsame
      rw [(mul_eq_zero.mp hopen).resolve_right hsigned, zero_div, mul_zero]
  · rw [havg']
    refine ⟨havg, fun _ => .inr (mul_le_mul_of_nonneg_right ?_ havg)⟩
    linarith [abs_nonneg signed]
  · rw [havg']
    exact ⟨le_of_lt hprice, fun _ => .inl le_rfl⟩

/-- The exposure of the tracker is that of one position and of the others. -/
theorem PositionTracker.netExposure_onFill {order : Fill} (h : order.Counts order.symbol) :
    (tracker.onFill order.symbol order.side order.qty order.price).netExposure =
      tracker.netExposure - (tracker.get order.symbol).notional +
        ((tracker.get order.symbol).fill order.signed order.price).notional := by
  have hsplit : tracker.netExposure = (tracker.get order.symbol).notional +
      total (fun _ pos => pos.notional) (tracker.positions.erase order.symbol) := by
    unfold netExposure get
    cases hlookup : tracker.positions.lookup order.symbol with
    | none => rw [erase_of_lookup_none hlookup, Option.getD_none, zero_add]
    | some pos => exact total_eq_of_lookup hlookup
  rw [hsplit, onFill, if_neg (not_or.mpr ⟨not_le.mpr h.2.2.1, not_le.mpr h.2.2.2⟩),
    if_neg (not_and_or.mpr (h.1.imp not_not.mpr not_not.mpr)), netExposure, total_insert,
    add_sub_cancel_left, add_comm]
  rfl

/-- The tracker is in order: no average price is negative, and the notionals are up to date. -/
def PositionTracker.Sound : Prop :=
  ∀ symbol, 0 ≤ (tracker.get symbol).avgPrice ∧
    (tracker.get symbol).notional = |(tracker.get symbol).qty| * (tracker.get symbol).avgPrice

/-- The limits on exposures are kept. -/
structure RiskLimits.Kept (limits : RiskLimits) (tracker : PositionTracker) : Prop where
  notional : 0 < limits.maxPositionNotional → ∀ symbol,
    |(tracker.get symbol).qty| * (tracker.get symbol).avgPrice ≤ limits.maxPositionNotional
  exposure : 0 < limits.maxTotalExposure → tracker.netExposure ≤ limits.maxTotalExposure

section Order

variable {limits : RiskLimits} {tracker : PositionTracker} {order : Fill}
  (h : limits.Admits tracker order)

include h

theorem RiskLimits.Admits.get_onFill (symbol : Bytes) :
    (tracker.onFill order.symbol order.side order.qty order.price).get symbol =
      if symbol = order.symbol then (tracker.get symbol).fill order.signed order.price
      else tracker.get symbol := by
  rw [PositionTracker.get_onFill]
  exact if_congr (by simp [h.counts.1, h.counts.2]) rfl rfl

theorem PositionTracker.Sound.onFill (hsound : tracker.Sound) :
    (tracker.onFill order.symbol order.side order.qty order.price).Sound := by
  intro symbol
  rw [h.get_onFill]
  split_ifs with hat
  · exact ⟨(Position.fill_exposure _ h.counts.signed_ne_zero (hsound symbol).1
      h.counts.2.2.2).1, rfl⟩
  · exact hsound symbol

/-- **One order** keeps the limits, unless it averages a position down. -/
theorem RiskLimits.Kept.onFill (hkept : limits.Kept tracker) (hsound : tracker.Sound)
    (hnot : ¬ order.Averages tracker) :
    limits.Kept (tracker.onFill order.symbol order.side order.qty order.price) := by
  obtain ⟨havg, hnotional⟩ := hsound order.symbol
  have hworth : ((tracker.get order.symbol).fill order.signed order.price).notional ≤
        |(tracker.get order.symbol).qty + order.signed| * order.price ∨
      ((tracker.get order.symbol).fill order.signed order.price).notional ≤
        |(tracker.get order.symbol).qty| * (tracker.get order.symbol).avgPrice :=
    ((Position.fill_exposure _ h.counts.signed_ne_zero havg h.counts.2.2.2).2 hnot).imp
      (fun hle => mul_le_mul_of_nonneg_left hle (abs_nonneg _)) id
  refine ⟨fun hset symbol => ?_, fun hset => ?_⟩
  · rw [h.get_onFill]
    split_ifs with hat
    · subst hat
      exact hworth.elim (·.trans (h.notional hset)) (·.trans (hkept.notional hset _))
    · exact hkept.notional hset symbol
  · rw [tracker.netExposure_onFill h.counts, hnotional]
    have := h.exposure hset
    have := hkept.exposure hset
    rcases hworth with hworth | hworth <;> linarith

end Order

/-- **Pre-trade risk soundness.**  After every sequence of orders, filled at their prices if they
are admitted, no position exceeds the limit on its quantity.  If no admitted order adds to a
position below its average price, the limits on exposures are kept as well. -/
theorem risk_limits_kept (limits : RiskLimits) (orders : List Fill) :
    (0 < limits.maxPositionQty → ∀ symbol,
      |((limits.afterOrders orders).get symbol).qty| ≤ limits.maxPositionQty) ∧
    ((∀ front order, front ++ [order] <+: orders →
        limits.checkOrder order.symbol order.side order.qty order.price
          (limits.afterOrders front) = .kOk → ¬ order.Averages (limits.afterOrders front)) →
      limits.Kept (limits.afterOrders orders)) := by
  suffices h : (limits.afterOrders orders).Sound ∧ _ ∧ _ from h.2
  induction orders using reverseRecOn with
  | nil =>
    have hnone : ∀ symbol, (limits.afterOrders []).get symbol = {} := fun _ => rfl
    refine ⟨fun symbol => ?_, fun hset symbol => ?_, fun _ => ⟨fun hset symbol => ?_, le_of_lt⟩⟩
    all_goals simp [le_of_lt, *]
  | append_singleton orders order ih =>
    obtain ⟨hsound, hqty, hkept⟩ := ih
    have hafter : limits.afterOrders (orders ++ [order]) =
        limits.trade (limits.afterOrders orders) order := by
      unfold RiskLimits.afterOrders
      rw [foldl_append]
      rfl
    rw [hafter]
    rcases limits.trade_cases (limits.afterOrders orders) order with
      hsame | ⟨hok, h, hfilled⟩
    · rw [hsame]
      exact ⟨hsound, hqty, fun hall => hkept fun front o hfront =>
        hall front o (hfront.trans (prefix_append _ _))⟩
    rw [hfilled]
    refine ⟨hsound.onFill h, fun hset symbol => ?_, fun hall => ?_⟩
    · rw [h.get_onFill]
      split_ifs with hat
      · subst hat
        exact h.qty hset
      · exact hqty hset symbol
    · refine (hkept fun front o hfront => ?_).onFill h hsound
        (hall orders order (prefix_refl _) hok)
      exact hall front o (hfront.trans (prefix_append _ _))

/-- Nine bought at 100 and twenty at 10 are worth 1100, although each order was admitted with a
limit of 1000. -/
theorem risk_limits_exceeded :
    let limits : RiskLimits := { maxPositionNotional := 1000, maxTotalExposure := 1000 }
    let first : Fill := ⟨[88], kSideBuy, 9, 100⟩
    let second : Fill := ⟨[88], kSideBuy, 20, 10⟩
    limits.checkOrder [88] kSideBuy 9 100 .empty = .kOk ∧
      limits.checkOrder [88] kSideBuy 20 10 (limits.afterOrders [first]) = .kOk ∧
      (limits.afterOrders [first, second]).netExposure = 1100 := by
  decide +kernel

end Eph.Fix
