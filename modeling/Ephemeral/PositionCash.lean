import Ephemeral.PositionTracker
import Mathlib.Tactic.FieldSimp
import Mathlib.Tactic.Linarith
import Mathlib.Tactic.Ring

/-!
# The cash of a position

A position has cost its quantity at the average price, and has realized a profit.  Together
they are the cash that its fills have moved, whether a fill adds to the position, reduces it
or reverses it (`position_cash`).
-/

namespace Eph.Fix

open ByteOrder KeyedSum List

/-- **What a fill does to a position**: it opens or adds to it, reduces or closes it, or reverses
it. -/
theorem Position.fill_cases (pos : Position) {signed : ℚ} (hsigned : signed ≠ 0) (price : ℚ) :
    (0 ≤ pos.qty * signed ∧ pos.qty + signed ≠ 0 ∧
      (pos.fill signed price).realizedPnl = pos.realizedPnl ∧
      (pos.fill signed price).avgPrice =
        pos.avgPrice + (price - pos.avgPrice) * (signed / (pos.qty + signed))) ∨
    (|pos.qty + signed| + |signed| = |pos.qty| ∧ (pos.fill signed price).avgPrice = pos.avgPrice ∧
      (pos.fill signed price).realizedPnl = pos.realizedPnl + (pos.avgPrice - price) * signed) ∨
    (|pos.qty| < |signed| ∧ (pos.fill signed price).avgPrice = price ∧
      (pos.fill signed price).realizedPnl =
        pos.realizedPnl + (price - pos.avgPrice) * pos.qty) := by
  unfold fill
  dsimp only
  by_cases hreducing : pos.qty ≠ 0 ∧ ¬(0 < pos.qty ↔ 0 < signed)
  · obtain ⟨hopen, hacross⟩ := hreducing
    rw [if_neg (by simp [hopen, hacross])]
    dsimp only
    rcases le_or_gt |signed| |pos.qty| with hle | hgt
    · refine .inr (.inl ⟨?_, if_neg (not_lt.mpr hle), ?_⟩)
      · grind
      · rw [min_eq_left hle]
        split_ifs with hq <;> grind
    refine .inr (.inr ⟨hgt, if_pos hgt, ?_⟩)
    rw [min_eq_right (le_of_lt hgt)]
    split_ifs with hq
    · rw [abs_of_pos hq]
    · rw [abs_of_nonpos (not_lt.mp hq)]
      ring
  · rw [if_pos (by simpa [← or_iff_not_imp_left] using hreducing)]
    have hsame : 0 ≤ pos.qty * signed ∧ pos.qty + signed ≠ 0 ∧
        |signed| / |pos.qty + signed| = signed / (pos.qty + signed) := by
      rcases lt_or_gt_of_ne hsigned with hs | hs
      · have hq : pos.qty ≤ 0 := by grind
        have hnew : pos.qty + signed < 0 := by linarith
        rw [abs_of_neg hs, abs_of_neg hnew, neg_div_neg_eq]
        exact ⟨mul_nonneg_of_nonpos_of_nonpos hq (le_of_lt hs), ne_of_lt hnew, rfl⟩
      · have hq : 0 ≤ pos.qty := by grind
        have hnew : 0 < pos.qty + signed := by linarith
        rw [abs_of_pos hs, abs_of_pos hnew]
        exact ⟨mul_nonneg hq (le_of_lt hs), ne_of_gt hnew, rfl⟩
    obtain ⟨hsign, hnew, hratio⟩ := hsame
    rw [if_pos hnew, hratio]
    exact .inl ⟨hsign, hnew, rfl, rfl⟩

/-- **The cash of one fill.** -/
theorem Position.fill_cash (pos : Position) {signed : ℚ} (hsigned : signed ≠ 0) (price : ℚ) :
    (pos.fill signed price).realizedPnl -
        (pos.fill signed price).qty * (pos.fill signed price).avgPrice =
      pos.realizedPnl - pos.qty * pos.avgPrice - signed * price := by
  have hqty : (pos.fill signed price).qty = pos.qty + signed := rfl
  rcases pos.fill_cases hsigned price with
    ⟨-, hnew, hpnl, havg⟩ | ⟨-, havg, hpnl⟩ | ⟨-, havg, hpnl⟩ <;> rw [hqty, hpnl, havg]
  · field_simp
    ring
  · ring
  · ring

/-- A call of `on_fill`. -/
structure Fill where
  symbol : Bytes
  side : UInt8
  qty : ℚ
  price : ℚ

/-- The quantity of a fill with its sign. -/
def Fill.signed (fill : Fill) : ℚ :=
  signedQty fill.side fill.qty

/-- The fill is in this symbol, and `on_fill` accepts it. -/
def Fill.Counts (symbol : Bytes) (fill : Fill) : Prop :=
  (fill.side = kSideBuy ∨ fill.side = kSideSell) ∧
    symbol = fill.symbol ∧ 0 < fill.qty ∧ 0 < fill.price

instance (symbol : Bytes) : DecidablePred (Fill.Counts symbol) := fun fill =>
  inferInstanceAs (Decidable ((fill.side = kSideBuy ∨ fill.side = kSideSell) ∧
    symbol = fill.symbol ∧ 0 < fill.qty ∧ 0 < fill.price))

theorem Fill.Counts.signed_ne_zero {symbol : Bytes} {fill : Fill} (h : fill.Counts symbol) :
    fill.signed ≠ 0 := by
  unfold Fill.signed signedQty
  split_ifs
  · exact ne_of_gt h.2.2.1
  · exact neg_ne_zero.mpr (ne_of_gt h.2.2.1)

/-- The tracker after some fills. -/
def PositionTracker.afterFills (fills : List Fill) : PositionTracker :=
  fills.foldl (fun tracker fill => tracker.onFill fill.symbol fill.side fill.qty fill.price) empty

/-- The position accounts for the fills. -/
structure Position.Accounts (pos : Position) (fills : List Fill) : Prop where
  qty : pos.qty = (fills.map Fill.signed).sum
  cash : pos.realizedPnl - pos.qty * pos.avgPrice =
    -(fills.map fun fill => fill.signed * fill.price).sum
  notional : pos.notional = |pos.qty| * pos.avgPrice

theorem Position.Accounts.fill {pos : Position} {fills : List Fill} (h : pos.Accounts fills)
    {fill : Fill} (hsigned : fill.signed ≠ 0) :
    (pos.fill fill.signed fill.price).Accounts (fills ++ [fill]) := by
  refine ⟨?_, ?_, rfl⟩
  · rw [map_append, sum_append, ← h.qty, map_singleton, sum_singleton]
    rfl
  · rw [pos.fill_cash hsigned, h.cash, map_append, sum_append, map_singleton,
      sum_singleton, neg_add, sub_eq_add_neg]

theorem PositionTracker.accounts_afterFills (fills : List Fill) (symbol : Bytes) :
    ((afterFills fills).get symbol).Accounts (fills.filter (Fill.Counts symbol)) := by
  induction fills using List.reverseRecOn with
  | nil =>
    change Position.Accounts {} []
    exact ⟨rfl, by simp, by simp⟩
  | append_singleton fills fill ih =>
    have hafter : afterFills (fills ++ [fill]) =
        (afterFills fills).onFill fill.symbol fill.side fill.qty fill.price := by
      unfold afterFills
      rw [foldl_append]
      rfl
    rw [hafter, filter_append, filter_singleton, get_onFill]
    by_cases hcounts : fill.Counts symbol
    · rw [if_pos (by exact hcounts), decide_eq_true hcounts]
      exact ih.fill hcounts.signed_ne_zero
    · rw [if_neg (by exact hcounts), decide_eq_false hcounts]
      rwa [← append_nil (fills.filter _)] at ih

/-- **Cash conservation of positions.**  The net quantity is the sum of the fills, and the profit
less the cost of the position is the cash that they moved.  A fill that reduces or closes
the position leaves the average price, and the notional is the position at that price. -/
theorem position_cash (fills : List Fill) (symbol : Bytes) :
    let tracker := PositionTracker.afterFills fills
    let pos := tracker.get symbol
    pos.Accounts (fills.filter (Fill.Counts symbol)) ∧
      (∀ signed price, pos.qty * signed < 0 → |signed| ≤ |pos.qty| →
        (pos.fill signed price).avgPrice = pos.avgPrice) ∧
      tracker.netExposure = total (fun _ pos => |pos.qty| * pos.avgPrice) tracker.positions := by
  refine ⟨PositionTracker.accounts_afterFills fills symbol, fun signed price hacross hle => ?_, ?_⟩
  · have hsigned : signed ≠ 0 := by
      rintro rfl
      exact absurd hacross (by simp)
    rcases Position.fill_cases _ hsigned price with ⟨hsame, -⟩ | ⟨-, havg, -⟩ | ⟨hgt, -⟩
    · exact absurd hacross (not_lt.mpr hsame)
    · exact havg
    · exact absurd hle (not_le.mpr hgt)
  · refine total_congr fun symbol' pos hlookup => ?_
    have hnotional := (PositionTracker.accounts_afterFills fills symbol').notional
    rwa [PositionTracker.get, hlookup] at hnotional

end Eph.Fix
