import Ephemeral.ByteOrder
import Ephemeral.KeyedSum
import Mathlib.Algebra.Order.Field.Rat

/-!
# The position tracker

`PositionTracker` keeps the net position of every symbol, with its average price and the
profit that reducing fills have realized.  Prices and quantities are exact rationals here,
so the guards against values that are not finite have nothing to reject.
-/

namespace Eph.Fix

open ByteOrder

/-- The position of one symbol. -/
structure Position where
  qty : ℚ := 0
  avgPrice : ℚ := 0
  realizedPnl : ℚ := 0
  notional : ℚ := 0
  tradeCount : ℕ := 0
  deriving DecidableEq

/-- The FIX side codes. -/
def kSideBuy : UInt8 := 49
def kSideSell : UInt8 := 50

/-- A quantity with its sign: positive for buys, negative for sells. -/
def signedQty (side : UInt8) (qty : ℚ) : ℚ :=
  if side = kSideBuy then qty else -qty

/-- What a valid fill does to the position of its symbol. -/
def Position.fill (pos : Position) (signed price : ℚ) : Position :=
  let oldQty := pos.qty
  let newQty := oldQty + signed
  let isReducing := decide (oldQty ≠ 0) && (decide (oldQty > 0) != decide (signed > 0))
  let pos :=
    if !isReducing then
      if newQty ≠ 0 then
        { pos with avgPrice := pos.avgPrice + (price - pos.avgPrice) * (|signed| / |newQty|) }
      else pos
    else
      let closeQty := min |signed| |oldQty|
      let pnl := if oldQty > 0 then (price - pos.avgPrice) * closeQty
        else (pos.avgPrice - price) * closeQty
      let avgPrice := if |signed| > |oldQty| then price else pos.avgPrice
      { pos with realizedPnl := pos.realizedPnl + pnl, avgPrice := avgPrice }
  { pos with
    qty := newQty
    notional := |newQty| * pos.avgPrice
    tradeCount := pos.tradeCount + 1 }

/-- The positions by symbol. -/
structure PositionTracker where
  positions : AList fun _ : Bytes => Position

namespace PositionTracker

/-- A new tracker. -/
def empty : PositionTracker :=
  ⟨∅⟩

variable (tracker : PositionTracker)

/-- `get`: the position of a symbol, all zero if there is none. -/
def get (symbol : Bytes) : Position :=
  (tracker.positions.lookup symbol).getD {}

/-- `on_fill`. -/
def onFill (symbol : Bytes) (side : UInt8) (qty price : ℚ) : PositionTracker :=
  if qty ≤ 0 ∨ price ≤ 0 then tracker
  else if side ≠ kSideBuy ∧ side ≠ kSideSell then tracker
  else
    ⟨tracker.positions.insert symbol ((tracker.get symbol).fill (signedQty side qty) price)⟩

/-- `net_exposure`: the notionals of all positions. -/
def netExposure : ℚ :=
  KeyedSum.total (fun _ pos => pos.notional) tracker.positions

/-- **What a fill does**: one that is valid is counted in the position of its symbol. -/
theorem get_onFill (symbol other : Bytes) (side : UInt8) (qty price : ℚ) :
    (tracker.onFill symbol side qty price).get other =
      if (side = kSideBuy ∨ side = kSideSell) ∧ other = symbol ∧ 0 < qty ∧ 0 < price then
        (tracker.get other).fill (signedQty side qty) price
      else tracker.get other := by
  unfold onFill
  split_ifs with hinvalid hcounts hunknown hcounts hcounts
  · exact absurd hcounts.2.2 (by rwa [← not_lt, ← not_lt, ← not_and_or] at hinvalid)
  · rfl
  · exact absurd hcounts.1 (not_or.mpr hunknown)
  · rfl
  · rw [get, hcounts.2.1, AList.lookup_insert]
    rfl
  · have hother : other ≠ symbol := fun hsame => hcounts
      ⟨by tauto, hsame, by rwa [not_or, not_le, not_le] at hinvalid⟩
    rw [get, AList.lookup_insert_ne hother]
    rfl

theorem qty_onFill (symbol other : Bytes) {side : UInt8}
    (hside : side = kSideBuy ∨ side = kSideSell) (qty price : ℚ) :
    ((tracker.onFill symbol side qty price).get other).qty = (tracker.get other).qty +
      if other = symbol ∧ 0 < qty ∧ 0 < price then signedQty side qty else 0 := by
  rw [get_onFill]
  simp only [hside, true_and]
  split_ifs
  · rfl
  · exact (add_zero _).symm

end PositionTracker

end Eph.Fix
