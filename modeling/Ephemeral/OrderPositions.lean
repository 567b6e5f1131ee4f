import Ephemeral.Fronts
import Ephemeral.OrderManager
import Mathlib.Algebra.Order.Ring.Cast
import Mathlib.Tactic.Ring

/-!
# Positions and orders

The order manager and the position tracker each check a fill before they count it.  If
their checks agreed, the net position of a symbol would always be what its orders say has
been filled.  They differ in one place: a price of zero is good enough for the order and
not for the position.  Apart from that the two agree (`position_agrees_iff`).
-/

namespace Eph.Fix

open ByteOrder KeyedSum OrderManager

/-! ## A trading desk -/

/-- An order manager that forwards fills to a position tracker. -/
structure Desk where
  manager : OrderManager
  tracker : PositionTracker

/-- What happens on a desk. -/
inductive DeskEvent
  | submit (clOrdId symbol : Bytes) (side : UInt8) (qty price : ℚ)
  | report (view : ExecutionReportView)

namespace Desk

/-- A new desk. -/
def empty : Desk :=
  ⟨.empty, .empty⟩

/-- One event. -/
def step (d : Desk) : DeskEvent → Desk
  | .submit clOrdId symbol side qty price =>
    { d with manager := (d.manager.submit clOrdId symbol side qty price).2 }
  | .report view =>
    let result := d.manager.onExecutionReport view (some d.tracker)
    ⟨result.2.1, result.2.2.getD d.tracker⟩

/-- The desk after a sequence of events. -/
def after (events : List DeskEvent) : Desk :=
  events.foldl step empty

theorem after_concat (events : List DeskEvent) (event : DeskEvent) :
    after (events ++ [event]) = (after events).step event := by
  unfold after
  rw [List.foldl_append]
  rfl

end Desk

/-- The signed filled quantity of an order, if it is in that symbol. -/
def ManagedOrder.netFilled (symbol : Bytes) (order : ManagedOrder) : ℚ :=
  if order.symbol = symbol then signedQty order.side order.filledQty else 0

variable (m : OrderManager) (report : ExecutionReportView) (tracker : PositionTracker)
  (result : OrderManager × Option PositionTracker)

/-- What the orders in a symbol say has been filled, buys less sells. -/
def OrderManager.netFilled (symbol : Bytes) : ℚ :=
  total (fun _ order => order.netFilled symbol) m.orders

/-- The net position of every symbol is what its orders say. -/
def Desk.Agrees (d : Desk) : Prop :=
  ∀ symbol, (d.tracker.get symbol).qty = d.manager.netFilled symbol

/-- The report is accepted as a fill of the order. -/
structure AcceptedFill (m : OrderManager) (report : ExecutionReportView) (id : Bytes)
    (order : ManagedOrder) (lastQty : ℤ) (lastPx : ℚ) : Prop where
  clOrdId : report.clOrdId = some id
  lookup : m.orders.lookup id = some order
  live : order.state.isTerminal = false
  execType : report.execType = some .partialFill ∨ report.execType = some .trade ∨
    report.execType = some .fill
  qty : report.lastQty = some lastQty
  px : report.lastPx = some lastPx
  accepted : (order.acceptFill lastQty lastPx).isSome

/-- A fill of a positive quantity at price zero. -/
def DeskEvent.Unpriced : DeskEvent → Prop
  | .submit .. => False
  | .report view => ∃ id order lastQty, AcceptedFill m view id order lastQty 0 ∧ 0 < lastQty

/-! ## One event -/

theorem signedQty_add (side : UInt8) (a b : ℚ) :
    signedQty side (a + b) = signedQty side a + signedQty side b := by
  unfold signedQty
  split_ifs
  · rfl
  · exact neg_add a b

variable {order order' : ManagedOrder}

/-- Writing an order changes what has been filled by what it changes in the order. -/
theorem OrderManager.netFilled_insert {m : OrderManager} {id : Bytes}
    (h : m.orders.lookup id = some order) (symbol : Bytes) :
    netFilled ⟨m.orders.insert id order'⟩ symbol =
      m.netFilled symbol + (order'.netFilled symbol - order.netFilled symbol) := by
  unfold netFilled
  rw [total_insert, total_eq_of_lookup h]
  ring

/-- The order has been written with the same symbol, side and filled quantity. -/
def SameFilled (order order' : ManagedOrder) : Prop :=
  order'.symbol = order.symbol ∧ order'.side = order.side ∧ order'.filledQty = order.filledQty

/-- A fill has been added to an order and forwarded. -/
def FillCounted : Prop :=
  ∃ id order order' lastQty lastPx, AcceptedFill m report id order lastQty lastPx ∧
    order'.symbol = order.symbol ∧ order'.side = order.side ∧
    order'.filledQty = order.filledQty + lastQty ∧ 0 ≤ lastQty ∧ 0 ≤ lastPx ∧
    result = (⟨m.orders.insert id order'⟩,
      some (tracker.onFill order.symbol order.side lastQty lastPx))

/-- The report is no fill, and what has been filled is as before. -/
def NothingCounted : Prop :=
  (∀ id order lastQty lastPx, ¬ AcceptedFill m report id order lastQty lastPx) ∧
    (result = (m, some tracker) ∨
      ∃ id order order', m.orders.lookup id = some order ∧ SameFilled order order' ∧
        result = (⟨m.orders.insert id order'⟩, some tracker))

/-- What a report counts: a fill that is accepted is added to the order and forwarded; nothing
else changes what has been filled. -/
theorem onExecutionReport_counts :
    FillCounted m report tracker (m.onExecutionReport report (some tracker)).2 ∨
      NothingCounted m report tracker (m.onExecutionReport report (some tracker)).2 := by
  rcases m.onExecutionReport_cases (some tracker) report with
    ⟨id, order, order', fill, haddress, hreported, hresult⟩ | ⟨hresult, hnone⟩ <;> rw [hresult]
  · cases hreported with
    | counted hbranch hqty hpx haccept =>
      obtain ⟨hqty', hpx', avg, rfl⟩ := ManagedOrder.acceptFill_some haccept
      refine .inl ⟨id, order, _, _, _, ⟨haddress.clOrdId, haddress.lookup, haddress.live,
        hbranch.type, hqty, hpx, by rw [haccept]; rfl⟩, ?_, ?_, ?_, hqty', hpx', rfl⟩ <;> rfl
    | _ =>
      refine .inr ⟨fun id' order' lastQty lastPx h => ?_, .inr ⟨id, order, _, haddress.lookup,
        ?_, rfl⟩⟩
      swap
      · exact ⟨rfl, rfl, rfl⟩
      have htype := h.execType
      have hqty := h.qty
      have hpx := h.px
      grind
  · refine .inr ⟨fun id order lastQty lastPx h => ?_, .inl rfl⟩
    obtain ⟨order', haccept⟩ := Option.isSome_iff_exists.mp h.accepted
    obtain ⟨state, leaves, hbranch⟩ := exists_fillBranch h.execType
    exact hnone id order _ _ ⟨h.clOrdId, h.lookup, h.live⟩ (.counted hbranch h.qty h.px haccept)

/-- Every order buys or sells. -/
def OrderManager.SidesKnown : Prop :=
  ∀ id order, m.orders.lookup id = some order → order.side = kSideBuy ∨ order.side = kSideSell

/-- A new order has nothing filled. -/
theorem submit_cases (clOrdId symbol : Bytes) (side : UInt8) (qty price : ℚ) :
    (m.submit clOrdId symbol side qty price).2 = m ∨
      ∃ order, m.orders.lookup clOrdId = none ∧ order.filledQty = 0 ∧
        (order.side = kSideBuy ∨ order.side = kSideSell) ∧
        (m.submit clOrdId symbol side qty price).2 = ⟨m.orders.insert clOrdId order⟩ := by
  unfold submit
  split_ifs with hempty hqty hprice hside
  · exact .inl rfl
  · exact .inl rfl
  · exact .inl rfl
  · exact .inl rfl
  cases hlookup : m.orders.lookup clOrdId with
  | some order => exact .inl rfl
  | none =>
    refine .inr ⟨_, rfl, rfl, ?_, rfl⟩
    by_cases hbuy : side = kSideBuy
    · exact .inl hbuy
    · exact .inr (not_not.mp fun hsell => hside ⟨hbuy, hsell⟩)

/-- An accepted fill is unpriced if it is. -/
theorem AcceptedFill.unpriced_iff {m : OrderManager} {view : ExecutionReportView} {id : Bytes}
    {lastQty : ℤ} {lastPx : ℚ} (h : AcceptedFill m view id order lastQty lastPx) :
    (DeskEvent.report view).Unpriced m ↔ 0 < lastQty ∧ lastPx = 0 := by
  constructor
  · rintro ⟨id', order', lastQty', h', hpos⟩
    obtain rfl := Option.some.inj (h.qty.symm.trans h'.qty)
    exact ⟨hpos, Option.some.inj (h.px.symm.trans h'.px)⟩
  · rintro ⟨hpos, rfl⟩
    exact ⟨id, order, lastQty, h, hpos⟩

/-- A fill that is counted in the order: the position counts it too, unless it is for
something at price zero. -/
theorem Desk.Agrees.fill {d : Desk} (h : d.Agrees) {id : Bytes} {lastQty : ℤ} {lastPx : ℚ}
    (hlookup : d.manager.orders.lookup id = some order)
    (hknown : order.side = kSideBuy ∨ order.side = kSideSell)
    (hsymbol : order'.symbol = order.symbol) (hside : order'.side = order.side)
    (hfilled : order'.filledQty = order.filledQty + lastQty) (hqty : 0 ≤ lastQty)
    (hpx : 0 ≤ lastPx) :
    Desk.Agrees ⟨⟨d.manager.orders.insert id order'⟩,
      d.tracker.onFill order.symbol order.side lastQty lastPx⟩ ↔
        ¬ (0 < lastQty ∧ lastPx = 0) := by
  have hnet : ∀ symbol, order'.netFilled symbol - order.netFilled symbol =
      if order.symbol = symbol then signedQty order.side lastQty else 0 := by
    intro symbol
    unfold ManagedOrder.netFilled
    rw [hsymbol, hside, hfilled, signedQty_add]
    split_ifs
    · exact add_sub_cancel_left _ _
    · exact sub_self 0
  have hcast : (0 : ℚ) < lastQty ↔ 0 < lastQty := Int.cast_pos
  unfold Desk.Agrees
  simp only [PositionTracker.qty_onFill _ _ _ hknown, netFilled_insert hlookup, hnet,
    h _, add_right_inj, hcast]
  constructor
  · rintro hall ⟨hpos, hzero⟩
    have hat := hall order.symbol
    rw [if_neg (by rw [hzero]; exact fun h => lt_irrefl _ h.2.2), if_pos rfl] at hat
    have hne : (_ : ℚ) ≠ 0 := Int.cast_ne_zero.mpr hpos.ne'
    unfold signedQty at hat
    split_ifs at hat
    · exact hne hat.symm
    · exact neg_ne_zero.mpr hne hat.symm
  intro hpriced symbol
  by_cases hat : order.symbol = symbol
  · rw [if_pos hat]
    rcases hqty.eq_or_lt with hzero | hpos
    · -- Nothing was filled, on either side.
      rw [if_neg fun h => h.2.1.ne hzero, ← hzero]
      unfold signedQty
      split_ifs
      · exact Int.cast_zero.symm
      · rw [Int.cast_zero, neg_zero]
    · have hprice : 0 < lastPx := lt_of_le_of_ne hpx fun hzero => hpriced ⟨hpos, hzero.symm⟩
      rw [if_pos ⟨hat.symm, hpos, hprice⟩]
  · rw [if_neg hat, if_neg fun h => hat h.1.symm]

theorem Desk.sidesKnown_step {d : Desk} (hsides : d.manager.SidesKnown) (event : DeskEvent) :
    (d.step event).manager.SidesKnown := by
  cases event with
  | submit clOrdId symbol side qty price =>
    dsimp only [Desk.step]
    rcases submit_cases d.manager clOrdId symbol side qty price with
      hsame | ⟨order, -, -, hside, hinsert⟩
    · rw [hsame]
      exact hsides
    · rw [hinsert]
      exact (forall_insert hsides _ _).mpr hside
  | report view =>
    dsimp only [Desk.step]
    rcases onExecutionReport_counts d.manager view d.tracker with
      ⟨id, order, order', lastQty, lastPx, haccepted, -, hside, -, -, -, hresult⟩ |
      ⟨-, hsame | ⟨id, order, order', hlookup, hkept, hresult⟩⟩
    · rw [hresult]
      exact (forall_insert hsides _ _).mpr (hside ▸ hsides id order haccepted.lookup)
    · rw [hsame]
      exact hsides
    · rw [hresult]
      exact (forall_insert hsides _ _).mpr (hkept.2.1 ▸ hsides id order hlookup)

/-- **One event** keeps the agreement, unless it is a fill at price zero. -/
theorem Desk.Agrees.step_iff {d : Desk} (h : d.Agrees) (hsides : d.manager.SidesKnown)
    (event : DeskEvent) : (d.step event).Agrees ↔ ¬ event.Unpriced d.manager := by
  cases event with
  | submit clOrdId symbol side qty price =>
    dsimp only [Desk.step, DeskEvent.Unpriced]
    rw [not_false_iff, iff_true]
    rcases submit_cases d.manager clOrdId symbol side qty price with
      hsame | ⟨order, hnew, hfilled, -, hinsert⟩
    · rw [hsame]
      exact h
    rw [hinsert]
    intro other
    have hnothing : order.netFilled other = 0 := by
      unfold ManagedOrder.netFilled signedQty
      rw [hfilled, neg_zero]
      split_ifs <;> rfl
    unfold netFilled
    rw [total_insert, erase_of_lookup_none hnew, hnothing, zero_add]
    exact h other
  | report view =>
    dsimp only [Desk.step]
    rcases onExecutionReport_counts d.manager view d.tracker with
      ⟨id, order, order', lastQty, lastPx, haccepted, hsymbol, hside, hfilled, hqty, hpx,
        hresult⟩ | ⟨hnone, hunchanged⟩
    · rw [hresult, haccepted.unpriced_iff]
      exact h.fill haccepted.lookup (hsides id order haccepted.lookup) hsymbol hside hfilled hqty
        hpx
    · have hpriced : ¬ (DeskEvent.report view).Unpriced d.manager := by
        rintro ⟨id, order, lastQty, haccepted, -⟩
        exact hnone id order lastQty 0 haccepted
      refine iff_of_true ?_ hpriced
      rcases hunchanged with hsame | ⟨id, order, order', hlookup, hkept, hresult⟩
      · rw [hsame]
        exact h
      rw [hresult]
      intro symbol
      have hnet : order'.netFilled symbol = order.netFilled symbol := by
        unfold ManagedOrder.netFilled
        rw [hkept.1, hkept.2.1, hkept.2.2]
      rw [netFilled_insert hlookup, hnet, sub_self, add_zero]
      exact h symbol

/-! ## Runs -/

theorem Desk.sidesKnown_after (events : List DeskEvent) :
    (Desk.after events).manager.SidesKnown := by
  induction events using List.reverseRecOn with
  | nil =>
    intro id order hlookup
    cases hlookup
  | append_singleton events event ih =>
    rw [Desk.after_concat]
    exact Desk.sidesKnown_step ih event

/-- **Positions agree with orders** after every event of a sequence exactly if no event is
a fill of a positive quantity at price zero. -/
theorem position_agrees_iff (events : List DeskEvent) :
    (∀ front, front <+: events → (Desk.after front).Agrees) ↔
      ∀ front event, front ++ [event] <+: events → ¬ event.Unpriced (Desk.after front).manager := by
  refine Fronts.always_iff (fun _ => rfl) (fun front event hagrees => ?_) events
  rw [Desk.after_concat]
  exact hagrees.step_iff (Desk.sidesKnown_after front) event

/-- One share bought at a price of zero is filled for the order and not for the position. -/
theorem position_disagrees_at_zero :
    ¬ (Desk.after [.submit [65] [88] kSideBuy 1 5,
      .report ⟨some [65], some .fill, some 1, some 0⟩]).Agrees := by
  intro h
  have hat := h [88]
  revert hat
  decide +kernel

end Eph.Fix
