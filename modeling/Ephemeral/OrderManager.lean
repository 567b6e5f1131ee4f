import Ephemeral.PositionTracker

/-!
# The order manager

`OrderManager` follows the life of every submitted order through the execution reports of
the exchange.  A report that fills an order may be forwarded to a position tracker.  The
two branches for fills, partial and final, differ in the state they lead to and in the
open quantity they leave.
-/

namespace Eph.Fix

open ByteOrder

variable {leaves : ManagedOrder → ℚ}

/-- `OrderState`. -/
inductive OrderState
  | pendingNew
  | new
  | partiallyFilled
  | filled
  | pendingCancel
  | canceled
  | rejected
  deriving DecidableEq

/-- `is_terminal`. -/
def OrderState.isTerminal : OrderState → Bool
  | .filled | .canceled | .rejected => true
  | _ => false

/-- `ExecType`. -/
inductive ExecType
  | new
  | partialFill
  | fill
  | doneForDay
  | canceled
  | replaced
  | pendingCancel
  | stopped
  | rejected
  | suspended
  | pendingNew
  | calculated
  | expired
  | pendingReplace
  | trade
  deriving DecidableEq

/-- What the order manager reads of an execution report. -/
structure ExecutionReportView where
  clOrdId : Option Bytes
  execType : Option ExecType
  lastQty : Option ℤ
  lastPx : Option ℚ
  deriving DecidableEq

/-- A tracked order. -/
structure ManagedOrder where
  clOrdId : Bytes
  symbol : Bytes
  side : UInt8
  origQty : ℚ
  price : ℚ
  filledQty : ℚ
  avgFillPrice : ℚ
  leavesQty : ℚ
  state : OrderState
  deriving DecidableEq

/-- The orders by client order id. -/
structure OrderManager where
  orders : AList fun _ : Bytes => ManagedOrder

/-- The checks on the quantity and price of a fill, and the new filled quantity and
average price; `none` if the fill is rejected. -/
def ManagedOrder.acceptFill (order : ManagedOrder) (lastQty : ℤ) (lastPx : ℚ) :
    Option ManagedOrder :=
  if lastQty < 0 then none
  else if lastPx < 0 then none
  else if lastQty > 2 ^ 53 then none
  else if order.filledQty + lastQty > order.origQty + 1 / 10 ^ 9 then none
  else
    let oldTotal := order.avgFillPrice * order.filledQty
    let filledQty := order.filledQty + lastQty
    let avgFillPrice :=
      if filledQty > 0 then (oldTotal + lastPx * lastQty) / filledQty else order.avgFillPrice
    some { order with filledQty := filledQty, avgFillPrice := avgFillPrice }

namespace OrderManager

/-- A manager without orders. -/
def empty : OrderManager :=
  ⟨∅⟩

variable (m : OrderManager)

/-- `submit`. -/
def submit (clOrdId symbol : Bytes) (side : UInt8) (qty price : ℚ) : Bool × OrderManager :=
  if clOrdId.isEmpty then (false, m)
  else if qty ≤ 0 then (false, m)
  else if price < 0 then (false, m)
  else if side ≠ kSideBuy ∧ side ≠ kSideSell then (false, m)
  else
    match m.orders.lookup clOrdId with
    | some _ => (false, m)
    | none =>
      (true, ⟨m.orders.insert clOrdId
        { clOrdId, symbol, side, origQty := qty, price, filledQty := 0, avgFillPrice := 0,
          leavesQty := qty, state := .pendingNew }⟩)

/-- What the branches for fills do: reject, or write the order with its new `state` and
`leaves` and forward the fill.  Without quantity or price only the state changes, and the
open quantity is left as it is. -/
def fillOrder (id : Bytes) (order : ManagedOrder) (report : ExecutionReportView)
    (positions : Option PositionTracker) (state : OrderState) (leaves : ManagedOrder → ℚ) :
    Bool × OrderManager × Option PositionTracker :=
  match report.lastQty, report.lastPx with
  | some lastQty, some lastPx =>
    match order.acceptFill lastQty lastPx with
    | none => (false, m, positions)
    | some order =>
      (true, ⟨m.orders.insert id { order with leavesQty := leaves order, state := state }⟩,
        positions.map fun tracker => tracker.onFill order.symbol order.side lastQty lastPx)
  | _, _ => (true, ⟨m.orders.insert id { order with state := state }⟩, positions)

/-- `on_execution_report`. -/
def onExecutionReport (report : ExecutionReportView) (positions : Option PositionTracker) :
    Bool × OrderManager × Option PositionTracker :=
  match report.clOrdId with
  | none => (false, m, positions)
  | some id =>
    match m.orders.lookup id with
    | none => (false, m, positions)
    | some order =>
      if order.state.isTerminal then (true, m, positions)
      else
        match report.execType with
        | none => (false, m, positions)
        | some .new | some .pendingNew =>
          (true, ⟨m.orders.insert id { order with state := .new }⟩, positions)
        | some .partialFill | some .trade =>
          m.fillOrder id order report positions .partiallyFilled fun order =>
            order.origQty - order.filledQty
        | some .fill => m.fillOrder id order report positions .filled fun _ => 0
        | some .canceled =>
          (true, ⟨m.orders.insert id { order with state := .canceled, leavesQty := 0 }⟩, positions)
        | some .pendingCancel =>
          (true, ⟨m.orders.insert id { order with state := .pendingCancel }⟩, positions)
        | some .rejected =>
          (true, ⟨m.orders.insert id { order with state := .rejected, leavesQty := 0 }⟩, positions)
        | some _ => (true, m, positions)

end OrderManager

/-! ## What a report does -/

/-- The branch for fills that a type of report takes: the state it leads to, and the open
quantity it leaves. -/
inductive FillBranch : Option ExecType → OrderState → (ManagedOrder → ℚ) → Prop
  | part {type} (h : type = some .partialFill ∨ type = some .trade) :
      FillBranch type .partiallyFilled fun order => order.origQty - order.filledQty
  | whole {type} (h : type = some .fill) : FillBranch type .filled fun _ => 0

/-- What a report makes of the open order it is for, and the fill that it counts. -/
inductive ManagedOrder.Reported (order : ManagedOrder) (report : ExecutionReportView) :
    ManagedOrder → Option (ℤ × ℚ) → Prop
  | acknowledged (h : report.execType = some .new ∨ report.execType = some .pendingNew) :
      order.Reported report { order with state := .new } none
  | pending (h : report.execType = some .pendingCancel) :
      order.Reported report { order with state := .pendingCancel } none
  | ended {state} (h : report.execType = some .canceled ∧ state = .canceled ∨
        report.execType = some .rejected ∧ state = .rejected) :
      order.Reported report { order with state := state, leavesQty := 0 } none
  | uncounted {state leaves} (h : FillBranch report.execType state leaves)
      (hnone : report.lastQty = none ∨ report.lastPx = none) :
      order.Reported report { order with state := state } none
  | counted {state leaves order' lastQty lastPx} (h : FillBranch report.execType state leaves)
      (hqty : report.lastQty = some lastQty) (hpx : report.lastPx = some lastPx)
      (haccept : order.acceptFill lastQty lastPx = some order') :
      order.Reported report { order' with leavesQty := leaves order', state := state }
        (some (lastQty, lastPx))

variable {m : OrderManager} {report : ExecutionReportView} {id id' : Bytes}
  {order order' : ManagedOrder} {lastQty : ℤ} {lastPx : ℚ}

/-- What an accepted fill is. -/
theorem ManagedOrder.acceptFill_some (h : order.acceptFill lastQty lastPx = some order') :
    0 ≤ lastQty ∧ 0 ≤ lastPx ∧ ∃ avg, order' = { order with
      filledQty := order.filledQty + lastQty, avgFillPrice := avg } := by
  unfold acceptFill at h
  split_ifs at h with hqty hpx
  exact ⟨not_lt.mp hqty, not_lt.mp hpx, _, (Option.some.inj h).symm⟩

/-- A report that is a fill counts what it says, or is rejected. -/
theorem ManagedOrder.Reported.accepted {fill : Option (ℤ × ℚ)}
    (h : order.Reported report order' fill) {state : OrderState}
    (hbranch : FillBranch report.execType state leaves) (hqty : report.lastQty = some lastQty)
    (hpx : report.lastPx = some lastPx) : (order.acceptFill lastQty lastPx).isSome := by
  cases h with
  | counted _ hqty' hpx' haccept =>
    rw [hqty, Option.some.injEq] at hqty'
    rw [hpx, Option.some.injEq] at hpx'
    rw [hqty', hpx', haccept]
    rfl
  | _ => cases hbranch <;> grind

theorem FillBranch.type {type : Option ExecType} {state : OrderState}
    (h : FillBranch type state leaves) :
    type = some .partialFill ∨ type = some .trade ∨ type = some .fill := by
  cases h with
  | part h => exact h.elim .inl (.inr ∘ .inl)
  | whole h => exact .inr (.inr h)

theorem exists_fillBranch {type : Option ExecType}
    (h : type = some .partialFill ∨ type = some .trade ∨ type = some .fill) :
    ∃ state leaves, FillBranch type state leaves := by
  rcases h with h | h | h
  · exact ⟨_, _, .part (.inl h)⟩
  · exact ⟨_, _, .part (.inr h)⟩
  · exact ⟨_, _, .whole h⟩

/-- The other types of report are ignored. -/
theorem ManagedOrder.Reported.type {fill : Option (ℤ × ℚ)} (h : order.Reported report order' fill) :
    report.execType = some .new ∨ report.execType = some .pendingNew ∨
      report.execType = some .pendingCancel ∨ report.execType = some .canceled ∨
      report.execType = some .rejected ∨ report.execType = some .partialFill ∨
      report.execType = some .trade ∨ report.execType = some .fill := by
  cases h with
  | uncounted hbranch _ | counted hbranch _ _ _ => grind [hbranch.type]
  | _ => grind

/-- The report is for an order that is open. -/
structure OrderManager.Addresses (m : OrderManager) (report : ExecutionReportView) (id : Bytes)
    (order : ManagedOrder) : Prop where
  clOrdId : report.clOrdId = some id
  lookup : m.orders.lookup id = some order
  live : order.state.isTerminal = false

namespace OrderManager

theorem Addresses.unique (h : m.Addresses report id order) (h' : m.Addresses report id' order') :
    id' = id ∧ order' = order := by
  obtain rfl := Option.some.inj (h.clOrdId.symm.trans h'.clOrdId)
  exact ⟨rfl, (Option.some.inj (h.lookup.symm.trans h'.lookup)).symm⟩

variable (m report) (positions : Option PositionTracker)

/-- The report has been taken: the order is written, and a fill is forwarded. -/
def Takes (result : OrderManager × Option PositionTracker) : Prop :=
  ∃ id order order' fill, m.Addresses report id order ∧ order.Reported report order' fill ∧
    result = (⟨m.orders.insert id order'⟩, positions.map fun tracker =>
      fill.elim tracker fun fill => tracker.onFill order.symbol order.side fill.1 fill.2)

/-- Nothing is written, and there was nothing to write. -/
def Leaves (result : OrderManager × Option PositionTracker) : Prop :=
  result = (m, positions) ∧ ∀ id order order' fill, m.Addresses report id order →
    ¬ order.Reported report order' fill

variable {m report}

theorem fillOrder_cases (h : m.Addresses report id order) {state : OrderState}
    (hbranch : FillBranch report.execType state leaves) :
    m.Takes report positions (m.fillOrder id order report positions state leaves).2 ∨
      m.Leaves report positions (m.fillOrder id order report positions state leaves).2 := by
  have huncounted : report.lastQty = none ∨ report.lastPx = none →
      m.Takes report positions (⟨m.orders.insert id { order with state := state }⟩, positions) :=
    fun hnone => ⟨id, order, _, none, h, .uncounted hbranch hnone, by simp⟩
  unfold fillOrder
  cases hqty : report.lastQty with
  | none => exact .inl (huncounted (.inl hqty))
  | some lastQty =>
    cases hpx : report.lastPx with
    | none => exact .inl (huncounted (.inr hpx))
    | some lastPx =>
      dsimp only
      cases haccept : order.acceptFill lastQty lastPx with
      | none =>
        refine .inr ⟨rfl, fun id' order' order'' fill h' hreported => ?_⟩
        obtain ⟨rfl, rfl⟩ := h.unique h'
        simpa [haccept] using hreported.accepted hbranch hqty hpx
      | some order' =>
        refine .inl ⟨id, order, _, _, h, .counted hbranch hqty hpx haccept, ?_⟩
        obtain ⟨-, -, avg, rfl⟩ := ManagedOrder.acceptFill_some haccept
        rfl

/-- **What a report does.**  It is for an open order and is taken, or it changes nothing. -/
theorem onExecutionReport_cases (m : OrderManager) (report : ExecutionReportView) :
    m.Takes report positions (m.onExecutionReport report positions).2 ∨
      m.Leaves report positions (m.onExecutionReport report positions).2 := by
  have hnothing : (∀ id order, ¬ m.Addresses report id order) →
      m.Leaves report positions (m, positions) :=
    fun hnone => ⟨rfl, fun id order _ _ h => absurd h (hnone id order)⟩
  unfold onExecutionReport
  cases hid : report.clOrdId with
  | none => exact .inr (hnothing fun id order h => by simpa [hid] using h.clOrdId)
  | some id =>
    dsimp only
    cases hlookup : m.orders.lookup id with
    | none =>
      refine .inr (hnothing fun id' order h => ?_)
      obtain rfl := Option.some.inj (hid.symm.trans h.clOrdId)
      simpa [hlookup] using h.lookup
    | some order =>
      dsimp only
      by_cases hterminal : order.state.isTerminal = true
      · rw [if_pos hterminal]
        refine .inr (hnothing fun id' order' h => ?_)
        obtain rfl := Option.some.inj (hid.symm.trans h.clOrdId)
        obtain rfl := Option.some.inj (hlookup.symm.trans h.lookup)
        simpa [hterminal] using h.live
      · rw [if_neg hterminal]
        have haddress : m.Addresses report id order :=
          ⟨hid, hlookup, (Bool.not_eq_true _).mp hterminal⟩
        have htakes : ∀ order', order.Reported report order' none →
            m.Takes report positions (⟨m.orders.insert id order'⟩, positions) :=
          fun order' h => ⟨id, order, order', none, haddress, h, by simp⟩
        have hleaves : (∀ order' fill, ¬ order.Reported report order' fill) →
            m.Leaves report positions (m, positions) := by
          refine fun hnone => ⟨rfl, fun id' order' order'' fill h' => ?_⟩
          obtain ⟨rfl, rfl⟩ := haddress.unique h'
          exact hnone order'' fill
        have hother := fun order' fill (h : order.Reported report order' fill) => h.type
        cases htype : report.execType with
        | none => exact .inr (hleaves (by simpa [htype] using hother))
        | some execType =>
          cases execType with
          | new => exact .inl (htakes _ (.acknowledged (.inl htype)))
          | pendingNew => exact .inl (htakes _ (.acknowledged (.inr htype)))
          | partialFill => exact fillOrder_cases positions haddress (.part (.inl htype))
          | trade => exact fillOrder_cases positions haddress (.part (.inr htype))
          | fill => exact fillOrder_cases positions haddress (.whole htype)
          | canceled => exact .inl (htakes _ (.ended (.inl ⟨htype, rfl⟩)))
          | pendingCancel => exact .inl (htakes _ (.pending htype))
          | rejected => exact .inl (htakes _ (.ended (.inr ⟨htype, rfl⟩)))
          | _ => exact .inr (hleaves (by simpa [htype] using hother))

end OrderManager

end Eph.Fix
