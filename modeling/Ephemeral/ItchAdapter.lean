import Ephemeral.ArrayBook
import Ephemeral.Binary64
import Ephemeral.ByteOrder
import Ephemeral.KeyedSum

/-!
# The ITCH book builder

`ItchBookBuilder` follows the orders of an ITCH 5.0 feed.  It keeps every live order by
its reference number, the total quantity at every price of each side, and an `ArrayBook`
that it tells each new total.  The handlers below follow `itch_adapter.hpp`; they read
the message through the accessors of `messages.hpp`.

Prices and quantities are doubles, so each operation on them goes through the rounding
function `fl`.
-/

namespace Eph.Itch

open ByteOrder

/-- A message: its type and its bytes, the type among them. -/
structure MessageView where
  msgType : UInt8
  data : Bytes
  deriving DecidableEq

def kAddOrder : UInt8 := 65
def kAddOrderMPID : UInt8 := 70
def kOrderExecuted : UInt8 := 69
def kOrderExecutedWithPrice : UInt8 := 67
def kOrderCancel : UInt8 := 88
def kOrderDelete : UInt8 := 68
def kOrderReplace : UInt8 := 85

/-- `kItchPriceDivisor`: prices have four implied decimal places. -/
def kItchPriceDivisor : ℚ := 10000

/-- A raw price field in dollars. -/
def itchPrice (fl : ℚ → ℚ) (raw : UInt32) : ℚ :=
  fl (raw.toNat / kItchPriceDivisor)

variable (msg : Bytes)

namespace AddOrder

def orderRef : UInt64 := be64At msg 11
def side : UInt8 := u8At msg 19
def shares : UInt32 := be32At msg 20
def priceRaw : UInt32 := be32At msg 32

end AddOrder

namespace AddOrderMpid

def orderRef : UInt64 := be64At msg 11
def side : UInt8 := u8At msg 19
def shares : UInt32 := be32At msg 20
def priceRaw : UInt32 := be32At msg 32

end AddOrderMpid

namespace OrderExecuted

def orderRef : UInt64 := be64At msg 11
def executedShares : UInt32 := be32At msg 19

end OrderExecuted

namespace OrderExecutedPrice

def orderRef : UInt64 := be64At msg 11
def executedShares : UInt32 := be32At msg 19

end OrderExecutedPrice

namespace OrderCancel

def orderRef : UInt64 := be64At msg 11
def cancelledShares : UInt32 := be32At msg 19

end OrderCancel

namespace OrderDelete

def orderRef : UInt64 := be64At msg 11

end OrderDelete

namespace OrderReplace

def originalOrderRef : UInt64 := be64At msg 11
def newOrderRef : UInt64 := be64At msg 19
def shares : UInt32 := be32At msg 27
def priceRaw : UInt32 := be32At msg 31

end OrderReplace

end Eph.Itch

namespace Eph.Book

open ByteOrder Itch

/-- The side that a byte of the feed names, if it is one of `'B'` and `'S'`. -/
def Side.ofByte (side : UInt8) : Option Side :=
  if side = 66 then some .bid else if side = 83 then some .ask else none

/-- A live order. -/
structure Order where
  price : ℚ
  remainingQty : ℚ
  side : Side
  deriving DecidableEq

/-- The state of the builder. -/
structure ItchBookBuilder (maxLevels : ℕ) where
  book : ArrayBook maxLevels
  orders : AList fun _ : UInt64 => Order
  bidQty : AList fun _ : ℚ => ℚ
  askQty : AList fun _ : ℚ => ℚ

/-- `kTickQuantum`, `1e-9`. -/
def kTickQuantum (fl : ℚ → ℚ) : ℚ :=
  fl (1 / 10 ^ 9)

/-- `quantize`: the canonical form of a price. -/
def quantize (fl : ℚ → ℚ) (p : ℚ) : ℚ :=
  fl (Binary64.roundAway (fl (p / kTickQuantum fl)) * kTickQuantum fl)

namespace ItchBookBuilder

variable {maxLevels : ℕ}

/-- A new builder. -/
def empty : ItchBookBuilder maxLevels :=
  ⟨ArrayBook.empty, ∅, ∅, ∅⟩

/-- `qty_map`. -/
def qtyMap (b : ItchBookBuilder maxLevels) : Side → AList fun _ : ℚ => ℚ
  | .bid => b.bidQty
  | .ask => b.askQty

/-- Write the map of a side. -/
def withQtyMap (b : ItchBookBuilder maxLevels) (side : Side) (m : AList fun _ : ℚ => ℚ) :
    ItchBookBuilder maxLevels :=
  match side with
  | .bid => { b with bidQty := m }
  | .ask => { b with askQty := m }

variable (fl : ℚ → ℚ) (b : ItchBookBuilder maxLevels)

/-- Tell the book the total at a price. -/
def updateBook (side : Side) (qp total : ℚ) : ItchBookBuilder maxLevels :=
  match side with
  | .bid => { b with book := b.book.updateBid fl qp total }
  | .ask => { b with book := b.book.updateAsk fl qp total }

/-- `add_qty`. -/
def addQty (price qty : ℚ) (side : Side) : ItchBookBuilder maxLevels :=
  let qp := quantize fl price
  let m := b.qtyMap side
  let total := fl ((m.lookup qp).getD 0 + qty)
  (b.withQtyMap side (m.insert qp total)).updateBook fl side qp total

/-- `sub_qty`. -/
def subQty (price qty : ℚ) (side : Side) : ItchBookBuilder maxLevels :=
  let qp := quantize fl price
  let m := b.qtyMap side
  match m.lookup qp with
  | none => b.updateBook fl side qp 0
  | some old =>
    let total := fl (old - qty)
    if total ≤ 0 then (b.withQtyMap side (m.erase qp)).updateBook fl side qp 0
    else (b.withQtyMap side (m.insert qp total)).updateBook fl side qp total

/-- `evict_existing_ref`. -/
def evictExistingRef (ref : UInt64) : ItchBookBuilder maxLevels :=
  match b.orders.lookup ref with
  | none => b
  | some ord =>
    subQty fl { b with orders := b.orders.erase ref } ord.price ord.remainingQty ord.side

/-- What the two handlers of new orders do. -/
def addOrder (ref : UInt64) (side : UInt8) (shares : UInt32) (price : ℚ) :
    Bool × ItchBookBuilder maxLevels :=
  match Side.ofByte side with
  | none => (false, b)
  | some side =>
    let b := b.evictExistingRef fl ref
    let b := { b with orders := b.orders.insert ref ⟨price, shares.toNat, side⟩ }
    (true, b.addQty fl price shares.toNat side)

variable (msg : Bytes)

/-- `handle_add_order`. -/
def handleAddOrder : Bool × ItchBookBuilder maxLevels :=
  b.addOrder fl (AddOrder.orderRef msg) (AddOrder.side msg) (AddOrder.shares msg)
    (itchPrice fl (AddOrder.priceRaw msg))

/-- `handle_add_order_mpid`. -/
def handleAddOrderMpid : Bool × ItchBookBuilder maxLevels :=
  b.addOrder fl (AddOrderMpid.orderRef msg) (AddOrderMpid.side msg) (AddOrderMpid.shares msg)
    (itchPrice fl (AddOrderMpid.priceRaw msg))

/-- What the handlers of executions and cancellations do: take shares from an order, at
most those it has left. -/
def reduceOrder (ref : UInt64) (shares : UInt32) : Bool × ItchBookBuilder maxLevels :=
  match b.orders.lookup ref with
  | none => (false, b)
  | some ord =>
    let clamped := min (shares.toNat : ℚ) ord.remainingQty
    let remaining := fl (ord.remainingQty - clamped)
    let orders :=
      if remaining ≤ 0 then b.orders.erase ref
      else b.orders.insert ref { ord with remainingQty := remaining }
    (true, subQty fl { b with orders := orders } ord.price clamped ord.side)

/-- `handle_order_executed`. -/
def handleOrderExecuted : Bool × ItchBookBuilder maxLevels :=
  b.reduceOrder fl (OrderExecuted.orderRef msg) (OrderExecuted.executedShares msg)

/-- `handle_order_executed_with_price`. -/
def handleOrderExecutedWithPrice : Bool × ItchBookBuilder maxLevels :=
  b.reduceOrder fl (OrderExecutedPrice.orderRef msg) (OrderExecutedPrice.executedShares msg)

/-- `handle_order_cancel`. -/
def handleOrderCancel : Bool × ItchBookBuilder maxLevels :=
  b.reduceOrder fl (OrderCancel.orderRef msg) (OrderCancel.cancelledShares msg)

/-- `handle_order_delete`. -/
def handleOrderDelete : Bool × ItchBookBuilder maxLevels :=
  let ref := OrderDelete.orderRef msg
  match b.orders.lookup ref with
  | none => (false, b)
  | some ord =>
    (true, subQty fl { b with orders := b.orders.erase ref } ord.price ord.remainingQty ord.side)

/-- `handle_order_replace`. -/
def handleOrderReplace : Bool × ItchBookBuilder maxLevels :=
  let origRef := OrderReplace.originalOrderRef msg
  let newRef := OrderReplace.newOrderRef msg
  let shares := OrderReplace.shares msg
  let newPrice := itchPrice fl (OrderReplace.priceRaw msg)
  match b.orders.lookup origRef with
  | none => (false, b)
  | some ord =>
    let b := subQty fl { b with orders := b.orders.erase origRef } ord.price ord.remainingQty
      ord.side
    let b := b.evictExistingRef fl newRef
    let b := { b with orders := b.orders.insert newRef ⟨newPrice, shares.toNat, ord.side⟩ }
    (true, b.addQty fl newPrice shares.toNat ord.side)

/-- `process`. -/
def process (msg : MessageView) : Bool × ItchBookBuilder maxLevels :=
  if msg.msgType = kAddOrder then b.handleAddOrder fl msg.data
  else if msg.msgType = kAddOrderMPID then b.handleAddOrderMpid fl msg.data
  else if msg.msgType = kOrderExecuted then b.handleOrderExecuted fl msg.data
  else if msg.msgType = kOrderExecutedWithPrice then b.handleOrderExecutedWithPrice fl msg.data
  else if msg.msgType = kOrderCancel then b.handleOrderCancel fl msg.data
  else if msg.msgType = kOrderDelete then b.handleOrderDelete fl msg.data
  else if msg.msgType = kOrderReplace then b.handleOrderReplace fl msg.data
  else (false, b)

/-- The builder after a sequence of messages. -/
def run (msgs : List MessageView) : ItchBookBuilder maxLevels :=
  msgs.foldl (fun b msg => (b.process fl msg).2) b

end ItchBookBuilder

end Eph.Book
