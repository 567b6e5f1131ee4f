import Ephemeral.ItchPrices

/-!
# What the feed says about orders

The abstract side of the book builder: a table of the live orders, with raw prices and
numbers of shares, and what each message does to it.  As long as no sum at a price
exceeds `2 ^ 53`, the builder's order map is this table and its totals are the sums
(`Aggregates`).  A message changes one level after another (`LevelMove`), and what such a
change keeps holds along the run (`Carried.run`).
-/

namespace Eph.Book

open ByteOrder Itch KeyedSum List Binary64 OrderReplace

/-! ## The table -/

/-- A live order, as the feed describes it. -/
structure LiveOrder where
  side : Side
  price : UInt32
  qty : ℕ
  deriving DecidableEq

/-- The live orders by reference number. -/
abbrev OrderTable := AList fun _ : UInt64 => LiveOrder

/-- What a message says about orders. -/
inductive OrderEvent
  | add (ref : UInt64) (side : Side) (price shares : UInt32)
  | reduce (ref : UInt64) (shares : UInt32)
  | delete (ref : UInt64)
  | replace (origRef newRef : UInt64) (price shares : UInt32)
  deriving DecidableEq

/-- The event of a message, if it has one that counts. -/
def OrderEvent.ofMessage (msg : MessageView) : Option OrderEvent :=
  if msg.msgType = kAddOrder then
    (Side.ofByte (AddOrder.side msg.data)).map fun side =>
      .add (AddOrder.orderRef msg.data) side (AddOrder.priceRaw msg.data)
        (AddOrder.shares msg.data)
  else if msg.msgType = kAddOrderMPID then
    (Side.ofByte (AddOrderMpid.side msg.data)).map fun side =>
      .add (AddOrderMpid.orderRef msg.data) side (AddOrderMpid.priceRaw msg.data)
        (AddOrderMpid.shares msg.data)
  else if msg.msgType = kOrderExecuted then
    some (.reduce (OrderExecuted.orderRef msg.data) (OrderExecuted.executedShares msg.data))
  else if msg.msgType = kOrderExecutedWithPrice then
    some (.reduce (OrderExecutedPrice.orderRef msg.data)
      (OrderExecutedPrice.executedShares msg.data))
  else if msg.msgType = kOrderCancel then
    some (.reduce (OrderCancel.orderRef msg.data) (OrderCancel.cancelledShares msg.data))
  else if msg.msgType = kOrderDelete then some (.delete (OrderDelete.orderRef msg.data))
  else if msg.msgType = kOrderReplace then
    some (.replace (originalOrderRef msg.data) (newOrderRef msg.data)
      (priceRaw msg.data) (shares msg.data))
  else none

namespace OrderTable

variable (t : OrderTable)

/-- Take shares from an order: at most those it has left, and an order without any left is
no longer live. -/
def reduce (ref : UInt64) (shares : ℕ) : OrderTable :=
  match t.lookup ref with
  | none => t
  | some o =>
    if o.qty ≤ shares then t.erase ref else t.insert ref { o with qty := o.qty - shares }

/-- What an event does to the live orders. -/
def apply : OrderEvent → OrderTable
  | .add ref side price shares => (t.erase ref).insert ref ⟨side, price, shares.toNat⟩
  | .reduce ref shares => t.reduce ref shares.toNat
  | .delete ref => t.erase ref
  | .replace origRef newRef price shares =>
    match t.lookup origRef with
    | none => t
    | some o => ((t.erase origRef).erase newRef).insert newRef ⟨o.side, price, shares.toNat⟩

/-- What a message does to the live orders. -/
def process (msg : MessageView) : OrderTable :=
  match OrderEvent.ofMessage msg with
  | none => t
  | some event => t.apply event

/-- The live orders after a sequence of messages. -/
def run (msgs : List MessageView) : OrderTable :=
  msgs.foldl process ∅

/-- The remaining quantity of an order, if it is at that side and price. -/
def weight (side : Side) (price : UInt32) (_ref : UInt64) (o : LiveOrder) : ℕ :=
  if o.side = side ∧ o.price = price then o.qty else 0

/-- The sum of the remaining quantities of the live orders at a side and price. -/
def levelQty (side : Side) (price : UInt32) : ℕ :=
  total (weight side price) t

end OrderTable

/-! ## The builder, event by event -/

namespace ItchBookBuilder

variable {maxLevels : ℕ}

variable (fl : ℚ → ℚ)

/-- The builder's answer to an event. -/
def apply (b : ItchBookBuilder maxLevels) : OrderEvent → ItchBookBuilder maxLevels
  | .add ref side price shares =>
    let b := b.evictExistingRef fl ref
    addQty fl { b with orders := b.orders.insert ref ⟨itchPrice fl price, shares.toNat, side⟩ }
      (itchPrice fl price) shares.toNat side
  | .reduce ref shares => (b.reduceOrder fl ref shares).2
  | .delete ref => b.evictExistingRef fl ref
  | .replace origRef newRef price shares =>
    match b.orders.lookup origRef with
    | none => b
    | some ord =>
      let b := (b.evictExistingRef fl origRef).evictExistingRef fl newRef
      addQty fl
        { b with orders := b.orders.insert newRef ⟨itchPrice fl price, shares.toNat, ord.side⟩ }
        (itchPrice fl price) shares.toNat ord.side

/-- **Messages are events.** -/
theorem process_eq (b : ItchBookBuilder maxLevels) (msg : MessageView) :
    (b.process fl msg).2 =
      match OrderEvent.ofMessage msg with
      | none => b
      | some event => b.apply fl event := by
  unfold process OrderEvent.ofMessage
  split_ifs
  · unfold handleAddOrder addOrder
    cases Side.ofByte (AddOrder.side msg.data) <;> rfl
  · unfold handleAddOrderMpid addOrder
    cases Side.ofByte (AddOrderMpid.side msg.data) <;> rfl
  · rfl
  · rfl
  · rfl
  · dsimp only [handleOrderDelete, apply, evictExistingRef]
    cases b.orders.lookup (OrderDelete.orderRef msg.data) <;> rfl
  · dsimp only [handleOrderReplace, apply]
    cases hlookup : b.orders.lookup (originalOrderRef msg.data) with
    | none => rfl
    | some ord =>
      rw [show b.evictExistingRef fl (originalOrderRef msg.data) =
        subQty fl { b with orders := b.orders.erase (originalOrderRef msg.data) }
          ord.price ord.remainingQty ord.side by rw [evictExistingRef, hlookup]]
  · rfl

@[simp] theorem qtyMap_updateBook (b : ItchBookBuilder maxLevels) (side side' : Side) (qp v : ℚ) :
    (b.updateBook fl side qp v).qtyMap side' = b.qtyMap side' := by
  cases side <;> cases side' <;> rfl

@[simp] theorem orders_updateBook (b : ItchBookBuilder maxLevels) (side : Side) (qp v : ℚ) :
    (b.updateBook fl side qp v).orders = b.orders := by
  cases side <;> rfl

section

variable (b : ItchBookBuilder maxLevels)

@[simp] theorem qtyMap_withQtyMap (side side' : Side) (m : AList fun _ : ℚ => ℚ) :
    (b.withQtyMap side m).qtyMap side' = if side' = side then m else b.qtyMap side' := by
  cases side <;> cases side' <;> rfl

@[simp] theorem orders_withQtyMap (side : Side)
    (m : AList fun _ : ℚ => ℚ) : (b.withQtyMap side m).orders = b.orders := by
  cases side <;> rfl

theorem withQtyMap_qtyMap (side : Side) : b.withQtyMap side (b.qtyMap side) = b := by
  cases side <;> rfl

end

/-- The total that the builder keeps for a side and price; zero if it keeps none. -/
def aggregated (b : ItchBookBuilder maxLevels) (side : Side) (price : UInt32) : ℚ :=
  ((b.qtyMap side).lookup (levelKey price)).getD 0

/-- No stored total is negative. -/
def TotalsNonneg (b : ItchBookBuilder maxLevels) : Prop :=
  ∀ side q v, (b.qtyMap side).lookup q = some v → 0 ≤ v

/-- One total has been set and told to the book; nothing else has changed. -/
structure LevelSet (b b' : ItchBookBuilder maxLevels) (side : Side) (price : UInt32) (v : ℚ) :
    Prop where
  orders : b'.orders = b.orders
  book : b'.book = (b.updateBook Binary64.round side (levelKey price) v).book
  same : b'.aggregated side price = v
  other : ∀ side' price', ¬ (side' = side ∧ price' = price) →
    b'.aggregated side' price' = b.aggregated side' price'
  nonneg : b.TotalsNonneg → b'.TotalsNonneg

section

variable (b : ItchBookBuilder maxLevels) (side : Side) (price : UInt32)

include b side price

/-- Writing or erasing one total. -/
theorem levelSet {m : AList fun _ : ℚ => ℚ} {v : ℚ} (hsame : (m.lookup (levelKey price)).getD 0 = v)
    (hv : 0 ≤ v) (hother : ∀ q, q ≠ levelKey price → m.lookup q = (b.qtyMap side).lookup q) :
    LevelSet b ((b.withQtyMap side m).updateBook Binary64.round side (levelKey price) v) side
      price v where
  orders := by simp
  book := by cases side <;> rfl
  same := by simp [aggregated, hsame]
  other := by
    intro side' price' hne
    unfold aggregated
    rw [qtyMap_updateBook, qtyMap_withQtyMap]
    split_ifs with hside
    · rw [hother, hside]
      intro hkey
      exact hne ⟨hside, levelKey_injective hkey⟩
    · rfl
  nonneg := by
    intro h side' q w hlookup
    rw [qtyMap_updateBook, qtyMap_withQtyMap] at hlookup
    split_ifs at hlookup with hside
    · by_cases hq : q = levelKey price
      · rw [← hq, hlookup] at hsame
        exact hv.trans_eq hsame.symm
      · exact h side q w (hother q hq ▸ hlookup)
    · exact h side' q w hlookup

theorem levelSet_insert {v : ℚ} (hv : 0 ≤ v) :
    LevelSet b
      ((b.withQtyMap side ((b.qtyMap side).insert (levelKey price) v)).updateBook Binary64.round
        side (levelKey price) v) side price v :=
  levelSet b side price (by simp) hv fun _ hq => AList.lookup_insert_ne hq

theorem levelSet_erase :
    LevelSet b
      ((b.withQtyMap side ((b.qtyMap side).erase (levelKey price))).updateBook Binary64.round
        side (levelKey price) 0) side price 0 :=
  levelSet b side price (by simp) le_rfl fun _ hq => AList.lookup_erase_ne hq

/-- `add_qty` at an ITCH price. -/
theorem addQty_levelSet (qty : ℚ) (hv : 0 ≤ Binary64.round (b.aggregated side price + qty)) :
    LevelSet b (b.addQty Binary64.round (itchPrice Binary64.round price) qty side) side price
      (Binary64.round (b.aggregated side price + qty)) :=
  levelSet_insert b side price hv

/-- `sub_qty` at an ITCH price, of no more than there is. -/
theorem subQty_levelSet {n k : ℕ} (hn : b.aggregated side price = n) (hk : k ≤ n)
    (hlimit : n ≤ 2 ^ 53) :
    LevelSet b (b.subQty Binary64.round (itchPrice Binary64.round price) k side) side price
      ((n - k : ℕ) : ℚ) := by
  have hround : Binary64.round ((n : ℚ) - k) = ((n - k : ℕ) : ℚ) := by
    rw [← Nat.cast_sub hk]
    exact Binary64.round_natCast (by omega)
  dsimp only [subQty]
  rw [show quantize round (itchPrice round price) = levelKey price from rfl]
  unfold aggregated at hn
  cases hlookup : (b.qtyMap side).lookup (levelKey price) with
  | none =>
    rw [hlookup, Option.getD_none] at hn
    have hzero : n = 0 := by exact_mod_cast hn.symm
    have hset := levelSet_erase b side price
    rw [erase_of_lookup_none hlookup, withQtyMap_qtyMap] at hset
    rw [show n - k = 0 by omega, Nat.cast_zero]
    exact hset
  | some old =>
    rw [hlookup, Option.getD_some] at hn
    dsimp only
    rw [hn, hround]
    split_ifs with hgone
    · rw [le_antisymm hgone (Nat.cast_nonneg _)]
      exact levelSet_erase b side price
    · exact levelSet_insert b side price (Nat.cast_nonneg _)

end

end ItchBookBuilder

/-! ## The builder follows the table -/

/-- The builder's record of a live order. -/
def LiveOrder.toOrder (o : LiveOrder) : Order :=
  ⟨itchPrice Binary64.round o.price, o.qty, o.side⟩

/-- No total exceeds the integers that a double holds. -/
def OrderTable.Bounded (t : OrderTable) : Prop :=
  ∀ side price, t.levelQty side price ≤ 2 ^ 53

/-- The builder's orders are those of the table, and its totals are their sums. -/
structure Aggregates {maxLevels : ℕ} (b : ItchBookBuilder maxLevels) (t : OrderTable) : Prop where
  orders : b.orders = mapValues LiveOrder.toOrder t
  small : ∀ ref o, t.lookup ref = some o → o.qty < 2 ^ 32
  totals : ∀ side price, b.aggregated side price = t.levelQty side price
  nonneg : b.TotalsNonneg

namespace OrderTable

variable {t : OrderTable} {ref : UInt64} {o : LiveOrder}

theorem levelQty_of_lookup (h : t.lookup ref = some o) (side : Side) (price : UInt32) :
    levelQty t side price = weight side price ref o + levelQty (t.erase ref) side price :=
  total_eq_of_lookup h

theorem levelQty_insert (t : OrderTable) (ref : UInt64) (o : LiveOrder) (side : Side)
    (price : UInt32) :
    levelQty (t.insert ref o) side price =
      weight side price ref o + levelQty (t.erase ref) side price :=
  total_insert ..

theorem weight_self (ref : UInt64) (o : LiveOrder) : weight o.side o.price ref o = o.qty := by
  simp [weight]

theorem weight_other {side : Side} {price : UInt32} (h : ¬ (side = o.side ∧ price = o.price))
    (ref : UInt64) : weight side price ref o = 0 := by
  unfold weight
  rw [if_neg]
  rintro ⟨rfl, rfl⟩
  exact h ⟨rfl, rfl⟩

theorem Bounded.erase (h : Bounded t) (ref : UInt64) : Bounded (t.erase ref) := by
  intro side price
  exact Nat.le_trans (total_erase_le _ t ref) (h side price)

end OrderTable

/-- One level has changed: the builder still aggregates the table, and has told the book
the new sum. -/
structure LevelMove {maxLevels : ℕ} (b : ItchBookBuilder maxLevels) (t : OrderTable)
    (b' : ItchBookBuilder maxLevels) (t' : OrderTable) : Prop where
  aggregates : Aggregates b' t'
  change : ∃ side price,
    b'.book =
      (b.updateBook Binary64.round side (levelKey price) (t'.levelQty side price)).book ∧
    ∀ side' price', ¬ (side' = side ∧ price' = price) →
      t'.levelQty side' price' = t.levelQty side' price'

section Moves

open OrderTable ItchBookBuilder

variable {maxLevels : ℕ} {b b' : ItchBookBuilder maxLevels} {t t' : OrderTable} {ref : UInt64}
  {o : LiveOrder}

section

variable (hagg : Aggregates b t)

include hagg

theorem Aggregates.lookup (ref : UInt64) :
    b.orders.lookup ref = (t.lookup ref).map LiveOrder.toOrder := by
  rw [hagg.orders, lookup_mapValues]

/-- Writing or erasing one order leaves the others small. -/
theorem Aggregates.small_of_ne (ref : UInt64)
    (hsmall : ∀ o, t'.lookup ref = some o → o.qty < 2 ^ 32)
    (hother : ∀ ref', ref' ≠ ref → t'.lookup ref' = t.lookup ref') (ref' : UInt64)
    (o : LiveOrder) (h : t'.lookup ref' = some o) : o.qty < 2 ^ 32 := by
  by_cases href : ref' = ref
  · exact hsmall o (href ▸ h)
  · exact hagg.small ref' o (hother ref' href ▸ h)

/-- A total set after the order map has been written. -/
theorem ItchBookBuilder.LevelSet.levelMove {orders : AList fun _ : UInt64 => Order} {side : Side}
    {price : UInt32}
    (hset : LevelSet { b with orders := orders } b' side price (t'.levelQty side price))
    (horders : orders = mapValues LiveOrder.toOrder t')
    (hsmall : ∀ ref o, t'.lookup ref = some o → o.qty < 2 ^ 32)
    (hother : ∀ side' price', ¬ (side' = side ∧ price' = price) →
      t'.levelQty side' price' = t.levelQty side' price') : LevelMove b t b' t' where
  aggregates :=
    { orders := hset.orders.trans horders
      small := hsmall
      totals := by
        intro side' price'
        by_cases hsame : side' = side ∧ price' = price
        · obtain ⟨rfl, rfl⟩ := hsame
          exact hset.same
        · rw [hset.other side' price' hsame, hother side' price' hsame]
          exact hagg.totals side' price'
      nonneg := hset.nonneg hagg.nonneg }
  change := by
    refine ⟨side, price, hset.book.trans ?_, hother⟩
    cases side <;> rfl

/-- An order is taken out. -/
theorem evict_move (hbound : Bounded t) (h : t.lookup ref = some o) :
    LevelMove b t (b.evictExistingRef Binary64.round ref) (t.erase ref) := by
  have hlookup := hagg.lookup ref
  rw [h] at hlookup
  have hlevel := levelQty_of_lookup h o.side o.price
  rw [weight_self] at hlevel
  have hset := subQty_levelSet { b with orders := b.orders.erase ref } o.side
    o.price (k := o.qty) (hagg.totals o.side o.price) (by omega) (hbound _ _)
  rw [hlevel, Nat.add_sub_cancel_left] at hset
  rw [evictExistingRef, hlookup]
  refine hset.levelMove hagg ?_ (hagg.small_of_ne ref ?_ fun _ => AList.lookup_erase_ne) ?_
  · rw [hagg.orders, erase_mapValues]
  · simp
  · intro side price hother
    rw [levelQty_of_lookup h, weight_other hother, Nat.zero_add]

/-- An order is put in. -/
theorem place_move (hnew : t.lookup ref = none) (hsmall : o.qty < 2 ^ 32)
    (hbound : Bounded (t.insert ref o)) :
    LevelMove b t
      (addQty Binary64.round { b with orders := b.orders.insert ref o.toOrder }
        (itchPrice round o.price) o.qty o.side) (t.insert ref o) := by
  have hlevel := levelQty_insert t ref o o.side o.price
  have hlimit := hbound o.side o.price
  rw [weight_self, erase_of_lookup_none hnew] at hlevel
  have hround : Binary64.round (b.aggregated o.side o.price + o.qty) =
      levelQty (t.insert ref o) o.side o.price := by
    rw [hagg.totals, hlevel, ← Nat.cast_add, Nat.add_comm]
    exact Binary64.round_natCast (by omega)
  have hset := addQty_levelSet { b with orders := b.orders.insert ref o.toOrder } o.side o.price
    o.qty (hround.symm ▸ Nat.cast_nonneg _)
  rw [show ItchBookBuilder.aggregated { b with orders := b.orders.insert ref o.toOrder } o.side
    o.price = b.aggregated o.side o.price from rfl, hround] at hset
  refine hset.levelMove hagg ?_ (hagg.small_of_ne ref ?_ fun _ => AList.lookup_insert_ne) ?_
  · rw [hagg.orders, insert_mapValues]
  · simpa using hsmall
  · intro side price hother
    rw [levelQty_insert, weight_other hother, Nat.zero_add, erase_of_lookup_none hnew]

/-- Shares are taken from an order. -/
theorem reduce_move (hbound : Bounded t) (h : t.lookup ref = some o) (shares : UInt32) :
    LevelMove b t (b.reduceOrder Binary64.round ref shares).2 (t.reduce ref shares.toNat) := by
  have hlookup := hagg.lookup ref
  rw [h] at hlookup
  have hsmall := hagg.small ref o h
  have hlevel := levelQty_of_lookup h o.side o.price
  rw [weight_self] at hlevel
  unfold reduceOrder OrderTable.reduce
  rw [hlookup, h]
  dsimp only [Option.map_some, LiveOrder.toOrder]
  by_cases hgone : o.qty ≤ shares.toNat
  · -- Nothing is left of the order: it goes as if it had been deleted.
    rw [if_pos hgone, min_eq_right (Nat.cast_le.mpr hgone), sub_self, round_zero, if_pos le_rfl]
    have hmove := evict_move hagg hbound h
    rw [evictExistingRef, hlookup] at hmove
    exact hmove
  · have hle : shares.toNat ≤ o.qty := by omega
    have hremaining : Binary64.round ((o.qty : ℚ) - shares.toNat) = (o.qty - shares.toNat : ℕ) := by
      rw [← Nat.cast_sub hle]
      exact Binary64.round_natCast (by omega)
    have hleft : ¬ ((o.qty - shares.toNat : ℕ) : ℚ) ≤ 0 := by
      rw [not_le, Nat.cast_pos]
      omega
    rw [if_neg hgone, min_eq_left (Nat.cast_le.mpr hle), hremaining, if_neg hleft]
    have hset := subQty_levelSet
      { b with orders := b.orders.insert ref (LiveOrder.toOrder
          { o with qty := o.qty - shares.toNat }) }
      o.side o.price (k := shares.toNat) (hagg.totals o.side o.price)
      (by omega) (hbound _ _)
    have hlevel' := levelQty_insert t ref { o with qty := o.qty - shares.toNat } o.side o.price
    rw [show weight o.side o.price ref { o with qty := o.qty - shares.toNat } =
      o.qty - shares.toNat from weight_self ref { o with qty := o.qty - shares.toNat }] at hlevel'
    rw [show levelQty t o.side o.price - shares.toNat =
      levelQty (t.insert ref { o with qty := o.qty - shares.toNat }) o.side o.price by omega]
      at hset
    refine hset.levelMove hagg ?_ (hagg.small_of_ne ref ?_ fun _ => AList.lookup_insert_ne) ?_
    · rw [hagg.orders, insert_mapValues]
    · simpa using Nat.sub_lt_of_lt hsmall
    · intro side price hother
      rw [levelQty_insert, levelQty_of_lookup h, weight_other hother, weight_other]
      exact hother

end

end Moves

/-! ## Runs -/

/-- What it takes for a property of builder and table to hold along a run whose tables are
all good: it holds at the start, and a change of one level keeps it. -/
structure Carried {maxLevels : ℕ} (Good : OrderTable → Prop)
    (P : ItchBookBuilder maxLevels → OrderTable → Prop) : Prop where
  start : P .empty ∅
  bounded : ∀ {t : OrderTable}, Good t → t.Bounded
  erase : ∀ {t : OrderTable} (ref : UInt64), Good t → Good (t.erase ref)
  move : ∀ {b b' : ItchBookBuilder maxLevels} {t t' : OrderTable}, Aggregates b t → P b t →
    Good t' → LevelMove b t b' t' → P b' t'

section Run

open OrderTable ItchBookBuilder

variable {maxLevels : ℕ} {Good : OrderTable → Prop}
  {P : ItchBookBuilder maxLevels → OrderTable → Prop} {b : ItchBookBuilder maxLevels}
  {t : OrderTable}

theorem aggregates_empty : Aggregates (.empty : ItchBookBuilder maxLevels) ∅ where
  orders := rfl
  small := by
    intro ref o h
    cases h
  totals := by
    intro side price
    cases side <;> rfl
  nonneg := by
    intro side q v h
    cases side <;> cases h

/-- The builder is in step with the table, and has the property. -/
abbrev InStep (P : ItchBookBuilder maxLevels → OrderTable → Prop) (b : ItchBookBuilder maxLevels)
    (t : OrderTable) : Prop :=
  Aggregates b t ∧ P b t

theorem Carried.evict (hc : Carried Good P) (hstep : InStep P b t) (hgood : Good t) (ref : UInt64) :
    InStep P (b.evictExistingRef Binary64.round ref) (t.erase ref) := by
  obtain ⟨hagg, hp⟩ := hstep
  cases h : t.lookup ref with
  | none =>
    rw [evictExistingRef, hagg.lookup, h, erase_of_lookup_none h]
    exact ⟨hagg, hp⟩
  | some o =>
    have hmove := evict_move hagg (hc.bounded hgood) h
    exact ⟨hmove.aggregates, hc.move hagg hp (hc.erase ref hgood) hmove⟩

theorem Carried.place (hc : Carried Good P) (hstep : InStep P b t) {ref : UInt64}
    (hnew : t.lookup ref = none) {side : Side} {price shares : UInt32}
    (hgood : Good (t.insert ref ⟨side, price, shares.toNat⟩)) :
    InStep P (addQty round
      { b with orders := b.orders.insert ref ⟨itchPrice round price, shares.toNat, side⟩ }
      (itchPrice round price) shares.toNat side) (t.insert ref ⟨side, price, shares.toNat⟩) := by
  have hmove := place_move (o := ⟨side, price, shares.toNat⟩) hstep.1 hnew shares.toNat_lt
    (hc.bounded hgood)
  exact ⟨hmove.aggregates, hc.move hstep.1 hstep.2 hgood hmove⟩

/-- One event. -/
theorem Carried.apply (hc : Carried Good P) (hstep : InStep P b t) (hgood : Good t)
    {event : OrderEvent} (hgood' : Good (t.apply event)) :
    InStep P (b.apply Binary64.round event) (t.apply event) := by
  have ⟨hagg, hp⟩ := hstep
  cases event with
  | add ref side price shares =>
    exact hc.place (hc.evict hstep hgood ref) (AList.lookup_erase ref t) hgood'
  | reduce ref shares =>
    cases h : t.lookup ref with
    | none =>
      dsimp only [ItchBookBuilder.apply, OrderTable.apply]
      rw [reduceOrder, hagg.lookup, OrderTable.reduce, h]
      exact hstep
    | some o =>
      have hmove := reduce_move hagg (hc.bounded hgood) h shares
      exact ⟨hmove.aggregates, hc.move hagg hp hgood' hmove⟩
  | delete ref => exact hc.evict hstep hgood ref
  | replace origRef newRef price shares =>
    dsimp only [ItchBookBuilder.apply, OrderTable.apply] at hgood' ⊢
    rw [hagg.lookup]
    cases h : t.lookup origRef with
    | none => exact hstep
    | some o =>
      rw [h] at hgood'
      -- The old order goes, then whatever holds the new reference, then the new one comes.
      have hgone := hc.evict hstep hgood origRef
      have hfree := hc.evict hgone (hc.erase origRef hgood) newRef
      exact hc.place hfree (AList.lookup_erase newRef _) hgood'

/-- The builder after a sequence of messages, in double arithmetic. -/
def builderAfter (maxLevels : ℕ) (msgs : List MessageView) : ItchBookBuilder maxLevels :=
  ItchBookBuilder.run Binary64.round .empty msgs

theorem builderAfter_concat (maxLevels : ℕ) (msgs : List MessageView) (msg : MessageView) :
    builderAfter maxLevels (msgs ++ [msg]) =
      ((builderAfter maxLevels msgs).process Binary64.round msg).2 := by
  unfold builderAfter ItchBookBuilder.run
  rw [foldl_append]
  rfl

theorem OrderTable.run_concat (msgs : List MessageView) (msg : MessageView) :
    OrderTable.run (msgs ++ [msg]) = (OrderTable.run msgs).process msg := by
  unfold OrderTable.run
  rw [foldl_append]
  rfl

/-- One message. -/
theorem Carried.process (hc : Carried Good P) {msgs : List MessageView} {msg : MessageView}
    (hstep : InStep P (builderAfter maxLevels msgs) (OrderTable.run msgs))
    (hgood : Good (OrderTable.run msgs)) (hgood' : Good (OrderTable.run (msgs ++ [msg]))) :
    InStep P (builderAfter maxLevels (msgs ++ [msg])) (OrderTable.run (msgs ++ [msg])) := by
  rw [OrderTable.run_concat, OrderTable.process] at hgood'
  rw [builderAfter_concat, process_eq, OrderTable.run_concat, OrderTable.process]
  cases hevent : OrderEvent.ofMessage msg with
  | none => exact hstep
  | some event =>
    rw [hevent] at hgood'
    exact hc.apply hstep hgood hgood'

/-- **Runs.**  What a change of one level keeps holds after every sequence of messages all
of whose tables are good. -/
theorem Carried.run (hc : Carried Good P) {msgs : List MessageView}
    (hgood : ∀ front, front <+: msgs → Good (OrderTable.run front)) :
    InStep P (builderAfter maxLevels msgs) (OrderTable.run msgs) := by
  induction msgs using List.reverseRecOn with
  | nil => exact ⟨aggregates_empty, hc.start⟩
  | append_singleton msgs msg ih =>
    have hstep := ih fun front hfront => hgood front (hfront.trans (prefix_append _ _))
    exact hc.process hstep (hgood msgs (prefix_append _ _)) (hgood _ (prefix_refl _))

end Run

end Eph.Book
