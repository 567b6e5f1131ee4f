import Ephemeral.ByteOrder

/-!
# SBE messages

`sbe::parse` decodes the header of a message and leaves the body to the accessors of
`eph/sbe/binance`.  Here they read with checked reads (`ByteOrder.span`), so that an accessor
gives `none` if it reads outside the view.  The strings behind the root block are checked and
always inside.  The fields at fixed offsets are not checked: they are inside exactly if the
body reaches to the end of the last one.
-/

namespace Eph.Sbe

open ByteOrder

/-- `kHeaderSize`. -/
def kHeaderSize : Nat := 8

/-- What `parse` and the reads of strings report. -/
inductive ParseError
  | kIncomplete
  | kTruncated
  | kMalformedGroup
  deriving DecidableEq

/-- `read_le16`, `read_le32` and `read_le64`: a little-endian number of `width` bytes. -/
def readLe (data : Bytes) (off width : Nat) : Option Nat :=
  (span data off width).map fun bytes => beNat bytes.reverse

/-- A decoded header, with the bytes it was read from. -/
structure MessageView where
  templateId : Nat
  schemaId : Nat
  version : Nat
  blockLength : Nat
  data : Bytes
  deriving DecidableEq

/-- `parse`. -/
def parse (data : Bytes) : Option (Except ParseError MessageView) :=
  if data.length < kHeaderSize then some (.error .kIncomplete)
  else do
    let blockLength ← readLe data 0 2
    some (.ok ⟨← readLe data 2 2, ← readLe data 4 2, ← readLe data 6 2, blockLength, data⟩)

/-- `read_var_string8`: the string at `p` and the bytes it takes, of the `remaining` ones. -/
def readVarString8 (data : Bytes) (p remaining : Nat) : Option (Except ParseError (Bytes × Nat)) :=
  if remaining < 1 then some (.error .kTruncated)
  else do
    let len ← readLe data p 1
    if remaining < 1 + len then some (.error .kTruncated)
    else some (.ok (← span data (p + 1) len, 1 + len))

namespace MessageView

variable (v : MessageView) (off : Nat)

/-- The length of what follows the header. -/
def bodyLen : Nat := v.data.length - kHeaderSize

/-- `read_le_i64` in the body. -/
def i64 : Option Int64 :=
  (readLe v.data (kHeaderSize + off) 8).map fun n => (UInt64.ofNat n).toInt64

/-- One byte of the body. -/
def u8 : Option UInt8 := (readLe v.data (kHeaderSize + off) 1).map UInt8.ofNat

/-- `read_le_i8` in the body. -/
def i8 : Option Int8 := (v.u8 off).map UInt8.toInt8

/-- `decode_decimal`, as its mantissa and exponent. -/
def decimal (exponent : Option Int8) : Option (Int64 × Int8) := do some (← v.i64 off, ← exponent)

/-- The string at `off` of the body and the offset behind it; nothing on error. -/
def string : Option (Option (Bytes × Nat)) := do
  match ← readVarString8 v.data (kHeaderSize + off) (v.bodyLen - off) with
  | .error _ => some none
  | .ok (value, advance) => some (some (value, off + advance))

/-- `symbol`: the string behind the root block. -/
def symbol : Option Bytes :=
  if v.blockLength > v.bodyLen then some []
  else (v.string v.blockLength).map fun s => (s.map Prod.fst).getD []

/-- `client_order_id`: the string after that. -/
def clientOrderId : Option Bytes :=
  if v.blockLength > v.bodyLen then some []
  else do
    match ← v.string v.blockLength with
    | none => some []
    | some (_, next) => (v.string next).map fun s => (s.map Prod.fst).getD []

/-! ## Reads inside the view -/

variable {v off}

/-- A number is read exactly if it ends inside the view. -/
theorem isSome_readLe {data : Bytes} {p width : Nat} :
    (readLe data p width).isSome ↔ p + width ≤ data.length := by
  simp [readLe, span]

/-- So is a field of eight bytes of the body. -/
@[simp] theorem isSome_i64 : (v.i64 off).isSome ↔ off + 8 ≤ v.bodyLen := by
  rw [i64, Option.isSome_map, isSome_readLe, bodyLen]
  omega

/-- So is a byte of the body. -/
@[simp] theorem isSome_u8 : (v.u8 off).isSome ↔ off + 1 ≤ v.bodyLen := by
  rw [u8, Option.isSome_map, isSome_readLe, bodyLen]
  omega

/-- So is a signed one. -/
@[simp] theorem isSome_i8 : (v.i8 off).isSome ↔ off + 1 ≤ v.bodyLen := by
  rw [i8, Option.isSome_map, isSome_u8]

/-- A decimal needs its mantissa and its exponent. -/
@[simp] theorem isSome_decimal {exponent : Option Int8} :
    (v.decimal off exponent).isSome ↔ off + 8 ≤ v.bodyLen ∧ exponent.isSome := by
  rw [← isSome_i64, decimal]
  cases v.i64 off <;> cases exponent <;> simp

/-- A string is read inside the view, and so is what lies behind it. -/
theorem string_inside (h : off ≤ v.bodyLen) :
    ∃ s, v.string off = some s ∧ ∀ value next, s = some (value, next) → next ≤ v.bodyLen := by
  unfold string readVarString8
  by_cases hempty : v.bodyLen - off < 1
  · exact ⟨none, by rw [if_pos hempty]; rfl, nofun⟩
  have hread : (readLe v.data (kHeaderSize + off) 1).isSome := by
    rw [isSome_readLe]
    unfold bodyLen at hempty
    omega
  obtain ⟨len, hlen⟩ := Option.isSome_iff_exists.mp hread
  rw [if_neg hempty, hlen]
  by_cases hshort : v.bodyLen - off < 1 + len
  · exact ⟨none, by simp [hshort], nofun⟩
  have hspan : kHeaderSize + off + 1 + len ≤ v.data.length := by
    unfold bodyLen at hshort
    omega
  refine ⟨some (_, off + (1 + len)), by simp [hshort, span_of_le hspan]; rfl, ?_⟩
  rintro _ _ ⟨⟩
  omega

/-- The string behind the root block is always read inside the view. -/
@[simp] theorem isSome_symbol : v.symbol.isSome := by
  unfold symbol
  split
  · rfl
  · obtain ⟨s, hs, -⟩ := v.string_inside (Nat.le_of_not_lt ‹_›)
    rw [hs]
    rfl

/-- And so is the one after it. -/
@[simp] theorem isSome_clientOrderId : v.clientOrderId.isSome := by
  unfold clientOrderId
  split
  · rfl
  obtain ⟨s, hs, hnext⟩ := v.string_inside (Nat.le_of_not_lt ‹_›)
  rw [hs]
  cases s with
  | none => rfl
  | some s =>
    obtain ⟨s', hs', -⟩ := v.string_inside (hnext _ _ rfl)
    simp [hs']

end MessageView

variable (v : MessageView)

namespace ExecutionReport

/-- `event_time_us`. -/
abbrev eventTimeUs := v.i64 0
/-- `transact_time_us`. -/
abbrev transactTimeUs := v.i64 8
/-- `price_exponent`. -/
abbrev priceExponent := v.i8 16
/-- `qty_exponent`. -/
abbrev qtyExponent := v.i8 17
/-- `order_id`. -/
abbrev orderId := v.i64 35
/-- `execution_type`. -/
abbrev executionType := v.u8 94
/-- `order_status`. -/
abbrev orderStatus := v.u8 95
/-- `execution_id`. -/
abbrev executionId := v.i64 104
/-- `executed_qty`. -/
abbrev executedQty := v.decimal 112 (qtyExponent v)
/-- `cummulative_quote_qty`. -/
abbrev cummulativeQuoteQty := v.decimal 120 (priceExponent v)
/-- `last_price`. -/
abbrev lastPrice := v.decimal 136 (priceExponent v)
/-- `symbol`. -/
abbrev symbol := v.symbol
/-- `client_order_id`. -/
abbrev clientOrderId := v.clientOrderId

/-- Every accessor reads inside the view. -/
def Inside : Prop :=
  (eventTimeUs v).isSome ∧ (transactTimeUs v).isSome ∧ (priceExponent v).isSome ∧
    (qtyExponent v).isSome ∧ (orderId v).isSome ∧ (executionType v).isSome ∧
    (orderStatus v).isSome ∧ (executionId v).isSome ∧ (executedQty v).isSome ∧
    (cummulativeQuoteQty v).isSome ∧ (lastPrice v).isSome ∧ (symbol v).isSome ∧
    (clientOrderId v).isSome

end ExecutionReport

namespace NewOrderAck

/-- `order_id`. -/
abbrev orderId := v.i64 0
/-- `transact_time_us`. -/
abbrev transactTimeUs := v.i64 16
/-- `symbol`. -/
abbrev symbol := v.symbol
/-- `client_order_id`. -/
abbrev clientOrderId := v.clientOrderId

/-- Every accessor reads inside the view. -/
def Inside : Prop :=
  (orderId v).isSome ∧ (transactTimeUs v).isSome ∧ (symbol v).isSome ∧ (clientOrderId v).isSome

end NewOrderAck

namespace BestBidAsk

/-- `event_time_us`. -/
abbrev eventTimeUs := v.i64 0
/-- `book_update_id`. -/
abbrev bookUpdateId := v.i64 8
/-- `price_exponent`. -/
abbrev priceExponent := v.i8 16
/-- `qty_exponent`. -/
abbrev qtyExponent := v.i8 17
/-- `bid_price_mantissa`. -/
abbrev bidPriceMantissa := v.i64 18
/-- `bid_price`. -/
abbrev bidPrice := v.decimal 18 (priceExponent v)
/-- `bid_qty`. -/
abbrev bidQty := v.decimal 26 (qtyExponent v)
/-- `ask_price_mantissa`. -/
abbrev askPriceMantissa := v.i64 34
/-- `ask_price`. -/
abbrev askPrice := v.decimal 34 (priceExponent v)
/-- `ask_qty`. -/
abbrev askQty := v.decimal 42 (qtyExponent v)
/-- `symbol`. -/
abbrev symbol := v.symbol

/-- Every accessor reads inside the view. -/
def Inside : Prop :=
  (eventTimeUs v).isSome ∧ (bookUpdateId v).isSome ∧ (priceExponent v).isSome ∧
    (qtyExponent v).isSome ∧ (bidPriceMantissa v).isSome ∧ (bidPrice v).isSome ∧
    (bidQty v).isSome ∧ (askPriceMantissa v).isSome ∧ (askPrice v).isSome ∧ (askQty v).isSome ∧
    (symbol v).isSome

end BestBidAsk

/-- Every accessor of the message that the template id names reads inside the view. -/
def AccessorsInside : Prop :=
  (v.templateId = 603 → ExecutionReport.Inside v) ∧ (v.templateId = 300 → NewOrderAck.Inside v) ∧
    (v.templateId = 10001 → BestBidAsk.Inside v)

/-- **Reads inside the view.**  They are, exactly if the body holds the last field read. -/
theorem accessors_inside_iff :
    AccessorsInside v ↔ (v.templateId = 603 → 144 ≤ v.bodyLen) ∧
      (v.templateId = 300 → 24 ≤ v.bodyLen) ∧ (v.templateId = 10001 → 50 ≤ v.bodyLen) := by
  have hreport : ExecutionReport.Inside v ↔ 144 ≤ v.bodyLen := by
    simp [ExecutionReport.Inside]
    omega
  have hack : NewOrderAck.Inside v ↔ 24 ≤ v.bodyLen := by
    simp [NewOrderAck.Inside]
    omega
  have hbook : BestBidAsk.Inside v ↔ 50 ≤ v.bodyLen := by
    simp [BestBidAsk.Inside]
    omega
  rw [AccessorsInside, hreport, hack, hbook]

/-- A header alone is a message that `parse` accepts. -/
theorem accessors_outside :
    ∃ v, parse [0, 0, 0x5B, 2, 3, 0, 2, 0] = some (.ok v) ∧ v.templateId = 603 ∧
      ¬ AccessorsInside v := by
  refine ⟨_, rfl, rfl, fun h => ?_⟩
  exact absurd (h.1 rfl).1 (by decide)

end Eph.Sbe
