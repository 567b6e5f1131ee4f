import Mathlib.Tactic.IntervalCases
import Ephemeral.Decimal

/-!
# The FIX message builder

`MessageBuilder` writes `tag=value<SOH>` fields into a caller's buffer, leaving
32 bytes free in front of them; `finish` puts the BeginString and BodyLength
fields there, appends the CheckSum field and moves the whole message to the
front of the buffer.  The buffer is modelled as memory: every write goes through
`poke`, and an operation that would write outside the buffer returns `none`.

`Composed` is the state between construction and `finish`: the fields set so
far lie in the buffer after the reserved bytes.  `Call.apply_composed` is the
step, `applyAll_composed` the run over any sequence of setter calls, and
`finish_composed` says which bytes `finish` leaves at the front.
-/

namespace Eph.Fix

open ByteOrder Decimal List

/-- The field delimiter. -/
def SOH : UInt8 := 0x01

/-- `format_uint`. -/
def formatUint (n : Nat) : Bytes :=
  render 20 n

/-- The magnitude of a signed number, as the code computes it: negation after
the cast to unsigned, so that the smallest number has one. -/
def magnitude (v : Int64) : UInt64 :=
  if v < 0 then -v.toUInt64 else v.toUInt64

/-- `format_int`. -/
def formatInt (v : Int64) : Bytes :=
  (if v < 0 then [45] else []) ++ formatUint (magnitude v).toNat

/-- The zeros in front of a fraction with fewer digits than its width:
`fracDivisor` runs down the powers of ten below the width. -/
def leadingZeros : Nat → Nat → Nat → Bytes
  | 0, _, _ => []
  | fuel + 1, fracDivisor, frac =>
    if fracDivisor > 0 && frac < fracDivisor then 48 :: leadingZeros fuel (fracDivisor / 10) frac
    else []

/-- The text `set_price` writes. -/
def priceText (mantissa : Int64) (decimals : UInt8) : Bytes :=
  if decimals = 0 then formatInt mantissa
  else
    let decimals := if decimals > 18 then 18 else decimals.toNat
    let absVal := (magnitude mantissa).toNat
    let divisor := 10 ^ decimals
    let frac := absVal % divisor
    (if mantissa < 0 then [45] else []) ++ formatUint (absVal / divisor) ++ [46] ++
      leadingZeros decimals (divisor / 10) frac ++ (if frac > 0 then formatUint frac else [])

/-- Decimal places of a timestamp. -/
inductive TimestampPrecision
  | kSeconds
  | kMilliseconds
  | kMicroseconds
  | kNanoseconds
  deriving DecidableEq

/-- A calendar day. -/
structure CivilDate where
  year : Nat
  month : Nat
  day : Nat
  deriving DecidableEq

/-- The day of a count of days since 1970-01-01.  `doe`, `yoe` and `doy` are the
day and year of the 400-year era and the day of the year from 1 March on. -/
def civilFromDays (days : Nat) : CivilDate :=
  let z := days + 719468
  let era := z / 146097
  let doe := z - era * 146097
  let yoe := (doe - doe / 1460 + doe / 36524 - doe / 146096) / 365
  let doy := doe - (365 * yoe + yoe / 4 - yoe / 100)
  let mp := (5 * doy + 2) / 153
  let mon := if mp < 10 then mp + 3 else mp - 9
  ⟨yoe + era * 400 + (if mon ≤ 2 then 1 else 0), mon, doy - (153 * mp + 2) / 5 + 1⟩

/-- Two digits. -/
def twoDigits (n : Nat) : Bytes :=
  [digitChar (n / 10), digitChar (n % 10)]

/-- The last `width` digits of a number, with leading zeros. -/
def lastDigits : Nat → Nat → Bytes
  | 0, _ => []
  | width + 1, n => lastDigits width (n / 10) ++ [digitChar (n % 10)]

/-- The text `set_timestamp` writes. -/
def timestampText (epochNs : UInt64) (prec : TimestampPrecision) : Bytes :=
  let epochSec := epochNs.toNat / 1000000000
  let daySec := epochSec % 86400
  let date := civilFromDays (epochSec / 86400)
  let subNs := epochNs.toNat % 1000000000
  [digitChar (date.year / 1000 % 10), digitChar (date.year / 100 % 10),
      digitChar (date.year / 10 % 10), digitChar (date.year % 10)] ++
    twoDigits date.month ++ twoDigits date.day ++ [45] ++
    twoDigits (daySec / 3600) ++ [58] ++ twoDigits (daySec % 3600 / 60) ++ [58] ++
    twoDigits (daySec % 60) ++
    match prec with
    | .kSeconds => []
    | .kMilliseconds => 46 :: lastDigits 3 (subNs / 1000000)
    | .kMicroseconds => 46 :: lastDigits 6 (subNs / 1000)
    | .kNanoseconds => 46 :: lastDigits 9 subNs

/-- The digits and the single dot of `set_decimal`, after the sign: the scan of
the rest of the text, with what has been seen so far. -/
def decimalScan : Bool → Bool → Bytes → Bool
  | hasDigits, _, [] => hasDigits
  | hasDigits, hasDot, c :: cs =>
    if isDigit c then decimalScan true hasDot cs
    else if c == 46 && !hasDot then
      -- a dot needs a digit after it
      cs.head?.any isDigit && decimalScan hasDigits true cs
    else false

/-- Whether `set_decimal` accepts the text: `[-]digits[.digits]`. -/
def validDecimal (text : Bytes) : Bool :=
  match text with
  | [] => false
  | c :: cs => if c == 45 then !cs.isEmpty && decimalScan false false cs
    else decimalScan false false text

/-! ## The setters' texts contain no delimiter -/

theorem soh_not_digit : isDigit SOH = false := by decide

theorem isDigit_of_mem_formatUint {n : Nat} {c : UInt8} (h : c ∈ formatUint n) : isDigit c = true :=
  isDigit_of_mem_render h

/-- Every unsigned 64-bit number is read back from its text. -/
theorem value_formatUint {n : Nat} (h : n < 2 ^ 64) : value 0 (formatUint n) = n :=
  value_render (Nat.lt_of_lt_of_le h (by decide))

theorem soh_notMem_formatUint (n : Nat) : SOH ∉ formatUint n := fun h =>
  ne_of_isDigit (isDigit_of_mem_formatUint h) soh_not_digit rfl

theorem soh_notMem_formatInt (v : Int64) : SOH ∉ formatInt v := by
  unfold formatInt
  rw [mem_append, not_or]
  refine ⟨?_, soh_notMem_formatUint _⟩
  split <;> decide

theorem soh_notMem_leadingZeros (fuel fracDivisor frac : Nat) :
    SOH ∉ leadingZeros fuel fracDivisor frac := by
  induction fuel generalizing fracDivisor with
  | zero => simp [leadingZeros]
  | succ fuel ih =>
    rw [leadingZeros]
    split
    · rw [mem_cons, not_or]
      exact ⟨by decide, ih (fracDivisor / 10)⟩
    · simp

theorem soh_notMem_priceText (mantissa : Int64) (decimals : UInt8) :
    SOH ∉ priceText mantissa decimals := by
  have hfrac : ∀ n, SOH ∉ (if n > 0 then formatUint n else []) := by
    intro n
    split
    · exact soh_notMem_formatUint n
    · simp
  unfold priceText
  split
  · exact soh_notMem_formatInt mantissa
  simp only [mem_append, not_or]
  refine ⟨⟨⟨⟨?_, soh_notMem_formatUint _⟩, by decide⟩, soh_notMem_leadingZeros _ _ _⟩, hfrac _⟩
  split <;> decide

theorem soh_ne_digitChar {d : Nat} (h : d < 10) : SOH ≠ digitChar d :=
  (ne_of_isDigit (isDigit_digitChar h) soh_not_digit).symm

theorem soh_notMem_twoDigits {n : Nat} (h : n < 100) : SOH ∉ twoDigits n := by
  simp only [twoDigits, mem_cons, not_mem_nil, or_false, not_or]
  exact ⟨soh_ne_digitChar (by omega), soh_ne_digitChar (by omega)⟩

theorem soh_notMem_lastDigits (width n : Nat) : SOH ∉ lastDigits width n := by
  induction width generalizing n with
  | zero => simp [lastDigits]
  | succ width ih =>
    simp only [lastDigits, mem_append, mem_singleton, not_or]
    exact ⟨ih (n / 10), soh_ne_digitChar (Nat.mod_lt n (by decide))⟩

/-- The day of the year does not pass 365.  The three rounding
terms are constant on centuries and eras, which is what the cases are. -/
theorem dayOfYear_bounds {doe : Nat} (h : doe < 146097) :
    let yoe := (doe - doe / 1460 + doe / 36524 - doe / 146096) / 365
    doe - (365 * yoe + yoe / 4 - yoe / 100) ≤ 365 := by
  intro yoe
  have hy : yoe = (doe - doe / 1460 + doe / 36524 - doe / 146096) / 365 := rfl
  clear_value yoe
  have hcentury : doe / 36524 ≤ 4 := by omega
  have hera : doe / 146096 ≤ 1 := by omega
  have hyear : yoe / 100 ≤ 3 := by omega
  generalize hc : doe / 36524 = century at *
  generalize he : doe / 146096 = era at *
  generalize hq : yoe / 100 = quarter at *
  interval_cases century <;> interval_cases era <;> interval_cases quarter <;> omega

/-- The calendar fields stay in their ranges. -/
theorem civilFromDays_bounds (days : Nat) :
    (civilFromDays days).month ≤ 12 ∧ (civilFromDays days).day ≤ 31 := by
  have hdoe : days + 719468 - (days + 719468) / 146097 * 146097 < 146097 := by omega
  have hdoy := dayOfYear_bounds hdoe
  unfold civilFromDays
  dsimp only at hdoy ⊢
  generalize days + 719468 - (days + 719468) / 146097 * 146097 = doe at hdoy ⊢
  generalize doe - _ = doy at hdoy ⊢
  refine ⟨?_, by omega⟩
  split <;> omega

theorem soh_notMem_timestampText (epochNs : UInt64) (prec : TimestampPrecision) :
    SOH ∉ timestampText epochNs prec := by
  have hdate := civilFromDays_bounds (epochNs.toNat / 1000000000 / 86400)
  unfold timestampText
  simp only [mem_append, mem_cons, not_mem_nil, or_false, not_or]
  refine ⟨⟨⟨⟨⟨⟨⟨⟨⟨⟨?_, ?_, ?_, ?_⟩, ?_⟩, ?_⟩, by decide⟩, ?_⟩, by decide⟩, ?_⟩, by decide⟩, ?_⟩, ?_⟩
  all_goals first
    | exact soh_ne_digitChar (by omega)
    | exact soh_notMem_twoDigits (by omega)
    | skip
  have hfrac : ∀ width n, SOH ∉ 46 :: lastDigits width n := by
    intro width n
    rw [mem_cons, not_or]
    exact ⟨by decide, soh_notMem_lastDigits width n⟩
  cases prec with
  | kSeconds => simp
  | kMilliseconds => exact hfrac 3 _
  | kMicroseconds => exact hfrac 6 _
  | kNanoseconds => exact hfrac 9 _

theorem soh_notMem_decimalScan {hasDigits hasDot : Bool} {cs : Bytes}
    (h : decimalScan hasDigits hasDot cs = true) : SOH ∉ cs := by
  induction cs generalizing hasDigits hasDot with
  | nil => simp
  | cons c cs ih =>
    rw [decimalScan] at h
    rw [mem_cons, not_or]
    split at h
    · rename_i hc
      exact ⟨(ne_of_isDigit hc soh_not_digit).symm, ih h⟩
    split at h
    · rename_i hdot
      have hc : c = 46 := by
        simp only [Bool.and_eq_true, beq_iff_eq] at hdot
        exact hdot.1
      rw [Bool.and_eq_true] at h
      exact ⟨by rw [hc]; decide, ih h.2⟩
    · cases h

theorem soh_notMem_of_validDecimal {text : Bytes} (h : validDecimal text = true) : SOH ∉ text := by
  unfold validDecimal at h
  split at h
  · cases h
  split at h
  · rename_i hc
    rw [Bool.and_eq_true] at h
    rw [mem_cons, not_or, beq_iff_eq.mp hc]
    exact ⟨by decide, soh_notMem_decimalScan h.2⟩
  · exact soh_notMem_decimalScan h

/-! ## The builder -/

def kHeaderReserve : Nat := 32
def kTrailerLen : Nat := 7

/-- The builder.  `mem` is the caller's buffer. -/
structure MessageBuilder where
  mem : Bytes
  capacity : Nat
  bodyStart : Nat
  pos : Nat
  totalLen : Nat
  fieldCount : Nat
  overflow : Bool
  finished : Bool
  deriving DecidableEq

namespace MessageBuilder

/-- The constructor; a null pointer is `none`. -/
def create (buf : Option Bytes) (capacity : Nat) : MessageBuilder :=
  if buf.isNone || capacity < kHeaderReserve then
    ⟨buf.getD [], capacity, 0, 0, 0, 0, true, false⟩
  else ⟨buf.getD [], capacity, kHeaderReserve, kHeaderReserve, 0, 0, false, false⟩

variable (b : MessageBuilder) (t : UInt32)

/-- The builder after a rejected call. -/
def fail : MessageBuilder :=
  { b with overflow := true }

/-- `set_trusted`. -/
def setTrusted (value : Bytes) : Option MessageBuilder :=
  if b.overflow then some b
  else if b.finished then some b
  else if value.length > b.capacity then some b.fail
  else do
    let tag := formatUint t.toNat
    -- the tag is written before the room for the whole field is checked
    let mem ← if b.pos + tag.length ≤ b.capacity then poke b.mem b.pos tag else some b.mem
    let needed := tag.length + 1 + value.length + 1
    if b.pos + needed > b.capacity then some { b with mem, overflow := true }
    else do
      let mem ← poke mem (b.pos + tag.length) (61 :: (value ++ [SOH]))
      some { b with mem, pos := b.pos + needed, fieldCount := b.fieldCount + 1 }

/-- `set`. -/
def set (value : Bytes) : Option MessageBuilder :=
  if b.overflow then some b
  else if value.contains SOH then some b.fail
  else b.setTrusted t value

/-- `set_raw`; a null pointer is the empty value. -/
def setRaw (data : Bytes) : Option MessageBuilder :=
  if data.isEmpty then b.setTrusted t []
  else if data.contains SOH then some b.fail
  else b.setTrusted t data

/-- `set_int`. -/
def setInt (value : Int64) : Option MessageBuilder :=
  b.setTrusted t (formatInt value)

/-- `set_price`. -/
def setPrice (mantissa : Int64) (decimals : UInt8) : Option MessageBuilder :=
  b.setTrusted t (priceText mantissa decimals)

/-- `set_decimal`. -/
def setDecimal (text : Bytes) : Option MessageBuilder :=
  if b.overflow then some b
  else if !validDecimal text then some b.fail
  else b.setTrusted t text

/-- `set_timestamp`. -/
def setTimestamp (epochNs : UInt64) (prec : TimestampPrecision) : Option MessageBuilder :=
  b.setTrusted t (timestampText epochNs prec)

/-- The header `finish` writes in front of the body. -/
def header (beginString : Bytes) (bodyLength : Nat) : Bytes :=
  [56, 61] ++ beginString ++ [SOH, 57, 61] ++ formatUint bodyLength ++ [SOH]

/-- The sum of all bytes, modulo 256. -/
def computeChecksum (data : Bytes) : UInt8 :=
  data.foldl (fun sum c => sum + c) 0

/-- The CheckSum field. -/
def trailer (cs : UInt8) : Bytes :=
  [49, 48, 61, digitChar (cs.toNat / 100 % 10), digitChar (cs.toNat / 10 % 10),
    digitChar (cs.toNat % 10), SOH]

/-- `finish`: the length of the message, zero when there is none. -/
def finish (beginString : Bytes) : Option (Nat × MessageBuilder) :=
  if b.overflow then some (0, b)
  else if beginString.length > 32 then some (0, b.fail)
  else if beginString.isEmpty then some (0, b.fail)
  else if beginString.any (fun c => c == SOH || c == 0) then some (0, b.fail)
  else
    let hdr := header beginString (b.pos - b.bodyStart)
    if hdr.length > b.bodyStart then some (0, b.fail)
    else do
      let headerOffset := b.bodyStart - hdr.length
      let mem ← poke b.mem headerOffset hdr
      let cs := computeChecksum ((mem.drop headerOffset).take (b.pos - headerOffset))
      if b.pos + kTrailerLen > b.capacity then some (0, { b with mem, overflow := true })
      else do
        let mem ← poke mem b.pos (trailer cs)
        let total := b.pos + kTrailerLen - headerOffset
        -- the message moves to the front of the buffer
        let mem ← poke mem 0 ((mem.drop headerOffset).take total)
        some (total,
          { b with mem, pos := b.pos + kTrailerLen, totalLen := total, finished := true })

end MessageBuilder

/-! ## What the buffer holds -/

/-- A field: its tag and the bytes of its value. -/
structure Field where
  tag : UInt32
  value : Bytes
  deriving DecidableEq

/-- A field on the wire. -/
def Field.bytes (f : Field) : Bytes :=
  formatUint f.tag.toNat ++ 61 :: (f.value ++ [SOH])

/-- The body of a message with these fields. -/
def bodyBytes (fields : List Field) : Bytes :=
  fields.flatMap Field.bytes

theorem bodyBytes_concat (fields : List Field) (f : Field) :
    bodyBytes (fields ++ [f]) = bodyBytes fields ++ f.bytes := by
  simp [bodyBytes]

/-- Every field takes some bytes. -/
theorem length_le_bodyBytes (fields : List Field) : fields.length ≤ (bodyBytes fields).length := by
  induction fields with
  | nil => exact Nat.le_refl 0
  | cons f fs ih =>
    simp only [bodyBytes, Field.bytes, flatMap_cons, length_append, length_cons] at ih ⊢
    omega

/-- The builder, on a buffer of `cap` bytes, holds the fields set so far behind the
reserved bytes, and none of their values contains a delimiter. -/
structure Composed (cap : Nat) (b : MessageBuilder) (fields : List Field) : Prop where
  ready : b.overflow = false ∧ b.finished = false
  bodyStart : b.bodyStart = kHeaderReserve
  pos : b.pos = kHeaderReserve + (bodyBytes fields).length
  size : b.capacity = cap
  capacity : b.mem.length = b.capacity
  layout : ∃ reserve rest, b.mem = reserve ++ (bodyBytes fields ++ rest) ∧
    reserve.length = kHeaderReserve
  clean : ∀ f ∈ fields, SOH ∉ f.value

variable {cap : Nat} {b b' : MessageBuilder} {fields : List Field}

namespace MessageBuilder

theorem create_composed {mem : Bytes} (h : kHeaderReserve ≤ mem.length) :
    Composed mem.length (create (some mem) mem.length) [] := by
  have hcreate : create (some mem) mem.length =
      ⟨mem, mem.length, kHeaderReserve, kHeaderReserve, 0, 0, false, false⟩ :=
    if_neg (by simp [Nat.not_lt.mpr h])
  rw [hcreate]
  refine ⟨⟨rfl, rfl⟩, rfl, rfl, rfl, rfl,
    ⟨mem.take kHeaderReserve, mem.drop kHeaderReserve, ?_, ?_⟩, by simp⟩
  · exact (take_append_drop kHeaderReserve mem).symm
  · rw [length_take, Nat.min_eq_left h]

/-- **What `set_trusted` does**: nothing, or it marks the builder as overflowed, or the field is
written at the end. -/
theorem setTrusted_cases {t : UInt32} {value : Bytes} (h : b.setTrusted t value = some b') :
    b' = b ∧ (b.overflow = true ∨ b.finished = true) ∨
      (∃ mem, mem.length = b.mem.length ∧ b' = { b with mem, overflow := true }) ∨
      ∃ mem, poke b.mem b.pos (Field.mk t value).bytes = some mem ∧
        b.pos + (Field.mk t value).bytes.length ≤ b.capacity ∧
        b' = { b with
          mem
          pos := b.pos + (Field.mk t value).bytes.length
          fieldCount := b.fieldCount + 1 } := by
  have hlen : (Field.mk t value).bytes.length =
      (formatUint t.toNat).length + 1 + value.length + 1 := by
    simp [Field.bytes]
    omega
  unfold setTrusted at h
  split at h
  · rename_i hover
    cases h
    exact .inl ⟨rfl, .inl hover⟩
  split at h
  · rename_i hfinished
    cases h
    exact .inl ⟨rfl, .inr hfinished⟩
  split at h
  · cases h
    exact .inr (.inl ⟨b.mem, rfl, rfl⟩)
  simp only [Option.bind_eq_bind, Option.bind_some, ← hlen] at h
  split at h
  · obtain ⟨mem, hmem, h⟩ := Option.bind_eq_some_iff.mp h
    split at h
    · cases h
      exact .inr (.inl ⟨mem, length_of_poke hmem, rfl⟩)
    · obtain ⟨mem', hmem', h⟩ := Option.bind_eq_some_iff.mp h
      cases h
      exact .inr (.inr ⟨mem', poke_append hmem hmem', by omega, rfl⟩)
  · rw [if_pos (by omega)] at h
    cases h
    exact .inr (.inl ⟨b.mem, rfl, rfl⟩)

/-- The body never outgrows the buffer. -/
theorem length_bodyBytes_le (h : Composed cap b fields) : (bodyBytes fields).length ≤ cap := by
  obtain ⟨reserve, rest, hmem, -⟩ := h.layout
  have hcap := h.capacity
  rw [hmem, h.size] at hcap
  simp only [length_append] at hcap
  omega

/-- A field either fits and is added, or the builder overflows. -/
theorem setTrusted_composed (h : Composed cap b fields) {t : UInt32} {value : Bytes}
    (hclean : SOH ∉ value) (hset : b.setTrusted t value = some b') :
    b'.overflow = true ∨ Composed cap b' (fields ++ [⟨t, value⟩]) := by
  rcases setTrusted_cases hset with ⟨-, hstuck⟩ | ⟨mem, -, rfl⟩ | ⟨mem, hpoke, -, rfl⟩
  · simp [h.ready] at hstuck
  · exact .inl rfl
  obtain ⟨reserve, rest, hmem, hreserve⟩ := h.layout
  have hsize := length_of_poke hpoke
  rw [hmem, ← append_assoc] at hpoke
  obtain ⟨free, rfl⟩ := poke_behind (by rw [h.pos, length_append, hreserve]) hpoke
  refine .inr { h with
    pos := ?_, capacity := hsize.trans h.capacity, layout := ⟨reserve, free, ?_, hreserve⟩,
    clean := forall_mem_append.mpr ⟨h.clean, forall_mem_singleton.mpr hclean⟩ }
  · rw [bodyBytes_concat, length_append, h.pos, Nat.add_assoc]
  · simp [bodyBytes_concat]

end MessageBuilder

/-! ## Sequences of setter calls -/

/-- A setter call. -/
inductive Call
  | set (t : UInt32) (value : Bytes)
  | setInt (t : UInt32) (value : Int64)
  | setRaw (t : UInt32) (data : Bytes)
  | setPrice (t : UInt32) (mantissa : Int64) (decimals : UInt8)
  | setDecimal (t : UInt32) (text : Bytes)
  | setTimestamp (t : UInt32) (epochNs : UInt64) (prec : TimestampPrecision)
  deriving DecidableEq

open Call

/-- The field the call sets. -/
def Call.field : Call → Field
  | .set t value => ⟨t, value⟩
  | .setInt t value => ⟨t, formatInt value⟩
  | .setRaw t data => ⟨t, data⟩
  | .setPrice t mantissa decimals => ⟨t, priceText mantissa decimals⟩
  | .setDecimal t text => ⟨t, text⟩
  | .setTimestamp t epochNs prec => ⟨t, timestampText epochNs prec⟩

def Call.apply (b : MessageBuilder) : Call → Option MessageBuilder
  | .set t value => b.set t value
  | .setInt t value => b.setInt t value
  | .setRaw t data => b.setRaw t data
  | .setPrice t mantissa decimals => b.setPrice t mantissa decimals
  | .setDecimal t text => b.setDecimal t text
  | .setTimestamp t epochNs prec => b.setTimestamp t epochNs prec

def applyAll (b : MessageBuilder) (calls : List Call) : Option MessageBuilder :=
  calls.foldlM apply b

open MessageBuilder

/-- **What a setter call does**: it leaves a builder that has overflowed, it fails, or it writes
its field, whose value holds no delimiter. -/
theorem Call.apply_cases (b : MessageBuilder) (c : Call) :
    b.overflow = true ∧ apply b c = some b ∨ apply b c = some b.fail ∨
      apply b c = b.setTrusted c.field.tag c.field.value ∧ SOH ∉ c.field.value := by
  cases c with
  | set t value =>
    simp only [apply, MessageBuilder.set]
    split
    · rename_i hover
      exact .inl ⟨hover, rfl⟩
    split
    · exact .inr (.inl rfl)
    · rename_i hsoh
      exact .inr (.inr ⟨rfl, by simpa [field] using hsoh⟩)
  | setInt t value => exact .inr (.inr ⟨rfl, soh_notMem_formatInt value⟩)
  | setRaw t data =>
    simp only [apply, MessageBuilder.setRaw]
    split
    · rename_i hempty
      obtain rfl : data = [] := isEmpty_iff.mp hempty
      exact .inr (.inr ⟨rfl, not_mem_nil⟩)
    split
    · exact .inr (.inl rfl)
    · rename_i hsoh
      exact .inr (.inr ⟨rfl, by simpa [field] using hsoh⟩)
  | setPrice t mantissa decimals => exact .inr (.inr ⟨rfl, soh_notMem_priceText mantissa decimals⟩)
  | setDecimal t text =>
    simp only [apply, MessageBuilder.setDecimal]
    split
    · rename_i hover
      exact .inl ⟨hover, rfl⟩
    split
    · exact .inr (.inl rfl)
    · rename_i hvalid
      exact .inr (.inr ⟨rfl, soh_notMem_of_validDecimal (by simpa [field] using hvalid)⟩)
  | setTimestamp t epochNs prec =>
    exact .inr (.inr ⟨rfl, soh_notMem_timestampText epochNs prec⟩)

/-- Once the builder has overflowed, no call changes that. -/
theorem Call.apply_overflow (hover : b.overflow = true) {c : Call}
    (h : apply b c = some b') : b'.overflow = true := by
  rcases c.apply_cases b with ⟨-, hc⟩ | hc | ⟨hc, -⟩
  · cases hc.symm.trans h
    exact hover
  · cases hc.symm.trans h
    rfl
  · rw [hc, setTrusted, if_pos hover] at h
    cases h
    exact hover

section

variable (hb : b.overflow = true ∨ Composed cap b fields)

include hb

/-- **One setter call** adds its field or overflows the builder. -/
theorem Call.apply_composed {c : Call} (h : apply b c = some b') :
    b'.overflow = true ∨ Composed cap b' (fields ++ [c.field]) := by
  rcases hb with hover | hcomposed
  · exact .inl (apply_overflow hover h)
  rcases c.apply_cases b with ⟨hover, -⟩ | hc | ⟨hc, hclean⟩
  · simp [hcomposed.ready] at hover
  · cases hc.symm.trans h
    exact .inl rfl
  · exact setTrusted_composed hcomposed hclean (hc.symm.trans h)

/-- **Any sequence of setter calls** leaves the builder overflowed or holding the
fields of all of them. -/
theorem applyAll_composed {calls : List Call} (h : applyAll b calls = some b') :
    b'.overflow = true ∨ Composed cap b' (fields ++ calls.map field) := by
  induction calls generalizing b fields with
  | nil =>
    cases h
    simpa using hb
  | cons c calls ih =>
    rw [applyAll, foldlM_cons] at h
    obtain ⟨b₁, hb₁, h⟩ := Option.bind_eq_some_iff.mp h
    simpa using ih (apply_composed hb hb₁) h

end

/-! ## The finished message -/

/-- A BeginString `finish` accepts. -/
def BeginStringOk (beginString : Bytes) : Prop :=
  beginString ≠ [] ∧ SOH ∉ beginString

/-- A whole message: header, body, and the checksum of both. -/
def messageBytes (beginString body : Bytes) : Bytes :=
  let front := MessageBuilder.header beginString body.length ++ body
  front ++ MessageBuilder.trailer (MessageBuilder.computeChecksum front)

/-- **What `finish` does.**  It returns zero and marks the builder as overflowed; or it writes the
header in front of the body and the CheckSum field behind it, and moves all of it to the front. -/
theorem finish_cases {beginString : Bytes} {n : Nat} (h : b.finish beginString = some (n, b')) :
    (n = 0 ∧ ∃ mem, mem.length = b.mem.length ∧ b' = { b with mem, overflow := true }) ∨
      b.overflow = false ∧ BeginStringOk beginString ∧ ∃ gap mem₁ mem₂ mem₃,
        gap + (header beginString (b.pos - b.bodyStart)).length = b.bodyStart ∧
        poke b.mem gap (header beginString (b.pos - b.bodyStart)) = some mem₁ ∧
        poke mem₁ b.pos (trailer (computeChecksum
          ((mem₁.drop gap).take (b.pos - gap)))) = some mem₂ ∧
        n = b.pos + kTrailerLen - gap ∧ poke mem₂ 0 ((mem₂.drop gap).take n) = some mem₃ ∧
        b.pos + kTrailerLen ≤ b.capacity ∧ b' = { b with
          mem := mem₃, pos := b.pos + kTrailerLen, totalLen := n, finished := true } := by
  have hstays : ∃ mem, mem.length = b.mem.length ∧ b.fail = { b with mem, overflow := true } :=
    ⟨b.mem, rfl, rfl⟩
  unfold finish at h
  dsimp only at h
  split at h
  · rename_i hover
    cases h
    exact .inl ⟨rfl, b.mem, rfl, by rw [← hover]⟩
  rename_i hover
  split at h
  · cases h
    exact .inl ⟨rfl, hstays⟩
  split at h
  · cases h
    exact .inl ⟨rfl, hstays⟩
  rename_i hne
  split at h
  · cases h
    exact .inl ⟨rfl, hstays⟩
  rename_i hbytes
  split at h
  · cases h
    exact .inl ⟨rfl, hstays⟩
  rename_i hlong
  obtain ⟨mem₁, hmem₁, h⟩ := Option.bind_eq_some_iff.mp h
  split at h
  · cases h
    exact .inl ⟨rfl, mem₁, length_of_poke hmem₁, rfl⟩
  rename_i hroom
  obtain ⟨mem₂, hmem₂, h⟩ := Option.bind_eq_some_iff.mp h
  obtain ⟨mem₃, hmem₃, h⟩ := Option.bind_eq_some_iff.mp h
  cases h
  have hclean : SOH ∉ beginString := by
    intro hsoh
    exact hbytes (any_eq_true.mpr ⟨SOH, hsoh, by decide⟩)
  exact .inr ⟨by simpa using hover, ⟨by simpa using hne, hclean⟩, _, mem₁, mem₂, mem₃,
    Nat.sub_add_cancel (Nat.not_lt.mp hlong), hmem₁, hmem₂, rfl, hmem₃, Nat.not_lt.mp hroom, rfl⟩

/-- **What `finish` leaves at the front of the buffer.**  It returns zero, or the
length of the message with the fields set, which then is what the buffer starts
with. -/
theorem finish_composed (h : Composed cap b fields) {beginString : Bytes} {n : Nat}
    (hfinish : b.finish beginString = some (n, b')) :
    n = 0 ∨ (BeginStringOk beginString ∧ n = (messageBytes beginString (bodyBytes fields)).length ∧
      b'.mem.take n = messageBytes beginString (bodyBytes fields)) := by
  rcases finish_cases hfinish with
    ⟨hn, -⟩ | ⟨-, hok, gap, mem₁, mem₂, mem₃, hgap, hmem₁, hmem₂, hn, hmem₃, -, rfl⟩
  · exact .inl hn
  obtain ⟨reserve, rest, hmem, hreserve⟩ := h.layout
  have hpos := h.pos
  have hstart := h.bodyStart
  generalize bodyBytes fields = body at hmem hpos ⊢
  rw [show b.pos - b.bodyStart = body.length by omega] at hgap hmem₁
  refine .inr ⟨hok, ?_⟩
  rw [messageBytes]
  generalize header beginString body.length = hdr at hgap hmem₁ ⊢
  -- the header goes into the last of the reserved bytes
  obtain ⟨front, old, rfl, rfl, hold⟩ : ∃ front old, reserve = front ++ old ∧
      front.length = gap ∧ hdr.length = old.length :=
    ⟨reserve.take gap, reserve.drop gap, (take_append_drop _ _).symm,
      by rw [length_take]; omega, by rw [length_drop]; omega⟩
  rw [hmem, append_assoc, poke_middle rfl hold] at hmem₁
  cases hmem₁
  have hfront : ((front ++ (hdr ++ (body ++ rest))).drop front.length).take
      (b.pos - front.length) = hdr ++ body := by
    rw [drop_left' rfl, ← append_assoc]
    refine take_left' ?_
    rw [length_append]
    omega
  rw [hfront, ← append_assoc, ← append_assoc] at hmem₂
  generalize htrailer : trailer (computeChecksum (hdr ++ body)) = tr
    at hmem₂
  have htr : tr.length = kTrailerLen := by
    rw [← htrailer]
    rfl
  obtain ⟨free, rfl⟩ := poke_behind (by simp only [length_append]; omega) hmem₂
  have hlen : (hdr ++ body ++ tr).length = n := by
    simp only [length_append, htr]
    omega
  have hslice : ((front ++ hdr ++ body ++ tr ++ free).drop front.length).take n =
      hdr ++ body ++ tr := by
    rw [show front ++ hdr ++ body ++ tr ++ free = front ++ (hdr ++ body ++ tr ++ free) by simp,
      drop_left' rfl]
    exact take_left' hlen
  rw [hslice] at hmem₃
  obtain ⟨old', rfl⟩ := @poke_behind [] _ _ _ _ rfl hmem₃
  exact ⟨hlen.symm, take_left' hlen⟩

end Eph.Fix
