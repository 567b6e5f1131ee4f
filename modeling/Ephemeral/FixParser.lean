import Ephemeral.FixBuilder
import Ephemeral.ParseNumber

/-!
# The FIX parser

`parse` reads one message from the front of a byte buffer: BeginString,
BodyLength, as many body bytes as that says, and the CheckSum field.  Pointers
into the buffer are suffixes of it.  The body fields are collected until the
view is full.

The read-back lemmas here are about one element of the format each; the round
trip with the builder is assembled from them elsewhere.
-/

namespace Eph.Fix

open ByteOrder Decimal Core List MessageBuilder

inductive ParseError
  | kIncomplete
  | kInvalidFormat
  | kChecksumMismatch
  | kFieldOverflow
  deriving DecidableEq

/-- `kDefaultMaxBodyLength`: one mebibyte. -/
def kDefaultMaxBodyLength : Nat := 1 * 1024 * 1024

/-- A parsed message. -/
structure MessageView where
  fields : List Field
  totalLen : Nat
  beginString : Bytes
  deriving DecidableEq

/-- `get`: the value of the first field with the tag. -/
def MessageView.get (view : MessageView) (t : UInt32) : Option Bytes :=
  (view.fields.find? fun f => f.tag == t).map Field.value

/-- `get_int`. -/
def MessageView.getInt (view : MessageView) (t : UInt32) : Option Int64 :=
  (view.get t).bind parseInt

/-- `UINT32_MAX`. -/
def uint32Max : Nat := 2 ^ 32 - 1

/-- The digit loop of `parse_tag_number`: the number up to the `=` and what
follows it, zero on failure. -/
def parseTagLoop : Nat → Bytes → Nat × Bytes
  | _, [] => (0, [])
  | num, c :: cs =>
    if c == 61 then (num, cs)
    else if !isDigit c then (0, cs)
    else if num > uint32Max / 10 then (0, cs)
    else if num * 10 > uint32Max - digitVal c then (0, cs)
    else parseTagLoop (num * 10 + digitVal c) cs

/-- `parse_tag_number`. -/
def parseTagNumber (p : Bytes) : UInt32 × Bytes :=
  match p with
  | [] => (0, [])
  | c :: _ =>
    if !isDigit c then (0, p)
    else
      let r := parseTagLoop 0 p
      (UInt32.ofNat r.1, r.2)

/-- A value up to its delimiter and what follows; `none` at the end of the data. -/
def splitSoh : Bytes → Option (Bytes × Bytes)
  | [] => none
  | c :: cs => if c == SOH then some ([], cs) else (splitSoh cs).map fun r => (c :: r.1, r.2)

/-- The digit loop for BodyLength. -/
def parseBodyLength (maxBodyLength : Nat) : Nat → Bytes → Option Nat
  | bodyLength, [] => some bodyLength
  | bodyLength, c :: cs =>
    if !isDigit c then none
    else if bodyLength > maxBodyLength / 10 then none
    else if bodyLength * 10 + digitVal c > maxBodyLength then none
    else parseBodyLength maxBodyLength (bodyLength * 10 + digitVal c) cs

/-- The three digits of the CheckSum field `csField`. -/
def declaredChecksum (csField : Bytes) : Option Nat :=
  let digits := [u8At csField 3, u8At csField 4, u8At csField 5]
  if digits.all isDigit then some (value 0 digits) else none

/-- The field loop over the body.  Every field takes at least two bytes, so
`body.length` rounds are enough. -/
def parseFields (maxFields : Nat) : Nat → Bytes → List Field → Except ParseError (List Field)
  | 0, _, fields => .ok fields
  | fuel + 1, body, fields =>
    if body.isEmpty then .ok fields
    else
      let (t, p) := parseTagNumber body
      if t == 0 then .error .kInvalidFormat
      else
        match splitSoh p with
        | none => .error .kInvalidFormat
        | some (value, rest) =>
          if fields.length ≥ maxFields then .error .kFieldOverflow
          else parseFields maxFields fuel rest (fields ++ [⟨t, value⟩])

/-- `parse` once BodyLength is known: `p` is the data after the header. -/
def parseBody (maxFields : Nat) (data beginString p : Bytes) (bodyLength : Nat) :
    Except ParseError MessageView :=
  let headerLen := data.length - p.length
  if data.length < headerLen + 7 || bodyLength > data.length - headerLen - 7 then
    .error .kIncomplete
  else
    let csField := p.drop bodyLength
    if csField.take 3 != [49, 48, 61] then .error .kInvalidFormat
    else if u8At csField 6 != SOH then .error .kInvalidFormat
    else
      match declaredChecksum csField with
      | none => .error .kInvalidFormat
      | some declared =>
        if computeChecksum (data.take (headerLen + bodyLength)) != UInt8.ofNat declared then
          .error .kChecksumMismatch
        else
          (parseFields maxFields (bodyLength + 1) (p.take bodyLength) []).map fun fields =>
            ⟨fields, headerLen + bodyLength + 7, beginString⟩

/-- `parse`. -/
def parse (maxFields maxBodyLength : Nat) (data : Bytes) : Except ParseError MessageView :=
  if data.isEmpty then .error .kIncomplete
  else
    let (t1, p) := parseTagNumber data
    if t1 != 8 then .error .kInvalidFormat
    else
      match splitSoh p with
      | none => .error .kIncomplete
      | some (beginString, p) =>
        if p.isEmpty then .error .kIncomplete
        else
          let (t2, p) := parseTagNumber p
          if t2 != 9 then .error .kInvalidFormat
          else
            match splitSoh p with
            | none => .error .kIncomplete
            | some (bodyLenStr, p) =>
              match parseBodyLength maxBodyLength 0 bodyLenStr with
              | none => .error .kInvalidFormat
              | some bodyLength => parseBody maxFields data beginString p bodyLength

/-! ## Reading the elements back -/

theorem splitSoh_append {value : Bytes} (h : SOH ∉ value) (rest : Bytes) :
    splitSoh (value ++ SOH :: rest) = some (value, rest) := by
  induction value with
  | nil => rfl
  | cons c cs ih =>
    rw [mem_cons, not_or] at h
    have hc : (c == SOH) = false := by simpa using fun hcs => h.1 hcs.symm
    simp [splitSoh, hc, ih h.2]

theorem parseTagLoop_append {ds : Bytes} (hds : ∀ c ∈ ds, isDigit c = true) (acc : Nat)
    (h : value acc ds ≤ uint32Max) (rest : Bytes) :
    parseTagLoop acc (ds ++ 61 :: rest) = (value acc ds, rest) := by
  induction ds generalizing acc with
  | nil => rfl
  | cons c cs ih =>
    have hc : isDigit c = true := hds c (by simp)
    have hne : (c == 61) = false := by
      simpa using ne_of_isDigit hc (by decide : isDigit 61 = false)
    have hd := digitVal_le hc
    rw [value_cons] at h
    have hgrow := le_value (acc * 10 + digitVal c) cs
    have hnum : ¬ acc > uint32Max / 10 := by omega
    have hnext : ¬ acc * 10 > uint32Max - digitVal c := by omega
    simp only [cons_append, parseTagLoop, hne, hc, hnum, hnext, value_cons]
    exact ih (fun d hd => hds d (by simp [hd])) _ h

/-- A way to write the number `n` in digits, leading zeros included. -/
structure Numeral (n : Nat) where
  digits : Bytes
  ne_nil : digits ≠ []
  isDigit : ∀ c ∈ digits, isDigit c = true
  value_eq : value 0 digits = n

/-- Every way of writing a tag is read back. -/
theorem parseTagNumber_numeral {t : UInt32} (tag : Numeral t.toNat) (rest : Bytes) :
    parseTagNumber (tag.digits ++ 61 :: rest) = (t, rest) := by
  have hlt := t.toNat_lt
  have hloop := parseTagLoop_append tag.isDigit 0 (by rw [tag.value_eq, uint32Max]; omega) rest
  rw [tag.value_eq] at hloop
  obtain ⟨c, cs, hcs⟩ := exists_cons_of_ne_nil tag.ne_nil
  have hc : isDigit c = true := tag.isDigit c (by rw [hcs]; exact mem_cons_self)
  rw [hcs, cons_append] at hloop ⊢
  simp [parseTagNumber, hc, hloop]

/-- The builder's way is one of them. -/
theorem parseTagNumber_formatUint (t : UInt32) (rest : Bytes) :
    parseTagNumber (formatUint t.toNat ++ 61 :: rest) = (t, rest) := by
  have hlt := t.toNat_lt
  exact parseTagNumber_numeral ⟨formatUint t.toNat, render_ne_nil (by decide),
    fun _ hc => isDigit_of_mem_formatUint hc, value_formatUint (by omega)⟩ rest

/-- The guards of the BodyLength loop are one comparison. -/
theorem parseBodyLength_eq_bounded (maxBodyLength acc : Nat) (cs : Bytes) :
    parseBodyLength maxBodyLength acc cs = bounded maxBodyLength acc cs := by
  induction cs generalizing acc with
  | nil => rfl
  | cons c cs ih =>
    by_cases hearly : acc > maxBodyLength / 10
    · have hover : acc * 10 + digitVal c > maxBodyLength := by omega
      simp [parseBodyLength, bounded, hearly, hover]
    · simp only [parseBodyLength, bounded, hearly, ih, if_false]

/-- The checksum is read back from its field. -/
theorem declaredChecksum_trailer (cs : UInt8) (rest : Bytes) :
    declaredChecksum (trailer cs ++ rest) = some cs.toNat := by
  have hlt := cs.toNat_lt
  have hdigits : [digitChar (cs.toNat / 100 % 10), digitChar (cs.toNat / 10 % 10),
      digitChar (cs.toNat % 10)].all isDigit = true := by
    simp [isDigit_digitChar (Nat.mod_lt _ (by decide : 10 > 0))]
  have hvalue : value 0 [digitChar (cs.toNat / 100 % 10), digitChar (cs.toNat / 10 % 10),
      digitChar (cs.toNat % 10)] = cs.toNat := by
    simp only [value_cons, value_nil, digitVal_digitChar (Nat.mod_lt _ (by decide : 10 > 0))]
    omega
  simp only [declaredChecksum, trailer, u8At, cons_append, getD_cons_succ,
    getD_cons_zero, hdigits, hvalue, if_true]

/-- The body fields are read back when there is room for them in the view. -/
theorem parseFields_bodyBytes {maxFields : Nat} {fields : List Field}
    (htags : ∀ f ∈ fields, f.tag ≠ 0) (hclean : ∀ f ∈ fields, SOH ∉ f.value) (acc : List Field)
    (hroom : acc.length + fields.length ≤ maxFields) {fuel : Nat} (hfuel : fields.length < fuel) :
    parseFields maxFields fuel (bodyBytes fields) acc = .ok (acc ++ fields) := by
  obtain ⟨fuel, rfl⟩ : ∃ k, fuel = k + 1 := ⟨fuel - 1, by omega⟩
  induction fields generalizing acc fuel with
  | nil => simp [parseFields, bodyBytes]
  | cons f fs ih =>
    have hbody : bodyBytes (f :: fs) =
        formatUint f.tag.toNat ++ 61 :: (f.value ++ SOH :: bodyBytes fs) := by
      simp [bodyBytes, Field.bytes]
    have hne : (bodyBytes (f :: fs)).isEmpty = false := by
      rw [hbody]
      cases formatUint f.tag.toNat <;> rfl
    have htag : (f.tag == 0) = false := by simpa using htags f (by simp)
    rw [length_cons] at hroom hfuel
    have hspace : ¬ acc.length ≥ maxFields := by omega
    obtain ⟨fuel, rfl⟩ : ∃ k, fuel = k + 1 := ⟨fuel - 1, by omega⟩
    have hrest := ih (fun g hg => htags g (by simp [hg])) (fun g hg => hclean g (by simp [hg]))
      (acc ++ [f]) (by simp only [length_append, length_singleton]; omega) fuel
      (by omega)
    rw [parseFields, hne, hbody, parseTagNumber_formatUint]
    simp only [htag, splitSoh_append (hclean f (by simp)), if_neg hspace, Bool.false_eq_true,
      if_false]
    simpa using hrest

end Eph.Fix
