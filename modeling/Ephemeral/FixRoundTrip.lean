import Ephemeral.FixPrice
import Ephemeral.FixText

/-!
# What the builder writes, the parser and the framer read

`fix_round_trip` puts the three together: whatever was set before a successful
`finish` comes back from `parse`, field by field, and the framer finds the same
message.  Two limits of the readers are visible in it.  BodyLength is capped, a
guard against hostile input, and a builder with a large enough buffer can exceed
the cap; and `get_int` looks at the first field with a tag only.
-/

namespace Eph.Fix

open ByteOrder Decimal Core List MessageBuilder

/-! ## Reading a message back -/

/-- The header of the builder, with one digit for each tag. -/
private theorem header_eq (beginString : Bytes) (n : Nat) :
    header beginString n = headerText [56] beginString [57] (formatUint n) := by
  simp [header, headerText]

section Message

variable {beginString body : Bytes} {maxBodyLength : Nat}

/-- What the builder writes is the text of a message. -/
private def builtText (hbegin : BeginStringOk beginString) (hsize : body.length < 2 ^ 64)
    (hle : body.length ≤ maxBodyLength) : MessageText maxBodyLength where
  beginTag := plainEight
  beginString := beginString
  lengthTag := plainNine
  lengthDigits := formatUint body.length
  body := body
  trailer := trailer (computeChecksum (header beginString body.length ++ body))
  beginString_clean := hbegin.2
  lengthDigits_isDigit := fun _ hc => isDigit_of_mem_formatUint hc
  lengthDigits_value := value_formatUint hsize
  body_le := hle
  trailer_length := rfl
  trailed := by
    rw [header_eq]
    refine ⟨rfl, rfl, _, ?_, UInt8.ofNat_toNat.symm⟩
    rw [← append_nil (trailer _)]
    exact declaredChecksum_trailer _ []

private theorem bytes_builtText (hbegin : BeginStringOk beginString) (hsize : body.length < 2 ^ 64)
    (hle : body.length ≤ maxBodyLength) :
    (builtText hbegin hsize hle).bytes = messageBytes beginString body := by
  have hheader : (builtText hbegin hsize hle).header = header beginString body.length :=
    (header_eq beginString body.length).symm
  rw [messageBytes, append_assoc, MessageText.bytes, hheader]
  rfl

/-- A body past the limit is refused at its BodyLength. -/
private theorem bounded_formatUint (hsize : body.length < 2 ^ 64)
    (hle : ¬ body.length ≤ maxBodyLength) :
    bounded maxBodyLength 0 (formatUint body.length) = none := by
  rw [bounded_eq (fun c hc => isDigit_of_mem_formatUint hc) (Nat.zero_le _),
    value_formatUint hsize, if_neg hle]

/-- The bytes of a message behind its header. -/
private theorem messageBytes_append (rest : Bytes) :
    messageBytes beginString body ++ rest =
      headerText [56] beginString [57] (formatUint body.length) ++ (body ++
        (trailer (computeChecksum (header beginString body.length ++ body)) ++ rest)) := by
  simp [messageBytes, header_eq]

end Message

variable {beginString : Bytes}

/-- **The parser** returns the fields of a message within the limits, whatever
follows it, and rejects a body past its limit. -/
theorem parse_messageBytes (hbegin : BeginStringOk beginString) {fields : List Field}
    (htags : ∀ f ∈ fields, f.tag ≠ 0) (hclean : ∀ f ∈ fields, SOH ∉ f.value) {maxFields : Nat}
    (hfields : fields.length ≤ maxFields) (hsize : (bodyBytes fields).length < 2 ^ 64)
    (maxBodyLength : Nat) (rest : Bytes) :
    parse maxFields maxBodyLength (messageBytes beginString (bodyBytes fields) ++ rest) =
      if (bodyBytes fields).length ≤ maxBodyLength then
        .ok ⟨fields, (messageBytes beginString (bodyBytes fields)).length, beginString⟩
      else .error .kInvalidFormat := by
  split
  · rename_i hle
    have hread : parseFields maxFields ((bodyBytes fields).length + 1) (bodyBytes fields) [] =
        .ok fields :=
      parseFields_bodyBytes htags hclean [] (by simpa using hfields)
        (Nat.lt_succ_of_le (length_le_bodyBytes fields))
    rw [← bytes_builtText hbegin hsize hle, parse_text]
    exact ⟨hread, rfl, rfl⟩
  · rename_i hle
    have height : [56] = plainEight.digits := rfl
    have hnine : [57] = plainNine.digits := rfl
    rw [messageBytes_append, height, hnine, parse_header plainEight plainNine hbegin.2
      (fun c hc => isDigit_of_mem_formatUint hc), bounded_formatUint hsize hle]

/-- **The framer** finds the same message, under the same limit. -/
theorem frameDecode_messageBytes (hbegin : BeginStringOk beginString) {body : Bytes}
    (hsize : body.length < 2 ^ 64) (maxBodyLength : Nat) (rest : Bytes) :
    frameDecode maxBodyLength (messageBytes beginString body ++ rest) =
      if body.length ≤ maxBodyLength then
        .ok ⟨messageBytes beginString body, scanMsgType (body.length + 1) body,
          (messageBytes beginString body).length⟩
      else .error .kInvalidFormat := by
  split
  · rename_i hle
    rw [← bytes_builtText hbegin hsize hle]
    exact frameDecode_text (builtText hbegin hsize hle) ⟨rfl, rfl⟩ rest
  · rename_i hle
    rw [messageBytes_append, frameDecode_header hbegin.2
      (fun c hc => isDigit_of_mem_formatUint hc), bounded_formatUint hsize hle]

/-! ## Integers -/

/-- **Every integer is read back**, the smallest one included. -/
theorem parseInt_formatInt (v : Int64) : parseInt (formatInt v) = some v := by
  have htext : formatInt v = sign (decide (v < 0)) ++ formatUint (magnitude v).toNat := by
    simp [formatInt, sign]
  have hne : formatUint (magnitude v).toNat ≠ [] := render_ne_nil (by decide)
  rw [htext, parseInt_signed _ hne (fun _ hc => isDigit_of_mem_formatUint hc),
    value_formatUint (magnitude v).toNat_lt, signed_magnitude,
    if_pos ⟨v.le_toInt, v.toInt_lt⟩, Int64.ofInt_toInt]

/-! ## The round trip -/

/-- A builder on the buffer `mem`, the setter calls, one `finish`. -/
def build (mem : Bytes) (calls : List Call) (beginString : Bytes) :
    Option (Nat × MessageBuilder) := do
  let b ← applyAll (create (some mem) mem.length) calls
  b.finish beginString

/-- A successful build went through a builder that holds the fields of all the
calls. -/
theorem build_composed {mem : Bytes} {calls : List Call} {n : Nat} {b : MessageBuilder}
    (h : build mem calls beginString = some (n, b)) (hn : 0 < n) :
    ∃ b₀, Composed mem.length b₀ (calls.map Call.field) ∧ b₀.finish beginString = some (n, b) := by
  have hstart : (create (some mem) mem.length).overflow = true ∨
      Composed mem.length (create (some mem) mem.length) [] := by
    by_cases hsmall : mem.length < kHeaderReserve
    · exact .inl (by simp [create, hsmall])
    · exact .inr (create_composed (Nat.not_lt.mp hsmall))
  obtain ⟨b₀, hcalls, hfinish⟩ := Option.bind_eq_some_iff.mp h
  rcases applyAll_composed hstart hcalls with hover | hcomposed
  · have hzero : b₀.finish beginString = some (0, b₀) := if_pos hover
    cases hzero.symm.trans hfinish
    exact absurd hn (Nat.lt_irrefl 0)
  · exact ⟨b₀, by simpa using hcomposed, hfinish⟩

/-- **Round trip.**  Whatever the setters wrote before a `finish` that returned
`n > 0`, and whatever follows those `n` bytes: within the body limit the parser
returns the fields that were set, in order, and the framer finds a message of
length `n`.  An integer comes back from `get_int` when its tag was not set
before. -/
theorem fix_round_trip (mem : Bytes) (hmem : mem.length < 2 ^ 64) (calls : List Call)
    (htags : ∀ c ∈ calls, c.field.tag ≠ 0) (beginString : Bytes) {n : Nat} {b : MessageBuilder}
    (hbuild : build mem calls beginString = some (n, b)) (hn : 0 < n) (maxFields : Nat)
    (hfields : calls.length ≤ maxFields) (maxBodyLength : Nat)
    (hbody : (bodyBytes (calls.map Call.field)).length ≤ maxBodyLength) (rest : Bytes) :
    ∃ view frame, parse maxFields maxBodyLength (b.mem.take n ++ rest) = .ok view ∧
      view.totalLen = n ∧ view.beginString = beginString ∧
      view.fields = calls.map Call.field ∧
      (∀ pre t v post, calls = pre ++ .setInt t v :: post → (∀ c ∈ pre, c.field.tag ≠ t) →
        view.getInt t = some v) ∧
      frameDecode maxBodyLength (b.mem.take n ++ rest) = .ok frame ∧ frame.totalLen = n := by
  obtain ⟨b₀, hcomposed, hfinish⟩ := build_composed hbuild hn
  have hsize : (bodyBytes (calls.map Call.field)).length < 2 ^ 64 :=
    Nat.lt_of_le_of_lt (length_bodyBytes_le hcomposed) hmem
  rcases finish_composed hcomposed hfinish with rfl | ⟨hbegin, hlen, htake⟩
  · exact absurd hn (Nat.lt_irrefl 0)
  have hparse := parse_messageBytes hbegin (by simpa using htags) hcomposed.clean
    (by simpa using hfields) hsize maxBodyLength rest
  have hframe := frameDecode_messageBytes hbegin hsize maxBodyLength rest
  rw [if_pos hbody] at hparse hframe
  rw [htake]
  refine ⟨_, _, hparse, hlen.symm, rfl, rfl, ?_, hframe, hlen.symm⟩
  rintro pre t v post rfl hpre
  simp only [map_append, map_cons, Call.field]
  have hnone : (pre.map Call.field).find? (fun f => f.tag == t) = none := by
    rw [find?_eq_none]
    simpa using hpre
  simp [MessageView.getInt, MessageView.get, find?_append, hnone, parseInt_formatInt]

/-- `FIX.4.4`. -/
def sampleBeginString : Bytes := [70, 73, 88, 46, 52, 46, 52]

/-- A negative number, with the next message behind it. -/
theorem fix_round_trip_sample :
    ∃ b view frame,
      build (List.replicate 64 0) [.set 35 [68], .setInt 34 (-7)] sampleBeginString =
        some (33, b) ∧
      parse 128 kDefaultMaxBodyLength (b.mem.take 33 ++ [56, 61]) = .ok view ∧
      view.totalLen = 33 ∧ view.fields = [⟨35, [68]⟩, ⟨34, [45, 55]⟩] ∧
      view.getInt 34 = some (-7) ∧
      frameDecode kDefaultMaxBodyLength (b.mem.take 33 ++ [56, 61]) = .ok frame ∧
      frame.totalLen = 33 := by
  obtain ⟨b, hb⟩ : ∃ b, build (List.replicate 64 0) [.set 35 [68], .setInt 34 (-7)]
      sampleBeginString = some (33, b) := ⟨_, rfl⟩
  obtain ⟨view, frame, hparse, htotal, -, hfields, hint, hframe, hlen⟩ :=
    fix_round_trip (List.replicate 64 0) (by decide) [.set 35 [68], .setInt 34 (-7)] (by decide)
      sampleBeginString hb (by decide) 128 (by decide) kDefaultMaxBodyLength (by decide) [56, 61]
  exact ⟨b, view, frame, hb, hparse, htotal, hfields,
    hint [.set 35 [68]] 34 (-7) [] rfl (by decide), hframe, hlen⟩

/-- An integer set under a tag that has been set before does not come back. -/
theorem repeated_tag_shadowed :
    ∃ n b view, build (List.replicate 64 0) [.setInt 34 1, .setInt 34 2] sampleBeginString =
        some (n, b) ∧ 0 < n ∧
      parse 128 kDefaultMaxBodyLength (b.mem.take n) = .ok view ∧ view.getInt 34 = some 1 := by
  refine ⟨_, _, _, rfl, by decide, rfl, by decide⟩

end Eph.Fix
