import Ephemeral.FixFramer

/-!
# The text of a FIX message

Parser and framer read the same header with different code.  This module says once which byte
strings they take for a message: a `MessageText` is a BeginString field, a BodyLength field
that counts the body, the body, and a CheckSum field that matches.

Each reader accepts a buffer exactly if a text stands at its front (`parse_text`, `parse_inv`,
`frameDecode_text`, `frameDecode_inv`).  The parser reads the two tags of the header as
numbers, so that it takes leading zeros; the framer compares characters.
-/

namespace Eph.Fix

open ByteOrder Decimal Core List MessageBuilder

variable {view : MessageView}

/-! ## Digits and delimiters -/

theorem notMem_of_digits {ds : Bytes} (h : ∀ c ∈ ds, isDigit c = true) {x : UInt8}
    (hx : isDigit x = false) : x ∉ ds :=
  fun hmem => ne_of_isDigit (h x hmem) hx rfl

theorem splitSoh_inv {p v rest : Bytes} (h : splitSoh p = some (v, rest)) :
    p = v ++ SOH :: rest ∧ SOH ∉ v := by
  induction p generalizing v with
  | nil => cases h
  | cons c cs ih =>
    rw [splitSoh] at h
    split at h
    · rename_i hc
      cases h
      exact ⟨by rw [eq_of_beq hc]; rfl, not_mem_nil⟩
    rename_i hc
    obtain ⟨⟨v', rest'⟩, hsplit, heq⟩ := Option.map_eq_some_iff.mp h
    cases heq
    obtain ⟨rfl, hclean⟩ := ih hsplit
    refine ⟨rfl, ?_⟩
    rw [mem_cons, not_or]
    exact ⟨fun hsoh => hc (by rw [← hsoh]; exact beq_self_eq_true SOH), hclean⟩

theorem splitSoh_none {p : Bytes} (h : SOH ∉ p) : splitSoh p = none := by
  cases hsplit : splitSoh p with
  | none => rfl
  | some r =>
    obtain ⟨rfl, -⟩ := splitSoh_inv hsplit
    exact absurd (by simp) h

/-! ## Tags -/

/-- The digit loop stops at the `=`, or fails. -/
private theorem parseTagLoop_inv {p rest : Bytes} {acc n : Nat} (hacc : acc ≤ uint32Max)
    (h : parseTagLoop acc p = (n, rest)) (hn : n ≠ 0) :
    ∃ ds, p = ds ++ 61 :: rest ∧ (∀ c ∈ ds, isDigit c = true) ∧ value acc ds = n ∧
      n ≤ uint32Max := by
  induction p generalizing acc with
  | nil =>
    cases h
    exact absurd rfl hn
  | cons c cs ih =>
    rw [parseTagLoop] at h
    split at h
    · rename_i hc
      cases h
      exact ⟨[], by rw [eq_of_beq hc]; rfl, forall_mem_nil _, rfl, hacc⟩
    split at h
    · cases h
      exact absurd rfl hn
    split at h
    · cases h
      exact absurd rfl hn
    split at h
    · cases h
      exact absurd rfl hn
    rename_i hc hdigit hearly hover
    have hd : isDigit c = true := by simpa using hdigit
    have hle := digitVal_le hd
    have hmax : digitVal c ≤ uint32Max := by rw [uint32Max]; omega
    obtain ⟨ds, rfl, hds, hvalue, hbound⟩ := ih (by omega) h
    exact ⟨c :: ds, rfl, forall_mem_cons.mpr ⟨hd, hds⟩, by rw [value_cons, hvalue], hbound⟩

/-- A tag number that is not zero was read from digits in front of a `=`. -/
theorem parseTagNumber_inv {p rest : Bytes} {t : UInt32} (h : parseTagNumber p = (t, rest))
    (ht : t ≠ 0) : ∃ tag : Numeral t.toNat, p = tag.digits ++ 61 :: rest := by
  cases p with
  | nil =>
    cases h
    exact absurd rfl ht
  | cons c cs =>
    rw [parseTagNumber] at h
    split at h
    · cases h
      exact absurd rfl ht
    rename_i hdigit
    obtain ⟨hnum, hrest⟩ := Prod.mk.inj h
    have hne : (parseTagLoop 0 (c :: cs)).1 ≠ 0 := by
      intro hzero
      rw [hzero] at hnum
      exact ht hnum.symm
    obtain ⟨ds, hp, hds, hvalue, hbound⟩ :=
      parseTagLoop_inv (Nat.zero_le _) (Prod.ext rfl hrest :
        parseTagLoop 0 (c :: cs) = ((parseTagLoop 0 (c :: cs)).1, rest)) hne
    have hnat : t.toNat = (parseTagLoop 0 (c :: cs)).1 := by
      rw [← hnum, UInt32.toNat_ofNat']
      rw [uint32Max] at hbound
      omega
    refine ⟨⟨ds, ?_, hds, by rw [hvalue, hnat]⟩, hp⟩
    rintro rfl
    -- the first character is a digit, not the `=`
    cases hp
    exact hdigit (by decide)

/-- A text without a `=` holds no tag. -/
theorem parseTagNumber_unfinished {p : Bytes} (h : 61 ∉ p) : (parseTagNumber p).1 = 0 := by
  by_contra hne
  obtain ⟨tag, hp⟩ := parseTagNumber_inv (Prod.ext rfl rfl : parseTagNumber p = (_, _)) hne
  rw [hp] at h
  exact h (by simp)

/-! ## The CheckSum field -/

private theorem map_eq_ok {ε α β : Type} {f : α → β} {r : Except ε α} {b : β}
    (h : r.map f = .ok b) : ∃ a, r = .ok a ∧ f a = b := by
  cases r with
  | error e => cases h
  | ok a => exact ⟨a, rfl, Except.ok.inj h⟩

/-- What stands behind the body, `csField`, starts with a CheckSum field for `front`. -/
structure Trailed (front csField : Bytes) : Prop where
  tag : csField.take 3 = [49, 48, 61]
  soh : u8At csField 6 = SOH
  checksum : ∃ declared, declaredChecksum csField = some declared ∧
    computeChecksum front = UInt8.ofNat declared

/-- Only the seven bytes of the field matter. -/
theorem trailed_append {front cs : Bytes} (hcs : cs.length = 7) (rest : Bytes) :
    Trailed front (cs ++ rest) ↔ Trailed front cs := by
  have hat : ∀ i, i < 7 → u8At (cs ++ rest) i = u8At cs i := by
    intro i hi
    rw [u8At, u8At, getD_eq_getElem?_getD, getD_eq_getElem?_getD, getElem?_append_left (by omega)]
  have htake : (cs ++ rest).take 3 = cs.take 3 := take_append_of_le_length (by omega)
  have hdeclared : declaredChecksum (cs ++ rest) = declaredChecksum cs := by
    simp only [declaredChecksum, hat 3 (by decide), hat 4 (by decide), hat 5 (by decide)]
  constructor
  · rintro ⟨htag, hsoh, hsum⟩
    exact ⟨htake ▸ htag, hat 6 (by decide) ▸ hsoh, hdeclared ▸ hsum⟩
  · rintro ⟨htag, hsoh, hsum⟩
    exact ⟨by rw [htake, htag], by rw [hat 6 (by decide), hsoh], by rw [hdeclared]; exact hsum⟩

section Tail

variable {head p : Bytes} {n : Nat}

private theorem header_length : (head ++ p).length - p.length = head.length := by
  rw [length_append, Nat.add_sub_cancel]

private theorem front_eq : (head ++ p).take (head.length + n) = head ++ p.take n := by
  rw [take_append, take_of_length_le (by omega), Nat.add_sub_cancel_left]

private theorem short_iff :
    (decide ((head ++ p).length < head.length + 7) ||
      decide (n > (head ++ p).length - head.length - 7)) = true ↔ p.length < n + 7 := by
  rw [length_append, Bool.or_eq_true, decide_eq_true_eq, decide_eq_true_eq]
  omega

/-- Behind the header, the framer waits for the body and the CheckSum field. -/
theorem frameBody_short (h : p.length < n + 7) :
    frameBody (head ++ p) p n = .error .kIncomplete := by
  rw [frameBody, header_length, if_pos (short_iff.mpr h)]

/-- Behind the header, the framer accepts exactly a body with its CheckSum field. -/
theorem frameBody_iff {f : DecodedFrame} :
    frameBody (head ++ p) p n = .ok f ↔
      n + 7 ≤ p.length ∧ Trailed (head ++ p.take n) (p.drop n) ∧
        f = ⟨(head ++ p).take (head.length + n + 7), scanMsgType (n + 1) (p.take n),
          head.length + n + 7⟩ := by
  by_cases hshort : p.length < n + 7
  · rw [frameBody_short hshort]
    exact ⟨nofun, fun h => absurd h.1 (by omega)⟩
  rw [frameBody, header_length, if_neg (mt short_iff.mp hshort), front_eq]
  dsimp only
  constructor
  · intro h
    split at h
    · cases h
    split at h
    · cases h
    split at h
    · cases h
    split at h
    · cases h
    rename_i htag hsoh _ declared hdeclared hsum
    cases h
    exact ⟨by omega, ⟨by simpa using htag, by simpa using hsoh, declared, hdeclared,
      by simpa using hsum⟩, rfl⟩
  · rintro ⟨-, ⟨htag, hsoh, declared, hdeclared, hsum⟩, rfl⟩
    rw [if_neg (by simpa using htag), if_neg (by simpa using hsoh), hdeclared]
    dsimp only
    rw [if_neg (by simpa using hsum)]

/-- Behind the header, the parser waits for the body and the CheckSum field. -/
theorem parseBody_short {maxFields : Nat} {beginString : Bytes} (h : p.length < n + 7) :
    parseBody maxFields (head ++ p) beginString p n = .error .kIncomplete := by
  rw [parseBody, header_length, if_pos (short_iff.mpr h)]

/-- Behind the header, the parser accepts exactly a body of fields with its CheckSum field. -/
theorem parseBody_iff {maxFields : Nat} {beginString : Bytes} :
    parseBody maxFields (head ++ p) beginString p n = .ok view ↔
      n + 7 ≤ p.length ∧ Trailed (head ++ p.take n) (p.drop n) ∧
        parseFields maxFields (n + 1) (p.take n) [] = .ok view.fields ∧
        view.totalLen = head.length + n + 7 ∧ view.beginString = beginString := by
  by_cases hshort : p.length < n + 7
  · rw [parseBody_short hshort]
    exact ⟨nofun, fun h => absurd h.1 (by omega)⟩
  rw [parseBody, header_length, if_neg (mt short_iff.mp hshort), front_eq]
  dsimp only
  constructor
  · intro h
    split at h
    · cases h
    split at h
    · cases h
    split at h
    · cases h
    split at h
    · cases h
    rename_i htag hsoh _ declared hdeclared hsum
    obtain ⟨fields, hfields, rfl⟩ := map_eq_ok h
    exact ⟨by omega, ⟨by simpa using htag, by simpa using hsoh, declared, hdeclared,
      by simpa using hsum⟩, hfields, rfl, rfl⟩
  · rintro ⟨-, ⟨htag, hsoh, declared, hdeclared, hsum⟩, hfields, htotal, hbegin⟩
    rw [if_neg (by simpa using htag), if_neg (by simpa using hsoh), hdeclared]
    dsimp only
    rw [if_neg (by simpa using hsum), hfields, ← htotal, ← hbegin]
    rfl

end Tail

/-! ## A whole message -/

/-- The header as bytes. -/
def headerText (beginTag beginString lengthTag lengthDigits : Bytes) : Bytes :=
  beginTag ++ 61 :: (beginString ++ SOH :: (lengthTag ++ 61 :: (lengthDigits ++ [SOH])))

theorem headerText_append (beginTag beginString lengthTag lengthDigits p : Bytes) :
    headerText beginTag beginString lengthTag lengthDigits ++ p =
      beginTag ++ 61 :: (beginString ++ SOH ::
        (lengthTag ++ 61 :: (lengthDigits ++ SOH :: p))) := by
  simp [headerText]

/-- The text of one message whose body has at most `maxBodyLength` bytes. -/
structure MessageText (maxBodyLength : Nat) where
  beginTag : Numeral 8
  beginString : Bytes
  lengthTag : Numeral 9
  lengthDigits : Bytes
  body : Bytes
  trailer : Bytes
  beginString_clean : SOH ∉ beginString
  lengthDigits_isDigit : ∀ c ∈ lengthDigits, isDigit c = true
  lengthDigits_value : value 0 lengthDigits = body.length
  body_le : body.length ≤ maxBodyLength
  trailer_length : trailer.length = 7
  trailed : Trailed
    (headerText beginTag.digits beginString lengthTag.digits lengthDigits ++ body) trailer

namespace MessageText

variable {maxBodyLength : Nat} (text : MessageText maxBodyLength)

def header : Bytes :=
  headerText text.beginTag.digits text.beginString text.lengthTag.digits text.lengthDigits

/-- The bytes of the message. -/
def bytes : Bytes := text.header ++ (text.body ++ text.trailer)

/-- The tags of the header are written with one digit each. -/
def PlainTags : Prop := text.beginTag.digits = [56] ∧ text.lengthTag.digits = [57]

theorem length_bytes : text.bytes.length = text.header.length + text.body.length + 7 := by
  rw [bytes, length_append, length_append, text.trailer_length, Nat.add_assoc]

/-- A text is what its header, body and CheckSum field make it. -/
private theorem tail_eq (rest : Bytes) :
    let p := text.body ++ text.trailer ++ rest
    p.take text.body.length = text.body ∧
      p.drop text.body.length = text.trailer ++ rest := by
  intro p
  have hp : p = text.body ++ (text.trailer ++ rest) := append_assoc ..
  rw [hp]
  exact ⟨take_left' rfl, drop_left' rfl⟩

/-- The BodyLength digits are read as the length of the body. -/
theorem bounded_lengthDigits :
    bounded maxBodyLength 0 text.lengthDigits = some text.body.length := by
  rw [bounded_eq text.lengthDigits_isDigit (Nat.zero_le _), text.lengthDigits_value,
    if_pos text.body_le]

end MessageText

section Readers

variable {maxFields maxBodyLength : Nat}

variable {beginString lengthDigits : Bytes}

/-- The framer on a plain header: it comes to the body, if BodyLength is within the limit. -/
theorem frameDecode_header (hbegin : SOH ∉ beginString)
    (hdigits : ∀ c ∈ lengthDigits, isDigit c = true) (p : Bytes) :
    frameDecode maxBodyLength (headerText [56] beginString [57] lengthDigits ++ p) =
      match bounded maxBodyLength 0 lengthDigits with
      | some n => frameBody (headerText [56] beginString [57] lengthDigits ++ p) p n
      | none => .error .kInvalidFormat := by
  rw [headerText_append, frameDecode, singleton_append, if_neg (not_short _ _ _)]
  simp only [take_succ_cons, take_zero, drop_succ_cons, drop_zero,
    bne_self_eq_false, Bool.false_eq_true, if_false, splitSoh_append hbegin,
    singleton_append, if_neg (not_short _ _ _), frameBodyLength_append hdigits]
  cases bounded maxBodyLength 0 lengthDigits <;> rfl

/-- The parser on a header, however its tags are written: it comes to the body, if BodyLength
is within the limit. -/
theorem parse_header (beginTag : Numeral 8) (lengthTag : Numeral 9) (hbegin : SOH ∉ beginString)
    (hdigits : ∀ c ∈ lengthDigits, isDigit c = true) (p : Bytes) :
    parse maxFields maxBodyLength
        (headerText beginTag.digits beginString lengthTag.digits lengthDigits ++ p) =
      match bounded maxBodyLength 0 lengthDigits with
      | some n => parseBody maxFields
          (headerText beginTag.digits beginString lengthTag.digits lengthDigits ++ p)
          beginString p n
      | none => .error .kInvalidFormat := by
  have hfirst := @parseTagNumber_numeral 8 beginTag
  have hsecond := @parseTagNumber_numeral 9 lengthTag
  have hclean : SOH ∉ lengthDigits := notMem_of_digits hdigits soh_not_digit
  have hnonempty : ∀ q r : Bytes, List.isEmpty (q ++ 61 :: r) = false := by
    intro q r
    cases q <;> rfl
  rw [headerText_append, parse]
  simp only [hnonempty, hfirst, hsecond, splitSoh_append hbegin, splitSoh_append hclean,
    bne_self_eq_false, Bool.false_eq_true, if_false, parseBodyLength_eq_bounded]
  cases bounded maxBodyLength 0 lengthDigits <;> rfl

/-- The bytes behind a header, cut into a text and the rest. -/
theorem exists_text {beginString lengthDigits p : Bytes} {n : Nat} (beginTag : Numeral 8)
    (lengthTag : Numeral 9) (hbegin : SOH ∉ beginString)
    (hdigits : ∀ c ∈ lengthDigits, isDigit c = true)
    (hlength : bounded maxBodyLength 0 lengthDigits = some n) (hroom : n + 7 ≤ p.length)
    (htrailed : Trailed
      (headerText beginTag.digits beginString lengthTag.digits lengthDigits ++ p.take n)
      (p.drop n)) :
    ∃ text : MessageText maxBodyLength, ∃ rest,
      p = text.body ++ text.trailer ++ rest ∧ text.beginTag = beginTag ∧
        text.beginString = beginString ∧ text.lengthTag = lengthTag ∧
        text.lengthDigits = lengthDigits := by
  rw [bounded_eq hdigits (Nat.zero_le _)] at hlength
  split at hlength
  · rename_i hle
    have hvalue : value 0 lengthDigits = n := Option.some.inj hlength
    have hbody : (p.take n).length = n := length_take_of_le (by omega)
    have hcs : ((p.drop n).take 7).length = 7 := length_take_of_le (by rw [length_drop]; omega)
    have hsplit := take_append_drop 7 (p.drop n)
    have hp : p = p.take n ++ (p.drop n).take 7 ++ (p.drop n).drop 7 := by
      rw [append_assoc, hsplit, take_append_drop]
    refine ⟨⟨beginTag, beginString, lengthTag, lengthDigits, p.take n, (p.drop n).take 7, hbegin,
      hdigits, by rw [hbody, hvalue], by rw [hbody, ← hvalue]; exact hle, hcs, ?_⟩,
      (p.drop n).drop 7, hp, rfl, rfl, rfl, rfl⟩
    rwa [← hsplit, trailed_append hcs] at htrailed
  · cases hlength

variable (text : MessageText maxBodyLength)

/-- The bytes of a text behind its header. -/
theorem MessageText.bytes_append (rest : Bytes) :
    text.bytes ++ rest = text.header ++ (text.body ++ text.trailer ++ rest) := by
  rw [MessageText.bytes, append_assoc]

/-- What the framer reports of a text. -/
def MessageText.frame (text : MessageText maxBodyLength) : DecodedFrame :=
  ⟨text.bytes, scanMsgType (text.body.length + 1) text.body, text.bytes.length⟩

/-- **The framer takes a text with plain tags**, whatever follows it. -/
theorem frameDecode_text (hplain : text.PlainTags)
    (rest : Bytes) : frameDecode maxBodyLength (text.bytes ++ rest) = .ok text.frame := by
  obtain ⟨hbody, hrest⟩ := text.tail_eq rest
  have hheader : text.header = headerText [56] text.beginString [57] text.lengthDigits := by
    rw [MessageText.header, hplain.1, hplain.2]
  rw [text.bytes_append, hheader, frameDecode_header text.beginString_clean
    text.lengthDigits_isDigit, text.bounded_lengthDigits, ← hheader]
  rw [frameBody_iff, hbody, hrest]
  refine ⟨?_, (trailed_append text.trailer_length rest).mpr text.trailed, ?_⟩
  · rw [length_append, length_append, text.trailer_length]
    omega
  · rw [← text.bytes_append, ← text.length_bytes, take_left' rfl, MessageText.frame]

/-- The framer's BodyLength loop reads digits up to their delimiter. -/
theorem frameBodyLength_inv {acc n : Nat} {p q : Bytes} (hacc : acc ≤ maxBodyLength)
    (h : frameBodyLength maxBodyLength acc p = .ok (n, q)) :
    ∃ ds, p = ds ++ SOH :: q ∧ (∀ c ∈ ds, isDigit c = true) ∧
      bounded maxBodyLength acc ds = some n := by
  induction p generalizing acc with
  | nil => cases h
  | cons c cs ih =>
    rw [frameBodyLength] at h
    split at h
    · rename_i hc
      cases h
      exact ⟨[], by rw [eq_of_beq hc]; rfl, forall_mem_nil _, rfl⟩
    split at h
    · cases h
    split at h
    · cases h
    split at h
    · cases h
    rename_i hdigit _ hover
    have hd : isDigit c = true := by simpa using hdigit
    obtain ⟨ds, rfl, hds, hbounded⟩ := ih (Nat.le_of_not_gt hover) h
    refine ⟨c :: ds, rfl, forall_mem_cons.mpr ⟨hd, hds⟩, ?_⟩
    rw [bounded, hd, hbounded]
    simp [Nat.le_of_not_gt hover]

/-- The tags as the framer wants them. -/
def plainEight : Numeral 8 :=
  ⟨[56], by decide, fun c hc => by rw [mem_singleton.mp hc]; rfl, rfl⟩

@[inherit_doc plainEight]
def plainNine : Numeral 9 :=
  ⟨[57], by decide, fun c hc => by rw [mem_singleton.mp hc]; rfl, rfl⟩

/-- **The framer takes nothing else.** -/
theorem frameDecode_inv {data : Bytes} {f : DecodedFrame}
    (h : frameDecode maxBodyLength data = .ok f) :
    ∃ text : MessageText maxBodyLength, ∃ rest,
      text.PlainTags ∧ data = text.bytes ++ rest ∧ f = text.frame := by
  obtain ⟨text, rest, hplain, hdata⟩ :
      ∃ text : MessageText maxBodyLength, ∃ rest, text.PlainTags ∧ data = text.bytes ++ rest := by
    rw [frameDecode] at h
    split at h
    · cases h
    split at h
    · cases h
    split at h
    · cases h
    rename_i height _ beginString p hbegin
    split at h
    · cases h
    split at h
    · cases h
    rename_i hnine
    split at h
    · cases h
    rename_i n q hlength
    -- What was read so far is a header with plain tags.
    obtain ⟨hbegin, hclean⟩ := splitSoh_inv hbegin
    obtain ⟨digits, hrest, hdigits, hbounded⟩ := frameBodyLength_inv (Nat.zero_le _) hlength
    have hp : p = 57 :: 61 :: (digits ++ SOH :: q) := by
      rw [← take_append_drop 2 p, hrest, show p.take 2 = [57, 61] by simpa using hnine]
      rfl
    have hdata : data = headerText [56] beginString [57] digits ++ q := by
      rw [headerText_append, ← take_append_drop 2 data, hbegin, hp,
        show data.take 2 = [56, 61] by simpa using height]
      rfl
    rw [hdata] at h
    obtain ⟨hroom, htrailed, -⟩ := frameBody_iff.mp h
    obtain ⟨text, rest, hq, hbegin, hstring, hlength, hdigits⟩ :=
      exists_text plainEight plainNine hclean hdigits hbounded hroom htrailed
    refine ⟨text, rest, ⟨by rw [hbegin]; rfl, by rw [hlength]; rfl⟩, ?_⟩
    rw [hdata, text.bytes_append, ← hq, MessageText.header, hbegin, hstring, hlength, hdigits]
    rfl
  refine ⟨text, rest, hplain, hdata, ?_⟩
  rw [hdata, frameDecode_text text hplain rest] at h
  exact (Except.ok.inj h).symm

/-- **What the framer takes.**  A frame is reported exactly where the buffer starts with the text
of a message, its length and its checksum right and its tags plain; and it is that text. -/
theorem framer_language (maxBodyLength : Nat) (data : Bytes) (f : DecodedFrame) :
    frameDecode maxBodyLength data = .ok f ↔ ∃ text : MessageText maxBodyLength, ∃ rest,
      text.PlainTags ∧ data = text.bytes ++ rest ∧ f = text.frame := by
  constructor
  · exact frameDecode_inv
  · rintro ⟨text, rest, hplain, rfl, rfl⟩
    exact frameDecode_text text hplain rest

/-- **What the parser makes of a text**, whatever follows it: it reads the fields of the
body. -/
theorem parse_text (rest : Bytes) :
    parse maxFields maxBodyLength (text.bytes ++ rest) = .ok view ↔
      parseFields maxFields (text.body.length + 1) text.body [] = .ok view.fields ∧
        view.totalLen = text.bytes.length ∧ view.beginString = text.beginString := by
  obtain ⟨hbody, hrest⟩ := text.tail_eq rest
  have hroom : text.body.length + 7 ≤ (text.body ++ text.trailer ++ rest).length := by
    rw [length_append, length_append, text.trailer_length]
    omega
  have htrailed := (trailed_append text.trailer_length rest).mpr text.trailed
  rw [text.bytes_append, text.length_bytes, MessageText.header, parse_header text.beginTag
    text.lengthTag text.beginString_clean text.lengthDigits_isDigit, text.bounded_lengthDigits]
  rw [parseBody_iff, hbody, hrest]
  exact ⟨fun h => h.2.2, fun h => ⟨hroom, htrailed, h⟩⟩

/-- **The parser takes nothing but texts.** -/
theorem parse_inv {data : Bytes} (h : parse maxFields maxBodyLength data = .ok view) :
    ∃ text : MessageText maxBodyLength, ∃ rest, data = text.bytes ++ rest := by
  rw [parse] at h
  split at h
  · cases h
  dsimp only at h
  split at h
  · cases h
  rename_i height
  split at h
  · cases h
  rename_i beginString p hbegin
  split at h
  · cases h
  split at h
  · cases h
  rename_i hnine
  split at h
  · cases h
  rename_i digits q hdigits
  split at h
  · cases h
  rename_i n hlength
  obtain ⟨hbegin, hclean⟩ := splitSoh_inv hbegin
  obtain ⟨hdigits, -⟩ := splitSoh_inv hdigits
  obtain ⟨beginTag, hdata⟩ := parseTagNumber_inv
    (Prod.ext (by simpa using height) rfl : parseTagNumber data = (8, _)) (by decide)
  obtain ⟨lengthTag, hp⟩ := parseTagNumber_inv
    (Prod.ext (by simpa using hnine) rfl : parseTagNumber p = (9, _)) (by decide)
  have hheader : data = headerText beginTag.digits beginString lengthTag.digits digits ++ q := by
    rw [headerText_append, ← hdigits, ← hp, ← hbegin]
    exact hdata
  rw [parseBodyLength_eq_bounded] at hlength
  rw [hheader] at h
  obtain ⟨hroom, htrailed, -⟩ := parseBody_iff.mp h
  obtain ⟨text, rest, hq, hone, htwo, hthree, hfour⟩ :=
    exists_text beginTag lengthTag hclean (isDigit_of_bounded hlength) hlength hroom htrailed
  refine ⟨text, rest, ?_⟩
  rw [hheader, text.bytes_append, ← hq, MessageText.header, hone, htwo, hthree, hfour]

end Readers

end Eph.Fix
