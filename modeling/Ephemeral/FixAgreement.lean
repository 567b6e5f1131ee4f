import Ephemeral.FixFraming

/-!
# Where the framer and the parser agree

Two readers of one header.  On a buffer that the parser accepts, the framer finds a message of
the same length, or none at all: it wants the tags of the header written as `8` and `9`, where
the parser takes `08` as well.

Of the body the framer wants only the MsgType, and takes the first tag-35 field that has a
value.  The parser's `msg_type` takes the first tag-35 field, empty or not.  The two report
different types exactly if an empty one comes first and hides another
(`framer_parser_agree_iff`).
-/

namespace Eph.Fix

open ByteOrder Decimal Core List MessageBuilder

variable {texts : List FieldText}

/-- Tag 35. -/
def tagMsgType : UInt32 := 35

/-- `msg_type`. -/
def MessageView.msgType (view : MessageView) : Option Bytes :=
  view.get tagMsgType

/-- The first character of the MsgType, zero if there is none, as the framer reports it. -/
def MessageView.msgTypeChar (view : MessageView) : UInt8 :=
  (view.msgType.map fun v => u8At v 0).getD 0

/-! ## The fields of a body -/

/-- One field as it is written. -/
structure FieldText where
  tag : UInt32
  tag_ne_zero : tag ≠ 0
  digits : Numeral tag.toNat
  value : Bytes
  clean : SOH ∉ value

namespace FieldText

variable (f : FieldText)

def bytes : Bytes := f.digits.digits ++ 61 :: (f.value ++ [SOH])

def toField : Field := ⟨f.tag, f.value⟩

/-- It is a MsgType field. -/
def isMsgType : Bool := f.tag == tagMsgType

theorem bytes_append (rest : Bytes) :
    f.bytes ++ rest = f.digits.digits ++ 61 :: (f.value ++ SOH :: rest) := by
  simp [bytes]

end FieldText

/-- The bytes of a body. -/
def bodyText (fields : List FieldText) : Bytes := fields.flatMap FieldText.bytes

variable (f : FieldText) (fields : List FieldText)

theorem bodyText_cons :
    bodyText (f :: fields) = f.digits.digits ++ 61 :: (f.value ++ SOH :: bodyText fields) := by
  rw [bodyText, flatMap_cons, ← bodyText, f.bytes_append]

theorem isEmpty_bodyText_cons : (bodyText (f :: fields)).isEmpty = false := by
  rw [bodyText_cons]
  cases f.digits.digits <;> rfl

/-- A field takes two bytes at least. -/
theorem length_lt_bodyText : (bodyText fields).length + 2 ≤ (bodyText (f :: fields)).length := by
  rw [bodyText_cons]
  simp only [length_append, length_cons]
  omega

section Parser

variable {maxFields : Nat}

/-- **A body that parses consists of fields.** -/
theorem parseFields_inv {fuel : Nat} {body : Bytes} {acc fields : List Field}
    (h : parseFields maxFields fuel body acc = .ok fields) (hfuel : body.length < fuel) :
    ∃ texts : List FieldText, body = bodyText texts := by
  induction fuel generalizing body acc with
  | zero => omega
  | succ fuel ih =>
    rw [parseFields] at h
    split at h
    · rename_i hempty
      exact ⟨[], isEmpty_iff.mp hempty⟩
    obtain ⟨t, p, hread⟩ : ∃ t p, parseTagNumber body = (t, p) := ⟨_, _, rfl⟩
    rw [hread] at h
    dsimp only at h
    split at h
    · cases h
    rename_i htag
    split at h
    · cases h
    rename_i v rest hsplit
    split at h
    · cases h
    have htag : t ≠ 0 := by simpa using htag
    obtain ⟨digits, rfl⟩ := parseTagNumber_inv hread htag
    obtain ⟨rfl, hclean⟩ := splitSoh_inv hsplit
    have hlength : rest.length < fuel := by
      simp only [length_append, length_cons] at hfuel
      omega
    obtain ⟨texts, rfl⟩ := ih h hlength
    exact ⟨⟨t, htag, digits, v, hclean⟩ :: texts,
      (bodyText_cons ⟨t, htag, digits, v, hclean⟩ texts).symm⟩

/-- **The fields of a body** are the written ones, if there is room for them. -/
theorem parseFields_bodyText_iff {fuel : Nat} {acc fields : List Field}
    (hfuel : (bodyText texts).length < fuel) (hacc : acc.length ≤ maxFields) :
    parseFields maxFields fuel (bodyText texts) acc = .ok fields ↔
      fields = acc ++ texts.map FieldText.toField ∧ acc.length + texts.length ≤ maxFields := by
  induction texts generalizing fuel acc with
  | nil =>
    cases fuel with
    | zero => omega
    | succ fuel =>
      rw [parseFields, if_pos (by rfl)]
      simp [hacc, eq_comm]
  | cons f texts ih =>
    have hlength := length_lt_bodyText f texts
    obtain ⟨fuel, rfl⟩ : ∃ k, fuel = k + 1 := ⟨fuel - 1, by omega⟩
    have htag : (f.tag == 0) = false := by simpa using f.tag_ne_zero
    have hread := parseTagNumber_numeral f.digits (f.value ++ SOH :: bodyText texts)
    rw [parseFields, isEmpty_bodyText_cons, bodyText_cons, hread, length_cons]
    simp only [htag, splitSoh_append f.clean, Bool.false_eq_true, if_false]
    by_cases hfull : acc.length ≥ maxFields
    · rw [if_pos hfull]
      exact ⟨by rintro ⟨⟩, fun h => by omega⟩
    · rw [if_neg hfull, ih (by omega) (by rw [length_append, length_singleton]; omega)]
      simp [FieldText.toField, Nat.add_assoc, Nat.add_comm 1]

/-- The fields of a body that parses are the written ones. -/
theorem parseFields_bodyText {fuel : Nat} {fields : List Field}
    (h : parseFields maxFields fuel (bodyText texts) [] = .ok fields)
    (hfuel : (bodyText texts).length < fuel) : fields = texts.map FieldText.toField :=
  ((parseFields_bodyText_iff hfuel (Nat.zero_le _)).mp h).1

end Parser

/-! ## The MsgType -/

/-- The lenient reader of the framer, on digits. -/
theorem scanTag_digits {ds : Bytes} (hds : ∀ c ∈ ds, isDigit c = true) (acc : Nat) (rest : Bytes) :
    scanTag (UInt32.ofNat acc) (ds ++ 61 :: rest) =
      some (UInt32.ofNat (Decimal.value acc ds), rest) := by
  induction ds generalizing acc with
  | nil => rfl
  | cons c cs ih =>
    have hc : isDigit c = true := hds c mem_cons_self
    have hne : (c == 61) = false := by
      simpa using ne_of_isDigit hc (by decide : isDigit 61 = false)
    have hnext : UInt32.ofNat acc * 10 + UInt32.ofNat (digitVal c) =
        UInt32.ofNat (acc * 10 + digitVal c) := by
      rw [UInt32.ofNat_add, UInt32.ofNat_mul]
      rfl
    rw [cons_append, scanTag, hne, hc, value_cons, ← ih (fun d hd => hds d (mem_cons_of_mem _ hd))]
    simp only [Bool.false_eq_true, if_false, if_true, hnext]

/-- The first character of the first MsgType field with a value: what the framer reports. -/
def shownMsgType : List FieldText → UInt8
  | [] => 0
  | f :: fs => if f.isMsgType && !f.value.isEmpty then u8At f.value 0 else shownMsgType fs

/-- The first character of the first MsgType field: what the parser reports. -/
def firstMsgType : List FieldText → UInt8
  | [] => 0
  | f :: fs => if f.isMsgType then u8At f.value 0 else firstMsgType fs

theorem scanMsgType_bodyText {fuel : Nat} (hfuel : (bodyText texts).length < fuel) :
    scanMsgType fuel (bodyText texts) = shownMsgType texts := by
  induction texts generalizing fuel with
  | nil => cases fuel <;> rfl
  | cons f texts ih =>
    have hlength := length_lt_bodyText f texts
    obtain ⟨fuel, rfl⟩ : ∃ k, fuel = k + 1 := ⟨fuel - 1, by omega⟩
    have hscan : scanTag 0 (bodyText (f :: texts)) =
        some (f.tag, f.value ++ SOH :: bodyText texts) := by
      have h := scanTag_digits f.digits.isDigit 0 (f.value ++ SOH :: bodyText texts)
      rwa [f.digits.value_eq, UInt32.ofNat_toNat, ← bodyText_cons] at h
    rw [scanMsgType, isEmpty_bodyText_cons, hscan]
    simp only [splitSoh_append f.clean, Bool.false_eq_true, if_false]
    rw [ih (by omega)]
    rfl

theorem msgTypeChar_map {view : MessageView} (h : view.fields = texts.map FieldText.toField) :
    view.msgTypeChar = firstMsgType texts := by
  rw [MessageView.msgTypeChar, MessageView.msgType, MessageView.get, h]
  clear h
  induction texts with
  | nil => rfl
  | cons f texts ih =>
    rw [map_cons, find?_cons, firstMsgType, FieldText.isMsgType]
    change (Option.map _ (Option.map _ (match f.tag == tagMsgType with
      | true => _ | false => _))).getD 0 = _
    cases f.tag == tagMsgType with
    | true => rfl
    | false => exact ih

/-- The first MsgType field with a value, `named`, starts with a character other than NUL. -/
def NamesMsgType (texts : List FieldText) : Prop :=
  ∃ before named after, texts = before ++ named :: after ∧
    (∀ f ∈ before, f.isMsgType = true → f.value = []) ∧
    named.isMsgType = true ∧ u8At named.value 0 ≠ 0

/-- The first MsgType field of the body is empty, and hides one that is not. -/
def HidesMsgType (texts : List FieldText) : Prop :=
  ∃ before blank after, texts = before ++ blank :: after ∧
    (∀ f ∈ before, f.isMsgType = false) ∧
    blank.isMsgType = true ∧ blank.value = [] ∧ NamesMsgType after

theorem shownMsgType_skip {f : FieldText} (h : f.isMsgType = true → f.value = [])
    (texts : List FieldText) : shownMsgType (f :: texts) = shownMsgType texts := by
  rw [shownMsgType]
  refine if_neg ?_
  rw [Bool.and_eq_true]
  rintro ⟨htype, hvalue⟩
  rw [h htype] at hvalue
  cases hvalue

theorem shownMsgType_ne_zero_iff (texts : List FieldText) :
    shownMsgType texts ≠ 0 ↔ NamesMsgType texts := by
  constructor
  · intro h
    induction texts with
    | nil => exact absurd rfl h
    | cons f texts ih =>
      by_cases hblank : f.isMsgType = true → f.value = []
      · rw [shownMsgType_skip hblank] at h
        obtain ⟨before, named, after, rfl, hbefore, hnamed⟩ := ih h
        exact ⟨f :: before, named, after, rfl, forall_mem_cons.mpr ⟨hblank, hbefore⟩, hnamed⟩
      · rw [Classical.not_imp] at hblank
        refine ⟨[], f, texts, rfl, nofun, hblank.1, ?_⟩
        rwa [shownMsgType, hblank.1, if_pos (by simpa using hblank.2)] at h
  · rintro ⟨before, named, after, rfl, hbefore, htype, hvalue⟩
    induction before with
    | nil =>
      have hne : named.value ≠ [] := by
        intro hempty
        rw [hempty] at hvalue
        exact hvalue rfl
      rwa [nil_append, shownMsgType, htype, if_pos (by simpa using hne)]
    | cons f before ih =>
      rw [cons_append, shownMsgType_skip (hbefore f mem_cons_self)]
      exact ih fun g hg => hbefore g (mem_cons_of_mem _ hg)

/-- **The two report the same type exactly if no empty MsgType hides another.** -/
theorem shownMsgType_eq_iff (texts : List FieldText) :
    shownMsgType texts = firstMsgType texts ↔ ¬ HidesMsgType texts := by
  induction texts with
  | nil =>
    refine iff_of_true rfl ?_
    rintro ⟨before, blank, after, hnil, -⟩
    exact absurd hnil.symm (by simp)
  | cons f texts ih =>
    cases htype : f.isMsgType with
    | false =>
      have hskip := shownMsgType_skip (f := f) (by rw [htype]; exact nofun) texts
      rw [hskip, firstMsgType, htype, if_neg (by decide), ih, not_iff_not]
      constructor
      · rintro ⟨before, blank, after, rfl, hbefore, hblank⟩
        exact ⟨f :: before, blank, after, rfl, forall_mem_cons.mpr ⟨htype, hbefore⟩, hblank⟩
      rintro ⟨before, blank, after, htexts, hbefore, hblank⟩
      cases before with
      | nil =>
        cases htexts
        rw [htype] at hblank
        exact absurd hblank.1 (by decide)
      | cons g before =>
        cases htexts
        exact ⟨before, blank, after, rfl, fun g hg => hbefore g (mem_cons_of_mem _ hg), hblank⟩
    | true =>
      have hhides : HidesMsgType (f :: texts) ↔ f.value = [] ∧ NamesMsgType texts := by
        constructor
        · rintro ⟨before, blank, after, htexts, hbefore, hblank⟩
          cases before with
          | nil =>
            cases htexts
            exact hblank.2
          | cons g before =>
            cases htexts
            rw [hbefore f mem_cons_self] at htype
            cases htype
        · exact fun h => ⟨[], f, texts, rfl, nofun, htype, h⟩
      rw [hhides, firstMsgType, htype, if_pos rfl]
      by_cases hvalue : f.value = []
      · rw [shownMsgType_skip (fun _ => hvalue), hvalue, ← shownMsgType_ne_zero_iff]
        simp [u8At]
      · rw [shownMsgType, htype, if_pos (by simpa using hvalue)]
        exact iff_of_true rfl fun h => hvalue h.1

/-! ## The two readers -/

/-- A text is cut at its first delimiter in one way. -/
theorem delimited_inj {v w p q : Bytes} {x : UInt8} (hv : x ∉ v) (hw : x ∉ w)
    (h : v ++ x :: p = w ++ x :: q) : v = w ∧ p = q := by
  induction v generalizing w with
  | nil =>
    cases w with
    | nil => exact ⟨rfl, (List.cons.inj h).2⟩
    | cons c w =>
      cases h
      exact absurd mem_cons_self hw
  | cons c v ih =>
    cases w with
    | nil =>
      cases h
      exact absurd mem_cons_self hv
    | cons d w =>
      obtain ⟨rfl, hrest⟩ := List.cons.inj h
      obtain ⟨rfl, rfl⟩ := ih (fun hx => hv (mem_cons_of_mem _ hx))
        (fun hx => hw (mem_cons_of_mem _ hx)) hrest
      exact ⟨rfl, rfl⟩

/-- The text of a message whose body consists of fields. -/
structure FieldedText (maxBodyLength : Nat) extends MessageText maxBodyLength where
  fields : List FieldText
  body_eq : body = bodyText fields

section Agreement

variable {maxFields maxBodyLength : Nat}

/-- **What the parser takes.**  A message is reported exactly where the buffer starts with the text
of one whose body consists of at most `maxFields` fields; and it is those fields. -/
theorem parser_language (maxFields maxBodyLength : Nat) (data : Bytes) (view : MessageView) :
    parse maxFields maxBodyLength data = .ok view ↔ ∃ text : FieldedText maxBodyLength, ∃ rest,
      data = text.bytes ++ rest ∧ text.fields.length ≤ maxFields ∧
        view = ⟨text.fields.map FieldText.toField, text.bytes.length, text.beginString⟩ := by
  constructor
  · intro h
    obtain ⟨text, rest, rfl⟩ := parse_inv h
    obtain ⟨hparsed, htotal, hbegin⟩ := (parse_text text rest).mp h
    obtain ⟨fields, hbody⟩ := parseFields_inv hparsed (Nat.lt_succ_self _)
    rw [hbody, parseFields_bodyText_iff (Nat.lt_succ_self _) (Nat.zero_le _), nil_append,
      length_nil, Nat.zero_add] at hparsed
    exact ⟨⟨text, fields, hbody⟩, rest, rfl, hparsed.2, by rw [← hparsed.1, ← htotal, ← hbegin]⟩
  · rintro ⟨text, rest, rfl, hroom, rfl⟩
    refine (parse_text _ rest).mpr ⟨?_, rfl, rfl⟩
    rw [text.body_eq, parseFields_bodyText_iff (Nat.lt_succ_self _) (Nat.zero_le _)]
    exact ⟨rfl, by rwa [length_nil, Nat.zero_add]⟩

/-- The framer accepts a buffer with a text at its front exactly if the tags are plain. -/
theorem frameDecode_text_iff (text : MessageText maxBodyLength) (rest : Bytes) {f : DecodedFrame} :
    frameDecode maxBodyLength (text.bytes ++ rest) = .ok f ↔ text.PlainTags ∧ f = text.frame := by
  constructor
  · intro h
    obtain ⟨text', rest', hplain, hbytes, -⟩ := frameDecode_inv h
    have htags : text.PlainTags := by
      rw [text.bytes_eq, text'.bytes_eq] at hbytes
      simp only [append_assoc, cons_append] at hbytes
      obtain ⟨hbegin, hrest⟩ := delimited_inj text.beginTag.equals_notMem
        text'.beginTag.equals_notMem hbytes
      obtain ⟨-, hrest⟩ := delimited_inj text.beginString_clean text'.beginString_clean hrest
      obtain ⟨hlength, -⟩ := delimited_inj text.lengthTag.equals_notMem
        text'.lengthTag.equals_notMem hrest
      exact ⟨hbegin.trans hplain.1, hlength.trans hplain.2⟩
    rw [frameDecode_text text htags] at h
    exact ⟨htags, (Except.ok.inj h).symm⟩
  · rintro ⟨hplain, rfl⟩
    exact frameDecode_text text hplain rest

/-- **When the framer and the parser agree.**  On a buffer that the parser accepts there is the
text of a message, and a message that the framer finds there is as long.  The framer finds one
exactly if the tags of the header are plain, and it reports the parser's MsgType exactly if
moreover no empty MsgType field hides another. -/
theorem framer_parser_agree_iff {data : Bytes} {view : MessageView}
    (h : parse maxFields maxBodyLength data = .ok view) :
    (∀ f, frameDecode maxBodyLength data = .ok f → f.totalLen = view.totalLen) ∧
    (∃ text : FieldedText maxBodyLength, ∃ rest, data = text.bytes ++ rest) ∧
    ∀ (text : FieldedText maxBodyLength) (rest : Bytes), data = text.bytes ++ rest →
      ((∃ f, frameDecode maxBodyLength data = .ok f) ↔ text.PlainTags) ∧
      ((∃ f, frameDecode maxBodyLength data = .ok f ∧ f.totalLen = view.totalLen ∧
          f.msgType = view.msgTypeChar) ↔
        text.PlainTags ∧ ¬ HidesMsgType text.fields) := by
  refine ⟨?_, ?_, ?_⟩
  · intro f hf
    obtain ⟨text, rest, rfl⟩ := parse_inv h
    obtain ⟨-, rfl⟩ := (frameDecode_text_iff text rest).mp hf
    exact ((parse_text text rest).mp h).2.1.symm
  · obtain ⟨text, rest, rfl⟩ := parse_inv h
    obtain ⟨fields, hfields⟩ := parseFields_inv ((parse_text text rest).mp h).1 (Nat.lt_succ_self _)
    exact ⟨⟨text, fields, hfields⟩, rest, rfl⟩
  · rintro text rest rfl
    obtain ⟨hfields, htotal, -⟩ := (parse_text text.toMessageText rest).mp h
    rw [text.body_eq] at hfields
    have hview : view.fields = text.fields.map FieldText.toField :=
      parseFields_bodyText hfields (Nat.lt_succ_self _)
    have hscan : text.frame.msgType = shownMsgType text.fields := by
      rw [MessageText.frame, text.body_eq]
      exact scanMsgType_bodyText (Nat.lt_succ_self _)
    have hsame : text.frame.msgType = view.msgTypeChar ↔ ¬ HidesMsgType text.fields := by
      rw [hscan, msgTypeChar_map hview, shownMsgType_eq_iff]
    constructor
    · constructor
      · rintro ⟨f, hf⟩
        exact ((frameDecode_text_iff _ rest).mp hf).1
      · exact fun hplain => ⟨_, frameDecode_text _ hplain rest⟩
    constructor
    · rintro ⟨f, hf, -, htype⟩
      obtain ⟨hplain, rfl⟩ := (frameDecode_text_iff _ rest).mp hf
      exact ⟨hplain, hsame.mp htype⟩
    · rintro ⟨hplain, hshown⟩
      exact ⟨_, frameDecode_text _ hplain rest, htotal.symm, hsame.mpr hshown⟩

end Agreement

/-- A heartbeat whose first tag is written `08`. -/
def sampleLeadingZero : Bytes :=
  [48, 56, 61, 70, 73, 88, 46, 52, 46, 52, 1, 57, 61, 53, 1, 51, 53, 61, 48, 1,
    49, 48, 61, 50, 49, 49, 1]

/-- The heartbeat, taken apart. -/
def sampleText : FieldedText kDefaultMaxBodyLength where
  beginTag := plainEight
  beginString := [70, 73, 88, 46, 52, 46, 52]
  lengthTag := plainNine
  lengthDigits := [53]
  body := [51, 53, 61, 48, 1]
  trailer := [49, 48, 61, 49, 54, 51, 1]
  beginString_clean := by decide +kernel
  lengthDigits_isDigit := fun c hc => by rw [mem_singleton.mp hc]; rfl
  lengthDigits_value := rfl
  body_le := by decide
  trailer_length := rfl
  trailed := ⟨rfl, rfl, 163, by decide +kernel, by decide +kernel⟩
  fields := [⟨35, by decide, ⟨[51, 53], by decide, by decide +kernel, rfl⟩, [48],
    by decide +kernel⟩]
  body_eq := rfl

/-- A heartbeat that both accept. -/
theorem framer_parser_agree_sample :
    ∃ f, frameDecode kDefaultMaxBodyLength sampleHeartbeat = .ok f ∧ f.totalLen = 26 ∧
      f.msgType = 48 :=
  ((framer_parser_agree_iff (by decide +kernel : parse 8 kDefaultMaxBodyLength sampleHeartbeat =
      .ok ⟨[⟨35, [48]⟩], 26, [70, 73, 88, 46, 52, 46, 52]⟩)).2.2 sampleText [] rfl).2.mpr
    ⟨⟨rfl, rfl⟩, (shownMsgType_eq_iff _).mp rfl⟩

/-- The parser accepts a leading zero that the framer calls malformed. -/
theorem framer_refuses_leading_zero :
    parse 8 kDefaultMaxBodyLength sampleLeadingZero =
        .ok ⟨[⟨35, [48]⟩], 27, [70, 73, 88, 46, 52, 46, 52]⟩ ∧
      frameDecode kDefaultMaxBodyLength sampleLeadingZero = .error .kInvalidFormat := by
  decide +kernel

end Eph.Fix
