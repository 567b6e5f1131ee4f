import Ephemeral.ChunkedReceive
import Ephemeral.FixText

/-!
# FIX messages that arrive in pieces

A buffer may end anywhere inside a message.  The framer asks for more bytes on every strict part
of a message (`frameDecode_part`), so that a receive loop recovers the messages of a stream
however it is cut (`framing_chunking_invariant`).

The parser does so too, but for one kind of cut: `parse_tag_number` reports failure at the end
of the data and cannot say that the tag may still be coming.  A buffer that ends inside the tag
of BeginString or of BodyLength is called malformed (`parse_part_iff`).
-/

namespace Eph.Fix

open ByteOrder Decimal Core List MessageBuilder

variable {p : Bytes}

/-! ## Parts of a text -/

/-- A part of a delimited value and what follows: the delimiter is not reached, or it is. -/
theorem prefix_delimited {α : Type} {p v rest : List α} {x : α} (h : p <+: v ++ x :: rest) :
    p <+: v ∨ ∃ q, p = v ++ x :: q ∧ q <+: rest := by
  rcases Nat.lt_or_ge v.length p.length with hlong | hshort
  · obtain ⟨q, hq⟩ := prefix_of_prefix_length_le (prefix_append v _) h
      (Nat.le_of_lt hlong)
    subst hq
    have hrest : q <+: x :: rest := (prefix_append_right_inj v).mp h
    cases q with
    | nil => simp at hlong
    | cons y q =>
      obtain ⟨rfl, hq⟩ := cons_prefix_cons.mp hrest
      exact .inr ⟨q, rfl, hq⟩
  · exact .inl (prefix_of_prefix_length_le h (prefix_append v _) hshort)

theorem notMem_of_part {α : Type} {p v : List α} {x : α} (h : p <+: v) (hx : x ∉ v) : x ∉ p :=
  fun hmem => hx (h.subset hmem)

section Parts

variable {maxBodyLength : Nat} (text : MessageText maxBodyLength)

/-- The bytes of a text, field by field. -/
theorem MessageText.bytes_eq :
    text.bytes = text.beginTag.digits ++ 61 :: (text.beginString ++ SOH ::
      (text.lengthTag.digits ++ 61 :: (text.lengthDigits ++ SOH ::
        (text.body ++ text.trailer)))) := by
  rw [MessageText.bytes, MessageText.header, headerText_append]

/-- Where a strict part of a text can end: in the tag or the value of BeginString, in the tag
or the value of BodyLength, or behind the header. -/
theorem MessageText.part_cases (hp : p <+: text.bytes) (hshort : p.length < text.bytes.length) :
    p <+: text.beginTag.digits ∨
    (∃ s, p = text.beginTag.digits ++ 61 :: s ∧ s <+: text.beginString) ∨
    (∃ s, p = text.beginTag.digits ++ 61 :: (text.beginString ++ SOH :: s) ∧
      s <+: text.lengthTag.digits) ∨
    (∃ s, p = text.beginTag.digits ++ 61 :: (text.beginString ++ SOH ::
        (text.lengthTag.digits ++ 61 :: s)) ∧ s <+: text.lengthDigits) ∨
    ∃ r, p = text.header ++ r ∧ r.length < text.body.length + 7 := by
  have hbytes := text.bytes_eq
  rw [hbytes] at hp
  rcases prefix_delimited hp with hone | ⟨p₁, rfl, hp₁⟩
  · exact .inl hone
  rcases prefix_delimited hp₁ with htwo | ⟨p₂, rfl, hp₂⟩
  · exact .inr (.inl ⟨p₁, rfl, htwo⟩)
  rcases prefix_delimited hp₂ with hthree | ⟨p₃, rfl, hp₃⟩
  · exact .inr (.inr (.inl ⟨p₂, rfl, hthree⟩))
  rcases prefix_delimited hp₃ with hfour | ⟨r, rfl, -⟩
  · exact .inr (.inr (.inr (.inl ⟨p₃, rfl, hfour⟩)))
  refine .inr (.inr (.inr (.inr ⟨r, (headerText_append ..).symm, ?_⟩)))
  rw [hbytes] at hshort
  simp only [length_append, length_cons, text.trailer_length] at hshort
  omega

/-- Some of the digits of BodyLength denote no more than all of them. -/
theorem MessageText.lengthDigits_part {s : Bytes} (hs : s <+: text.lengthDigits) :
    (∀ c ∈ s, isDigit c = true) ∧ value 0 s ≤ maxBodyLength := by
  obtain ⟨t, ht⟩ := hs
  have hvalue := text.lengthDigits_value
  have hle := text.body_le
  have hgrow := le_value (value 0 s) t
  rw [← ht, value_append] at hvalue
  refine ⟨fun c hc => text.lengthDigits_isDigit c ?_, by omega⟩
  rw [← ht]
  exact mem_append_left _ hc

/-- **The framer waits for the rest of a message**, wherever the buffer ends. -/
theorem frameDecode_part (hplain : text.PlainTags) (hp : p <+: text.bytes)
    (hshort : p.length < text.bytes.length) :
    frameDecode maxBodyLength p = .error .kIncomplete := by
  have hclean := text.beginString_clean
  obtain hone | ⟨s, rfl, hs⟩ | ⟨s, rfl, hs⟩ | ⟨s, rfl, hs⟩ | ⟨r, rfl, hr⟩ :=
    text.part_cases hp hshort
  · -- inside the tag of BeginString
    have hlength := hone.length_le
    rw [hplain.1, length_singleton] at hlength
    rw [frameDecode, if_pos (by omega)]
  · -- inside BeginString
    rw [hplain.1, singleton_append, frameDecode, if_neg (not_short _ _ _), drop_succ_cons,
      drop_succ_cons, drop_zero, splitSoh_none (notMem_of_part hs hclean)]
    rfl
  · -- inside the tag of BodyLength
    have hlength := hs.length_le
    rw [hplain.2, length_singleton] at hlength
    rw [hplain.1, singleton_append, frameDecode, if_neg (not_short _ _ _), drop_succ_cons,
      drop_succ_cons, drop_zero, splitSoh_append hclean]
    dsimp only
    rw [if_pos (show s.length < 2 by omega)]
    rfl
  · -- inside BodyLength
    obtain ⟨hdigits, hvalue⟩ := text.lengthDigits_part hs
    rw [hplain.1, hplain.2, singleton_append, singleton_append, frameDecode,
      if_neg (not_short _ _ _), drop_succ_cons, drop_succ_cons, drop_zero,
      splitSoh_append hclean]
    dsimp only
    rw [if_neg (not_short _ _ _), drop_succ_cons, drop_succ_cons, drop_zero, ← append_nil s,
      frameBodyLength_append hdigits, bounded_eq hdigits (Nat.zero_le _), if_pos hvalue]
    rfl
  · -- behind the header
    have hheader : text.header = headerText [56] text.beginString [57] text.lengthDigits := by
      rw [MessageText.header, hplain.1, hplain.2]
    rw [hheader, frameDecode_header hclean text.lengthDigits_isDigit, text.bounded_lengthDigits]
    exact frameBody_short hr

end Parts

/-! ## The receive loop -/

/-- `FixFramer::decode` as a receive loop uses it: it waits while a message is incomplete. -/
def fixDecoder (maxBodyLength : Nat) : Decoder UInt8 DecodedFrame FrameError := fun data =>
  match frameDecode maxBodyLength data with
  | .ok f => .ok (some (f, f.totalLen))
  | .error .kIncomplete => .ok none
  | .error e => .error e

section Receive

variable {maxBodyLength : Nat}

/-- The text of a message announces its own end. -/
theorem fixDecoder_delimits {text : MessageText maxBodyLength} (hplain : text.PlainTags) :
    (fixDecoder maxBodyLength).Delimits text.bytes text.frame where
  pos := by
    rw [text.length_bytes]
    omega
  whole := by
    intro rest
    rw [fixDecoder, frameDecode_text text hplain rest]
    rfl
  part := by
    intro n hn
    rw [fixDecoder, frameDecode_part text hplain (List.take_prefix n _)
      (by rw [length_take]; omega)]

/-- **FIX framing does not depend on how the stream is cut.**  Where the framer reports a
message, it waits on every strict part of it and reports the same with any bytes behind it.  A
receive loop recovers the messages of a stream from any division of it into chunks. -/
theorem framing_chunking_invariant (maxBodyLength : Nat) :
    (∀ data f, frameDecode maxBodyLength data = .ok f →
      (∀ n, n < f.totalLen → frameDecode maxBodyLength (data.take n) = .error .kIncomplete) ∧
      (∀ more, frameDecode maxBodyLength (data ++ more) = .ok f) ∧
      ∀ more, frameDecode maxBodyLength (data.take f.totalLen ++ more) = .ok f) ∧
    ∀ messages : List (Bytes × DecodedFrame),
      (∀ m ∈ messages, frameDecode maxBodyLength m.1 = .ok m.2 ∧ m.2.totalLen = m.1.length) →
      ∀ chunks : List Bytes, chunks.flatten = (messages.map Prod.fst).flatten →
        Receiver.receive (fixDecoder maxBodyLength) chunks =
          ⟨[], messages.map Prod.snd, none⟩ := by
  constructor
  · intro data f h
    obtain ⟨text, rest, hplain, rfl, rfl⟩ := frameDecode_inv h
    have htake : (text.bytes ++ rest).take text.frame.totalLen = text.bytes := take_left' rfl
    refine ⟨?_, ?_, ?_⟩
    · intro n hn
      have hn' : n < text.bytes.length := hn
      rw [take_append_of_le_length (Nat.le_of_lt hn')]
      exact frameDecode_part text hplain (List.take_prefix n _) (by rw [length_take]; omega)
    · intro more
      rw [append_assoc]
      exact frameDecode_text text hplain _
    · intro more
      rw [htake]
      exact frameDecode_text text hplain more
  · intro messages h chunks hchunks
    refine Receiver.receive_delimited ?_ hchunks
    intro m hm
    obtain ⟨hframe, hlength⟩ := h m hm
    obtain ⟨text, rest, hplain, hdata, hf⟩ := frameDecode_inv hframe
    -- the message is as long as its bytes, so nothing follows the text
    obtain rfl : rest = [] := by
      have htotal : text.frame.totalLen = text.bytes.length := rfl
      rw [hf, hdata, length_append, htotal] at hlength
      exact length_eq_zero_iff.mp (by omega)
    rw [hdata, append_nil, hf]
    exact fixDecoder_delimits hplain

/-- A heartbeat. -/
def sampleHeartbeat : Bytes :=
  [56, 61, 70, 73, 88, 46, 52, 46, 52, 1, 57, 61, 53, 1, 51, 53, 61, 48, 1,
    49, 48, 61, 49, 54, 51, 1]

/-- A logon. -/
def sampleLogon : Bytes :=
  [56, 61, 70, 73, 88, 46, 52, 46, 52, 1, 57, 61, 53, 1, 51, 53, 61, 65, 1,
    49, 48, 61, 49, 56, 48, 1]

/-- A logon and a heartbeat, cut inside the tag of BodyLength and inside a CheckSum field. -/
theorem framing_chunking_sample :
    Receiver.receive (fixDecoder kDefaultMaxBodyLength)
        [sampleLogon.take 11, sampleLogon.drop 11 ++ sampleHeartbeat.take 24,
          sampleHeartbeat.drop 24] =
      ⟨[], [⟨sampleLogon, 65, 26⟩, ⟨sampleHeartbeat, 48, 26⟩], none⟩ ∧
    frameDecode kDefaultMaxBodyLength (sampleLogon.take 11) = .error .kIncomplete :=
  ⟨(framing_chunking_invariant kDefaultMaxBodyLength).2
      [(sampleLogon, ⟨sampleLogon, 65, 26⟩), (sampleHeartbeat, ⟨sampleHeartbeat, 48, 26⟩)]
      (by decide +kernel) _ (by decide +kernel),
    ((framing_chunking_invariant kDefaultMaxBodyLength).1 sampleLogon ⟨sampleLogon, 65, 26⟩
      (by decide +kernel)).1 11 (by decide)⟩

end Receive

/-! ## The parser on a part of a message -/

/-- The buffer ends inside the tag of its first or of its second field. -/
def EndsInHeaderTag (p : Bytes) : Prop :=
  (p ≠ [] ∧ 61 ∉ p) ∨ ∃ r ∈ splitSoh p, r.2 ≠ [] ∧ 61 ∉ r.2

instance (p : Bytes) : Decidable (EndsInHeaderTag p) := inferInstanceAs (Decidable (_ ∨ _))

section Parser

variable {maxFields maxBodyLength : Nat}

theorem Numeral.equals_notMem {n : Nat} (tag : Numeral n) : 61 ∉ tag.digits :=
  notMem_of_digits tag.isDigit (by decide)

/-- The first field, with its tag, is free of delimiters where its value is. -/
theorem Numeral.soh_notMem_field {n : Nat} (tag : Numeral n) {v : Bytes} (hv : SOH ∉ v) :
    SOH ∉ tag.digits ++ 61 :: v := by
  rw [mem_append, mem_cons, not_or, not_or]
  exact ⟨notMem_of_digits tag.isDigit soh_not_digit, by decide, hv⟩

private theorem nonempty_field (v q : Bytes) : List.isEmpty (v ++ 61 :: q) = false := by
  cases v <;> rfl

/-- The parser behind the tag of BeginString. -/
private theorem parse_first (tag : Numeral 8) (q : Bytes) :
    parse maxFields maxBodyLength (tag.digits ++ 61 :: q) =
      match splitSoh q with
      | none => .error .kIncomplete
      | some (beginString, p) =>
        if p.isEmpty then .error .kIncomplete
        else if (parseTagNumber p).1 != 9 then .error .kInvalidFormat
        else
          match splitSoh (parseTagNumber p).2 with
          | none => .error .kIncomplete
          | some (digits, r) =>
            match parseBodyLength maxBodyLength 0 digits with
            | none => .error .kInvalidFormat
            | some n => parseBody maxFields (tag.digits ++ 61 :: q) beginString r n := by
  have htag := @parseTagNumber_numeral 8 tag q
  rw [parse, nonempty_field, htag]
  rfl

/-- **What the parser says of a part of a message**: that it is incomplete, unless the part ends
inside one of the two tags of the header. -/
theorem parse_part_iff {text : MessageText maxBodyLength} (hp : p <+: text.bytes)
    (hshort : p.length < text.bytes.length) :
    parse maxFields maxBodyLength p = .error .kIncomplete ↔ ¬ EndsInHeaderTag p := by
  have hclean := text.beginString_clean
  have hequals : ∀ q, 61 ∈ text.beginTag.digits ++ 61 :: q := fun q =>
    mem_append_right _ mem_cons_self
  have hfield : SOH ∉ text.beginTag.digits ++ 61 :: text.beginString :=
    text.beginTag.soh_notMem_field hclean
  have hsecond : ∀ q, EndsInHeaderTag
      (text.beginTag.digits ++ 61 :: (text.beginString ++ SOH :: q)) ↔ q ≠ [] ∧ 61 ∉ q := by
    intro q
    rw [← cons_append, ← append_assoc, EndsInHeaderTag, splitSoh_append hfield]
    constructor
    · rintro (⟨-, hfirst⟩ | ⟨r, hr, hsecond⟩)
      · exact absurd (mem_append_left _ (hequals _)) hfirst
      · cases hr
        exact hsecond
    · exact fun h => .inr ⟨_, rfl, h⟩
  obtain hone | ⟨s, rfl, hs⟩ | ⟨s, rfl, hs⟩ | ⟨s, rfl, hs⟩ | ⟨r, rfl, hr⟩ :=
    text.part_cases hp hshort
  · -- inside the tag of BeginString
    have hnone := notMem_of_part hone text.beginTag.equals_notMem
    by_cases hempty : p = []
    · subst hempty
      exact iff_of_true rfl (by decide)
    · rw [parse, if_neg (by simpa using hempty)]
      dsimp only
      rw [parseTagNumber_unfinished hnone]
      exact iff_of_false (by rintro ⟨⟩) (fun h => h (.inl ⟨hempty, hnone⟩))
  · -- inside BeginString
    have hs' := notMem_of_part hs hclean
    rw [parse_first, splitSoh_none hs']
    refine iff_of_true rfl ?_
    rintro (⟨-, hfirst⟩ | ⟨r, hr, -⟩)
    · exact hfirst (hequals s)
    · rw [splitSoh_none (text.beginTag.soh_notMem_field hs')] at hr
      cases hr
  · -- inside the tag of BodyLength
    have hnone := notMem_of_part hs text.lengthTag.equals_notMem
    rw [parse_first, splitSoh_append hclean, hsecond]
    by_cases hempty : s = []
    · subst hempty
      exact iff_of_true rfl (fun h => h.1 rfl)
    · dsimp only
      rw [if_neg (by simpa using hempty), parseTagNumber_unfinished hnone]
      exact iff_of_false (by rintro ⟨⟩) (fun h => h ⟨hempty, hnone⟩)
  · -- inside BodyLength
    have hsoh : SOH ∉ s := notMem_of_part hs
      (notMem_of_digits text.lengthDigits_isDigit soh_not_digit)
    have htag := @parseTagNumber_numeral 9 text.lengthTag s
    rw [parse_first, splitSoh_append hclean, hsecond]
    dsimp only
    rw [nonempty_field, htag]
    rw [splitSoh_none hsoh]
    exact iff_of_true rfl (fun h => h.2 (mem_append_right _ mem_cons_self))
  · -- behind the header
    have hheader := headerText_append text.beginTag.digits text.beginString
      text.lengthTag.digits text.lengthDigits r
    have hparse : parse maxFields maxBodyLength (text.header ++ r) = .error .kIncomplete := by
      rw [MessageText.header, parse_header text.beginTag text.lengthTag hclean
        text.lengthDigits_isDigit, text.bounded_lengthDigits]
      exact parseBody_short hr
    refine iff_of_true hparse ?_
    rw [MessageText.header, hheader, hsecond]
    exact fun h => h.2 (mem_append_right _ mem_cons_self)

/-- **The parser tells incomplete from malformed exactly where the buffer does not end inside a
tag of the header.**  On a strict part of a message it accepts, it asks for more bytes if and
only if the part does not end in the tag of BeginString or of BodyLength. -/
theorem parse_incomplete_iff {data : Bytes} {view : MessageView}
    (h : parse maxFields maxBodyLength data = .ok view) {n : Nat} (hn : n < view.totalLen) :
    parse maxFields maxBodyLength (data.take n) = .error .kIncomplete ↔
      ¬ EndsInHeaderTag (data.take n) := by
  obtain ⟨text, rest, rfl⟩ := parse_inv h
  have htotal := ((parse_text text rest).mp h).2.1
  rw [htotal] at hn
  rw [take_append_of_le_length (Nat.le_of_lt hn)]
  exact parse_part_iff (List.take_prefix n _) (by rw [length_take]; omega)

/-- A logon cut behind the tag of BodyLength. -/
theorem parse_incomplete_logon :
    parse 8 kDefaultMaxBodyLength (sampleLogon.take 12) = .error .kIncomplete :=
  (parse_incomplete_iff (by decide +kernel : parse 8 kDefaultMaxBodyLength sampleLogon =
    .ok ⟨[⟨35, [65]⟩], 26, [70, 73, 88, 46, 52, 46, 52]⟩) (by decide)).mpr (by decide +kernel)

/-- The first byte of a logon alone, and its bytes up to the 9 of BodyLength, are called
malformed. -/
theorem parse_tag_cut_malformed :
    parse 8 kDefaultMaxBodyLength sampleLogon =
        .ok ⟨[⟨35, [65]⟩], 26, [70, 73, 88, 46, 52, 46, 52]⟩ ∧
      parse 8 kDefaultMaxBodyLength (sampleLogon.take 1) = .error .kInvalidFormat ∧
      parse 8 kDefaultMaxBodyLength (sampleLogon.take 11) = .error .kInvalidFormat := by
  decide +kernel

end Parser

end Eph.Fix
