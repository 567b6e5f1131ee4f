import Ephemeral.HttpHead

/-!
# Well-formed final responses

The text that a server writes as its answer to a request: a status line, header lines that may
have white space around their values, a blank line and the body.  The parser need not accept
it, for it knows neither transfer codings nor bodies that end with the connection; but what it
accepts it reads as it was written, and it accepts no shorter part (`ResponseText.parse_part`).
-/

namespace Eph.Net

open ByteOrder Core List

/-- The body agrees with the status and with the lengths that the header lines give.  The
answer to a HEAD request gives a length and has no body. -/
def FramesBodyOf (status : Nat) (fields : List RawField) (body : Bytes) : Prop :=
  (bodylessStatus status = true → body = []) ∧
    ∀ f ∈ fields, isContentLength f.header = true →
      ∀ n ∈ parseDecimal f.header.value, n = body.length ∨ body = []

/-- The text of a final response. -/
structure ResponseText where
  minor : UInt8
  hundreds : UInt8
  tens : UInt8
  ones : UInt8
  reason : Option Bytes
  fields : List RawField
  body : Bytes
  digits : [minor, hundreds, tens, ones].all isDigitChar = true
  final : 200 ≤ Decimal.value 0 [hundreds, tens, ones]
  oneLine : ∀ text ∈ reason, CR ∉ text ∧ LF ∉ text
  clean : ∀ f ∈ fields, f.Clean
  framed : FramesBodyOf (Decimal.value 0 [hundreds, tens, ones]) fields body

namespace ResponseText

variable (t : ResponseText)

/-- The status code. -/
def status : Nat := Decimal.value 0 [t.hundreds, t.tens, t.ones]

/-- What stands behind the status code. -/
def reasonPart : Bytes :=
  match t.reason with
  | none => []
  | some text => 32 :: text

/-- The status line. -/
def statusLine : Bytes :=
  ascii "HTTP/1." ++ t.minor :: 32 :: t.hundreds :: t.tens :: t.ones :: t.reasonPart

/-- The bytes on the wire. -/
def bytes : Bytes :=
  t.statusLine ++ CR :: LF :: (t.fields.flatMap RawField.text ++ CR :: LF :: t.body)

variable {t : ResponseText} {storage : Nat} {r : ParseResult HttpResponse}

theorem cr_notMem_statusLine (t : ResponseText) : CR ∉ t.statusLine := by
  have hdigit : ∀ d ∈ [t.minor, t.hundreds, t.tens, t.ones], d ≠ CR := by
    rintro d hd rfl
    exact absurd (all_eq_true.mp t.digits _ hd) (by decide)
  simp only [mem_cons, not_mem_nil, or_false, forall_eq_or_imp, forall_eq] at hdigit
  obtain ⟨hminor, hhundreds, htens, hones⟩ := hdigit
  have hreason : CR ∉ t.reasonPart := by
    rw [reasonPart]
    split
    · exact not_mem_nil
    rename_i text htext
    rw [mem_cons, not_or]
    exact ⟨by decide, (t.oneLine text htext).1⟩
  rw [statusLine, mem_append, not_or]
  refine ⟨by decide +kernel, ?_⟩
  simp only [mem_cons, not_or]
  exact ⟨hminor.symm, by decide, hhundreds.symm, htens.symm, hones.symm, hreason⟩

/-- The body that the parser finds is the body that was written, up to the end of the text. -/
theorem frame_whole {st : HeaderParseState} {body : Bytes} {consumed : Nat}
    (hread : HeadRead t.fields t.bytes t.body st)
    (h : frameResponseBody t.bytes t.status st = .ok (some (body, consumed))) :
    body = t.body ∧ consumed = t.bytes.length := by
  have hsize := hread.size
  unfold frameResponseBody at h
  split at h
  · rename_i hbodyless
    cases h
    have hnil : t.body = [] := t.framed.1 hbodyless
    rw [hnil, length_nil] at hsize
    exact ⟨hnil.symm, by omega⟩
  · split at h
    · rename_i n hlength
      split at h
      · cases h
      cases h
      -- some header line gives the length
      obtain ⟨f, hf, hcl⟩ : ∃ f ∈ t.fields, isContentLength f.header = true := by
        by_contra hnone
        push Not at hnone
        rw [hread.undeclared fun f hf => by simpa using hnone f hf] at hlength
        cases hlength
      have hn : n = t.body.length := by
        rcases t.framed.2 f hf hcl n ((hread.declared f hf hcl).trans hlength) with hn | hnil
        · exact hn
        · rw [hnil, length_nil] at hsize ⊢
          omega
      rw [hread.rest, hn, take_length]
      exact ⟨rfl, hsize.symm⟩
    · cases h

/-- What is accepted of the whole text is the response that was written. -/
theorem parse_whole (h : parseHttpResponse t.bytes storage = .ok (some r)) :
    r.consumed = t.bytes.length ∧ r.value.statusCode = t.status ∧
      r.value.headers = t.fields.map RawField.header ∧ r.value.body = t.body := by
  rw [parseHttpResponse_eq] at h
  obtain ⟨start, st, body, hstart, hread, hbody, hvalue⟩ :=
    parseMessage_layout t.cr_notMem_statusLine t.clean rfl h
  have hdigits := t.digits
  rw [all_cons, Bool.and_eq_true] at hdigits
  have hstatus : start.1 = t.status := parseStatusLine_code hdigits.2 hstart
  rw [hstatus] at hbody
  obtain ⟨rfl, hconsumed⟩ := frame_whole hread hbody
  rw [hvalue]
  exact ⟨hconsumed, hstatus, hread.headers, rfl⟩

/-- **No fragments.**  What the parser accepts of the front of a response is all of it. -/
theorem parse_part {p : Bytes} (hp : p <+: t.bytes)
    (h : parseHttpResponse p storage = .ok (some r)) :
    p = t.bytes ∧ r.value.statusCode = t.status ∧
      r.value.headers = t.fields.map RawField.header ∧ r.value.body = t.body := by
  obtain ⟨more, hmore⟩ := hp
  have hwhole := parseHttpResponse_complete_append h more
  rw [hmore] at hwhole
  obtain ⟨hconsumed, hread⟩ := parse_whole hwhole
  obtain ⟨-, -, -, hbound, -⟩ := parseHttpResponse_headEnd h
  refine ⟨?_, hread⟩
  -- The parser has not looked beyond `p`, so nothing is missing.
  rw [hconsumed, ← hmore, length_append] at hbound
  have hnil : more = [] := eq_nil_of_length_eq_zero (by omega)
  rw [← hmore, hnil, append_nil]

end ResponseText

end Eph.Net
