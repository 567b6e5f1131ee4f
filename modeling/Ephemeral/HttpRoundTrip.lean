import Ephemeral.Http

/-!
# Building an HTTP request and parsing it again

The builder refuses what could be taken for something else: a method that is not a
token, white space and line ends in the target, header names that are not tokens, line
ends in header values.  What it writes is therefore read back line by line.  If the
parser accepts the bytes, with anything behind them, it has found the method, the
target and the headers that were given, and the body where the headers say it is
(`http_request_injection_free`).
-/

namespace Eph.Net

open ByteOrder Core List

variable {s : Bytes}

/-! ## Written lines -/

/-- A CR LF behind text without CR is the first one. -/
theorem findCrlf_line {line : Bytes} (hcr : CR ∉ line) (rest : Bytes) :
    findCrlf (line ++ CR :: LF :: rest) = some line.length := by
  rw [findCrlf_iff]
  induction line with
  | nil => exact .here rest
  | cons a line ih =>
    rw [mem_cons, not_or] at hcr
    have htail := ih hcr.2
    cases line with
    | nil | cons b line => exact .later (fun h => hcr.1 h.1.symm) htail

/-- Short of its end, no CR LF is found. -/
theorem findCrlf_take_none {buf : Bytes} {i n : Nat} (h : findCrlf buf = some i)
    (hn : n < i + 2) : findCrlf (buf.take n) = none := by
  cases hfind : findCrlf (buf.take n) with
  | none => rfl
  | some j =>
    have hbound := findCrlf_bound hfind
    have hwhole := findCrlf_append hfind (buf.drop n)
    rw [take_append_drop, h] at hwhole
    cases hwhole
    rw [length_take] at hbound
    omega

/-- What is found in a window is found in the buffer. -/
theorem findCrlf_window {buf : Bytes} {i k : Nat} (h : findCrlf (buf.take k) = some i) :
    findCrlf buf = some i := by
  have happend := findCrlf_append h (buf.drop k)
  rwa [take_append_drop] at happend

/-- With the CR LF in it, a part of the buffer is enough to find it. -/
theorem findCrlf_take_some {buf : Bytes} {i n : Nat} (h : findCrlf buf = some i)
    (hn : i + 2 ≤ n) : findCrlf (buf.take n) = some i := by
  rw [findCrlf_iff] at h ⊢
  induction h generalizing n with
  | here rest =>
    obtain ⟨m, rfl⟩ := Nat.exists_eq_add_of_le' hn
    exact .here _
  | later hnot _ ih =>
    obtain ⟨m, rfl⟩ : ∃ m, n = m + 2 := ⟨n - 2, by omega⟩
    exact .later hnot (ih (n := m + 1) (by omega))

/-- **A written line is scanned** as it was written, unless it is too long. -/
theorem scanLine_written {line : Bytes} (hne : line ≠ []) (hcr : CR ∉ line) (hlf : LF ∉ line)
    (rest : Bytes) :
    scanLine (line ++ CR :: LF :: rest) =
      if line.length > kMaxHeaderLineLength then
        .error ⟨.codecOverflow, "header line exceeds max length"⟩
      else .ok (.line line rest) := by
  have hfind := findCrlf_line hcr rest
  have htake : (line ++ CR :: LF :: rest).take line.length = line := take_left
  have hdrop : (line ++ CR :: LF :: rest).drop (line.length + 2) = rest := by
    rw [← drop_drop, drop_left]
    rfl
  obtain ⟨c, tail, rfl⟩ := exists_cons_of_ne_nil hne
  have hc : c ≠ CR := fun h => hcr (h ▸ mem_cons_self)
  have hl : c ≠ LF := fun h => hlf (h ▸ mem_cons_self)
  rw [cons_append] at hfind htake hdrop ⊢
  rw [scanLine_text hc hl]
  by_cases hlong : (c :: tail).length > kMaxHeaderLineLength
  · rw [if_pos hlong, findCrlf_take_none hfind (by omega)]
    rw [if_pos (by rw [← cons_append, length_append]; omega)]
  · rw [if_neg hlong, findCrlf_take_some hfind (by omega)]
    dsimp only
    rw [htake, hdrop, if_neg (by simpa using hlf)]

/-! ## Written headers -/

theorem tchar_ne (hs : isValidToken s = true) {d : UInt8} (hd : isTchar d = false) : d ∉ s := by
  intro hmem
  rw [isValidToken, Bool.and_eq_true, all_eq_true] at hs
  rw [hs.2 d hmem] at hd
  cases hd

/-- Text up to a delimiter that it does not hold. -/
theorem takeWhile_delimited {text : Bytes} {d : UInt8} (hd : d ∉ text) (rest : Bytes) :
    (text ++ d :: rest).takeWhile (· != d) = text ∧
      (text ++ d :: rest).dropWhile (· != d) = d :: rest := by
  have hall : ∀ c ∈ text, (c != d) = true := by
    intro c hc
    rw [bne_iff_ne]
    rintro rfl
    exact hd hc
  have hstop : ¬ (d != d) = true := by simp
  constructor
  · rw [takeWhile_append_of_pos hall, takeWhile_cons, if_neg hstop, append_nil]
  · rw [dropWhile_append_of_pos hall, dropWhile_cons, if_neg hstop]

/-- A name without white space is not trimmed. -/
theorem trimFieldName_of_no_ows {name : Bytes} (h : ∀ c ∈ name, isOws c = false) :
    trimFieldName name = name := by
  unfold trimFieldName
  have hself : name.reverse.dropWhile isOws = name.reverse := by
    cases hrev : name.reverse with
    | nil => rfl
    | cons c tail =>
      have hc : c ∈ name := by
        rw [← mem_reverse, hrev]
        exact mem_cons_self
      rw [dropWhile_cons, if_neg (by rw [h c hc]; exact Bool.false_ne_true)]
  rw [hself, reverse_reverse]

/-- Does the header give the length of the body? -/
def isContentLength (h : HttpHeader) : Bool :=
  iequal h.name (ascii "Content-Length")

/-- A header line as it comes over the wire: the value may have white space around it. -/
structure RawField where
  name : Bytes
  raw : Bytes
  deriving DecidableEq

open RawField

namespace RawField

/-- The line. -/
def line (f : RawField) : Bytes := f.name ++ 58 :: f.raw

/-- The line and its end. -/
def text (f : RawField) : Bytes := f.line ++ [CR, LF]

/-- The header that the line says. -/
def header (f : RawField) : HttpHeader := ⟨f.name, trimOws f.raw⟩

/-- The name is a name, and nothing ends the line early. -/
def Clean (f : RawField) : Prop := isValidToken f.name = true ∧ CR ∉ f.raw ∧ LF ∉ f.raw

instance (f : RawField) : Decidable f.Clean := inferInstanceAs (Decidable (_ ∧ _))

theorem Clean.line_clean {f : RawField} (h : f.Clean) :
    f.line ≠ [] ∧ CR ∉ f.line ∧ LF ∉ f.line := by
  obtain ⟨hname, hcr, hlf⟩ := h
  refine ⟨append_ne_nil_of_left_ne_nil (by rintro h; rw [h] at hname; cases hname) _, ?_, ?_⟩
  · rw [line, mem_append, mem_cons]
    rintro (h₁ | h₁ | h₁)
    · exact tchar_ne hname (by decide) h₁
    · revert h₁
      decide
    · exact hcr h₁
  · rw [line, mem_append, mem_cons]
    rintro (h₁ | h₁ | h₁)
    · exact tchar_ne hname (by decide) h₁
    · revert h₁
      decide
    · exact hlf h₁

end RawField

/-- **A header line is read**, with the white space around its value removed.  A Content-Length
must be a number, and agree with the one before it; a Transfer-Encoding is not accepted. -/
theorem headerField_line {f : RawField} {header : HttpHeader} (hname : isValidToken f.name = true)
    {cl cl' : Option Nat} (hfield : headerField f.line cl = .ok (header, cl')) :
    header = f.header ∧ iequal f.name (ascii "Transfer-Encoding") = false ∧
      if isContentLength f.header then
        parseDecimal f.header.value = cl' ∧ cl'.isSome ∧ (cl = none ∨ cl' = cl)
      else cl' = cl := by
  have hcolon : (58 : UInt8) ∉ f.name := tchar_ne hname (by decide)
  obtain ⟨htake, hdrop⟩ := takeWhile_delimited hcolon f.raw
  have htrim : trimFieldName f.name = f.name := by
    apply trimFieldName_of_no_ows
    intro c hc
    by_contra hows
    rw [Bool.not_eq_false, isOws, Bool.or_eq_true, beq_iff_eq, beq_iff_eq] at hows
    rcases hows with rfl | rfl
    · exact tchar_ne hname (by decide) hc
    · exact tchar_ne hname (by decide) hc
  rw [line, headerField, hdrop] at hfield
  dsimp only at hfield
  rw [htake, htrim] at hfield
  unfold isContentLength RawField.header
  split_ifs at hfield with _ _ hte hcl
  · rw [if_pos hcl]
    refine (fun hrest => ⟨hrest.1, by simpa using hte, hrest.2⟩ :
      header = ⟨f.name, trimOws f.raw⟩ ∧ (parseDecimal (trimOws f.raw) = cl' ∧ cl'.isSome ∧
        (cl = none ∨ cl' = cl)) → _) ?_
    cases hnum : parseDecimal (trimOws f.raw) with
    | none =>
      rw [hnum] at hfield
      cases hfield
    | some n =>
      rw [hnum] at hfield
      dsimp only at hfield
      split_ifs at hfield
      cases cl with
      | none =>
        cases hfield
        exact ⟨rfl, rfl, rfl, .inl rfl⟩
      | some first =>
        dsimp only at hfield
        split_ifs at hfield with hsame
        cases hfield
        rw [ne_eq, not_not] at hsame
        exact ⟨rfl, by rw [hsame], rfl, .inr rfl⟩
  · rw [if_neg hcl]
    cases hfield
    exact ⟨rfl, by simpa using hte, rfl⟩

/-- The builder lets no line end into a value. -/
theorem value_safe (h : builderRejectUnsafeValue s = false) : CR ∉ s ∧ LF ∉ s := by
  rw [builderRejectUnsafeValue, any_eq_false] at h
  constructor
  · intro hmem
    exact h CR hmem rfl
  · intro hmem
    exact h LF hmem rfl

/-- A block of header lines: if the parser accepts it, it has found the headers, none of them is a
Transfer-Encoding, and the block ends where it was ended. -/
theorem parseHeaderBlock_fields {fields : List RawField} (hclean : ∀ f ∈ fields, f.Clean)
    {free pos : Nat} {tail : Bytes} {found : List HttpHeader} {cl : Option Nat}
    {st : HeaderParseState}
    (hparse : AcceptedBlock st free pos (fields.flatMap text ++ CR :: LF :: tail) found cl) :
    st.headers = found ++ fields.map header ∧
      st.headerBlockEnd = pos + (fields.flatMap text).length + 2 ∧
      (cl.isSome → st.contentLength = cl) ∧
      (∀ f ∈ fields, isContentLength f.header = true →
        parseDecimal f.header.value = st.contentLength) ∧
      ((∀ f ∈ fields, isContentLength f.header = false) → st.contentLength = cl) ∧
      ∀ f ∈ fields, iequal f.name (ascii "Transfer-Encoding") = false := by
  induction fields generalizing free pos found cl with
  | nil =>
    rw [flatMap_nil, nil_append] at hparse
    cases hparse with
    | blank _ hst =>
      rw [hst]
      exact ⟨(append_nil _).symm, rfl, fun _ => rfl, fun f hmem => (nomatch hmem),
        fun _ => rfl, fun f hmem => (nomatch hmem)⟩
    | line hscan _ _ => cases hscan
  | cons f fields ih =>
    have hf := hclean f mem_cons_self
    obtain ⟨hne, hcr, hlf⟩ := hf.line_clean
    have hbytes : (f :: fields).flatMap text ++ CR :: LF :: tail =
        f.line ++ CR :: LF :: (fields.flatMap text ++ CR :: LF :: tail) := by
      rw [flatMap_cons, text]
      simp only [append_assoc, cons_append, nil_append]
    rw [hbytes] at hparse
    have hscan := scanLine_written hne hcr hlf (fields.flatMap text ++ CR :: LF :: tail)
    by_cases hlong : f.line.length > kMaxHeaderLineLength
    · rw [if_pos hlong] at hscan
      cases hparse with
      | blank hblank _ => rw [hscan] at hblank; cases hblank
      | line hline' _ _ => rw [hscan] at hline'; cases hline'
    rw [if_neg hlong] at hscan
    cases hparse with
    | blank hblank _ => rw [hscan] at hblank; cases hblank
    | line hscan' hfield hrest =>
      rw [hscan] at hscan'
      cases hscan'
      obtain ⟨rfl, hte, hlength⟩ := headerField_line hf.1 hfield
      obtain ⟨hheaders, hend, hkept, hdeclared, hnone, hcoded⟩ := ih
        (fun f' hf' => hclean f' (mem_cons_of_mem f hf')) hrest
      refine ⟨?_, ?_, ?_, ?_, ?_, ?_⟩
      · rw [hheaders, append_assoc]
        rfl
      · rw [hend, flatMap_cons, length_append, text, length_append]
        simp only [length_cons, length_nil]
        omega
      · intro hsome
        by_cases hcl : isContentLength f.header = true
        · rw [if_pos hcl] at hlength
          rcases hlength.2.2 with hnil | hsame
          · rw [hnil] at hsome
            cases hsome
          · rw [hkept hlength.2.1, hsame]
        · rw [if_neg hcl] at hlength
          rw [← hlength] at hsome ⊢
          exact hkept hsome
      · intro f' hmem hcl
        rcases mem_cons.mp hmem with rfl | hmem
        · rw [if_pos hcl] at hlength
          rw [hlength.1, hkept hlength.2.1]
        · exact hdeclared f' hmem hcl
      · intro hcl
        rw [if_neg (by rw [hcl f mem_cons_self]; exact Bool.false_ne_true)] at hlength
        rw [hnone fun f' hmem => hcl f' (mem_cons_of_mem f hmem), hlength]
      · exact forall_mem_cons.mpr ⟨hte, hcoded⟩

/-- What the parser has made of a head with the given header lines, when `behind` follows it. -/
structure HeadRead (fields : List RawField) (whole behind : Bytes) (st : HeaderParseState) :
    Prop where
  headers : st.headers = fields.map header
  size : whole.length = st.headerBlockEnd + behind.length
  rest : whole.drop st.headerBlockEnd = behind
  declared : ∀ f ∈ fields, isContentLength f.header = true →
    parseDecimal f.header.value = st.contentLength
  undeclared : (∀ f ∈ fields, isContentLength f.header = false) → st.contentLength = none
  uncoded : ∀ f ∈ fields, iequal f.name (ascii "Transfer-Encoding") = false

section Layout

variable {σ α : Type} {tooLong : ErrorInfo} {startLine : Bytes → Except ErrorInfo σ}
  {frameBody : Bytes → σ → HeaderParseState → Except ErrorInfo (Option (Bytes × Nat))}
  {message : σ → List HttpHeader → Bytes → α}

/-- A message that is laid out as a start line, header lines and a blank line is read that way
if it is accepted. -/
theorem parseMessage_layout {line behind whole : Bytes} {fields : List RawField} {storage : Nat}
    {r : ParseResult α} (hcr : CR ∉ line) (hclean : ∀ f ∈ fields, f.Clean)
    (hwhole : whole = line ++ CR :: LF :: (fields.flatMap text ++ CR :: LF :: behind))
    (h : parseMessage tooLong startLine frameBody message whole storage = .ok (some r)) :
    ∃ start st body, startLine line = .ok start ∧ HeadRead fields whole behind st ∧
      frameBody whole start st = .ok (some (body, r.consumed)) ∧
      r.value = message start st.headers body := by
  obtain ⟨crlf, start, st, body, hfind, hstart, hblock, hbody, hvalue⟩ := parseMessage_inv h
  -- The start line ends where it was ended.
  have hcrlf : crlf = line.length := by
    have hfirst := findCrlf_line hcr (fields.flatMap text ++ CR :: LF :: behind)
    rw [← hwhole, findCrlf_window hfind] at hfirst
    exact Option.some.inj hfirst
  subst hcrlf
  have htake : whole.take line.length = line := by
    rw [hwhole, take_left]
  have hdrop : whole.drop (line.length + 2) =
      fields.flatMap text ++ CR :: LF :: behind := by
    rw [hwhole, ← drop_drop, drop_left]
    rfl
  rw [htake] at hstart
  -- So does the header block.
  rw [hdrop] at hblock
  obtain ⟨hheaders, hend, -, hdeclared, hnone, hcoded⟩ :=
    parseHeaderBlock_fields hclean (acceptedBlock_of_parse hblock)
  refine ⟨start, st, body, hstart, ⟨hheaders, ?_, ?_, hdeclared, hnone, hcoded⟩, hbody, hvalue⟩
  · rw [hwhole, hend]
    simp only [length_append, length_cons]
    omega
  · rw [hend, Nat.add_assoc (line.length + 2), ← drop_drop, hdrop, ← drop_drop, drop_left]
    rfl

end Layout

/-- The line that the builder writes for a header. -/
def HttpHeader.written (h : HttpHeader) : RawField := ⟨h.name, 32 :: h.value⟩

theorem headerLine_eq (h : HttpHeader) : headerLine h = h.written.text := by
  unfold headerLine text line HttpHeader.written
  rw [append_assoc h.name]
  rfl

theorem flatMap_headerLine (headers : List HttpHeader) :
    headers.flatMap headerLine = (headers.map HttpHeader.written).flatMap text := by
  rw [flatMap_map]
  exact congrArg (List.flatMap · headers) (funext headerLine_eq)

/-! ## The whole request -/

/-- The builder lets no white space into a target. -/
theorem target_safe (h : builderRejectUnsafeToken s = false) : CR ∉ s ∧ (32 : UInt8) ∉ s := by
  rw [builderRejectUnsafeToken, any_eq_false] at h
  constructor
  · intro hmem
    exact h CR hmem rfl
  · intro hmem
    exact h 32 hmem rfl

/-- The request line that the builder writes. -/
def requestLine (method target : Bytes) : Bytes :=
  method ++ ascii " " ++ target ++ ascii " HTTP/1.1"

theorem parseRequestLine_written {method target : Bytes} (hmethod : isValidToken method = true)
    (htarget : builderRejectUnsafeToken target = false) {start : Bytes × Bytes × UInt8}
    (h : parseRequestLine (requestLine method target) = .ok start) :
    start = (method, target, 1) := by
  have hline : requestLine method target = method ++ 32 :: (target ++ 32 :: ascii "HTTP/1.1") := by
    simp only [requestLine, append_assoc]
    rfl
  obtain ⟨htake, hdrop⟩ := takeWhile_delimited (tchar_ne hmethod (d := 32) (by decide))
    (target ++ 32 :: ascii "HTTP/1.1")
  obtain ⟨htake', hdrop'⟩ := takeWhile_delimited (target_safe htarget).2 (ascii "HTTP/1.1")
  rw [hline, parseRequestLine, hdrop] at h
  dsimp only at h
  rw [hdrop'] at h
  rw [htake, htake'] at h
  split_ifs at h
  exact (Except.ok.inj h).symm

/-- The headers describe the body: one of them gives its length and none a transfer
coding, or there is no body and neither header. -/
def DescribesBody (headers : List HttpHeader) (body : Bytes) : Prop :=
  (∀ h ∈ headers, iequal h.name (ascii "Transfer-Encoding") = false) ∧
    ((∃ h ∈ headers, isContentLength h = true ∧ parseDecimal (trimOws h.value) = some body.length) ∨
      body = [] ∧ ∀ h ∈ headers, isContentLength h = false)

section

variable {cap : Nat} {method target body text : Bytes} {headers : List HttpHeader}
  (h : buildHttpRequest cap method target headers body = .ok text)

include h

/-- What the builder has written, and what it has checked. -/
theorem buildHttpRequest_inv :
    isValidToken method = true ∧ builderRejectUnsafeToken target = false ∧
      (∀ h ∈ headers, isValidToken h.name = true ∧ builderRejectUnsafeValue h.value = false) ∧
      text = requestLine method target ++ CR :: LF ::
        (headers.flatMap headerLine ++ CR :: LF :: body) := by
  unfold buildHttpRequest at h
  split_ifs at h with hmethod htarget
  split at h
  · cases h
  rename_i hheaders
  dsimp only at h
  split_ifs at h
  cases h
  refine ⟨by simpa using hmethod, ?_, ?_, ?_⟩
  · simp only [Bool.or_eq_true, not_or, Bool.not_eq_true] at htarget
    exact htarget.2
  · unfold validateBuilderHeaders at hheaders
    split_ifs at hheaders
    intro h hmem
    have hnone := findSome?_eq_none_iff.mp hheaders h hmem
    unfold validateBuilderHeader at hnone
    split_ifs at hnone with hname hval
    exact ⟨by simpa using hname, by simpa using hval⟩
  · simp only [requestLine, append_assoc, cons_append, nil_append]

theorem buildHttpRequest_length_pos : 0 < text.length := by
  rw [(buildHttpRequest_inv h).2.2.2, length_append, length_cons]
  omega

end

/-- **Injection-free.**  If the parser accepts what the builder has written, followed by
anything, it takes exactly that, and finds the method, the target, the headers and the
body that the builder was given. -/
theorem http_request_injection_free {cap storage : Nat} {method target body text rest : Bytes}
    {headers : List HttpHeader} {r : ParseResult HttpRequest}
    (hbuild : buildHttpRequest cap method target headers body = .ok text)
    (hframed : DescribesBody headers body)
    (hparse : parseHttpRequest (text ++ rest) storage = .ok (some r)) :
    r.consumed = text.length ∧
      r.value = ⟨method, target, 1, headers.map fun h => ⟨h.name, trimOws h.value⟩, body⟩ := by
  obtain ⟨hmethod, htarget, hheaders, htext⟩ := buildHttpRequest_inv hbuild
  have hwhole : text ++ rest = requestLine method target ++ CR :: LF ::
      ((headers.map HttpHeader.written).flatMap RawField.text ++ CR :: LF :: (body ++ rest)) := by
    rw [htext, flatMap_headerLine]
    simp only [append_assoc, cons_append]
  have hcr : CR ∉ requestLine method target := by
    rw [requestLine]
    simp only [mem_append, not_or]
    exact ⟨⟨⟨tchar_ne hmethod (by decide), by decide⟩, (target_safe htarget).1⟩, by decide⟩
  have hclean : ∀ f ∈ headers.map HttpHeader.written, f.Clean := by
    intro f hf
    obtain ⟨h, hmem, rfl⟩ := mem_map.mp hf
    obtain ⟨hname, hvalue⟩ := hheaders h hmem
    have hsafe := value_safe hvalue
    exact ⟨hname, by simpa [HttpHeader.written, CR] using hsafe.1,
      by simpa [HttpHeader.written, LF] using hsafe.2⟩
  obtain ⟨start, st, found, hstart, hread, hbody, hvalue⟩ :=
    parseMessage_layout hcr hclean hwhole hparse
  obtain rfl := parseRequestLine_written hmethod htarget hstart
  have hfound : st.headers = headers.map fun h => ⟨h.name, trimOws h.value⟩ := by
    rw [hread.headers, map_map]
    rfl
  have hsize := hread.size
  rw [length_append, length_append] at hsize
  -- What the headers say of the body is what the parser goes by.
  have hframe : found = body ∧ r.consumed = st.headerBlockEnd + body.length := by
    unfold frameRequestBody at hbody
    rcases hframed.2 with ⟨h, hmem, hname, hval⟩ | ⟨hempty, hother⟩
    · have hlength : st.contentLength = some body.length :=
        (hread.declared h.written (mem_map_of_mem hmem) hname).symm.trans hval
      rw [hlength] at hbody
      dsimp only at hbody
      rw [if_neg (by rw [length_append]; omega), hread.rest, take_left] at hbody
      simp only [Except.ok.injEq, Option.some.injEq, Prod.mk.injEq] at hbody
      exact ⟨hbody.1.symm, hbody.2.symm⟩
    · have hnone : st.contentLength = none := by
        refine hread.undeclared fun f hf => ?_
        obtain ⟨h, hmem, rfl⟩ := mem_map.mp hf
        exact hother h hmem
      rw [hnone] at hbody
      simp only [Except.ok.injEq, Option.some.injEq, Prod.mk.injEq] at hbody
      rw [hempty]
      exact ⟨hbody.1.symm, hbody.2.symm⟩
  rw [hvalue, hframe.1, hfound, hframe.2]
  exact ⟨by omega, rfl⟩

/-- A header whose value holds a colon and spaces, with another request behind the one
that was built. -/
theorem http_request_injection_free_get :
    ∃ (text : Bytes) (r : ParseResult HttpRequest),
      buildHttpRequest 512 (ascii "PUT") (ascii "/a")
        [⟨ascii "X", ascii " b: c "⟩, ⟨ascii "content-length", ascii "2"⟩] [7, 13] = .ok text ∧
      parseHttpRequest (text ++ ascii "GET / HTTP/1.1\r\n") 8 = .ok (some r) ∧
      r.consumed = text.length ∧
      r.value = ⟨ascii "PUT", ascii "/a", 1,
        [⟨ascii "X", ascii "b: c"⟩, ⟨ascii "content-length", ascii "2"⟩], [7, 13]⟩ := by
  obtain ⟨text, hbuild⟩ : ∃ text, buildHttpRequest 512 (ascii "PUT") (ascii "/a")
      [⟨ascii "X", ascii " b: c "⟩, ⟨ascii "content-length", ascii "2"⟩] [7, 13] = .ok text :=
    ⟨_, rfl⟩
  obtain ⟨r, hparse⟩ : ∃ r, parseHttpRequest (text ++ ascii "GET / HTTP/1.1\r\n") 8 =
      .ok (some r) := by
    cases hbuild
    exact ⟨_, rfl⟩
  have hresult := http_request_injection_free hbuild
    ⟨by decide, .inl ⟨_, .tail _ (.head _), by decide, by decide⟩⟩ hparse
  exact ⟨text, r, hbuild, hparse, hresult⟩

end Eph.Net
