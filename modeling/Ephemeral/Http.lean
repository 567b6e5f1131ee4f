import Ephemeral.CoreTypes

/-!
# HTTP/1.1 messages: the incremental parsers and the request builder

`parseHttpResponse` and `parseHttpRequest` are the parsers of `eph/net/http.hpp`: a
start line, a block of header lines, and a body whose length the headers give.  On an
incomplete message they answer "need more", and the caller tries again with more
bytes.  `buildHttpRequest` serialises a request into a buffer of bounded size.

The loop of `parse_header_block` is a recursion over the header slots that are
still free, one slot a line; positions become the unread rest of the buffer.

What a caller that retries relies on is proved at the end, for both parsers at once.
Apart from asking for more and from hitting a line limit, an answer is final: it does
not change when bytes are appended (`parseMessage_append`).  Hence a message that is
accepted is accepted from any longer buffer (`parseMessage_complete_append`).
-/

namespace Eph.Net

open ByteOrder Core List

variable {storage : Nat}

def kMaxHeaderCount : Nat := 64
def kMaxStartLineLength : Nat := 8192
def kMaxHeaderLineLength : Nat := 8192
def kMaxBodySize : Nat := 16 * 1024 * 1024

def CR : UInt8 := 13
def LF : UInt8 := 10

/-- A header field. -/
structure HttpHeader where
  name : Bytes
  value : Bytes
  deriving DecidableEq

/-- A parsed response. -/
structure HttpResponse where
  statusCode : Nat
  reasonPhrase : Bytes
  versionMinor : UInt8
  headers : List HttpHeader
  body : Bytes
  deriving DecidableEq

/-- A parsed message with the number of bytes it took. -/
structure ParseResult (α : Type) where
  value : α
  consumed : Nat
  deriving DecidableEq

/-- `ascii_lower`. -/
def asciiLower (c : UInt8) : UInt8 :=
  if 65 ≤ c && c ≤ 90 then c + 32 else c

/-- `iequal`: ASCII case-insensitive equality. -/
def iequal (a b : Bytes) : Bool :=
  a.map asciiLower == b.map asciiLower

/-- `is_tchar`: a token character of a header name. -/
def isTchar (c : UInt8) : Bool :=
  (97 ≤ c && c ≤ 122) || (65 ≤ c && c ≤ 90) || (48 ≤ c && c ≤ 57) ||
    (ascii "!#$%&'*+-.^_`|~").contains c

/-- `is_ows`: space or tab. -/
def isOws (c : UInt8) : Bool :=
  c == 32 || c == 9

/-- `find_crlf`: the position of the first CR LF pair. -/
def findCrlf : Bytes → Option Nat
  | a :: b :: rest =>
    if a = CR ∧ b = LF then some 0 else (findCrlf (b :: rest)).map (· + 1)
  | _ => none

/-- The digit loop of `parse_decimal`, with its overflow guard. -/
def parseDecimalLoop : Nat → Bytes → Option Nat
  | v, [] => some v
  | v, c :: cs =>
    if c < 48 || c > 57 then none
    else if v > 2 ^ 60 then none
    else parseDecimalLoop (v * 10 + (c - 48).toNat) cs

/-- `parse_decimal`: digits only. -/
def parseDecimal (s : Bytes) : Option Nat :=
  if s.isEmpty then none else parseDecimalLoop 0 s

/-- `trim_field_name`: drop trailing white space. -/
def trimFieldName (name : Bytes) : Bytes :=
  (name.reverse.dropWhile isOws).reverse

/-- `trim_ows`: drop white space on both sides. -/
def trimOws (v : Bytes) : Bytes :=
  trimFieldName (v.dropWhile isOws)

/-- `is_valid_token`. -/
def isValidToken (s : Bytes) : Bool :=
  !s.isEmpty && s.all isTchar

/-- `is_valid_field_value`: no control characters but the tab. -/
def isValidFieldValue (s : Bytes) : Bool :=
  s.all fun u => u == 9 || !(u < 32 || u == 127)

/-- What `parse_header_block` finds at the start of a line. -/
inductive LineScan
  | needMore
  | blank
  | line (content rest : Bytes)
  deriving DecidableEq

/-- The scan for the end of one header line: the blank line that closes the block,
or the line up to its CRLF and what follows. -/
def scanLine (rest : Bytes) : Except ErrorInfo LineScan :=
  match rest with
  | [] => .ok .needMore
  | c :: tail =>
    if c = CR then
      match tail with
      | [] => .ok .needMore
      | d :: _ =>
        if d ≠ LF then .error ⟨.codecBad, "bare CR in header block"⟩ else .ok .blank
    else if c = LF then .error ⟨.codecBad, "bare LF at header start"⟩
    else
      match findCrlf (rest.take (kMaxHeaderLineLength + 2)) with
      | none =>
        if rest.length > kMaxHeaderLineLength then
          .error ⟨.codecOverflow, "header line exceeds max length"⟩
        else .ok .needMore
      | some crlf =>
        if (rest.take crlf).contains LF then .error ⟨.codecBad, "bare LF inside header line"⟩
        else .ok (.line (rest.take crlf) (rest.drop (crlf + 2)))

/-- One header line: split at the first colon, validated, and checked against the
smuggling rules.  `cl` is the Content-Length seen so far. -/
def headerField (line : Bytes) (cl : Option Nat) : Except ErrorInfo (HttpHeader × Option Nat) :=
  match line.dropWhile (· != 58) with
  | [] => .error ⟨.codecBad, "header line missing ':'"⟩
  | _ :: rawValue =>
    let name := trimFieldName (line.takeWhile (· != 58))
    let value := trimOws rawValue
    if !isValidToken name then .error ⟨.codecBad, "invalid header field-name"⟩
    else if !isValidFieldValue value then .error ⟨.codecBad, "invalid header field-value"⟩
    else if iequal name (ascii "Transfer-Encoding") then
      .error ⟨.codecBad, "Transfer-Encoding not supported (see D-1)"⟩
    else if iequal name (ascii "Content-Length") then
      match parseDecimal value with
      | none => .error ⟨.codecBad, "Content-Length not numeric"⟩
      | some n =>
        if n > kMaxBodySize then .error ⟨.codecOverflow, "Content-Length exceeds max body size"⟩
        else
          match cl with
          | none => .ok (⟨name, value⟩, some n)
          | some first =>
            if n ≠ first then .error ⟨.codecBad, "conflicting Content-Length values"⟩
            else .ok (⟨name, value⟩, some first)
    else .ok (⟨name, value⟩, cl)

/-- The outcome of the header block. -/
structure HeaderParseState where
  headers : List HttpHeader
  headerBlockEnd : Nat
  contentLength : Option Nat
  deriving DecidableEq

/-- `parse_header_block` from position `pos`, with `free` header slots left. -/
def parseHeaderBlock : Nat → Nat → Bytes → List HttpHeader → Option Nat →
    Except ErrorInfo (Option HeaderParseState)
  | free, pos, rest, headers, cl =>
    match scanLine rest with
    | .error e => .error e
    | .ok .needMore => .ok none
    | .ok .blank => .ok (some ⟨headers, pos + 2, cl⟩)
    | .ok (.line content rest) =>
      match headerField content cl with
      | .error e => .error e
      | .ok (header, cl) =>
        match free with
        | 0 => .error ⟨.codecOverflow, "too many headers"⟩
        | free + 1 =>
          parseHeaderBlock free (pos + content.length + 2) rest (headers ++ [header]) cl

/-- A decimal digit. -/
def isDigitChar (c : UInt8) : Bool :=
  48 ≤ c && c ≤ 57

/-- The status line: version, three-digit code, and the reason phrase if any. -/
def parseStatusLine (line : Bytes) : Except ErrorInfo (Nat × Bytes × UInt8) :=
  if line.isEmpty then .error ⟨.codecBad, "empty status line"⟩
  else if line.length < 12 || line.take 7 != ascii "HTTP/1." ||
      (u8At line 7 != 48 && u8At line 7 != 49) || u8At line 8 != 32 then
    .error ⟨.codecBad, "unsupported HTTP version in response"⟩
  else if !((line.drop 9).take 3).all isDigitChar then
    .error ⟨.codecBad, "status code must be 3 digits (RFC 7230 §3.1.2)"⟩
  else
    let code := (u8At line 9 - 48).toNat * 100 + (u8At line 10 - 48).toNat * 10 +
      (u8At line 11 - 48).toNat
    if line.length = 12 then .ok (code, [], u8At line 7 - 48)
    else if u8At line 12 = 32 then
      if !isValidFieldValue (line.drop 13) then
        .error ⟨.codecBad, "invalid character in reason phrase"⟩
      else .ok (code, line.drop 13, u8At line 7 - 48)
    else .error ⟨.codecBad, "malformed status line after code"⟩

/-- The statuses whose body is empty whatever the headers say. -/
def bodylessStatus (code : Nat) : Bool :=
  (100 ≤ code && code < 200) || code == 204 || code == 304

variable (buffer : Bytes)

/-- The body and the end of the message, once the header block is known. -/
def frameResponseBody (code : Nat) (st : HeaderParseState) :
    Except ErrorInfo (Option (Bytes × Nat)) :=
  if bodylessStatus code then .ok (some ([], st.headerBlockEnd))
  else
    match st.contentLength with
    | some n =>
      if st.headerBlockEnd + n > buffer.length then .ok none
      else .ok (some ((buffer.drop st.headerBlockEnd).take n, st.headerBlockEnd + n))
    | none => .error ⟨.codecBad, "response has no Content-Length and is not bodyless"⟩

/-- `parse_http_response` with room for `storage` headers. -/
def parseHttpResponse (storage : Nat) : Except ErrorInfo (Option (ParseResult HttpResponse)) :=
  if buffer.isEmpty then .ok none
  else
    match findCrlf (buffer.take (kMaxStartLineLength + 2)) with
    | none =>
      if kMaxStartLineLength + 2 < buffer.length then
        .error ⟨.codecOverflow, "response status line too long"⟩
      else .ok none
    | some crlf =>
      match parseStatusLine (buffer.take crlf) with
      | .error e => .error e
      | .ok (code, reason, minor) =>
        match parseHeaderBlock (min storage kMaxHeaderCount) (crlf + 2) (buffer.drop (crlf + 2))
            [] none with
        | .error e => .error e
        | .ok none => .ok none
        | .ok (some st) =>
          match frameResponseBody buffer code st with
          | .error e => .error e
          | .ok none => .ok none
          | .ok (some (body, consumed)) =>
            .ok (some ⟨⟨code, reason, minor, st.headers, body⟩, consumed⟩)

/-- A parsed request. -/
structure HttpRequest where
  method : Bytes
  target : Bytes
  versionMinor : UInt8
  headers : List HttpHeader
  body : Bytes
  deriving DecidableEq

/-- `is_target_char`: anything but control characters and space, up to `~`. -/
def isTargetChar (c : UInt8) : Bool :=
  32 < c && c < 127

/-- The request line: method, target and version, split at the first two spaces. -/
def parseRequestLine (line : Bytes) : Except ErrorInfo (Bytes × Bytes × UInt8) :=
  if line.isEmpty then .error ⟨.codecBad, "empty start line"⟩
  else
    match line.dropWhile (· != 32) with
    | [] => .error ⟨.codecBad, "request start line missing SP after method"⟩
    | _ :: afterMethod =>
      match afterMethod.dropWhile (· != 32) with
      | [] => .error ⟨.codecBad, "request start line missing SP after target"⟩
      | _ :: version =>
        let method := line.takeWhile (· != 32)
        let target := afterMethod.takeWhile (· != 32)
        if !isValidToken method then .error ⟨.codecBad, "invalid method token"⟩
        else if target.isEmpty then .error ⟨.codecBad, "empty request-target"⟩
        else if !target.all isTargetChar then .error ⟨.codecBad, "CTL or SP in request-target"⟩
        else if version.length != 8 || version.take 7 != ascii "HTTP/1." ||
            (u8At version 7 != 48 && u8At version 7 != 49) then
          .error ⟨.codecBad, "unsupported HTTP version (need 1.0/1.1)"⟩
        else .ok (method, target, u8At version 7 - 48)

/-- The body of a request and the end of the message: without a Content-Length it is
empty. -/
def frameRequestBody (st : HeaderParseState) : Except ErrorInfo (Option (Bytes × Nat)) :=
  match st.contentLength with
  | some n =>
    if st.headerBlockEnd + n > buffer.length then .ok none
    else .ok (some ((buffer.drop st.headerBlockEnd).take n, st.headerBlockEnd + n))
  | none => .ok (some ([], st.headerBlockEnd))

/-- What `parse_http_request` and `parse_http_response` have in common: a start line
within its limit, the header block, and a body. -/
def parseMessage {σ α : Type} (tooLong : ErrorInfo) (startLine : Bytes → Except ErrorInfo σ)
    (frameBody : Bytes → σ → HeaderParseState → Except ErrorInfo (Option (Bytes × Nat)))
    (message : σ → List HttpHeader → Bytes → α) (buffer : Bytes) (storage : Nat) :
    Except ErrorInfo (Option (ParseResult α)) :=
  if buffer.isEmpty then .ok none
  else
    match findCrlf (buffer.take (kMaxStartLineLength + 2)) with
    | none => if kMaxStartLineLength + 2 < buffer.length then .error tooLong else .ok none
    | some crlf =>
      match startLine (buffer.take crlf) with
      | .error e => .error e
      | .ok start =>
        match parseHeaderBlock (min storage kMaxHeaderCount) (crlf + 2) (buffer.drop (crlf + 2))
            [] none with
        | .error e => .error e
        | .ok none => .ok none
        | .ok (some st) =>
          match frameBody buffer start st with
          | .error e => .error e
          | .ok none => .ok none
          | .ok (some (body, consumed)) => .ok (some ⟨message start st.headers body, consumed⟩)

/-- `parse_http_request` with room for `storage` headers. -/
def parseHttpRequest (storage : Nat) : Except ErrorInfo (Option (ParseResult HttpRequest)) :=
  parseMessage ⟨.codecOverflow, "request start line too long"⟩ parseRequestLine
    (fun buffer _ st => frameRequestBody buffer st)
    (fun start headers body => ⟨start.1, start.2.1, start.2.2, headers, body⟩) buffer storage

theorem parseHttpResponse_eq (storage : Nat) :
    parseHttpResponse buffer storage =
      parseMessage ⟨.codecOverflow, "response status line too long"⟩ parseStatusLine
        (fun buffer start st => frameResponseBody buffer start.1 st)
        (fun start headers body => ⟨start.1, start.2.1, start.2.2, headers, body⟩)
        buffer storage := by
  unfold parseHttpResponse parseMessage
  split
  · rfl
  split
  · rfl
  · rename_i crlf hfind
    cases parseStatusLine (buffer.take crlf) <;> rfl

/-- `builder_reject_unsafe_token`. -/
def builderRejectUnsafeToken (s : Bytes) : Bool :=
  s.any fun u => u == CR || u == LF || u == 0 || u == 32 || u == 9

/-- `builder_reject_unsafe_value`. -/
def builderRejectUnsafeValue (s : Bytes) : Bool :=
  s.any fun u => u == CR || u == LF || u == 0

/-- The check of one header by the builders. -/
def validateBuilderHeader (h : HttpHeader) : Option ErrorInfo :=
  if !isValidToken h.name then some ⟨.codecBad, "invalid header name (builder)"⟩
  else if builderRejectUnsafeValue h.value then
    some ⟨.codecBad, "invalid header value (CRLF/NUL)"⟩
  else none

/-- `validate_builder_headers`: the first complaint, if any. -/
def validateBuilderHeaders (headers : List HttpHeader) : Option ErrorInfo :=
  if headers.length > kMaxHeaderCount then some ⟨.codecOverflow, "too many headers (builder)"⟩
  else headers.findSome? validateBuilderHeader

/-- The text of a header line. -/
def headerLine (h : HttpHeader) : Bytes :=
  h.name ++ ascii ": " ++ h.value ++ [CR, LF]

/-- `build_http_request` into a buffer of `cap` bytes. -/
def buildHttpRequest (cap : Nat) (method target : Bytes) (headers : List HttpHeader)
    (body : Bytes) : Except ErrorInfo Bytes :=
  if !isValidToken method then .error ⟨.codecBad, "invalid method token (builder)"⟩
  else if target.isEmpty || builderRejectUnsafeToken target then
    .error ⟨.codecBad, "invalid target (CRLF/NUL/whitespace)"⟩
  else
    match validateBuilderHeaders headers with
    | some e => .error e
    | none =>
      let text := method ++ ascii " " ++ target ++ ascii " HTTP/1.1" ++ [CR, LF] ++
        headers.flatMap headerLine ++ [CR, LF] ++ body
      if text.length > cap then .error ⟨.codecOverflow, "buffer too small for request"⟩
      else .ok text

section Block

variable {free pos : Nat} {buf content rest : Bytes} {headers : List HttpHeader}
  {header : HttpHeader} {cl cl' : Option Nat}

theorem parseHeaderBlock_needMore (hscan : scanLine buf = .ok .needMore) :
    parseHeaderBlock free pos buf headers cl = .ok none := by
  rw [parseHeaderBlock.eq_def]
  dsimp only
  rw [hscan]

theorem parseHeaderBlock_error {e : ErrorInfo} (hscan : scanLine buf = .error e) :
    parseHeaderBlock free pos buf headers cl = .error e := by
  rw [parseHeaderBlock.eq_def]
  dsimp only
  rw [hscan]

/-- One line of a block. -/
theorem parseHeaderBlock_line (hscan : scanLine buf = .ok (.line content rest))
    (hfield : headerField content cl = .ok (header, cl')) :
    parseHeaderBlock (free + 1) pos buf headers cl =
      parseHeaderBlock free (pos + content.length + 2) rest (headers ++ [header]) cl' := by
  rw [parseHeaderBlock.eq_def]
  dsimp only
  rw [hscan]
  dsimp only
  rw [hfield]

end Block

/-- A header block that is accepted: the blank line, or a line and the block behind it. -/
inductive AcceptedBlock (st : HeaderParseState) :
    Nat → Nat → Bytes → List HttpHeader → Option Nat → Prop
  | blank {free pos : Nat} {buf : Bytes} {headers : List HttpHeader} {cl : Option Nat}
      (hscan : scanLine buf = .ok .blank) (hst : st = ⟨headers, pos + 2, cl⟩) :
      AcceptedBlock st free pos buf headers cl
  | line {free pos : Nat} {buf content rest : Bytes} {headers : List HttpHeader}
      {header : HttpHeader} {cl cl' : Option Nat} (hscan : scanLine buf = .ok (.line content rest))
      (hfield : headerField content cl = .ok (header, cl'))
      (hrest : AcceptedBlock st free (pos + content.length + 2) rest (headers ++ [header]) cl') :
      AcceptedBlock st (free + 1) pos buf headers cl

variable {buf : Bytes} {st : HeaderParseState}

theorem acceptedBlock_of_parse {free pos : Nat} {headers : List HttpHeader} {cl : Option Nat}
    (h : parseHeaderBlock free pos buf headers cl = .ok (some st)) :
    AcceptedBlock st free pos buf headers cl := by
  induction free generalizing pos buf headers cl with
  | zero =>
    rw [parseHeaderBlock] at h
    split at h
    · cases h
    · cases h
    · rename_i hscan
      exact .blank hscan (Option.some.inj (Except.ok.inj h)).symm
    · split at h <;> cases h
  | succ free ih =>
    rw [parseHeaderBlock] at h
    split at h
    · cases h
    · cases h
    · rename_i hscan
      exact .blank hscan (Option.some.inj (Except.ok.inj h)).symm
    · rename_i content rest hscan
      split at h
      · cases h
      · rename_i header cl' hfield
        exact .line hscan hfield (ih h)

/-! ## Answers are final -/

/-- The first CR LF of a buffer and its position. -/
inductive FirstCrlf : Bytes → Nat → Prop
  | here (rest : Bytes) : FirstCrlf (CR :: LF :: rest) 0
  | later {a b : UInt8} {rest : Bytes} {i : Nat} (hnot : ¬(a = CR ∧ b = LF))
      (hrest : FirstCrlf (b :: rest) i) : FirstCrlf (a :: b :: rest) (i + 1)

theorem findCrlf_iff {i : Nat} : findCrlf buf = some i ↔ FirstCrlf buf i := by
  constructor
  · intro h
    fun_induction findCrlf generalizing i with
    | case1 a b rest hcrlf =>
      obtain ⟨rfl, rfl⟩ := hcrlf
      cases h
      exact .here rest
    | case2 a b rest hnot ih =>
      obtain ⟨j, hj, rfl⟩ := Option.map_eq_some_iff.mp h
      exact .later hnot (ih hj)
    | case3 => cases h
  · intro h
    induction h with
    | here rest => exact if_pos ⟨rfl, rfl⟩
    | later hnot _ ih =>
      rw [findCrlf, if_neg hnot, ih]
      rfl

theorem findCrlf_bound {i : Nat} (h : findCrlf buf = some i) : i + 2 ≤ buf.length := by
  rw [findCrlf_iff] at h
  induction h with
  | here rest => simp
  | later _ _ ih =>
    simp only [length_cons] at ih ⊢
    omega

theorem findCrlf_append {i : Nat} (h : findCrlf buf = some i) (more : Bytes) :
    findCrlf (buf ++ more) = some i := by
  rw [findCrlf_iff] at h ⊢
  induction h with
  | here rest => exact .here _
  | later hnot _ ih => exact .later hnot ih

/-- A CRLF found within a window of a buffer is found in any longer buffer. -/
theorem findCrlf_take_append {n i : Nat} (h : findCrlf (buf.take n) = some i) (more : Bytes) :
    findCrlf ((buf ++ more).take n) = some i ∧ i + 2 ≤ buf.length := by
  constructor
  · rw [take_append]
    exact findCrlf_append h _
  · have hbound := findCrlf_bound h
    have hle := length_take_le' n buf
    omega

/-- The same line, with more bytes behind it. -/
def LineScan.extend (more : Bytes) : LineScan → LineScan
  | .line content rest => .line content (rest ++ more)
  | scan => scan

/-- One line: the scan asks for more, hits the limit, or is final. -/
theorem scanLine_append (buf more : Bytes) :
    scanLine buf = .ok .needMore ∨
      ((∃ e, scanLine buf = .error e) ∧ kMaxHeaderLineLength < buf.length) ∨
      scanLine (buf ++ more) = (scanLine buf).map (LineScan.extend more) := by
  cases buf with
  | nil => exact .inl rfl
  | cons c tail =>
    by_cases hcr : c = CR
    · cases tail with
      | nil =>
        left
        simp [scanLine, hcr]
      | cons d tail =>
        right; right
        by_cases hlf : d = LF <;> simp [scanLine, hcr, hlf, Except.map, LineScan.extend]
    · by_cases hlf : c = LF
      · right; right
        subst hlf
        simp [scanLine, hcr, Except.map]
      cases hfind : findCrlf ((c :: tail).take (kMaxHeaderLineLength + 2)) with
      | none =>
        by_cases hlen : (c :: tail).length > kMaxHeaderLineLength
        · right; left
          refine ⟨⟨⟨.codecOverflow, "header line exceeds max length"⟩, ?_⟩, hlen⟩
          simp only [scanLine, hcr, hlf, hfind, hlen, if_false, if_true]
        · left
          simp only [scanLine, hcr, hlf, hfind, hlen, if_false]
      | some i =>
        right; right
        obtain ⟨hmore, hbound⟩ := findCrlf_take_append hfind more
        rw [cons_append] at hmore
        have htake : (c :: (tail ++ more)).take i = (c :: tail).take i := by
          rw [← cons_append, take_append_of_le_length (by omega)]
        have hdrop : (c :: (tail ++ more)).drop (i + 2) =
            (c :: tail).drop (i + 2) ++ more := by
          rw [← cons_append, drop_append_of_le_length hbound]
        simp only [scanLine, cons_append, hcr, hlf, hfind, hmore, htake, hdrop, if_false]
        split <;> rfl

/-- A line that starts with text is scanned for its CR LF. -/
theorem scanLine_text {c : UInt8} (hcr : c ≠ CR) (hlf : c ≠ LF) (tail : Bytes) :
    scanLine (c :: tail) =
      match findCrlf ((c :: tail).take (kMaxHeaderLineLength + 2)) with
      | none =>
        if (c :: tail).length > kMaxHeaderLineLength then
          .error ⟨.codecOverflow, "header line exceeds max length"⟩
        else .ok .needMore
      | some crlf =>
        if ((c :: tail).take crlf).contains LF then
          .error ⟨.codecBad, "bare LF inside header line"⟩
        else .ok (.line ((c :: tail).take crlf) ((c :: tail).drop (crlf + 2))) := by
  change (if c = CR then _ else if c = LF then _ else _) = _
  rw [if_neg hcr, if_neg hlf]

/-- What was scanned.  A blank line is a CR LF; a line has no CR or LF at its front and
none inside, and its CR LF lies in the window. -/
theorem scanLine_inv {scan : LineScan} (h : scanLine buf = .ok scan) :
    (scan = .blank → ∃ tail, buf = CR :: LF :: tail) ∧
    ∀ {content rest}, scan = .line content rest → ∃ c tail i, buf = c :: tail ∧ c ≠ CR ∧ c ≠ LF ∧
      findCrlf (buf.take (kMaxHeaderLineLength + 2)) = some i ∧
      (buf.take i).contains LF = false ∧ content = buf.take i ∧ rest = buf.drop (i + 2) := by
  cases buf with
  | nil =>
    cases h
    exact ⟨nofun, nofun⟩
  | cons c tail =>
    by_cases hcr : c = CR
    · subst hcr
      cases tail with
      | nil =>
        cases h
        exact ⟨nofun, nofun⟩
      | cons d tail =>
        simp only [scanLine, if_true] at h
        split_ifs at h with hlf
        cases h
        exact ⟨fun _ => ⟨tail, by rw [not_not.mp hlf]⟩, nofun⟩
    · by_cases hlf : c = LF
      · subst hlf
        cases h
      rw [scanLine_text hcr hlf] at h
      split at h
      · split_ifs at h
        cases h
        exact ⟨nofun, nofun⟩
      rename_i i hfind
      split_ifs at h with hinside
      cases h
      refine ⟨nofun, fun heq => ?_⟩
      cases heq
      exact ⟨c, tail, i, rfl, hcr, hlf, hfind, by simpa using hinside, rfl, rfl⟩

/-- A scanned line and its CRLF account for the bytes taken. -/
theorem scanLine_line {buf content rest : Bytes} (h : scanLine buf = .ok (.line content rest)) :
    content.length + 2 + rest.length = buf.length := by
  obtain ⟨c, tail, i, -, -, -, hfind, -, rfl, rfl⟩ := (scanLine_inv h).2 rfl
  have hbound := (findCrlf_take_append hfind []).2
  rw [length_take, length_drop]
  omega

/-- The header block asks for more, fails at the line limit, or is final. -/
theorem parseHeaderBlock_append (free pos : Nat) (buf more : Bytes) (headers : List HttpHeader)
    (cl : Option Nat) :
    parseHeaderBlock free pos buf headers cl = .ok none ∨
      ((∃ e, parseHeaderBlock free pos buf headers cl = .error e) ∧
        kMaxHeaderLineLength < buf.length) ∨
      parseHeaderBlock free pos (buf ++ more) headers cl =
        parseHeaderBlock free pos buf headers cl := by
  induction free generalizing pos buf headers cl with
  | zero =>
    rw [parseHeaderBlock, parseHeaderBlock]
    rcases scanLine_append buf more with hmore | ⟨⟨e, herr⟩, hlen⟩ | hfinal
    · simp [hmore]
    · simp [herr, hlen]
    right; right
    rw [hfinal]
    cases hscan : scanLine buf with
    | error e => rfl
    | ok scan => cases scan <;> rfl
  | succ free ih =>
    rw [parseHeaderBlock, parseHeaderBlock]
    rcases scanLine_append buf more with hmore | ⟨⟨e, herr⟩, hlen⟩ | hfinal
    · simp [hmore]
    · simp [herr, hlen]
    rw [hfinal]
    cases hscan : scanLine buf with
    | error e => exact .inr (.inr rfl)
    | ok scan =>
      cases scan with
      | needMore => exact .inl rfl
      | blank => exact .inr (.inr rfl)
      | line content rest =>
        simp only [Except.map, LineScan.extend]
        cases hfield : headerField content cl with
        | error e => exact .inr (.inr rfl)
        | ok field =>
          have hlen := scanLine_line hscan
          rcases ih (pos + content.length + 2) rest (headers ++ [field.1]) field.2
            with hmore | ⟨herr, hlong⟩ | hsame
          · exact .inl hmore
          · exact .inr (.inl ⟨herr, by omega⟩)
          · exact .inr (.inr hsame)

/-- The header block ends inside the buffer. -/
theorem parseHeaderBlock_bound {free pos : Nat} {headers : List HttpHeader} {cl : Option Nat}
    (h : parseHeaderBlock free pos buf headers cl = .ok (some st)) :
    st.headerBlockEnd ≤ pos + buf.length := by
  have haccepted := acceptedBlock_of_parse h
  clear h
  induction haccepted with
  | blank hscan hst =>
    obtain ⟨tail, rfl⟩ := (scanLine_inv hscan).1 rfl
    rw [hst, length_cons, length_cons]
    dsimp only
    omega
  | line hscan hfield hrest ih =>
    have hlen := scanLine_line hscan
    omega

/-- The body of a response is refused whatever the buffer, or framed like that of a request. -/
theorem frameResponseBody_cases (code : Nat) (st : HeaderParseState) :
    (∃ e, ∀ buf, frameResponseBody buf code st = .error e) ∨
      ∃ st', st'.headerBlockEnd = st.headerBlockEnd ∧
        ∀ buf, frameResponseBody buf code st = frameRequestBody buf st' := by
  by_cases hbodyless : bodylessStatus code
  · exact .inr ⟨{ st with contentLength := none }, rfl, fun buf => if_pos hbodyless⟩
  cases hcl : st.contentLength with
  | none => exact .inl ⟨_, fun buf => by rw [frameResponseBody, if_neg hbodyless, hcl]⟩
  | some n =>
    refine .inr ⟨st, rfl, fun buf => ?_⟩
    rw [frameResponseBody, if_neg hbodyless, frameRequestBody, hcl]

/-- What a body framing must be for the parser to be incremental: it asks for more or
is final, and the body ends inside the buffer. -/
structure FramesBody {σ : Type}
    (frameBody : Bytes → σ → HeaderParseState → Except ErrorInfo (Option (Bytes × Nat))) :
    Prop where
  append : ∀ {buf : Bytes} (more : Bytes) (start : σ) {st : HeaderParseState},
    st.headerBlockEnd ≤ buf.length →
    frameBody buf start st = .ok none ∨
      frameBody (buf ++ more) start st = frameBody buf start st
  bound : ∀ {buf body : Bytes} {start : σ} {consumed : Nat} {st : HeaderParseState},
    frameBody buf start st = .ok (some (body, consumed)) → st.headerBlockEnd ≤ buf.length →
    consumed ≤ buf.length

theorem framesBody_request {σ : Type} :
    FramesBody fun buf (_ : σ) st => frameRequestBody buf st where
  append := by
    intro buf more _ st hend
    unfold frameRequestBody
    cases hcl : st.contentLength with
    | none => exact .inr rfl
    | some n =>
      dsimp only
      by_cases hlong : st.headerBlockEnd + n > buf.length
      · left
        rw [if_pos hlong]
      right
      rw [if_neg hlong, if_neg (by rw [length_append]; omega), drop_append_of_le_length hend,
        take_append_of_le_length (by rw [length_drop]; omega)]
  bound := by
    intro buf body _ consumed st h hend
    unfold frameRequestBody at h
    cases hcl : st.contentLength with
    | none =>
      rw [hcl] at h
      cases h
      exact hend
    | some n =>
      rw [hcl] at h
      dsimp only at h
      split_ifs at h with hlong
      · cases h
      · cases h
        omega

theorem framesBody_response :
    FramesBody fun buf (start : Nat × Bytes × UInt8) st => frameResponseBody buf start.1 st where
  append := by
    intro buf more start st hend
    rcases frameResponseBody_cases start.1 st with ⟨e, herr⟩ | ⟨st', hst, hsame⟩
    · rw [herr, herr]
      exact .inr rfl
    · rw [hsame, hsame]
      exact framesBody_request.append more () (hst ▸ hend)
  bound := by
    intro buf body start consumed st h hend
    rcases frameResponseBody_cases start.1 st with ⟨e, herr⟩ | ⟨st', hst, hsame⟩
    · rw [herr] at h
      cases h
    · rw [hsame] at h
      exact @FramesBody.bound _ _ framesBody_request _ _ () _ _ h (hst ▸ hend)

section Message

variable {σ α : Type} {tooLong : ErrorInfo} {startLine : Bytes → Except ErrorInfo σ}
  {frameBody : Bytes → σ → HeaderParseState → Except ErrorInfo (Option (Bytes × Nat))}
  {message : σ → List HttpHeader → Bytes → α}

/-- **Answers are final.**  A parser asks for more, fails with more than a line limit in
hand, or gives the answer it gives on every longer buffer. -/
theorem parseMessage_append (hframe : FramesBody frameBody) (buf more : Bytes) (storage : Nat) :
    parseMessage tooLong startLine frameBody message buf storage = .ok none ∨
      ((∃ e, parseMessage tooLong startLine frameBody message buf storage = .error e) ∧
        kMaxHeaderLineLength < buf.length) ∨
      parseMessage tooLong startLine frameBody message (buf ++ more) storage =
        parseMessage tooLong startLine frameBody message buf storage := by
  by_cases hempty : buf = []
  · left
    simp [parseMessage, hempty]
  have hbuf : buf.isEmpty = false := by simpa using hempty
  have hmore : (buf ++ more).isEmpty = false := by simp [hempty]
  unfold parseMessage
  rw [hbuf, hmore]
  simp only [Bool.false_eq_true, if_false]
  cases hfind : findCrlf (buf.take (kMaxStartLineLength + 2)) with
  | none =>
    by_cases hlen : kMaxStartLineLength + 2 < buf.length
    · refine .inr (.inl ⟨⟨tooLong, ?_⟩, ?_⟩)
      · simp only [hlen, if_true]
      unfold kMaxHeaderLineLength
      unfold kMaxStartLineLength at hlen
      omega
    · left
      simp only [hlen, if_false]
  | some i =>
    obtain ⟨hfind', hbound⟩ := findCrlf_take_append hfind more
    rw [hfind']
    dsimp only
    rw [take_append_of_le_length (by omega), drop_append_of_le_length hbound]
    cases hstart : startLine (buf.take i) with
    | error e => exact .inr (.inr rfl)
    | ok start =>
      rcases parseHeaderBlock_append (min storage kMaxHeaderCount) (i + 2) (buf.drop (i + 2))
        more [] none with hneed | ⟨⟨e, herr⟩, hlong⟩ | hsame
      · rw [hneed]
        exact .inl rfl
      · rw [herr]
        rw [length_drop] at hlong
        exact .inr (.inl ⟨⟨e, rfl⟩, by omega⟩)
      · rw [hsame]
        cases hblock : parseHeaderBlock (min storage kMaxHeaderCount) (i + 2)
          (buf.drop (i + 2)) [] none with
        | error e => exact .inr (.inr rfl)
        | ok st =>
          cases st with
          | none => exact .inl rfl
          | some st =>
            have hend := parseHeaderBlock_bound hblock
            rw [length_drop] at hend
            rcases hframe.append more start (by omega : st.headerBlockEnd ≤ buf.length)
              with hneed | hsame
            · left
              simp only [hneed]
            · right; right
              simp only [hsame]

variable (hframe : FramesBody frameBody) {buf : Bytes} {r : ParseResult α}
  (h : parseMessage tooLong startLine frameBody message buf storage = .ok (some r))

include h

/-- A message that is accepted: its start line, header block and body. -/
theorem parseMessage_inv :
    ∃ crlf start st body, findCrlf (buf.take (kMaxStartLineLength + 2)) = some crlf ∧
      startLine (buf.take crlf) = .ok start ∧
      parseHeaderBlock (min storage kMaxHeaderCount) (crlf + 2) (buf.drop (crlf + 2)) [] none =
        .ok (some st) ∧
      frameBody buf start st = .ok (some (body, r.consumed)) ∧
      r.value = message start st.headers body := by
  unfold parseMessage at h
  split at h
  · cases h
  split at h
  · split at h <;> cases h
  rename_i crlf hfind
  split at h
  · cases h
  rename_i start hstart
  split at h
  · cases h
  · cases h
  rename_i st hblock
  split at h
  · cases h
  · cases h
  · rename_i body consumed hbody
    cases h
    exact ⟨crlf, start, st, body, hfind, hstart, hblock, hbody, rfl⟩

include hframe

/-- A message ends inside the buffer. -/
theorem parseMessage_bound : r.consumed ≤ buf.length := by
  obtain ⟨crlf, start, st, body, hfind, -, hblock, hbody, -⟩ := parseMessage_inv h
  have hbound := (findCrlf_take_append hfind []).2
  have hend := parseHeaderBlock_bound hblock
  rw [length_drop] at hend
  exact hframe.bound hbody (by omega)

/-- A complete message stays complete when bytes follow it. -/
theorem parseMessage_complete_append (more : Bytes) :
    parseMessage tooLong startLine frameBody message (buf ++ more) storage = .ok (some r) := by
  rcases parseMessage_append hframe buf more storage with hnone | ⟨⟨e, herr⟩, -⟩ | hsame
  · rw [h] at hnone
    cases hnone
  · rw [h] at herr
    cases herr
  · rw [hsame, h]

end Message

/-- A complete response stays complete when bytes follow it. -/
theorem parseHttpResponse_complete_append {r : ParseResult HttpResponse}
    (h : parseHttpResponse buf storage = .ok (some r)) (more : Bytes) :
    parseHttpResponse (buf ++ more) storage = .ok (some r) := by
  rw [parseHttpResponse_eq] at h ⊢
  exact parseMessage_complete_append framesBody_response h more

/-- Below the line limits, a part of a complete response is asked to grow. -/
theorem parseHttpResponse_incomplete {buf more : Bytes} {r : ParseResult HttpResponse}
    (h : parseHttpResponse (buf ++ more) storage = .ok (some r))
    (hlimit : buf.length ≤ kMaxHeaderLineLength) (hpart : buf.length < r.consumed) :
    parseHttpResponse buf storage = .ok none := by
  rw [parseHttpResponse_eq] at h ⊢
  rcases parseMessage_append framesBody_response buf more storage with hnone | ⟨-, hlong⟩ | hsame
  · exact hnone
  · omega
  · rw [h] at hsame
    have := parseMessage_bound framesBody_response hsame.symm
    omega

end Eph.Net
