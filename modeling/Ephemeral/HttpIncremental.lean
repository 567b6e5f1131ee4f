import Ephemeral.HttpRoundTrip

/-!
# Incremental parsing of HTTP messages

A caller hands the parser what it has received so far and waits as long as it answers
"need more".  For a message that is accepted in the end, every shorter part should be
answered that way.  The start line and the body never stand against it.  A header line
does if it is as long as the limit allows: cut between its CR and its LF it looks one
byte too long, and the parser reports an error (`http_incremental_iff`).
-/

namespace Eph.Net

open ByteOrder Core List

variable {buf : Bytes}

/-- The pieces of a byte string between its CR LF pairs. -/
def crlfLines : Bytes → List Bytes
  | [] => [[]]
  | [a] => [[a]]
  | a :: b :: rest =>
    if a = CR ∧ b = LF then [] :: crlfLines rest
    else
      match crlfLines (b :: rest) with
      | [] => [[a]]
      | line :: lines => (a :: line) :: lines

/-- The header lines of a message: the lines behind the first, up to the blank one. -/
def headerLines (buffer : Bytes) : List Bytes :=
  ((crlfLines buffer).drop 1).takeWhile (!·.isEmpty)

/-- The first CR LF ends the first line. -/
theorem crlfLines_of_find {i : Nat} (h : findCrlf buf = some i) :
    crlfLines buf = buf.take i :: crlfLines (buf.drop (i + 2)) := by
  rw [findCrlf_iff] at h
  induction h with
  | here rest =>
    rw [crlfLines, if_pos ⟨rfl, rfl⟩]
    rfl
  | later hnot _ ih =>
    rw [crlfLines, if_neg hnot, ih]
    rfl

section

variable {buf content rest : Bytes} (h : scanLine buf = .ok (.line content rest))

include h

/-- A part of a scanned line: the scan waits, unless the part is longer than the limit. -/
theorem scanLine_part {n : Nat} (hn : n < content.length + 2) :
    scanLine (buf.take n) =
      if n > kMaxHeaderLineLength then
        .error ⟨.codecOverflow, "header line exceeds max length"⟩
      else .ok .needMore := by
  obtain ⟨c, tail, i, hbuf, hcr, hlf, hfind, -, rfl, -⟩ := (scanLine_inv h).2 rfl
  have hbound := (findCrlf_take_append hfind []).2
  rw [length_take, Nat.min_eq_left (by omega)] at hn
  have hnone : findCrlf ((buf.take n).take (kMaxHeaderLineLength + 2)) = none := by
    rw [take_take]
    exact findCrlf_take_none (findCrlf_window hfind) (by omega)
  have hlen : (buf.take n).length = n := by
    rw [length_take, Nat.min_eq_left (by omega)]
  cases n with
  | zero => rw [take_zero, if_neg (Nat.not_lt_zero _), scanLine]
  | succ n =>
    rw [hbuf, take_succ_cons] at hnone hlen ⊢
    rw [scanLine_text hcr hlf, hnone, hlen]

/-- A scanned line with only some of what follows it. -/
theorem scanLine_take (n : Nat) :
    scanLine (buf.take (content.length + 2 + n)) = .ok (.line content (rest.take n)) := by
  obtain ⟨c, tail, i, hbuf, hcr, hlf, hfind, hinside, rfl, rfl⟩ := (scanLine_inv h).2 rfl
  have hbound := findCrlf_bound hfind
  have hle := length_take_le' (kMaxHeaderLineLength + 2) buf
  rw [length_take] at hbound
  have hlen : (buf.take i).length = i := by
    rw [length_take, Nat.min_eq_left (by omega)]
  have hsome : findCrlf ((buf.take (i + 2 + n)).take (kMaxHeaderLineLength + 2)) = some i := by
    rw [take_take]
    exact findCrlf_take_some (findCrlf_window hfind) (by omega)
  have htake : (buf.take (i + 2 + n)).take i = buf.take i := by
    rw [take_take, Nat.min_eq_left (by omega)]
  have hdrop : (buf.take (i + 2 + n)).drop (i + 2) = (buf.drop (i + 2)).take n := by
    rw [drop_take, Nat.add_sub_cancel_left]
  rw [hlen]
  obtain ⟨k, hk⟩ : ∃ k, i + 2 + n = k + 1 := ⟨i + 1 + n, by omega⟩
  rw [hk] at hsome htake hdrop ⊢
  rw [hbuf, take_succ_cons] at hsome htake hdrop ⊢
  rw [hbuf] at hinside
  rw [scanLine_text hcr hlf, hsome]
  dsimp only
  rw [htake, hdrop, if_neg (by rw [hinside]; exact Bool.false_ne_true)]

end

/-- A part of the blank line is asked to grow, and more does not matter. -/
theorem scanLine_take_blank (h : scanLine buf = .ok .blank) (n : Nat) :
    scanLine (buf.take n) = if n < 2 then .ok .needMore else .ok .blank := by
  obtain ⟨tail, rfl⟩ := (scanLine_inv h).1 rfl
  match n with
  | 0 => rfl
  | 1 => rfl
  | n + 2 =>
    rw [if_neg (by omega)]
    rfl

section Block

variable {free pos : Nat} {buf content rest : Bytes} {headers : List HttpHeader}
  {header : HttpHeader} {cl cl' : Option Nat} {st : HeaderParseState}

section

variable (h : AcceptedBlock st free pos buf headers cl)

include h

/-- A block ends with a blank line, at the earliest. -/
theorem AcceptedBlock.end_le : pos + 2 ≤ st.headerBlockEnd := by
  induction h with
  | blank hscan hst => exact Nat.le_of_eq (congrArg HeaderParseState.headerBlockEnd hst).symm
  | line hscan hfield hrest ih => omega

/-- The blank line behind a block is enough. -/
theorem AcceptedBlock.take {n : Nat} (hn : st.headerBlockEnd ≤ pos + n) :
    parseHeaderBlock free pos (buf.take n) headers cl = .ok (some st) := by
  induction h generalizing n with
  | blank hscan hst =>
    rw [hst] at hn ⊢
    rw [parseHeaderBlock.eq_def]
    dsimp only
    rw [scanLine_take_blank hscan, if_neg (by dsimp only at hn; omega)]
  | @line free pos buf content rest headers header cl cl' hscan hfield hrest ih =>
    have hend := hrest.end_le
    obtain ⟨k, rfl⟩ : ∃ k, n = content.length + 2 + k := ⟨n - (content.length + 2), by omega⟩
    rw [parseHeaderBlock_line (scanLine_take hscan k) hfield]
    exact ih (by omega)

/-- **Parts of a header block.**  Every part of an accepted block is asked to grow
exactly if no line of it is as long as the limit. -/
theorem AcceptedBlock.parts_iff :
    (∀ n, pos + n < st.headerBlockEnd →
      parseHeaderBlock free pos (buf.take n) headers cl = .ok none) ↔
      ∀ line ∈ (crlfLines buf).takeWhile (!·.isEmpty), line.length < kMaxHeaderLineLength := by
  induction h with
  | blank hscan hst =>
    obtain ⟨tail, hbuf⟩ := (scanLine_inv hscan).1 rfl
    constructor
    · intro _ line hline
      rw [hbuf, crlfLines, if_pos ⟨rfl, rfl⟩] at hline
      cases hline
    · intro _ n hn
      apply parseHeaderBlock_needMore
      rw [scanLine_take_blank hscan, if_pos (by rw [hst] at hn; dsimp only at hn; omega)]
  | @line free pos buf content rest headers header cl cl' hscan hfield hrest ih =>
    obtain ⟨c, tail, i, hbuf, hcr, -, hfind, -, hcontent, hrest'⟩ := (scanLine_inv hscan).2 rfl
    have hne : (!content.isEmpty) = true := by
      have hzero : i ≠ 0 := by
        rintro rfl
        rw [hbuf] at hfind
        have hwhole := findCrlf_window hfind
        cases tail <;> simp [findCrlf, hcr] at hwhole
      rw [hcontent, hbuf]
      cases i with
      | zero => exact absurd rfl hzero
      | succ i => rfl
    have hlines : (crlfLines buf).takeWhile (!·.isEmpty) =
        content :: (crlfLines rest).takeWhile (!·.isEmpty) := by
      rw [crlfLines_of_find (findCrlf_window hfind), ← hcontent, ← hrest',
        takeWhile_cons, if_pos hne]
    have hend := hrest.end_le
    have hbound := findCrlf_bound hfind
    rw [hlines]
    constructor
    · intro hparts
      have hfits : content.length < kMaxHeaderLineLength := by
        by_contra hlong
        have hcut := hparts (content.length + 1) (by omega)
        have hscan' := scanLine_part hscan (n := content.length + 1) (by omega)
        rw [if_pos (by omega)] at hscan'
        rw [parseHeaderBlock_error hscan'] at hcut
        cases hcut
      have htail := ih.mp fun k hk => by
        have hpart := hparts (content.length + 2 + k) (by omega)
        rwa [parseHeaderBlock_line (scanLine_take hscan k) hfield] at hpart
      exact forall_mem_cons.mpr ⟨hfits, htail⟩
    · intro hshort n hn
      have hfits := hshort content mem_cons_self
      by_cases hcut : n < content.length + 2
      · apply parseHeaderBlock_needMore
        rw [scanLine_part hscan hcut, if_neg (by omega)]
      obtain ⟨k, rfl⟩ : ∃ k, n = content.length + 2 + k := ⟨n - (content.length + 2), by omega⟩
      rw [parseHeaderBlock_line (scanLine_take hscan k) hfield]
      refine ih.mpr ?_ k (by omega)
      intro line hline
      exact hshort line (mem_cons_of_mem _ hline)

end

/-- A part of the block in which its end is found is not shorter than the block. -/
theorem parseHeaderBlock_final {st' : HeaderParseState} {n : Nat}
    (h : parseHeaderBlock free pos buf headers cl = .ok (some st))
    (hcut : parseHeaderBlock free pos (buf.take n) headers cl = .ok (some st')) :
    st.headerBlockEnd ≤ pos + n := by
  have hbound := parseHeaderBlock_bound hcut
  rw [length_take] at hbound
  rcases parseHeaderBlock_append free pos (buf.take n) (buf.drop n) headers cl with
    hnone | ⟨⟨e, herr⟩, -⟩ | hsame
  · rw [hcut] at hnone
    cases hnone
  · rw [hcut] at herr
    cases herr
  · rw [take_append_drop, h, hcut] at hsame
    cases hsame
    omega

end Block

/-! ## Messages -/

/-- What the framing of a body must be for a part of it to be asked to grow: where the
body ends is known from the header block, and a buffer that ends before is too short. -/
structure FramesByLength {σ : Type}
    (frameBody : Bytes → σ → HeaderParseState → Except ErrorInfo (Option (Bytes × Nat))) :
    Prop where
  complete : ∀ {buf body : Bytes} {start : σ} {consumed : Nat} {st : HeaderParseState},
    frameBody buf start st = .ok (some (body, consumed)) → st.headerBlockEnd ≤ consumed
  part : ∀ {buf body : Bytes} {start : σ} {consumed : Nat} {st : HeaderParseState} {n : Nat},
    frameBody buf start st = .ok (some (body, consumed)) → st.headerBlockEnd ≤ n →
    consumed ≤ buf.length →
    frameBody (buf.take n) start st =
      if n < consumed then .ok none else .ok (some (body, consumed))

section Message

variable {σ α : Type} {tooLong : ErrorInfo} {startLine : Bytes → Except ErrorInfo σ}
  {frameBody : Bytes → σ → HeaderParseState → Except ErrorInfo (Option (Bytes × Nat))}
  {message : σ → List HttpHeader → Bytes → α}

/-- A part of a message behind the start line. -/
theorem parseMessage_take {storage crlf n : Nat} {start : σ}
    (hfind : findCrlf (buf.take (kMaxStartLineLength + 2)) = some crlf)
    (hstart : startLine (buf.take crlf) = .ok start) (hn : crlf + 2 ≤ n) :
    parseMessage tooLong startLine frameBody message (buf.take n) storage =
      match parseHeaderBlock (min storage kMaxHeaderCount) (crlf + 2)
          ((buf.drop (crlf + 2)).take (n - (crlf + 2))) [] none with
      | .error e => .error e
      | .ok none => .ok none
      | .ok (some st) =>
        match frameBody (buf.take n) start st with
        | .error e => .error e
        | .ok none => .ok none
        | .ok (some (body, consumed)) => .ok (some ⟨message start st.headers body, consumed⟩) := by
  have hbound := findCrlf_bound hfind
  rw [length_take] at hbound
  have hsome : findCrlf ((buf.take n).take (kMaxStartLineLength + 2)) = some crlf := by
    rw [take_take]
    exact findCrlf_take_some (findCrlf_window hfind) (by omega)
  have hne : ¬ (buf.take n).isEmpty = true := by
    rw [isEmpty_iff_length_eq_zero, length_take]
    omega
  unfold parseMessage
  rw [if_neg hne, hsome]
  dsimp only
  rw [take_take, Nat.min_eq_left (by omega), hstart, drop_take]
  all_goals rfl

/-- **Parts of a message.**  A part that holds the whole message is accepted as the
message was, and every shorter part is asked to grow, exactly if no header line is as
long as the limit. -/
theorem parseMessage_parts (hlength : FramesByLength frameBody) (hframe : FramesBody frameBody)
    {storage : Nat} {r : ParseResult α}
    (h : parseMessage tooLong startLine frameBody message buf storage = .ok (some r)) :
    (∀ n, r.consumed ≤ n →
      parseMessage tooLong startLine frameBody message (buf.take n) storage = .ok (some r)) ∧
    ((∀ n < r.consumed,
      parseMessage tooLong startLine frameBody message (buf.take n) storage = .ok none) ↔
      ∀ line ∈ headerLines buf, line.length < kMaxHeaderLineLength) := by
  have hinside := parseMessage_bound hframe h
  obtain ⟨crlf, start, st, body, hfind, hstart, hblock, hbody, hvalue⟩ := parseMessage_inv h
  have haccepted := acceptedBlock_of_parse hblock
  have hend := haccepted.end_le
  have hconsumed := hlength.complete hbody
  have hlines : headerLines buf =
      (crlfLines (buf.drop (crlf + 2))).takeWhile (!·.isEmpty) := by
    rw [headerLines, crlfLines_of_find (findCrlf_window hfind)]
    rfl
  refine ⟨?_, ?_⟩
  · intro n hn
    rw [parseMessage_take hfind hstart (by omega), haccepted.take (by omega)]
    dsimp only
    rw [hlength.part hbody (by omega) hinside, if_neg (by omega)]
    dsimp only
    rw [← hvalue]
  · rw [hlines, ← haccepted.parts_iff]
    constructor
    · intro hparts k hk
      have hpart := hparts (crlf + 2 + k) (by omega)
      rw [parseMessage_take hfind hstart (by omega), Nat.add_sub_cancel_left] at hpart
      cases hcut : parseHeaderBlock (min storage kMaxHeaderCount) (crlf + 2)
          ((buf.drop (crlf + 2)).take k) [] none with
      | error e =>
        rw [hcut] at hpart
        cases hpart
      | ok found =>
        cases found with
        | none => rfl
        | some st' =>
          exact absurd (parseHeaderBlock_final hblock hcut) (by omega)
    · intro hparts n hn
      by_cases hline : n < crlf + 2
      · -- the part ends within the start line
        have hbound := findCrlf_bound hfind
        rw [length_take] at hbound
        have hnone : findCrlf ((buf.take n).take (kMaxStartLineLength + 2)) = none := by
          rw [take_take]
          exact findCrlf_take_none (findCrlf_window hfind) (by omega)
        unfold parseMessage
        split
        · rfl
        · rw [hnone, if_neg (by rw [length_take]; omega)]
      rw [parseMessage_take hfind hstart (by omega)]
      by_cases hheaders : n < st.headerBlockEnd
      · rw [hparts (n - (crlf + 2)) (by omega)]
      rw [haccepted.take (by omega)]
      dsimp only
      rw [hlength.part hbody (by omega) hinside, if_pos hn]

end Message

theorem framesByLength_request {σ : Type} :
    FramesByLength fun buf (_ : σ) st => frameRequestBody buf st where
  complete := by
    intro buf body start consumed st h
    unfold frameRequestBody at h
    split at h
    · split_ifs at h
      · cases h
      · cases h
        exact Nat.le_add_right _ _
    · cases h
      exact Nat.le_refl _
  part := by
    intro buf body start consumed st k h hk hinside
    unfold frameRequestBody at h ⊢
    cases hcl : st.contentLength with
    | none =>
      rw [hcl] at h
      cases h
      rw [if_neg (by omega)]
    | some n =>
      rw [hcl] at h
      dsimp only at h ⊢
      split_ifs at h
      · cases h
      cases h
      by_cases hshort : k < st.headerBlockEnd + n
      · rw [if_pos hshort, if_pos (by rw [length_take]; omega)]
      · rw [if_neg hshort, if_neg (by rw [length_take]; omega), drop_take, take_take,
          Nat.min_eq_left (by omega)]

theorem framesByLength_response :
    FramesByLength fun buf (start : Nat × Bytes × UInt8) st =>
      frameResponseBody buf start.1 st where
  complete := by
    intro buf body start consumed st h
    rcases frameResponseBody_cases start.1 st with ⟨e, herr⟩ | ⟨st', hst, hsame⟩
    · rw [herr] at h
      cases h
    · rw [hsame] at h
      exact hst ▸ @FramesByLength.complete _ _ framesByLength_request _ _ () _ _ h
  part := by
    intro buf body start consumed st n h hn hinside
    rcases frameResponseBody_cases start.1 st with ⟨e, herr⟩ | ⟨st', hst, hsame⟩
    · rw [herr] at h
      cases h
    · rw [hsame] at h ⊢
      exact @FramesByLength.part _ _ framesByLength_request _ _ () _ _ _ h (hst ▸ hn) hinside

/-- What it is for a parser to be fed incrementally: a message that it accepts is also
accepted without what follows it, and each part of it is asked to grow. -/
def Incremental {α : Type} (parse : Bytes → Nat → Except ErrorInfo (Option (ParseResult α)))
    (buf : Bytes) (storage : Nat) (r : ParseResult α) : Prop :=
  (∀ n, r.consumed ≤ n → parse (buf.take n) storage = .ok (some r)) ∧
    ∀ n < r.consumed, parse (buf.take n) storage = .ok none

/-- **Incremental parsing.**  A request or a response that is accepted can be fed to the
parser in any chunks exactly if none of its header lines is as long as the limit. -/
theorem http_incremental_iff (buf : Bytes) (storage : Nat) :
    (∀ r : ParseResult HttpRequest, parseHttpRequest buf storage = .ok (some r) →
      (Incremental parseHttpRequest buf storage r ↔
        ∀ line ∈ headerLines buf, line.length < kMaxHeaderLineLength)) ∧
    ∀ r : ParseResult HttpResponse, parseHttpResponse buf storage = .ok (some r) →
      (Incremental parseHttpResponse buf storage r ↔
        ∀ line ∈ headerLines buf, line.length < kMaxHeaderLineLength) := by
  refine ⟨?_, ?_⟩
  · intro r h
    obtain ⟨hwhole, hparts⟩ := parseMessage_parts framesByLength_request framesBody_request h
    rw [← hparts]
    exact and_iff_right hwhole
  intro r h
  rw [parseHttpResponse_eq] at h
  obtain ⟨hwhole, hparts⟩ := parseMessage_parts framesByLength_response framesBody_response h
  rw [← hparts]
  simp only [Incremental, parseHttpResponse_eq]
  exact and_iff_right hwhole

/-- A request with a body and a bodyless response, in any chunks. -/
theorem http_incremental_short :
    (∃ r, Incremental parseHttpRequest
      (ascii "PUT / HTTP/1.1\r\nContent-Length: 2\r\n\r\nabGET") 8 r) ∧
    ∃ r, Incremental parseHttpResponse (ascii "HTTP/1.1 204\r\nX: y\r\n\r\nHTTP") 8 r := by
  obtain ⟨r, hrequest⟩ : ∃ r, parseHttpRequest
      (ascii "PUT / HTTP/1.1\r\nContent-Length: 2\r\n\r\nabGET") 8 = .ok (some r) := ⟨_, rfl⟩
  obtain ⟨r', hresponse⟩ : ∃ r, parseHttpResponse
      (ascii "HTTP/1.1 204\r\nX: y\r\n\r\nHTTP") 8 = .ok (some r) := ⟨_, rfl⟩
  exact ⟨⟨r, ((http_incremental_iff _ _).1 r hrequest).mpr (by decide)⟩,
    r', ((http_incremental_iff _ _).2 r' hresponse).mpr (by decide)⟩

/-- A header line as long as the limit allows. -/
def longestLine : Bytes :=
  ascii "X:" ++ replicate (kMaxHeaderLineLength - 2) 97

theorem length_longestLine : longestLine.length = kMaxHeaderLineLength := by
  rw [longestLine, length_append, length_replicate]
  rfl

theorem headerField_longestLine :
    headerField longestLine none =
      .ok (⟨ascii "X", replicate (kMaxHeaderLineLength - 2) 97⟩, none) := by
  have hvalid : isValidFieldValue (replicate (kMaxHeaderLineLength - 2) 97) = true := by
    decide +kernel
  have htrim : trimOws (replicate (kMaxHeaderLineLength - 2) 97) =
      replicate (kMaxHeaderLineLength - 2) 97 := by
    refine trimFieldName_of_no_ows fun c hc => ?_
    rw [eq_of_mem_replicate ((dropWhile_suffix _).subset hc)]
    rfl
  unfold longestLine headerField
  generalize replicate (kMaxHeaderLineLength - 2) (97 : UInt8) = value at hvalid htrim ⊢
  rw [show (ascii "X:" ++ value).dropWhile (· != 58) = 58 :: value from rfl]
  dsimp only
  rw [htrim, hvalid]
  rfl

theorem scanLine_longestLine (rest : Bytes) :
    scanLine (longestLine ++ CR :: LF :: rest) = .ok (.line longestLine rest) := by
  rw [scanLine_written (show longestLine ≠ [] by decide +kernel) (by decide +kernel)
    (by decide +kernel), if_neg]
  rw [length_longestLine]
  exact Nat.lt_irrefl _

/-- Cut between CR and LF, a header line of the limit's length is reported as too long. -/
theorem http_incremental_cut_limit :
    ∃ (buf : Bytes) (r : ParseResult HttpRequest) (n : Nat),
      parseHttpRequest buf 8 = .ok (some r) ∧ n < r.consumed ∧
      parseHttpRequest (buf.take n) 8 =
        .error ⟨.codecOverflow, "header line exceeds max length"⟩ := by
  have hscan := scanLine_longestLine [CR, LF]
  have hfield := headerField_longestLine
  have hlength : longestLine.length = 8192 := length_longestLine
  obtain ⟨value, hvalue⟩ : ∃ value : Bytes, value = replicate (kMaxHeaderLineLength - 2) 97 :=
    ⟨_, rfl⟩
  rw [← hvalue] at hfield
  -- The line is a variable from here on, so that nothing evaluates it.
  generalize longestLine = line at hscan hfield hlength
  obtain ⟨tail, htail⟩ : ∃ tail, tail = line ++ CR :: LF :: [CR, LF] := ⟨_, rfl⟩
  rw [← htail] at hscan
  have hblock : AcceptedBlock ⟨[⟨ascii "X", value⟩], 8212, none⟩ 8 16 tail [] none := by
    refine .line hscan hfield (.blank rfl ?_)
    rw [hlength]
    rfl
  obtain ⟨buf, hbuf⟩ : ∃ buf, buf = ascii "GET / HTTP/1.1\r\n" ++ tail := ⟨_, rfl⟩
  have hfind : findCrlf (buf.take (kMaxStartLineLength + 2)) = some 14 := by
    rw [hbuf]
    rfl
  have hstart : parseRequestLine (buf.take 14) = .ok (ascii "GET", ascii "/", 1) := by
    rw [hbuf, show (ascii "GET / HTTP/1.1\r\n" ++ tail).take 14 = ascii "GET / HTTP/1.1" from rfl]
    decide
  have hdrop : buf.drop 16 = tail := by
    rw [hbuf]
    rfl
  have hbufLength : buf.length = 8212 := by
    rw [hbuf, htail, length_append, length_append, hlength]
    rfl
  refine ⟨buf, ⟨⟨ascii "GET", ascii "/", 1, [⟨ascii "X", value⟩], []⟩, 8212⟩, 8209, ?_,
    (by decide : 8209 < 8212), ?_⟩
  · have hwhole : buf = buf.take 8212 := by
      rw [← hbufLength, take_length]
    rw [hwhole, parseHttpRequest, parseMessage_take hfind hstart (by decide), hdrop]
    rw [show min 8 kMaxHeaderCount = 8 from rfl,
      hblock.take (by decide : 8212 ≤ 16 + (8212 - (14 + 2)))]
    rfl
  · rw [parseHttpRequest, parseMessage_take hfind hstart (by decide), hdrop]
    have hcut := scanLine_part hscan (n := 8193) (by omega)
    rw [if_pos (by decide)] at hcut
    rw [show 8209 - (14 + 2) = 8193 from rfl, parseHeaderBlock_error hcut]

end Eph.Net
