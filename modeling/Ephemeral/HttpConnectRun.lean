import Ephemeral.HttpConnect
import Ephemeral.WsUpgradeRun

/-!
# The proxy handshake over an unreliable schedule

Like the WebSocket upgrade, the handshake with a proxy is the request-and-answer client of
`Exchange`, but its answers are not always final.  An error of the strict parser in a part
of the head counts as a malformed response, while on the whole head the permissive parser
takes over.  And where the strict parser accepts, it takes a body of a 2xx response that
is not one: what follows the head belongs to the tunnel.  `PlainHead` says that neither
happens, and `http_connect_iff` that the handshake does what it should exactly then.
-/

namespace Eph.Net

open ByteOrder Core Exchange List

variable {p : Nat}

/-! ## The loops are the exchange -/

variable (leftover : Option Bytes)

/-- The result of the handshake in each phase of the exchange. -/
def connectConcluded :
    Phase UInt8 (Except ErrorInfo (Nat × Nat)) × Wire UInt8 → ConnectRun (Wire UInt8)
  | (.writing _, w) => ⟨none, leftover, w⟩
  | (.reading _, w) => ⟨none, leftover, w⟩
  | (.overflow _, w) =>
    ⟨some (.error ⟨.proxyHandshakeFailed, "http_connect: response too large"⟩), leftover, w⟩
  | (.answered _ (.error e), w) => ⟨some (.error e), leftover, w⟩
  | (.answered rx (.ok found), w) => connectDone leftover rx found w

/-- The loops, resumed in a phase of the exchange. -/
def connectResumed (clock : Nat → Nat) (deadline : Nat) (req : Bytes) (leftover : Option Bytes)
    (n i : Nat) :
    Phase UInt8 (Except ErrorInfo (Nat × Nat)) × Wire UInt8 → ConnectRun (Wire UInt8)
  | (.writing sent, w) =>
    connectLoop wireSink clock deadline req leftover n i (.sending sent) w
  | (.reading rx, w) =>
    connectLoop wireSink clock deadline req leftover n i (.receiving rx) w
  | s => connectConcluded leftover s

section Loops

variable {clock : Nat → Nat} {deadline : Nat} {req : Bytes} {leftover : Option Bytes}
  {stream : Bytes} {recvs : List RecvTurn}
  {s : Phase UInt8 (Except ErrorInfo (Nat × Nat)) × Wire UInt8}

section

variable (hclock : ∀ i, clock i < deadline) (n i : Nat)
  (h : Sound req kConnectRxCapacity connectAnswer stream recvs s)

include hclock h

/-- Within the deadline an iteration is a call of the exchange. -/
theorem connectResumed_succ :
    connectResumed clock deadline req leftover (n + 1) i s =
      connectResumed clock deadline req leftover n (i + 1)
        (turn req kConnectRxCapacity connectAnswer s) := by
  obtain ⟨phase, w⟩ := s
  have hlate : ¬ deadline ≤ clock i := by
    have := hclock i
    omega
  cases phase with
  | overflow rx | answered rx b => rfl
  | writing sent =>
    have hrest : req.drop sent ≠ [] := by
      have hsent := h.1
      rw [ne_eq, drop_eq_nil_iff]
      omega
    obtain ⟨hwhat, -⟩ := w.send_cases (req.drop sent) hrest
    dsimp only [connectResumed, turn]
    rw [connectLoop, if_neg hlate]
    dsimp only [wireSink]
    generalize w.send (req.drop sent) = call at hwhat ⊢
    obtain ⟨taken, w'⟩ := call
    rcases hwhat with ⟨hnone, -⟩ | ⟨k, hsome, hpos, -, -⟩
    · cases hnone
      rfl
    cases hsome
    dsimp only
    rw [if_neg (by omega)]
    split
    · rfl
    · rfl
  | reading rx =>
    dsimp only [connectResumed, turn]
    rw [connectLoop, if_neg hlate]
    split
    · rfl
    dsimp only [wireSink]
    generalize w.recv (kConnectRxCapacity - rx.length) = call
    obtain ⟨got, w'⟩ := call
    cases got with
    | none => rfl
    | some data =>
      dsimp only
      split
      · rfl
      cases connectAnswer (rx ++ data) with
      | none => rfl
      | some b => cases b <;> rfl

/-- **Within the deadline the handshake is the exchange.** -/
theorem connectResumed_eq :
    connectResumed clock deadline req leftover n i s =
      connectConcluded leftover ((turn req kConnectRxCapacity connectAnswer)^[n] s) := by
  induction n generalizing i s with
  | zero =>
    obtain ⟨phase, w⟩ := s
    cases phase <;> rfl
  | succ n ih =>
    rw [connectResumed_succ hclock n i h, Function.iterate_succ_apply]
    exact ih (i + 1) (turn_sound rfl h)

end

end Loops

/-! ## What the two parsers say about a head -/

/-- The stream `R` begins with the head of an HTTP/1.x response with the three-digit status
`code`, which ends at `k` within the buffer. -/
structure ConnectHead (R : Bytes) (k code : Nat) : Prop where
  statusLine : ∃ minor a b c rest, R = ascii "HTTP/1." ++ minor :: 32 :: a :: b :: c :: rest ∧
    [minor, a, b, c].all isDigitChar = true ∧ rest.head?.all (!isDigitChar ·) = true ∧
    code = Decimal.value 0 [a, b, c]
  ends : headEnd R = some k
  fits : k ≤ kConnectRxCapacity

namespace ConnectHead

variable {R : Bytes} {k code : Nat} (h : ConnectHead R k code)

include h

theorem bounds : 16 ≤ k ∧ k ≤ R.length := by
  refine ⟨?_, (headEnd_append h.ends []).2.1⟩
  obtain ⟨minor, a, b, c, rest, hR, hdigits, -, -⟩ := h.statusLine
  have htext : CR ∉ ascii "HTTP/1." ++ [minor, 32, a, b, c] := by
    rw [mem_append]
    rintro (hname | hline)
    · exact absurd hname (by decide +kernel)
    have hdigit : ∀ d ∈ [minor, a, b, c], d ≠ CR := by
      rintro d hd rfl
      exact absurd (all_eq_true.mp hdigits _ hd) (by decide)
    simp only [mem_cons, not_mem_nil, or_false] at hline hdigit
    rcases hline with rfl | hspace | rfl | rfl | rfl
    · exact hdigit CR (.inl rfl) rfl
    · exact absurd hspace (by decide)
    all_goals exact hdigit CR (by simp) rfl
  have hends := h.ends
  rw [show R = (ascii "HTTP/1." ++ [minor, 32, a, b, c]) ++ rest by rw [hR, append_assoc]; rfl,
    headEnd_text htext] at hends
  obtain ⟨j, hj, rfl⟩ := Option.map_eq_some_iff.mp hends
  have hfour := (headEnd_append hj []).2.2
  exact Nat.add_le_add_right hfour 12

/-- A part that holds the head begins with it. -/
theorem take {q : Nat} (hq : k ≤ q) : ConnectHead (R.take q) k code where
  statusLine := by
    have hlong := h.bounds.1
    obtain ⟨minor, a, b, c, rest, rfl, hdigits, hrest, hcode⟩ := h.statusLine
    obtain ⟨m, rfl⟩ := Nat.exists_eq_add_of_le' (Nat.le_trans hlong hq)
    refine ⟨minor, a, b, c, rest.take (m + 4), ?_, hdigits, ?_, hcode⟩
    · rw [take_append]
      rfl
    · cases rest with
      | nil => rfl
      | cons d rest => exact hrest
  ends := by
    have hlocal := (headEnd_local h.ends hq []).1
    rwa [append_nil] at hlocal
  fits := h.fits

/-- The permissive parser on a whole head: the status code if it is a usual one. -/
theorem tryParse :
    tryParseConnectResponse R = if code < 100 ∨ 599 < code then none else some (code, k) := by
  obtain ⟨hlong, hinside⟩ := h.bounds
  obtain ⟨minor, a, b, c, rest, hR, hdigits, hrest, rfl⟩ := h.statusLine
  have hname : R.take 7 = ascii "HTTP/1." := by
    rw [hR, take_append]
    rfl
  simp only [all_cons, all_nil, Bool.and_true, Bool.and_eq_true] at hdigits
  have hnext : rest.takeWhile isDigitChar = [] := by
    cases rest with
    | nil => rfl
    | cons d rest =>
      refine takeWhile_cons_of_neg ?_
      simpa using hrest
  have hcode : leadingDigits (R.drop 9) = [a, b, c] := by
    rw [hR, drop_append, leadingDigits]
    change List.takeWhile isDigitChar (a :: b :: c :: rest) = _
    rw [takeWhile_cons_of_pos hdigits.2.1, takeWhile_cons_of_pos hdigits.2.2.1,
      takeWhile_cons_of_pos hdigits.2.2.2, hnext]
  unfold tryParseConnectResponse
  rw [if_neg (by omega), if_neg (not_not_intro hname), h.ends]
  rw [hcode]
  exact if_neg (not_not_intro rfl)

/-- The permissive parser needs the blank line. -/
theorem tryParse_part (hp : p < k) : tryParseConnectResponse (R.take p) = none := by
  unfold tryParseConnectResponse
  rw [headEnd_take h.ends hp]
  split
  · rfl
  · split <;> rfl

/-- The strict parser on a head that it accepts: the same status code, and the whole head. -/
theorem strict {r : ParseResult HttpResponse}
    (hparse : parseHttpResponse R kMaxHeaderCount = .ok (some r)) :
    r.value.statusCode = code ∧ k ≤ r.consumed ∧ r.consumed ≤ R.length := by
  obtain ⟨k', hk', hle, hbound, -⟩ := parseHttpResponse_headEnd hparse
  rw [h.ends] at hk'
  cases hk'
  refine ⟨?_, hle, hbound⟩
  rw [parseHttpResponse_eq] at hparse
  obtain ⟨crlf, start, st, body, -, hstart, -, -, hvalue⟩ := parseMessage_inv hparse
  rw [hvalue]
  have hline := (parseStatusLine_inv hstart).1
  rw [length_take] at hline
  obtain ⟨minor, a, b, c, rest, hR, hdigits, -, rfl⟩ := h.statusLine
  obtain ⟨m, rfl⟩ := Nat.exists_eq_add_of_le' (show 12 ≤ crlf by omega)
  have htake : R.take (m + 12) = ascii "HTTP/1." ++ minor :: 32 :: a :: b :: c :: rest.take m := by
    rw [hR, take_append]
    rfl
  rw [htake] at hstart
  rw [all_cons, Bool.and_eq_true] at hdigits
  exact parseStatusLine_code hdigits.2 hstart

/-- Before the end of the head the strict parser does not accept. -/
theorem strict_part (hp : p < k) (r : ParseResult HttpResponse) :
    parseHttpResponse (R.take p) kMaxHeaderCount ≠ .ok (some r) := by
  intro hparse
  obtain ⟨j, hj, -⟩ := parseHttpResponse_headEnd hparse
  rw [headEnd_take h.ends hp] at hj
  cases hj

end ConnectHead

/-- Within the buffer the answers of the strict parser are final. -/
theorem parseHttpResponse_final {R : Bytes} {p q : Nat} (hpq : p ≤ q) (hp : p ≤ kConnectRxCapacity)
    (hdone : parseHttpResponse (R.take p) kMaxHeaderCount ≠ .ok none) :
    parseHttpResponse (R.take q) kMaxHeaderCount =
      parseHttpResponse (R.take p) kMaxHeaderCount := by
  have hlen := length_take_le p R
  obtain ⟨m, rfl⟩ := Nat.exists_eq_add_of_le hpq
  rw [take_add]
  rw [parseHttpResponse_eq] at hdone ⊢
  rw [parseHttpResponse_eq]
  rcases parseMessage_append framesBody_response (R.take p) ((R.drop p).take m) kMaxHeaderCount
    with hnone | ⟨-, hlong⟩ | hsame
  · exact absurd hnone hdone
  · unfold kMaxHeaderLineLength at hlong
    unfold kConnectRxCapacity at hp
    omega
  · exact hsame

/-- The strict parser goes along with the head: with a usual status it still asks for more
one byte before the end, and with a 2xx status it is content with the end. -/
def PlainHead (R : Bytes) (k code : Nat) : Prop :=
  (100 ≤ code → code ≤ 599 → parseHttpResponse (R.take (k - 1)) kMaxHeaderCount = .ok none) ∧
  (200 ≤ code → code < 300 → parseHttpResponse (R.take k) kMaxHeaderCount ≠ .ok none)

namespace ConnectHead

variable {R : Bytes} {k code : Nat} (h : ConnectHead R k code)

include h

/-- The answer where the strict parser reports an error. -/
theorem connectAnswer_error {e : ErrorInfo}
    (hparse : parseHttpResponse (R.take p) kMaxHeaderCount = .error e) :
    connectAnswer (R.take p) =
      if k ≤ p ∧ 100 ≤ code ∧ code ≤ 599 then some (.ok (code, k))
      else some (.error ⟨.proxyHandshakeFailed, "http_connect: malformed response"⟩) := by
  unfold connectAnswer
  rw [hparse]
  by_cases hp : p < k
  · rw [h.tryParse_part hp, if_neg (by omega)]
  rw [(h.take (Nat.le_of_not_lt hp)).tryParse]
  by_cases husual : code < 100 ∨ 599 < code
  · rw [if_pos husual, if_neg (by omega)]
  · rw [if_neg husual, if_pos (by omega)]

/-- A status code is told from the whole head at least. -/
theorem connectAnswer_ok {found : Nat × Nat}
    (hanswer : connectAnswer (R.take p) = some (.ok found)) :
    k ≤ p ∧ found.2 ≤ (R.take p).length := by
  have hinside := h.bounds.2
  cases hparse : parseHttpResponse (R.take p) kMaxHeaderCount with
  | error e =>
    rw [h.connectAnswer_error hparse] at hanswer
    split at hanswer
    · rename_i hwhole
      cases hanswer
      refine ⟨hwhole.1, ?_⟩
      rw [length_take]
      omega
    · cases hanswer
  | ok r =>
    cases r with
    | none =>
      simp only [connectAnswer, hparse] at hanswer
      cases hanswer
    | some r =>
      have hp : k ≤ p := by
        by_contra hp
        exact h.strict_part (by omega) r hparse
      simp only [connectAnswer, hparse] at hanswer
      cases hanswer
      exact ⟨hp, ((h.take hp).strict hparse).2.2⟩

/-- **Along a plain head the answers are final.** -/
theorem connectAnswer_final (hplain : PlainHead R k code) :
    Final kConnectRxCapacity connectAnswer R := by
  intro p q hpq hq
  have hp : p ≤ kConnectRxCapacity := Nat.le_trans hpq hq
  cases hparse : parseHttpResponse (R.take p) kMaxHeaderCount with
  | error e =>
    right
    have hsame := parseHttpResponse_final hpq hp (by rw [hparse]; nofun)
    rw [hparse] at hsame
    rw [h.connectAnswer_error hsame, h.connectAnswer_error hparse]
    by_cases husual : 100 ≤ code ∧ code ≤ 599
    · -- The error cannot come before the end of the head.
      have hk : k ≤ p := by
        by_contra hk
        have hend := parseHttpResponse_final (show p ≤ k - 1 by omega) hp (by rw [hparse]; nofun)
        rw [hparse, hplain.1 husual.1 husual.2] at hend
        cases hend
      rw [if_pos ⟨by omega, husual⟩, if_pos ⟨hk, husual⟩]
    · rw [if_neg (fun hall => husual hall.2), if_neg (fun hall => husual hall.2)]
  | ok r =>
    cases r with
    | none =>
      left
      simp only [connectAnswer, hparse]
    | some r =>
      right
      have hsame := parseHttpResponse_final hpq hp (by rw [hparse]; nofun)
      simp only [connectAnswer, hsame, hparse]

/-- On a plain head with a 2xx status, the end of the head is the answer. -/
theorem connectAnswer_plain (hplain : PlainHead R k code) (hlow : 200 ≤ code) (hhigh : code < 300) :
    connectAnswer (R.take k) = some (.ok (code, k)) := by
  have hinside := h.bounds.2
  cases hparse : parseHttpResponse (R.take k) kMaxHeaderCount with
  | error e => rw [h.connectAnswer_error hparse, if_pos (by omega)]
  | ok r =>
    cases r with
    | none => exact absurd hparse (hplain.2 hlow hhigh)
    | some r =>
      obtain ⟨hcode, hle, hbound⟩ := (h.take (Nat.le_refl k)).strict hparse
      rw [length_take] at hbound
      simp only [connectAnswer, hparse]
      rw [hcode, show r.consumed = k by omega]

/-- If the strict parser is not content with the end of the head, the response that it waits
for goes beyond it. -/
theorem connectAnswer_beyond (hnone : parseHttpResponse (R.take k) kMaxHeaderCount = .ok none)
    {found : Nat × Nat} (hanswer : connectAnswer (R.take p) = some (.ok found)) : found.2 ≠ k := by
  obtain ⟨hkp, -⟩ := h.connectAnswer_ok hanswer
  obtain ⟨m, rfl⟩ := Nat.exists_eq_add_of_le hkp
  cases hparse : parseHttpResponse (R.take (k + m)) kMaxHeaderCount with
  | error e =>
    rw [take_add] at hparse
    have hlen : (R.take k).length ≤ kMaxHeaderLineLength := by
      have hfits := h.fits
      unfold kConnectRxCapacity at hfits
      unfold kMaxHeaderLineLength
      rw [length_take]
      omega
    exact absurd hparse (parseHttpResponse_grows (h.take (Nat.le_refl k)).ends hlen hnone _ e)
  | ok r =>
    cases r with
    | none =>
      simp only [connectAnswer, hparse] at hanswer
      cases hanswer
    | some r =>
      simp only [connectAnswer, hparse] at hanswer
      cases hanswer
      intro hconsumed
      rw [parseHttpResponse_eq] at hparse hnone
      have hpart := (parseMessage_parts framesByLength_response framesBody_response hparse).1 k
        (Nat.le_of_eq hconsumed)
      rw [take_take, Nat.min_eq_left hkp, hnone] at hpart
      cases hpart

end ConnectHead

/-! ## The handshake -/

/-- The result of the handshake for a verdict of the exchange. -/
def connectResult : Option (Option (Except ErrorInfo (Nat × Nat))) → Option (Except ErrorInfo Unit)
  | none => none
  | some none => some (.error ⟨.proxyHandshakeFailed, "http_connect: response too large"⟩)
  | some (some (.error e)) => some (.error e)
  | some (some (.ok found)) => some (connectVerdict found.1)

theorem connectDone_result {σ : Type} (rx : Bytes) (found : Nat × Nat)
    (w : σ) : (connectDone leftover rx found w).result = some (connectVerdict found.1) ∧
      (connectDone leftover rx found w).io = w := by
  unfold connectDone
  cases connectVerdict found.1 with
  | error e | ok u => exact ⟨rfl, rfl⟩

theorem connectConcluded_result (s : Phase UInt8 (Except ErrorInfo (Nat × Nat)) × Wire UInt8) :
    (connectConcluded leftover s).result = connectResult s.1.verdict ∧
      (connectConcluded leftover s).io = s.2 := by
  obtain ⟨phase, w⟩ := s
  cases phase with
  | writing sent | reading rx | overflow rx => exact ⟨rfl, rfl⟩
  | answered rx b =>
    cases b with
    | error e => exact ⟨rfl, rfl⟩
    | ok found => exact connectDone_result leftover rx found w

theorem connectVerdict_ok {status : Nat} :
    connectVerdict status = .ok () ↔ 200 ≤ status ∧ status < 300 := by
  unfold connectVerdict
  split
  · constructor
    · nofun
    · omega
  split
  · constructor
    · nofun
    · omega
  · exact ⟨fun _ => by omega, fun _ => rfl⟩

section Handshake

variable {proxy : ProxyConfig} {host : Bytes} {port : UInt16} {req : Bytes} {clock : Nat → Nat}
  {R : Bytes} {sends : List SendTurn} {recvs : List RecvTurn} {n : Nat}

theorem connect_start (hreq : connectRequest proxy host port = .ok req) (R : Bytes)
    (sends : List SendTurn) (recvs : List RecvTurn) :
    Sound req kConnectRxCapacity connectAnswer R recvs (.writing 0, ⟨sends, recvs, [], R⟩) := by
  refine ⟨?_, rfl, rfl, rfl⟩
  unfold connectRequest at hreq
  split at hreq
  · cases hreq
  split at hreq
  · cases hreq
  dsimp only at hreq
  split at hreq
  · cases hreq
  rename_i hbuilt
  cases hreq
  exact buildHttpRequest_length_pos hbuilt

/-- Within its deadline `perform_http_connect` is the exchange. -/
theorem performHttpConnect_eq (hreq : connectRequest proxy host port = .ok req)
    (hclock : ∀ i, clock i < clock 0 + proxy.timeout) :
    performHttpConnect wireSink clock proxy host port (some []) n ⟨sends, recvs, [], R⟩ =
      connectConcluded (some []) ((turn req kConnectRxCapacity connectAnswer)^[n]
        (.writing 0, ⟨sends, recvs, [], R⟩)) := by
  unfold performHttpConnect
  rw [hreq]
  exact connectResumed_eq hclock n 1 (connect_start hreq R sends recvs)

/-- The tunnel is open: the handshake has told a 2xx status from its buffer. -/
theorem connectConcluded_open {s : Phase UInt8 (Except ErrorInfo (Nat × Nat)) × Wire UInt8}
    (hsound : Sound req kConnectRxCapacity connectAnswer R recvs s)
    (hopen : (connectConcluded (some []) s).result = some (.ok ())) :
    ∃ (p : Nat) (found : Nat × Nat), s.1.verdict = some (some (.ok found)) ∧
      connectAnswer (R.take p) = some (.ok found) ∧
      (found.2 ≤ (R.take p).length →
        (connectConcluded (some []) s).leftover.getD [] ++ s.2.unread = R.drop found.2) := by
  obtain ⟨phase, w⟩ := s
  cases phase with
  | writing sent | reading rx | overflow rx => cases hopen
  | answered rx b =>
    cases b with
    | error e => cases hopen
    | ok found =>
      obtain ⟨-, hstream, -, hanswer⟩ := hsound
      have hrx : R.take rx.length = rx := by rw [← hstream, take_left]
      refine ⟨rx.length, found, rfl, by rw [hrx, hanswer], fun hfound => ?_⟩
      rw [hrx] at hfound
      dsimp only [connectConcluded] at hopen ⊢
      rw [(connectDone_result _ _ _ _).1] at hopen
      rw [connectDone, Option.some.inj hopen, ← hstream, drop_append_of_le_length hfound]
      rfl

end Handshake

/-- An error of the strict parser inside the head depends on the schedule: cut off before the
end, the head is malformed, and as a whole it has its status. -/
theorem ConnectHead.cut {R : Bytes} {k code : Nat} (h : ConnectHead R k code) (req : Bytes)
    (hlow : 100 ≤ code) (hhigh : code ≤ 599)
    (hdone : parseHttpResponse (R.take (k - 1)) kMaxHeaderCount ≠ .ok none) :
    ((turn req kConnectRxCapacity connectAnswer)^[4]
        (.writing 0, ⟨[], [.delivers (k - 1)], [], R⟩)).1.verdict =
      some (some (.error ⟨.proxyHandshakeFailed, "http_connect: malformed response"⟩)) ∧
    ((turn req kConnectRxCapacity connectAnswer)^[3] (.writing 0, ⟨[], [], [], R⟩)).1.verdict =
      some (some (.ok (code, k))) := by
  obtain ⟨hlong, hinside⟩ := h.bounds
  have hfits := h.fits
  have hpiece : ∀ p, 0 < p → R.take p ≠ [] := by
    intro p hp hnil
    have := congrArg List.length hnil
    rw [length_take, length_nil] at this
    omega
  obtain ⟨e, herr⟩ : ∃ e, parseHttpResponse (R.take (k - 1)) kMaxHeaderCount = .error e := by
    cases hparse : parseHttpResponse (R.take (k - 1)) kMaxHeaderCount with
    | error e => exact ⟨e, rfl⟩
    | ok r =>
      cases r with
      | none => exact absurd hparse hdone
      | some r => exact absurd hparse (h.strict_part (by omega) r)
  have hwhole : parseHttpResponse (R.take kConnectRxCapacity) kMaxHeaderCount = .error e := by
    rw [parseHttpResponse_final (by omega) (by omega) hdone, herr]
  constructor
  · have hanswer := h.connectAnswer_error herr
    rw [if_neg (by omega)] at hanswer
    have hrecv : Wire.recv ⟨[], [.delivers (k - 1)], [] ++ req, R⟩ kConnectRxCapacity =
        (some (R.take (k - 1)), ⟨[], [], [] ++ req, R.drop (k - 1)⟩) := by
      dsimp only [Wire.recv]
      rw [Nat.min_eq_left (by omega)]
    rw [answered_first (by decide) rfl hrecv (hpiece _ (by omega)) hanswer 2]
    rfl
  · have hanswer := h.connectAnswer_error hwhole
    rw [if_pos ⟨hfits, hlow, hhigh⟩] at hanswer
    rw [answered_first (by decide) rfl rfl (hpiece _ (by decide)) hanswer 1]
    rfl

/-- **When the tunnel is set up as it should be.**  For every proxy stream that begins with
the head of a response, the handshake sends its request once, has the result it has when
all arrives at once, and on a 2xx status hands on what follows the head, for all schedules
within the deadline, exactly if the strict parser goes along with the head. -/
theorem http_connect_iff {proxy : ProxyConfig} {host : Bytes} {port : UInt16} {req : Bytes}
    (hreq : connectRequest proxy host port = .ok req) {clock : Nat → Nat}
    (hclock : ∀ i, clock i < clock 0 + proxy.timeout) {R : Bytes} {k code : Nat}
    (hhead : ConnectHead R k code) :
    (∀ (sends : List SendTurn) (recvs : List RecvTurn) (n : Nat),
      sends.length + recvs.length + 3 ≤ n →
      let run := performHttpConnect wireSink clock proxy host port (some []) n ⟨sends, recvs, [], R⟩
      let whole := performHttpConnect wireSink clock proxy host port (some []) 3 ⟨[], [], [], R⟩
      run.io.outgoing = req ∧ run.result = whole.result ∧
        (200 ≤ code → code < 300 → run.result = some (.ok ()) ∧
          run.leftover.getD [] ++ run.io.unread = R.drop k)) ↔
      PlainHead R k code := by
  obtain ⟨hlong, hinside⟩ := hhead.bounds
  have hfits := hhead.fits
  simp only [performHttpConnect_eq hreq hclock, connectConcluded_result]
  constructor
  · intro hall
    refine ⟨fun hlow hhigh => ?_, fun hlow hhigh hnone => ?_⟩
    · -- An error before the end of the head shows if the head is cut there.
      by_contra hdone
      obtain ⟨hcut, hwhole⟩ := hhead.cut req hlow hhigh hdone
      have hsame := (hall [] [.delivers (k - 1)] 4 (Nat.le_refl _)).2.1
      rw [hcut, hwhole] at hsame
      -- No status code is answered like a malformed response.
      have hsame := (Option.some.inj hsame).symm
      unfold connectVerdict at hsame
      split at hsame
      · cases hsame
      · split at hsame <;> simp at hsame
    · -- A 2xx response that is not over with its head takes from what follows.
      obtain ⟨-, -, hopen⟩ := hall [] [] 3 (Nat.le_refl _)
      obtain ⟨hok, hleft⟩ := hopen hlow hhigh
      rw [← (connectConcluded_result (some []) _).1] at hok
      obtain ⟨p, found, -, hanswer, hrest⟩ :=
        connectConcluded_open (run_sound rfl (connect_start hreq R [] []) 3) hok
      have hbound := (hhead.connectAnswer_ok hanswer).2
      have hdrop := congrArg List.length (hleft.symm.trans (hrest hbound))
      rw [length_take] at hbound
      rw [length_drop, length_drop] at hdrop
      exact hhead.connectAnswer_beyond hnone hanswer (by omega)
  · intro hplain sends recvs n hn
    have hfinal := hhead.connectAnswer_final hplain
    have hsound := run_sound rfl (connect_start hreq R sends recvs) n
    have hsettled := settles rfl (connect_start hreq R sends recvs) hn
    have hverdict := settled_verdict hfinal hsound hsettled
    refine ⟨hsound.outgoing_of_settled hsettled, ?_, ?_⟩
    · rw [hverdict, settled_verdict hfinal (run_sound rfl (connect_start hreq R [] []) 3)
        (settles rfl (connect_start hreq R [] []) (Nat.le_refl _))]
    intro hlow hhigh
    have hanswer := hhead.connectAnswer_plain hplain hlow hhigh
    have hcap : connectAnswer (R.take kConnectRxCapacity) = some (.ok (code, k)) := by
      rcases hfinal k kConnectRxCapacity hfits (Nat.le_refl _) with hnone | hsame
      · rw [hanswer] at hnone
        cases hnone
      · rw [hsame, hanswer]
    have htold : wholeVerdict kConnectRxCapacity connectAnswer R =
        some (some (.ok (code, k))) := by
      rw [wholeVerdict, hcap]
    rw [htold] at hverdict
    have hok : (connectConcluded (some []) ((turn req kConnectRxCapacity connectAnswer)^[n]
          (.writing 0, ⟨sends, recvs, [], R⟩))).result = some (.ok ()) := by
      rw [(connectConcluded_result _ _).1, hverdict]
      exact congrArg some (connectVerdict_ok.mpr ⟨hlow, hhigh⟩)
    obtain ⟨p, found, hfound, hanswer', hrest⟩ := connectConcluded_open hsound hok
    rw [hverdict] at hfound
    cases hfound
    rw [← (connectConcluded_result (some []) _).1]
    exact ⟨hok, hrest (hhead.connectAnswer_ok hanswer').2⟩

/-- A proxy that answers without headers, over a pipe that takes its time. -/
theorem http_connect_plain :
    let R := ascii "HTTP/1.1 200 OK\r\n\r\nabc"
    let run := performHttpConnect wireSink (fun _ => 0) ⟨none, none, 1⟩ (ascii "localhost") 443
      (some []) 7 ⟨[.accepts 9, .blocked], [.delivers 7, .blocked], [], R⟩
    run.result = some (.ok ()) ∧ run.leftover.getD [] ++ run.io.unread = ascii "abc" := by
  have hok : (connectRequest ⟨none, none, 1⟩ (ascii "localhost") 443).toOption.isSome = true := by
    decide +kernel
  match hreq : connectRequest ⟨none, none, 1⟩ (ascii "localhost") 443 with
  | .error e =>
    rw [hreq] at hok
    cases hok
  | .ok req =>
    have hhead : ConnectHead (ascii "HTTP/1.1 200 OK\r\n\r\nabc") 19 200 :=
      ⟨⟨49, 50, 48, 48, ascii " OK\r\n\r\nabc", by decide +kernel, rfl, rfl, rfl⟩, rfl, by decide⟩
    exact ((http_connect_iff hreq (fun _ => Nat.zero_lt_one) hhead).mpr
      ⟨fun _ _ => rfl, fun _ _ => nofun⟩ _ _ _ (by decide)).2.2 (by decide) (by decide)

/-- **The handshake can take from the tunnel, and can depend on the schedule.**  A 200
response with a Content-Length takes that many bytes from what follows.  One with a
Transfer-Encoding opens the tunnel, unless a piece ends between that line and the blank
line. -/
theorem http_connect_counterexample :
    (let R := ascii "HTTP/1.1 200 OK\r\nContent-Length: 3\r\n\r\nabcdef"
      let run := performHttpConnect wireSink (fun _ => 0) ⟨none, none, 1⟩ (ascii "localhost") 443
        (some []) 3 ⟨[], [], [], R⟩
      ConnectHead R 38 200 ∧ R.drop 38 = ascii "abcdef" ∧ run.result = some (.ok ()) ∧
        run.leftover = some (ascii "def") ∧ run.io.unread = []) ∧
    (let R := ascii "HTTP/1.1 200 OK\r\nTransfer-Encoding: chunked\r\n\r\n"
      let run := fun recvs => performHttpConnect wireSink (fun _ => 0) ⟨none, none, 1⟩
        (ascii "localhost") 443 (some []) 4 ⟨[], recvs, [], R⟩
      ConnectHead R 47 200 ∧ (run []).result = some (.ok ()) ∧ (run [.delivers 45]).result =
          some (.error ⟨.proxyHandshakeFailed, "http_connect: malformed response"⟩)) := by
  refine ⟨⟨⟨⟨49, 50, 48, 48, _, rfl, rfl, rfl, rfl⟩, rfl, by decide⟩, rfl, rfl, rfl, rfl⟩,
    ⟨⟨49, 50, 48, 48, _, rfl, rfl, rfl, rfl⟩, rfl, by decide⟩, rfl, rfl⟩

end Eph.Net
