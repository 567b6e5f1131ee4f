import Ephemeral.Decimal
import Ephemeral.HttpIncremental

/-!
# Where the head of a message ends

The head of a message is what precedes its body: the start line, the header lines and the
blank line.  It ends with the first CR LF CR LF, and this is where a parser that accepts
the header block says that it ends.  The status code stands at a fixed place of the status line.
-/

namespace Eph.Net

open ByteOrder Core List Option

variable {st : HeaderParseState}

/-- A status line that is accepted has its status code where it belongs. -/
theorem parseStatusLine_inv {line : Bytes} {start : Nat × Bytes × UInt8}
    (h : parseStatusLine line = .ok start) :
    12 ≤ line.length ∧ start.1 = (u8At line 9 - 48).toNat * 100 + (u8At line 10 - 48).toNat * 10 +
      (u8At line 11 - 48).toNat := by
  unfold parseStatusLine at h
  split at h
  · cases h
  split at h
  · cases h
  rename_i hshape
  simp only [Bool.or_eq_true, decide_eq_true_eq, not_or] at hshape
  refine ⟨Nat.le_of_not_lt hshape.1.1.1, ?_⟩
  split at h
  · cases h
  split at h
  · cases h
    rfl
  split at h
  · split at h
    · cases h
    · cases h
      rfl
  · cases h

theorem toNat_sub_digit {c : UInt8} (h : isDigitChar c = true) :
    (c - 48).toNat = Decimal.digitVal c := by
  have hc := Decimal.isDigit_iff.mp h
  exact UInt8.toNat_sub_of_le _ _ (UInt8.le_iff_toNat_le.mpr hc.1)

/-- The status code is the number that its three digits write. -/
theorem parseStatusLine_code {minor a b c : UInt8} {rest : Bytes} {start : Nat × Bytes × UInt8}
    (hdigits : [a, b, c].all isDigitChar = true)
    (h : parseStatusLine (ascii "HTTP/1." ++ minor :: 32 :: a :: b :: c :: rest) = .ok start) :
    start.1 = Decimal.value 0 [a, b, c] := by
  simp only [all_cons, all_nil, Bool.and_true, Bool.and_eq_true] at hdigits
  have hcode := (parseStatusLine_inv h).2
  rw [hcode, Decimal.value_cons, Decimal.value_cons, Decimal.value_cons, Decimal.value_nil,
    ← toNat_sub_digit hdigits.1, ← toNat_sub_digit hdigits.2.1, ← toNat_sub_digit hdigits.2.2]
  change (a - 48).toNat * 100 + (b - 48).toNat * 10 + (c - 48).toNat = _
  omega

/-- The end of the first CR LF CR LF. -/
def headEnd : Bytes → Option Nat
  | a :: b :: c :: d :: rest =>
    if a = CR ∧ b = LF ∧ c = CR ∧ d = LF then some 4
    else (headEnd (b :: c :: d :: rest)).map (· + 1)
  | _ => none

theorem headEnd_cons_of_not {a : UInt8} {rest : Bytes}
    (h : ¬ [CR, LF, CR, LF] <+: a :: rest) : headEnd (a :: rest) = (headEnd rest).map (· + 1) := by
  match rest with
  | [] => rfl
  | [b] => rfl
  | [b, c] => rfl
  | b :: c :: d :: rest =>
    rw [headEnd]
    refine if_neg ?_
    rintro ⟨rfl, rfl, rfl, rfl⟩
    exact h (prefix_append [CR, LF, CR, LF] rest)

theorem headEnd_cons_of_ne {a : UInt8} (h : a ≠ CR) (rest : Bytes) :
    headEnd (a :: rest) = (headEnd rest).map (· + 1) :=
  headEnd_cons_of_not fun hfront => h (cons_prefix_cons.mp hfront).1.symm

/-- The head does not end in text without CR. -/
theorem headEnd_text {text : Bytes} (hcr : CR ∉ text) (rest : Bytes) :
    headEnd (text ++ rest) = (headEnd rest).map (· + text.length) := by
  induction text with
  | nil => simp
  | cons a text ih =>
    rw [mem_cons, not_or] at hcr
    rw [cons_append, headEnd_cons_of_ne (Ne.symm hcr.1), ih hcr.2, Option.map_map]
    rfl

variable {buf : Bytes}

/-- What `findCrlf` finds. -/
theorem findCrlf_drop {i : Nat} (h : findCrlf buf = some i) :
    buf.drop i = CR :: LF :: buf.drop (i + 2) := by
  rw [findCrlf_iff] at h
  induction h with
  | here rest => rfl
  | later _ _ ih => exact ih

/-- The head does not end before the first CR LF. -/
theorem headEnd_of_find {i : Nat} (h : findCrlf buf = some i) :
    headEnd buf = (headEnd (buf.drop i)).map (· + i) := by
  rw [findCrlf_iff] at h
  induction h with
  | here rest => simp
  | later hnot _ ih =>
    rw [headEnd_cons_of_not, ih, drop_succ_cons, Option.map_map]
    · rfl
    intro hfront
    obtain ⟨hcr, hrest⟩ := cons_prefix_cons.mp hfront
    exact hnot ⟨hcr.symm, (cons_prefix_cons.mp hrest).1.symm⟩

/-- An end that was found lies inside; it stays when bytes follow, and when they are cut off
behind it. -/
theorem headEnd_local {k n : Nat} (h : headEnd buf = some k) (hn : k ≤ n) (more : Bytes) :
    headEnd ((buf ++ more).take n) = some k ∧ k ≤ buf.length ∧ 4 ≤ k := by
  induction buf generalizing k n with
  | nil => cases h
  | cons a rest ih =>
    by_cases hcrlf : [CR, LF, CR, LF] <+: a :: rest
    · obtain ⟨tail, htail⟩ := hcrlf
      rw [← htail] at h ⊢
      cases h
      obtain ⟨m, rfl⟩ := Nat.exists_eq_add_of_le' hn
      exact ⟨rfl, by simp, Nat.le_refl _⟩
    · rw [headEnd_cons_of_not hcrlf] at h
      obtain ⟨j, hj, rfl⟩ := map_eq_some_iff.mp h
      obtain ⟨m, rfl⟩ := Nat.exists_eq_add_of_le' (Nat.le_trans (Nat.le_add_left 1 j) hn)
      obtain ⟨hpart, hle, hfour⟩ := ih hj (Nat.le_of_succ_le_succ hn)
      have hstay : ¬ [CR, LF, CR, LF] <+: a :: (rest ++ more).take m := fun hfront =>
        hcrlf (prefix_of_prefix_length_le
          (hfront.trans (List.take_prefix (m + 1) (a :: (rest ++ more))))
          (prefix_append (a :: rest) more) (Nat.le_succ_of_le (Nat.le_trans hfour hle)))
      rw [cons_append, take_succ_cons, headEnd_cons_of_not hstay, hpart]
      exact ⟨rfl, Nat.succ_le_succ hle, Nat.le_succ_of_le hfour⟩

theorem headEnd_append {k : Nat} (h : headEnd buf = some k) (more : Bytes) :
    headEnd (buf ++ more) = some k ∧ k ≤ buf.length ∧ 4 ≤ k := by
  have hlocal := headEnd_local h (Nat.le_add_left k (buf ++ more).length) more
  rwa [take_of_length_le (Nat.le_add_right ..)] at hlocal

/-- In a shorter part no end is found. -/
theorem headEnd_take {k n : Nat} (h : headEnd buf = some k) (hn : n < k) :
    headEnd (buf.take n) = none := by
  by_contra hsome
  obtain ⟨j, hj⟩ := ne_none_iff_exists'.mp hsome
  obtain ⟨hmore, hle, -⟩ := headEnd_append hj (buf.drop n)
  rw [take_append_drop, h] at hmore
  have hlen := length_take_le n buf
  have hk := Option.some.inj hmore
  omega

/-- A head that ends has a first line that does. -/
theorem findCrlf_of_headEnd {k : Nat} (h : headEnd buf = some k) :
    ∃ i, findCrlf buf = some i ∧ i + 4 ≤ k := by
  obtain ⟨i, hi⟩ : ∃ i, findCrlf buf = some i := by
    induction buf generalizing k with
    | nil => cases h
    | cons a rest ih =>
      by_cases hcrlf : [CR, LF, CR, LF] <+: a :: rest
      · obtain ⟨tail, htail⟩ := hcrlf
        rw [← htail]
        exact ⟨0, rfl⟩
      rw [headEnd_cons_of_not hcrlf] at h
      obtain ⟨j, hj, rfl⟩ := map_eq_some_iff.mp h
      obtain ⟨i, hi⟩ := ih hj
      cases rest with
      | nil => cases hi
      | cons b rest =>
        rw [findCrlf]
        split
        · exact ⟨0, rfl⟩
        · exact ⟨i + 1, by rw [hi]; rfl⟩
  refine ⟨i, hi, ?_⟩
  rw [headEnd_of_find hi] at h
  obtain ⟨j, hj, rfl⟩ := map_eq_some_iff.mp h
  have hfour := (headEnd_append hj []).2.2
  omega

/-- Behind a CR LF and a line, the head ends where it does behind the line's CR LF. -/
theorem headEnd_of_line {buf content rest : Bytes}
    (hscan : scanLine buf = .ok (.line content rest)) :
    headEnd (CR :: LF :: buf) =
      (headEnd (CR :: LF :: rest)).map (· + (content.length + 2)) := by
  obtain ⟨c, tail, i, hbuf, hcr, hlf, hfind, -, hcontent, hrest⟩ := (scanLine_inv hscan).2 rfl
  have hwhole : findCrlf buf = some i := findCrlf_window hfind
  have hbound := findCrlf_bound hwhole
  have hdrop : buf.drop i = CR :: LF :: rest := by
    rw [findCrlf_drop hwhole, hrest]
  have hlength : content.length = i := by
    rw [hcontent, length_take]
    omega
  have htext : ¬ [CR, LF, CR, LF] <+: CR :: LF :: buf := by
    intro hfront
    rw [hbuf] at hfront
    have := (cons_prefix_cons.mp (cons_prefix_cons.mp (cons_prefix_cons.mp hfront).2).2).1
    exact hcr this.symm
  rw [headEnd_cons_of_not htext, headEnd_cons_of_ne (by decide), headEnd_of_find hwhole, hdrop,
    hlength, Option.map_map, Option.map_map]
  rfl

/-- A header block behind a CR LF ends where its blank line does. -/
theorem AcceptedBlock.headEnd {free pos : Nat} {headers : List HttpHeader} {cl : Option Nat}
    (h : AcceptedBlock st free pos buf headers cl) :
    ∃ n, Net.headEnd (CR :: LF :: buf) = some (n + 2) ∧ st.headerBlockEnd = pos + n := by
  induction h with
  | blank hscan hst =>
    obtain ⟨tail, rfl⟩ := (scanLine_inv hscan).1 rfl
    exact ⟨2, rfl, by rw [hst]⟩
  | @line free pos buf content rest headers header cl cl' hscan hfield hrest ih =>
    obtain ⟨n, hn, hend⟩ := ih
    refine ⟨n + (content.length + 2), ?_, by omega⟩
    rw [headEnd_of_line hscan, hn, map_some]
    congr 1
    omega

/-- With the blank line in the buffer, the scan for a line does not ask for more. -/
theorem scanLine_ne_needMore {j : Nat} (h : headEnd (CR :: LF :: buf) = some j)
    (hlen : buf.length ≤ kMaxHeaderLineLength) : scanLine buf ≠ .ok .needMore := by
  match buf with
  | [] => cases h
  | c :: tail =>
    by_cases hcr : c = CR
    · subst hcr
      match tail with
      | [] => cases h
      | d :: tail =>
        dsimp only [scanLine]
        rw [if_pos rfl]
        split <;> nofun
    · have htext : ¬ [CR, LF, CR, LF] <+: CR :: LF :: c :: tail := by
        intro hfront
        exact hcr (cons_prefix_cons.mp (cons_prefix_cons.mp
          (cons_prefix_cons.mp hfront).2).2).1.symm
      rw [headEnd_cons_of_not htext, headEnd_cons_of_ne (by decide), Option.map_map] at h
      obtain ⟨k, hk, -⟩ := map_eq_some_iff.mp h
      obtain ⟨i, hi, -⟩ := findCrlf_of_headEnd hk
      dsimp only [scanLine]
      rw [if_neg hcr, take_of_length_le (by omega), hi]
      dsimp only
      split
      · nofun
      · split <;> nofun

/-- A header block whose blank line is there is not asked to grow. -/
theorem parseHeaderBlock_ne_none {free pos j : Nat} {headers : List HttpHeader} {cl : Option Nat}
    (h : headEnd (CR :: LF :: buf) = some j) (hlen : buf.length ≤ kMaxHeaderLineLength) :
    parseHeaderBlock free pos buf headers cl ≠ .ok none := by
  induction free generalizing pos j buf headers cl with
  | zero =>
    rw [parseHeaderBlock]
    split
    · simp
    · rename_i hscan
      exact absurd hscan (scanLine_ne_needMore h hlen)
    · simp
    · split <;> simp
  | succ free ih =>
    rw [parseHeaderBlock]
    split
    · simp
    · rename_i hscan
      exact absurd hscan (scanLine_ne_needMore h hlen)
    · simp
    rename_i content rest hscan
    split
    · simp
    rw [headEnd_of_line hscan] at h
    obtain ⟨k, hk, -⟩ := map_eq_some_iff.mp h
    have hshorter := scanLine_line hscan
    exact ih hk (by omega)

/-- A response that is accepted extends to the end of its head at least, and not further if
its status has no body. -/
theorem parseHttpResponse_headEnd {storage : Nat} {r : ParseResult HttpResponse}
    (h : parseHttpResponse buf storage = .ok (some r)) :
    ∃ k, headEnd buf = some k ∧ k ≤ r.consumed ∧ r.consumed ≤ buf.length ∧
      (bodylessStatus r.value.statusCode = true → r.consumed = k) := by
  rw [parseHttpResponse_eq] at h
  have hbound := parseMessage_bound framesBody_response h
  obtain ⟨crlf, start, st, body, hfind, -, hblock, hbody, hvalue⟩ := parseMessage_inv h
  have hwhole := findCrlf_window hfind
  obtain ⟨n, hn, hend⟩ := (acceptedBlock_of_parse hblock).headEnd
  refine ⟨st.headerBlockEnd, ?_, ?_, hbound, ?_⟩
  · -- the header block behind the start line ends where the head does
    rw [headEnd_of_find hwhole, findCrlf_drop hwhole, hn, hend]
    simp only [map_some]
    congr 1
    omega
  · exact framesByLength_response.complete hbody
  intro hbodyless
  rw [hvalue] at hbodyless
  rw [frameResponseBody, if_pos hbodyless] at hbody
  exact (Prod.mk.inj (Option.some.inj (Except.ok.inj hbody))).2.symm

/-- With its head complete, a response that is asked to grow lacks a part of its body only:
it is not refused later. -/
theorem parseHttpResponse_grows {storage k : Nat} (h : headEnd buf = some k)
    (hlen : buf.length ≤ kMaxHeaderLineLength) (hnone : parseHttpResponse buf storage = .ok none)
    (more : Bytes) (e : ErrorInfo) : parseHttpResponse (buf ++ more) storage ≠ .error e := by
  obtain ⟨crlf, hfind, hcrlf⟩ := findCrlf_of_headEnd h
  have hk := (headEnd_append h []).2.1
  have hwindow : findCrlf (buf.take (kMaxStartLineLength + 2)) = some crlf := by
    refine findCrlf_take_some hfind ?_
    unfold kMaxStartLineLength
    unfold kMaxHeaderLineLength at hlen
    omega
  obtain ⟨hwindow', hbound⟩ := findCrlf_take_append hwindow more
  have hblock : parseHeaderBlock (min storage kMaxHeaderCount) (crlf + 2) (buf.drop (crlf + 2))
      [] none ≠ .ok none := by
    rw [headEnd_of_find hfind, findCrlf_drop hfind] at h
    obtain ⟨j, hj, -⟩ := map_eq_some_iff.mp h
    exact parseHeaderBlock_ne_none hj (by rw [length_drop]; omega)
  have hne : ¬ buf.isEmpty = true := by
    rw [isEmpty_iff_length_eq_zero]
    omega
  have hne' : ¬ (buf ++ more).isEmpty = true := by
    rw [isEmpty_iff_length_eq_zero, length_append]
    omega
  unfold parseHttpResponse at hnone ⊢
  rw [if_neg hne, hwindow] at hnone
  rw [if_neg hne', hwindow']
  dsimp only at hnone ⊢
  rw [take_append_of_le_length (by omega), drop_append_of_le_length hbound]
  split at hnone
  · cases hnone
  split at hnone
  · cases hnone
  · contradiction
  rename_i code reason minor hstart _ st hst
  -- The block is accepted, so it is accepted with more behind it.
  have hmore : parseHeaderBlock (min storage kMaxHeaderCount) (crlf + 2)
      (buf.drop (crlf + 2) ++ more) [] none = .ok (some st) := by
    rcases parseHeaderBlock_append (min storage kMaxHeaderCount) (crlf + 2)
      (buf.drop (crlf + 2)) more [] none with hneed | ⟨⟨e', herr⟩, -⟩ | hsame
    · exact absurd hneed hblock
    · rw [hst] at herr
      cases herr
    · rw [hsame, hst]
  rw [hmore]
  dsimp only
  split at hnone
  · cases hnone
  · -- A body that is asked to grow is given by a Content-Length, and is never refused.
    rename_i hframe
    rcases frameResponseBody_cases code st with ⟨e', herr⟩ | ⟨st', -, hsame⟩
    · rw [herr] at hframe
      cases hframe
    rw [hsame, frameRequestBody]
    cases st'.contentLength with
    | none => rintro ⟨⟩
    | some n =>
      dsimp only
      split_ifs <;> rintro ⟨⟩
  · cases hnone

end Eph.Net
