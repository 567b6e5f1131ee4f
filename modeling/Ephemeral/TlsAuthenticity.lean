import Ephemeral.TlsDecryptor
import Mathlib.Data.List.Perm.Subperm
import Mathlib.Data.List.Nodup

/-!
# Nonces and authenticity

Two properties hold the record layer together.  An encryptor never uses a nonce twice under
one key, though it may be moved from one object to another; and a decryptor opens a record
only if the peer has sealed it under the very number that the decryptor stands at.

The encryptors are objects that can be moved and assigned, with a log of what they have
sealed.  The cipher is ideal: it opens what is in the log under the same key, nonce and
additional data, and nothing else.  In the three formats the number of a record is bound
by different things, by the nonce under TLS 1.3, by the additional data under AES-GCM,
where the nonce comes from the wire, and by both under ChaCha20; `Sound.openBody` has one
case for each.

The two TLS 1.2 formats authenticate the version that the record should have, not the one
that it has, and the header check only warns of another one.
-/

namespace Eph.Net

open ByteOrder Core TlsEncryptor
open List hiding Vector

variable {iv : Vector UInt8 kTls13NonceLen} {format : TlsRecordFormat}

/-! ## Encryptors as objects -/

/-- A `TlsEncryptor` object.  `ctx` is its key, which a move takes away. -/
structure EncryptorObject (κ : Type) where
  ctx : Option κ
  init : Bool
  enc : TlsEncryptor

/-- What a move leaves behind: the key and the IV are cleansed. -/
def EncryptorObject.movedFrom {κ : Type} (o : EncryptorObject κ) : EncryptorObject κ :=
  ⟨none, false, { o.enc with iv := Vector.replicate _ 0 }⟩

/-- A successful call of `encrypt`: the key, the encryptor before the call, the plaintext
and the record. -/
structure Sealing (κ : Type) where
  key : κ
  enc : TlsEncryptor
  plaintext : Bytes
  record : Bytes

/-- All objects, and the log of what they have sealed. -/
structure EncryptorWorld (κ : Type) where
  objects : List (EncryptorObject κ)
  log : List (Sealing κ)

/-- What can be done with the objects; a move construction adds one. -/
inductive EncryptorOp
  | encrypt (i : Nat) (plaintext : Bytes)
  | moveConstruct (src : Nat)
  | moveAssign (dst src : Nat)

/-- The same encryptor at a later number. -/
structure TlsEncryptor.Before (enc later : TlsEncryptor) : Prop where
  format : enc.recordFormat = later.recordFormat
  iv : enc.iv = later.iv
  seq : enc.seq.toNat < later.seq.toNat

theorem TlsEncryptor.Before.trans {a b c : TlsEncryptor} (hab : a.Before b) (hbc : b.Before c) :
    a.Before c :=
  ⟨hab.format.trans hbc.format, hab.iv.trans hbc.iv, Nat.lt_trans hab.seq hbc.seq⟩

namespace EncryptorWorld

variable {κ : Type} (aead : κ → Seal)

/-- One operation.  `encrypt` on a moved-from object is not defined. -/
def step (w : EncryptorWorld κ) : EncryptorOp → Option (EncryptorWorld κ)
  | .encrypt i plaintext =>
    match w.objects[i]? with
    | some ⟨some key, true, enc⟩ =>
      match enc.encrypt (aead key) plaintext with
      | (none, enc) => some { w with objects := w.objects.set i ⟨some key, true, enc⟩ }
      | (some record, enc') =>
        some ⟨w.objects.set i ⟨some key, true, enc'⟩, w.log ++ [⟨key, enc, plaintext, record⟩]⟩
    | _ => none
  | .moveConstruct src =>
    match w.objects[src]? with
    | some o => some { w with objects := w.objects.set src o.movedFrom ++ [o] }
    | none => none
  | .moveAssign dst src =>
    if dst = src then some w
    else
      match w.objects[dst]?, w.objects[src]? with
      | some _, some o => some { w with objects := (w.objects.set dst o).set src o.movedFrom }
      | _, _ => none

/-- A run of operations, if all of them are defined. -/
def run : EncryptorWorld κ → List EncryptorOp → Option (EncryptorWorld κ)
  | w, [] => some w
  | w, op :: ops => (w.step aead op).bind fun w => run w ops

/-- What was sealed under one key. -/
def sealedUnder [DecidableEq κ] (w : EncryptorWorld κ) (key : κ) : List (Sealing κ) :=
  w.log.filter (·.key = key)

/-- The object at place `i` has the key. -/
def Holds (w : EncryptorWorld κ) (i : Nat) (o : EncryptorObject κ) (key : κ) : Prop :=
  w.objects[i]? = some o ∧ o.ctx = some key

/-- Each key is in one object at most, which is past everything that was sealed under the
key; the log has the numbers of each key in order, below the limit. -/
structure Sound (w : EncryptorWorld κ) : Prop where
  owners : ∀ {i j o o' k}, w.Holds i o k → w.Holds j o' k → i = j
  behind : ∀ {i o k}, w.Holds i o k → ∀ e ∈ w.log, e.key = k → e.enc.Before o.enc
  ordered : w.log.Pairwise fun e e' => e.key = e'.key → e.enc.Before e'.enc
  limit : ∀ e ∈ w.log, e.enc.seq.toNat < 2 ^ 32
  sealed : ∀ e ∈ w.log, e.enc.sealRecord (aead e.key) e.plaintext = some e.record

variable {aead} {w w' : EncryptorWorld κ}

/-- Objects that only change places: each one that has a key comes from a place of its
own. -/
theorem Sound.relocate (h : w.Sound aead) (hlog : w'.log = w.log) (comesFrom : Nat → Nat → Prop)
    (hown : ∀ i i' j, comesFrom i j → comesFrom i' j → i = i')
    (hold : ∀ {i o k}, w'.Holds i o k → ∃ j, comesFrom i j ∧ w.Holds j o k) : w'.Sound aead where
  owners := by
    intro i i' o o' k hi hi'
    obtain ⟨j, hfrom, hj⟩ := hold hi
    obtain ⟨j', hfrom', hj'⟩ := hold hi'
    obtain rfl := h.owners hj hj'
    exact hown i i' j hfrom hfrom'
  behind := by
    intro i o k hi e he
    obtain ⟨j, -, hj⟩ := hold hi
    exact h.behind hj e (hlog ▸ he)
  ordered := hlog ▸ h.ordered
  limit := hlog ▸ h.limit
  sealed := hlog ▸ h.sealed

/-- A move construction: the new object has the key now. -/
theorem Sound.moveConstruct (h : w.Sound aead) {src : Nat} {o : EncryptorObject κ}
    (hsrc : w.objects[src]? = some o) :
    Sound aead { w with objects := w.objects.set src o.movedFrom ++ [o] } := by
  refine h.relocate rfl
    (fun i j => (i = w.objects.length ∧ j = src) ∨ (i < w.objects.length ∧ i ≠ src ∧ j = i)) ?_ ?_
  · intro i i' j hi hi'
    omega
  rintro i o' k ⟨hi, hkey⟩
  rw [getElem?_append, length_set] at hi
  split at hi
  · rename_i hlt
    rw [getElem?_set] at hi
    split at hi
    · -- What was moved from has no key.
      split at hi
      · cases hi
        cases hkey
      · cases hi
    · rename_i hne
      exact ⟨i, .inr ⟨hlt, Ne.symm hne, rfl⟩, hi, hkey⟩
  · rw [getElem?_singleton] at hi
    split at hi
    · cases hi
      exact ⟨src, .inl ⟨by omega, rfl⟩, hsrc, hkey⟩
    · cases hi

/-- A move assignment: the target has the key now, and its own is gone. -/
theorem Sound.moveAssign (h : w.Sound aead) {dst src : Nat} {o : EncryptorObject κ}
    (hsrc : w.objects[src]? = some o) :
    Sound aead { w with objects := (w.objects.set dst o).set src o.movedFrom } := by
  refine h.relocate rfl (fun i j => i ≠ src ∧ ((i = dst ∧ j = src) ∨ (i ≠ dst ∧ j = i))) ?_ ?_
  · intro i i' j hi hi'
    omega
  rintro i o' k ⟨hi, hkey⟩
  rw [getElem?_set] at hi
  split at hi
  · split at hi
    · cases hi
      cases hkey
    · cases hi
  rename_i hne
  rw [getElem?_set] at hi
  split at hi
  · rename_i hdst
    split at hi
    · cases hi
      exact ⟨src, ⟨Ne.symm hne, .inl ⟨hdst.symm, rfl⟩⟩, hsrc, hkey⟩
    · cases hi
  · rename_i hdst
    exact ⟨i, ⟨Ne.symm hne, .inr ⟨Ne.symm hdst, rfl⟩⟩, hi, hkey⟩

/-- A call that fails changes nothing. -/
theorem encrypt_none {aead : Seal} {enc after : TlsEncryptor} {plaintext : Bytes}
    (h : enc.encrypt aead plaintext = (none, after)) : after = enc := by
  unfold encrypt at h
  split at h
  · exact (Prod.mk.inj h).2.symm
  split at h
  · exact (Prod.mk.inj h).2.symm
  split at h
  · exact (Prod.mk.inj h).2.symm
  · cases h

/-- A call that succeeds spends the number of the object that has the key. -/
theorem Sound.encrypt (h : w.Sound aead) {i : Nat} {key : κ} {enc : TlsEncryptor}
    {plaintext record : Bytes} (hobj : w.objects[i]? = some ⟨some key, true, enc⟩)
    (hseq : enc.seq.toNat < 2 ^ 32) (hseal : enc.sealRecord (aead key) plaintext = some record) :
    Sound aead ⟨w.objects.set i ⟨some key, true, { enc with seq := enc.seq + 1 }⟩,
      w.log ++ [⟨key, enc, plaintext, record⟩]⟩ := by
  have hnext : enc.Before { enc with seq := enc.seq + 1 } := by
    refine ⟨rfl, rfl, ?_⟩
    rw [UInt64.toNat_add, UInt64.toNat_one, Nat.mod_eq_of_lt (by omega)]
    exact Nat.lt_succ_self _
  -- An object with a key had it before, and only the one at `i` is another now.
  have hold : ∀ {j o k}, Holds ⟨w.objects.set i ⟨some key, true, { enc with seq := enc.seq + 1 }⟩,
      w.log ++ [⟨key, enc, plaintext, record⟩]⟩ j o k →
      (j = i ∧ k = key ∧ o.enc = { enc with seq := enc.seq + 1 }) ∨ (j ≠ i ∧ w.Holds j o k) := by
    rintro j o k ⟨hj, hkey⟩
    rw [getElem?_set] at hj
    split at hj
    · rename_i hij
      split at hj
      · cases hj
        exact .inl ⟨hij.symm, (Option.some.inj hkey).symm, rfl⟩
      · cases hj
    · rename_i hij
      exact .inr ⟨Ne.symm hij, hj, hkey⟩
  have hi : w.Holds i ⟨some key, true, enc⟩ key := ⟨hobj, rfl⟩
  refine ⟨?_, ?_, ?_, ?_, ?_⟩
  · intro j j' o o' k hj hj'
    rcases hold hj with ⟨rfl, rfl, -⟩ | ⟨-, hwas⟩ <;> rcases hold hj' with ⟨rfl, hk, -⟩ | ⟨-, hwas'⟩
    · rfl
    · exact h.owners hi hwas'
    · subst hk
      exact h.owners hwas hi
    · exact h.owners hwas hwas'
  · intro j o k hj e he hk
    rcases mem_append.mp he with hlog | hnew
    · rcases hold hj with ⟨rfl, rfl, ho⟩ | ⟨-, hwas⟩
      · rw [ho]
        exact (h.behind hi e hlog hk).trans hnext
      · exact h.behind hwas e hlog hk
    obtain rfl := mem_singleton.mp hnew
    rcases hold hj with ⟨rfl, rfl, ho⟩ | ⟨hne, hwas⟩
    · rw [ho]
      exact hnext
    · subst hk
      exact absurd (h.owners hwas hi) hne
  · refine pairwise_append.mpr ⟨h.ordered, pairwise_singleton _ _, ?_⟩
    intro e he e' he' hk
    obtain rfl := mem_singleton.mp he'
    exact h.behind hi e he hk
  · exact forall_mem_append.mpr ⟨h.limit, forall_mem_singleton.mpr hseq⟩
  · exact forall_mem_append.mpr ⟨h.sealed, forall_mem_singleton.mpr hseal⟩

/-- **One operation.** -/
theorem Sound.step {op : EncryptorOp} (h : w.Sound aead) (hstep : w.step aead op = some w') :
    w'.Sound aead := by
  cases op with
  | encrypt i plaintext =>
    dsimp only [EncryptorWorld.step] at hstep
    split at hstep
    · rename_i key enc hobj
      split at hstep
      · rename_i after hcall
        obtain rfl := encrypt_none hcall
        cases hstep
        obtain ⟨hlt, hget⟩ := List.getElem?_eq_some_iff.mp hobj
        rw [← hget, List.set_getElem_self hlt]
        exact h
      · rename_i record after hcall
        obtain ⟨hseal, hseq, rfl⟩ := encrypt_some hcall
        cases hstep
        exact h.encrypt hobj hseq hseal
    · cases hstep
  | moveConstruct src =>
    dsimp only [EncryptorWorld.step] at hstep
    split at hstep
    · rename_i o hsrc
      cases hstep
      exact h.moveConstruct hsrc
    · cases hstep
  | moveAssign dst src =>
    dsimp only [EncryptorWorld.step] at hstep
    split at hstep
    · cases hstep
      exact h
    split at hstep
    · rename_i hsrc
      cases hstep
      exact h.moveAssign hsrc
    · cases hstep

/-- **A whole run.** -/
theorem Sound.run {ops : List EncryptorOp} (h : w.Sound aead)
    (hrun : w.run aead ops = some w') : w'.Sound aead := by
  induction ops generalizing w with
  | nil => exact Option.some.inj hrun ▸ h
  | cons op ops ih =>
    obtain ⟨w₁, hstep, hrest⟩ := Option.bind_eq_some_iff.mp hrun
    exact ih (h.step hstep) hrest

end EncryptorWorld

/-! ## What the cipher is given -/

namespace TlsEncryptor

variable (enc : TlsEncryptor)

/-- The nonce of the next record. -/
def nonce : Bytes :=
  match enc.recordFormat with
  | .tls13 => buildNonce enc.iv enc.seq
  | .tls12AesGcm => buildNonceAesGcm enc.iv enc.seq
  | .tls12Chacha20 => buildNonceChacha20 enc.iv enc.seq

/-- The additional data of the next record, for a plaintext of `n` bytes. -/
def aad (n : Nat) : Bytes :=
  match enc.recordFormat with
  | .tls13 => writeRecordHeader kContentTypeAppData (n + 1 + kAuthTagLen)
  | .tls12AesGcm => buildAad enc.seq kContentTypeAppData n
  | .tls12Chacha20 => buildAad enc.seq kContentTypeAppData n

/-- What is sealed for a plaintext. -/
def inner (plaintext : Bytes) : Bytes :=
  match enc.recordFormat with
  | .tls13 => plaintext ++ [kContentTypeAppData]
  | .tls12AesGcm => plaintext
  | .tls12Chacha20 => plaintext

/-- What stands in front of the ciphertext. -/
def lead (n : Nat) : Bytes :=
  match enc.recordFormat with
  | .tls13 => writeRecordHeader kContentTypeAppData (n + 1 + kAuthTagLen)
  | .tls12AesGcm =>
    writeRecordHeader kContentTypeAppData (kExplicitNonceLen + n + kAuthTagLen) ++
      toBe 8 enc.seq.toNat
  | .tls12Chacha20 => writeRecordHeader kContentTypeAppData (n + kAuthTagLen)

theorem sealRecord_eq (aead : Seal) (enc : TlsEncryptor) (plaintext : Bytes) :
    enc.sealRecord aead plaintext =
      (aead enc.nonce (enc.aad plaintext.length) (enc.inner plaintext)).map
        (enc.lead plaintext.length ++ ·) := by
  obtain ⟨format, iv, seq⟩ := enc
  cases format with
  | tls13 | tls12AesGcm | tls12Chacha20 => rfl

theorem length_lead (n : Nat) : (enc.lead n).length = plaintextOffsetFor enc.recordFormat := by
  obtain ⟨format, iv, seq⟩ := enc
  cases format with
  | tls13 | tls12AesGcm | tls12Chacha20 => rfl

end TlsEncryptor

theorem toBe_seq_inj {a b : UInt64} (h : toBe 8 a.toNat = toBe 8 b.toNat) : a = b := by
  have hword := congrArg (fun bytes => be64At (bytes ++ []) 0) h
  simp only [be64At_toBe, UInt64.ofNat_toNat] at hword
  exact hword

/-- Different numbers stay different when something is xored onto them. -/
theorem zipWith_xor_inj {mask a b : Bytes} (ha : a.length = mask.length)
    (hb : b.length = mask.length)
    (h : List.zipWith (· ^^^ ·) mask a = List.zipWith (· ^^^ ·) mask b) : a = b := by
  induction mask generalizing a b with
  | nil => rw [length_eq_zero_iff.mp ha, length_eq_zero_iff.mp hb]
  | cons m mask ih =>
    obtain ⟨x, a, rfl⟩ := exists_cons_of_length_eq_add_one ha
    obtain ⟨y, b, rfl⟩ := exists_cons_of_length_eq_add_one hb
    rw [zipWith_cons_cons, zipWith_cons_cons] at h
    obtain ⟨hhead, htail⟩ := List.cons.inj h
    rw [UInt8.xor_right_inj m |>.mp hhead, ih (Nat.succ.inj ha) (Nat.succ.inj hb) htail]

theorem buildNonce_inj {a b : UInt64} (h : buildNonce iv a = buildNonce iv b) : a = b := by
  have hmask : (iv.toList.drop kImplicitIvLen).length = 8 := by
    rw [length_drop, Vector.length_toList]
    rfl
  refine toBe_seq_inj (zipWith_xor_inj ?_ ?_ (append_cancel_left h))
  · rw [length_toBe, hmask]
  · rw [length_toBe, hmask]

/-- **Under one IV, different numbers have different nonces.** -/
theorem TlsEncryptor.nonce_inj {enc enc' : TlsEncryptor}
    (hformat : enc.recordFormat = enc'.recordFormat) (hiv : enc.iv = enc'.iv)
    (h : enc.nonce = enc'.nonce) : enc.seq = enc'.seq := by
  obtain ⟨format, iv, seq⟩ := enc
  obtain ⟨format', iv', seq'⟩ := enc'
  subst hformat hiv
  cases format with
  | tls13 => exact buildNonce_inj h
  | tls12AesGcm => exact toBe_seq_inj (append_cancel_left h)
  | tls12Chacha20 => exact buildNonce_inj h

theorem buildAad_inj {a b : UInt64} {ct ct' : UInt8} {n n' : Nat}
    (h : buildAad a ct n = buildAad b ct' n') : a = b ∧ ct = ct' := by
  obtain ⟨hseq, hrest⟩ := List.append_inj h (by rw [length_toBe, length_toBe])
  exact ⟨toBe_seq_inj hseq, (List.cons.inj hrest).1⟩

/-! ## The ideal cipher -/

section Ideal

variable {κ : Type} [DecidableEq κ]

/-- The ciphertext with its tag. -/
def Sealing.ciphertext (e : Sealing κ) : Bytes :=
  e.record.drop (plaintextOffsetFor e.enc.recordFormat)

/-- The cipher was given this nonce and this additional data, and made this ciphertext. -/
def Sealing.made (e : Sealing κ) (nonce aad c : Bytes) : Prop :=
  e.enc.nonce = nonce ∧ e.enc.aad e.plaintext.length = aad ∧ e.ciphertext = c

instance (e : Sealing κ) (nonce aad c : Bytes) : Decidable (e.made nonce aad c) :=
  inferInstanceAs (Decidable (_ ∧ _ ∧ _))

namespace EncryptorWorld

/-- The ideal cipher opens what was sealed under the key with the same nonce and additional
data, and nothing else. -/
def openLog (w : EncryptorWorld κ) (key : κ) : Open := fun nonce aad c =>
  ((w.sealedUnder key).find? (·.made nonce aad c)).map fun e => e.enc.inner e.plaintext

variable {aead : κ → Seal} {w : EncryptorWorld κ} {key : κ}

theorem mem_sealedUnder {e : Sealing κ} (h : e ∈ w.sealedUnder key) : e ∈ w.log ∧ e.key = key := by
  simpa [sealedUnder] using h

omit [DecidableEq κ] in
/-- A record in the log is what stands in front of the ciphertext, and the ciphertext. -/
theorem Sound.record_eq (h : w.Sound aead) {e : Sealing κ} (he : e ∈ w.log) :
    e.record = e.enc.lead e.plaintext.length ++ e.ciphertext := by
  have hsealed := h.sealed e he
  rw [sealRecord_eq] at hsealed
  obtain ⟨c, -, hrecord⟩ := Option.map_eq_some_iff.mp hsealed
  rw [Sealing.ciphertext, ← hrecord, drop_left' (length_lead ..)]

section

variable (h : w.Sound aead)

include h

omit [DecidableEq κ] in
theorem Sound.header_le {e : Sealing κ} (he : e ∈ w.log) : kRecordHeaderLen ≤ e.record.length := by
  rw [h.record_eq he, length_append, length_lead]
  refine Nat.le_trans ?_ (Nat.le_add_right _ _)
  unfold plaintextOffsetFor
  split
  · exact Nat.le_add_right _ _
  · exact Nat.le_refl _

/-- What the cipher opens for a decryptor with the format and the IV of the peer. -/
theorem Sound.openLog
    (hshare : ∀ e ∈ w.sealedUnder key, e.enc.recordFormat = format ∧ e.enc.iv = iv)
    {nonce aad c out : Bytes} (hopen : w.openLog key nonce aad c = some out) :
    ∃ seq plaintext, ⟨key, ⟨format, iv, seq⟩, plaintext,
        (TlsEncryptor.mk format iv seq).lead plaintext.length ++ c⟩ ∈ w.sealedUnder key ∧
      (TlsEncryptor.mk format iv seq).nonce = nonce ∧
      (TlsEncryptor.mk format iv seq).aad plaintext.length = aad ∧
      out = (TlsEncryptor.mk format iv seq).inner plaintext := by
  obtain ⟨e, hfind, rfl⟩ := Option.map_eq_some_iff.mp hopen
  have he := mem_of_find?_eq_some hfind
  obtain ⟨hnonce, haad, hc⟩ : e.made nonce aad c := by simpa using find?_some hfind
  obtain ⟨hlog, hkey⟩ := mem_sealedUnder he
  have hrecord := h.record_eq hlog
  obtain ⟨hformat, hiv⟩ := hshare e he
  rw [hc] at hrecord
  obtain ⟨key', ⟨format', iv', seq⟩, plaintext, record⟩ := e
  dsimp only at hkey hformat hiv hrecord
  subst hkey hformat hiv hrecord
  exact ⟨seq, plaintext, he, hnonce, haad, rfl⟩

/-- **Authenticity.**  A payload that opens is the one that the peer has sealed under the
same number, and the content type of its header is the right one; under TLS 1.3 the header
is the right one. -/
theorem Sound.openBody
    (hshare : ∀ e ∈ w.sealedUnder key, e.enc.recordFormat = format ∧ e.enc.iv = iv) {seq : UInt64}
    {header payload : Bytes} {out : Bytes × UInt8}
    (hopen : Net.openBody (w.openLog key) format iv seq header payload = some out) :
    ∃ e ∈ w.sealedUnder key, e.enc.seq = seq ∧ payload = e.record.drop kRecordHeaderLen ∧
      u8At header 0 = kContentTypeAppData ∧
      (format = .tls13 → header = e.record.take kRecordHeaderLen) ∧
      out = (e.plaintext, kContentTypeAppData) := by
  have hlead := fun n => length_writeRecordHeader kContentTypeAppData n
  cases format with
  | tls13 =>
    dsimp only [Net.openBody] at hopen
    split at hopen
    · cases hopen
    obtain ⟨sealed, haead, hsplit⟩ := Option.bind_eq_some_iff.mp hopen
    obtain ⟨seq', plaintext, he, hnonce, rfl, rfl⟩ := h.openLog hshare haead
    refine ⟨_, he, buildNonce_inj hnonce, ?_, rfl, fun _ => ?_, ?_⟩
    · exact (drop_left' (hlead _)).symm
    · exact (take_left' (hlead _)).symm
    · dsimp only [TlsEncryptor.inner] at hsplit
      rw [splitInner_concat] at hsplit
      exact (Option.some.inj hsplit).symm
  | tls12AesGcm =>
    dsimp only [Net.openBody] at hopen
    split at hopen
    · cases hopen
    obtain ⟨sealed, haead, rfl⟩ := Option.map_eq_some_iff.mp hopen
    obtain ⟨seq', plaintext, he, hnonce, haad, rfl⟩ := h.openLog hshare haead
    -- The additional data has the number; the nonce on the wire has to agree with it.
    obtain ⟨hseq, htype⟩ := buildAad_inj haad
    have hexplicit : toBe 8 seq'.toNat = payload.take kExplicitNonceLen := append_cancel_left hnonce
    refine ⟨_, he, hseq, ?_, htype.symm, nofun, Prod.ext rfl htype.symm⟩
    dsimp only [TlsEncryptor.lead]
    rw [append_assoc, drop_left' (hlead _), hexplicit, take_append_drop]
  | tls12Chacha20 =>
    dsimp only [Net.openBody] at hopen
    split at hopen
    · cases hopen
    obtain ⟨sealed, haead, rfl⟩ := Option.map_eq_some_iff.mp hopen
    obtain ⟨seq', plaintext, he, -, haad, rfl⟩ := h.openLog hshare haead
    obtain ⟨hseq, htype⟩ := buildAad_inj haad
    exact ⟨_, he, hseq, (drop_left' (hlead _)).symm, htype.symm, nofun, Prod.ext rfl htype.symm⟩

/-- The nonces that were used under one key, and their number. -/
theorem Sound.nonces (key : κ) :
    ((w.sealedUnder key).map (·.enc.nonce)).Nodup ∧ (w.sealedUnder key).length ≤ 2 ^ 32 := by
  have hordered : (w.sealedUnder key).Pairwise fun e e' => e.enc.Before e'.enc := by
    refine (h.ordered.filter _).imp_of_mem ?_
    intro e e' he he' hbefore
    exact hbefore ((mem_sealedUnder he).2.trans (mem_sealedUnder he').2.symm)
  constructor
  · refine pairwise_map.mpr (hordered.imp ?_)
    intro e e' hbefore hnonce
    have hseq := nonce_inj hbefore.format hbefore.iv hnonce
    exact absurd (congrArg UInt64.toNat hseq) (Nat.ne_of_lt hbefore.seq)
  have hnodup : ((w.sealedUnder key).map (·.enc.seq.toNat)).Nodup :=
    pairwise_map.mpr (hordered.imp fun hbefore => Nat.ne_of_lt hbefore.seq)
  have hlimit : (w.sealedUnder key).map (·.enc.seq.toNat) ⊆ List.range (2 ^ 32) := by
    intro n hn
    obtain ⟨e, he, rfl⟩ := mem_map.mp hn
    exact mem_range.mpr (h.limit e (mem_sealedUnder he).1)
  have hcount := (subperm_of_subset hnodup hlimit).length_le
  rwa [length_map, length_range] at hcount

end

end EncryptorWorld

/-- The bytes are those of the record, the version in the header apart under TLS 1.2. -/
structure Sealing.Matches (e : Sealing κ) (bytes : Bytes) : Prop where
  contentType : u8At bytes 0 = kContentTypeAppData
  payload : bytes.drop kRecordHeaderLen = e.record.drop kRecordHeaderLen
  exact : e.enc.recordFormat = .tls13 → bytes = e.record

/-- A record that opens is the one with the same number. -/
theorem EncryptorWorld.Sound.matches {aead : κ → Seal} {w : EncryptorWorld κ} {key : κ}
    (h : w.Sound aead)
    (hshare : ∀ e ∈ w.sealedUnder key, e.enc.recordFormat = format ∧ e.enc.iv = iv)
    {seq : UInt64} {bytes : Bytes} {out : Bytes × UInt8}
    (hopen : Net.openBody (w.openLog key) format iv seq (bytes.take kRecordHeaderLen)
      (bytes.drop kRecordHeaderLen) = some out) :
    ∃ e ∈ w.sealedUnder key, e.enc.seq = seq ∧ e.Matches bytes ∧
      out = (e.plaintext, kContentTypeAppData) := by
  obtain ⟨e, he, hseq, hpayload, htype, hheader, hout⟩ := h.openBody hshare hopen
  rw [u8At_take (by decide)] at htype
  refine ⟨e, he, hseq, ⟨htype, hpayload, fun hformat => ?_⟩, hout⟩
  rw [(hshare e he).1] at hformat
  rw [← take_append_drop kRecordHeaderLen bytes, hheader hformat, hpayload, take_append_drop]

open EncryptorWorld in
/-- **Nonces are unique, and records are opened in order.**  After every run of encryptors
and moves between them: the records that were returned under one key are sealed under
different nonces, and there are at most 2³² of them.  With an ideal cipher, and whatever
bytes it is given, a decryptor that shares the key, the IV and the format opens them only
if they match the record that was sealed under the decryptor's own number, and gives its
plaintext; what it refuses leaves its number as it was.  `decrypt` looks at the bytes up to
the length in the header. -/
theorem tls_nonces_and_order (aead : κ → Seal) {w₀ w : EncryptorWorld κ} (hlog : w₀.log = [])
    (hkeys : ∀ i j o o' k, w₀.Holds i o k → w₀.Holds j o' k → i = j) {ops : List EncryptorOp}
    (hrun : w₀.run aead ops = some w) :
    (∀ key, (∀ e ∈ w.sealedUnder key, ∃ c, e.record = e.enc.lead e.plaintext.length ++ c ∧
        aead key e.enc.nonce (e.enc.aad e.plaintext.length) (e.enc.inner e.plaintext) = some c) ∧
      ((w.sealedUnder key).map (·.enc.nonce)).Nodup ∧ (w.sealedUnder key).length ≤ 2 ^ 32) ∧
    ∀ key format iv, (∀ e ∈ w.sealedUnder key, e.enc.recordFormat = format ∧ e.enc.iv = iv) →
      ∀ (seq : UInt64) (bytes : Bytes),
        (let dec : TlsInPlaceDecryptor := ⟨format, iv, seq⟩
          let result := dec.openInPlace (w.openLog key) bytes
          (∀ o, result.1 = some o → ∃ e ∈ w.sealedUnder key, e.enc.seq = seq ∧ e.Matches bytes ∧
            o.content format = (e.plaintext, kContentTypeAppData)) ∧
          (result.1 = none → result.2 = dec)) ∧
        (let dec : TlsDecryptor := ⟨format, iv, seq⟩
          let result := dec.decrypt (w.openLog key) bytes
          (∀ out, result.1 = some out → ∃ e ∈ w.sealedUnder key, ∃ n, e.enc.seq = seq ∧
            parseRecordHeader bytes = some n ∧ e.record.length = kRecordHeaderLen + n ∧
            e.Matches (bytes.take (kRecordHeaderLen + n)) ∧
            out = (e.plaintext, kContentTypeAppData)) ∧
          (result.1 = none → result.2 = dec)) := by
  have hstart : w₀.Sound aead := by
    refine ⟨fun hi hj => hkeys _ _ _ _ _ hi hj, ?_, ?_, ?_, ?_⟩
    all_goals rw [hlog]
    · nofun
    · exact List.Pairwise.nil
    · nofun
    · nofun
  have h := hstart.run hrun
  refine ⟨fun key => ⟨fun e he => ?_, h.nonces key⟩, fun key format iv hshare seq bytes =>
    ⟨⟨fun o ho => ?_, fun hnone => ?_⟩, fun out hout => ?_, fun hnone => ?_⟩⟩
  · obtain ⟨hmem, rfl⟩ := mem_sealedUnder he
    have hsealed := h.sealed e hmem
    rw [sealRecord_eq] at hsealed
    obtain ⟨c, hc, hrecord⟩ := Option.map_eq_some_iff.mp hsealed
    exact ⟨c, hrecord.symm, hc⟩
  · have hcontent := TlsInPlaceDecryptor.openInPlace_eq (w.openLog key) ⟨format, iv, seq⟩ bytes
    rw [ho, Option.map_some] at hcontent
    split at hcontent
    · cases hcontent
    · exact h.matches hshare hcontent.symm
  · rw [TlsInPlaceDecryptor.openInPlace_seq, hnone]
    rfl
  · rw [TlsDecryptor.decrypt_eq] at hout
    split at hout
    · cases hout
    obtain ⟨n, hn, hout⟩ := Option.bind_eq_some_iff.mp hout
    split at hout
    · cases hout
    have hheader : bytes.take kRecordHeaderLen =
        (bytes.take (kRecordHeaderLen + n)).take kRecordHeaderLen := by
      rw [take_take, Nat.min_eq_left (Nat.le_add_right _ _)]
    have hpayload : (bytes.drop kRecordHeaderLen).take n =
        (bytes.take (kRecordHeaderLen + n)).drop kRecordHeaderLen := by
      rw [drop_take, Nat.add_sub_cancel_left]
    rw [hheader, hpayload] at hout
    obtain ⟨e, he, hseq, hmatches, hplain⟩ := h.matches hshare hout
    refine ⟨e, he, n, hseq, hn, ?_, hmatches, hplain⟩
    have hsize := congrArg List.length hmatches.payload
    have hrecord := h.header_le (mem_sealedUnder he).1
    rw [length_drop, length_drop, length_take] at hsize
    omega
  · rw [TlsDecryptor.decrypt_seq, hnone]
    rfl

end Ideal

/-- One encryptor that has sealed nothing. -/
def sampleEncryptors (format : TlsRecordFormat) : EncryptorWorld Unit :=
  ⟨[⟨some (), true, ⟨format, Vector.replicate _ 7, 0⟩⟩], []⟩

/-- An encryptor that is moved between two records. -/
theorem tls_nonces_moved :
    ∃ w, (sampleEncryptors .tls12AesGcm).run (fun _ => tagSeal)
        [.encrypt 0 [1], .moveConstruct 0, .encrypt 1 [2, 3]] = some w ∧
      ((w.sealedUnder ()).map (·.enc.nonce)).Nodup := by
  obtain ⟨w, hrun⟩ := Option.isSome_iff_exists.mp (show ((sampleEncryptors .tls12AesGcm).run
    (fun _ => tagSeal) [.encrypt 0 [1], .moveConstruct 0, .encrypt 1 [2, 3]]).isSome from rfl)
  refine ⟨w, hrun, ((tls_nonces_and_order _ rfl (fun i j _ _ _ hi hj => ?_) hrun).1 ()).2.1⟩
  have hilt : i < 1 := (List.getElem?_eq_some_iff.mp hi.1).1
  have hjlt : j < 1 := (List.getElem?_eq_some_iff.mp hj.1).1
  omega

/-- **The version is not authenticated under TLS 1.2.**  A record with another version in its
header is opened by both decryptors, though the peer has sealed no such record. -/
theorem tls_version_altered :
    ∃ (w : EncryptorWorld Unit) (bytes : Bytes),
      (sampleEncryptors .tls12Chacha20).run (fun _ => tagSeal) [.encrypt 0 [9]] = some w ∧
      (∀ e ∈ w.log, e.record ≠ bytes) ∧
      ((TlsInPlaceDecryptor.mk .tls12Chacha20 (Vector.replicate _ 7) 0).openInPlace
        (w.openLog ()) bytes).1.isSome = true ∧
      ((TlsDecryptor.mk .tls12Chacha20 (Vector.replicate _ 7) 0).decrypt
        (w.openLog ()) bytes).1 = some ([9], kContentTypeAppData) :=
  ⟨_, [0x17, 9, 9, 0, 17, 9] ++ List.replicate 16 0, rfl, by decide, by decide, by decide⟩

end Eph.Net
