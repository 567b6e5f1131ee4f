import Ephemeral.TlsRecord

/-!
# From the records of the upgrade to the records of the data phase

While a stream over TLS waits for the response, it opens records.  When the response
is complete it has opened some of them, `opened`, whose data reaches to the end of the
response or beyond, and holds `cipher`, a part of the next one.  The data phase starts
on the rest of the records.

Nothing is lost exactly when the bytes received by then end with the record that ends
the response.  This module proves the accounting behind that, for both backends: what
has to be compared is what the data phase has shown to the codec, and what it can have
opened with the bytes it was given.
-/

namespace Eph.Net

open ByteOrder Core List

/-- The bytes received so far end with the record that ends the response. -/
def EndsWithResponse (records : List Record) (response received : Bytes) : Prop :=
  ∃ front back, records = front ++ back ∧ received = recordBytes front ∧
    recordData front = response

/-- The state of the account when the response is complete.  The records are `opened`
and `rest`, and `later` is what of their bytes is still to come. -/
structure Handover (response received : Bytes) (opened rest : List Record)
    (cipher later : Bytes) : Prop where
  received : received = recordBytes opened ++ cipher
  later : cipher ++ later = recordBytes rest
  part : ∀ r rs, rest = r :: rs → cipher.length < r.bytes.length
  complete : response.length ≤ (recordData opened).length

namespace Handover

variable {response received cipher later : Bytes} {opened rest : List Record}

section

variable (h : Handover response received opened rest cipher later)

include h

/-- The condition in terms of the account: no byte of the next record is there, and no
data beyond the response. -/
theorem endsWithResponse_iff (hwf : ∀ r ∈ opened ++ rest, r.WellFormed) :
    EndsWithResponse (opened ++ rest) response received ↔
      recordData opened = response ∧ cipher = [] := by
  constructor
  · rintro ⟨front, back, hsplit, hreceived, hdata⟩
    rw [h.received] at hreceived
    rcases append_eq_append_iff.mp hsplit with ⟨more, rfl, hback⟩ | ⟨more, rfl, hback⟩
    · -- The front goes beyond the opened records: it would hold the next one whole.
      rw [recordBytes_append, append_cancel_left_eq] at hreceived
      cases more with
      | nil => exact ⟨by rw [← hdata, append_nil], hreceived⟩
      | cons r more =>
        have hpart := h.part r (more ++ back) hback
        rw [hreceived, recordBytes_cons, length_append] at hpart
        omega
    · -- The front ends before: the bytes of the records behind it would be missing.
      rw [recordBytes_append, append_assoc, append_right_eq_self, append_eq_nil_iff] at hreceived
      obtain ⟨hmore, hcipher⟩ := hreceived
      cases more with
      | nil => exact ⟨by rw [← hdata, append_nil], hcipher⟩
      | cons r more =>
        have hpos := (hwf r (by simp)).length_pos
        rw [recordBytes_cons, append_eq_nil_iff] at hmore
        rw [hmore.1] at hpos
        exact absurd hpos (Nat.lt_irrefl 0)
  · rintro ⟨hdata, hcipher⟩
    exact ⟨opened, rest, rfl, by rw [h.received, hcipher, append_nil], hdata⟩

/-- A data phase that has opened the records `shown` of `rest` with the bytes `later`
and the `leftover` of the upgrade, and has shown the codec what it should, was handed a
clean account. -/
theorem clean_of_conserved (hwf : ∀ r ∈ opened ++ rest, r.WellFormed)
    {following leftover : Bytes}
    (hdata : recordData (opened ++ rest) = response ++ following) {shown unseen : List Record}
    (hrest : rest = shown ++ unseen) (hshown : following.length ≤ (recordData shown).length)
    (hleftover : leftover.length ≤ (recordData opened).length - response.length)
    (hbytes : (recordBytes shown).length ≤ leftover.length + later.length) :
    recordData opened = response ∧ cipher = [] := by
  have hcomplete := h.complete
  have hlen := congrArg List.length hdata
  have hlater := congrArg List.length h.later
  rw [hrest] at hlen hlater
  simp only [recordData_append, recordBytes_append, length_append] at hlen hlater
  -- All the data of the rest was shown, so every record of it was opened.
  have hall : unseen = [] := by
    by_contra hne
    have hlost := recordData_ne_nil hne fun r hr => hwf r (by simp [hrest, hr])
    have := length_pos_iff.mpr hlost
    omega
  constructor
  · rw [recordData_append] at hdata
    obtain ⟨hfront, -⟩ := append_inj hdata (by omega)
    exact hfront
  · rw [hall, recordBytes_nil, length_nil] at hlater
    exact length_eq_zero_iff.mp (by omega)

end

end Handover

end Eph.Net
