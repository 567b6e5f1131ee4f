import Ephemeral.WsHandshake

/-!
# The upgrade driver and its response

The handshake driver reads from a sink: over TLS the data of records, in plaintext what the
session delivers.  It takes no more than fits into its buffer of 8192 bytes; as the response
is no longer than that, it takes everything until the response is complete.

So while the driver waits, it holds what it was served (`AwaitsResponse`), and when it is done
its leftover is what the buffer holds of that beyond the response (`AwaitsResponse.reading`).
-/

namespace Eph.Net

open ByteOrder Core

/-- The answer of a sink that has `new` to serve in this call: as much of it as is asked for, or
that there is none yet. -/
def Serves (new : Bytes) (cap : Nat) (answer : Except ErrorInfo Bytes) : Prop :=
  (new = [] ∧ ∃ e, answer = .error e ∧ e.code = .wouldBlock) ∨
    (new ≠ [] ∧ answer = .ok (new.take cap))

/-- The driver `d`, started as `d₀`, waits for the response, and has read `got`. -/
structure AwaitsResponse (d₀ : WsHandshakeDriver) (response got : Bytes)
    (d : WsHandshakeDriver) : Prop where
  phase : d.phase = .sending ∨ d.phase = .receiving
  clientKey : d.clientKey = d₀.clientKey
  deflate : d.deflate = d₀.deflate
  rx : d.rx = got
  part : got.length < response.length

/-- The driver `d` has accepted the response, having been served `got`.  What its buffer had
room for beyond the response is its leftover. -/
structure AcceptedResponse (response got : Bytes) (d : WsHandshakeDriver) : Prop where
  complete : response.length ≤ got.length
  leftover : d.leftover = (got.take kWsRxCapacity).drop response.length

namespace AwaitsResponse

variable {d₀ d : WsHandshakeDriver} {response following got : Bytes}

/-- A driver that has just been created. -/
theorem fresh (hsending : d.phase = .sending) (hrx : d.rx = [])
    (hvalid : ValidResponse d.clientKey d.deflate response) : AwaitsResponse d response [] d :=
  ⟨.inl hsending, rfl, rfl, hrx, hvalid.length_pos⟩

/-- A sending step reads nothing and does not complete. -/
theorem sending (h : AwaitsResponse d₀ response got d) (hsending : d.phase = .sending)
    {σ : Type} (io : ByteSink σ) (w : σ) :
    ∃ r d', d.step io w = (r, d', (io.send w (d.req.drop d.sent)).2) ∧ r ≠ .ok true ∧
      AwaitsResponse d₀ response got d' := by
  obtain ⟨r, d', hstep, hnot, hphase, hrx, hkey, hdeflate⟩ :=
    WsHandshakeDriver.step_of_sending io w hsending
  exact ⟨r, d', hstep, hnot, hphase, hkey.trans h.clientKey, hdeflate.trans h.deflate,
    hrx.trans h.rx, h.part⟩

/-- **A reading step.** The sink has `new` to serve.  The driver takes all of it and waits on, or
it is done. -/
theorem reading (h : AwaitsResponse d₀ response got d) (hreceiving : d.phase = .receiving)
    (hvalid : ValidResponse d₀.clientKey d₀.deflate response)
    (hlimit : response.length ≤ kWsRxCapacity) {new rest : Bytes}
    (hdata : got ++ new ++ rest = response ++ following) {σ : Type}
    {io : ByteSink σ} {w w' : σ} {answer : Except ErrorInfo Bytes}
    (hrecv : io.recv w (kWsRxCapacity - d.rx.length) = (answer, w'))
    (hserves : Serves new (kWsRxCapacity - d.rx.length) answer) :
    (∃ d', d.step io w = (.ok false, d', w') ∧ AwaitsResponse d₀ response (got ++ new) d' ∧
      new.length ≤ kWsRxCapacity - d.rx.length) ∨
    ∃ d', d.step io w = (.ok true, d', w') ∧ AcceptedResponse response (got ++ new) d' := by
  obtain rfl := h.rx
  have hpart := h.part
  rw [← h.clientKey, ← h.deflate] at hvalid
  rcases hserves with ⟨rfl, e, rfl, hcode⟩ | ⟨hsome, rfl⟩
  · refine .inl ⟨d, WsHandshakeDriver.step_of_wouldBlock hreceiving (by omega) hrecv hcode, ?_,
      Nat.zero_le _⟩
    rwa [List.append_nil]
  · obtain ⟨hshort, hfull⟩ := WsHandshakeDriver.step_of_reading hvalid hlimit hreceiving hpart
      hdata hrecv hsome
    by_cases hmore : d.rx.length + new.length < response.length
    · refine .inl ⟨_, hshort hmore, ⟨.inr hreceiving, h.clientKey, h.deflate, rfl, ?_⟩, by omega⟩
      rwa [List.length_append]
    obtain ⟨deflate, hdone⟩ := hfull (by omega)
    refine .inr ⟨_, hdone, ?_, rfl⟩
    rw [List.length_append]
    omega

end AwaitsResponse

end Eph.Net
