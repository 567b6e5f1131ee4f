import Mathlib.Tactic.FieldSimp
import Mathlib.Tactic.Linarith

/-!
# The token bucket

`TokenBucket` over exact rationals: tokens, and seconds of the steady clock.  A call carries the
clock readings it makes, so `try_acquire` has two of them, one for the penalty and one for the
refill; a grant is dated by the second.

What a call does to the account is said once, in `account_step`: the tokens left and the weight
granted are together at most the capacity, and at most the tokens before plus what the time
between the two refills earned.  The bound on any window of time (`grantedIn_le_budget`) is an
induction on that.  A penalty takes the tokens but leaves the time of the last refill, so the
time the bucket had been idle still earns tokens after it.
-/

namespace Eph.Utils

/-- `TokenBucket::Config`; `none` is a rate that is not finite. -/
structure TokenBucketConfig where
  capacity : UInt32
  refillPerSecond : Option ℚ

/-- `sanitize_refill_`. -/
def sanitizeRefill : Option ℚ → ℚ
  | none => 0
  | some rps => if rps < 0 then 0 else rps

/-- What a `TokenBucket` changes; its capacity and rate are constant. -/
structure TokenBucket where
  tokens : ℚ
  lastRefill : ℚ
  blockedUntil : ℚ

namespace TokenBucketConfig

variable (cfg : TokenBucketConfig)

/-- `capacity_`, as the tokens are compared with it. -/
def cap : ℚ := cfg.capacity.toNat

/-- `refill_per_sec_`. -/
def rate : ℚ := sanitizeRefill cfg.refillPerSecond

theorem cap_nonneg : 0 ≤ cfg.cap := Nat.cast_nonneg _

theorem rate_nonneg : 0 ≤ cfg.rate := by
  unfold rate sanitizeRefill
  split
  · exact le_rfl
  split
  · exact le_rfl
  · exact le_of_not_gt ‹_›

end TokenBucketConfig

namespace TokenBucket

variable (cfg : TokenBucketConfig) (b : TokenBucket)

/-- The constructor: a full bucket. -/
def create (now : ℚ) : TokenBucket := ⟨cfg.cap, now, 0⟩

/-- `refill_locked_`. -/
def refillLocked (now : ℚ) : TokenBucket :=
  if now - b.lastRefill ≤ 0 then b
  else
    { b with
      tokens := min cfg.cap (b.tokens + (now - b.lastRefill) * cfg.rate)
      lastRefill := now }

/-- `try_acquire`; `checked` and `refilled` are its two clock readings. -/
def tryAcquire (weight : UInt32) (checked refilled : ℚ) : Bool × TokenBucket :=
  if weight = 0 then (true, b)
  else if weight > cfg.capacity then (false, b)
  else if checked < b.blockedUntil then (false, b)
  else
    let b := b.refillLocked cfg refilled
    if b.tokens ≥ weight.toNat then (true, { b with tokens := b.tokens - weight.toNat })
    else (false, b)

/-- `available_tokens`. -/
def availableTokens (now : ℚ) : ℚ :=
  if now - b.lastRefill ≤ 0 then min b.tokens cfg.cap
  else min (b.tokens + (now - b.lastRefill) * cfg.rate) cfg.cap

/-- `penalize_for`, `d` in milliseconds. -/
def penalizeFor (d : ℤ) (now : ℚ) : TokenBucket :=
  if d ≤ 0 then b
  else { b with tokens := 0, blockedUntil := max b.blockedUntil (now + d / 1000) }

/-! ## Histories of calls -/

/-- A call with its clock readings. -/
inductive Call where
  | tryAcquire (weight : UInt32) (checked refilled : ℚ)
  | availableTokens (now : ℚ)
  | penalizeFor (d : ℤ) (now : ℚ)

/-- The first clock reading of a call. -/
def Call.start : Call → ℚ
  | .tryAcquire _ checked _ => checked
  | .availableTokens now | .penalizeFor _ now => now

/-- The last clock reading of a call, which dates it. -/
def Call.date : Call → ℚ
  | .tryAcquire _ _ refilled => refilled
  | .availableTokens now | .penalizeFor _ now => now

/-- The readings come from a monotone clock that stood at `now` before the calls. -/
def OnClock : ℚ → List Call → Prop
  | _, [] => True
  | now, c :: rest => now ≤ c.start ∧ c.start ≤ c.date ∧ OnClock c.date rest

/-- The bucket after a call; `available_tokens` only looks. -/
def step : Call → TokenBucket
  | .tryAcquire weight checked refilled => (b.tryAcquire cfg weight checked refilled).2
  | .availableTokens _ => b
  | .penalizeFor d now => b.penalizeFor d now

/-- The weight a call is granted. -/
def granted : Call → ℚ
  | .tryAcquire weight checked refilled =>
    if (b.tryAcquire cfg weight checked refilled).1 then weight.toNat else 0
  | _ => 0

/-- The bucket after a history of calls. -/
def run (calls : List Call) : TokenBucket := calls.foldl (step cfg) b

/-- The weight granted at dates from `s` to `t`. -/
def grantedIn (s t : ℚ) : TokenBucket → List Call → ℚ
  | _, [] => 0
  | b, c :: rest =>
    (if s ≤ c.date ∧ c.date ≤ t then b.granted cfg c else 0) + grantedIn s t (b.step cfg c) rest

/-! ## What a call does to the account -/

/-- A bucket when the clock stands at `now`. -/
structure Sound (now : ℚ) : Prop where
  nonneg : 0 ≤ b.tokens
  le_cap : b.tokens ≤ cfg.cap
  read : b.lastRefill ≤ now

/-- The account across one call that is granted the weight `w`. -/
structure Account (c : Call) (b' : TokenBucket) (w : ℚ) : Prop where
  sound : Sound cfg b' c.date
  weight : 0 ≤ w
  later : b.lastRefill ≤ b'.lastRefill
  blocked : b.blockedUntil ≤ b'.blockedUntil
  capped : b'.tokens + w ≤ cfg.cap
  earned : b'.tokens + w ≤ b.tokens + (b'.lastRefill - b.lastRefill) * cfg.rate
  dated : w ≠ 0 → c.date = b'.lastRefill ∧ b.blockedUntil ≤ c.start

variable {cfg b}

/-- On a monotone clock a refill always gives the capped sum. -/
theorem refillLocked_eq {now : ℚ} (h : Sound cfg b now) :
    b.refillLocked cfg now = { b with
      tokens := min cfg.cap (b.tokens + (now - b.lastRefill) * cfg.rate)
      lastRefill := now } := by
  unfold refillLocked
  split
  · -- no time has passed, and the tokens are within the capacity already
    obtain rfl : now = b.lastRefill := le_antisymm (by linarith) h.read
    simp [h.le_cap]
  · rfl

/-- **One call.**  On a monotone clock every call keeps the account. -/
theorem account_step {now : ℚ} {c : Call} (h : Sound cfg b now) (hstart : now ≤ c.start)
    (hdate : c.start ≤ c.date) : Account cfg b c (b.step cfg c) (b.granted cfg c) := by
  have hnow : Sound cfg b c.date := { h with read := h.read.trans (hstart.trans hdate) }
  have hrefl : Account cfg b c b 0 :=
    ⟨hnow, le_rfl, le_rfl, le_rfl, by simpa using h.le_cap, by simp, fun h => absurd rfl h⟩
  cases c with
  | availableTokens now => exact hrefl
  | penalizeFor d now =>
    simp only [step, granted, penalizeFor]
    split
    · exact hrefl
    exact { hrefl with
      sound := ⟨le_rfl, cfg.cap_nonneg, hnow.read⟩
      blocked := le_max_left _ _
      capped := by simpa using cfg.cap_nonneg
      earned := by simpa using h.nonneg }
  | tryAcquire weight checked refilled =>
    have hnow : Sound cfg b refilled := hnow
    have hearn := mul_nonneg (sub_nonneg.mpr hnow.read) cfg.rate_nonneg
    have hweight : (0 : ℚ) ≤ weight.toNat := Nat.cast_nonneg _
    simp only [step, granted, tryAcquire, refillLocked_eq hnow]
    split
    · rename_i hzero
      simpa [hzero] using hrefl
    split
    · simpa using hrefl
    split
    · simpa using hrefl
    rename_i hunblocked
    generalize hfull : min cfg.cap (b.tokens + (refilled - b.lastRefill) * cfg.rate) = full
    have hle := le_min_iff.mp hfull.ge
    have hpos : 0 ≤ full := hfull ▸ le_min cfg.cap_nonneg (add_nonneg h.nonneg hearn)
    split
    · rename_i hgrant
      simp only [if_true]
      exact ⟨⟨by simpa using hgrant, (sub_le_self _ hweight).trans hle.1, le_rfl⟩, hweight,
        hnow.read, le_rfl, by simpa using hle.1, by simpa using hle.2,
        fun _ => ⟨rfl, not_lt.mp hunblocked⟩⟩
    · simp only [Bool.false_eq_true, if_false]
      exact ⟨⟨hpos, hle.1, le_rfl⟩, le_rfl, hnow.read, le_rfl, by simpa using hle.1,
        by simpa using hle.2, fun h => absurd rfl h⟩

/-! ## The rate bound -/

/-- What can still be granted at dates from `s` to `t`: what the bucket holds when the window
begins, or at its last refill if that is later, and what the rate earns from then on. -/
def budget (cfg : TokenBucketConfig) (s t : ℚ) (b : TokenBucket) : ℚ :=
  if t < max s b.lastRefill then 0
  else (t - max s b.lastRefill) * cfg.rate +
    min cfg.cap (b.tokens + (max s b.lastRefill - b.lastRefill) * cfg.rate)

section Runs

variable {s t now : ℚ} {calls : List Call}

theorem budget_nonneg (h : 0 ≤ b.tokens) : 0 ≤ budget cfg s t b := by
  unfold budget
  split
  · exact le_rfl
  rename_i hin
  have hearn := mul_nonneg (sub_nonneg.mpr (le_max_right s b.lastRefill)) cfg.rate_nonneg
  exact add_nonneg (mul_nonneg (sub_nonneg.mpr (not_lt.mp hin)) cfg.rate_nonneg)
    (le_min cfg.cap_nonneg (add_nonneg h hearn))

/-- **The rate bound.**  On a monotone clock no window of time sees more than its budget. -/
theorem grantedIn_le_budget (h : Sound cfg b now) (hclock : OnClock now calls) :
    grantedIn cfg s t b calls ≤ budget cfg s t b := by
  induction calls generalizing b now with
  | nil => exact budget_nonneg h.nonneg
  | cons c rest ih =>
    have hacc := account_step h hclock.1 hclock.2.1
    have hrest := ih hacc.sound hclock.2.2
    have hdated : (if s ≤ c.date ∧ c.date ≤ t then b.granted cfg c else 0) =
        if s ≤ (b.step cfg c).lastRefill ∧ (b.step cfg c).lastRefill ≤ t
          then b.granted cfg c else 0 := by
      by_cases hw : b.granted cfg c = 0
      · simp [hw]
      · rw [(hacc.dated hw).1]
    rw [grantedIn, hdated]
    obtain ⟨-, hweight, hlater, -, hcapped, hearned, -⟩ := hacc
    generalize b.step cfg c = b', b.granted cfg c = w at *
    refine (add_le_add_right hrest _).trans ?_
    by_cases hpast : t < max s b'.lastRefill
    · rw [if_neg fun hin => not_le.mpr hpast (max_le (hin.1.trans hin.2) hin.2), budget,
        if_pos hpast, add_zero]
      exact budget_nonneg h.nonneg
    have hunpast : ¬ t < max s b.lastRefill :=
      fun hlt => hpast (hlt.trans_le (max_le_max_left s hlater))
    simp only [budget, hpast, hunpast, if_false]
    by_cases hidle : b'.lastRefill < s
    · -- the window has not begun
      rw [if_neg fun hin => not_le.mpr hidle hin.1, max_eq_left hidle.le,
        max_eq_left (hlater.trans hidle.le), zero_add]
      gcongr _ + min _ ?_
      linarith
    · have hs := not_lt.mp hidle
      rw [max_eq_right hs] at hpast ⊢
      rw [if_pos ⟨hs, not_lt.mp hpast⟩]
      have hmin : b'.tokens + w ≤ (b'.lastRefill - max s b.lastRefill) * cfg.rate +
          min cfg.cap (b.tokens + (max s b.lastRefill - b.lastRefill) * cfg.rate) := by
        rw [← min_add_add_left]
        refine le_min (hcapped.trans (le_add_of_nonneg_left
          (mul_nonneg (sub_nonneg.mpr (max_le hs hlater)) cfg.rate_nonneg))) ?_
        linarith
      rw [sub_self, zero_mul, add_zero]
      linarith [min_le_right cfg.cap b'.tokens]

/-- What a history on a monotone clock leaves behind for the calls that follow. -/
theorem run_sound {rest : List Call} (h : Sound cfg b now) (hclock : OnClock now (calls ++ rest)) :
    b.blockedUntil ≤ (b.run cfg calls).blockedUntil ∧
      ∃ after, Sound cfg (b.run cfg calls) after ∧ OnClock after rest := by
  induction calls generalizing b now with
  | nil => exact ⟨le_rfl, now, h, hclock⟩
  | cons c calls ih =>
    have hacc := account_step h hclock.1 hclock.2.1
    obtain ⟨hblocked, hafter⟩ := ih hacc.sound hclock.2.2
    exact ⟨hacc.blocked.trans hblocked, hafter⟩

/-- Nothing is granted before a penalty is over. -/
theorem grantedIn_blocked {ending : ℚ} (h : Sound cfg b now) (hclock : OnClock now calls)
    (hending : ending ≤ b.blockedUntil) :
    grantedIn cfg s t b calls ≤ grantedIn cfg ending t b calls := by
  induction calls generalizing b now with
  | nil => exact le_rfl
  | cons c rest ih =>
    have hacc := account_step h hclock.1 hclock.2.1
    refine add_le_add ?_ (ih hacc.sound hclock.2.2 (hending.trans hacc.blocked))
    by_cases hw : b.granted cfg c = 0
    · simp [hw]
    have hdate : ending ≤ c.date := hending.trans ((hacc.dated hw).2.trans hclock.2.1)
    simp only [hdate, true_and]
    split
    · rename_i hin
      rw [if_pos hin.2]
    · split
      · exact hacc.weight
      · exact le_rfl

end Runs

theorem create_sound (cfg : TokenBucketConfig) (start : ℚ) : Sound cfg (create cfg start) start :=
  ⟨cfg.cap_nonneg, le_rfl, le_rfl⟩

/-- **The bucket keeps its limits.**  On a monotone clock, after any history of calls, the tokens
are within the capacity, any window of time has granted at most the capacity and what the rate
earns in it, and no positive weight was granted before a penalty was over. -/
theorem token_bucket_limits (cfg : TokenBucketConfig) (start : ℚ) (calls : List Call)
    (hclock : OnClock start calls) :
    ((create cfg start).run cfg calls).tokens ∈ Set.Icc 0 (cfg.capacity.toNat : ℚ) ∧
    (∀ s t, s ≤ t → grantedIn cfg s t (create cfg start) calls ≤
      cfg.capacity.toNat + sanitizeRefill cfg.refillPerSecond * (t - s)) ∧
    ∀ before (d : ℤ) (now : ℚ) between weight checked refilled after,
      calls = before ++ .penalizeFor d now ::
        (between ++ .tryAcquire weight checked refilled :: after) →
      0 < d → weight ≠ 0 → checked < now + d / 1000 →
      (((create cfg start).run cfg (before ++ .penalizeFor d now :: between)).tryAcquire cfg
        weight checked refilled).1 = false := by
  have hcreate := create_sound cfg start
  refine ⟨?_, fun s t hst => ?_, ?_⟩
  · rw [← List.append_nil calls] at hclock
    obtain ⟨-, after, hsound, -⟩ := run_sound hcreate hclock
    exact ⟨hsound.nonneg, hsound.le_cap⟩
  · have hrate := mul_nonneg (sub_nonneg.mpr hst) cfg.rate_nonneg
    refine (grantedIn_le_budget hcreate hclock).trans ?_
    change _ ≤ cfg.cap + cfg.rate * (t - s)
    unfold budget
    split
    · linarith [cfg.cap_nonneg]
    have hless := mul_le_mul_of_nonneg_right
      (sub_le_sub_left (le_max_left s (create cfg start).lastRefill) t) cfg.rate_nonneg
    linarith [min_le_left cfg.cap ((create cfg start).tokens +
      (max s (create cfg start).lastRefill - (create cfg start).lastRefill) * cfg.rate)]
  · rintro before d now between weight checked refilled after rfl hd hweight hchecked
    obtain ⟨-, τ, hsound, hpenalty⟩ := run_sound hcreate hclock
    obtain ⟨hblocked, -⟩ := run_sound
      (account_step hsound hpenalty.1 hpenalty.2.1).sound hpenalty.2.2
    have huntil : now + d / 1000 ≤ (((create cfg start).run cfg before).step cfg
        (.penalizeFor d now)).blockedUntil := by
      simp [step, penalizeFor, not_le.mpr hd]
    rw [run, List.foldl_append, List.foldl_cons]
    have := hchecked.trans_le (huntil.trans hblocked)
    unfold tryAcquire
    split_ifs <;> first | rfl | contradiction

/-- **When a penalty drains the bucket.**  After a penalty at time `t` no window from `t` on
sees more than what the rate earns in it, exactly if the rate is zero, the bucket was refilled
at `t`, or the rate fills the bucket while it is blocked. -/
theorem penalty_drains_iff (cfg : TokenBucketConfig) (start : ℚ) (calls : List Call) (d : ℤ)
    (t : ℚ) (hd : 0 < d) (hclock : OnClock start (calls ++ [.penalizeFor d t]))
    {b : TokenBucket} (hb : b = (create cfg start).run cfg calls) :
    (∀ later t', OnClock t later → t ≤ t' →
        grantedIn cfg t t' (b.penalizeFor d t) later ≤ cfg.rate * (t' - t)) ↔
      cfg.rate = 0 ∨ b.lastRefill = t ∨
        cfg.cap ≤ cfg.rate * (max b.blockedUntil (t + d / 1000) - t) := by
  obtain ⟨-, τ, hsound, hτ, -⟩ := run_sound (create_sound cfg start) hclock
  rw [← hb] at hsound
  have hlast : b.lastRefill ≤ t := hsound.read.trans hτ
  generalize hending : max b.blockedUntil (t + d / 1000) = ending
  have hafter : t < ending := by
    have hms : (0 : ℚ) < d := Int.cast_pos.mpr hd
    exact hending ▸ lt_max_of_lt_right (by linarith)
  have hpenalty : b.penalizeFor d t = ⟨0, b.lastRefill, ending⟩ := by
    rw [penalizeFor, if_neg (not_le.mpr hd), hending]
  have hnow : Sound cfg (b.penalizeFor d t) t := hpenalty ▸ ⟨le_rfl, cfg.cap_nonneg, hlast⟩
  have hrate := cfg.rate_nonneg
  constructor
  · -- otherwise the whole capacity can be had at once when the bucket has filled up
    intro hall
    by_contra hnot
    obtain ⟨hne, hidle, hshort⟩ := by simpa only [not_or, not_le] using hnot
    have hpos : 0 < cfg.rate := hrate.lt_of_ne' hne
    have hcap : 0 < cfg.cap := (mul_nonneg hrate (sub_nonneg.mpr hafter.le)).trans_lt hshort
    have hne0 : cfg.capacity ≠ 0 := fun hzero => by simp [TokenBucketConfig.cap, hzero] at hcap
    generalize hfull : max ending (b.lastRefill + cfg.cap / cfg.rate) = full
    obtain ⟨hunblocked, hfilled⟩ := max_le_iff.mp hfull.le
    have hin := hafter.le.trans hunblocked
    have henough : cfg.cap ≤ 0 + (full - b.lastRefill) * cfg.rate := by
      rw [zero_add, ← div_le_iff₀ hpos]
      linarith
    have hgrant : (b.penalizeFor d t).granted cfg (.tryAcquire cfg.capacity full full) =
        cfg.cap := by
      rw [granted, tryAcquire, refillLocked_eq { hnow with read := hnow.read.trans hin },
        hpenalty, if_neg hne0, if_neg (UInt32.lt_irrefl _), if_neg (not_lt.mpr hunblocked)]
      dsimp only
      rw [min_eq_left henough]
      simp [TokenBucketConfig.cap]
    have hbound := hall [.tryAcquire cfg.capacity full full] full ⟨hin, le_rfl, trivial⟩ hin
    simp only [grantedIn, Call.date, hin, le_rfl, and_self, if_true, hgrant, add_zero] at hbound
    rcases max_choice ending (b.lastRefill + cfg.cap / cfg.rate) with hmax | hmax
    · rw [← hfull, hmax] at hbound
      linarith
    have hearned : cfg.rate * (cfg.cap / cfg.rate) = cfg.cap := mul_div_cancel₀ _ hne
    have hlost := mul_neg_of_pos_of_neg hpos (sub_neg.mpr (hlast.lt_of_ne hidle))
    rw [← hfull, hmax] at hbound
    linarith
  · intro hcond later t' hlater ht'
    rcases or_assoc.mpr hcond with hearned | hlong
    · refine (grantedIn_le_budget hnow hlater).trans (le_of_eq ?_)
      rw [budget, hpenalty, max_eq_left hlast, if_neg (not_lt.mpr ht'), zero_add, mul_comm]
      rcases hearned with hzero | hsame
      · simp [hzero, cfg.cap_nonneg]
      · simp [hsame, cfg.cap_nonneg]
    · refine (grantedIn_blocked hnow hlater (by rw [hpenalty])).trans
        ((grantedIn_le_budget hnow hlater).trans ?_)
      rw [budget, hpenalty, max_eq_left (hlast.trans hafter.le)]
      split
      · exact mul_nonneg hrate (sub_nonneg.mpr ht')
      · linarith [min_le_left cfg.cap (0 + (ending - b.lastRefill) * cfg.rate)]

/-- A bucket of ten tokens, one a second. -/
def sampleConfig : TokenBucketConfig := ⟨10, some 1⟩

/-- Ten tokens at once, and five more after five seconds. -/
theorem token_bucket_limits_sample :
    grantedIn sampleConfig 0 5 (create sampleConfig 0) [.tryAcquire 10 0 0, .tryAcquire 5 5 5] ≤
      10 + 1 * (5 - 0) :=
  (token_bucket_limits sampleConfig 0 _ (by norm_num [OnClock, Call.start, Call.date])).2.1 0 5
    (by norm_num)

/-- After a grant and three idle seconds, a penalty of ten seconds is long enough. -/
theorem penalty_drains_idle_bucket :
    grantedIn sampleConfig 5 15 (((create sampleConfig 0).run sampleConfig
      [.tryAcquire 4 1 2]).penalizeFor 10000 5) [.tryAcquire 10 15 15] ≤ 1 * (15 - 5) :=
  (penalty_drains_iff sampleConfig 0 [.tryAcquire 4 1 2] 10000 5 (by decide)
    (by norm_num [OnClock, Call.start, Call.date]) rfl).mpr (.inr (.inr (by decide +kernel))) _ 15
    (by norm_num [OnClock, Call.start, Call.date]) (by norm_num)

/-- Emptied at the start and then idle, the bucket is full again one second after a penalty of one
second at time 100. -/
theorem idle_time_outlives_penalty :
    OnClock 0 [.tryAcquire 10 0 0, .penalizeFor 1000 100, .tryAcquire 10 101 101] ∧
    ¬ grantedIn sampleConfig 100 101 (((create sampleConfig 0).run sampleConfig
      [.tryAcquire 10 0 0]).penalizeFor 1000 100) [.tryAcquire 10 101 101] ≤ 1 * (101 - 100) :=
  ⟨by norm_num [OnClock, Call.start, Call.date], by decide +kernel⟩

end TokenBucket

end Eph.Utils
