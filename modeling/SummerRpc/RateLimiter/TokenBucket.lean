import Mathlib.Algebra.Order.Archimedean.Basic
import Mathlib.Algebra.Order.Floor.Ring
import Mathlib.Data.Rat.Floor
import Mathlib.Tactic.Linarith
import Mathlib.Tactic.FieldSimp
import SummerRpc.Lib.Bucket

/-! # The local rate limiter

`TokenBucketRateLimiter` (`rate_limiter/token_bucket.py`), in exact arithmetic. A call
turns the time since the last refresh into whole tokens, and keeps the time that was not
enough for another token by turning the tokens back into whole milliseconds.

* `acquire`: one call;
* `granted_eq`: it is a bucket that fills with the tokens of each call;
* `Lossless`: the tokens are worth a whole number of milliseconds;
* `rate_enforced_iff`: exactly then the rate is kept. Otherwise a part of a millisecond is
  given back with every call, and turned into tokens again.
-/

namespace SummerRpc

/-- The arguments of a rate limiter: tokens, and tokens in a unit of time. -/
structure BucketConfig where
  capacity : ℚ
  rate : ℚ
  one_le_capacity : 1 ≤ capacity
  rate_pos : 0 < rate

theorem BucketConfig.capacity_nonneg (cfg : BucketConfig) : 0 ≤ cfg.capacity :=
  le_trans zero_le_one cfg.one_le_capacity

/-- The state of the limiter. Times are whole milliseconds. -/
structure TokenBucketRateLimiter where
  lastRefreshTime : ℤ
  consumedTokens : ℚ
deriving DecidableEq, Repr

namespace TokenBucketRateLimiter

/-- `__init__` -/
def new : TokenBucketRateLimiter where
  lastRefreshTime := 0
  consumedTokens := 0

/-- `time_elapsed_ms` -/
def timeElapsedMs (now : ℤ) (s : TokenBucketRateLimiter) : ℤ := max 0 (now - s.lastRefreshTime)

/-- `new_generated_tokens` -/
def newGeneratedTokens (cfg : BucketConfig) (now : ℤ) (s : TokenBucketRateLimiter) : ℤ :=
  ⌊(s.timeElapsedMs now : ℚ) * cfg.rate⌋

/-- `_last_refresh_time`, after a call. -/
def refreshTime (cfg : BucketConfig) (now : ℤ) (s : TokenBucketRateLimiter) : ℤ :=
  now - (s.timeElapsedMs now - ⌊(s.newGeneratedTokens cfg now : ℚ) / cfg.rate⌋)

/-- `_consumed_tokens`, once the new tokens are filled in. -/
def refill (cfg : BucketConfig) (now : ℤ) (s : TokenBucketRateLimiter) : ℚ :=
  max 0 (min cfg.capacity s.consumedTokens - s.newGeneratedTokens cfg now)

/-- `acquire` -/
def acquire (cfg : BucketConfig) (now : ℤ) (requestedNumber : ℚ) (s : TokenBucketRateLimiter) :
    Bool × TokenBucketRateLimiter :=
  let lastRefreshTime := s.refreshTime cfg now
  let consumedTokens := s.refill cfg now
  if consumedTokens + requestedNumber ≤ cfg.capacity then
    (true, { lastRefreshTime := lastRefreshTime, consumedTokens := consumedTokens + requestedNumber })
  else (false, { lastRefreshTime := lastRefreshTime, consumedTokens := consumedTokens })

/-- A call: what the clock reads, and `requested_number`. -/
structure Call where
  now : ℤ
  requestedNumber : ℚ
deriving DecidableEq, Repr

/-- The state after some calls. -/
def after (cfg : BucketConfig) (s : TokenBucketRateLimiter) : List Call → TokenBucketRateLimiter
  | [] => s
  | call :: calls => after cfg (s.acquire cfg call.now call.requestedNumber).2 calls

/-- The sum of `requested_number` over the calls that return `True`. -/
def granted (cfg : BucketConfig) (s : TokenBucketRateLimiter) : List Call → ℚ
  | [] => 0
  | call :: calls =>
    let (allowed, s) := s.acquire cfg call.now call.requestedNumber
    (if allowed then call.requestedNumber else 0) + granted cfg s calls

/-- What the limiter is for: the calls from `first` on, whatever came before, are granted
what the capacity and the time between the first and the last of them allow, and one token
more. -/
def RateEnforced (cfg : BucketConfig) : Prop :=
  ∀ before first rest, ((before ++ first :: rest).map Call.now).Pairwise (· ≤ ·) →
    (∀ call ∈ before ++ first :: rest, 1 ≤ call.requestedNumber) →
    granted cfg (after cfg new before) (first :: rest) ≤
      cfg.capacity + cfg.rate * ((rest.map Call.now).getLastD first.now - first.now) + 1

/-! ## The bucket -/

variable {cfg : BucketConfig} {s : TokenBucketRateLimiter}

/-- No more is used up than there is. -/
structure Within (cfg : BucketConfig) (s : TokenBucketRateLimiter) : Prop where
  nonneg : 0 ≤ s.consumedTokens
  le_capacity : s.consumedTokens ≤ cfg.capacity

theorem within_new (cfg : BucketConfig) : Within cfg new := ⟨le_refl 0, cfg.capacity_nonneg⟩

theorem newGeneratedTokens_nonneg (cfg : BucketConfig) (now : ℤ) (s : TokenBucketRateLimiter) :
    0 ≤ s.newGeneratedTokens cfg now := by
  apply Int.floor_nonneg.mpr
  have helapsed : (0 : ℚ) ≤ (s.timeElapsedMs now : ℚ) := by exact_mod_cast le_max_left 0 _
  exact mul_nonneg helapsed (le_of_lt cfg.rate_pos)

@[simp] theorem lastRefreshTime_acquire (cfg : BucketConfig) (now : ℤ) (requestedNumber : ℚ)
    (s : TokenBucketRateLimiter) :
    (s.acquire cfg now requestedNumber).2.lastRefreshTime = s.refreshTime cfg now := by
  unfold acquire
  simp only
  split
  · rfl
  · rfl

/-- The tokens a call finds, and asks for. -/
def use (cfg : BucketConfig) (call : Call) (s : TokenBucketRateLimiter) : Bucket.Use ℚ where
  fill := s.newGeneratedTokens cfg call.now
  request := call.requestedNumber

theorem fill_use_nonneg (cfg : BucketConfig) (call : Call) (s : TokenBucketRateLimiter) :
    0 ≤ (s.use cfg call).fill := by
  show (0 : ℚ) ≤ s.newGeneratedTokens cfg call.now
  exact_mod_cast newGeneratedTokens_nonneg cfg call.now s

/-- The level of the bucket. -/
def available (cfg : BucketConfig) (s : TokenBucketRateLimiter) : ℚ :=
  cfg.capacity - s.consumedTokens

/-- Filling the bucket. -/
theorem refill_eq (hs : Within cfg s) (call : Call) :
    cfg.capacity - s.refill cfg call.now =
      Bucket.filled cfg.capacity (s.available cfg) (s.use cfg call) := by
  unfold refill Bucket.filled available use
  rw [min_eq_right hs.le_capacity]
  rcases le_total 0 (s.consumedTokens - s.newGeneratedTokens cfg call.now : ℚ) with h | h
  · rw [max_eq_right h, min_eq_right (by linarith)]
    ring
  · rw [max_eq_left h, min_eq_left (by linarith)]
    ring

/-- A call is a use of the bucket. -/
theorem acquire_eq (hs : Within cfg s) (call : Call) :
    let t := s.acquire cfg call.now call.requestedNumber
    (if t.1 then call.requestedNumber else 0) =
        Bucket.grant (Bucket.filled cfg.capacity (s.available cfg) (s.use cfg call))
          (s.use cfg call) ∧
      t.2.available cfg = Bucket.level cfg.capacity (s.available cfg) (s.use cfg call) := by
  have hrefill := refill_eq hs call
  unfold Bucket.level Bucket.grant
  rw [← hrefill]
  unfold acquire
  simp only
  show _ = (if call.requestedNumber ≤ _ then call.requestedNumber else 0) ∧
    _ = _ - (if call.requestedNumber ≤ _ then call.requestedNumber else 0)
  by_cases h : s.refill cfg call.now + call.requestedNumber ≤ cfg.capacity
  · have hle : call.requestedNumber ≤ cfg.capacity - s.refill cfg call.now := by linarith
    rw [if_pos h, if_pos hle]
    refine ⟨rfl, ?_⟩
    show cfg.capacity - (s.refill cfg call.now + call.requestedNumber) = _
    ring
  · have hle : ¬ call.requestedNumber ≤ cfg.capacity - s.refill cfg call.now := by
      intro hle
      exact h (by linarith)
    rw [if_neg h, if_neg hle]
    refine ⟨rfl, ?_⟩
    show cfg.capacity - s.refill cfg call.now = _
    ring

theorem within_acquire (hs : Within cfg s) {call : Call} (hrequest : 0 ≤ call.requestedNumber) :
    Within cfg (s.acquire cfg call.now call.requestedNumber).2 := by
  have hrefill : 0 ≤ s.refill cfg call.now := le_max_left 0 _
  have hlevel : 0 ≤ (s.acquire cfg call.now call.requestedNumber).2.available cfg := by
    rw [(acquire_eq hs call).2]
    exact Bucket.level_nonneg cfg.capacity_nonneg (sub_nonneg.mpr hs.le_capacity)
      (fill_use_nonneg cfg call s)
  refine ⟨?_, sub_nonneg.mp hlevel⟩
  unfold acquire
  simp only
  split
  · exact add_nonneg hrefill hrequest
  · exact hrefill

/-- The uses of the bucket that some calls make. -/
def uses (cfg : BucketConfig) (s : TokenBucketRateLimiter) : List Call → List (Bucket.Use ℚ)
  | [] => []
  | call :: calls =>
    s.use cfg call :: uses cfg (s.acquire cfg call.now call.requestedNumber).2 calls

/-- What the calls are granted is what the bucket grants. -/
theorem granted_eq {calls : List Call} (hs : Within cfg s)
    (hrequest : ∀ call ∈ calls, 0 ≤ call.requestedNumber) :
    granted cfg s calls = Bucket.granted cfg.capacity (s.available cfg) (uses cfg s calls) := by
  induction calls generalizing s with
  | nil => rfl
  | cons call calls ih =>
      have hnext := within_acquire hs (hrequest call List.mem_cons_self)
      have hrest := ih hnext fun c hc => hrequest c (List.mem_cons_of_mem _ hc)
      rcases acquire_eq hs call with ⟨hgrant, hlevel⟩
      rw [uses, Bucket.granted, ← hgrant, ← hlevel, ← hrest]
      rfl

/-- Each use is that of some call, in some state. -/
theorem mem_uses {calls : List Call} {u : Bucket.Use ℚ} (h : u ∈ uses cfg s calls) :
    ∃ call ∈ calls, ∃ t : TokenBucketRateLimiter, u = t.use cfg call := by
  induction calls generalizing s with
  | nil => cases h
  | cons call calls ih =>
      rcases List.mem_cons.mp h with rfl | hrest
      · exact ⟨call, List.mem_cons_self, s, rfl⟩
      · obtain ⟨c, hc, t, hu⟩ := ih hrest
        exact ⟨c, List.mem_cons_of_mem _ hc, t, hu⟩

theorem fill_nonneg (cfg : BucketConfig) (s : TokenBucketRateLimiter) (calls : List Call) :
    ∀ u ∈ uses cfg s calls, 0 ≤ u.fill := by
  intro u hu
  obtain ⟨call, _, t, rfl⟩ := mem_uses hu
  exact fill_use_nonneg cfg call t

theorem request_nonneg {calls : List Call} (h : ∀ call ∈ calls, 0 ≤ call.requestedNumber) :
    ∀ u ∈ uses cfg s calls, 0 ≤ u.request := by
  intro u hu
  obtain ⟨call, hcall, t, rfl⟩ := mem_uses hu
  exact h call hcall

theorem within_after {calls : List Call} (hs : Within cfg s)
    (hrequest : ∀ call ∈ calls, 0 ≤ call.requestedNumber) : Within cfg (after cfg s calls) := by
  induction calls generalizing s with
  | nil => exact hs
  | cons call calls ih =>
      have hnext := within_acquire hs (hrequest call List.mem_cons_self)
      exact ih hnext fun c hc => hrequest c (List.mem_cons_of_mem _ hc)

/-! ## Rates that lose nothing -/

/-- A token every whole number of milliseconds, or a whole number of tokens every
millisecond. -/
def Lossless (cfg : BucketConfig) : Prop := cfg.rate.den = 1 ∨ cfg.rate.num = 1

instance (cfg : BucketConfig) : Decidable (Lossless cfg) :=
  inferInstanceAs (Decidable (cfg.rate.den = 1 ∨ cfg.rate.num = 1))

/-- The tokens of a whole number of milliseconds are worth a whole number of them. -/
theorem Lossless.floor_div (h : Lossless cfg) (elapsed : ℤ) :
    ((⌊(⌊(elapsed : ℚ) * cfg.rate⌋ : ℚ) / cfg.rate⌋ : ℤ) : ℚ) =
      (⌊(elapsed : ℚ) * cfg.rate⌋ : ℚ) / cfg.rate := by
  have hne : cfg.rate ≠ 0 := ne_of_gt cfg.rate_pos
  rcases h with hden | hnum
  · have hrate : cfg.rate = (cfg.rate.num : ℚ) := (Rat.coe_int_num_of_den_eq_one hden).symm
    have hint : (elapsed : ℚ) * cfg.rate = ((elapsed * cfg.rate.num : ℤ) : ℚ) := by
      rw [Int.cast_mul, ← hrate]
    have hfloor : ((⌊(elapsed : ℚ) * cfg.rate⌋ : ℤ) : ℚ) = elapsed * cfg.rate := by
      rw [hint, Int.floor_intCast]
    rw [hfloor, mul_div_cancel_right₀ _ hne, Int.floor_intCast]
  · have hinv : cfg.rate⁻¹ = (cfg.rate.den : ℚ) := by
      have hdiv := Rat.num_div_den cfg.rate
      rw [hnum, Int.cast_one, one_div] at hdiv
      exact inv_eq_iff_eq_inv.mpr hdiv.symm
    have hint : (⌊(elapsed : ℚ) * cfg.rate⌋ : ℚ) / cfg.rate =
        ((⌊(elapsed : ℚ) * cfg.rate⌋ * (cfg.rate.den : ℤ) : ℤ) : ℚ) := by
      rw [div_eq_mul_inv, hinv, Int.cast_mul, Int.cast_natCast]
    rw [hint, Int.floor_intCast]

/-- A call moves the time of the last refresh on by exactly what its tokens are worth. -/
theorem Lossless.refreshTime_cast (h : Lossless cfg) (now : ℤ) (s : TokenBucketRateLimiter) :
    cfg.rate * ((now : ℚ) - s.refreshTime cfg now) =
      cfg.rate * s.timeElapsedMs now - s.newGeneratedTokens cfg now := by
  have hne : cfg.rate ≠ 0 := ne_of_gt cfg.rate_pos
  have hworth : ((⌊(s.newGeneratedTokens cfg now : ℚ) / cfg.rate⌋ : ℤ) : ℚ) =
      s.newGeneratedTokens cfg now / cfg.rate := h.floor_div (s.timeElapsedMs now)
  unfold refreshTime
  rw [Int.cast_sub, Int.cast_sub, hworth]
  field_simp
  ring

/-- What is kept back is worth less than one token. -/
theorem Lossless.leftover (h : Lossless cfg) (now : ℤ) (s : TokenBucketRateLimiter) :
    s.refreshTime cfg now ≤ now ∧ cfg.rate * ((now : ℚ) - s.refreshTime cfg now) < 1 := by
  have hkept := h.refreshTime_cast now s
  have hle : (s.newGeneratedTokens cfg now : ℚ) ≤ (s.timeElapsedMs now : ℚ) * cfg.rate :=
    Int.floor_le _
  have hlt : (s.timeElapsedMs now : ℚ) * cfg.rate < s.newGeneratedTokens cfg now + 1 :=
    Int.lt_floor_add_one _
  constructor
  · have hnonneg : 0 ≤ (now : ℚ) - s.refreshTime cfg now := by
      by_contra hneg
      have hprod := mul_neg_of_pos_of_neg cfg.rate_pos (not_le.mp hneg)
      linarith
    have hcast : (s.refreshTime cfg now : ℚ) ≤ now := by linarith
    exact_mod_cast hcast
  · linarith

/-- From a call on, the tokens are no more than those of the time that goes by. -/
theorem Lossless.inflow_le (h : Lossless cfg) {calls : List Call} {now : ℤ}
    (hlast : s.lastRefreshTime ≤ now)
    (hsorted : (now :: calls.map Call.now).Pairwise (· ≤ ·)) :
    Bucket.inflow (uses cfg s calls) ≤
      cfg.rate * (((calls.map Call.now).getLastD now : ℚ) - s.lastRefreshTime) := by
  induction calls generalizing s now with
  | nil =>
      have hcast : (s.lastRefreshTime : ℚ) ≤ now := by exact_mod_cast hlast
      exact mul_nonneg (le_of_lt cfg.rate_pos) (sub_nonneg.mpr hcast)
  | cons call calls ih =>
      have hnow : now ≤ call.now := (List.pairwise_cons.mp hsorted).1 _ List.mem_cons_self
      have hleft := h.leftover call.now s
      have hkept := h.refreshTime_cast call.now s
      have helapsed : s.timeElapsedMs call.now = call.now - s.lastRefreshTime :=
        max_eq_right (by omega)
      rw [helapsed, Int.cast_sub] at hkept
      have hrest := ih (s := (s.acquire cfg call.now call.requestedNumber).2)
        (by rw [lastRefreshTime_acquire]; exact hleft.1) (List.pairwise_cons.mp hsorted).2
      rw [lastRefreshTime_acquire] at hrest
      rw [List.map_cons, List.getLastD_cons]
      have hcons : Bucket.inflow (uses cfg s (call :: calls)) =
          s.newGeneratedTokens cfg call.now +
            Bucket.inflow (uses cfg (s.acquire cfg call.now call.requestedNumber).2 calls) :=
        List.sum_cons
      rw [hcons]
      linarith

theorem rateEnforced_of_lossless (h : Lossless cfg) : RateEnforced cfg := by
  intro before first rest hsorted hrequest
  have hpos : ∀ call ∈ before ++ first :: rest, 0 ≤ call.requestedNumber :=
    fun call hcall => le_trans zero_le_one (hrequest call hcall)
  have hwithin : Within cfg (after cfg new before) :=
    within_after (within_new cfg) fun call hcall => hpos call (List.mem_append_left _ hcall)
  rw [granted_eq hwithin fun call hcall => hpos call (List.mem_append_right _ hcall)]
  generalize after cfg new before = s at hwithin
  have hfill : ∀ u ∈ s.use cfg first ::
        uses cfg (s.acquire cfg first.now first.requestedNumber).2 rest,
      0 ≤ u.fill := fill_nonneg cfg s (first :: rest)
  have hbucket := Bucket.granted_cons_le cfg.capacity_nonneg
    (sub_nonneg.mpr hwithin.le_capacity) hfill
  -- after the first call less than one token is kept back
  have hleft := h.leftover first.now s
  have hsorted' : (first.now :: rest.map Call.now).Pairwise (· ≤ ·) := by
    rw [List.map_append, List.pairwise_append] at hsorted
    exact hsorted.2.1
  have hinflow := h.inflow_le (s := (s.acquire cfg first.now first.requestedNumber).2)
    (by rw [lastRefreshTime_acquire]; exact hleft.1) hsorted'
  rw [lastRefreshTime_acquire] at hinflow
  refine le_trans hbucket ?_
  linarith [hinflow, hleft.2]

/-! ## Rates that lose a part of a millisecond -/

/-- The whole milliseconds of one token. -/
def step (cfg : BucketConfig) : ℤ := ⌊1 / cfg.rate⌋

/-- Calls for one token each, a millisecond more than `step` after the last refresh. -/
def lossyCalls (cfg : BucketConfig) : ℤ → ℕ → List Call
  | _, 0 => []
  | lastRefreshTime, n + 1 =>
    { now := lastRefreshTime + step cfg + 1, requestedNumber := 1 } ::
      lossyCalls cfg (lastRefreshTime + step cfg) n

theorem step_nonneg (cfg : BucketConfig) : 0 ≤ step cfg :=
  Int.floor_nonneg.mpr (le_of_lt (one_div_pos.mpr cfg.rate_pos))

theorem rate_mul_step (cfg : BucketConfig) (h : ¬ Lossless cfg) : cfg.rate * step cfg < 1 := by
  have hle : (step cfg : ℚ) ≤ 1 / cfg.rate := Int.floor_le _
  have hne : (step cfg : ℚ) ≠ 1 / cfg.rate := by
    -- the rate would be one token every so many milliseconds
    intro heq
    have hpos : 0 < step cfg := by
      have hcast : (0 : ℚ) < step cfg := by
        rw [heq]
        exact one_div_pos.mpr cfg.rate_pos
      exact_mod_cast hcast
    have hrate : cfg.rate = (step cfg : ℚ)⁻¹ := by rw [heq, one_div, inv_inv]
    apply h
    right
    rw [hrate]
    exact Rat.inv_intCast_num_of_pos hpos
  have hlt := lt_of_le_of_ne hle hne
  rw [lt_div_iff₀ cfg.rate_pos] at hlt
  linarith

/-- The tokens of one millisecond more: at least one, and no whole number of milliseconds
for all of the time. -/
theorem tokens_lt (cfg : BucketConfig) (h : ¬ Lossless cfg) :
    (⌊((step cfg + 1 : ℤ) : ℚ) * cfg.rate⌋ : ℚ) < ((step cfg + 1 : ℤ) : ℚ) * cfg.rate := by
  have hstep := rate_mul_step cfg h
  have hnonneg := step_nonneg cfg
  refine lt_of_le_of_ne (Int.floor_le _) ?_
  intro heq
  rw [Int.cast_add, Int.cast_one] at heq
  rcases Int.lt_or_eq_of_le hnonneg with hpos | hzero
  · -- between one token and two there is no whole number of tokens
    have hone : (1 : ℚ) ≤ step cfg := by exact_mod_cast hpos
    have hrate : cfg.rate ≤ cfg.rate * step cfg :=
      le_mul_of_one_le_right (le_of_lt cfg.rate_pos) hone
    have hlow : (1 : ℚ) / cfg.rate < step cfg + 1 := Int.lt_floor_add_one _
    rw [div_lt_iff₀ cfg.rate_pos] at hlow
    have hmore : (1 : ℚ) < (⌊((step cfg : ℚ) + 1) * cfg.rate⌋ : ℤ) := by rw [heq]; exact hlow
    have hless : ((⌊((step cfg : ℚ) + 1) * cfg.rate⌋ : ℤ) : ℚ) < 2 := by rw [heq]; linarith
    have hmore' : 1 < ⌊((step cfg : ℚ) + 1) * cfg.rate⌋ := by exact_mod_cast hmore
    have hless' : ⌊((step cfg : ℚ) + 1) * cfg.rate⌋ < 2 := by exact_mod_cast hless
    omega
  · -- the rate would be a whole number
    apply h
    left
    rw [← hzero, Int.cast_zero, zero_add, one_mul] at heq
    rw [← heq]
    exact Rat.den_intCast _

/-- So the call moves the time of the last refresh on by `step` only. -/
theorem lossy_call (cfg : BucketConfig) (h : ¬ Lossless cfg) :
    1 ≤ ⌊((step cfg + 1 : ℤ) : ℚ) * cfg.rate⌋ ∧
      ⌊(⌊((step cfg + 1 : ℤ) : ℚ) * cfg.rate⌋ : ℚ) / cfg.rate⌋ = step cfg := by
  have hlow : (1 : ℚ) / cfg.rate < step cfg + 1 := Int.lt_floor_add_one _
  have hone : 1 ≤ ⌊((step cfg + 1 : ℤ) : ℚ) * cfg.rate⌋ := by
    rw [div_lt_iff₀ cfg.rate_pos] at hlow
    apply Int.le_floor.mpr
    rw [Int.cast_add, Int.cast_one]
    exact le_of_lt hlow
  refine ⟨hone, Int.floor_eq_iff.mpr ⟨?_, ?_⟩⟩
  · have hcast : (1 : ℚ) ≤ (⌊((step cfg + 1 : ℤ) : ℚ) * cfg.rate⌋ : ℤ) := by exact_mod_cast hone
    calc (step cfg : ℚ) ≤ 1 / cfg.rate := Int.floor_le _
      _ ≤ _ := (div_le_div_iff_of_pos_right cfg.rate_pos).mpr hcast
  · rw [div_lt_iff₀ cfg.rate_pos]
    have hlt := tokens_lt cfg h
    rw [Int.cast_add, Int.cast_one] at hlt ⊢
    exact hlt

theorem timeElapsedMs_lossy (cfg : BucketConfig) (s : TokenBucketRateLimiter) :
    s.timeElapsedMs (s.lastRefreshTime + step cfg + 1) = step cfg + 1 := by
  have hnonneg := step_nonneg cfg
  unfold timeElapsedMs
  rw [max_eq_right (by omega)]
  omega

theorem refreshTime_lossy (h : ¬ Lossless cfg) (s : TokenBucketRateLimiter) :
    s.refreshTime cfg (s.lastRefreshTime + step cfg + 1) = s.lastRefreshTime + step cfg := by
  unfold refreshTime newGeneratedTokens
  rw [timeElapsedMs_lossy, (lossy_call cfg h).2]
  omega

/-- Each of the calls finds a new token. -/
theorem covered_lossy (h : ¬ Lossless cfg) (n : ℕ) :
    ((uses cfg s (lossyCalls cfg s.lastRefreshTime n)).map (Bucket.covered cfg.capacity)).sum =
      n := by
  induction n generalizing s with
  | zero => rfl
  | succ n ih =>
      have hnext := ih (s := (s.acquire cfg (s.lastRefreshTime + step cfg + 1) 1).2)
      rw [lastRefreshTime_acquire, refreshTime_lossy h] at hnext
      have hfill : (1 : ℚ) ≤ s.newGeneratedTokens cfg (s.lastRefreshTime + step cfg + 1) := by
        unfold newGeneratedTokens
        rw [timeElapsedMs_lossy]
        exact_mod_cast (lossy_call cfg h).1
      have hcovered : Bucket.covered cfg.capacity
          (s.use cfg { now := s.lastRefreshTime + step cfg + 1, requestedNumber := 1 }) = 1 :=
        if_pos ⟨cfg.one_le_capacity, hfill⟩
      rw [lossyCalls, uses, List.map_cons, List.sum_cons, hcovered, hnext]
      push_cast
      ring

theorem requestedNumber_lossy {lastRefreshTime : ℤ} {n : ℕ} :
    ∀ call ∈ lossyCalls cfg lastRefreshTime n, call.requestedNumber = 1 := by
  induction n generalizing lastRefreshTime with
  | zero =>
      intro call hcall
      cases hcall
  | succ n ih =>
      intro call hcall
      rcases List.mem_cons.mp hcall with rfl | hrest
      · rfl
      · exact ih call hrest

theorem now_lossy {lastRefreshTime : ℤ} {n : ℕ} :
    ∀ call ∈ lossyCalls cfg lastRefreshTime n, lastRefreshTime + step cfg + 1 ≤ call.now := by
  have hnonneg := step_nonneg cfg
  induction n generalizing lastRefreshTime with
  | zero =>
      intro call hcall
      cases hcall
  | succ n ih =>
      intro call hcall
      rcases List.mem_cons.mp hcall with rfl | hrest
      · exact le_refl _
      · have hle := ih call hrest
        omega

theorem sorted_lossy (lastRefreshTime : ℤ) (n : ℕ) :
    ((lossyCalls cfg lastRefreshTime n).map Call.now).Pairwise (· ≤ ·) := by
  have hnonneg := step_nonneg cfg
  induction n generalizing lastRefreshTime with
  | zero => exact List.Pairwise.nil
  | succ n ih =>
      refine List.pairwise_cons.mpr ⟨?_, ih _⟩
      intro now hnow
      rcases List.mem_map.mp hnow with ⟨call, hcall, rfl⟩
      have hle := now_lossy call hcall
      show lastRefreshTime + step cfg + 1 ≤ call.now
      omega

theorem lastNow_lossy (lastRefreshTime now : ℤ) (n : ℕ) (hnow : now = lastRefreshTime + 1) :
    ((lossyCalls cfg lastRefreshTime n).map Call.now).getLastD now = now + n * step cfg := by
  induction n generalizing lastRefreshTime now with
  | zero => simp [lossyCalls]
  | succ n ih =>
      rw [lossyCalls, List.map_cons, List.getLastD_cons, ih _ _ rfl, hnow]
      push_cast
      ring

/-- All of these calls are granted. -/
theorem granted_lossy (h : ¬ Lossless cfg) (n : ℕ) :
    (n : ℚ) ≤ granted cfg new (lossyCalls cfg 0 n) := by
  have hwithin := within_new cfg
  have hrequest : ∀ call ∈ lossyCalls cfg 0 n, 0 ≤ call.requestedNumber := by
    intro call hcall
    rw [requestedNumber_lossy call hcall]
    exact zero_le_one
  rw [granted_eq hwithin hrequest, ← covered_lossy (s := new) h n]
  exact Bucket.covered_le_granted cfg.capacity_nonneg (sub_nonneg.mpr hwithin.le_capacity)
    (fill_nonneg cfg new _) (request_nonneg hrequest)

/-- Enough of them are more than the rate allows. -/
theorem not_rateEnforced (h : ¬ Lossless cfg) : ¬ RateEnforced cfg := by
  intro henforced
  have hrate := rate_mul_step cfg h
  obtain ⟨n, hn⟩ := exists_nat_gt ((cfg.capacity + 1) / (1 - cfg.rate * step cfg))
  rw [div_lt_iff₀ (by linarith)] at hn
  have hbound := henforced [] { now := 0 + step cfg + 1, requestedNumber := 1 }
    (lossyCalls cfg (0 + step cfg) n) (sorted_lossy 0 (n + 1))
    fun call hcall => le_of_eq (requestedNumber_lossy (n := n + 1) call hcall).symm
  have hgranted := granted_lossy h (n + 1)
  have hle := le_trans hgranted hbound
  rw [lastNow_lossy (0 + step cfg) _ n rfl] at hle
  push_cast at hle
  linarith

/-! ## The result -/

/-- The limiter enforces its rate, whatever the calls are, if and only if the rate is a
whole number of tokens in a millisecond or one token in a whole number of milliseconds. -/
theorem rate_enforced_iff (cfg : BucketConfig) :
    RateEnforced cfg ↔ cfg.rate.den = 1 ∨ cfg.rate.num = 1 := by
  constructor
  · intro henforced
    by_contra h
    exact not_rateEnforced h henforced
  · exact rateEnforced_of_lossless

/-- Three tokens every two milliseconds, and room for one. -/
def threeInTwo : BucketConfig where
  capacity := 1
  rate := 3 / 2
  one_le_capacity := le_refl 1
  rate_pos := by norm_num

/-- Three calls in the first millisecond are granted a token each. -/
theorem rate_exceeded : ¬ ∀ cfg, RateEnforced cfg := by
  intro h
  have hbound := h threeInTwo [] ⟨1, 1⟩ [⟨1, 1⟩, ⟨1, 1⟩] (by decide) (by decide +kernel)
  revert hbound
  decide +kernel

end TokenBucketRateLimiter

end SummerRpc
