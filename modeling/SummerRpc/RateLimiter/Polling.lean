import SummerRpc.RateLimiter.TokenBucket

/-! # Polling the local rate limiter

What frequent calls of `TokenBucketRateLimiter.acquire` do to the time that has not made a
token yet. A call moves the time of the last refresh on by at most what its new tokens are
worth, so the tokens never fall behind the time they were made of.

* `generated`: the total of `new_generated_tokens` over some calls;
* `worth_le_generated`: the time between the first and the last refresh is worth no more;
* `polling_loses_nothing`: neither does a call on top of the calls before it.
-/

namespace SummerRpc

namespace TokenBucketRateLimiter

variable {cfg : BucketConfig}

/-- The total of `new_generated_tokens` over some calls. -/
def generated (cfg : BucketConfig) (s : TokenBucketRateLimiter) : List Call → ℤ
  | [] => 0
  | call :: calls =>
    s.newGeneratedTokens cfg call.now +
      generated cfg (s.acquire cfg call.now call.requestedNumber).2 calls

/-! ## One call -/

/-- The tokens of a call are worth no more than the time it finds. -/
theorem generated_worth_le (cfg : BucketConfig) (now : ℤ) (s : TokenBucketRateLimiter) :
    ⌊(s.newGeneratedTokens cfg now : ℚ) / cfg.rate⌋ ≤ s.timeElapsedMs now := by
  have hle : (s.newGeneratedTokens cfg now : ℚ) ≤ (s.timeElapsedMs now : ℚ) * cfg.rate :=
    Int.floor_le _
  have hworth : (s.newGeneratedTokens cfg now : ℚ) / cfg.rate ≤ s.timeElapsedMs now :=
    (div_le_iff₀ cfg.rate_pos).mpr hle
  have hcast : ((⌊(s.newGeneratedTokens cfg now : ℚ) / cfg.rate⌋ : ℤ) : ℚ) ≤
      s.timeElapsedMs now := le_trans (Int.floor_le _) hworth
  exact_mod_cast hcast

/-- The last refresh is never in the future. -/
theorem refreshTime_le_now (cfg : BucketConfig) (now : ℤ) (s : TokenBucketRateLimiter) :
    s.refreshTime cfg now ≤ now := by
  have hle := generated_worth_le cfg now s
  unfold refreshTime
  omega

/-- A call moves the time of the last refresh on by at most what its tokens are worth. -/
theorem refreshTime_worth (cfg : BucketConfig) (now : ℤ) (s : TokenBucketRateLimiter) :
    cfg.rate * ((s.refreshTime cfg now : ℚ) - s.lastRefreshTime) ≤
      s.newGeneratedTokens cfg now := by
  have helapsed : now - s.lastRefreshTime ≤ s.timeElapsedMs now := le_max_right 0 _
  -- time that went back is not counted as elapsed
  have hmoved : s.refreshTime cfg now - s.lastRefreshTime ≤
      ⌊(s.newGeneratedTokens cfg now : ℚ) / cfg.rate⌋ := by
    unfold refreshTime
    omega
  have hmoved' : (s.refreshTime cfg now : ℚ) - s.lastRefreshTime ≤
      (⌊(s.newGeneratedTokens cfg now : ℚ) / cfg.rate⌋ : ℤ) := by exact_mod_cast hmoved
  have hworth : (s.refreshTime cfg now : ℚ) - s.lastRefreshTime ≤
      s.newGeneratedTokens cfg now / cfg.rate := le_trans hmoved' (Int.floor_le _)
  rw [le_div_iff₀ cfg.rate_pos] at hworth
  linarith

/-! ## Any number of calls -/

theorem after_append (cfg : BucketConfig) (s : TokenBucketRateLimiter) (before calls : List Call) :
    after cfg s (before ++ calls) = after cfg (after cfg s before) calls := by
  induction before generalizing s with
  | nil => rfl
  | cons call before ih => exact ih _

theorem generated_append (cfg : BucketConfig) (s : TokenBucketRateLimiter)
    (before calls : List Call) :
    generated cfg s (before ++ calls) =
      generated cfg s before + generated cfg (after cfg s before) calls := by
  induction before generalizing s with
  | nil => exact (zero_add _).symm
  | cons call before ih =>
      rw [List.cons_append, generated, generated, ih, after, add_assoc]

/-- The tokens are at least what the time between the refreshes is worth. -/
theorem worth_le_generated (cfg : BucketConfig) (s : TokenBucketRateLimiter) (calls : List Call) :
    cfg.rate * (((after cfg s calls).lastRefreshTime : ℚ) - s.lastRefreshTime) ≤
      generated cfg s calls := by
  induction calls generalizing s with
  | nil => simp [after, generated]
  | cons call calls ih =>
      have hcall := refreshTime_worth cfg call.now s
      have hrest := ih (s.acquire cfg call.now call.requestedNumber).2
      rw [lastRefreshTime_acquire] at hrest
      rw [after, generated]
      push_cast
      linarith

/-- After one more call they are at least what all the time is worth. -/
theorem floor_le_generated (cfg : BucketConfig) (s : TokenBucketRateLimiter)
    (before : List Call) (last : Call) :
    ⌊cfg.rate * ((last.now : ℚ) - s.lastRefreshTime)⌋ ≤ generated cfg s (before ++ [last]) := by
  have hbefore := worth_le_generated cfg s before
  have hsplit : generated cfg s (before ++ [last]) =
      (after cfg s before).newGeneratedTokens cfg last.now + generated cfg s before := by
    rw [generated_append, generated, generated, add_zero, add_comm]
  rw [hsplit]
  generalize after cfg s before = t at hbefore ⊢
  have helapsed : (last.now : ℚ) - t.lastRefreshTime ≤ t.timeElapsedMs last.now := by
    exact_mod_cast le_max_right 0 (last.now - t.lastRefreshTime)
  have hmul : cfg.rate * ((last.now : ℚ) - t.lastRefreshTime) ≤
      cfg.rate * t.timeElapsedMs last.now :=
    mul_le_mul_of_nonneg_left helapsed (le_of_lt cfg.rate_pos)
  have hall : cfg.rate * ((last.now : ℚ) - s.lastRefreshTime) ≤
      (t.timeElapsedMs last.now : ℚ) * cfg.rate + generated cfg s before := by linarith
  calc ⌊cfg.rate * ((last.now : ℚ) - s.lastRefreshTime)⌋
      ≤ ⌊(t.timeElapsedMs last.now : ℚ) * cfg.rate + generated cfg s before⌋ :=
        Int.floor_le_floor hall
    _ = t.newGeneratedTokens cfg last.now + generated cfg s before := Int.floor_add_intCast _ _

/-- What some calls of a new limiter may not do, however many they are. -/
structure NothingLost (cfg : BucketConfig) (calls : List Call) : Prop where
  within : 0 ≤ (after cfg new calls).consumedTokens ∧
    (after cfg new calls).consumedTokens ≤ cfg.capacity
  refreshed : ∀ last, calls.getLast? = some last →
    (after cfg new calls).lastRefreshTime ≤ last.now
  tokens : ∀ last, calls.getLast? = some last →
    ⌊cfg.rate * ((last.now : ℚ) - new.lastRefreshTime)⌋ ≤ generated cfg new calls

/-- The used up tokens stay within the capacity, the time of the last refresh is not in the
future, and the new tokens are at least those of all the time gone by. -/
theorem polling_loses_nothing (cfg : BucketConfig) {calls : List Call}
    (hrequest : ∀ call ∈ calls, 0 ≤ call.requestedNumber) : NothingLost cfg calls := by
  have hwithin := within_after (within_new cfg) hrequest
  refine ⟨⟨hwithin.nonneg, hwithin.le_capacity⟩, ?_, ?_⟩
  · intro last hlast
    rw [← List.dropLast_append_getLast? last hlast, after_append, after, after,
      lastRefreshTime_acquire]
    exact refreshTime_le_now cfg last.now _
  · intro last hlast
    rw [← List.dropLast_append_getLast? last hlast]
    exact floor_le_generated cfg new _ last

/-- Three calls, two of them in one millisecond. -/
theorem polling_loses_nothing_three :
    NothingLost threeInTwo [⟨1, 1⟩, ⟨1, 0⟩, ⟨4, 1⟩] :=
  polling_loses_nothing threeInTwo (by decide +kernel)

end TokenBucketRateLimiter

end SummerRpc
