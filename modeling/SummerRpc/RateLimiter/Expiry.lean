import SummerRpc.RateLimiter.RedisTokenBucket

/-! # Keys that expire

Both keys of the script live for the time `setex` is given, from the last execution on. A key
that is gone is a full bucket to the next one. Here the arithmetic is exact.

* `acquireExpiring`: one execution, on keys that may be gone by then;
* `capacity_le_ttl`: a time to live `setex` takes is long enough to fill any bucket;
* `Invisible`: the executions do not raise, and are allowed what they would be allowed if
  the keys never expired;
* `expiry_invisible_iff`: that is so if and only if a bucket takes at least half a second to
  fill.
-/

namespace SummerRpc

namespace RedisTokenBucketRateLimiter

/-- The two keys, and the moment at which they are gone. -/
structure Keys where
  store : Store := {}
  gone : ℤ := 0
deriving DecidableEq, Repr

/-- What is left of them. -/
def Keys.at (now : ℤ) (keys : Keys) : Store := if keys.gone ≤ now then {} else keys.store

/-- `acquire` on these keys. The clock of Redis reads what that of the client reads. -/
def acquireExpiring (cfg : BucketConfig) (call : Call) (keys : Keys) :
    Except RedisError Bool × Keys :=
  match script id cfg call.now call.requestedNumber (keys.at call.now) with
  | .error ex => (.error ex, keys)
  | .ok ((allowed, _), store) => (.ok (allowed ≠ 0), { store, gone := call.now + ttl id cfg })

/-- What the clients get, on keys that expire. -/
def resultsExpiring (cfg : BucketConfig) (keys : Keys) : List Call → List (Except RedisError Bool)
  | [] => []
  | call :: calls =>
    (acquireExpiring cfg call keys).1 ::
      resultsExpiring cfg (acquireExpiring cfg call keys).2 calls

/-- What they get on keys that never do. -/
def results (cfg : BucketConfig) (store : Store) : List Call → List (Except RedisError Bool)
  | [] => []
  | call :: calls =>
    (acquire id cfg call.now call.requestedNumber store).1 ::
      results cfg (acquire id cfg call.now call.requestedNumber store).2 calls

/-- No execution raises, and the same ones are allowed as on keys that never expire. -/
def Invisible (cfg : BucketConfig) (calls : List Call) : Prop :=
  (∀ result ∈ resultsExpiring cfg {} calls, ∃ allowed, result = .ok allowed) ∧
    resultsExpiring cfg {} calls = results cfg {} calls

/-! ## The time to live -/

variable {cfg : BucketConfig}

/-- `setex` takes the time to live of a bucket that takes half a second to fill. -/
theorem ttl_pos_iff (cfg : BucketConfig) : 0 < ttl id cfg ↔ cfg.rate ≤ 2 * cfg.capacity := by
  have hone : 0 < ttl id cfg ↔ (1 : ℤ) ≤ ⌊cfg.capacity / cfg.rate * 2⌋ := Iff.rfl
  rw [hone, Int.le_floor, Int.cast_one, div_mul_eq_mul_div, one_le_div cfg.rate_pos, mul_comm]

/-- A bucket is full again by then: rounding down takes away less than half of it. -/
theorem capacity_le_ttl (h : 0 < ttl id cfg) : cfg.capacity ≤ ttl id cfg * cfg.rate := by
  have hone : (1 : ℚ) ≤ ttl id cfg := by exact_mod_cast h
  have hfloor : cfg.capacity / cfg.rate * 2 < ttl id cfg + 1 := Int.lt_floor_add_one _
  have hle : cfg.capacity / cfg.rate ≤ ttl id cfg := by linarith
  exact (div_le_iff₀ cfg.rate_pos).mp hle

/-! ## One execution -/

/-- What is left behind: a bucket that is not overdrawn, and keys that live from the reading
in it. -/
structure Lives (cfg : BucketConfig) (keys : Keys) : Prop where
  within : Within keys.store
  gone : ∀ last, keys.store.timestamp = some last → keys.gone = last + ttl id cfg
  both : keys.store.timestamp = none → keys.store.tokens = none

theorem filledTokens_id (cfg : BucketConfig) (now : ℤ) (store : Store) :
    filledTokens id cfg now store =
      min cfg.capacity (lastTokens cfg store + elapsed now store * cfg.rate) := by
  unfold filledTokens delta elapsed
  rw [id_eq, id_eq, id_eq, Int.cast_max, Int.cast_zero]

theorem elapsed_mul_nonneg (cfg : BucketConfig) (now : ℤ) (store : Store) :
    (0 : ℚ) ≤ elapsed now store * cfg.rate := by
  have hnonneg : (0 : ℚ) ≤ elapsed now store := by exact_mod_cast elapsed_nonneg now store
  exact mul_nonneg hnonneg (le_of_lt cfg.rate_pos)

theorem filledTokens_empty (cfg : BucketConfig) (now : ℤ) :
    filledTokens id cfg now {} = cfg.capacity := by
  rw [filledTokens_id]
  exact min_eq_left (le_add_of_nonneg_right (elapsed_mul_nonneg cfg now {}))

theorem filledTokens_nonneg {store : Store} (h : Within store) (now : ℤ) :
    0 ≤ filledTokens id cfg now store := by
  rw [filledTokens_id]
  exact le_min cfg.capacity_nonneg
    (add_nonneg (lastTokens_nonneg cfg h) (elapsed_mul_nonneg cfg now store))

/-- A bucket whose keys are gone would be full. -/
theorem filledTokens_gone (httl : 0 < ttl id cfg) {keys : Keys} (h : Lives cfg keys) {now : ℤ}
    (hgone : keys.gone ≤ now) : filledTokens id cfg now keys.store = cfg.capacity := by
  have hlast := lastTokens_nonneg cfg h.within
  cases htimestamp : keys.store.timestamp with
  | none =>
      have hempty : keys.store = {} := by
        have htokens := h.both htimestamp
        obtain ⟨store, gone⟩ := keys
        obtain ⟨tokens, timestamp⟩ := store
        cases htokens
        cases htimestamp
        rfl
      rw [hempty]
      exact filledTokens_empty cfg now
  | some last =>
      have helapsed : ttl id cfg ≤ now - last := by
        rw [h.gone last htimestamp] at hgone
        omega
      have hpassed : elapsed now keys.store = now - last := by
        rw [elapsed_of_timestamp htimestamp]
        exact max_eq_right (by omega)
      have hfill : cfg.capacity ≤ ((now - last : ℤ) : ℚ) * cfg.rate := by
        have hcast : (ttl id cfg : ℚ) ≤ ((now - last : ℤ) : ℚ) := by exact_mod_cast helapsed
        exact le_trans (capacity_le_ttl httl)
          (mul_le_mul_of_nonneg_right hcast (le_of_lt cfg.rate_pos))
      rw [filledTokens_id, hpassed]
      exact min_eq_left (by linarith)

/-- The script does not see whether the keys are gone. -/
theorem script_at (httl : 0 < ttl id cfg) {keys : Keys} (h : Lives cfg keys) (now : ℤ)
    (requested : ℚ) :
    script id cfg now requested (keys.at now) = script id cfg now requested keys.store := by
  have hfilled : filledTokens id cfg now (keys.at now) = filledTokens id cfg now keys.store := by
    unfold Keys.at
    split
    · next hgone => rw [filledTokens_gone httl h hgone, filledTokens_empty]
    · rfl
  unfold script
  rw [hfilled]

/-- An execution on keys that expire gives what it gives on the others, and leaves the same
in them. -/
theorem acquireExpiring_eq (httl : 0 < ttl id cfg) {keys : Keys} (h : Lives cfg keys)
    (call : Call) :
    (acquireExpiring cfg call keys).1 =
        (acquire id cfg call.now call.requestedNumber keys.store).1 ∧
      (acquireExpiring cfg call keys).2.store =
        (acquire id cfg call.now call.requestedNumber keys.store).2 ∧
      (∃ allowed, (acquireExpiring cfg call keys).1 = .ok allowed) ∧
      Lives cfg (acquireExpiring cfg call keys).2 := by
  have hfilled : 0 ≤ filledTokens id cfg call.now keys.store :=
    filledTokens_nonneg h.within call.now
  unfold acquireExpiring acquire
  rw [script_at httl h]
  unfold script
  simp only [if_neg (not_le.mpr httl)]
  refine ⟨trivial, trivial, ⟨_, rfl⟩, ?_, ?_, ?_⟩
  · intro tokens htokens
    rw [← Option.some.inj htokens]
    split
    · rename_i hallowed
      exact sub_nonneg.mpr hallowed
    · exact hfilled
  · intro last hlast
    rw [← Option.some.inj hlast]
  · intro hnone
    cases hnone

theorem lives_empty (cfg : BucketConfig) : Lives cfg {} where
  within := within_empty
  gone := by
    intro last hlast
    cases hlast
  both := fun _ => rfl

/-! ## Runs -/

theorem resultsExpiring_eq (httl : 0 < ttl id cfg) {keys : Keys} (h : Lives cfg keys)
    (calls : List Call) :
    (∀ result ∈ resultsExpiring cfg keys calls, ∃ allowed, result = .ok allowed) ∧
      resultsExpiring cfg keys calls = results cfg keys.store calls := by
  induction calls generalizing keys with
  | nil => exact ⟨fun _ hresult => absurd hresult List.not_mem_nil, rfl⟩
  | cons call calls ih =>
      obtain ⟨hresult, hstore, hok, hlives⟩ := acquireExpiring_eq httl h call
      obtain ⟨hrest, heq⟩ := ih hlives
      rw [resultsExpiring, results]
      constructor
      · exact List.forall_mem_cons.mpr ⟨hok, hrest⟩
      · rw [hresult, heq, hstore]

/-- With a time to live of zero the first execution raises. -/
theorem ttl_pos_of_invisible {call : Call} {calls : List Call}
    (h : Invisible cfg (call :: calls)) : 0 < ttl id cfg := by
  obtain ⟨allowed, hok⟩ := h.1 _ List.mem_cons_self
  by_contra httl
  have hraise : (acquireExpiring cfg call {}).1 = .error .invalidExpireTime := by
    unfold acquireExpiring script
    simp only [if_pos (not_lt.mp httl)]
  rw [hraise] at hok
  cases hok

/-- The clients do not see that the keys expire, whenever they call and whatever they ask
for, if and only if they do not call at all, or the bucket takes at least half a second to
fill. -/
theorem expiry_invisible_iff (cfg : BucketConfig) (calls : List Call) :
    Invisible cfg calls ↔ calls = [] ∨ cfg.rate ≤ 2 * cfg.capacity := by
  constructor
  · intro h
    cases calls with
    | nil => exact Or.inl rfl
    | cons call calls => exact Or.inr ((ttl_pos_iff cfg).mp (ttl_pos_of_invisible h))
  · rintro (rfl | hrate)
    · exact ⟨fun _ hresult => absurd hresult List.not_mem_nil, rfl⟩
    · exact resultsExpiring_eq ((ttl_pos_iff cfg).mpr hrate) (lives_empty cfg) calls

/-- Three tokens a second, and room for one. -/
def threeASecond : BucketConfig where
  capacity := 1
  rate := 3
  one_le_capacity := by norm_num
  rate_pos := by norm_num

/-- Redis refuses to let the keys live for no time at all. -/
theorem expire_time_refused : ¬ ∀ cfg (calls : List Call),
    (calls.map Call.now).Pairwise (· ≤ ·) → (∀ call ∈ calls, 1 ≤ call.requestedNumber) →
    Invisible cfg calls := by
  intro h
  have hinvisible := h threeASecond [⟨0, 1⟩] (by decide) (by decide +kernel)
  have httl := ttl_pos_of_invisible hinvisible
  revert httl
  decide +kernel

end RedisTokenBucketRateLimiter

end SummerRpc
