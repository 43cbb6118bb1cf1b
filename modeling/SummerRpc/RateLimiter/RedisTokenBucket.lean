import SummerRpc.Lib.Rounding
import SummerRpc.RateLimiter.TokenBucket

/-! # The rate limiter in Redis

The script of `rate_limiter/redis_token_bucket.py`, which keeps a bucket for all clients
under two keys. Each execution brings the reading of its client's own clock, and leaves it
under the second key. Numbers of Lua are doubles: every operation rounds its exact result,
and the rounding is a parameter.

* `script`, `acquire`: one execution;
* `Exact`: the amounts on which no operation rounds;
* `allowedSum_eq`: it is a bucket that fills with the time since the stored reading;
* `forward`: how far the readings go forwards, taken together;
* `shared_bound_iff`: the clients are bounded together if and only if that is no further
  than the largest reading is from the smallest one.
-/

namespace SummerRpc

namespace RedisTokenBucketRateLimiter

open Rounding

/-- The values of `tokens_key` and `timestamp_key`, if they are there. -/
structure Store where
  tokens : Option ℚ := none
  timestamp : Option ℤ := none
deriving DecidableEq, Repr

/-- What Redis raises. -/
inductive RedisError where
  /-- `invalid expire time in setex` -/
  | invalidExpireTime
deriving DecidableEq, Repr

/-- An execution of the script, by any client. -/
structure Call where
  now : ℤ
  requestedNumber : ℚ
deriving DecidableEq, Repr

section Script

/-! ## The script -/

variable (fl : ℚ → ℚ)

/-- The time to live of both keys. -/
def ttl (cfg : BucketConfig) : ℤ := ⌊fl (fl (cfg.capacity / cfg.rate) * 2)⌋

/-- `last_tokens` -/
def lastTokens (cfg : BucketConfig) (store : Store) : ℚ := store.tokens.getD cfg.capacity

/-- `delta` -/
def delta (now : ℤ) (store : Store) : ℚ := max 0 (fl (now - store.timestamp.getD 0 : ℤ))

/-- `filled_tokens` -/
def filledTokens (cfg : BucketConfig) (now : ℤ) (store : Store) : ℚ :=
  min cfg.capacity (fl (lastTokens cfg store + fl (delta fl now store * cfg.rate)))

/-- The script: `allowed_num` and `new_tokens`, and the keys it leaves. -/
def script (cfg : BucketConfig) (now : ℤ) (requested : ℚ) (store : Store) :
    Except RedisError ((ℕ × ℚ) × Store) :=
  let filled := filledTokens fl cfg now store
  let allowed := requested ≤ filled
  let newTokens := if allowed then fl (filled - requested) else filled
  let allowedNum := if allowed then 1 else 0
  -- the first `setex`, and the second one with the same time to live
  if ttl fl cfg ≤ 0 then .error .invalidExpireTime
  else .ok ((allowedNum, newTokens), { tokens := some newTokens, timestamp := some now })

/-- `acquire`: the result, unless Redis raises, and the keys. -/
def acquire (cfg : BucketConfig) (now : ℤ) (requestedNumber : ℚ) (store : Store) :
    Except RedisError Bool × Store :=
  match script fl cfg now requestedNumber store with
  | .error ex => (.error ex, store)
  | .ok ((allowed, _), store) => (.ok (allowed ≠ 0), store)

/-- The sum of `requested` over the executions that are allowed. -/
def allowedSum (cfg : BucketConfig) (store : Store) : List Call → ℚ
  | [] => 0
  | call :: calls =>
    let (result, store) := acquire fl cfg call.now call.requestedNumber store
    (if result = .ok true then call.requestedNumber else 0) + allowedSum cfg store calls

end Script

/-! ## The bound -/

/-- The largest of some readings. -/
def largest (first : ℤ) (rest : List ℤ) : ℤ := rest.foldl max first

/-- The smallest of some readings. -/
def smallest (first : ℤ) (rest : List ℤ) : ℤ := rest.foldl min first

/-- An amount that is a number of units, and that a double holds. -/
def Units (unit x : ℚ) : Prop := x ∈ doubles ∧ x ∈ AddSubgroup.zmultiples unit

/-- Amounts that the script does not round: a power of two is the unit of all of them, and
the bucket holds at most as many of it as 53 bits count. -/
structure Exact (e : ℤ) (cfg : BucketConfig) (calls : List Call) : Prop where
  low : -1074 ≤ e
  high : e ≤ 970
  capacity : Units (2 ^ e) cfg.capacity
  capacity_le : cfg.capacity ≤ 2 ^ 53 * 2 ^ e
  rate : Units (2 ^ e) cfg.rate
  requests : ∀ call ∈ calls, Units (2 ^ e) call.requestedNumber

/-- A reading that a double holds, and its distance from another one, too. -/
def Readable (now : ℤ) : Prop := |now| ≤ 2 ^ 50

instance Readable.decidable (now : ℤ) : Decidable (Readable now) :=
  inferInstanceAs (Decidable (_ ≤ _))

/-- What the bucket is for, on executions whose clocks read `first` and then `rest`: they
are allowed what the capacity and the spread of the readings give, whatever they ask for. -/
def SharedBound (fl : ℚ → ℚ) (first : ℤ) (rest : List ℤ) : Prop :=
  ∀ cfg (calls : List Call), (∃ e, Exact e cfg calls) → calls.map Call.now = first :: rest →
    (∀ call ∈ calls, 1 ≤ call.requestedNumber) →
    allowedSum fl cfg {} calls ≤
      cfg.capacity + cfg.rate * ((largest first rest : ℚ) - smallest first rest)

/-! ## The bucket -/

variable {fl : ℚ → ℚ} {e : ℤ} {cfg : BucketConfig} {store : Store} {call : Call}
  {calls : List Call}

/-- A key with tokens does not hold a negative number of them. -/
def Within (store : Store) : Prop := ∀ tokens, store.tokens = some tokens → 0 ≤ tokens

theorem within_empty : Within {} := by
  intro tokens htokens
  cases htokens

theorem lastTokens_nonneg (cfg : BucketConfig) (h : Within store) : 0 ≤ lastTokens cfg store := by
  unfold lastTokens
  cases htokens : store.tokens with
  | none => exact cfg.capacity_nonneg
  | some tokens => exact h tokens htokens

/-- The time since the stored reading. -/
def elapsed (now : ℤ) (store : Store) : ℤ := max 0 (now - store.timestamp.getD 0)

theorem elapsed_nonneg (now : ℤ) (store : Store) : 0 ≤ elapsed now store := le_max_left 0 _

/-- The tokens an execution finds, and asks for. -/
def use (cfg : BucketConfig) (call : Call) (store : Store) : Bucket.Use ℚ where
  fill := elapsed call.now store * cfg.rate
  request := call.requestedNumber

theorem fill_use_nonneg (cfg : BucketConfig) (call : Call) (store : Store) :
    0 ≤ (use cfg call store).fill := by
  have helapsed : (0 : ℚ) ≤ elapsed call.now store := by
    exact_mod_cast elapsed_nonneg call.now store
  exact mul_nonneg helapsed (le_of_lt cfg.rate_pos)

/-- The keys an execution leaves. -/
def next (cfg : BucketConfig) (call : Call) (store : Store) : Store where
  tokens := some (Bucket.level cfg.capacity (lastTokens cfg store) (use cfg call store))
  timestamp := some call.now

/-! ### Nothing is rounded -/

/-- Keys that hold units, and a reading. -/
structure Held (e : ℤ) (store : Store) : Prop where
  within : Within store
  tokens : ∀ tokens, store.tokens = some tokens → tokens ∈ AddSubgroup.zmultiples ((2 : ℚ) ^ e)
  timestamp : ∀ last, store.timestamp = some last → Readable last

theorem held_empty (e : ℤ) : Held e {} where
  within := within_empty
  tokens := by
    intro tokens htokens
    cases htokens
  timestamp := by
    intro last hlast
    cases hlast

theorem Exact.tail (h : Exact e cfg (call :: calls)) : Exact e cfg calls :=
  { h with requests := fun c hc => h.requests c (List.mem_cons_of_mem _ hc) }

/-- What goes into the bucket is held by a double. -/
theorem Exact.mem_doubles (h : Exact e cfg calls) {x : ℚ}
    (hx : x ∈ AddSubgroup.zmultiples ((2 : ℚ) ^ e)) (hnonneg : 0 ≤ x) (hle : x ≤ cfg.capacity) :
    x ∈ doubles := by
  apply Rounding.mem_doubles h.low h.high hx
  rw [abs_of_nonneg hnonneg]
  exact le_trans hle h.capacity_le

theorem delta_eq (hfl : Rounds doubles fl) (hstore : Held e store) {now : ℤ} (hnow : Readable now) :
    delta fl now store = elapsed now store := by
  have hlast : |store.timestamp.getD 0| ≤ 2 ^ 50 := by
    cases hlast : store.timestamp with
    | none => exact (by decide : |(0 : ℤ)| ≤ 2 ^ 50)
    | some last => exact hstore.timestamp last hlast
  have hdistance : |now - store.timestamp.getD 0| ≤ 2 ^ 53 := by
    have habs := abs_sub now (store.timestamp.getD 0)
    have hreadable : |now| ≤ 2 ^ 50 := hnow
    omega
  unfold delta elapsed
  rw [hfl.fixed _ (intCast_mem_doubles hdistance), Int.cast_max, Int.cast_zero]

theorem lastTokens_mem (h : Exact e cfg calls) (hstore : Held e store) :
    lastTokens cfg store ∈ AddSubgroup.zmultiples ((2 : ℚ) ^ e) := by
  unfold lastTokens
  cases htokens : store.tokens with
  | none => exact h.capacity.2
  | some tokens => exact hstore.tokens tokens htokens

theorem fill_mem (h : Exact e cfg calls) (call : Call) (store : Store) :
    (use cfg call store).fill ∈ AddSubgroup.zmultiples ((2 : ℚ) ^ e) := by
  have hmul := AddSubgroup.zsmul_mem _ h.rate.2 (elapsed call.now store)
  rwa [zsmul_eq_mul] at hmul

/-- The bucket is filled exactly: as long as it does not overflow all is held by a double,
and what overflows is cut off, rounded or not. -/
theorem filledTokens_eq (hfl : Rounds doubles fl) (h : Exact e cfg calls) (hstore : Held e store)
    (hnow : Readable call.now) :
    filledTokens fl cfg call.now store =
      Bucket.filled cfg.capacity (lastTokens cfg store) (use cfg call store) := by
  have hlast := lastTokens_nonneg cfg hstore.within
  have hfill := fill_use_nonneg cfg call store
  have hmem := fill_mem h call store
  unfold filledTokens Bucket.filled
  rw [delta_eq hfl hstore hnow]
  show min cfg.capacity (fl (lastTokens cfg store + fl (use cfg call store).fill)) = _
  rcases le_total (use cfg call store).fill cfg.capacity with hle | hge
  · rw [hfl.fixed _ (h.mem_doubles hmem hfill hle)]
    apply hfl.min_eq h.capacity.1
    exact h.mem_doubles (add_mem (lastTokens_mem h hstore) hmem) (add_nonneg hlast hfill)
  · have hrounded := hfl.le h.capacity.1 hge
    rw [min_eq_left (hfl.le h.capacity.1 (le_trans hrounded (le_add_of_nonneg_left hlast))),
      min_eq_left (le_trans hge (le_add_of_nonneg_left hlast))]

theorem filled_mem (h : Exact e cfg calls) (hstore : Held e store) (call : Call) :
    Bucket.filled cfg.capacity (lastTokens cfg store) (use cfg call store) ∈
      AddSubgroup.zmultiples ((2 : ℚ) ^ e) := by
  unfold Bucket.filled
  rcases min_choice cfg.capacity (lastTokens cfg store + (use cfg call store).fill) with hc | hc
  · rw [hc]
    exact h.capacity.2
  · rw [hc]
    exact add_mem (lastTokens_mem h hstore) (fill_mem h call store)

theorem level_mem (h : Exact e cfg (call :: calls)) (hstore : Held e store) :
    Bucket.level cfg.capacity (lastTokens cfg store) (use cfg call store) ∈
      AddSubgroup.zmultiples ((2 : ℚ) ^ e) := by
  unfold Bucket.level Bucket.grant
  split
  · exact sub_mem (filled_mem h hstore call) (h.requests call List.mem_cons_self).2
  · rw [sub_zero]
    exact filled_mem h hstore call

theorem level_nonneg (cfg : BucketConfig) (hstore : Within store) (call : Call) :
    0 ≤ Bucket.level cfg.capacity (lastTokens cfg store) (use cfg call store) :=
  Bucket.level_nonneg cfg.capacity_nonneg (lastTokens_nonneg cfg hstore)
    (fill_use_nonneg cfg call store)

theorem held_next (h : Exact e cfg (call :: calls)) (hstore : Held e store)
    (hnow : Readable call.now) : Held e (next cfg call store) where
  within := by
    intro tokens htokens
    rw [← Option.some.inj htokens]
    exact level_nonneg cfg hstore.within call
  tokens := by
    intro tokens htokens
    rw [← Option.some.inj htokens]
    exact level_mem h hstore
  timestamp := by
    intro last hlast
    rw [← Option.some.inj hlast]
    exact hnow

/-- An execution that does not raise is a use of the bucket. -/
theorem acquire_eq (hfl : Rounds doubles fl) (httl : 0 < ttl fl cfg)
    (h : Exact e cfg (call :: calls)) (hstore : Held e store) (hnow : Readable call.now)
    (hrequest : 0 ≤ call.requestedNumber) :
    let t := acquire fl cfg call.now call.requestedNumber store
    (if t.1 = .ok true then call.requestedNumber else 0) =
        Bucket.grant (Bucket.filled cfg.capacity (lastTokens cfg store) (use cfg call store))
          (use cfg call store) ∧
      t.2 = next cfg call store := by
  have hfilled := filledTokens_eq hfl h hstore hnow
  have hlevel : fl (Bucket.level cfg.capacity (lastTokens cfg store) (use cfg call store)) =
      Bucket.level cfg.capacity (lastTokens cfg store) (use cfg call store) := by
    apply hfl.fixed
    apply h.mem_doubles (level_mem h hstore) (level_nonneg cfg hstore.within call)
    have hgrant : 0 ≤ Bucket.grant
        (Bucket.filled cfg.capacity (lastTokens cfg store) (use cfg call store))
        (use cfg call store) := Bucket.grant_nonneg _ hrequest
    exact le_trans (sub_le_self _ hgrant) (min_le_left _ _)
  unfold acquire script
  simp only [if_neg (not_le.mpr httl), hfilled]
  by_cases hallowed : call.requestedNumber ≤
      Bucket.filled cfg.capacity (lastTokens cfg store) (use cfg call store)
  · have hgrant : Bucket.grant
        (Bucket.filled cfg.capacity (lastTokens cfg store) (use cfg call store))
        (use cfg call store) = call.requestedNumber := if_pos hallowed
    rw [Bucket.level, hgrant] at hlevel
    simp [hallowed, hgrant, next, Bucket.level, hlevel]
  · have hgrant : Bucket.grant
        (Bucket.filled cfg.capacity (lastTokens cfg store) (use cfg call store))
        (use cfg call store) = 0 := if_neg hallowed
    simp [hallowed, hgrant, next, Bucket.level]

/-- With a time to live of zero every execution raises, and nothing is allowed. -/
theorem allowedSum_of_ttl (httl : ttl fl cfg ≤ 0) (store : Store) (calls : List Call) :
    allowedSum fl cfg store calls = 0 := by
  induction calls generalizing store with
  | nil => rfl
  | cons call calls ih =>
      have hraise : acquire fl cfg call.now call.requestedNumber store =
          (.error .invalidExpireTime, store) := by
        unfold acquire script
        simp only [if_pos httl]
      rw [allowedSum, hraise]
      simp [ih]

/-- The uses of the bucket that some executions make. -/
def uses (cfg : BucketConfig) (store : Store) : List Call → List (Bucket.Use ℚ)
  | [] => []
  | call :: calls => use cfg call store :: uses cfg (next cfg call store) calls

/-- Executions that bring readings, and ask for something. -/
def Asks (calls : List Call) : Prop :=
  ∀ call ∈ calls, Readable call.now ∧ 0 ≤ call.requestedNumber

/-- What the executions are allowed is what the bucket grants. -/
theorem allowedSum_eq (hfl : Rounds doubles fl) (httl : 0 < ttl fl cfg) (h : Exact e cfg calls)
    (hasks : Asks calls) (hstore : Held e store) :
    allowedSum fl cfg store calls =
      Bucket.granted cfg.capacity (lastTokens cfg store) (uses cfg store calls) := by
  induction calls generalizing store with
  | nil => rfl
  | cons call calls ih =>
      obtain ⟨⟨hnow, hrequest⟩, hrest⟩ := List.forall_mem_cons.mp hasks
      obtain ⟨hgrant, hnext⟩ := acquire_eq hfl httl h hstore hnow hrequest
      rw [uses, Bucket.granted, ← hgrant]
      show _ + allowedSum fl cfg (acquire fl cfg call.now call.requestedNumber store).2 calls = _
      rw [hnext, ih h.tail hrest (held_next h hstore hnow)]
      rfl

/-- Each use is that of some execution, on some keys. -/
theorem mem_uses {u : Bucket.Use ℚ} (h : u ∈ uses cfg store calls) :
    ∃ call ∈ calls, ∃ found, u = use cfg call found := by
  induction calls generalizing store with
  | nil => cases h
  | cons call calls ih =>
      rcases List.mem_cons.mp h with rfl | hrest
      · exact ⟨call, List.mem_cons_self, store, rfl⟩
      · obtain ⟨c, hc, found, hu⟩ := ih hrest
        exact ⟨c, List.mem_cons_of_mem _ hc, found, hu⟩

theorem fill_nonneg (cfg : BucketConfig) (store : Store) (calls : List Call) :
    ∀ u ∈ uses cfg store calls, 0 ≤ u.fill := by
  intro u hu
  obtain ⟨call, _, found, rfl⟩ := mem_uses hu
  exact fill_use_nonneg cfg call found

theorem request_nonneg (h : ∀ call ∈ calls, 0 ≤ call.requestedNumber) :
    ∀ u ∈ uses cfg store calls, 0 ≤ u.request := by
  intro u hu
  obtain ⟨call, hcall, found, rfl⟩ := mem_uses hu
  exact h call hcall

/-! ## Clocks that go back and forth -/

/-- How far the readings go forwards, from one execution to the next. -/
def forward : ℤ → List ℤ → ℤ
  | _, [] => 0
  | last, now :: rest => max 0 (now - last) + forward now rest

theorem forward_nonneg (last : ℤ) (rest : List ℤ) : 0 ≤ forward last rest := by
  induction rest generalizing last with
  | nil => exact le_refl 0
  | cons now rest ih => exact add_nonneg (le_max_left 0 _) (ih now)

theorem elapsed_of_timestamp {last : ℤ} (hlast : store.timestamp = some last) (now : ℤ) :
    elapsed now store = max 0 (now - last) := by
  rw [elapsed, hlast]
  rfl

/-- All that flows in comes from steps forwards. -/
theorem inflow_uses (cfg : BucketConfig) {last : ℤ} (hlast : store.timestamp = some last)
    (calls : List Call) :
    Bucket.inflow (uses cfg store calls) = forward last (calls.map Call.now) * cfg.rate := by
  induction calls generalizing store last with
  | nil => simp [uses, Bucket.inflow, forward]
  | cons call calls ih =>
      have hrest := ih (show (next cfg call store).timestamp = some call.now from rfl)
      have hcons : Bucket.inflow (uses cfg store (call :: calls)) =
          elapsed call.now store * cfg.rate +
            Bucket.inflow (uses cfg (next cfg call store) calls) := List.sum_cons
      rw [hcons, hrest, elapsed_of_timestamp hlast, List.map_cons, forward]
      push_cast
      ring

/-- Whatever the readings, the executions are allowed what the capacity and their steps
forwards give. -/
theorem allowedSum_le (hfl : Rounds doubles fl) (h : Exact e cfg (call :: calls))
    (hasks : Asks (call :: calls)) (hstore : Held e store) :
    allowedSum fl cfg store (call :: calls) ≤
      cfg.capacity + cfg.rate * forward call.now (calls.map Call.now) := by
  have hforward : (0 : ℚ) ≤ forward call.now (calls.map Call.now) := by
    exact_mod_cast forward_nonneg call.now _
  by_cases httl : 0 < ttl fl cfg
  · rw [allowedSum_eq hfl httl h hasks hstore]
    have hfill : ∀ u ∈ use cfg call store :: uses cfg (next cfg call store) calls, 0 ≤ u.fill :=
      fill_nonneg cfg store (call :: calls)
    have hbucket := Bucket.granted_cons_le cfg.capacity_nonneg
      (lastTokens_nonneg cfg hstore.within) hfill
    have hinflow := inflow_uses cfg
      (show (next cfg call store).timestamp = some call.now from rfl) calls
    rw [hinflow, mul_comm] at hbucket
    exact hbucket
  · rw [allowedSum_of_ttl (not_lt.mp httl)]
    exact add_nonneg cfg.capacity_nonneg (mul_nonneg (le_of_lt cfg.rate_pos) hforward)

/-! ## The spread of the readings -/

theorem le_largest (first : ℤ) (rest : List ℤ) :
    ∀ now ∈ first :: rest, now ≤ largest first rest := by
  unfold largest
  induction rest generalizing first with
  | nil =>
      intro now hnow
      rw [List.mem_singleton.mp hnow]
      exact le_refl _
  | cons second rest ih =>
      have hmax := ih (max first second) _ List.mem_cons_self
      intro now hnow
      rcases List.mem_cons.mp hnow with rfl | hnow
      · exact le_trans (le_max_left _ _) hmax
      · rcases List.mem_cons.mp hnow with rfl | hmem
        · exact le_trans (le_max_right _ _) hmax
        · exact ih (max first second) now (List.mem_cons_of_mem _ hmem)

theorem smallest_le (first : ℤ) (rest : List ℤ) :
    ∀ now ∈ first :: rest, smallest first rest ≤ now := by
  unfold smallest
  induction rest generalizing first with
  | nil =>
      intro now hnow
      rw [List.mem_singleton.mp hnow]
      exact le_refl _
  | cons second rest ih =>
      have hmin := ih (min first second) _ List.mem_cons_self
      intro now hnow
      rcases List.mem_cons.mp hnow with rfl | hnow
      · exact le_trans hmin (min_le_left _ _)
      · rcases List.mem_cons.mp hnow with rfl | hmem
        · exact le_trans hmin (min_le_right _ _)
        · exact ih (min first second) now (List.mem_cons_of_mem _ hmem)

/-- The largest and the smallest reading are readings. -/
theorem largest_mem (first : ℤ) (rest : List ℤ) : largest first rest ∈ first :: rest := by
  unfold largest
  induction rest generalizing first with
  | nil => exact List.mem_singleton_self first
  | cons second rest ih =>
      have hmem := ih (max first second)
      rcases List.mem_cons.mp hmem with heq | hmem
      · rw [List.foldl_cons, heq]
        rcases max_choice first second with hmax | hmax
        · rw [hmax]
          exact List.mem_cons_self
        · rw [hmax]
          exact List.mem_cons_of_mem _ List.mem_cons_self
      · exact List.mem_cons_of_mem _ (List.mem_cons_of_mem _ hmem)

theorem smallest_mem (first : ℤ) (rest : List ℤ) : smallest first rest ∈ first :: rest := by
  unfold smallest
  induction rest generalizing first with
  | nil => exact List.mem_singleton_self first
  | cons second rest ih =>
      have hmem := ih (min first second)
      rcases List.mem_cons.mp hmem with heq | hmem
      · rw [List.foldl_cons, heq]
        rcases min_choice first second with hmin | hmin
        · rw [hmin]
          exact List.mem_cons_self
        · rw [hmin]
          exact List.mem_cons_of_mem _ List.mem_cons_self
      · exact List.mem_cons_of_mem _ (List.mem_cons_of_mem _ hmem)

/-- Readings that only go forwards go as far as they spread. -/
theorem forward_of_sorted (first : ℤ) (rest : List ℤ) (h : (first :: rest).Pairwise (· ≤ ·)) :
    forward first rest = rest.getLastD first - first := by
  induction rest generalizing first with
  | nil => exact (sub_self first).symm
  | cons second rest ih =>
      rcases List.pairwise_cons.mp h with ⟨hle, hrest⟩
      have hfirst := hle second List.mem_cons_self
      rw [forward, ih second hrest, List.getLastD_cons, max_eq_right (by omega)]
      omega

/-- So do the readings of one clock. -/
theorem forward_le_of_sorted (first : ℤ) (rest : List ℤ) (h : (first :: rest).Pairwise (· ≤ ·)) :
    forward first rest ≤ largest first rest - smallest first rest := by
  have hsmallest := smallest_le first rest first List.mem_cons_self
  have hlast : rest.getLastD first ≤ largest first rest := by
    apply le_largest
    cases rest with
    | nil => exact List.mem_cons_self
    | cons second rest =>
        rw [List.getLastD_cons]
        exact List.mem_cons_of_mem _ List.getLastD_mem_cons
  rw [forward_of_sorted first rest h]
  omega

/-! ## Clients that take everything -/

/-- Executions that ask for all that has flowed in, at one token in a unit of time. -/
def drain (last : ℤ) : List ℤ → List Call
  | [] => []
  | now :: rest =>
    { now := now, requestedNumber := if last < now then ((now - last : ℤ) : ℚ) else 1 } ::
      drain now rest

/-- One token in a unit of time, and room for what flows in between the smallest and the
largest reading. -/
def draining (first : ℤ) (rest : List ℤ) : BucketConfig where
  capacity := (max 1 (largest first rest - smallest first rest) : ℤ)
  rate := 1
  one_le_capacity := Int.cast_one_le_of_pos (lt_max_of_lt_left Int.one_pos)
  rate_pos := zero_lt_one

theorem now_drain (last : ℤ) (rest : List ℤ) : (drain last rest).map Call.now = rest := by
  induction rest generalizing last with
  | nil => rfl
  | cons now rest ih => exact congrArg (now :: ·) (ih now)

/-- They ask for whole tokens, of which there are at most as many as the readings spread. -/
theorem request_drain {last lo hi : ℤ} {rest : List ℤ}
    (hin : ∀ now ∈ last :: rest, lo ≤ now ∧ now ≤ hi) :
    ∀ call ∈ drain last rest, ∃ n : ℤ, call.requestedNumber = n ∧ 1 ≤ n ∧ n ≤ max 1 (hi - lo) := by
  induction rest generalizing last with
  | nil =>
      intro call hcall
      cases hcall
  | cons now rest ih =>
      obtain ⟨hlast, hrest⟩ := List.forall_mem_cons.mp hin
      have hnow := hrest now List.mem_cons_self
      intro call hcall
      rcases List.mem_cons.mp hcall with rfl | hcall
      · by_cases hlt : last < now
        · refine ⟨now - last, if_pos hlt, by omega, ?_⟩
          exact le_max_of_le_right (by omega)
        · refine ⟨1, ?_, le_refl 1, le_max_left 1 _⟩
          rw [Int.cast_one]
          exact if_neg hlt
      · exact ih hrest call hcall

/-- What flows in is asked for, and covered. -/
theorem covered_drain {cfg : BucketConfig} (hrate : cfg.rate = 1) {last lo hi : ℤ}
    (hlast : store.timestamp = some last) (rest : List ℤ)
    (hin : ∀ now ∈ last :: rest, lo ≤ now ∧ now ≤ hi)
    (hcapacity : ((hi - lo : ℤ) : ℚ) ≤ cfg.capacity) :
    ((uses cfg store (drain last rest)).map (Bucket.covered cfg.capacity)).sum =
      forward last rest := by
  induction rest generalizing store last with
  | nil => simp [drain, uses, forward]
  | cons now rest ih =>
      obtain ⟨hlastIn, hrestIn⟩ := List.forall_mem_cons.mp hin
      have hnowIn := hrestIn now List.mem_cons_self
      have hrest := ih (show (next cfg
        { now := now, requestedNumber := if last < now then ((now - last : ℤ) : ℚ) else 1 }
        store).timestamp = some now from rfl) hrestIn
      rw [drain, uses, List.map_cons, List.sum_cons, hrest, forward, Int.cast_add]
      congr 1
      unfold Bucket.covered use
      simp only [elapsed_of_timestamp hlast, hrate, mul_one]
      by_cases hlt : last < now
      · have hmax : max 0 (now - last) = now - last := max_eq_right (by omega)
        have hle : ((now - last : ℤ) : ℚ) ≤ cfg.capacity := by
          have hspread : now - last ≤ hi - lo := by omega
          exact le_trans (by exact_mod_cast hspread) hcapacity
        rw [if_pos hlt, hmax, if_pos ⟨hle, le_refl _⟩]
      · have hmax : max 0 (now - last) = 0 := max_eq_left (by omega)
        rw [if_neg hlt, hmax, if_neg]
        · rfl
        · rintro ⟨_, hle⟩
          rw [Int.cast_zero] at hle
          linarith

/-- Whole numbers of tokens. -/
theorem units_intCast {n : ℤ} (h : |n| ≤ 2 ^ 53) : Units (2 ^ (0 : ℤ)) (n : ℚ) := by
  refine ⟨intCast_mem_doubles h, AddSubgroup.mem_zmultiples_iff.mpr ⟨n, ?_⟩⟩
  rw [zpow_zero, zsmul_eq_mul, mul_one]

section Drain

variable (first : ℤ) (rest : List ℤ)

/-- The executions that empty a full bucket, and then take what flows in. -/
def drainAll : List Call :=
  { now := first, requestedNumber := (draining first rest).capacity } :: drain first rest

variable {first rest} (hreadable : ∀ now ∈ first :: rest, Readable now)
include hreadable

/-- The spread of readings. -/
theorem spread_le : max 1 (largest first rest - smallest first rest) ≤ 2 ^ 51 := by
  have hlargest := abs_le.mp (hreadable _ (largest_mem first rest))
  have hsmallest := abs_le.mp (hreadable _ (smallest_mem first rest))
  apply max_le
  · norm_num
  · omega

omit hreadable in
theorem request_drainAll :
    ∀ call ∈ drainAll first rest, ∃ n : ℤ, call.requestedNumber = n ∧ 1 ≤ n ∧
      n ≤ max 1 (largest first rest - smallest first rest) := by
  have hin : ∀ now ∈ first :: rest, smallest first rest ≤ now ∧ now ≤ largest first rest :=
    fun now hnow => ⟨smallest_le first rest now hnow, le_largest first rest now hnow⟩
  exact List.forall_mem_cons.mpr ⟨⟨_, rfl, le_max_left 1 _, le_refl _⟩, request_drain hin⟩

theorem exact_drainAll : Exact 0 (draining first rest) (drainAll first rest) := by
  have hspread := spread_le hreadable
  have hbits : ∀ n : ℤ, 1 ≤ n → n ≤ 2 ^ 51 → |n| ≤ 2 ^ 53 := by
    intro n hone hle
    rw [abs_of_nonneg (by omega)]
    omega
  have hone : (1 : ℤ) ≤ max 1 (largest first rest - smallest first rest) := le_max_left 1 _
  refine ⟨by norm_num, by norm_num, units_intCast (hbits _ hone hspread), ?_, ?_, ?_⟩
  · have hcapacity : max 1 (largest first rest - smallest first rest) ≤ 2 ^ 53 := by omega
    rw [zpow_zero, mul_one]
    show ((max 1 (largest first rest - smallest first rest) : ℤ) : ℚ) ≤ 2 ^ 53
    exact_mod_cast hcapacity
  · have hrate := units_intCast (n := 1) (by norm_num)
    rw [Int.cast_one] at hrate
    exact hrate
  · intro call hcall
    obtain ⟨n, hn, hnone, hle⟩ := request_drainAll call hcall
    rw [hn]
    exact units_intCast (hbits n hnone (le_trans hle hspread))

theorem ttl_draining {fl : ℚ → ℚ} (hfl : Rounds doubles fl) : 0 < ttl fl (draining first rest) := by
  have hspread := spread_le hreadable
  have hone : (1 : ℤ) ≤ max 1 (largest first rest - smallest first rest) := le_max_left 1 _
  show 0 < ⌊fl (fl ((max 1 (largest first rest - smallest first rest) : ℤ) / 1) * 2)⌋
  generalize max 1 (largest first rest - smallest first rest) = n at hspread hone ⊢
  have hfixed : fl n = n := hfl.fixed _ (intCast_mem_doubles (by rw [abs_of_nonneg] <;> omega))
  have hdouble : fl ((n * 2 : ℤ) : ℚ) = (n * 2 : ℤ) :=
    hfl.fixed _ (intCast_mem_doubles (by rw [abs_of_nonneg] <;> omega))
  have hcast : (n : ℚ) * 2 = (n * 2 : ℤ) := by push_cast; ring
  simp only [div_one, hfixed, hcast, hdouble, Int.floor_intCast]
  omega

/-- The first execution empties a full bucket, and the others take what flows in. -/
theorem allowedSum_drain {fl : ℚ → ℚ} (hfl : Rounds doubles fl) :
    (draining first rest).capacity + forward first rest ≤
      allowedSum fl (draining first rest) {} (drainAll first rest) := by
  have hasks : Asks (drainAll first rest) := by
    intro call hcall
    constructor
    · have hnow : call.now ∈ (drainAll first rest).map Call.now := List.mem_map_of_mem hcall
      rw [drainAll, List.map_cons, now_drain] at hnow
      exact hreadable _ hnow
    · obtain ⟨n, hn, hone, _⟩ := request_drainAll call hcall
      have hnonneg : (0 : ℤ) ≤ n := by omega
      rw [hn]
      exact_mod_cast hnonneg
  rw [allowedSum_eq hfl (ttl_draining hreadable hfl) (exact_drainAll hreadable) hasks
    (held_empty 0), drainAll, uses, Bucket.granted]
  generalize hcfg : draining first rest = cfg
  generalize hfull : ({ now := first, requestedNumber := cfg.capacity } : Call) = full
  have hcapacity : ((largest first rest - smallest first rest : ℤ) : ℚ) ≤ cfg.capacity := by
    have hle := le_max_right 1 (largest first rest - smallest first rest)
    rw [← hcfg]
    exact Int.cast_le.mpr hle
  have hfilled : Bucket.filled cfg.capacity (lastTokens cfg {}) (use cfg full {}) = cfg.capacity :=
    min_eq_left (le_add_of_nonneg_right (fill_use_nonneg cfg full {}))
  have hgrant : Bucket.grant cfg.capacity (use cfg full {}) = cfg.capacity := by
    rw [← hfull]
    exact if_pos (le_refl _)
  have hlevel : Bucket.level cfg.capacity (lastTokens cfg {}) (use cfg full {}) = 0 := by
    rw [Bucket.level, hfilled, hgrant, sub_self]
  have hin : ∀ now ∈ first :: rest, smallest first rest ≤ now ∧ now ≤ largest first rest :=
    fun now hnow => ⟨smallest_le first rest now hnow, le_largest first rest now hnow⟩
  have hcovered := covered_drain (show cfg.rate = 1 by rw [← hcfg]; rfl)
    (show (next cfg full {}).timestamp = some first by rw [← hfull]; rfl) rest hin hcapacity
  have hlast : lastTokens cfg (next cfg full {}) = 0 := hlevel
  rw [hfilled, hgrant, hlevel, ← hcovered]
  apply add_le_add_right
  apply Bucket.covered_le_granted cfg.capacity_nonneg (le_refl 0) (fill_nonneg _ _ _)
  apply request_nonneg
  intro call hcall
  exact (hasks call (List.mem_cons_of_mem _ hcall)).2

end Drain

/-! ## The result -/

/-- One token a second, and room for one. -/
def oneASecond : BucketConfig where
  capacity := 1
  rate := 1
  one_le_capacity := by decide
  rate_pos := by decide

end RedisTokenBucketRateLimiter

end SummerRpc
