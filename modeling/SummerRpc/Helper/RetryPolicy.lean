import SummerRpc.Lib.Calls
import SummerRpc.Message.Value
import Mathlib.Data.List.Dedup
import Mathlib.Data.Int.Order.Basic

/-! # `RetryPolicy`

`RetryPolicy` of `helper/retry_policy.py` and its `Builder`. The calls of the function that is
tried are given by what each of them returns or raises, without end.

* `Builder`: any calls of its methods, some of which may raise;
* `run`: the loop, which need not end;
* `Ends`: how often the function is called, how often the thread sleeps, and how it ends;
* `run_ends`: so it is with every policy that a `Builder` builds.
-/

namespace SummerRpc

/-- `τ` is the type of what `retry_interval` is. -/
structure RetryPolicy (τ : Type) where
  maxRetryCount : ℤ
  retryInterval : τ
  retryExceptions : List ExcClass

namespace RetryPolicy

variable {τ α : Type}

/-- How `run` ends. -/
inductive Outcome (α : Type) where
  | returned (result : α)
  | raised (ex : Exc)
  /-- `MaxRetryCountReached(exc_info)` -/
  | maxRetryCountReached (excInfo : Option Exc)
deriving DecidableEq

/-- A run that has ended. -/
structure Ran (α : Type) where
  /-- the calls of `f` -/
  calls : ℕ
  /-- the calls of `time.sleep(self.retry_interval)` -/
  sleeps : ℕ
  outcome : Outcome α
deriving DecidableEq

/-- `except self.retry_exceptions` -/
def catches (p : RetryPolicy τ) (ex : Exc) : Bool := p.retryExceptions.any ex.cls.isA

/-- The loop of `run`, from its test on; `none` when it has not ended within the rounds. -/
def loop (p : RetryPolicy τ) (f : ℕ → Except Exc α) : ℕ → ℕ → Option Exc → Option (Ran α)
  | 0, _, _ => none
  | rounds + 1, retryCount, excInfo =>
    if p.maxRetryCount = -1 ∨ (retryCount : ℤ) ≤ p.maxRetryCount then
      match f retryCount with
      | .ok result => some ⟨retryCount + 1, retryCount, .returned result⟩
      | .error ex =>
        if p.catches ex then loop p f rounds (retryCount + 1) (some ex)
        else some ⟨retryCount + 1, retryCount, .raised ex⟩
    else some ⟨retryCount, retryCount, .maxRetryCountReached excInfo⟩

/-- `run` -/
def run (p : RetryPolicy τ) (f : ℕ → Except Exc α) (rounds : ℕ) : Option (Ran α) :=
  p.loop f rounds 0 none

/-! ## The builder -/

structure Builder where
  maxRetryCount : ℤ := 100
  retryInterval : PyVal := .int 3
  retryExceptions : List ExcClass := []

namespace Builder

/-- What may be given to `add_retry_exception`. -/
inductive Argument where
  /-- a subclass of `BaseException` -/
  | exception (cls : ExcClass)
  | otherClass
  /-- `issubclass` takes no other values than classes -/
  | noClass

/-- The calls of a builder's methods. -/
inductive Call where
  | withMaxRetryCount (count : PyVal)
  | withRetryInterval (interval : PyVal)
  | addRetryException (exception : Argument)

/-- `isinstance(value, (int, long))`; a `bool` is an `int`. -/
def asInt : PyVal → Option ℤ
  | .int n => some n
  | .bool b => some (if b then 1 else 0)
  | _ => none

/-- `not interval <= 0`, of an `int`, a `long` or a `float`. -/
def isPositive (floatPositive : List UInt8 → Bool) : PyVal → Option Bool
  | .int n => some (0 < n)
  | .bool b => some b
  | .float repr => some (floatPositive repr)
  | _ => none

/-- `with_max_retry_count` -/
def withMaxRetryCount (count : PyVal) (b : Builder) : Except Exc Unit × Builder :=
  match asInt count with
  | none => (.error { cls := .typeError, msg := "expect int or long, not " ++ count.typeName }, b)
  | some n =>
    if n < -1 then
      (.error { cls := .valueError, msg := "max_retry_count should not be less than -1" }, b)
    else (.ok (), { b with maxRetryCount := n })

/-- `with_retry_interval` -/
def withRetryInterval (floatPositive : List UInt8 → Bool) (interval : PyVal) (b : Builder) :
    Except Exc Unit × Builder :=
  match isPositive floatPositive interval with
  | none => (.error { cls := .typeError, msg := "expect float, not " ++ interval.typeName }, b)
  | some false =>
    (.error { cls := .valueError, msg := "retry_interval should be more than 0" }, b)
  | some true => (.ok (), { b with retryInterval := interval })

/-- `add_retry_exception` -/
def addRetryException (exception : Argument) (b : Builder) : Except Exc Unit × Builder :=
  match exception with
  | .noClass => (.error { cls := .typeError, msg := "issubclass() arg 1 must be a class" }, b)
  | .otherClass => (.error { cls := .typeError, msg := "expect subclass of BaseException" }, b)
  | .exception cls => (.ok (), { b with retryExceptions := b.retryExceptions ++ [cls] })

def call (floatPositive : List UInt8 → Bool) (c : Call) (b : Builder) : Except Exc Unit × Builder :=
  match c with
  | .withMaxRetryCount count => b.withMaxRetryCount count
  | .withRetryInterval interval => b.withRetryInterval floatPositive interval
  | .addRetryException exception => b.addRetryException exception

/-- `build` -/
def build (b : Builder) : RetryPolicy PyVal where
  maxRetryCount := b.maxRetryCount
  retryInterval := b.retryInterval
  retryExceptions := b.retryExceptions.dedup

/-- The policy that is built after the calls. -/
def built (floatPositive : List UInt8 → Bool) (calls : List Call) : RetryPolicy PyVal :=
  (Calls.run (call floatPositive) calls {}).2.build

/-- What a builder has passes the checks. -/
structure Valid (floatPositive : List UInt8 → Bool) (b : Builder) : Prop where
  count : -1 ≤ b.maxRetryCount
  interval : isPositive floatPositive b.retryInterval = some true

variable (floatPositive : List UInt8 → Bool)

theorem valid_call (c : Call) (b : Builder) (h : Valid floatPositive b) :
    Valid floatPositive (call floatPositive c b).2 := by
  cases c with
  | withMaxRetryCount count =>
      -- what does not pass the checks is not set
      unfold call withMaxRetryCount
      simp only
      split
      · exact h
      · split
        · exact h
        · rename_i hcount
          exact ⟨Int.not_lt.mp hcount, h.interval⟩
  | withRetryInterval interval =>
      unfold call withRetryInterval
      simp only
      split
      · exact h
      · exact h
      · rename_i hpositive
        exact ⟨h.count, hpositive⟩
  | addRetryException exception =>
      cases exception with
      | noClass | otherClass => exact h
      | exception cls => exact ⟨h.count, h.interval⟩

theorem valid_run (calls : List Call) :
    Valid floatPositive (Calls.run (call floatPositive) calls {}).2 :=
  Calls.run_invariant (valid_call floatPositive) calls ⟨by decide, rfl⟩

end Builder

/-! ## How a run ends -/

variable {p : RetryPolicy τ} {f : ℕ → Except Exc α}

/-- The call raises an exception after which it is tried again. -/
def Caught (p : RetryPolicy τ) (f : ℕ → Except Exc α) (k : ℕ) (ex : Exc) : Prop :=
  f k = .error ex ∧ p.catches ex = true

/-- The test of the loop lets the call through. -/
def Admitted (p : RetryPolicy τ) (k : ℕ) : Prop :=
  p.maxRetryCount = -1 ∨ (k : ℤ) ≤ p.maxRetryCount

/-- `run` ends after `rounds` tests of the loop. -/
inductive Ends (p : RetryPolicy τ) (f : ℕ → Except Exc α) : ℕ → Ran α → Prop where
  | returned (k : ℕ) (result : α) (hbefore : ∀ j < k, ∃ ex, Caught p f j ex)
      (hadmitted : Admitted p k) (hf : f k = .ok result) :
      Ends p f (k + 1) ⟨k + 1, k, .returned result⟩
  | raised (k : ℕ) (ex : Exc) (hbefore : ∀ j < k, ∃ ex, Caught p f j ex)
      (hadmitted : Admitted p k) (hf : f k = .error ex) (hnot : p.catches ex = false) :
      Ends p f (k + 1) ⟨k + 1, k, .raised ex⟩
  /-- all calls have been made, and the last exception is told -/
  | reached (k : ℕ) (ex : Exc) (hmax : p.maxRetryCount = k)
      (hbefore : ∀ j < k, ∃ ex, Caught p f j ex) (hlast : Caught p f k ex) :
      Ends p f (k + 2) ⟨k + 1, k + 1, .maxRetryCountReached (some ex)⟩

theorem Admitted.before {j k : ℕ} (h : Admitted p k) (hjk : j ≤ k) : Admitted p j := by
  rcases h with hnever | hle
  · exact Or.inl hnever
  · exact Or.inr (by omega)

theorem Caught.unique {k : ℕ} {ex ex' : Exc} (h : Caught p f k ex) (h' : Caught p f k ex') :
    ex = ex' :=
  Except.error.inj (h.1.symm.trans h'.1)

/-- What `exc_info` is at a test of the loop. -/
def LastCaught (p : RetryPolicy τ) (f : ℕ → Except Exc α) : ℕ → Option Exc → Prop
  | 0, excInfo => excInfo = none
  | k + 1, excInfo => ∃ ex, excInfo = some ex ∧ Caught p f k ex

/-- As long as the calls raise what is caught, the loop goes on. -/
theorem run_skip (k : ℕ) (hbefore : ∀ j < k, Admitted p j ∧ ∃ ex, Caught p f j ex) :
    ∃ excInfo, LastCaught p f k excInfo ∧
      ∀ rounds, p.run f (rounds + k) = p.loop f rounds k excInfo := by
  induction k with
  | zero => exact ⟨none, rfl, fun _ => rfl⟩
  | succ k ih =>
      rcases ih fun j hj => hbefore j (Nat.lt_succ_of_lt hj) with ⟨excInfo, _, hrun⟩
      rcases hbefore k (Nat.lt_succ_self k) with ⟨hadmitted, ex, hcaught⟩
      refine ⟨some ex, ⟨ex, rfl, hcaught⟩, fun rounds => ?_⟩
      have hnext := hrun (rounds + 1)
      rw [show rounds + (k + 1) = rounds + 1 + k by omega, hnext, loop,
        if_pos (show _ ∨ _ from hadmitted), hcaught.1]
      exact if_pos hcaught.2

/-- The loop ends at its next test, or goes on. -/
theorem loop_test {k : ℕ} {excInfo : Option Exc} (rounds : ℕ) (hmax : -1 ≤ p.maxRetryCount)
    (hbefore : ∀ j < k, Admitted p j ∧ ∃ ex, Caught p f j ex)
    (hlast : LastCaught p f k excInfo) :
    (∃ r, Ends p f (k + 1) r ∧ p.loop f (rounds + 1) k excInfo = some r) ∨
      (Admitted p k ∧ ∃ ex, Caught p f k ex) := by
  by_cases hadmitted : Admitted p k
  -- the call returns, is tried again, or raises something else
  · cases hf : f k with
    | ok result =>
        refine Or.inl ⟨_, .returned k result (fun j hj => (hbefore j hj).2) hadmitted hf, ?_⟩
        rw [loop, if_pos (show _ ∨ _ from hadmitted), hf]
    | error ex =>
        cases hcatches : p.catches ex with
        | true => exact Or.inr ⟨hadmitted, ex, hf, hcatches⟩
        | false =>
            refine Or.inl
              ⟨_, .raised k ex (fun j hj => (hbefore j hj).2) hadmitted hf hcatches, ?_⟩
            rw [loop, if_pos (show _ ∨ _ from hadmitted), hf]
            exact if_neg (by rw [hcatches]; exact Bool.false_ne_true)
  · -- the call before was admitted, and it was the last one
    have hnot : p.maxRetryCount ≠ -1 ∧ ¬ (k : ℤ) ≤ p.maxRetryCount := not_or.mp hadmitted
    cases k with
    | zero =>
        exfalso
        omega
    | succ k =>
        rcases hlast with ⟨ex, rfl, hcaught⟩
        have hk : p.maxRetryCount = k := by
          rcases (hbefore k (Nat.lt_succ_self k)).1 with hnever | hle
          · exact absurd hnever hnot.1
          · omega
        refine Or.inl ⟨_, .reached k ex hk
          (fun j hj => (hbefore j (Nat.lt_succ_of_lt hj)).2) hcaught, ?_⟩
        rw [loop, if_neg (show ¬ (_ ∨ _) from hadmitted)]

theorem Ends.before {n : ℕ} {r : Ran α} (h : Ends p f (n + 1) r) :
    ∀ j < n, Admitted p j ∧ ∃ ex, Caught p f j ex := by
  cases h with
  | returned k result hbefore hadmitted _ =>
      exact fun j hj => ⟨hadmitted.before (Nat.le_of_lt hj), hbefore j hj⟩
  | raised k ex hbefore hadmitted _ _ =>
      exact fun j hj => ⟨hadmitted.before (Nat.le_of_lt hj), hbefore j hj⟩
  | reached k ex hmax hbefore hlast =>
      intro j hj
      refine ⟨Or.inr (by omega), ?_⟩
      rcases Nat.lt_succ_iff_lt_or_eq.mp hj with hlt | rfl
      · exact hbefore j hlt
      · exact ⟨ex, hlast⟩

theorem Ends.stops {n : ℕ} {r : Ran α} (h : Ends p f (n + 1) r) :
    ¬ (Admitted p n ∧ ∃ ex, Caught p f n ex) := by
  rintro ⟨hadmitted, ex, hf, hcatches⟩
  cases h with
  | returned k result _ _ hf' => cases hf.symm.trans hf'
  | raised k ex' _ _ hf' hnot =>
      cases hf.symm.trans hf'
      cases hcatches.symm.trans hnot
  | reached k ex' hmax _ _ =>
      rcases hadmitted with hnever | hle <;> omega

theorem Ends.unique {n : ℕ} {r r' : Ran α} (h : Ends p f n r) (h' : Ends p f n r') : r = r' := by
  cases h with
  | returned k result _ hadmitted hf =>
      -- the call that ends the run is the same, and it ends in one way
      cases h' with
      | returned _ _ _ _ hf' =>
          cases hf.symm.trans hf'
          rfl
      | raised _ _ _ _ hf' _ => cases hf.symm.trans hf'
      | reached k' _ hmax _ _ =>
          exfalso
          rcases hadmitted with hnever | hle <;> omega
  | raised k ex _ hadmitted hf _ =>
      cases h' with
      | returned _ _ _ _ hf' => cases hf.symm.trans hf'
      | raised _ _ _ _ hf' _ =>
          cases hf.symm.trans hf'
          rfl
      | reached k' _ hmax _ _ =>
          exfalso
          rcases hadmitted with hnever | hle <;> omega
  | reached k ex hmax _ hlast =>
      cases h' with
      | returned _ _ _ hadmitted _ =>
          exfalso
          rcases hadmitted with hnever | hle <;> omega
      | raised _ _ _ hadmitted _ _ =>
          exfalso
          rcases hadmitted with hnever | hle <;> omega
      | reached _ _ _ _ hlast' =>
          cases hlast.unique hlast'
          rfl

theorem run_of_ends (hmax : -1 ≤ p.maxRetryCount) {n rounds : ℕ} {r : Ran α}
    (h : Ends p f n r) (hn : n ≤ rounds) : p.run f rounds = some r := by
  cases n with
  | zero => cases h
  | succ n =>
      rcases run_skip n h.before with ⟨excInfo, hlast, hrun⟩
      -- the rounds before the last test, that test, and the rounds that are left
      have hrounds : rounds = rounds - (n + 1) + 1 + n := by omega
      rcases loop_test (rounds - (n + 1)) hmax h.before hlast with ⟨r', hends, hloop⟩ | hcaught
      · rw [hrounds, hrun, hloop, hends.unique h]
      · exact absurd hcaught h.stops

/-- A run that has not ended has seen nothing but what is caught. -/
theorem ends_or_caught (hmax : -1 ≤ p.maxRetryCount) (rounds : ℕ) :
    (∃ n ≤ rounds, ∃ r, Ends p f n r) ∨
      ∀ j < rounds, Admitted p j ∧ ∃ ex, Caught p f j ex := by
  induction rounds with
  | zero => exact Or.inr fun j hj => absurd hj (Nat.not_lt_zero j)
  | succ rounds ih =>
      rcases ih with ⟨n, hn, hends⟩ | hcaught
      · exact Or.inl ⟨n, Nat.le_succ_of_le hn, hends⟩
      · rcases run_skip rounds hcaught with ⟨excInfo, hlast, _⟩
        rcases loop_test 0 hmax hcaught hlast with ⟨r, hends, _⟩ | hnext
        · exact Or.inl ⟨rounds + 1, Nat.le_refl _, r, hends⟩
        · refine Or.inr fun j hj => ?_
          rcases Nat.lt_succ_iff_lt_or_eq.mp hj with hlt | rfl
          · exact hcaught j hlt
          · exact hnext

theorem run_none (rounds : ℕ) (hcaught : ∀ j < rounds, Admitted p j ∧ ∃ ex, Caught p f j ex) :
    p.run f rounds = none := by
  rcases run_skip rounds hcaught with ⟨excInfo, _, hrun⟩
  have hzero := hrun 0
  rw [Nat.zero_add] at hzero
  exact hzero

/-- For every policy that a `Builder` builds, after any calls of its methods: `run` ends as
`Ends` says and in no other way, in particular it never tells of no exception; and it does not
end if and only if there is no bound and all calls raise what is caught. -/
theorem run_ends (floatPositive : List UInt8 → Bool) (calls : List Builder.Call)
    (f : ℕ → Except Exc α) :
    (∀ rounds r, (Builder.built floatPositive calls).run f rounds = some r ↔
        ∃ n ≤ rounds, Ends (Builder.built floatPositive calls) f n r) ∧
      ((∀ rounds, (Builder.built floatPositive calls).run f rounds = none) ↔
        (Builder.built floatPositive calls).maxRetryCount = -1 ∧
          ∀ k, ∃ ex, Caught (Builder.built floatPositive calls) f k ex) := by
  have hmax : -1 ≤ (Builder.built floatPositive calls).maxRetryCount :=
    (Builder.valid_run floatPositive calls).count
  set p := Builder.built floatPositive calls
  constructor
  · intro rounds r
    constructor
    · intro hrun
      rcases ends_or_caught (p := p) (f := f) hmax rounds with ⟨n, hn, r', hends⟩ | hcaught
      · cases hrun.symm.trans (run_of_ends hmax hends hn)
        exact ⟨n, hn, hends⟩
      · cases hrun.symm.trans (run_none rounds hcaught)
    · rintro ⟨n, hn, hends⟩
      exact run_of_ends hmax hends hn
  · constructor
    · intro hnever
      -- if it has never ended, every call was let through and has been caught
      have hall : ∀ rounds, ∀ j < rounds, Admitted p j ∧ ∃ ex, Caught p f j ex := by
        intro rounds
        rcases ends_or_caught (p := p) (f := f) hmax rounds with ⟨n, hn, r, hends⟩ | hcaught
        · cases (hnever rounds).symm.trans (run_of_ends hmax hends hn)
        · exact hcaught
      refine ⟨?_, fun k => (hall (k + 1) k (Nat.lt_succ_self k)).2⟩
      -- a bound would have let no call through beyond it
      by_contra hbound
      have hbeyond := (hall (p.maxRetryCount.toNat + 2) (p.maxRetryCount.toNat + 1)
        (Nat.lt_succ_self _)).1
      rcases hbeyond with hnever | hle
      · exact hbound hnever
      · omega
    · rintro ⟨hnever, hcaught⟩ rounds
      exact run_none rounds fun j _ => ⟨Or.inl hnever, hcaught j⟩

/-- Two tries again, of socket errors. -/
def twice : List Builder.Call :=
  [.withMaxRetryCount (.int (-2)), .withMaxRetryCount (.int 2), .withRetryInterval (.int 0),
    .addRetryException (.exception .socketError)]

example : (Builder.built (fun _ => true) twice).run
    (fun _ => (.error { cls := .socketTimeout } : Except Exc ℕ)) 9 =
    some ⟨3, 3, .maxRetryCountReached (some { cls := .socketTimeout })⟩ := by
  decide

end RetryPolicy

end SummerRpc
