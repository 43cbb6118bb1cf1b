import Mathlib.Logic.Function.Iterate
import Mathlib.Tactic.Ring

/-! # `AtomicInteger`

The counter every connection and the server take their ids from
(`helper/atomic_integer.py`). Each method runs under the counter's own lock, so
one call is one step.
-/

namespace SummerRpc

/-- `sys.maxint` of a 64-bit build. -/
def sysMaxint : ℕ := 2 ^ 63 - 1

/-- `AtomicInteger`. The counter never holds a negative value. -/
structure AtomicInteger where
  initialValue : ℕ
  internalInteger : ℕ
  maxInteger : ℕ
deriving DecidableEq, Repr

namespace AtomicInteger

/-- `__init__`: the counter starts at the initial value. -/
def new (initialValue maxInteger : ℕ) : AtomicInteger where
  initialValue := initialValue
  internalInteger := initialValue
  maxInteger := maxInteger

/-- `increase`: add `increment`, or fall back to the initial value when that
would pass `maxInteger`. Returns the new value of the counter. -/
def increase (a : AtomicInteger) (increment : ℕ) : ℕ × AtomicInteger :=
  let value : ℤ := a.maxInteger - a.internalInteger - increment
  if 0 ≤ value then
    (a.internalInteger + increment,
      { a with internalInteger := a.internalInteger + increment })
  else
    (a.initialValue, { a with internalInteger := a.initialValue })

/-- `get_value` -/
def getValue (a : AtomicInteger) : ℕ := a.internalInteger

/-- `compare_and_set` -/
def compareAndSet (a : AtomicInteger) (expect update : ℕ) : Bool × AtomicInteger :=
  if a.internalInteger ≠ expect then (false, a)
  else (true, { a with internalInteger := update })

/-- The value a call returns is the value the counter then holds. -/
theorem increase_fst (a : AtomicInteger) (increment : ℕ) :
    (a.increase increment).1 = (a.increase increment).2.internalInteger := by
  simp only [increase]
  split <;> rfl

@[simp] theorem increase_maxInteger (a : AtomicInteger) (increment : ℕ) :
    (a.increase increment).2.maxInteger = a.maxInteger := by
  simp only [increase]
  split <;> rfl

@[simp] theorem increase_initialValue (a : AtomicInteger) (increment : ℕ) :
    (a.increase increment).2.initialValue = a.initialValue := by
  simp only [increase]
  split <;> rfl

/-- Below the maximum a call with step 1 counts on. -/
theorem increase_one_of_lt {a : AtomicInteger} (h : a.internalInteger < a.maxInteger) :
    a.increase 1 =
      (a.internalInteger + 1, { a with internalInteger := a.internalInteger + 1 }) := by
  have hv : (0 : ℤ) ≤ a.maxInteger - a.internalInteger - (1 : ℕ) := by omega
  rw [increase]
  exact if_pos hv

/-- At the maximum a call with step 1 wraps around to the initial value. -/
theorem increase_one_of_ge {a : AtomicInteger} (h : a.maxInteger ≤ a.internalInteger) :
    a.increase 1 = (a.initialValue, { a with internalInteger := a.initialValue }) := by
  have hv : ¬ (0 : ℤ) ≤ a.maxInteger - a.internalInteger - (1 : ℕ) := by omega
  rw [increase]
  exact if_neg hv

/-- The counter after `n` calls of `increase` with step 1. -/
def after (a : AtomicInteger) (n : ℕ) : AtomicInteger :=
  (fun b : AtomicInteger => (b.increase 1).2)^[n] a

/-- The value the `n`-th call of `increase` with step 1 returns (`n = 1` for the
first call). -/
def nth (a : AtomicInteger) (n : ℕ) : ℕ := ((a.after (n - 1)).increase 1).1

theorem after_succ (a : AtomicInteger) (n : ℕ) :
    a.after (n + 1) = ((a.after n).increase 1).2 :=
  Function.iterate_succ_apply' _ _ _

/-- A counter started at zero runs through `0, 1, …, maxInteger` cyclically. -/
theorem after_new_zero (max n : ℕ) :
    (new 0 max).after n =
      { initialValue := 0, internalInteger := n % (max + 1), maxInteger := max } := by
  induction n with
  | zero => simp [after, new]
  | succ n ih =>
      rw [after_succ, ih]
      have hlt : n % (max + 1) < max + 1 := Nat.mod_lt _ (Nat.succ_pos _)
      by_cases hmax : n % (max + 1) < max
      · rw [increase_one_of_lt hmax, Nat.add_mod, Nat.mod_eq_of_lt (a := 1) (by omega)]
        rw [Nat.mod_eq_of_lt (by omega : n % (max + 1) + 1 < max + 1)]
      · -- the counter has reached its maximum: the next value is the initial one
        have heq : n % (max + 1) = max := by omega
        rw [increase_one_of_ge (by rw [heq])]
        rw [Nat.add_mod, heq]
        rcases Nat.eq_zero_or_pos max with hz | hpos
        · simp [hz]
        · rw [Nat.mod_eq_of_lt (a := 1) (by omega), Nat.mod_self]

/-- The `n`-th id of a counter started at zero. -/
theorem nth_new_zero (max : ℕ) {n : ℕ} (hn : 0 < n) : (new 0 max).nth n = n % (max + 1) := by
  obtain ⟨m, rfl⟩ := Nat.exists_eq_succ_of_ne_zero hn.ne'
  rw [nth, increase_fst, Nat.succ_sub_one, ← after_succ, after_new_zero]

end AtomicInteger

end SummerRpc
