import SummerRpc.Exception
import Mathlib.Logic.Function.Basic

/-! # Futures

The `concurrent.futures.Future` objects a component creates, as a store: a future
is its number, and the store remembers every `set_result` and `set_exception`
call made on it, oldest first. A second call on one future is not an error in the
library, it overwrites the first, so "resolved exactly once" is a property to
prove of the callers.
-/

namespace SummerRpc

/-- The futures created so far and the calls that resolved them. -/
structure Futures (ρ : Type) where
  count : ℕ
  calls : ℕ → List (Except Exc ρ)

namespace Futures

variable {ρ : Type}

/-- No future yet. -/
def empty : Futures ρ where
  count := 0
  calls := fun _ => []

/-- `Future()`: the number of the new future is the old `count`. -/
def create (h : Futures ρ) : Futures ρ := { h with count := h.count + 1 }

/-- `f.set_result(r)` and `f.set_exception(ex)` -/
def resolve (h : Futures ρ) (f : ℕ) (r : Except Exc ρ) : Futures ρ :=
  { h with calls := Function.update h.calls f (h.calls f ++ [r]) }

/-- `set_exception(ex)` on each of the futures. -/
def failAll (h : Futures ρ) (fs : List ℕ) (ex : Exc) : Futures ρ :=
  fs.foldl (fun h f => h.resolve f (.error ex)) h

/-- `f.done()` -/
def Resolved (h : Futures ρ) (f : ℕ) : Prop := h.calls f ≠ []

/-- `f.result()`, once it returns or raises: the last call counts. -/
def result (h : Futures ρ) (f : ℕ) : Option (Except Exc ρ) := (h.calls f).getLast?

/-- Futures not created yet have no calls. -/
def Fresh (h : Futures ρ) : Prop := ∀ f, h.count ≤ f → h.calls f = []

theorem mem_calls_of_result {h : Futures ρ} {f : ℕ} {r : Except Exc ρ}
    (hr : h.result f = some r) : r ∈ h.calls f := List.mem_of_getLast? hr

@[simp] theorem count_create (h : Futures ρ) : h.create.count = h.count + 1 := rfl

@[simp] theorem calls_create (h : Futures ρ) : h.create.calls = h.calls := rfl

@[simp] theorem count_resolve (h : Futures ρ) (f : ℕ) (r : Except Exc ρ) :
    (h.resolve f r).count = h.count := rfl

@[simp] theorem calls_resolve_self (h : Futures ρ) (f : ℕ) (r : Except Exc ρ) :
    (h.resolve f r).calls f = h.calls f ++ [r] := by
  simp [resolve]

theorem calls_resolve_of_ne (h : Futures ρ) {f g : ℕ} (r : Except Exc ρ) (hne : g ≠ f) :
    (h.resolve f r).calls g = h.calls g := by
  simp [resolve, hne]

/-- A call never takes a resolution back. -/
theorem Resolved.resolve {h : Futures ρ} {g : ℕ} (hg : h.Resolved g) (f : ℕ)
    (r : Except Exc ρ) : (h.resolve f r).Resolved g := by
  by_cases heq : g = f
  · subst heq
    simp [Resolved]
  · rw [Resolved, calls_resolve_of_ne _ _ heq]
    exact hg

theorem resolved_resolve_self (h : Futures ρ) (f : ℕ) (r : Except Exc ρ) :
    (h.resolve f r).Resolved f := by
  simp [Resolved]

@[simp] theorem failAll_nil (h : Futures ρ) (ex : Exc) : h.failAll [] ex = h := rfl

@[simp] theorem failAll_cons (h : Futures ρ) (f : ℕ) (fs : List ℕ) (ex : Exc) :
    h.failAll (f :: fs) ex = (h.resolve f (.error ex)).failAll fs ex := rfl

@[simp] theorem count_failAll (h : Futures ρ) (fs : List ℕ) (ex : Exc) :
    (h.failAll fs ex).count = h.count := by
  induction fs generalizing h with
  | nil => rfl
  | cons f fs ih => rw [failAll_cons, ih, count_resolve]

theorem calls_failAll_of_notMem (h : Futures ρ) {fs : List ℕ} {g : ℕ} (ex : Exc)
    (hg : g ∉ fs) : (h.failAll fs ex).calls g = h.calls g := by
  induction fs generalizing h with
  | nil => rfl
  | cons f fs ih =>
      rw [List.mem_cons, not_or] at hg
      rw [failAll_cons, ih _ hg.2, calls_resolve_of_ne _ _ hg.1]

theorem Resolved.failAll {h : Futures ρ} {g : ℕ} (hg : h.Resolved g) (fs : List ℕ)
    (ex : Exc) : (h.failAll fs ex).Resolved g := by
  induction fs generalizing h with
  | nil => exact hg
  | cons f fs ih => exact ih (hg.resolve f _)

/-- Every future on the list is resolved afterwards. -/
theorem resolved_failAll (h : Futures ρ) {fs : List ℕ} {g : ℕ} (ex : Exc) (hg : g ∈ fs) :
    (h.failAll fs ex).Resolved g := by
  induction fs generalizing h with
  | nil => cases hg
  | cons f fs ih =>
      rcases List.mem_cons.mp hg with heq | hmem
      · rw [failAll_cons, heq]
        exact (h.resolved_resolve_self f _).failAll fs ex
      · exact ih _ hmem

/-- `failAll` makes no other call than the one it is given. -/
theorem mem_calls_failAll {h : Futures ρ} {fs : List ℕ} {g : ℕ} {ex : Exc} {c : Except Exc ρ}
    (hc : c ∈ (h.failAll fs ex).calls g) : c ∈ h.calls g ∨ c = .error ex := by
  induction fs generalizing h with
  | nil => exact Or.inl hc
  | cons f fs ih =>
      rcases ih hc with hold | heq
      · by_cases hgf : g = f
        · subst hgf
          rw [calls_resolve_self, List.mem_append, List.mem_singleton] at hold
          exact hold
        · rw [calls_resolve_of_ne _ _ hgf] at hold
          exact Or.inl hold
      · exact Or.inr heq

theorem fresh_empty : (empty : Futures ρ).Fresh := fun _ _ => rfl

theorem Fresh.create {h : Futures ρ} (hf : h.Fresh) : h.create.Fresh := by
  intro f hle
  rw [count_create] at hle
  exact hf f (by omega)

theorem Fresh.resolve {h : Futures ρ} (hf : h.Fresh) {f : ℕ} (hlt : f < h.count)
    (r : Except Exc ρ) : (h.resolve f r).Fresh := by
  intro g hle
  rw [count_resolve] at hle
  rw [calls_resolve_of_ne _ _ (by omega)]
  exact hf g hle

theorem Fresh.failAll {h : Futures ρ} (hf : h.Fresh) {fs : List ℕ}
    (hlt : ∀ f ∈ fs, f < h.count) (ex : Exc) : (h.failAll fs ex).Fresh := by
  intro g hle
  rw [count_failAll] at hle
  have hg : g ∉ fs := fun hmem => by
    have := hlt g hmem
    omega
  rw [calls_failAll_of_notMem _ _ hg]
  exact hf g hle

end Futures

end SummerRpc
