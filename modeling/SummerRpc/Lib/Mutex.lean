import Mathlib.Logic.Function.Basic

/-! # A lock

Threads with program points, some of which are inside the sections of one lock.

* `Mutex`: a thread is inside if and only if it holds the lock;
* `Mutex.unique`: so no two threads are inside;
* `Mutex.move`, `Mutex.acquire`, `Mutex.release`: what a step of a thread keeps.
-/

universe u v

variable {ι : Type u} {κ : Type v}

/-- Inside is the thread that holds the lock, and no other one. -/
def Mutex (inside : κ → Prop) (holder : Option ι) (pc : ι → κ) : Prop :=
  ∀ i, inside (pc i) ↔ holder = some i

namespace Mutex

variable {inside : κ → Prop} {holder : Option ι} {pc : ι → κ} {i j : ι}

theorem unique (h : Mutex inside holder pc) (hi : inside (pc i)) (hj : inside (pc j)) : i = j := by
  have hsame := ((h i).mp hi).symm.trans ((h j).mp hj)
  exact Option.some.inj hsame

variable [DecidableEq ι] {p : κ}

/-- A thread goes on, on its side of the lock. -/
theorem move (h : Mutex inside holder pc) (hp : inside p ↔ inside (pc i)) :
    Mutex inside holder (Function.update pc i p) := by
  intro j
  by_cases hj : j = i
  · subst hj
    rw [Function.update_self, hp]
    exact h j
  · rw [Function.update_of_ne hj]
    exact h j

theorem acquire (h : Mutex inside none pc) (hp : inside p) :
    Mutex inside (some i) (Function.update pc i p) := by
  intro j
  by_cases hj : j = i
  · subst hj
    rw [Function.update_self]
    exact ⟨fun _ => rfl, fun _ => hp⟩
  · rw [Function.update_of_ne hj, h j]
    constructor
    · intro hnone
      cases hnone
    · intro hsome
      exact absurd (Option.some.inj hsome).symm hj

theorem release (h : Mutex inside holder pc) (hi : inside (pc i)) (hp : ¬ inside p) :
    Mutex inside none (Function.update pc i p) := by
  intro j
  by_cases hj : j = i
  · subst hj
    rw [Function.update_self]
    exact ⟨fun hin => absurd hin hp, fun hnone => by cases hnone⟩
  · rw [Function.update_of_ne hj]
    constructor
    · exact fun hin => absurd (h.unique hin hi) hj
    · intro hnone
      cases hnone

end Mutex
