import Mathlib.Logic.Basic

/-! # Sequences of calls

An object on which operations are called one after the other. A call returns or raises
something, and leaves the object in a state.

* `run`: the calls, with what each has returned or raised;
* `run_invariant`: what every call keeps;
* `run_refines`: two objects whose calls do the same, as far as their users can tell.
-/

universe u v w

namespace Calls

variable {ι : Type u} {β : Type v} {σ τ : Type w}

def run (call : ι → σ → β × σ) : List ι → σ → List β × σ
  | [], s => ([], s)
  | op :: ops, s => ((call op s).1 :: (run call ops (call op s).2).1, (run call ops (call op s).2).2)

variable {call : ι → σ → β × σ} {call' : ι → τ → β × τ}

theorem run_invariant {P : σ → Prop} (hcall : ∀ op s, P s → P (call op s).2) (ops : List ι) {s : σ}
    (h : P s) : P (run call ops s).2 := by
  induction ops generalizing s with
  | nil => exact h
  | cons op ops ih => exact ih (hcall op s h)

/-- Objects that are related before a call are related after it, and the results are the same:
then this is so for every sequence of calls. -/
theorem run_refines {R : σ → τ → Prop}
    (hcall : ∀ op s t, R s t → (call op s).1 = (call' op t).1 ∧ R (call op s).2 (call' op t).2)
    (ops : List ι) {s : σ} {t : τ} (h : R s t) :
    (run call ops s).1 = (run call' ops t).1 ∧ R (run call ops s).2 (run call' ops t).2 := by
  induction ops generalizing s t with
  | nil => exact ⟨rfl, h⟩
  | cons op ops ih =>
      obtain ⟨hresult, hnext⟩ := hcall op s t h
      obtain ⟨hresults, hlast⟩ := ih hnext
      exact ⟨congrArg₂ List.cons hresult hresults, hlast⟩

end Calls
