import SummerRpc.Lib.Once
import SummerRpc.Exception

/-! # `Singleton`

`Singleton.__new__` of `helper/singleton.py`, called by any number of threads for any classes.
It locks twice over `_instances`, with one lock for all classes.

* `fresh`: `super(Singleton, cls).__new__` makes a new object, or raises;
* `one_instance`: a class has one instance, and no other class has it.
-/

namespace SummerRpc

namespace Singleton

open Once

variable {ι γ : Type} [DecidableEq ι] [DecidableEq γ]

/-- `Singleton.__new__` for the classes `γ`; `published` is `Singleton._instances`, `make` is
`super(Singleton, cls).__new__`, and `read` and `readAgain` are `Singleton._instances[cls]`. -/
abbrev system (ι γ : Type) [DecidableEq ι] [DecidableEq γ] :
    Lts.Spec (State ι γ ℕ Exc) (Label ι γ ℕ Exc) := Once.system

/-- An object that has just been made is no other one. -/
def fresh (l : Label ι γ ℕ Exc) (s : State ι γ ℕ Exc) : Prop :=
  match l with
  | .make _ _ (.ok instance_) => ∀ cls, .ok instance_ ∉ s.tried cls
  | _ => True

/-- The runs of `Singleton.__new__`. -/
abbrev runs (ι γ : Type) [DecidableEq ι] [DecidableEq γ] :
    Lts.Spec (State ι γ ℕ Exc) (Label ι γ ℕ Exc) := (system ι γ).restrict fresh

/-- No two classes have made the same object. -/
theorem apart_reachable : ∀ s, (runs ι γ).Reachable s → ∀ cls cls' x,
    .ok x ∈ s.tried cls → .ok x ∈ s.tried cls' → cls = cls' := by
  apply Lts.Spec.invariant
  · rintro s ⟨_, _, _, htried, _⟩ cls cls' x hx
    rw [htried] at hx
    exact absurd hx List.not_mem_nil
  · intro l s hg h
    cases l with
    | make i cls₀ result =>
        intro cls cls' x hx hx'
        change .ok x ∈ (update (.make i cls₀ result) s).tried cls at hx
        change .ok x ∈ (update (.make i cls₀ result) s).tried cls' at hx'
        have hold : ∀ c, c ≠ cls₀ →
            (update (.make i cls₀ result) s).tried c = s.tried c :=
          fun c hc => Function.update_of_ne hc _ _
        have hnew : (update (.make i cls₀ result) s).tried cls₀ = s.tried cls₀ ++ [result] :=
          Function.update_self ..
        -- an object of `cls₀` is an old one, or the one just made
        have hsplit : ∀ c, c ≠ cls₀ → .ok x ∈ s.tried c →
            .ok x ∈ s.tried cls₀ ++ [result] → c = cls₀ := by
          intro c hc hxc hmem
          rcases List.mem_append.mp hmem with hmem | hmem
          · exact h c cls₀ x hxc hmem
          · rw [← List.mem_singleton.mp hmem] at hg
            exact absurd hxc (hg.2 c)
        -- one of the classes is the one for which an object was made, or none of them is
        by_cases hc : cls = cls₀ <;> by_cases hc' : cls' = cls₀
        · exact hc.trans hc'.symm
        · rw [hold cls' hc'] at hx'
          rw [hc, hnew] at hx
          exact absurd (hsplit cls' hc' hx' hx) hc'
        · rw [hold cls hc] at hx
          rw [hc', hnew] at hx'
          exact absurd (hsplit cls hc hx hx') hc
        · rw [hold cls hc] at hx
          rw [hold cls' hc'] at hx'
          exact h cls cls' x hx hx'
    | _ => exact h

/-- Whatever the threads do at once, and whichever constructors raise: all calls that return
for a class return one instance, which no other class has, and after it has been made none is
made for the class; no call raises `KeyError`, and two constructors never run at once. -/
theorem one_instance {s : State ι γ ℕ Exc} (hr : (runs ι γ).Reachable s) :
    (∀ cls cls' x y, (cls, .value x) ∈ s.given → (cls', .value y) ∈ s.given →
      (cls = cls' ↔ x = y)) ∧ MadeOnce s := by
  have honce : MadeOnce s := madeOnce_reachable hr.of_restrict
  refine ⟨fun cls cls' x y hx hy => ?_, honce⟩
  rcases honce.given cls x hx with ⟨hmade, hpublished⟩
  rcases honce.given cls' y hy with ⟨hmade', hpublished'⟩
  constructor
  · rintro rfl
    exact Option.some.inj (hpublished.symm.trans hpublished')
  · rintro rfl
    exact apart_reachable s hr cls cls' x hmade.mem hmade'.mem

/-- A test of the guard, for two classes. -/
def fires (l : Label ℕ Bool ℕ Exc) (s : State ℕ Bool ℕ Exc) : Bool :=
  decide (guard l s) &&
    match l with
    | .make _ _ (.ok x) => !(s.tried true).contains (.ok x) && !(s.tried false).contains (.ok x)
    | _ => true

theorem fires_guard {l : Label ℕ Bool ℕ Exc} {s : State ℕ Bool ℕ Exc} (h : fires l s = true) :
    (runs ℕ Bool).guard l s := by
  simp only [fires, Bool.and_eq_true, decide_eq_true_eq] at h
  refine ⟨h.1, ?_⟩
  cases l with
  | make i cls result =>
      cases result with
      | error ex => trivial
      | ok x =>
          have hnew := h.2
          simp only [Bool.and_eq_true, Bool.not_eq_true', List.contains_eq_mem,
            decide_eq_false_iff_not] at hnew
          intro cls'
          cases cls' with
          | false => exact hnew.2
          | true => exact hnew.1
  | _ => trivial

/-- Two threads ask for an instance of a class at once; the constructor raises for the first one.
A third one asks for the other class. -/
def asked : List (Label ℕ Bool ℕ Exc) :=
  [.ask 0 true, .ask 1 true, .look 0 true, .look 1 true, .acquire 0 true, .lookAgain 0 true,
    .make 0 true (.error { cls := .typeError }), .release 0 true (.raised { cls := .typeError }),
    .acquire 1 true, .lookAgain 1 true, .make 1 true (.ok 5), .ask 2 false, .look 2 false,
    .store 1 true 5, .ask 0 true, .look 0 true, .read 0 true, .release 1 true (.value 5),
    .acquire 2 false, .lookAgain 2 false, .make 2 false (.ok 6), .store 2 false 6,
    .release 2 false (.value 6)]

/-- Nobody has asked yet. -/
def nobody : State ℕ Bool ℕ Exc := ⟨fun _ => none, none, fun _ => .idle, fun _ => [], []⟩

theorem one_instance_asked :
    let s := (runs ℕ Bool).play fires asked nobody
    s.given = [(true, .raised { cls := .typeError }), (true, .value 5), (true, .value 5),
        (false, .value 6)] ∧
      (∀ cls cls' x y, (cls, .value x) ∈ s.given → (cls', .value y) ∈ s.given →
        (cls = cls' ↔ x = y)) ∧ MadeOnce s := by
  have hinit : (runs ℕ Bool).init nobody :=
    ⟨fun _ => rfl, rfl, fun _ => rfl, fun _ => rfl, rfl⟩
  refine ⟨by decide +kernel, one_instance ?_⟩
  exact (Lts.Spec.Reachable.init hinit).play (fun _ _ => fires_guard) asked

end Singleton

end SummerRpc
