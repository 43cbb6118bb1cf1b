import Mathlib.Data.List.Range
import Mathlib.Logic.Function.Basic

/-! # Chains of links

Cells that hold a link to the next cell, several lists of them in one store. How links are
written is left open: `link` gives what is written for a cell, and for the end.

* `Chain`: the cells that the links lead through, up to the end;
* `Chain.unique`: there is one such list;
* `Chain.update`, `Chain.push`: a cell outside the chain is linked to something else, or in
  front of the chain;
* `chain_range'`: cells in the order of their numbers.
-/

universe u v

namespace Linked

variable {ι : Type u} {ρ : Type v} {link : Option ι → ρ} {next : ι → ρ}

/-- The links from `start` on lead through these cells and end. -/
def Chain (link : Option ι → ρ) (next : ι → ρ) : ρ → List ι → Prop
  | start, [] => start = link none
  | start, i :: is => start = link (some i) ∧ Chain link next (next i) is

/-- The links lead one way. -/
theorem Chain.unique (hlink : Function.Injective link) {start : ρ} {is js : List ι}
    (hi : Chain link next start is) (hj : Chain link next start js) : is = js := by
  induction is generalizing start js with
  | nil =>
      cases js with
      | nil => rfl
      | cons j js => cases hlink (hi.symm.trans hj.1)
  | cons i is ih =>
      cases js with
      | nil => cases hlink (hi.1.symm.trans hj)
      | cons j js =>
          cases hlink (hi.1.symm.trans hj.1)
          rw [ih hi.2 hj.2]

/-- Only the links of its own cells matter to a chain. -/
theorem Chain.congr {next' : ι → ρ} {start : ρ} {is : List ι} (h : Chain link next start is)
    (hsame : ∀ i ∈ is, next' i = next i) : Chain link next' start is := by
  induction is generalizing start with
  | nil => exact h
  | cons i is ih =>
      refine ⟨h.1, ?_⟩
      rw [hsame i List.mem_cons_self]
      exact ih h.2 fun j hj => hsame j (List.mem_cons_of_mem _ hj)

variable [DecidableEq ι]

theorem Chain.update {start : ρ} {is : List ι} (h : Chain link next start is) {i : ι} (hi : i ∉ is)
    (target : ρ) : Chain link (Function.update next i target) start is :=
  h.congr fun _ hj => Function.update_of_ne (ne_of_mem_of_not_mem hj hi) _ _

/-- A cell outside the chain, linked to its start. -/
theorem Chain.push {start : ρ} {is : List ι} (h : Chain link next start is) {i : ι} (hi : i ∉ is) :
    Chain link (Function.update next i start) (link (some i)) (i :: is) := by
  refine ⟨rfl, ?_⟩
  rw [Function.update_self]
  exact h.update hi start

/-- Each of the numbers linked to its successor, up to the last one. -/
theorem chain_range' {link : Option ℕ → ρ} {next : ℕ → ρ} (first count : ℕ)
    (hnext : ∀ i < first + count, next i = link (some (i + 1)))
    (hlast : next (first + count) = link none) :
    Chain link next (link (some first)) (List.range' first (count + 1)) := by
  induction count generalizing first with
  | zero => exact ⟨rfl, hlast⟩
  | succ count ih =>
      refine ⟨rfl, ?_⟩
      rw [hnext first (by omega)]
      exact ih (first + 1) (fun i hi => hnext i (by omega)) (by rw [← hlast]; congr 1; omega)

end Linked
