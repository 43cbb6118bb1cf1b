import Mathlib.Data.List.Nodup

/-! # Rotations

A queue whose first element is served, and then goes to its end. Between two turns elements
are put in anywhere, or taken out.

* `Turn`: how often an element has been served since another one was, by the order of the
  two;
* `Turn.served`, `Turn.serve_self`, `Turn.serve_other`, `Turn.insert`, `Turn.erase`: what
  keeps it;
* `Turn.due`: when it is the other one's turn again, that is once.
-/

universe u

namespace Rotation

variable {α : Type u} {x y z : α} {queue queue' rest : List α} {n : ℕ}

/-- Since `x` was served, `y` has been served `n` times: not yet, as long as it is before
`x`, and once, when it is after it. -/
def Turn (x y : α) (queue : List α) (n : ℕ) : Prop :=
  (n = 0 ∧ [y, x].Sublist queue) ∨ (n = 1 ∧ [x, y].Sublist queue)

/-- An element of a list, and another one that is put at its end. -/
theorem pair_append (h : y ∈ rest) (x : α) : [y, x].Sublist (rest ++ [x]) :=
  (List.singleton_sublist.mpr h).append (List.Sublist.refl [x])

/-- An element that comes after the first one is among the others. -/
theorem mem_of_pair (h : [y, x].Sublist (z :: rest)) : x ∈ rest := by
  cases h with
  | cons _ h => exact h.subset (List.mem_cons_of_mem _ List.mem_cons_self)
  | cons_cons _ h => exact h.subset List.mem_cons_self

theorem pair_rotate (h : [y, x].Sublist (z :: rest)) (hne : z ≠ y) :
    [y, x].Sublist (rest ++ [z]) := by
  have hrest : [y, x].Sublist rest := by
    cases h with
    | cons _ h => exact h
    | cons_cons _ _ => exact absurd rfl hne
  exact hrest.trans (List.sublist_append_left rest [z])

namespace Turn

/-- `x` has just been served. -/
theorem served (h : y ∈ rest) : Turn x y (rest ++ [x]) 0 := Or.inl ⟨rfl, pair_append h x⟩

/-- Another one is served. -/
theorem serve_other (h : Turn x y (z :: rest) n) (hx : z ≠ x) (hy : z ≠ y) :
    Turn x y (rest ++ [z]) n := by
  rcases h with ⟨hn, hpair⟩ | ⟨hn, hpair⟩
  · exact Or.inl ⟨hn, pair_rotate hpair hy⟩
  · exact Or.inr ⟨hn, pair_rotate hpair hx⟩

/-- `y` is served: it had not been before. -/
theorem serve_self (h : Turn x y (y :: rest) n) (hnodup : (y :: rest).Nodup) :
    n = 0 ∧ Turn x y (rest ++ [y]) 1 := by
  have hy : y ∉ rest := hnodup.notMem
  rcases h with ⟨hn, hpair⟩ | ⟨_, hpair⟩
  · exact ⟨hn, Or.inr ⟨rfl, pair_append (mem_of_pair hpair) y⟩⟩
  · exact absurd (mem_of_pair hpair) hy

/-- Others come in. -/
theorem insert (h : Turn x y queue n) (hsub : queue.Sublist queue') : Turn x y queue' n := by
  rcases h with ⟨hn, hpair⟩ | ⟨hn, hpair⟩
  · exact Or.inl ⟨hn, hpair.trans hsub⟩
  · exact Or.inr ⟨hn, hpair.trans hsub⟩

/-- Another one goes. -/
theorem erase [DecidableEq α] (h : Turn x y queue n) (hx : z ≠ x) (hy : z ≠ y) :
    Turn x y (queue.erase z) n := by
  have hkeep : ∀ a b : α, z ≠ a → z ≠ b → [a, b].Sublist queue →
      [a, b].Sublist (queue.erase z) := by
    intro a b ha hb hpair
    have hsub := hpair.erase z
    rw [List.erase_of_not_mem (by simp [ha, hb])] at hsub
    exact hsub
  rcases h with ⟨hn, hpair⟩ | ⟨hn, hpair⟩
  · exact Or.inl ⟨hn, hkeep y x hy hx hpair⟩
  · exact Or.inr ⟨hn, hkeep x y hx hy hpair⟩

/-- It is `x`'s turn again: `y` has been served once. -/
theorem due (h : Turn x y (x :: rest) n) (hnodup : (x :: rest).Nodup) : n = 1 := by
  have hx : x ∉ rest := hnodup.notMem
  rcases h with ⟨_, hpair⟩ | ⟨hn, _⟩
  · exact absurd (mem_of_pair hpair) hx
  · exact hn

end Turn

end Rotation
