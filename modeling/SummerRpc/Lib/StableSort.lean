import Mathlib.Order.Defs.LinearOrder
import Mathlib.Data.List.Sort

/-! # Stable sorting

A list sorted by a key, the largest key first, with elements of the same key as they were.

* `sortDescending`: the sort;
* `Descending`, `SamePerKey`: what it does;
* `descending_unique`: and nothing else does it.
-/

namespace StableSort

universe u v

variable {α : Type u} {ω : Type v} [LinearOrder ω] (key : α → ω)

/-- The list sorted by the key, the largest key first. -/
def sortDescending (xs : List α) : List α := xs.insertionSort fun a b => key b ≤ key a

/-- No key is larger than one before it. -/
def Descending (xs : List α) : Prop := xs.Pairwise fun a b => key b ≤ key a

/-- The elements with the key. -/
def perKey (k : ω) (xs : List α) : List α := xs.filter fun a => decide (key a = k)

/-- The elements with a key are the same ones in the same order, for every key. -/
def SamePerKey (xs ys : List α) : Prop := ∀ k, perKey key k xs = perKey key k ys

variable {key} {xs ys : List α}

theorem perKey_cons_of_eq {a : α} {k : ω} (h : key a = k) (as : List α) :
    perKey key k (a :: as) = a :: perKey key k as :=
  List.filter_cons_of_pos (decide_eq_true h)

theorem perKey_cons_of_ne {a : α} {k : ω} (h : key a ≠ k) (as : List α) :
    perKey key k (a :: as) = perKey key k as :=
  List.filter_cons_of_neg (by rwa [decide_eq_true_eq])

theorem mem_perKey {a : α} {k : ω} {as : List α} :
    a ∈ perKey key k as ↔ a ∈ as ∧ key a = k := by
  unfold perKey
  rw [List.mem_filter, decide_eq_true_eq]

instance isTrans_key : IsTrans α fun a b => key b ≤ key a := ⟨fun _ _ _ hab hbc => le_trans hbc hab⟩

instance total_key : Std.Total fun a b => key b ≤ key a := ⟨fun a b => le_total (key b) (key a)⟩

theorem sortDescending_descending (xs : List α) : Descending key (sortDescending key xs) :=
  List.pairwise_insertionSort _ xs

theorem sortDescending_perm (xs : List α) : (sortDescending key xs).Perm xs :=
  List.perm_insertionSort _ xs

theorem sortDescending_samePerKey (xs : List α) : SamePerKey key (sortDescending key xs) xs := by
  intro k
  have hsub : (perKey key k xs).Sublist (sortDescending key xs) := by
    refine List.sublist_insertionSort ?_ List.filter_sublist
    -- elements with one key are in every order
    refine List.pairwise_of_forall_mem_list fun a ha b hb => ?_
    rw [(mem_perKey.mp ha).2, (mem_perKey.mp hb).2]
  -- sorting keeps them in their order, and adds no others
  have hfiltered : (perKey key k xs).Sublist (perKey key k (sortDescending key xs)) := by
    have hfilter := hsub.filter fun a => decide (key a = k)
    unfold perKey at hfilter ⊢
    rw [List.filter_filter, List.filter_congr fun a _ => Bool.and_self _] at hfilter
    exact hfilter
  exact (hfiltered.eq_of_length ((sortDescending_perm xs).filter _).length_eq.symm).symm

/-- A head is in the other list, and so its key is not larger than the other one's. -/
theorem head_le {a b : α} {as bs : List α} (hbs : Descending key (b :: bs))
    (hsame : SamePerKey key (a :: as) (b :: bs)) : key a ≤ key b := by
  have ha : a ∈ perKey key (key a) (b :: bs) := by
    rw [← hsame (key a), perKey_cons_of_eq rfl]
    exact List.mem_cons_self
  rcases List.mem_cons.mp (mem_perKey.mp ha).1 with rfl | hmem
  · exact le_refl _
  · exact (List.pairwise_cons.mp hbs).1 a hmem

theorem not_samePerKey_nil (a : α) (as : List α) : ¬ SamePerKey key [] (a :: as) := by
  intro hsame
  have hnone := hsame (key a)
  rw [perKey_cons_of_eq rfl] at hnone
  cases hnone

/-- There is one way to sort the list so. -/
theorem descending_unique (hxs : Descending key xs) (hys : Descending key ys)
    (hsame : SamePerKey key xs ys) : xs = ys := by
  induction xs generalizing ys with
  | nil =>
      cases ys with
      | nil => rfl
      | cons y ys => exact absurd hsame (not_samePerKey_nil y ys)
  | cons x xs ih =>
      cases ys with
      | nil =>
          have hswap : SamePerKey key [] (x :: xs) := fun k => (hsame k).symm
          exact absurd hswap (not_samePerKey_nil x xs)
      | cons y ys =>
          -- both heads have the largest key, and are the first of their key in both lists
          have hkey : key x = key y :=
            le_antisymm (head_le hys hsame) (head_le hxs fun k => (hsame k).symm)
          have hheads := hsame (key x)
          rw [perKey_cons_of_eq rfl, perKey_cons_of_eq hkey.symm] at hheads
          have hxy : x = y := (List.cons.inj hheads).1
          subst hxy
          refine congrArg (x :: ·) (ih (List.pairwise_cons.mp hxs).2
            (List.pairwise_cons.mp hys).2 fun k => ?_)
          have hk := hsame k
          by_cases hx : key x = k
          · rw [perKey_cons_of_eq hx, perKey_cons_of_eq hx] at hk
            exact (List.cons.inj hk).2
          · rw [perKey_cons_of_ne hx, perKey_cons_of_ne hx] at hk
            exact hk

/-- What is sorted so is the sorted list. -/
theorem sortDescending_unique (hys : Descending key ys) (hsame : SamePerKey key ys xs) :
    sortDescending key xs = ys :=
  descending_unique (sortDescending_descending xs) hys fun k =>
    (sortDescending_samePerKey xs k).trans (hsame k).symm

end StableSort
