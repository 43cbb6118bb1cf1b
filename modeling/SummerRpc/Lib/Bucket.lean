import Mathlib.Algebra.BigOperators.Group.List.Basic
import Mathlib.Algebra.Order.Group.MinMax
import Mathlib.Tactic.Abel

/-! # Token buckets

A bucket holds at most its capacity. Each use fills it with what has flowed in since the
use before, and then takes out what is asked for, if there is that much.

* `level_nonneg`: a bucket is never overdrawn;
* `granted_cons_le`: however many uses, they are granted no more than the capacity and
  what flows in after the first of them;
* `covered_le_granted`: what has just flowed in can be taken out.

Levels are the elements of any ordered group.
-/

namespace Bucket

universe u

/-- What has flowed in since the last use, and what is asked for. -/
structure Use (K : Type u) where
  fill : K
  request : K

variable {K : Type u} [AddCommGroup K] [LinearOrder K]

/-- The level after filling. -/
def filled (capacity level : K) (use : Use K) : K := min capacity (level + use.fill)

/-- All that is asked for, or nothing. -/
def grant (level : K) (use : Use K) : K := if use.request ≤ level then use.request else 0

/-- The level after a use. -/
def level (capacity before : K) (use : Use K) : K :=
  filled capacity before use - grant (filled capacity before use) use

/-- What a sequence of uses is granted. -/
def granted (capacity : K) : K → List (Use K) → K
  | _, [] => 0
  | before, use :: uses =>
    grant (filled capacity before use) use + granted capacity (level capacity before use) uses

/-- What flows in. -/
def inflow (uses : List (Use K)) : K := (uses.map Use.fill).sum

variable {capacity before : K} {use : Use K} {uses : List (Use K)}

theorem grant_le (h : 0 ≤ before) (use : Use K) : grant before use ≤ before := by
  unfold grant
  split
  · assumption
  · exact h

theorem grant_nonneg (before : K) (h : 0 ≤ use.request) : 0 ≤ grant before use := by
  unfold grant
  split
  · exact h
  · exact le_refl 0

variable [IsOrderedAddMonoid K]

theorem filled_nonneg (hcapacity : 0 ≤ capacity) (hbefore : 0 ≤ before) (hfill : 0 ≤ use.fill) :
    0 ≤ filled capacity before use := le_min hcapacity (add_nonneg hbefore hfill)

theorem level_nonneg (hcapacity : 0 ≤ capacity) (hbefore : 0 ≤ before) (hfill : 0 ≤ use.fill) :
    0 ≤ level capacity before use :=
  sub_nonneg.mpr (grant_le (filled_nonneg hcapacity hbefore hfill) use)

/-- What the first use is granted is missing afterwards. -/
theorem granted_cons (h : granted capacity (level capacity before use) uses ≤
    level capacity before use + inflow uses) :
    granted capacity before (use :: uses) ≤ filled capacity before use + inflow uses := by
  calc granted capacity before (use :: uses)
      ≤ grant (filled capacity before use) use + (level capacity before use + inflow uses) :=
        add_le_add_right h _
    _ = filled capacity before use + inflow uses := by
        unfold level
        abel

/-- A run takes out what was in the bucket and what has flowed in, at most. -/
theorem granted_le (hcapacity : 0 ≤ capacity) (hbefore : 0 ≤ before)
    (hfill : ∀ use ∈ uses, 0 ≤ use.fill) : granted capacity before uses ≤ before + inflow uses := by
  induction uses generalizing before with
  | nil => simpa [granted, inflow] using hbefore
  | cons use uses ih =>
      have hnonneg := level_nonneg hcapacity hbefore (hfill use List.mem_cons_self)
      have hrest := ih hnonneg fun u hu => hfill u (List.mem_cons_of_mem _ hu)
      calc granted capacity before (use :: uses)
          ≤ filled capacity before use + inflow uses := granted_cons hrest
        _ ≤ before + use.fill + inflow uses := add_le_add_left (min_le_right _ _) _
        _ = before + inflow (use :: uses) := by
            rw [inflow, inflow, List.map_cons, List.sum_cons]
            abel

/-- The first use finds a bucket that is at most full. -/
theorem granted_cons_le (hcapacity : 0 ≤ capacity) (hbefore : 0 ≤ before)
    (hfill : ∀ u ∈ use :: uses, 0 ≤ u.fill) :
    granted capacity before (use :: uses) ≤ capacity + inflow uses := by
  have hnonneg := level_nonneg hcapacity hbefore (hfill use List.mem_cons_self)
  have hrest := granted_le hcapacity hnonneg fun u hu => hfill u (List.mem_cons_of_mem _ hu)
  exact le_trans (granted_cons hrest) (add_le_add_left (min_le_left _ _) _)

/-- The requests that what has just flowed in is enough for. -/
def covered (capacity : K) (use : Use K) : K :=
  if use.request ≤ capacity ∧ use.request ≤ use.fill then use.request else 0

/-- Those are granted. -/
theorem covered_le_granted (hcapacity : 0 ≤ capacity) (hbefore : 0 ≤ before)
    (hfill : ∀ use ∈ uses, 0 ≤ use.fill) (hrequest : ∀ use ∈ uses, 0 ≤ use.request) :
    (uses.map (covered capacity)).sum ≤ granted capacity before uses := by
  induction uses generalizing before with
  | nil => exact le_refl 0
  | cons use uses ih =>
      have hnonneg := level_nonneg hcapacity hbefore (hfill use List.mem_cons_self)
      have hrest := ih hnonneg (fun u hu => hfill u (List.mem_cons_of_mem _ hu))
        fun u hu => hrequest u (List.mem_cons_of_mem _ hu)
      have hgrant : covered capacity use ≤ grant (filled capacity before use) use := by
        unfold covered
        split
        · rename_i hcovered
          have hle : use.request ≤ filled capacity before use :=
            le_min hcovered.1 (le_trans hcovered.2 (le_add_of_nonneg_left hbefore))
          rw [grant, if_pos hle]
        · exact grant_nonneg _ (hrequest use List.mem_cons_self)
      rw [List.map_cons, List.sum_cons]
      exact add_le_add hgrant hrest

end Bucket
