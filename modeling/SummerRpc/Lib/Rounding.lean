import Mathlib.Algebra.Group.Subgroup.ZPowers.Basic
import Mathlib.Algebra.Order.Ring.Abs
import Mathlib.Algebra.Order.Field.Rat
import Mathlib.Order.Monotone.Basic
import Mathlib.Tactic.Linarith

/-! # Rounding

An operation of a machine gives the exact result rounded to a number that the machine holds.

* `Rounds`: rounding to a format, as far as it has to be known: it is monotone, and leaves
  the numbers of the format as they are;
* `Rounds.min_eq`: what is cut off at a number of the format may be rounded before;
* `doubles`, `mem_doubles`: the format with 53 bits, and the multiples of a power of two that
  are in it.
-/

namespace Rounding

section Rounds

variable {α : Type} [LinearOrder α]

/-- Rounding to the numbers of a format. -/
structure Rounds (F : Set α) (fl : α → α) : Prop where
  monotone : Monotone fl
  fixed : ∀ x ∈ F, fl x = x

variable {F : Set α} {fl : α → α} (h : Rounds F fl)
include h

/-- A number of the format stays below what it is below of. -/
theorem Rounds.le {c x : α} (hc : c ∈ F) (hle : c ≤ x) : c ≤ fl x := by
  rw [← h.fixed c hc]
  exact h.monotone hle

/-- What is cut off at a number of the format is not rounded, if what is left is in the
format. -/
theorem Rounds.min_eq {c x : α} (hc : c ∈ F) (hx : x ≤ c → x ∈ F) : min c (fl x) = min c x := by
  rcases le_total x c with hle | hge
  · rw [h.fixed x (hx hle)]
  · rw [min_eq_left hge, min_eq_left (h.le hc hge)]

omit h in
/-- Exact arithmetic. -/
theorem rounds_id (F : Set α) : Rounds F id := ⟨monotone_id, fun _ _ => rfl⟩

end Rounds

/-- Numbers that a double holds: those with 53 bits and an exponent in its range. -/
def doubles : Set ℚ :=
  {x | ∃ m e : ℤ, |m| ≤ 2 ^ 53 ∧ -1074 ≤ e ∧ e ≤ 970 ∧ x = m * (2 : ℚ) ^ e}

/-- A multiple of a power of two, with 53 bits. -/
theorem mem_doubles {e : ℤ} {x : ℚ} (hlow : -1074 ≤ e) (hhigh : e ≤ 970)
    (hx : x ∈ AddSubgroup.zmultiples ((2 : ℚ) ^ e)) (hle : |x| ≤ 2 ^ 53 * (2 : ℚ) ^ e) :
    x ∈ doubles := by
  obtain ⟨m, rfl⟩ := AddSubgroup.mem_zmultiples_iff.mp hx
  have hpos : (0 : ℚ) < 2 ^ e := zpow_pos (by norm_num) e
  rw [zsmul_eq_mul] at hle ⊢
  rw [abs_mul, abs_of_pos hpos] at hle
  have hm : |(m : ℚ)| ≤ 2 ^ 53 := le_of_mul_le_mul_right hle hpos
  exact ⟨m, e, by exact_mod_cast hm, hlow, hhigh, rfl⟩

/-- An integer with 53 bits. -/
theorem intCast_mem_doubles {n : ℤ} (h : |n| ≤ 2 ^ 53) : (n : ℚ) ∈ doubles :=
  ⟨n, 0, h, by norm_num, by norm_num, by rw [zpow_zero, mul_one]⟩

end Rounding
