import Mathlib.Data.Int.Notation
import Mathlib.Data.Nat.Notation
import Mathlib.Data.List.Basic

/-! # `Iterator` and `CyclicIterator`

A cursor over a list (`helper/iterator.py`). The methods that can raise
(`IndexError` of `next` and `remove`, `ValueError` of `remove_element`) return an
option beside the iterator, since their `finally` clauses move the cursor in both
cases.
-/

namespace SummerRpc

/-- The index `l[i]` stands for, a negative one counting from the end. -/
def pyIndex (length : ℕ) (i : ℤ) : Option ℕ :=
  if 0 ≤ i then if i < length then some i.toNat else none
  else if 0 ≤ length + i then some (length + i).toNat else none

/-- `Iterator` -/
structure Iterator (α : Type) where
  it : List α
  cursor : ℤ
deriving DecidableEq, Repr

namespace Iterator

variable {α : Type}

/-- `Iterator(it)` -/
def new (it : List α) : Iterator α := { it := it, cursor := 0 }

/-- `has_next` -/
def hasNext (i : Iterator α) : Bool := i.cursor < i.it.length

/-- `next` -/
def next (i : Iterator α) : Option α × Iterator α :=
  ((pyIndex i.it.length i.cursor).bind fun n => i.it[n]?, { i with cursor := i.cursor + 1 })

/-- `remove` -/
def remove (i : Iterator α) : Option α × Iterator α :=
  match pyIndex i.it.length (i.cursor - 1) with
  | some n => (i.it[n]?, { it := i.it.eraseIdx n, cursor := i.cursor - 1 })
  | none => (none, { i with cursor := i.cursor - 1 })

/-- `append` -/
def append (i : Iterator α) (element : α) : Iterator α := { i with it := i.it ++ [element] }

/-- `size` -/
def size (i : Iterator α) : ℕ := i.it.length

/-- `rewind` -/
def rewind (i : Iterator α) : Iterator α := { i with cursor := 0 }

/-- `remove_element`; `none` for the `ValueError` of an element that is not there. -/
def removeElement [DecidableEq α] (i : Iterator α) (element : α) : Option (Iterator α) :=
  if element ∈ i.it then
    let index := i.it.idxOf element
    some
      { it := i.it.eraseIdx index
        cursor := if i.cursor > index then i.cursor - 1 else i.cursor }
  else none

/-- `CyclicIterator.cyclic_has_next` -/
def cyclicHasNext (i : Iterator α) : Bool × Iterator α :=
  let i' := if i.hasNext then i else i.rewind
  (i'.hasNext, i')

@[simp] theorem it_append (i : Iterator α) (x : α) : (i.append x).it = i.it ++ [x] := rfl

/-- Removing an element removes its first occurrence. -/
theorem removeElement_some [DecidableEq α] {i j : Iterator α} {x : α}
    (h : i.removeElement x = some j) : x ∈ i.it ∧ j.it = i.it.erase x := by
  unfold removeElement at h
  split at h
  · rename_i hx
    cases h
    refine ⟨hx, ?_⟩
    show i.it.eraseIdx (i.it.idxOf x) = i.it.erase x
    exact (List.erase_eq_eraseIdx_of_idxOf rfl).symm
  · cases h

theorem removeElement_none [DecidableEq α] {i : Iterator α} {x : α} :
    i.removeElement x = none ↔ x ∉ i.it := by
  unfold removeElement
  split <;> simp_all

/-- The cursor stays non-negative. -/
theorem removeElement_cursor [DecidableEq α] {i j : Iterator α} {x : α}
    (h : i.removeElement x = some j) (hc : 0 ≤ i.cursor) : 0 ≤ j.cursor := by
  unfold removeElement at h
  split at h
  · cases h
    show 0 ≤ if i.cursor > i.it.idxOf x then i.cursor - 1 else i.cursor
    split
    · omega
    · exact hc
  · cases h

/-- Choosing from a list that is not empty gives one of its elements, and leaves
the list as it is. -/
theorem cyclicHasNext_next {i : Iterator α} (hc : 0 ≤ i.cursor) (hne : i.it ≠ []) :
    i.cyclicHasNext.1 = true ∧ ∃ x ∈ i.it, i.cyclicHasNext.2.next.1 = some x ∧
      i.cyclicHasNext.2.next.2.it = i.it ∧ 0 ≤ i.cyclicHasNext.2.next.2.cursor := by
  have hpos : 0 < i.it.length := List.length_pos_iff.mpr hne
  -- the element under a cursor inside the list
  have hget : ∀ n : ℕ, n < i.it.length →
      ((pyIndex i.it.length n).bind fun n => i.it[n]?) = i.it[n]? := by
    intro n hn
    simp [pyIndex, hn]
  rcases Int.eq_ofNat_of_zero_le hc with ⟨n, hn⟩
  by_cases hnext : i.hasNext = true
  · have hlt : n < i.it.length := by
      have hlt : i.cursor < i.it.length := by simpa [hasNext] using hnext
      omega
    simp only [cyclicHasNext, hnext, if_true]
    refine ⟨trivial, i.it[n], List.getElem_mem hlt, ?_, rfl, ?_⟩
    · simp only [next]
      rw [hn, hget n hlt]
      exact List.getElem?_eq_getElem hlt
    · show 0 ≤ i.cursor + 1
      omega
  · -- the cursor has run off the end: it starts over
    have hfalse : i.hasNext = false := by simpa using hnext
    simp only [cyclicHasNext, hfalse, Bool.false_eq_true, if_false]
    refine ⟨by simpa [hasNext, rewind] using hpos, i.it[0], List.getElem_mem hpos, ?_, rfl, ?_⟩
    · simp only [next, rewind]
      rw [show (0 : ℤ) = ((0 : ℕ) : ℤ) from rfl, hget 0 hpos]
      exact List.getElem?_eq_getElem hpos
    · show (0 : ℤ) ≤ 0 + 1
      omega

end Iterator

end SummerRpc
