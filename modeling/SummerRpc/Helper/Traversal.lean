import SummerRpc.Helper.Iterator

/-! # Traversals

The cursor of an iterator splits its list in two, and the methods move elements from one
part to the other.

* `SplitAt`: what is before the cursor, and what is after it, with one lemma a method;
* `traverse`: the loop that rewinds an iterator and removes some of the elements it
  meets;
* `traverse_rewind`: it meets each of them once, and leaves the others.
-/

namespace SummerRpc

namespace Iterator

variable {α : Type}

/-- The cursor is between `front` and `back`. -/
structure SplitAt (i : Iterator α) (front back : List α) : Prop where
  it : i.it = front ++ back
  cursor : i.cursor = front.length

namespace SplitAt

variable {i : Iterator α} {front back : List α} {x : α}

theorem rewind (i : Iterator α) : i.rewind.SplitAt [] i.it := ⟨rfl, rfl⟩

theorem hasNext (h : i.SplitAt front back) : i.hasNext = true ↔ back ≠ [] := by
  have hlength : i.it.length = front.length + back.length := by rw [h.it, List.length_append]
  rw [← List.length_pos_iff]
  simp only [Iterator.hasNext, decide_eq_true_eq, h.cursor]
  omega

/-- The element after the cursor is taken. -/
theorem next (h : i.SplitAt front (x :: back)) :
    i.next.1 = some x ∧ i.next.2.SplitAt (front ++ [x]) back := by
  have hindex : pyIndex i.it.length i.cursor = some front.length := by
    have hlt : front.length < i.it.length := by simp [h.it]
    simp [pyIndex, h.cursor, hlt]
  refine ⟨?_, ?_, ?_⟩
  · show (pyIndex i.it.length i.cursor).bind _ = _
    rw [hindex, Option.bind_some, h.it]
    simp
  · show i.it = _
    rw [h.it, List.append_assoc]
    rfl
  · show i.cursor + 1 = _
    rw [h.cursor, List.length_append]
    rfl

/-- The element before the cursor is taken away. -/
theorem remove (h : i.SplitAt (front ++ [x]) back) :
    i.remove.1 = some x ∧ i.remove.2.SplitAt front back := by
  have hcursor : i.cursor - 1 = front.length := by
    rw [h.cursor, List.length_append, List.length_singleton]
    omega
  have hindex : pyIndex i.it.length (i.cursor - 1) = some front.length := by
    have hlt : front.length < i.it.length := by
      rw [h.it]
      simp
    simp [pyIndex, hcursor, hlt]
  have hremove : i.remove =
      (i.it[front.length]?, { it := i.it.eraseIdx front.length, cursor := i.cursor - 1 }) := by
    unfold Iterator.remove
    rw [hindex]
  have hit : i.it = front ++ x :: back := by rw [h.it, List.append_assoc]; rfl
  rw [hremove]
  refine ⟨?_, ?_, hcursor⟩
  · rw [hit]
    simp
  · show i.it.eraseIdx front.length = _
    rw [hit]
    simp [List.eraseIdx_append]

theorem append (h : i.SplitAt front back) (x : α) : (i.append x).SplitAt front (back ++ [x]) :=
  ⟨by rw [it_append, h.it, List.append_assoc], h.cursor⟩

end SplitAt

/-! ## The loop -/

/-- What a loop over an iterator has met, what `remove` has returned, and what the loop
leaves. -/
structure Traversal (α : Type) where
  visited : List α
  removed : List α
  iterator : Iterator α
deriving DecidableEq, Repr

/-- `while has_next: next`, and `remove` when the predicate holds, for at most so many
rounds: nothing if there are more of them, or one of the calls raises. -/
def traverse (p : α → Bool) : ℕ → Iterator α → Option (Traversal α)
  | 0, i => if i.hasNext then none else some ⟨[], [], i⟩
  | rounds + 1, i =>
    if i.hasNext then do
      let x ← i.next.1
      if p x then
        let y ← i.next.2.remove.1
        let rest ← traverse p rounds i.next.2.remove.2
        return { rest with visited := x :: rest.visited, removed := y :: rest.removed }
      else
        let rest ← traverse p rounds i.next.2
        return { rest with visited := x :: rest.visited }
    else some ⟨[], [], i⟩

variable {p : α → Bool} {i : Iterator α} {front back : List α}

theorem traverse_end (p : α → Bool) (rounds : ℕ) (h : i.hasNext = false) :
    traverse p rounds i = some ⟨[], [], i⟩ := by
  cases rounds with
  | zero => rw [traverse, h]; rfl
  | succ rounds => rw [traverse, h]; rfl

/-- One round over an element that is removed. -/
theorem traverse_remove {x : α} (h : i.SplitAt front (x :: back)) (hp : p x = true)
    (rounds : ℕ) :
    ∃ j, j.SplitAt front back ∧ traverse p (rounds + 1) i =
      (traverse p rounds j).map fun rest =>
        { rest with visited := x :: rest.visited, removed := x :: rest.removed } := by
  obtain ⟨hfound, hnext⟩ := h.next
  obtain ⟨hremoved, hremove⟩ := hnext.remove
  refine ⟨_, hremove, ?_⟩
  rw [traverse, if_pos (h.hasNext.mpr (List.cons_ne_nil x back)), hfound]
  simp only [Option.bind_eq_bind, Option.bind_some, hp, if_true, hremoved]
  cases traverse p rounds i.next.2.remove.2 <;> rfl

/-- One round over an element that is kept. -/
theorem traverse_keep {x : α} (h : i.SplitAt front (x :: back)) (hp : p x = false)
    (rounds : ℕ) :
    ∃ j, j.SplitAt (front ++ [x]) back ∧ traverse p (rounds + 1) i =
      (traverse p rounds j).map fun rest => { rest with visited := x :: rest.visited } := by
  obtain ⟨hfound, hnext⟩ := h.next
  refine ⟨_, hnext, ?_⟩
  rw [traverse, if_pos (h.hasNext.mpr (List.cons_ne_nil x back)), hfound]
  simp only [Option.bind_eq_bind, Option.bind_some, hp, Bool.false_eq_true, if_false]
  cases traverse p rounds i.next.2 <;> rfl

/-- The loop from a cursor: the elements after it are met in order, and those for which
the predicate holds are gone. -/
theorem traverse_splitAt (p : α → Bool) (h : i.SplitAt front back) (more : ℕ) :
    traverse p (back.length + more) i = some
      { visited := back
        removed := back.filter p
        iterator := {
          it := front ++ back.filter fun x => !p x
          cursor := (front ++ back.filter fun x => !p x).length } } := by
  induction back generalizing i front with
  | nil =>
      have hend : i.hasNext = false := by
        rw [← Bool.not_eq_true, h.hasNext]
        exact fun hne => hne rfl
      have hi : i = { it := front ++ [], cursor := (front ++ []).length } := by
        rw [List.append_nil, ← h.cursor]
        have hit := h.it
        rw [List.append_nil] at hit
        rw [← hit]
      rw [traverse_end p _ hend, hi]
      rfl
  | cons x back ih =>
      have hrounds : (x :: back).length + more = (back.length + more) + 1 := by
        rw [List.length_cons]
        omega
      rw [hrounds]
      cases hp : p x with
      | true =>
          obtain ⟨j, hj, hround⟩ := traverse_remove h hp (back.length + more)
          rw [hround, ih hj]
          simp [hp]
      | false =>
          obtain ⟨j, hj, hround⟩ := traverse_keep h hp (back.length + more)
          rw [hround, ih hj]
          simp [hp]

/-- The loop from the start, wherever the cursor has been. -/
theorem traverse_rewind (p : α → Bool) (i : Iterator α) (more : ℕ) :
    traverse p (i.size + more) i.rewind = some
      { visited := i.it
        removed := i.it.filter p
        iterator := {
          it := i.it.filter fun x => !p x
          cursor := (i.it.filter fun x => !p x).length } } :=
  traverse_splitAt p (SplitAt.rewind i) more

example : traverse (fun n => n % 2 = 0) 10 (new (List.range 10)) =
    some ⟨List.range 10, [0, 2, 4, 6, 8], ⟨[1, 3, 5, 7, 9], 5⟩⟩ := by decide

end Iterator

end SummerRpc
