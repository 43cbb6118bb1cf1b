import SummerRpc.Pool.Model
import SummerRpc.Helper.CyclicIterator

/-! # The two containers

What the pool relies on when it calls the methods of its subclass, and that both
subclasses provide it.

* `Lawful`: the laws, on the connections a container holds;
* `Closes`: closing a container closes all of them and leaves none;
* `dedicate_lawful`, `shared_lawful`: a `Queue` and a `CyclicIterator` satisfy them;
* `removal_loses_nothing`: what is removed from an iterator while it is traversed, and what
  is left.
-/

namespace SummerRpc

namespace LRUConnectionPool

/-- What is true of all containers stays so when it is true of the one put in the place
of another. -/
theorem valid_update {γ : Type} {valid : γ → Prop} {containers : ℕ → γ} (c : ℕ) {y : γ}
    (hy : valid y) (h : ∀ d, valid (containers d)) (d : ℕ) :
    valid (Function.update containers c y d) :=
  (Function.forall_update_iff containers fun _ z => valid z).mpr ⟨hy, fun d _ => h d⟩ d

/-- The laws of the container methods, on the containers that satisfy `valid`. -/
structure Lawful {γ : Type} (P : ContainerClass γ) (valid : γ → Prop) : Prop where
  valid_get : valid P.getConnectionContainer
  valid_add : ∀ c x, valid c → valid (P.addConnectionToContainer c x)
  valid_choice : ∀ c x c', valid c → P.choiceConnectionFromContainer c = .got x c' → valid c'
  valid_remove : ∀ c x, valid c → valid (P.removeConnectionFromContainer c x)
  valid_release : ∀ c x, valid c → valid (P.releaseConnectionToContainer c x)
  get : P.connections P.getConnectionContainer = []
  add : ∀ c x, (P.connections (P.addConnectionToContainer c x)).Perm (x :: P.connections c)
  /-- a connection chosen was in the container, and leaves it if it is exclusive -/
  choice_got : ∀ c x c', valid c → P.choiceConnectionFromContainer c = .got x c' →
    (P.connections c).Perm (if P.exclusive then x :: P.connections c' else P.connections c')
  choice_mem : ∀ c x c', valid c → P.choiceConnectionFromContainer c = .got x c' →
    x ∈ P.connections c
  /-- there is something to choose from a container that holds a connection -/
  choice_some : ∀ c, valid c → P.connections c ≠ [] →
    ∃ x c', P.choiceConnectionFromContainer c = .got x c'
  /-- a shared connection found closed is removed -/
  remove : ∀ c x, (P.connections (P.removeConnectionFromContainer c x)).Perm
    (if P.exclusive then P.connections c else (P.connections c).erase x)
  release : ∀ c x, (P.connections (P.releaseConnectionToContainer c x)).Perm
    (if P.exclusive then x :: P.connections c else P.connections c)

/-- `_close_connections` closes every connection, and leaves none. -/
structure Closes {γ : Type} (P : ContainerClass γ) (valid : γ → Prop) : Prop where
  valid_close : ∀ c, valid (P.closeConnections c).2
  closed : ∀ c, (P.closeConnections c).1 = P.connections c
  left : ∀ c, P.connections (P.closeConnections c).2 = []

theorem dedicate_lawful : Lawful dedicate (fun _ => True) where
  valid_get := trivial
  valid_add := fun _ _ _ => trivial
  valid_choice := fun _ _ _ _ _ => trivial
  valid_remove := fun _ _ _ => trivial
  valid_release := fun _ _ _ => trivial
  get := rfl
  add := fun c x => List.perm_append_singleton x c
  choice_got := by
    intro c x c' _ h
    cases c with
    | nil => cases h
    | cons y c =>
        cases h
        exact List.Perm.refl _
  choice_mem := by
    intro c x c' _ h
    cases c with
    | nil => cases h
    | cons y c =>
        cases h
        exact List.mem_cons_self
  choice_some := by
    intro c _ hne
    cases c with
    | nil => exact absurd rfl hne
    | cons y c => exact ⟨y, c, rfl⟩
  remove := fun c _ => List.Perm.refl c
  release := fun c x => List.perm_append_singleton x c

theorem dedicate_closes : Closes dedicate (fun _ => True) where
  valid_close := fun _ => trivial
  closed := fun _ => rfl
  left := fun _ => rfl

/-- The loop is the one that removes every element it meets. -/
theorem closeLoop_of_traverse {rounds : ℕ} {it : Iterator ℕ} {t : Iterator.Traversal ℕ}
    (h : Iterator.traverse (fun _ => true) rounds it = some t) :
    closeLoop rounds it = (t.visited, t.iterator) := by
  induction rounds generalizing it t with
  | zero =>
      rw [Iterator.traverse] at h
      split at h
      · cases h
      · cases h
        rfl
  | succ rounds ih =>
      rw [Iterator.traverse] at h
      rw [closeLoop]
      split at h
      · next hnext =>
          obtain ⟨x, hx, h⟩ := Option.bind_eq_some_iff.mp h
          obtain ⟨y, _, h⟩ := Option.bind_eq_some_iff.mp h
          obtain ⟨rest, hrest, h⟩ := Option.bind_eq_some_iff.mp h
          cases h
          rw [if_pos hnext, hx, ih hrest]
          rfl
      · next hnext =>
          cases h
          rw [if_neg hnext]

/-- `_close_connections` closes what is in the container in its order, wherever the
cursor has been. -/
theorem closeConnections_shared (it : Iterator ℕ) :
    shared.closeConnections it = (it.it, ⟨[], 0⟩) := by
  have htraverse := Iterator.traverse_rewind (fun _ => true) it 0
  have hnone : (it.it.filter fun _ => !true) = [] := List.filter_false it.it
  rw [hnone] at htraverse
  exact closeLoop_of_traverse htraverse

theorem shared_closes : Closes shared (fun it => 0 ≤ it.cursor) where
  valid_close := by
    intro it
    have hcursor : (shared.closeConnections it).2.cursor = 0 := by rw [closeConnections_shared]
    exact Int.le_of_eq hcursor.symm
  closed := by
    intro it
    rw [closeConnections_shared]
    rfl
  left := by
    intro it
    rw [closeConnections_shared]
    rfl

/-- The loop that removes some of the elements of an iterator meets all of them in order,
gets those it removes from `remove` in order, and leaves the others. So every connection of
a container is closed, once for each time it is in there, and none is left. -/
theorem removal_loses_nothing {α : Type} (p : α → Bool) (i : Iterator α)
    (container : Iterator ℕ) :
    (∃ t, (∀ more, Iterator.traverse p (i.size + more) i.rewind = some t) ∧
      t.visited = i.it ∧ t.removed = i.it.filter p ∧
      t.iterator.it = i.it.filter fun x => !p x) ∧
    (shared.closeConnections container).1 = container.it ∧
    (shared.closeConnections container).2.it = [] := by
  refine ⟨⟨_, Iterator.traverse_rewind p i, rfl, rfl, rfl⟩, ?_, ?_⟩
  · rw [closeConnections_shared]
  · rw [closeConnections_shared]

theorem shared_choice_some {it : Iterator ℕ} (hc : 0 ≤ it.cursor) (hne : it.it ≠ []) :
    ∃ x it', shared.choiceConnectionFromContainer it = .got x it' ∧ x ∈ it.it ∧
      it'.it = it.it ∧ 0 ≤ it'.cursor := by
  rcases Iterator.cyclicHasNext_next hc hne with ⟨hnext, x, hx, hfound, hit, hcur⟩
  refine ⟨x, it.cyclicHasNext.2.next.2, ?_, hx, hit, hcur⟩
  have hstep : it.cyclicHasNext.2.next = (some x, it.cyclicHasNext.2.next.2) :=
    Prod.ext hfound rfl
  simp only [shared, hnext, if_true]
  rw [hstep]

/-- There is nothing to choose from an empty iterator. -/
theorem shared_choice_empty {it : Iterator ℕ} (hc : 0 ≤ it.cursor) (hnil : it.it = []) :
    shared.choiceConnectionFromContainer it =
      .raised { cls := .runtimeError, msg := "invalid connections_per_key" } := by
  have hend : it.hasNext = false := by simp [Iterator.hasNext, hnil, hc]
  have hrewind : it.rewind.hasNext = false := by simp [Iterator.hasNext, Iterator.rewind, hnil]
  have hnext : it.cyclicHasNext.1 = false := by
    simp only [Iterator.cyclicHasNext, hend, hrewind, Bool.false_eq_true, if_false]
  simp only [shared, hnext, Bool.false_eq_true, if_false]

/-- What is chosen from an iterator leaves its list as it is. -/
theorem shared_choice_it {it it' : Iterator ℕ} {x : ℕ}
    (h : shared.choiceConnectionFromContainer it = .got x it') (hc : 0 ≤ it.cursor) :
    it'.it = it.it ∧ x ∈ it.it ∧ 0 ≤ it'.cursor := by
  have hne : it.it ≠ [] := by
    intro hnil
    rw [shared_choice_empty hc hnil] at h
    cases h
  rcases shared_choice_some hc hne with ⟨y, jt, hgot, hmem, hit, hcur⟩
  rw [h] at hgot
  cases hgot
  exact ⟨hit, hmem, hcur⟩

theorem shared_lawful : Lawful shared (fun it => 0 ≤ it.cursor) where
  valid_get := Int.le_refl 0
  valid_add := fun _ _ h => h
  valid_choice := fun _ _ _ hc h => (shared_choice_it h hc).2.2
  valid_remove := by
    intro it x hc
    show 0 ≤ ((it.removeElement x).getD it).cursor
    cases h : it.removeElement x with
    | none => exact hc
    | some jt => exact Iterator.removeElement_cursor h hc
  valid_release := fun _ _ h => h
  get := rfl
  add := fun it x => List.perm_append_singleton x it.it
  choice_got := by
    intro it x jt hc h
    show it.it.Perm jt.it
    rw [(shared_choice_it h hc).1]
  choice_mem := fun _ _ _ hc h => (shared_choice_it h hc).2.1
  choice_some := by
    intro it hc hne
    rcases shared_choice_some hc hne with ⟨x, jt, hgot, _⟩
    exact ⟨x, jt, hgot⟩
  remove := by
    intro it x
    show ((it.removeElement x).getD it).it.Perm (it.it.erase x)
    cases h : it.removeElement x with
    | none =>
        have hx := Iterator.removeElement_none.mp h
        show it.it.Perm (it.it.erase x)
        rw [List.erase_of_not_mem hx]
    | some jt =>
        show jt.it.Perm (it.it.erase x)
        rw [(Iterator.removeElement_some h).2]
  release := fun it _ => List.Perm.refl it.it

end LRUConnectionPool

end SummerRpc
