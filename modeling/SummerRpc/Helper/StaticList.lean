import SummerRpc.Exception
import Mathlib.Data.List.Basic

/-! # `StaticList`

The bounded list of `helper/list.py` on a fixed array of nodes, read as the
list of its elements from the head. Elements enter and leave on the left only, so
it is a stack; that it never outgrows its nodes is a field of the structure.
-/

namespace SummerRpc

/-- `StaticList`: the elements from `_head.next` on. -/
structure StaticList (α : Type) where
  maxSize : ℕ
  elements : List α
  maxSize_pos : 0 < maxSize
  length_le : elements.length ≤ maxSize

namespace StaticList

variable {α : Type}

@[ext] theorem ext {l m : StaticList α} (hmax : l.maxSize = m.maxSize)
    (helements : l.elements = m.elements) : l = m := by
  cases l
  cases m
  cases hmax
  cases helements
  rfl

/-- `StaticList(max_size)`, whose `assert` is the hypothesis. -/
def new (maxSize : ℕ) (h : 0 < maxSize) : StaticList α where
  maxSize := maxSize
  elements := []
  maxSize_pos := h
  length_le := Nat.zero_le _

/-- `size` -/
def size (l : StaticList α) : ℕ := l.elements.length

/-- `is_full`. It compares the free list's head index with `None`, which that
index never is (the free list ends in `-1`), so the answer is always `False`. -/
def isFull (_ : StaticList α) : Bool := false

/-- `insert_left`: takes a node from the free list, which is empty exactly when
every node is in use. -/
def insertLeft (l : StaticList α) (element : α) : Except Exc (StaticList α) :=
  if h : l.elements.length < l.maxSize then
    .ok { maxSize := l.maxSize, elements := element :: l.elements,
          maxSize_pos := l.maxSize_pos, length_le := h }
  else .error { cls := .listFullError, msg := "list is full" }

/-- `pop_left` -/
def popLeft (l : StaticList α) : Except Exc (α × StaticList α) :=
  match h : l.elements with
  | [] => .error { cls := .listEmptyError, msg := "list is empty" }
  | e :: es =>
      .ok (e, { maxSize := l.maxSize, elements := es, maxSize_pos := l.maxSize_pos,
                length_le := by
                  have hle := l.length_le
                  rw [h, List.length_cons] at hle
                  omega })

/-- `peek_left` -/
def peekLeft (l : StaticList α) : Except Exc α :=
  match l.elements with
  | [] => .error { cls := .listEmptyError, msg := "list is empty" }
  | e :: _ => .ok e

@[simp] theorem elements_new (n : ℕ) (h : 0 < n) : (new n h : StaticList α).elements = [] := rfl

theorem insertLeft_ok {l l' : StaticList α} {e : α} (h : l.insertLeft e = .ok l') :
    l'.maxSize = l.maxSize ∧ l'.elements = e :: l.elements := by
  rw [insertLeft] at h
  split at h
  · cases h
    exact ⟨rfl, rfl⟩
  · cases h

/-- An empty list always has a free node. -/
theorem insertLeft_of_empty {l : StaticList α} (e : α) (h : l.elements = []) :
    ∃ l', l.insertLeft e = .ok l' ∧ l'.elements = [e] := by
  have hroom : l.elements.length < l.maxSize := by
    rw [h]
    exact l.maxSize_pos
  refine ⟨_, dif_pos hroom, ?_⟩
  show e :: l.elements = [e]
  rw [h]

theorem popLeft_ok {l l' : StaticList α} {e : α} (h : l.popLeft = .ok (e, l')) :
    l'.maxSize = l.maxSize ∧ l.elements = e :: l'.elements := by
  rw [popLeft] at h
  split at h
  · cases h
  · rename_i es heq
    cases h
    exact ⟨rfl, heq⟩

theorem popLeft_nil {l : StaticList α} (h : l.elements = []) :
    l.popLeft = .error { cls := .listEmptyError, msg := "list is empty" } := by
  unfold popLeft
  split
  · rfl
  · rename_i hcons
    rw [h] at hcons
    cases hcons

theorem popLeft_cons {l : StaticList α} {e : α} {es : List α} (h : l.elements = e :: es) :
    ∃ l', l.popLeft = .ok (e, l') ∧ l'.maxSize = l.maxSize ∧ l'.elements = es := by
  unfold popLeft
  split
  · rename_i hnil
    rw [h] at hnil
    cases hnil
  · rename_i hcons
    rw [h] at hcons
    cases hcons
    exact ⟨_, rfl, rfl, rfl⟩

/-- Popping fails on the empty list only. -/
theorem popLeft_error_iff {l : StaticList α} :
    (∃ ex, l.popLeft = .error ex) ↔ l.elements = [] := by
  constructor
  · rintro ⟨ex, h⟩
    rw [popLeft] at h
    split at h
    · assumption
    · cases h
  · intro h
    exact ⟨_, popLeft_nil h⟩

end StaticList

end SummerRpc
