import Mathlib.Data.List.Nodup
import Mathlib.Data.List.Perm.Basic

/-! # Last in, first out

What is put on a stack and taken from it in the course of time, oldest event first.

* `Replays`: the events lead from one stack to another, each pop with what is on top;
* `Replays.perm`: what was there and what was pushed is there still or has been popped;
* `Replays.between`: between the push and the pop of an item the stack has only grown and
  shrunk above it;
* `lifo`: the same for a history in which nothing is pushed twice.
-/

universe u

namespace Stack

variable {α : Type u}

inductive Event (α : Type u) where
  | push (x : α)
  | pop (x : α)
deriving DecidableEq, Repr

/-- From the first stack the events lead to the second one. -/
def Replays : List (Event α) → List α → List α → Prop
  | [], s, t => s = t
  | .push x :: es, s, t => Replays es (x :: s) t
  | .pop x :: es, s, t => ∃ rest, s = x :: rest ∧ Replays es rest t

def Event.pushed? : Event α → Option α
  | push x => some x
  | pop _ => none

def Event.popped? : Event α → Option α
  | push _ => none
  | pop x => some x

/-- What the events push, in this order. -/
def pushed (es : List (Event α)) : List α := es.filterMap Event.pushed?

/-- What they pop. -/
def popped (es : List (Event α)) : List α := es.filterMap Event.popped?

@[simp] theorem pushed_append (es fs : List (Event α)) :
    pushed (es ++ fs) = pushed es ++ pushed fs := List.filterMap_append

@[simp] theorem popped_append (es fs : List (Event α)) :
    popped (es ++ fs) = popped es ++ popped fs := List.filterMap_append

@[simp] theorem pushed_push (x : α) (es : List (Event α)) :
    pushed (.push x :: es) = x :: pushed es := rfl

@[simp] theorem pushed_pop (x : α) (es : List (Event α)) : pushed (.pop x :: es) = pushed es := rfl

@[simp] theorem popped_push (x : α) (es : List (Event α)) :
    popped (.push x :: es) = popped es := rfl

@[simp] theorem popped_pop (x : α) (es : List (Event α)) :
    popped (.pop x :: es) = x :: popped es := rfl

theorem replays_append {es fs : List (Event α)} {s u : List α} :
    Replays (es ++ fs) s u ↔ ∃ t, Replays es s t ∧ Replays fs t u := by
  induction es generalizing s with
  | nil => exact ⟨fun h => ⟨s, rfl, h⟩, fun ⟨t, hs, h⟩ => hs ▸ h⟩
  | cons e es ih =>
      cases e with
      | push x => exact ih
      | pop x =>
          constructor
          · rintro ⟨rest, rfl, h⟩
            obtain ⟨t, hes, hfs⟩ := ih.mp h
            exact ⟨t, ⟨rest, rfl, hes⟩, hfs⟩
          · rintro ⟨t, ⟨rest, rfl, hes⟩, hfs⟩
            exact ⟨rest, rfl, ih.mpr ⟨t, hes, hfs⟩⟩

/-- A stack that is emptied. -/
theorem replays_pops (s t : List α) : Replays (s.map Event.pop) (s ++ t) t := by
  induction s with
  | nil => rfl
  | cons x s ih => exact ⟨s ++ t, rfl, ih⟩

/-- Nothing is lost. -/
theorem Replays.perm {es : List (Event α)} {s t : List α} (h : Replays es s t) :
    (t ++ popped es).Perm (s ++ pushed es) := by
  induction es generalizing s with
  | nil =>
      cases h
      exact List.Perm.refl _
  | cons e es ih =>
      cases e with
      | push x =>
          rw [popped_push, pushed_push]
          exact (ih h).trans List.perm_middle.symm
      | pop x =>
          obtain ⟨rest, rfl, h⟩ := h
          rw [popped_pop, pushed_pop]
          exact List.perm_middle.trans ((ih h).cons x)

/-- As long as an item is not popped, what is below it stays. -/
theorem Replays.above {es : List (Event α)} (above : List α) {below t : List α} {x : α}
    (h : Replays es (above ++ x :: below) t) (hx : x ∉ popped es) :
    ∃ above', t = above' ++ x :: below ∧ Replays es above above' := by
  induction es generalizing above with
  | nil => exact ⟨above, h.symm, rfl⟩
  | cons e es ih =>
      cases e with
      | push y => exact ih (y :: above) h hx
      | pop y =>
          obtain ⟨rest, hs, h⟩ := h
          rw [popped_pop, List.mem_cons, not_or] at hx
          cases above with
          | nil => exact absurd (List.cons.inj hs).1 hx.1
          | cons z above =>
              obtain ⟨rfl, rfl⟩ := List.cons.inj hs
              obtain ⟨above', ht, habove⟩ := ih above h hx.2
              exact ⟨above', ht, above, rfl, habove⟩

/-- Until an item is popped, just what is pushed is popped, and the stack is as before. -/
theorem Replays.between {es : List (Event α)} {s t : List α} {x : α}
    (h : Replays es (x :: s) (x :: t)) (hpushed : x ∉ pushed es) (hpopped : x ∉ popped es) :
    t = s ∧ (popped es).Perm (pushed es) := by
  obtain ⟨above, ht, habove⟩ := h.above [] hpopped
  have hperm := habove.perm
  cases above with
  | nil => exact ⟨(List.cons.inj ht).2, hperm⟩
  | cons y above =>
      -- what is on top at the end has been pushed
      have hy : y ∈ pushed es := hperm.mem_iff.mp List.mem_cons_self
      exact absurd ((List.cons.inj ht).1 ▸ hy) hpushed

/-- Between the push and the pop of an item just what is pushed is popped, and what was there
before stays. -/
theorem lifo {before between after : List (Event α)} {t : List α} {x : α}
    (h : Replays (before ++ .push x :: (between ++ .pop x :: after)) [] t)
    (hnodup : (pushed (before ++ .push x :: (between ++ .pop x :: after))).Nodup) :
    ∃ s, Replays before [] s ∧ Replays between (x :: s) (x :: s) ∧
      (popped between).Perm (pushed between) := by
  -- nothing is popped twice either
  have hpops := (List.nodup_append.mp (h.perm.nodup_iff.mpr hnodup)).2.1
  simp only [pushed_append, pushed_push, pushed_pop, popped_append, popped_push, popped_pop]
    at hnodup hpops
  have hpushed : x ∉ pushed between := fun hmem =>
    (List.nodup_cons.mp (List.nodup_append.mp hnodup).2.1).1 (List.mem_append_left _ hmem)
  have hpopped : x ∉ popped between := fun hmem =>
    (List.nodup_append.mp (List.nodup_append.mp hpops).2.1).2.2 x hmem x List.mem_cons_self rfl
  obtain ⟨s, hbefore, hrest⟩ := replays_append.mp h
  obtain ⟨_, hbetween, rest, rfl, _⟩ := replays_append.mp hrest
  obtain ⟨rfl, hperm⟩ := hbetween.between hpushed hpopped
  exact ⟨rest, hbefore, hbetween, hperm⟩

end Stack
