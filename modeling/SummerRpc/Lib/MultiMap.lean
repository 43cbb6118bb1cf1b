import Mathlib.Data.List.Basic

/-! # Dictionaries of lists

A dictionary under each of whose keys values are collected in a list.

* `get_add`: a value is found under its key, after those that are there already, and
  under no other key;
* `get_addAll`, `mem_get_addAll`: what is found after many values have been added.
-/

universe u v

/-- The keys, each with its values. -/
abbrev MultiMap (κ : Type u) (α : Type v) := List (κ × List α)

namespace MultiMap

variable {κ : Type u} {α : Type v} [DecidableEq κ]

/-- `m.setdefault(key, []).append(value)` -/
def add (key : κ) (value : α) : MultiMap κ α → MultiMap κ α
  | [] => [(key, [value])]
  | (k, values) :: m =>
    if k = key then (k, values ++ [value]) :: m else (k, values) :: add key value m

/-- `m.get(key, [])` -/
def get (key : κ) : MultiMap κ α → List α
  | [] => []
  | (k, values) :: m => if k = key then values else get key m

/-- Many values, each under its key. -/
def addAll (m : MultiMap κ α) (items : List (κ × α)) : MultiMap κ α :=
  items.foldl (fun m item => add item.1 item.2 m) m

/-- A value is found under its own key, and after those that were there. -/
theorem get_add (key k : κ) (value : α) (m : MultiMap κ α) :
    get k (add key value m) = get k m ++ if key = k then [value] else [] := by
  induction m with
  | nil =>
      by_cases h : key = k
      · simp only [add, get, if_pos h, List.nil_append]
      · simp only [add, get, if_neg h, List.append_nil]
  | cons entry m ih =>
      obtain ⟨k', values⟩ := entry
      by_cases hkey : k' = key
      · subst hkey
        by_cases h : k' = k
        · rw [add, if_pos rfl, get, get, if_pos h, if_pos h, if_pos h]
        · rw [add, if_pos rfl, get, get, if_neg h, if_neg h, if_neg h, List.append_nil]
      · rw [add, if_neg hkey, get, get]
        by_cases h : k' = k
        · have hne : ¬ key = k := fun heq => hkey (h.trans heq.symm)
          rw [if_pos h, if_pos h, if_neg hne, List.append_nil]
        · rw [if_neg h, if_neg h, ih]

/-- Under a key there are the values that have been added under it, in this order. -/
theorem get_addAll (key : κ) (items : List (κ × α)) (m : MultiMap κ α) :
    get key (addAll m items) =
      get key m ++ (items.filter fun item => item.1 = key).map Prod.snd := by
  induction items generalizing m with
  | nil => rw [addAll, List.foldl_nil, List.filter_nil, List.map_nil, List.append_nil]
  | cons item items ih =>
      refine (ih (add item.1 item.2 m)).trans ?_
      rw [get_add, List.append_assoc]
      by_cases h : item.1 = key
      · rw [if_pos h, List.filter_cons, if_pos (decide_eq_true h)]
        rfl
      · rw [if_neg h, List.filter_cons, if_neg (by simpa using h), List.nil_append]

theorem mem_get_addAll {key : κ} {value : α} (items : List (κ × α)) (m : MultiMap κ α) :
    value ∈ get key (addAll m items) ↔ value ∈ get key m ∨ (key, value) ∈ items := by
  rw [get_addAll, List.mem_append]
  refine or_congr_right ?_
  simp only [List.mem_map, List.mem_filter, decide_eq_true_eq]
  constructor
  · rintro ⟨⟨k, v⟩, ⟨hmem, rfl⟩, rfl⟩
    exact hmem
  · exact fun hmem => ⟨_, ⟨hmem, rfl⟩, rfl⟩

end MultiMap
