import Mathlib.Logic.Function.Basic
import SummerRpc.Helper.LRUCache

/-! # `LRUCache` as a map

What a user of the cache expects of it: a map from keys to values that forgets a key when
it needs the room.

* `Op`, `apply`: the operations;
* `expected`: what should be stored, given the same operations and the evictions;
* `MapLaw`: the cache says what should be stored, key by key;
* `mapLaw_run`: it does when different keys have different hashes;
* `not_mapLaw`: it does not for any two keys of one hash.
-/

namespace SummerRpc

namespace LRUCache

/-- The operations. -/
inductive Op (κ υ : Type) where
  | setItem (k : κ) (v : υ)
  | getItem (k : κ)
  | delItem (k : κ)
  | contains (k : κ)
  | clear

variable {κ υ : Type} [PyHash κ]

/-- What an operation makes of the cache; one that raises `KeyError` leaves it alone. -/
def apply (c : LRUCache κ υ) : Op κ υ → LRUCache κ υ
  | .setItem k v => c.setItem k v
  | .getItem k =>
    match c.getItem k with
    | some (_, d) => d
    | none => c
  | .delItem k => (c.delItem k).getD c
  | .contains _ => c
  | .clear => c.clear

/-- The key that storing `k` evicts. -/
def evicted (c : LRUCache κ υ) (k : κ) : Option κ :=
  if c.contains k then none else c.willBeKickedOut.map Entry.key

/-- The value `cache[k]` gives. -/
def lookup (c : LRUCache κ υ) (k : κ) : Option υ := (c.getItem k).map Prod.fst

variable [DecidableEq κ]

/-- What is stored without the key evicted. -/
def forget (stored : κ → Option υ) : Option κ → κ → Option υ
  | some old => Function.update stored old none
  | none => stored

/-- What should be stored after an operation: the value last stored under a key, unless
the key has been deleted, cleared or evicted since. -/
def expected (c : LRUCache κ υ) (stored : κ → Option υ) : Op κ υ → κ → Option υ
  | .setItem k v => Function.update (forget stored (c.evicted k)) k (some v)
  | .delItem k => Function.update stored k none
  | .clear => fun _ => none
  | .getItem _ | .contains _ => stored

/-- A cache, with what should be stored in it, after some operations. -/
def run (maxSize : Option ℕ) (ops : List (Op κ υ)) : LRUCache κ υ × (κ → Option υ) :=
  ops.foldl (fun p op => (p.1.apply op, p.1.expected p.2 op)) (LRUCache.new maxSize, fun _ => none)

/-- The cache holds what should be stored, and an operation on one key leaves the others
alone. -/
structure MapLaw (c : LRUCache κ υ) (stored : κ → Option υ) : Prop where
  contains : ∀ k, c.contains k = (stored k).isSome
  get : ∀ k, c.lookup k = stored k
  set_other : ∀ k v k', k' ≠ k → c.currentSize < c.maxSize →
    (c.setItem k v).lookup k' = c.lookup k'
  del_other : ∀ k k', k' ≠ k → ((c.delItem k).getD c).lookup k' = c.lookup k'

/-! ## Keys with hashes of their own -/

omit [DecidableEq κ] in
/-- The entry found has the key looked for. -/
theorem lookup_iff (hinj : Function.Injective (PyHash.hash : κ → ℤ)) {c : LRUCache κ υ} {k : κ}
    {v : υ} : c.lookup k = some v ↔ ⟨k, v⟩ ∈ c.entries := by
  unfold lookup getItem
  rw [Option.map_map, Option.map_eq_some_iff]
  constructor
  · rintro ⟨e, he, rfl⟩
    obtain ⟨hmem, hhash⟩ := find_some.mp he
    have hkey : e.key = k := hinj hhash
    rw [← hkey]
    exact hmem
  · intro hmem
    exact ⟨⟨k, v⟩, find_some.mpr ⟨hmem, rfl⟩, rfl⟩

omit [DecidableEq κ] in
theorem contains_eq_isSome (c : LRUCache κ υ) (k : κ) : c.contains k = (c.lookup k).isSome := by
  unfold contains lookup getItem
  rw [Option.map_map, Option.isSome_map]

/-- The entries are what should be stored. -/
def Holds (c : LRUCache κ υ) (stored : κ → Option υ) : Prop :=
  ∀ k v, stored k = some v ↔ ⟨k, v⟩ ∈ c.entries

section Injective

variable (hinj : Function.Injective (PyHash.hash : κ → ℤ)) {c : LRUCache κ υ}
  {stored : κ → Option υ}

include hinj

omit [DecidableEq κ] in
/-- Other keys are not where `k` is. -/
theorem hash_ne_iff {e : Entry κ υ} {k : κ} : e.hash ≠ PyHash.hash k ↔ e.key ≠ k :=
  not_congr ⟨fun h => hinj h, fun h => congrArg PyHash.hash h⟩

omit [DecidableEq κ] hinj in
/-- One entry a key. -/
theorem eq_of_key {d e : Entry κ υ} (hd : d ∈ c.entries) (he : e ∈ c.entries)
    (h : d.key = e.key) : d = e := eq_of_hash hd he (congrArg PyHash.hash h)

omit [DecidableEq κ] in
/-- The entries after storing `k`: the new one, and those of the other keys that are not
evicted. -/
theorem mem_setItem_key {k : κ} {v : υ} {e : Entry κ υ} :
    e ∈ (c.setItem k v).entries ↔
      e = ⟨k, v⟩ ∨ (e ∈ c.entries ∧ e.key ≠ k ∧ ∀ old, c.evicted k = some old → e.key ≠ old) := by
  cases hk : c.contains k with
  | true =>
      have hevicted : c.evicted k = none := if_pos hk
      rw [mem_setItem_of_contains hk, hash_ne_iff hinj, hevicted]
      simp
  | false =>
      have hfresh : ∀ e ∈ c.entries, e.key ≠ k := fun e he =>
        (hash_ne_iff hinj).mp (find_none.mp (contains_eq_false.mp hk) e he)
      have hevicted : c.evicted k = c.willBeKickedOut.map Entry.key :=
        if_neg (by rw [hk]; exact Bool.false_ne_true)
      rw [hevicted]
      cases hout : c.willBeKickedOut with
      | none =>
          rw [entries_setItem_of_room hk hout, List.mem_cons]
          apply or_congr_right
          exact ⟨fun he => ⟨he, hfresh e he, fun old hold => by cases hold⟩, And.left⟩
      | some last =>
          have hlast : last ∈ c.entries := List.mem_of_getLast? (willBeKickedOut_some hout).2
          rw [mem_setItem_of_full hk hout]
          apply or_congr_right
          constructor
          · rintro ⟨he, hne⟩
            refine ⟨he, hfresh e he, ?_⟩
            intro old hold hkey
            cases hold
            exact hne (eq_of_key he hlast hkey)
          · rintro ⟨he, _, hne⟩
            refine ⟨he, ?_⟩
            intro heq
            exact hne last.key rfl (congrArg Entry.key heq)

omit [DecidableEq κ] in
theorem mem_delItem_key {k : κ} {e : Entry κ υ} :
    e ∈ ((c.delItem k).getD c).entries ↔ e ∈ c.entries ∧ e.key ≠ k := by
  unfold delItem
  by_cases hk : c.contains k = true
  · rw [if_pos hk]
    show e ∈ (c.erase k).entries ↔ _
    rw [mem_erase, hash_ne_iff hinj]
  · rw [if_neg hk]
    have hnone := find_none.mp (contains_eq_false.mp (Bool.not_eq_true _ ▸ hk))
    exact ⟨fun he => ⟨he, (hash_ne_iff hinj).mp (hnone e he)⟩, And.left⟩

/-- An operation does to the entries what should happen. -/
theorem holds_apply (h : Holds c stored) (op : Op κ υ) :
    Holds (c.apply op) (c.expected stored op) := by
  intro k v
  cases op with
  | setItem k₀ v₀ =>
      show Function.update (forget stored (c.evicted k₀)) k₀ (some v₀) k = some v ↔
        _ ∈ (c.setItem k₀ v₀).entries
      rw [mem_setItem_key hinj, ← h k v]
      by_cases hk : k = k₀
      · simp [hk, eq_comm]
      · rw [Function.update_of_ne hk]
        cases hevicted : c.evicted k₀ with
        | none => simp [forget, hk]
        | some old =>
            by_cases hold : k = old
            · subst hold
              simp [forget, hk]
            · simp [forget, hk, hold]
  | getItem k₀ =>
      show stored k = some v ↔ _
      unfold apply
      simp only
      split
      · rename_i hget
        rw [mem_getItem hget, h k v]
      · exact h k v
  | delItem k₀ =>
      show Function.update stored k₀ none k = some v ↔ _ ∈ ((c.delItem k₀).getD c).entries
      rw [mem_delItem_key hinj, ← h k v]
      by_cases hk : k = k₀
      · simp [hk]
      · simp [hk]
  | contains k₀ => exact h k v
  | clear => simp [expected, apply]

/-- So it is after any sequence of operations. -/
theorem holds_run (maxSize : Option ℕ) (ops : List (Op κ υ)) :
    Holds (run maxSize ops).1 (run maxSize ops).2 := by
  unfold run
  have hstart : ∀ (ops : List (Op κ υ)) (p : LRUCache κ υ × (κ → Option υ)), Holds p.1 p.2 →
      Holds (ops.foldl (fun p op => (p.1.apply op, p.1.expected p.2 op)) p).1
        (ops.foldl (fun p op => (p.1.apply op, p.1.expected p.2 op)) p).2 := by
    intro ops
    induction ops with
    | nil => exact fun _ h => h
    | cons op ops ih => exact fun p h => ih _ (holds_apply hinj h op)
  apply hstart
  intro k v
  simp

omit [DecidableEq κ] in
theorem mapLaw_of_holds (h : Holds c stored) : MapLaw c stored := by
  have hget : ∀ k, c.lookup k = stored k := by
    intro k
    apply Option.ext
    intro v
    exact (lookup_iff hinj).trans (h k v).symm
  refine ⟨?_, hget, ?_, ?_⟩
  · intro k
    rw [contains_eq_isSome, hget]
  · intro k v k' hne hroom
    apply Option.ext
    intro v'
    have hevicted : c.evicted k = none := by
      have hout : c.willBeKickedOut = none := if_pos hroom
      unfold evicted
      rw [hout]
      split <;> rfl
    rw [lookup_iff hinj, lookup_iff hinj, mem_setItem_key hinj, hevicted]
    simp [hne]
  · intro k k' hne
    apply Option.ext
    intro v'
    rw [lookup_iff hinj, lookup_iff hinj, mem_delItem_key hinj]
    simp [hne]

theorem mapLaw_run (maxSize : Option ℕ) (ops : List (Op κ υ)) :
    MapLaw (run maxSize ops).1 (run maxSize ops).2 :=
  mapLaw_of_holds hinj (holds_run hinj maxSize ops)

end Injective

/-! ## Keys that share a hash -/

/-- Once one of them is stored, the other one is there as well. -/
theorem not_mapLaw {k k' : κ} (hne : k' ≠ k) (hhash : PyHash.hash k' = PyHash.hash k)
    (maxSize : Option ℕ) (v : υ) :
    ¬ MapLaw (run maxSize [Op.setItem k v]).1 (run maxSize [Op.setItem k v]).2 := by
  intro h
  have hcontains : ((LRUCache.new maxSize : LRUCache κ υ).setItem k v).contains k' = true :=
    contains_iff.mpr ⟨⟨k, v⟩, mem_setItem_self k v, hhash.symm⟩
  have hevicted : (LRUCache.new maxSize : LRUCache κ υ).evicted k = none := by
    unfold evicted
    rw [if_neg (by simp [contains, find])]
    have hout : (LRUCache.new maxSize : LRUCache κ υ).willBeKickedOut = none :=
      if_pos (LRUCache.new maxSize : LRUCache κ υ).maxSize_pos
    rw [hout]
    rfl
  have hexpected := h.contains k'
  revert hexpected
  show ((LRUCache.new maxSize : LRUCache κ υ).setItem k v).contains k' =
    ((LRUCache.new maxSize : LRUCache κ υ).expected (fun _ => none) (.setItem k v) k').isSome → False
  rw [hcontains]
  unfold expected
  simp only [hevicted, Function.update_of_ne hne, forget]
  exact Bool.noConfusion

end LRUCache

end SummerRpc
