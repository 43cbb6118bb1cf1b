import Mathlib.Data.Int.Notation
import Mathlib.Data.Nat.Notation
import Mathlib.Data.List.Nodup
import Mathlib.Data.List.Basic

/-! # `LRUCache`

The linked hash map of `helper/lru_cache.py`, with its ring of entries read from
the most recently used one to the least recently used one. Entries are found by
the hash of their key alone: two keys of one hash share an entry.

That no two entries have one hash, and that there are never more of them than
`maxSize`, are fields of the structure, so every operation has to keep them.
-/

namespace SummerRpc

/-- `hash(k)` of the key types the program uses. -/
class PyHash (κ : Type) where
  hash : κ → ℤ

/-- The hash of an `int` that fits a machine word is the number itself. Every id
`AtomicInteger` gives and every id a packet carries does. -/
instance : PyHash ℕ := ⟨fun n => n⟩

theorem hash_nat_inj {m n : ℕ} : PyHash.hash m = PyHash.hash n ↔ m = n := by
  show (m : ℤ) = (n : ℤ) ↔ m = n
  omega

/-- `Entry`, less the two links that make the ring. -/
structure Entry (κ υ : Type) where
  key : κ
  value : υ
deriving DecidableEq, Repr

/-- The hash of an entry's key, under which `__map` holds the entry. -/
def Entry.hash {κ υ : Type} [PyHash κ] (e : Entry κ υ) : ℤ := PyHash.hash e.key

/-- `LRUCache`: the entries from `head.next` (the most recently used) to
`head.prev` (the next to be recycled). -/
structure LRUCache (κ υ : Type) [PyHash κ] where
  maxSize : ℕ
  entries : List (Entry κ υ)
  maxSize_pos : 0 < maxSize
  nodup : (entries.map Entry.hash).Nodup
  length_le : entries.length ≤ maxSize

namespace LRUCache

variable {κ υ : Type} [PyHash κ]

@[ext] theorem ext {c d : LRUCache κ υ} (hmax : c.maxSize = d.maxSize)
    (hentries : c.entries = d.entries) : c = d := by
  cases c
  cases d
  cases hmax
  cases hentries
  rfl

/-- `LRUCache(max_size)` -/
def new (maxSize : Option ℕ) : LRUCache κ υ where
  maxSize :=
    match maxSize with
    | some (n + 1) => max (n + 1) 1
    | _ => 65535
  entries := []
  maxSize_pos := by split <;> omega
  nodup := List.nodup_nil
  length_le := Nat.zero_le _

/-- The entries whose key does not hash as `k` does. -/
def others (c : LRUCache κ υ) (k : κ) : List (Entry κ υ) :=
  c.entries.filter fun e => e.hash ≠ PyHash.hash k

/-- The entry `__map` holds for the hash of `k`. -/
def find (c : LRUCache κ υ) (k : κ) : Option (Entry κ υ) :=
  c.entries.find? fun e => e.hash = PyHash.hash k

/-- `k in cache` -/
def contains (c : LRUCache κ υ) (k : κ) : Bool := (c.find k).isSome

/-- `current_size` -/
def currentSize (c : LRUCache κ υ) : ℕ := c.entries.length

/-- `will_be_kicked_out`: the entry the next insertion of a new key recycles. -/
def willBeKickedOut (c : LRUCache κ υ) : Option (Entry κ υ) :=
  if c.currentSize < c.maxSize then none else c.entries.getLast?

/-- `iteritems`: from the least recently used entry to the most recently used. -/
def iteritems (c : LRUCache κ υ) : List (κ × υ) :=
  c.entries.reverse.map fun e => (e.key, e.value)

theorem others_sublist (c : LRUCache κ υ) (k : κ) : (c.others k).Sublist c.entries :=
  List.filter_sublist

theorem mem_others {c : LRUCache κ υ} {k : κ} {e : Entry κ υ} :
    e ∈ c.others k ↔ e ∈ c.entries ∧ e.hash ≠ PyHash.hash k := by
  simp [others]

theorem hash_notMem_others (c : LRUCache κ υ) (k : κ) :
    PyHash.hash k ∉ (c.others k).map Entry.hash := by
  intro h
  rcases List.mem_map.mp h with ⟨e, he, hk⟩
  exact (mem_others.mp he).2 hk

theorem find_some {c : LRUCache κ υ} {k : κ} {e : Entry κ υ} :
    c.find k = some e ↔ e ∈ c.entries ∧ e.hash = PyHash.hash k := by
  constructor
  · intro h
    exact ⟨List.mem_of_find?_eq_some h, by simpa using List.find?_some h⟩
  · rintro ⟨hmem, hk⟩
    have hsome : (c.find k).isSome := List.find?_isSome.mpr ⟨e, hmem, by simpa using hk⟩
    rcases Option.isSome_iff_exists.mp hsome with ⟨d, hd⟩
    have hdmem : d ∈ c.entries := List.mem_of_find?_eq_some hd
    have hdk : d.hash = PyHash.hash k := by simpa using List.find?_some hd
    -- one entry a hash
    rw [hd, List.inj_on_of_nodup_map c.nodup hdmem hmem (hdk.trans hk.symm)]

theorem find_none {c : LRUCache κ υ} {k : κ} :
    c.find k = none ↔ ∀ e ∈ c.entries, e.hash ≠ PyHash.hash k := by
  simp [find]

theorem contains_iff {c : LRUCache κ υ} {k : κ} :
    c.contains k = true ↔ ∃ e ∈ c.entries, e.hash = PyHash.hash k := by
  rw [contains, Option.isSome_iff_exists]
  simp only [find_some]

theorem contains_eq_false {c : LRUCache κ υ} {k : κ} :
    c.contains k = false ↔ c.find k = none := by
  simp [contains]

/-- A key that is present uses one of the slots. -/
theorem length_others_lt {c : LRUCache κ υ} {k : κ} (h : c.contains k = true) :
    (c.others k).length < c.entries.length := by
  rcases contains_iff.mp h with ⟨e, he, hk⟩
  have hlt := List.length_filter_lt_length_iff_exists
    (p := fun e : Entry κ υ => decide (e.hash ≠ PyHash.hash k)) (l := c.entries)
  exact hlt.mpr ⟨e, he, by simpa using hk⟩

/-! ## Operations -/

/-- `__change_pointer`: the entry of `k` moves to the front of the ring. -/
def touch (c : LRUCache κ υ) (k : κ) : LRUCache κ υ where
  maxSize := c.maxSize
  entries := (c.find k).toList ++ c.others k
  maxSize_pos := c.maxSize_pos
  nodup := by
    cases h : c.find k with
    | none => exact (List.Sublist.map _ (c.others_sublist k)).nodup c.nodup
    | some e =>
        have hk : e.hash = PyHash.hash k := (find_some.mp h).2
        refine List.nodup_cons.mpr ⟨?_, (List.Sublist.map _ (c.others_sublist k)).nodup c.nodup⟩
        show e.hash ∉ (c.others k).map Entry.hash
        rw [hk]
        exact c.hash_notMem_others k
  length_le := by
    cases h : c.find k with
    | none => exact Nat.le_trans (c.others_sublist k).length_le c.length_le
    | some e =>
        have hlt := length_others_lt (c := c) (k := k) (by rw [contains, h]; rfl)
        have hle := c.length_le
        show (c.others k).length + 1 ≤ c.maxSize
        omega

/-- `cache[k]`: the value, and the cache with its entry moved to the front; a key
that is not there raises `KeyError`. -/
def getItem (c : LRUCache κ υ) (k : κ) : Option (υ × LRUCache κ υ) :=
  (c.find k).map fun e => (e.value, c.touch k)

/-- The cache without the entry of `k`. -/
def erase (c : LRUCache κ υ) (k : κ) : LRUCache κ υ where
  maxSize := c.maxSize
  entries := c.others k
  maxSize_pos := c.maxSize_pos
  nodup := (List.Sublist.map _ (c.others_sublist k)).nodup c.nodup
  length_le := Nat.le_trans (c.others_sublist k).length_le c.length_le

/-- `del cache[k]`; a key that is not there raises `KeyError`. -/
def delItem (c : LRUCache κ υ) (k : κ) : Option (LRUCache κ υ) :=
  if c.contains k then some (c.erase k) else none

/-- `cache[k] = v`: an entry of the same hash is overwritten and moved to the
front, otherwise the last entry is recycled when the cache is full. -/
def setItem (c : LRUCache κ υ) (k : κ) (v : υ) : LRUCache κ υ where
  maxSize := c.maxSize
  entries :=
    if c.contains k then ⟨k, v⟩ :: c.others k
    else if c.maxSize ≤ c.currentSize then ⟨k, v⟩ :: c.entries.dropLast
    else ⟨k, v⟩ :: c.entries
  maxSize_pos := c.maxSize_pos
  nodup := by
    split
    · exact List.nodup_cons.mpr ⟨c.hash_notMem_others k,
        (List.Sublist.map _ (c.others_sublist k)).nodup c.nodup⟩
    · rename_i hk
      have hfresh : ∀ e ∈ c.entries, e.hash ≠ PyHash.hash k :=
        fun e he heq => hk (contains_iff.mpr ⟨e, he, heq⟩)
      split
      · refine List.nodup_cons.mpr ⟨?_,
          (List.Sublist.map _ (List.dropLast_sublist _)).nodup c.nodup⟩
        intro hmem
        rcases List.mem_map.mp hmem with ⟨e, he, heq⟩
        exact hfresh e (List.dropLast_subset _ he) heq
      · refine List.nodup_cons.mpr ⟨?_, c.nodup⟩
        intro hmem
        rcases List.mem_map.mp hmem with ⟨e, he, heq⟩
        exact hfresh e he heq
  length_le := by
    have hle := c.length_le
    have hpos := c.maxSize_pos
    split
    · rename_i hk
      have hlt := length_others_lt hk
      show (c.others k).length + 1 ≤ c.maxSize
      omega
    · split
      · show c.entries.dropLast.length + 1 ≤ c.maxSize
        rw [List.length_dropLast]
        omega
      · rename_i hroom
        have hlt : c.entries.length < c.maxSize := Nat.lt_of_not_le hroom
        exact hlt

/-- `clear` -/
def clear (c : LRUCache κ υ) : LRUCache κ υ where
  maxSize := c.maxSize
  entries := []
  maxSize_pos := c.maxSize_pos
  nodup := List.nodup_nil
  length_le := Nat.zero_le _

/-- The entries of `c` that `d` does not hold. -/
def lost [DecidableEq κ] [DecidableEq υ] (c d : LRUCache κ υ) : List (Entry κ υ) :=
  c.entries.filter fun e => e ∉ d.entries

/-! ## What the operations do to the entries -/

theorem mem_lost [DecidableEq κ] [DecidableEq υ] {c d : LRUCache κ υ} {e : Entry κ υ} :
    e ∈ c.lost d ↔ e ∈ c.entries ∧ e ∉ d.entries := by
  simp [lost]

@[simp] theorem entries_new (n : Option ℕ) : (new n : LRUCache κ υ).entries = [] := rfl

@[simp] theorem entries_clear (c : LRUCache κ υ) : c.clear.entries = [] := rfl

@[simp] theorem maxSize_setItem (c : LRUCache κ υ) (k : κ) (v : υ) :
    (c.setItem k v).maxSize = c.maxSize := rfl

@[simp] theorem maxSize_erase (c : LRUCache κ υ) (k : κ) : (c.erase k).maxSize = c.maxSize := rfl

@[simp] theorem maxSize_touch (c : LRUCache κ υ) (k : κ) : (c.touch k).maxSize = c.maxSize := rfl

@[simp] theorem maxSize_clear (c : LRUCache κ υ) : c.clear.maxSize = c.maxSize := rfl

theorem mem_erase {c : LRUCache κ υ} {k : κ} {e : Entry κ υ} :
    e ∈ (c.erase k).entries ↔ e ∈ c.entries ∧ e.hash ≠ PyHash.hash k := mem_others

/-- Deleting a key, if it is there. -/
theorem mem_delItem {c : LRUCache κ υ} {k : κ} {e : Entry κ υ}
    (h : e ∈ ((c.delItem k).getD c).entries) : e ∈ c.entries := by
  unfold delItem at h
  split at h
  · exact (mem_erase.mp h).1
  · exact h

/-- Moving an entry to the front changes the order of the entries only. -/
theorem mem_touch {c : LRUCache κ υ} {k : κ} {e : Entry κ υ} :
    e ∈ (c.touch k).entries ↔ e ∈ c.entries := by
  show e ∈ (c.find k).toList ++ c.others k ↔ _
  rw [List.mem_append, mem_others, Option.mem_toList, find_some]
  constructor
  · rintro (h | h)
    · exact h.1
    · exact h.1
  · intro h
    by_cases hk : e.hash = PyHash.hash k
    · exact Or.inl ⟨h, hk⟩
    · exact Or.inr ⟨h, hk⟩

theorem nodup_entries (c : LRUCache κ υ) : c.entries.Nodup := List.Nodup.of_map _ c.nodup

@[simp] theorem currentSize_touch (c : LRUCache κ υ) (k : κ) :
    (c.touch k).currentSize = c.currentSize := by
  have hperm : (c.touch k).entries.Perm c.entries :=
    (List.perm_ext_iff_of_nodup (c.touch k).nodup_entries c.nodup_entries).mpr fun _ => mem_touch
  exact hperm.length_eq

/-- Deleting a key that is there frees one slot. -/
theorem currentSize_erase {c : LRUCache κ υ} {k : κ} {e : Entry κ υ} (h : c.find k = some e) :
    (c.erase k).currentSize + 1 = c.currentSize := by
  rw [← currentSize_touch c k]
  show (c.others k).length + 1 = ((c.find k).toList ++ c.others k).length
  rw [h, List.length_append, Nat.add_comm]
  rfl

/-- Getting an item gives the value of its entry. -/
theorem getItem_some {c d : LRUCache κ υ} {k : κ} {v : υ} (h : c.getItem k = some (v, d)) :
    ∃ e ∈ c.entries, e.hash = PyHash.hash k ∧ e.value = v ∧ d = c.touch k := by
  rw [getItem, Option.map_eq_some_iff] at h
  rcases h with ⟨e, he, heq⟩
  cases heq
  exact ⟨e, (find_some.mp he).1, (find_some.mp he).2, rfl, rfl⟩

/-- Looking a key up loses no entry. -/
theorem mem_getItem {c d : LRUCache κ υ} {k : κ} {v : υ} (h : c.getItem k = some (v, d))
    {e : Entry κ υ} : e ∈ d.entries ↔ e ∈ c.entries := by
  obtain ⟨_, _, _, _, rfl⟩ := getItem_some h
  exact mem_touch

theorem getItem_none {c : LRUCache κ υ} {k : κ} (h : c.getItem k = none) :
    c.contains k = false := by
  rw [getItem, Option.map_eq_none_iff] at h
  exact contains_eq_false.mpr h

/-- Two entries of one hash are one entry. -/
theorem eq_of_hash {c : LRUCache κ υ} {d e : Entry κ υ} (hd : d ∈ c.entries) (he : e ∈ c.entries)
    (h : d.hash = e.hash) : d = e := List.inj_on_of_nodup_map c.nodup hd he h

/-- An entry is kicked out of a full cache only. -/
theorem willBeKickedOut_some {c : LRUCache κ υ} {e : Entry κ υ}
    (h : c.willBeKickedOut = some e) :
    c.maxSize ≤ c.currentSize ∧ c.entries.getLast? = some e := by
  rw [willBeKickedOut] at h
  split at h
  · cases h
  · exact ⟨by omega, h⟩

/-- When the peek finds nothing there is room. -/
theorem willBeKickedOut_none {c : LRUCache κ υ} (h : c.willBeKickedOut = none) :
    c.currentSize < c.maxSize := by
  rw [willBeKickedOut] at h
  split at h
  · assumption
  · have hpos := c.maxSize_pos
    have hnil : c.entries = [] := by simpa using h
    simp [currentSize, hnil] at *
    omega

/-- Overwriting the entry of a present key. -/
theorem mem_setItem_of_contains {c : LRUCache κ υ} {k : κ} {v : υ} {e : Entry κ υ}
    (h : c.contains k = true) :
    e ∈ (c.setItem k v).entries ↔ e = ⟨k, v⟩ ∨ (e ∈ c.entries ∧ e.hash ≠ PyHash.hash k) := by
  simp only [setItem, h, if_true, List.mem_cons, mem_others]

/-- With room for it a new key is added. -/
theorem entries_setItem_of_room {c : LRUCache κ υ} {k : κ} {v : υ}
    (hk : c.contains k = false) (h : c.willBeKickedOut = none) :
    (c.setItem k v).entries = ⟨k, v⟩ :: c.entries := by
  have hlt := willBeKickedOut_none h
  simp only [setItem, hk, Bool.false_eq_true, if_false, if_neg (Nat.not_le.mpr hlt)]

/-- In a full cache a new key takes the place of exactly the entry that
`will_be_kicked_out` announced. -/
theorem mem_setItem_of_full {c : LRUCache κ υ} {k : κ} {v : υ} {last e : Entry κ υ}
    (hk : c.contains k = false) (h : c.willBeKickedOut = some last) :
    e ∈ (c.setItem k v).entries ↔ e = ⟨k, v⟩ ∨ (e ∈ c.entries ∧ e ≠ last) := by
  have hfull := (willBeKickedOut_some h).1
  have hlast := (willBeKickedOut_some h).2
  simp only [setItem, hk, Bool.false_eq_true, if_false, if_pos hfull, List.mem_cons]
  have hsplit : c.entries = c.entries.dropLast ++ [last] :=
    (List.dropLast_append_getLast? last hlast).symm
  have hnodup : (c.entries.dropLast ++ [last]).Nodup := by
    rw [← hsplit]
    exact List.Nodup.of_map _ c.nodup
  constructor
  · rintro (rfl | he)
    · exact Or.inl rfl
    · refine Or.inr ⟨List.dropLast_subset _ he, ?_⟩
      intro heq
      exact (List.disjoint_of_nodup_append hnodup) he (by simp [heq])
  · rintro (rfl | ⟨he, hne⟩)
    · exact Or.inl rfl
    · rw [hsplit] at he
      rcases List.mem_append.mp he with h' | h'
      · exact Or.inr h'
      · exact absurd (by simpa using h') hne

/-- Whatever the cache held, afterwards it holds the new entry and otherwise only
entries it held before. -/
theorem mem_setItem {c : LRUCache κ υ} {k : κ} {v : υ} {e : Entry κ υ}
    (h : e ∈ (c.setItem k v).entries) : e = ⟨k, v⟩ ∨ e ∈ c.entries := by
  cases hk : c.contains k with
  | true => exact ((mem_setItem_of_contains hk).mp h).imp_right And.left
  | false =>
      cases hout : c.willBeKickedOut with
      | none =>
          rw [entries_setItem_of_room hk hout] at h
          exact List.mem_cons.mp h
      | some last => exact ((mem_setItem_of_full hk hout).mp h).imp_right And.left

/-- Storing a new key in a full cache loses exactly the announced entry. -/
theorem mem_lost_setItem_of_full [DecidableEq κ] [DecidableEq υ] {c : LRUCache κ υ} {k : κ} {v : υ}
    {last e : Entry κ υ} (hk : c.contains k = false) (h : c.willBeKickedOut = some last) :
    e ∈ c.lost (c.setItem k v) ↔ e = last := by
  rw [mem_lost, mem_setItem_of_full hk h]
  have hlast : last ∈ c.entries := List.mem_of_getLast? (willBeKickedOut_some h).2
  have hne : ∀ d ∈ c.entries, d ≠ ⟨k, v⟩ := by
    rintro d hd rfl
    have hmem := contains_iff.mpr ⟨_, hd, rfl⟩
    rw [hk] at hmem
    cases hmem
  constructor
  · rintro ⟨he, hnot⟩
    by_contra hlne
    exact hnot (Or.inr ⟨he, hlne⟩)
  · rintro rfl
    refine ⟨hlast, ?_⟩
    rintro (heq | ⟨_, hlne⟩)
    · exact hne e hlast heq
    · exact hlne rfl

/-- With room nothing is lost. -/
theorem lost_setItem_of_room [DecidableEq κ] [DecidableEq υ] {c : LRUCache κ υ} {k : κ} {v : υ}
    (hk : c.contains k = false) (h : c.willBeKickedOut = none) :
    c.lost (c.setItem k v) = [] := by
  apply List.eq_nil_iff_forall_not_mem.mpr
  intro e he
  rw [mem_lost, entries_setItem_of_room hk h] at he
  exact he.2 (List.mem_cons_of_mem _ he.1)

theorem mem_setItem_self {c : LRUCache κ υ} (k : κ) (v : υ) :
    ⟨k, v⟩ ∈ (c.setItem k v).entries := by
  simp only [setItem]
  split
  · exact List.mem_cons_self
  · split <;> exact List.mem_cons_self

/-- The entries afterwards: the new one, and the old ones that were not lost. -/
theorem mem_setItem_iff [DecidableEq κ] [DecidableEq υ] {c : LRUCache κ υ} {k : κ} {v : υ}
    {e : Entry κ υ} : e ∈ (c.setItem k v).entries ↔
      e = ⟨k, v⟩ ∨ (e ∈ c.entries ∧ e ∉ c.lost (c.setItem k v)) := by
  constructor
  · intro h
    rcases mem_setItem h with heq | hold
    · exact Or.inl heq
    · exact Or.inr ⟨hold, fun hl => (mem_lost.mp hl).2 h⟩
  · rintro (rfl | ⟨hold, hl⟩)
    · exact mem_setItem_self k v
    · by_contra hnew
      exact hl (mem_lost.mpr ⟨hold, hnew⟩)

/-- The values an iteration meets are those of the entries. -/
theorem mem_iteritems {c : LRUCache κ υ} {k : κ} {v : υ} :
    (k, v) ∈ c.iteritems ↔ (⟨k, v⟩ : Entry κ υ) ∈ c.entries := by
  simp only [iteritems, List.mem_map, List.mem_reverse, Prod.mk.injEq]
  constructor
  · rintro ⟨e, he, rfl, rfl⟩
    exact he
  · intro h
    exact ⟨_, h, rfl, rfl⟩

theorem nodup_iteritems (c : LRUCache κ υ) : c.iteritems.Nodup := by
  have hentries : c.entries.reverse.Nodup := List.nodup_reverse.mpr (List.Nodup.of_map _ c.nodup)
  apply List.Nodup.map _ hentries
  intro d e h
  cases d
  cases e
  cases h
  rfl

end LRUCache

end SummerRpc
