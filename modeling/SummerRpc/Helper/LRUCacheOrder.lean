import SummerRpc.Exception
import SummerRpc.Helper.LRUCacheMap
import SummerRpc.Lib.Calls
import Mathlib.Data.List.Dedup

/-! # `LRUCache` in the order of use

What the operations of an `LRUCache` return or raise, and the order in which its entries are
met.

* `call`: an operation on the list of entries, with its outcome;
* `uses`: the keys that have been set or got, first to last;
* `order_run`: the entries are in the order in which they were last used.
-/

namespace SummerRpc

/-- What an operation returns: the value of an entry or `None`, or whether a key is there. -/
inductive Reply (υ : Type) where
  | item (value : Option υ)
  | present (found : Bool)
deriving DecidableEq, Repr

/-! ## Without repetitions -/

/-- Without repetitions, each at the place where it is last. -/
theorem dedup_concat {α : Type} [DecidableEq α] (l : List α) (a : α) :
    (l ++ [a]).dedup = l.dedup.filter (· ≠ a) ++ [a] := by
  induction l with
  | nil => rfl
  | cons b l ih =>
      have hconcat : b ∈ l ++ [a] ↔ b ∈ l ∨ b = a := by
        rw [List.mem_append, List.mem_singleton]
      rw [List.cons_append, List.dedup_cons, List.dedup_cons, ih]
      by_cases hmem : b ∈ l
      · rw [if_pos (hconcat.mpr (Or.inl hmem)), if_pos hmem]
      · by_cases hba : b = a
        · rw [if_pos (hconcat.mpr (Or.inr hba)), if_neg hmem,
            List.filter_cons_of_neg (by simp [hba])]
        · rw [if_neg (by rw [hconcat]; tauto), if_neg hmem,
            List.filter_cons_of_pos (by simp [hba]), List.cons_append]

theorem sublist_dedup_concat {α : Type} [DecidableEq α] {l uses : List α} {a : α}
    (h : l.Sublist uses.dedup) (ha : a ∉ l) : (l ++ [a]).Sublist (uses ++ [a]).dedup := by
  have hself : l.filter (· ≠ a) = l := by
    refine List.filter_eq_self.mpr fun b hb => ?_
    rw [decide_eq_true_iff]
    exact ne_of_mem_of_not_mem hb ha
  rw [dedup_concat]
  refine List.Sublist.append_right ?_ [a]
  rw [← hself]
  exact h.filter _

namespace LRUCache

variable {κ υ : Type} [PyHash κ]

/-- What `{}[hash_code]` raises. -/
def keyError (hashCode : ℤ) : Exc := { cls := .keyError, msg := toString hashCode }

/-- An operation on the entries, with what it returns or raises. -/
def call (op : Op κ υ) (s : LRUCache κ υ) : Except Exc (Reply υ) × LRUCache κ υ :=
  let reply : Except Exc (Reply υ) :=
    match op with
    | .setItem _ _ => .ok (.item none)
    | .getItem k =>
      match s.getItem k with
      | some (v, _) => .ok (.item (some v))
      | none => .error (keyError (PyHash.hash k))
    | .delItem k =>
      if s.contains k then .ok (.item none)
      else .error (keyError (PyHash.hash k))
    | .contains k => .ok (.present (s.contains k))
    | .clear => .ok (.item none)
  (reply, s.apply op)

theorem entries_touch {s : LRUCache κ υ} {k : κ} {e : Entry κ υ} (h : s.find k = some e) :
    (s.touch k).entries = e :: s.others k := by
  show (s.find k).toList ++ s.others k = _
  rw [h]
  rfl

theorem apply_getItem_some {s : LRUCache κ υ} {k : κ} {e : Entry κ υ} (h : s.find k = some e) :
    s.apply (.getItem k) = s.touch k := by
  simp only [apply, getItem, h, Option.map_some]

theorem apply_getItem_none {s : LRUCache κ υ} {k : κ} (h : s.find k = none) :
    s.apply (.getItem k) = s := by
  simp only [apply, getItem, h, Option.map_none]

theorem apply_delItem (s : LRUCache κ υ) (k : κ) :
    s.apply (.delItem k) = if s.contains k then s.erase k else s := by
  show (s.delItem k).getD s = _
  unfold delItem
  split <;> rfl

theorem maxSize_call (op : Op κ υ) (s : LRUCache κ υ) : (call op s).2.maxSize = s.maxSize := by
  show (s.apply op).maxSize = s.maxSize
  cases op with
  | setItem k v => rfl
  | getItem k =>
      cases hfind : s.find k with
      | some e => rw [apply_getItem_some hfind, maxSize_touch]
      | none => rw [apply_getItem_none hfind]
  | delItem k =>
      rw [apply_delItem]
      split <;> rfl
  | contains k => rfl
  | clear => rfl

theorem maxSize_run (ops : List (Op κ υ)) (s : LRUCache κ υ) :
    (Calls.run call ops s).2.maxSize = s.maxSize :=
  Calls.run_invariant (P := fun s' => s'.maxSize = s.maxSize)
    (fun op s' h => (maxSize_call op s').trans h) ops rfl

/-- The hash of the key that is set or got. -/
def Op.used : Op κ υ → Option ℤ
  | .setItem k _ => some (PyHash.hash k)
  | .getItem k => some (PyHash.hash k)
  | .delItem _ | .contains _ | .clear => none

/-- What has been set or got, from the first operation to the last one. A get that raises is
there too; its key is in no entry. -/
def uses (ops : List (Op κ υ)) : List ℤ := ops.filterMap Op.used

/-- The hashes of the keys, from the least recently used one to the most recently used. -/
def order (s : LRUCache κ υ) : List ℤ := s.entries.reverse.map Entry.hash

theorem order_eq (s : LRUCache κ υ) : s.order = s.iteritems.map fun p => PyHash.hash p.1 := by
  rw [order, iteritems, List.map_map]
  rfl

theorem order_sublist {s : LRUCache κ υ} {entries : List (Entry κ υ)}
    (h : entries.Sublist s.entries) : (entries.reverse.map Entry.hash).Sublist s.order :=
  h.reverse.map _

/-- An entry is put in front of some of the entries there were. -/
theorem order_cons {s s' : LRUCache κ υ} {uses : List ℤ} {e : Entry κ υ}
    {rest : List (Entry κ υ)} (h : s.order.Sublist uses.dedup) (hentries : s'.entries = e :: rest)
    (hrest : rest.Sublist s.entries) : s'.order.Sublist (uses ++ [e.hash]).dedup := by
  have hnodup := s'.nodup
  rw [hentries, List.map_cons, List.nodup_cons] at hnodup
  rw [order, hentries, List.reverse_cons, List.map_append]
  refine sublist_dedup_concat ((order_sublist hrest).trans h) ?_
  rw [List.map_reverse, List.mem_reverse]
  exact hnodup.1

theorem entries_setItem (s : LRUCache κ υ) (k : κ) (v : υ) :
    ∃ rest, (s.setItem k v).entries = ⟨k, v⟩ :: rest ∧ rest.Sublist s.entries := by
  unfold setItem
  split
  · exact ⟨_, rfl, s.others_sublist k⟩
  · split
    · exact ⟨_, rfl, List.dropLast_sublist _⟩
    · exact ⟨_, rfl, List.Sublist.refl _⟩

theorem order_apply {s : LRUCache κ υ} {uses : List ℤ} (h : s.order.Sublist uses.dedup)
    (op : Op κ υ) : (s.apply op).order.Sublist (uses ++ op.used.toList).dedup := by
  cases op with
  | setItem k v =>
      obtain ⟨rest, hentries, hrest⟩ := s.entries_setItem k v
      exact order_cons h hentries hrest
  | getItem k =>
      cases hfind : s.find k with
      | some e =>
          rw [apply_getItem_some hfind, Op.used, Option.toList_some, ← (find_some.mp hfind).2]
          exact order_cons h (entries_touch hfind) (s.others_sublist k)
      | none =>
          have hout : PyHash.hash k ∉ s.order := by
            intro hmem
            obtain ⟨e, he, hhash⟩ := List.mem_map.mp hmem
            exact find_none.mp hfind e (List.mem_reverse.mp he) hhash
          rw [apply_getItem_none hfind, Op.used, Option.toList_some]
          exact (List.sublist_append_left _ _).trans (sublist_dedup_concat h hout)
  | delItem k =>
      rw [apply_delItem, Op.used, Option.toList_none, List.append_nil]
      split
      · exact (order_sublist (s.others_sublist k)).trans h
      · exact h
  | contains k =>
      rw [Op.used, Option.toList_none, List.append_nil]
      exact h
  | clear => exact List.nil_sublist _

/-- After any sequence of operations the entries are in the order in which they were last set
or got. -/
theorem order_run (ops : List (Op κ υ)) {s : LRUCache κ υ} (before : List ℤ)
    (h : s.order.Sublist before.dedup) :
    (Calls.run call ops s).2.order.Sublist (before ++ uses ops).dedup := by
  induction ops generalizing s before with
  | nil =>
      rw [uses, List.filterMap_nil, List.append_nil]
      exact h
  | cons op ops ih =>
      have hnext := ih _ (order_apply h op)
      have huses : op.used.toList ++ uses ops = uses (op :: ops) := by
        unfold uses
        rw [List.filterMap_cons]
        cases op.used <;> rfl
      rwa [List.append_assoc, huses] at hnext

end LRUCache

end SummerRpc
