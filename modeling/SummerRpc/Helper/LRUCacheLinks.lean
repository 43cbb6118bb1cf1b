import SummerRpc.Helper.LRUCacheOrder
import SummerRpc.Lib.Index
import SummerRpc.Lib.Ring

/-! # The entries of an `LRUCache`

`LRUCache` of `helper/lru_cache.py` as it is stored: the entries with their links to each
other, `_head` among them, and the map by which they are found.

* `LinkedLRUCache`, with `setItem`, `getItem`, `delItem`, `clear`: the links are written one
  by one, as the source does it;
* `Represents`: the ring through `_head` is the list of entries, and the map indexes it;
* `call_represents`: an operation keeps it, and returns or raises what it should;
* `iteritems_represents`, `kickedOut_represents`: what an iteration yields, and the entry that
  a new key takes the place of;
* `links_refine_entries`: any sequence of operations.
-/

namespace SummerRpc

open Linked
open LRUCache (keyError)

/-- `LRUCache`: `_max_size`, the entries in the order in which they were created, and `__map`.
`_head` has no key. -/
structure LinkedLRUCache (κ υ : Type) where
  maxSize : ℕ
  links : Links ℕ
  contents : ℕ → Option (Entry κ υ)
  created : ℕ
  map : AList fun _ : ℤ => ℕ

namespace LinkedLRUCache

/-- `_head` is the first entry to be created. -/
def head : ℕ := 0

/-! ## Links -/

/-- `target.next = entry`, where each of them may be `None`. -/
def setNext (l : Links ℕ) (target entry : Option ℕ) : Except Exc (Links ℕ) :=
  match target, entry with
  | none, _ =>
      .error { cls := .attributeError, msg := "'NoneType' object has no attribute 'next'" }
  | some _, none => .error { cls := .typeError, msg := "expect Entry, not NoneType" }
  | some i, some j => .ok { l with next := Function.update l.next i (some j) }

/-- `target.prev = entry` -/
def setPrev (l : Links ℕ) (target entry : Option ℕ) : Except Exc (Links ℕ) :=
  match target, entry with
  | none, _ =>
      .error { cls := .attributeError, msg := "'NoneType' object has no attribute 'prev'" }
  | some _, none => .error { cls := .typeError, msg := "expect Entry, not NoneType" }
  | some i, some j => .ok { l with prev := Function.update l.prev i (some j) }

/-- `entry.prev.next = entry.next; entry.next.prev = entry.prev` -/
def unlink (l : Links ℕ) (entry : ℕ) : Except Exc (Links ℕ) := do
  let l ← setNext l (l.prev entry) (l.next entry)
  setPrev l (l.next entry) (l.prev entry)

/-- `entry.prev = head; entry.next = head.next; head.next.prev = entry; head.next = entry` -/
def linkFirst (l : Links ℕ) (entry : ℕ) : Except Exc (Links ℕ) := do
  let l ← setPrev l (some entry) (some head)
  let l ← setNext l (some entry) (l.next head)
  let l ← setPrev l (l.next head) (some entry)
  setNext l (some head) (some entry)

/-- `__change_pointer` -/
def changePointer (l : Links ℕ) (entry : ℕ) : Except Exc (Links ℕ) := do
  let l ← unlink l entry
  linkFirst l entry

/-- `map.pop(hash_code)` -/
def pop (map : AList fun _ : ℤ => ℕ) (hashCode : ℤ) :
    Except Exc (ℕ × AList fun _ : ℤ => ℕ) :=
  match map.lookup hashCode with
  | some entry => .ok (entry, map.erase hashCode)
  | none => .error (keyError hashCode)

variable {κ υ : Type}

/-- `LRUCache(max_size)` -/
def new (maxSize : Option ℤ) : LinkedLRUCache κ υ where
  maxSize :=
    let size : ℤ :=
      match maxSize with
      | none | some 0 => 65535
      | some n => n
    (max size 1).toNat
  links := Links.join ⟨fun _ => none, fun _ => none⟩ head head
  contents := fun _ => none
  created := 1
  map := ∅

/-- `current_size` -/
def currentSize (c : LinkedLRUCache κ υ) : ℕ := c.map.entries.length

/-- `will_be_kicked_out` -/
def willBeKickedOut (c : LinkedLRUCache κ υ) : Option ℕ :=
  if c.currentSize < c.maxSize then none else c.links.prev head

/-- `clear` -/
def clear (c : LinkedLRUCache κ υ) : LinkedLRUCache κ υ :=
  { c with map := ∅, links := c.links.join head head }

/-- The loop of `iteritems`, for so many rounds at most. -/
def iterLoop (c : LinkedLRUCache κ υ) : ℕ → Option ℕ → Option (List (κ × υ))
  | 0, _ | _ + 1, none => none
  | rounds + 1, some entry =>
    if entry = head then some []
    else
      match c.contents entry with
      | some e => (c.iterLoop rounds (c.links.prev entry)).map ((e.key, e.value) :: ·)
      | none => none

/-- `iteritems` -/
def iteritems (c : LinkedLRUCache κ υ) (rounds : ℕ) : Option (List (κ × υ)) :=
  c.iterLoop rounds (c.links.prev head)

variable [PyHash κ]

/-- The hash of an entry's key. -/
def hashOf (c : LinkedLRUCache κ υ) (entry : ℕ) : Option ℤ := (c.contents entry).map Entry.hash

/-- `k in cache` -/
def contains (c : LinkedLRUCache κ υ) (k : κ) : Bool := (c.map.lookup (PyHash.hash k)).isSome

/-- An entry with its new key and value. -/
def store (c : LinkedLRUCache κ υ) (entry : ℕ) (k : κ) (v : υ) : ℕ → Option (Entry κ υ) :=
  Function.update c.contents entry (some ⟨k, v⟩)

/-- `cache[k] = v` -/
def setItem (c : LinkedLRUCache κ υ) (k : κ) (v : υ) : Except Exc (LinkedLRUCache κ υ) :=
  let hashCode := PyHash.hash k
  match c.map.lookup hashCode with
  | some entry => do
      let links ← changePointer c.links entry
      return { c with links, contents := c.store entry k v }
  | none =>
    if c.maxSize ≤ c.currentSize then
      match c.links.prev head with
      | none => .error { cls := .attributeError, msg := "'NoneType' object has no attribute 'key'" }
      | some entry =>
        match c.hashOf entry with
        -- it is `_head`, and nothing is stored under the hash of `None`
        | none => .error { cls := .keyError }
        | some old => do
            let (_, map) ← pop c.map old
            let links ← changePointer c.links entry
            return { c with
              links
              contents := c.store entry k v
              map := map.insert hashCode entry }
    else do
      let entry := c.created
      let links ← linkFirst c.links entry
      return { c with
        links
        contents := c.store entry k v
        created := entry + 1
        map := c.map.insert hashCode entry }

/-- `cache[k]`, with its value -/
def getItem (c : LinkedLRUCache κ υ) (k : κ) : Except Exc (Option υ × LinkedLRUCache κ υ) :=
  match c.map.lookup (PyHash.hash k) with
  | some entry => do
      let links ← changePointer c.links entry
      return ((c.contents entry).map Entry.value, { c with links })
  | none => .error (keyError (PyHash.hash k))

/-- `del cache[k]`; the entry keeps its links. -/
def delItem (c : LinkedLRUCache κ υ) (k : κ) : Except Exc (LinkedLRUCache κ υ) := do
  let (entry, map) ← pop c.map (PyHash.hash k)
  let links ← unlink c.links entry
  return { c with links, map }

/-! ## Writing links -/

theorem unlink_ok {l : Links ℕ} {entry p n : ℕ} (hp : l.prev entry = some p)
    (hn : l.next entry = some n) : unlink l entry = .ok (l.join p n) := by
  have hnext : Function.update l.next p (some n) entry = some n := by
    by_cases h : entry = p
    · rw [h, Function.update_self]
    · rw [Function.update_of_ne h, hn]
  simp only [unlink, setNext, setPrev, hp, hn, bind, Except.bind, hnext, Links.join]

theorem linkFirst_ok {l : Links ℕ} {entry n : ℕ} (hn : l.next head = some n)
    (hhead : entry ≠ head) (hne : entry ≠ n) :
    linkFirst l entry = .ok ((l.join entry n).join head entry) := by
  have hnext : Function.update l.next entry (some n) head = some n := by
    rw [Function.update_of_ne hhead.symm, hn]
  simp only [linkFirst, setNext, setPrev, hn, bind, Except.bind, hnext, Links.join]
  rw [Function.update_comm hne]

theorem unlink_ring {l : Links ℕ} {entry : ℕ} {front back : List ℕ}
    (h : IsRing l head (front ++ entry :: back)) :
    ∃ l', unlink l entry = .ok l' ∧ IsRing l' head (front ++ back) := by
  obtain ⟨p, n, _, _, _, _, hp, hn, _, _⟩ := h.prev_next
  exact ⟨_, unlink_ok hp hn, h.remove hp hn⟩

theorem linkFirst_ring {l : Links ℕ} {entry : ℕ} {items : List ℕ} (h : IsRing l head items)
    (hentry : entry ∉ head :: items) :
    ∃ l', linkFirst l entry = .ok l' ∧ IsRing l' head (entry :: items) := by
  obtain ⟨n, after, hafter, hn⟩ := h.next_head
  have hmem : n ∈ head :: items := by
    have hmem' : n ∈ items ++ [head] := by
      rw [hafter]
      exact List.mem_cons_self
    exact (List.perm_append_singleton head items).mem_iff.mp hmem'
  refine ⟨_, linkFirst_ok hn ?_ (ne_of_mem_of_not_mem hmem hentry).symm, h.insert hentry hn⟩
  exact (ne_of_mem_of_not_mem List.mem_cons_self hentry).symm

/-- `__change_pointer` moves an entry of the ring to the front, wherever it is. -/
theorem changePointer_ring {l : Links ℕ} {entry : ℕ} {front back : List ℕ}
    (h : IsRing l head (front ++ entry :: back)) :
    ∃ l', changePointer l entry = .ok l' ∧ IsRing l' head (entry :: (front ++ back)) := by
  obtain ⟨l', hunlink, h'⟩ := unlink_ring h
  have hentry : entry ∉ head :: (front ++ back) := by
    have hnodup := h.nodup
    rw [← List.cons_append] at hnodup
    exact (List.nodup_middle.mp hnodup).notMem
  obtain ⟨l'', hlink, h''⟩ := linkFirst_ring h' hentry
  refine ⟨l'', ?_, h''⟩
  rw [changePointer, hunlink]
  exact hlink

/-! ## The ring and the map -/

/-- The ring through `_head` is the list of entries, and the map indexes it. The entries that
have been deleted, and their links, do not matter. -/
structure Represents (c : LinkedLRUCache κ υ) (s : LRUCache κ υ) (items : List ℕ) : Prop where
  ring : IsRing c.links head items
  created : ∀ i ∈ head :: items, i < c.created
  contents : items.map c.contents = s.entries.map some
  indexes : Indexes c.map items c.hashOf
  maxSize : c.maxSize = s.maxSize

namespace Represents

variable {c : LinkedLRUCache κ υ} {s : LRUCache κ υ} {items : List ℕ}

theorem nodup (h : Represents c s items) : items.Nodup := (List.nodup_cons.mp h.ring.nodup).2

theorem length_eq (h : Represents c s items) : items.length = s.entries.length := by
  have hlength := congrArg List.length h.contents
  rwa [List.length_map, List.length_map] at hlength

/-- Every entry of the ring has a key. -/
theorem exists_entry (h : Represents c s items) {i : ℕ} (hi : i ∈ items) :
    ∃ e ∈ s.entries, c.contents i = some e := by
  have hmem : c.contents i ∈ s.entries.map some := by
    rw [← h.contents]
    exact List.mem_map_of_mem hi
  obtain ⟨e, he, heq⟩ := List.mem_map.mp hmem
  exact ⟨e, he, heq.symm⟩

theorem values (h : Represents c s items) : (c.map.entries.map Sigma.snd).Perm items := by
  refine h.indexes.perm h.nodup fun i hi => ?_
  obtain ⟨e, -, he⟩ := h.exists_entry hi
  rw [hashOf, he]
  rfl

theorem currentSize_eq (h : Represents c s items) : c.currentSize = items.length := by
  have hlength := h.values.length_eq
  rwa [List.length_map] at hlength

theorem currentSize_eq' (h : Represents c s items) : c.currentSize = s.currentSize :=
  h.currentSize_eq.trans h.length_eq

/-- A key that is not in the map. -/
theorem find_none (h : Represents c s items) {k : κ} (hk : c.map.lookup (PyHash.hash k) = none) :
    s.find k = none := by
  refine LRUCache.find_none.mpr fun e he hhash => ?_
  have hmem : some e ∈ items.map c.contents := by
    rw [h.contents]
    exact List.mem_map_of_mem he
  obtain ⟨i, hi, hcontents⟩ := List.mem_map.mp hmem
  have hcode : c.hashOf i = some (PyHash.hash k) := by
    rw [hashOf, hcontents, ← hhash]
    rfl
  rw [(h.indexes _ i).mpr ⟨hi, hcode⟩] at hk
  cases hk

/-- Where an entry is in the ring, its contents are in the list of entries. -/
theorem split (h : Represents c s items) {front back : List ℕ} {i : ℕ}
    (hitems : items = front ++ i :: back) :
    ∃ before e after, s.entries = before ++ e :: after ∧ front.map c.contents = before.map some ∧
      c.contents i = some e ∧ back.map c.contents = after.map some := by
  have hcontents := h.contents
  rw [hitems, List.map_append, List.map_cons, eq_comm] at hcontents
  obtain ⟨before, rest, hentries, hbefore, hrest⟩ := List.map_eq_append_iff.mp hcontents
  obtain ⟨e, after, hcons, he, hafter⟩ := List.map_eq_cons_iff.mp hrest
  exact ⟨before, e, after, by rw [hentries, hcons], hbefore.symm, he.symm, hafter.symm⟩

/-- What is without an entry of one hash is what is without that entry. -/
theorem others_eq {before after : List (Entry κ υ)} {e : Entry κ υ} {k : κ}
    (hentries : s.entries = before ++ e :: after) (hhash : e.hash = PyHash.hash k) :
    s.others k = before ++ after := by
  have hnodup := s.nodup
  rw [hentries, List.map_append, List.map_cons, List.nodup_middle, ← List.map_append,
    List.nodup_cons] at hnodup
  have hother : ∀ d ∈ before ++ after, decide (d.hash ≠ PyHash.hash k) = true := by
    intro d hd
    rw [decide_eq_true_iff, ← hhash]
    intro heq
    exact hnodup.1 (heq ▸ List.mem_map_of_mem hd)
  rw [LRUCache.others, hentries, List.filter_append, List.filter_cons_of_neg (by simp [hhash]),
    ← List.filter_append, List.filter_eq_self.mpr hother]

/-- A key that is in the map, with its entry in the ring. -/
theorem found (h : Represents c s items) {k : κ} {i : ℕ}
    (hk : c.map.lookup (PyHash.hash k) = some i) :
    ∃ front back before e after, items = front ++ i :: back ∧
      s.entries = before ++ e :: after ∧ front.map c.contents = before.map some ∧
      c.contents i = some e ∧ back.map c.contents = after.map some ∧
      s.find k = some e ∧ s.others k = before ++ after := by
  obtain ⟨hi, hcode⟩ := (h.indexes _ _).mp hk
  obtain ⟨front, back, hitems⟩ := List.append_of_mem hi
  obtain ⟨before, e, after, hentries, hbefore, he, hafter⟩ := h.split hitems
  rw [hashOf, he, Option.map_some, Option.some_inj] at hcode
  refine ⟨front, back, before, e, after, hitems, hentries, hbefore, he, hafter, ?_, ?_⟩
  · refine LRUCache.find_some.mpr ⟨?_, hcode⟩
    rw [hentries]
    exact List.mem_append_right _ List.mem_cons_self
  · exact others_eq hentries hcode

/-- The map without one of the entries. -/
theorem indexes_erase (h : Represents c s items) {front back : List ℕ} {i : ℕ} {code : ℤ}
    (hitems : items = front ++ i :: back) (hcode : c.hashOf i = some code) :
    Indexes (c.map.erase code) (front ++ back) c.hashOf := by
  have hindexes := h.indexes
  have hnodup := h.nodup
  rw [hitems] at hindexes hnodup
  exact hindexes.erase hnodup hcode

theorem found_iff (h : Represents c s items) (k : κ) :
    (c.map.lookup (PyHash.hash k)).isSome = s.contains k := by
  cases hk : c.map.lookup (PyHash.hash k) with
  | none => exact (LRUCache.contains_eq_false.mpr (h.find_none hk)).symm
  | some i =>
      obtain ⟨_, _, _, _, _, _, _, _, _, _, hfind, _⟩ := h.found hk
      rw [LRUCache.contains, hfind]
      rfl

/-- An entry has been moved to the front, and its key may have become another one of the same
hash. -/
theorem moved (h : Represents c s items) {front back : List ℕ} {i : ℕ}
    (hitems : items = front ++ i :: back) {links : Links ℕ}
    (hring : IsRing links head (i :: (front ++ back))) {contents : ℕ → Option (Entry κ υ)}
    {s' : LRUCache κ υ} (hcontents : (i :: (front ++ back)).map contents = s'.entries.map some)
    (hcode : ∀ j ∈ items, (contents j).map Entry.hash = c.hashOf j)
    (hmax : s'.maxSize = s.maxSize) :
    Represents { c with links, contents } s' (i :: (front ++ back)) := by
  have hperm : (i :: (front ++ back)).Perm items := by
    rw [hitems]
    exact List.perm_middle.symm
  exact {
    ring := hring
    created := fun j hj => h.created j ((hperm.cons head).mem_iff.mp hj)
    contents := hcontents
    indexes := h.indexes.congr hperm hcode
    maxSize := h.maxSize.trans hmax.symm }

end Represents

/-! ## Operations -/

variable {c : LinkedLRUCache κ υ} {s : LRUCache κ υ} {items : List ℕ}

omit [PyHash κ] in
theorem map_store (c : LinkedLRUCache κ υ) {entries : List ℕ} {i : ℕ} (hi : i ∉ entries) (k : κ)
    (v : υ) : entries.map (c.store i k v) = entries.map c.contents :=
  List.map_congr_left fun _ hj => Function.update_of_ne (ne_of_mem_of_not_mem hj hi) _ _

omit [PyHash κ] in
@[simp] theorem store_self (c : LinkedLRUCache κ υ) (i : ℕ) (k : κ) (v : υ) :
    c.store i k v i = some ⟨k, v⟩ := Function.update_self _ _ _

theorem code_store (c : LinkedLRUCache κ υ) {entries : List ℕ} {i : ℕ} (hi : i ∉ entries) (k : κ)
    (v : υ) : ∀ j ∈ entries, (c.store i k v j).map Entry.hash = c.hashOf j := fun _ hj =>
  congrArg (Option.map Entry.hash) (Function.update_of_ne (ne_of_mem_of_not_mem hj hi) _ _)

theorem new_represents (maxSize : Option ℤ) :
    Represents (new maxSize : LinkedLRUCache κ υ)
      (LRUCache.new (some (new maxSize : LinkedLRUCache κ υ).maxSize)) [] where
  ring := IsRing.empty _ _
  created := by
    intro i hi
    rw [List.mem_singleton.mp hi]
    exact Nat.zero_lt_one
  contents := rfl
  indexes := Indexes.empty _
  maxSize := by
    have hpos : 0 < (new maxSize : LinkedLRUCache κ υ).maxSize := by
      show 0 < (max _ (1 : ℤ)).toNat
      omega
    obtain ⟨n, hn⟩ := Nat.exists_eq_add_one_of_ne_zero hpos.ne'
    rw [hn]
    show n + 1 = max (n + 1) 1
    omega

theorem clear_represents (h : Represents c s items) : Represents c.clear s.clear [] where
  ring := IsRing.empty _ _
  created := by
    intro i hi
    rw [List.mem_singleton.mp hi]
    exact h.created head List.mem_cons_self
  contents := rfl
  indexes := Indexes.empty _
  maxSize := h.maxSize

/-- A key of a hash that is there: its entry is written over, and moved to the front. -/
theorem setItem_present (h : Represents c s items) {k : κ} (v : υ) {i : ℕ}
    (hk : c.map.lookup (PyHash.hash k) = some i) :
    ∃ c' items', c.setItem k v = .ok c' ∧ Represents c' (s.setItem k v) items' := by
  obtain ⟨front, back, before, e, after, hitems, -, hbefore, he, hafter, hfind, hothers⟩ :=
    h.found hk
  obtain ⟨links, hlinks, hring⟩ := changePointer_ring (hitems ▸ h.ring)
  have hout : i ∉ front ++ back := (List.nodup_middle.mp (hitems ▸ h.nodup)).notMem
  have hentries : (s.setItem k v).entries = ⟨k, v⟩ :: (before ++ after) := by
    have hcontains : s.contains k = true := by
      rw [LRUCache.contains, hfind]
      rfl
    rw [← hothers]
    exact if_pos hcontains
  have hresult : c.setItem k v = .ok { c with links, contents := c.store i k v } := by
    simp only [setItem, hk, hlinks]
    rfl
  refine ⟨_, _, hresult, h.moved hitems hring ?_ ?_ (LRUCache.maxSize_setItem s k v)⟩
  · rw [List.map_cons, c.map_store hout, store_self, hentries, List.map_append, hbefore, hafter,
      List.map_cons, List.map_append]
  · intro j hj
    by_cases hji : j = i
    · rw [hji, store_self, ((h.indexes _ i).mp hk).2]
      rfl
    · exact congrArg (Option.map Entry.hash) (Function.update_of_ne hji _ _)

/-- In a full cache there is an entry before `_head`. -/
theorem Represents.last (h : Represents c s items) (hfull : c.maxSize ≤ c.currentSize) :
    ∃ front i before e, items = front ++ [i] ∧ c.links.prev head = some i ∧
      s.entries = before ++ [e] ∧ front.map c.contents = before.map some ∧
      c.contents i = some e := by
  have hpos := s.maxSize_pos
  have hmax := h.maxSize
  have hsize := h.currentSize_eq
  have hne : items ≠ [] := List.ne_nil_of_length_pos (by omega)
  obtain ⟨front, i, hitems⟩ : ∃ front i, items = front ++ [i] :=
    ⟨_, _, (List.dropLast_append_getLast hne).symm⟩
  obtain ⟨before, e, after, hsplit, hbefore, he, hafter⟩ := h.split hitems
  obtain rfl : after = [] := List.map_eq_nil_iff.mp hafter.symm
  exact ⟨front, i, before, e, hitems, (hitems ▸ h.ring).prev_head, hsplit, hbefore, he⟩

/-- A key that is not there is put in front; when the cache is full the last entry goes. -/
theorem Represents.entries_setItem (h : Represents c s items) {k : κ} (v : υ)
    (hk : c.map.lookup (PyHash.hash k) = none) :
    (s.setItem k v).entries =
      if c.maxSize ≤ c.currentSize then ⟨k, v⟩ :: s.entries.dropLast else ⟨k, v⟩ :: s.entries := by
  have hcontains : ¬ s.contains k = true := by
    rw [← h.found_iff, hk]
    exact Bool.false_ne_true
  rw [h.maxSize, h.currentSize_eq']
  exact if_neg hcontains

/-- A new key in a full cache: the entry before `_head` is taken out of the map and written
over. -/
theorem setItem_full (h : Represents c s items) {k : κ} (v : υ)
    (hk : c.map.lookup (PyHash.hash k) = none) (hfull : c.maxSize ≤ c.currentSize) :
    ∃ c' items', c.setItem k v = .ok c' ∧ Represents c' (s.setItem k v) items' := by
  obtain ⟨front, i, before, e, hitems, hprev, hsplit, hbefore, he⟩ := h.last hfull
  obtain ⟨links, hlinks, hring⟩ := changePointer_ring (hitems ▸ h.ring)
  have hcode : c.hashOf i = some e.hash := congrArg (Option.map Entry.hash) he
  have hlookup : c.map.lookup e.hash = some i := by
    refine (h.indexes _ _).mpr ⟨?_, hcode⟩
    rw [hitems]
    exact List.mem_append_right _ List.mem_cons_self
  have hout : i ∉ front ++ [] := (List.nodup_middle.mp (hitems ▸ h.nodup)).notMem
  have hfree : (c.map.erase e.hash).lookup (PyHash.hash k) = none := by
    rw [AList.lookup_erase_ne, hk]
    intro heq
    rw [heq, hlookup] at hk
    cases hk
  have hentries : (s.setItem k v).entries = ⟨k, v⟩ :: before := by
    rw [h.entries_setItem v hk, if_pos hfull, hsplit, List.dropLast_concat]
  have hresult : c.setItem k v = .ok { c with
      links
      contents := c.store i k v
      map := (c.map.erase e.hash).insert (PyHash.hash k) i } := by
    simp only [setItem, hk, if_pos hfull, hprev, hcode, pop, hlookup, hlinks]
    rfl
  refine ⟨_, i :: (front ++ []), hresult, ?_⟩
  exact {
    ring := hring
    created := by
      intro j hj
      refine h.created j ?_
      rw [hitems]
      exact (List.perm_middle.cons head).mem_iff.mpr hj
    contents := by
      show (i :: (front ++ [])).map (c.store i k v) = _
      rw [List.map_cons, c.map_store hout, store_self, hentries, List.append_nil, hbefore,
        List.map_cons]
    indexes := by
      refine Indexes.insert ?_ hfree (congrArg (Option.map Entry.hash) (c.store_self i k v))
      exact (h.indexes_erase hitems hcode).congr (List.Perm.refl _) (c.code_store hout k v)
    maxSize := h.maxSize }

/-- A new key where there is room for it: an entry is created. -/
theorem setItem_room (h : Represents c s items) {k : κ} (v : υ)
    (hk : c.map.lookup (PyHash.hash k) = none) (hroom : ¬ c.maxSize ≤ c.currentSize) :
    ∃ c' items', c.setItem k v = .ok c' ∧ Represents c' (s.setItem k v) items' := by
  have hnew : c.created ∉ head :: items := fun hmem => Nat.lt_irrefl _ (h.created _ hmem)
  have hout : c.created ∉ items := fun hmem => hnew (List.mem_cons_of_mem _ hmem)
  obtain ⟨links, hlinks, hring⟩ := linkFirst_ring h.ring hnew
  have hentries : (s.setItem k v).entries = ⟨k, v⟩ :: s.entries := by
    rw [h.entries_setItem v hk, if_neg hroom]
  have hresult : c.setItem k v = .ok { c with
      links
      contents := c.store c.created k v
      created := c.created + 1
      map := c.map.insert (PyHash.hash k) c.created } := by
    simp only [setItem, hk, if_neg hroom, hlinks]
    rfl
  refine ⟨_, c.created :: items, hresult, ?_⟩
  exact {
    ring := hring
    created := by
      intro j hj
      rw [List.mem_cons, List.mem_cons, or_left_comm, ← List.mem_cons] at hj
      rcases hj with rfl | hj
      · exact Nat.lt_succ_self _
      · exact Nat.lt_succ_of_lt (h.created j hj)
    contents := by
      show (c.created :: items).map (c.store c.created k v) = _
      rw [List.map_cons, c.map_store hout, store_self, hentries, h.contents, List.map_cons]
    indexes := by
      refine Indexes.insert ?_ hk (congrArg (Option.map Entry.hash) (c.store_self _ k v))
      exact h.indexes.congr (List.Perm.refl _) (c.code_store hout k v)
    maxSize := h.maxSize }

theorem setItem_represents (h : Represents c s items) (k : κ) (v : υ) :
    ∃ c' items', c.setItem k v = .ok c' ∧ Represents c' (s.setItem k v) items' := by
  cases hk : c.map.lookup (PyHash.hash k) with
  | some i => exact setItem_present h v hk
  | none =>
      by_cases hfull : c.maxSize ≤ c.currentSize
      · exact setItem_full h v hk hfull
      · exact setItem_room h v hk hfull

/-- Either the key is not there, or its entry is moved to the front. -/
theorem getItem_represents (h : Represents c s items) (k : κ) :
    (c.getItem k = .error (keyError (PyHash.hash k)) ∧ s.getItem k = none) ∨
      ∃ v c' s' items', c.getItem k = .ok (some v, c') ∧ s.getItem k = some (v, s') ∧
        Represents c' s' items' := by
  cases hk : c.map.lookup (PyHash.hash k) with
  | none =>
      refine Or.inl ⟨?_, ?_⟩
      · simp only [getItem, hk]
      · rw [LRUCache.getItem, h.find_none hk]
        rfl
  | some i =>
      obtain ⟨front, back, before, e, after, hitems, -, hbefore, he, hafter, hfind, hothers⟩ :=
        h.found hk
      obtain ⟨links, hlinks, hring⟩ := changePointer_ring (hitems ▸ h.ring)
      have hentries : (s.touch k).entries = e :: (before ++ after) := by
        rw [← hothers]
        exact LRUCache.entries_touch hfind
      have hresult : c.getItem k = .ok (some e.value, { c with links }) := by
        simp only [getItem, hk, hlinks, he]
        rfl
      refine Or.inr ⟨e.value, _, s.touch k, _, hresult, ?_,
        h.moved hitems hring ?_ (fun _ _ => rfl) (LRUCache.maxSize_touch s k)⟩
      · rw [LRUCache.getItem, hfind]
        rfl
      · rw [hentries, List.map_cons, List.map_append, he, hbefore, hafter, List.map_cons,
          List.map_append]

/-- Either the key is not there, or its entry is taken out of the ring. -/
theorem delItem_represents (h : Represents c s items) (k : κ) :
    (c.delItem k = .error (keyError (PyHash.hash k)) ∧ s.delItem k = none) ∨
      ∃ c' items', c.delItem k = .ok c' ∧ s.delItem k = some (s.erase k) ∧
        Represents c' (s.erase k) items' := by
  have hfound := h.found_iff k
  cases hk : c.map.lookup (PyHash.hash k) with
  | none =>
      rw [hk] at hfound
      refine Or.inl ⟨?_, ?_⟩
      · simp only [delItem, pop, hk, bind, Except.bind]
      · rw [LRUCache.delItem, ← hfound]
        rfl
  | some i =>
      rw [hk] at hfound
      obtain ⟨front, back, before, e, after, hitems, -, hbefore, he, hafter, -, hothers⟩ :=
        h.found hk
      obtain ⟨links, hlinks, hring⟩ := unlink_ring (hitems ▸ h.ring)
      have hresult : c.delItem k =
          .ok { c with links, map := c.map.erase (PyHash.hash k) } := by
        simp only [delItem, pop, hk, bind, Except.bind, hlinks]
        rfl
      refine Or.inr ⟨_, front ++ back, hresult, ?_, ?_⟩
      · rw [LRUCache.delItem, ← hfound]
        rfl
      · exact {
          ring := hring
          created := by
            intro j hj
            refine h.created j ?_
            rw [hitems]
            refine List.Sublist.subset ?_ hj
            exact ((List.sublist_cons_self i back).append_left front).cons_cons head
          contents := by
            show (front ++ back).map c.contents = (s.others k).map some
            rw [hothers, List.map_append, hbefore, hafter, List.map_append]
          indexes := h.indexes_erase hitems ((h.indexes _ i).mp hk).2
          maxSize := h.maxSize }

end LinkedLRUCache

/-! ## Sequences of operations -/

namespace LinkedLRUCache

variable {κ υ : Type} [PyHash κ]

/-- An operation that may raise; nothing has been written then. -/
def attempt (c : LinkedLRUCache κ υ) (result : Except Exc (Option υ × LinkedLRUCache κ υ)) :
    Except Exc (Reply υ) × LinkedLRUCache κ υ :=
  match result with
  | .ok (value, c') => (.ok (.item value), c')
  | .error ex => (.error ex, c)

/-- The same operation on the links. -/
def call (op : LRUCache.Op κ υ) (c : LinkedLRUCache κ υ) :
    Except Exc (Reply υ) × LinkedLRUCache κ υ :=
  match op with
  | .setItem k v => c.attempt ((c.setItem k v).map (none, ·))
  | .getItem k => c.attempt (c.getItem k)
  | .delItem k => c.attempt ((c.delItem k).map (none, ·))
  | .contains k => (.ok (.present (c.contains k)), c)
  | .clear => (.ok (.item none), c.clear)

variable {c : LinkedLRUCache κ υ} {s : LRUCache κ υ} {items : List ℕ}

theorem call_represents (h : Represents c s items) (op : LRUCache.Op κ υ) :
    (call op c).1 = (LRUCache.call op s).1 ∧
      ∃ items', Represents (call op c).2 (LRUCache.call op s).2 items' := by
  cases op with
  | setItem k v =>
      obtain ⟨c', items', hset, h'⟩ := setItem_represents h k v
      simp only [call, hset, Except.map, attempt]
      exact ⟨rfl, items', h'⟩
  | getItem k =>
      rcases getItem_represents h k with ⟨hc, hs⟩ | ⟨v, c', s', items', hc, hs, h'⟩
      · simp only [call, hc, attempt, LRUCache.call, LRUCache.apply, hs]
        exact ⟨trivial, items, h⟩
      · simp only [call, hc, attempt, LRUCache.call, LRUCache.apply, hs]
        exact ⟨trivial, items', h'⟩
  | delItem k =>
      rcases delItem_represents h k with ⟨hc, hs⟩ | ⟨c', items', hc, hs, h'⟩
      · have hcontains : ¬ s.contains k = true := by
          intro htrue
          rw [LRUCache.delItem, if_pos htrue] at hs
          cases hs
        simp only [call, hc, Except.map, attempt, LRUCache.call, LRUCache.apply, hs,
          if_neg hcontains]
        exact ⟨trivial, items, h⟩
      · have hcontains : s.contains k = true := by
          by_contra hfalse
          rw [LRUCache.delItem, if_neg hfalse] at hs
          cases hs
        simp only [call, hc, Except.map, attempt, LRUCache.call, LRUCache.apply, hs,
          if_pos hcontains]
        exact ⟨trivial, items', h'⟩
  | contains k =>
      refine ⟨?_, items, h⟩
      exact congrArg (fun found => Except.ok (Reply.present found)) (h.found_iff k)
  | clear => exact ⟨rfl, [], clear_represents h⟩

theorem run_represents (maxSize : Option ℤ) (ops : List (LRUCache.Op κ υ)) :
    (Calls.run call ops (new maxSize : LinkedLRUCache κ υ)).1 =
        (Calls.run LRUCache.call ops
          (LRUCache.new (some (new maxSize : LinkedLRUCache κ υ).maxSize))).1 ∧
      ∃ items, Represents (Calls.run call ops (new maxSize)).2
        (Calls.run LRUCache.call ops
          (LRUCache.new (some (new maxSize : LinkedLRUCache κ υ).maxSize))).2 items :=
  Calls.run_refines (R := fun c s => ∃ items, Represents c s items)
    (fun op _ _ ⟨_, h⟩ => call_represents h op) ops ⟨[], new_represents maxSize⟩

end LinkedLRUCache

/-! ## Iteration -/

namespace LinkedLRUCache

variable {κ υ : Type}

theorem iterLoop_chain {c : LinkedLRUCache κ υ} {start : Option ℕ} {cells : List ℕ}
    {entries : List (Entry κ υ)} (hchain : Chain (ringLink head) c.links.prev start cells)
    (hhead : head ∉ cells) (hcontents : cells.map c.contents = entries.map some) {rounds : ℕ}
    (hrounds : cells.length < rounds) :
    c.iterLoop rounds start = some (entries.map fun e => (e.key, e.value)) := by
  obtain ⟨rounds, rfl⟩ := Nat.exists_eq_add_one_of_ne_zero (Nat.ne_zero_of_lt hrounds)
  induction cells generalizing start entries rounds with
  | nil =>
      have hnil : entries = [] := List.map_eq_nil_iff.mp hcontents.symm
      rw [hnil, show start = some head from hchain]
      exact if_pos rfl
  | cons i cells ih =>
      obtain ⟨hstart, hchain⟩ := hchain
      rw [List.mem_cons, not_or] at hhead
      rw [List.map_cons, eq_comm, List.map_eq_cons_iff] at hcontents
      obtain ⟨e, entries, rfl, he, hentries⟩ := hcontents
      rw [List.length_cons] at hrounds
      obtain ⟨rounds, rfl⟩ := Nat.exists_eq_add_one_of_ne_zero (show rounds ≠ 0 by omega)
      have hrest := ih hchain hhead.2 hentries.symm rounds (by omega)
      rw [show start = some i from hstart, iterLoop, if_neg (Ne.symm hhead.1)]
      simp only [← he, hrest]
      rfl

variable [PyHash κ] {c : LinkedLRUCache κ υ} {s : LRUCache κ υ} {items : List ℕ}

/-- The loop ends, and it has yielded the entries backwards. -/
theorem iteritems_represents (h : Represents c s items) {rounds : ℕ}
    (hrounds : items.length < rounds) : c.iteritems rounds = some s.iteritems := by
  refine iterLoop_chain h.ring.chain_prev ?_ ?_ ?_
  · rw [List.mem_reverse]
    exact (List.nodup_cons.mp h.ring.nodup).1
  · rw [List.map_reverse, List.map_reverse, h.contents]
  · rwa [List.length_reverse]

/-- What is so of a cache in which these hashes have been used, in this order: its ring and its
map, and what an iteration yields. -/
structure Sound (c : LinkedLRUCache κ υ) (uses : List ℤ) (items : List ℕ) (pairs : List (κ × υ)) :
    Prop where
  ring : IsRing c.links head items
  values : (c.map.entries.map Sigma.snd).Perm items
  ownHash : ∀ code i, c.map.lookup code = some i → c.hashOf i = some code
  size : items.length ≤ c.maxSize
  yields : ∀ rounds, items.length < rounds → c.iteritems rounds = some pairs
  backwards : pairs.map (fun p => some ⟨p.1, p.2⟩) = items.reverse.map c.contents
  recency : (pairs.map fun p => PyHash.hash p.1).Sublist uses.dedup
  kickedOut : ∀ i, c.willBeKickedOut = some i → ∀ k v, c.contains k = false →
    ∃ e rest c', c.contents i = some e ∧ items.getLast? = some i ∧
      pairs = (e.key, e.value) :: rest ∧ c.setItem k v = .ok c' ∧
      ∀ rounds, items.length < rounds → c'.iteritems rounds = some (rest ++ [(k, v)])

/-- In a full cache a new key takes the place of the entry that has not been used for the
longest time. -/
theorem kickedOut_represents (h : Represents c s items) {i : ℕ} (hout : c.willBeKickedOut = some i)
    {k : κ} (v : υ) (hk : c.contains k = false) :
    ∃ e rest c', c.contents i = some e ∧ items.getLast? = some i ∧
      s.iteritems = (e.key, e.value) :: rest ∧ c.setItem k v = .ok c' ∧
      ∀ rounds, items.length < rounds → c'.iteritems rounds = some (rest ++ [(k, v)]) := by
  unfold willBeKickedOut at hout
  split at hout
  · cases hout
  · next hroom =>
      have hfull : c.maxSize ≤ c.currentSize := Nat.le_of_not_lt hroom
      have hlookup : c.map.lookup (PyHash.hash k) = none := Option.isNone_iff_eq_none.mp (by
        rw [← Option.not_isSome, ← contains, hk]
        rfl)
      obtain ⟨front, j, before, e, hitems, hprev, hsplit, _, he⟩ := h.last hfull
      obtain rfl : j = i := Option.some.inj (hprev.symm.trans hout)
      obtain ⟨c', items', hset, h'⟩ := setItem_represents h k v
      have hentries : (s.setItem k v).entries = ⟨k, v⟩ :: before := by
        rw [h.entries_setItem v hlookup, if_pos hfull, hsplit, List.dropLast_concat]
      refine ⟨e, before.reverse.map fun e => (e.key, e.value), c', he, ?_, ?_, hset, ?_⟩
      · rw [hitems, List.getLast?_concat]
      · rw [LRUCache.iteritems, hsplit, List.reverse_append]
        rfl
      · intro rounds hrounds
        have hlength := h.length_eq
        have hlength' := h'.length_eq
        rw [hentries, List.length_cons] at hlength'
        rw [hsplit, List.length_append, List.length_singleton] at hlength
        rw [iteritems_represents h' (by omega), LRUCache.iteritems, hentries, List.reverse_cons,
          List.map_append]
        rfl

theorem Represents.sound (h : Represents c s items) {uses : List ℤ}
    (huses : s.order.Sublist uses.dedup) : Sound c uses items s.iteritems where
  ring := h.ring
  values := h.values
  ownHash := fun code i hlookup => ((h.indexes code i).mp hlookup).2
  size := by
    rw [h.length_eq, h.maxSize]
    exact s.length_le
  yields := fun _ hrounds => iteritems_represents h hrounds
  backwards := by
    rw [List.map_reverse, h.contents, LRUCache.iteritems, List.map_map, List.map_reverse]
    rfl
  recency := by
    rw [← s.order_eq]
    exact huses
  kickedOut := fun _ hout _ v hk => kickedOut_represents h hout v hk

/-- Any sequence of operations, from an empty cache on: it returns and raises what it does on
the list of entries, and the ring and the map are in order afterwards. -/
theorem links_refine_entries (maxSize : Option ℤ) (ops : List (LRUCache.Op κ υ)) :
    (Calls.run call ops (new maxSize : LinkedLRUCache κ υ)).1 =
        (Calls.run LRUCache.call ops
          (LRUCache.new (some (new maxSize : LinkedLRUCache κ υ).maxSize))).1 ∧
      (Calls.run call ops (new maxSize : LinkedLRUCache κ υ)).2.maxSize =
        (new maxSize : LinkedLRUCache κ υ).maxSize ∧
      ∃ items pairs, Sound (Calls.run call ops (new maxSize : LinkedLRUCache κ υ)).2
        (LRUCache.uses ops) items pairs := by
  obtain ⟨hreplies, items, h⟩ := run_represents (υ := υ) maxSize ops
  have hmax := h.maxSize.trans (LRUCache.maxSize_run ops _)
  refine ⟨hreplies, hmax.trans (new_represents maxSize).maxSize.symm, items, _, h.sound ?_⟩
  exact LRUCache.order_run ops [] (List.Sublist.refl _)

/-- Setting and getting, in a cache of three. -/
example : (Calls.run call [.setItem 1 1, .setItem 2 2, .setItem 3 3, .getItem 1, .setItem 4 4]
    (new (some 3) : LinkedLRUCache ℕ ℕ)).2.iteritems 4 = some [(3, 3), (1, 1), (4, 4)] := by
  decide

end LinkedLRUCache

end SummerRpc
