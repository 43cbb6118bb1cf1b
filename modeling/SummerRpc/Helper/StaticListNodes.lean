import SummerRpc.Helper.StaticList
import SummerRpc.Lib.Calls
import SummerRpc.Lib.Chain
import Mathlib.Data.List.Nodup

/-! # The nodes of a `StaticList`

`StaticList` of `helper/list.py` as it is stored: an array of nodes with the index of the
next one in each, and two more nodes from which the elements and the free nodes are reached.

* `NodeList`, with `insertLeft`, `popLeft`, `peekLeft`, `isFull`: the array and its two chains;
* `Represents`: the two chains share out the nodes, and one of them is the list;
* `insertLeft_represents`, `popLeft_represents`: the operations keep it;
* `nodes_refine_stack`: any sequence of operations.
-/

namespace SummerRpc

open Linked

/-- `Node`; `-1` is the index of no node. -/
structure Node (α : Type) where
  element : Option α := none
  next : ℤ := -1

/-- `StaticList`: `_nodes`, `_head`, `_space` and `_current_size`. -/
structure NodeList (α : Type) where
  nodes : List (Node α)
  head : Node α
  space : Node α
  currentSize : ℕ

namespace NodeList

variable {α : Type}

/-- `IndexError` -/
def indexError : Exc := { cls := .indexError, msg := "list index out of range" }

def listFull : Exc := { cls := .listFullError, msg := "list is full" }

def listEmpty : Exc := { cls := .listEmptyError, msg := "list is empty" }

/-- `StaticList(max_size)` -/
def new (maxSize : ℕ) : NodeList α where
  nodes := (List.range maxSize).map fun ind : ℕ =>
    { next := if ind + 1 < maxSize then (ind : ℤ) + 1 else -1 }
  head := {}
  space := { next := 0 }
  currentSize := 0

/-- The position an index of a list stands for; a negative one counts from the end. -/
def position (length : ℕ) (index : ℤ) : Option ℕ :=
  if 0 ≤ index then if index < length then some index.toNat else none
  else if -length ≤ index then some (index + length).toNat else none

/-- `self._nodes[index]`, with its position. -/
def nodeAt (l : NodeList α) (index : ℤ) : Except Exc (ℕ × Node α) :=
  match (position l.nodes.length index).bind fun i => l.nodes[i]?.map (i, ·) with
  | some found => .ok found
  | none => .error indexError

/-- `insert_left` -/
def insertLeft (l : NodeList α) (element : α) : Except Exc Unit × NodeList α :=
  let nodeIndex := l.space.next
  if nodeIndex = -1 then (.error listFull, l)
  else
    match l.nodeAt nodeIndex with
    | .error ex => (.error ex, l)
    | .ok (i, node) =>
      (.ok (), {
        nodes := l.nodes.set i { element := some element, next := l.head.next }
        head := { l.head with next := nodeIndex }
        space := { l.space with next := node.next }
        currentSize := l.currentSize + 1 })

/-- `pop_left` -/
def popLeft (l : NodeList α) : Except Exc (Option α) × NodeList α :=
  if l.currentSize ≤ 0 then (.error listEmpty, l)
  else
    let nodeIndex := l.head.next
    match l.nodeAt nodeIndex with
    | .error ex => (.error ex, l)
    | .ok (i, node) =>
      (.ok node.element, {
        nodes := l.nodes.set i { node with next := l.space.next }
        head := { l.head with next := node.next }
        space := { l.space with next := nodeIndex }
        currentSize := l.currentSize - 1 })

/-- `peek_left` -/
def peekLeft (l : NodeList α) : Except Exc (Option α) :=
  if l.currentSize ≤ 0 then .error listEmpty
  else (l.nodeAt l.head.next).map fun found => found.2.element

/-- `is_full`: whether `_space.next` is `None`, where it is a number. -/
def isFull (l : NodeList α) : Bool := (some l.space.next).isNone

/-! ## The two chains -/

/-- How the index of a node, or the end of a chain, is written. -/
def link : Option ℕ → ℤ
  | none => -1
  | some i => i

theorem link_injective : Function.Injective link := by
  intro i j h
  cases i with
  | none =>
      cases j with
      | none => rfl
      | some j =>
          simp only [link] at h
          omega
  | some i =>
      cases j with
      | none =>
          simp only [link] at h
          omega
      | some j =>
          simp only [link] at h
          congr 1
          omega

theorem link_ne (i : ℕ) : ¬ link (some i) = -1 := by
  simp only [link]
  omega

/-- What is written in the node at a position. -/
def next (l : NodeList α) (i : ℕ) : ℤ := (l.nodes[i]?.getD {}).next

def elementOf (l : NodeList α) (i : ℕ) : Option α := (l.nodes[i]?.getD {}).element

/-- The nodes from `_head` on are `used` and those from `_space` on are `free`: each node is
in one of the two chains, once. -/
structure Partition (l : NodeList α) (used free : List ℕ) : Prop where
  usedChain : Chain link l.next l.head.next used
  freeChain : Chain link l.next l.space.next free
  perm : (used ++ free).Perm (List.range l.nodes.length)
  size : l.currentSize = used.length

/-- And the elements of the first chain are those of the list. -/
structure Represents (l : NodeList α) (s : StaticList α) (used free : List ℕ) : Prop extends
    Partition l used free where
  maxSize : l.nodes.length = s.maxSize
  elements : used.map l.elementOf = s.elements.map some

/-- A node in a chain is found by its index. -/
theorem nodeAt_link {l : NodeList α} {i : ℕ} (h : i < l.nodes.length) :
    l.nodeAt (link (some i)) = .ok (i, l.nodes[i]) := by
  have hposition : position l.nodes.length (i : ℤ) = some i := by
    rw [position, if_pos (Int.natCast_nonneg i), if_pos (Int.ofNat_lt.mpr h), Int.toNat_natCast]
  change l.nodeAt (i : ℤ) = _
  rw [nodeAt, hposition]
  simp only [Option.bind_some, List.getElem?_eq_getElem h, Option.map_some]

theorem next_of_lt {l : NodeList α} {i : ℕ} (h : i < l.nodes.length) :
    l.nodes[i].next = l.next i := by
  rw [next, List.getElem?_eq_getElem h]
  rfl

theorem elementOf_of_lt {l : NodeList α} {i : ℕ} (h : i < l.nodes.length) :
    l.nodes[i].element = l.elementOf i := by
  rw [elementOf, List.getElem?_eq_getElem h]
  rfl

section Written

variable {l l' : NodeList α} {i : ℕ} {node : Node α} (h : i < l.nodes.length)
  (hnodes : l'.nodes = l.nodes.set i node)

include h hnodes

/-- A node that is written to has a new link, and the others have theirs. -/
theorem next_set : l'.next = Function.update l.next i node.next := by
  funext j
  rw [next, hnodes]
  by_cases hj : j = i
  · rw [hj, List.getElem?_set_self h, Function.update_self]
    rfl
  · rw [List.getElem?_set_ne (Ne.symm hj), Function.update_of_ne hj]
    rfl

theorem elementOf_set_self : l'.elementOf i = node.element := by
  rw [elementOf, hnodes, List.getElem?_set_self h]
  rfl

omit h in
theorem elementOf_set_of_ne {j : ℕ} (hj : j ≠ i) : l'.elementOf j = l.elementOf j := by
  rw [elementOf, hnodes, List.getElem?_set_ne (Ne.symm hj)]
  rfl

end Written

/-! ## The operations -/

theorem Partition.lt {l : NodeList α} {used free : List ℕ} (h : Partition l used free) {i : ℕ}
    (hi : i ∈ used ∨ i ∈ free) : i < l.nodes.length :=
  List.mem_range.mp (h.perm.mem_iff.mp (List.mem_append.mpr hi))

theorem Partition.nodup {l : NodeList α} {used free : List ℕ} (h : Partition l used free) :
    (used ++ free).Nodup := h.perm.nodup_iff.mpr List.nodup_range

/-- There are free nodes until all nodes are in use. -/
theorem Partition.length {l : NodeList α} {used free : List ℕ} (h : Partition l used free) :
    used.length + free.length = l.nodes.length := by
  rw [← List.length_append, h.perm.length_eq, List.length_range]

/-- The links say which nodes are in which chain. -/
theorem Partition.unique {l : NodeList α} {used free used' free' : List ℕ}
    (h : Partition l used free) (h' : Partition l used' free') : used = used' ∧ free = free' :=
  ⟨h.usedChain.unique link_injective h'.usedChain, h.freeChain.unique link_injective h'.freeChain⟩

theorem Represents.length {l : NodeList α} {s : StaticList α} {used free : List ℕ}
    (h : Represents l s used free) : used.length = s.elements.length := by
  have hlength := congrArg List.length h.elements
  rwa [List.length_map, List.length_map] at hlength

/-- At first all nodes are free, in their order. -/
theorem new_represents {maxSize : ℕ} (h : 0 < maxSize) :
    Represents (NodeList.new maxSize : NodeList α) (StaticList.new maxSize h) []
      (List.range maxSize) := by
  have hlength : (NodeList.new maxSize : NodeList α).nodes.length = maxSize := by
    rw [NodeList.new, List.length_map, List.length_range]
  have hnext : ∀ i < maxSize, (NodeList.new maxSize : NodeList α).next i =
      if i + 1 < maxSize then (i : ℤ) + 1 else -1 := by
    intro i hi
    rw [next, NodeList.new, List.getElem?_map, List.getElem?_range hi]
    rfl
  refine ⟨⟨rfl, ?_, ?_, rfl⟩, hlength, rfl⟩
  · obtain ⟨count, rfl⟩ := Nat.exists_eq_succ_of_ne_zero (Nat.ne_of_gt h)
    rw [List.range_eq_range']
    refine chain_range' 0 count (fun i hi => ?_) ?_
    · rw [hnext i (by omega), if_pos (by omega)]
      rfl
    · rw [hnext _ (by omega), if_neg (by omega)]
      rfl
  · rw [List.nil_append, hlength]

/-- `insert_left` moves the first free node to the front of the list; when there is none it
raises, and changes nothing. -/
theorem insertLeft_represents {l : NodeList α} {s : StaticList α} {used free : List ℕ}
    (h : Represents l s used free) (element : α) :
    (free = [] ∧ l.insertLeft element = (.error listFull, l) ∧
        s.insertLeft element = .error listFull) ∨
      ∃ i free' l' s', free = i :: free' ∧ l.insertLeft element = (.ok (), l') ∧
        s.insertLeft element = .ok s' ∧ Represents l' s' (i :: used) free' := by
  have hcount := h.length
  have htotal := h.toPartition.length
  have hmax := h.maxSize
  cases free with
  | nil =>
      refine Or.inl ⟨rfl, ?_, ?_⟩
      · have hspace : l.space.next = -1 := h.freeChain
        rw [insertLeft, if_pos hspace]
      · rw [List.length_nil] at htotal
        rw [StaticList.insertLeft, dif_neg (by omega)]
        rfl
  | cons i free =>
      obtain ⟨hspace, hfree⟩ := h.freeChain
      have hi : i < l.nodes.length := h.lt (Or.inr List.mem_cons_self)
      have hnodup := List.nodup_middle.mp h.nodup
      rw [List.nodup_cons, List.mem_append, not_or] at hnodup
      have hroom : s.elements.length < s.maxSize := by
        rw [List.length_cons] at htotal
        omega
      have hinsert : l.insertLeft element = (.ok (), {
          nodes := l.nodes.set i { element := some element, next := l.head.next }
          head := { l.head with next := link (some i) }
          space := { l.space with next := l.nodes[i].next }
          currentSize := l.currentSize + 1 }) := by
        simp only [insertLeft, hspace, if_neg (link_ne i), nodeAt_link hi]
      refine Or.inr ⟨i, free, _, _, rfl, hinsert, dif_pos hroom, ?_⟩
      have hnodes : (l.nodes.set i { element := some element, next := l.head.next }).length =
          l.nodes.length := List.length_set
      refine ⟨⟨?_, ?_, ?_, congrArg (· + 1) h.size⟩, hnodes.trans hmax, ?_⟩
      · rw [next_set hi rfl]
        exact h.usedChain.push hnodup.1.1
      · rw [next_set hi rfl, next_of_lt hi]
        exact hfree.update hnodup.1.2 _
      · rw [hnodes]
        exact List.perm_middle.symm.trans h.perm
      · rw [List.map_cons, elementOf_set_self hi rfl]
        refine congrArg _ (Eq.trans (List.map_congr_left fun j hj => ?_) h.elements)
        exact elementOf_set_of_ne rfl (ne_of_mem_of_not_mem hj hnodup.1.1)

/-- Either both are empty, or the node from `_head` on holds the first element. -/
theorem Represents.first {l : NodeList α} {s : StaticList α} {used free : List ℕ}
    (h : Represents l s used free) :
    (used = [] ∧ s.elements = [] ∧ l.currentSize ≤ 0) ∨
      ∃ i used' e es, ∃ hi : i < l.nodes.length, used = i :: used' ∧ s.elements = e :: es ∧
        ¬ l.currentSize ≤ 0 ∧ l.head.next = link (some i) ∧
        Chain link l.next (l.next i) used' ∧ l.nodes[i].element = some e ∧
        used'.map l.elementOf = es.map some := by
  have hsize := h.size
  have helements := h.elements
  cases used with
  | nil => exact Or.inl ⟨rfl, List.map_eq_nil_iff.mp helements.symm, Nat.le_of_eq hsize⟩
  | cons i used =>
      obtain ⟨hhead, hused⟩ := h.usedChain
      have hi : i < l.nodes.length := h.lt (Or.inl List.mem_cons_self)
      rw [List.map_cons, eq_comm, List.map_eq_cons_iff] at helements
      obtain ⟨e, es, hcons, he, hes⟩ := helements
      rw [List.length_cons] at hsize
      refine Or.inr ⟨i, used, e, es, hi, rfl, hcons, by omega, hhead, hused, ?_, hes.symm⟩
      exact (elementOf_of_lt hi).trans he.symm

/-- `pop_left` moves the first node of the list to the front of the free ones, and returns its
element; when the list is empty it raises, and changes nothing. -/
theorem popLeft_represents {l : NodeList α} {s : StaticList α} {used free : List ℕ}
    (h : Represents l s used free) :
    (used = [] ∧ l.popLeft = (.error listEmpty, l) ∧ s.popLeft = .error listEmpty) ∨
      ∃ i used' e l' s', used = i :: used' ∧ l.popLeft = (.ok (some e), l') ∧
        s.popLeft = .ok (e, s') ∧ Represents l' s' used' (i :: free) := by
  rcases h.first with ⟨rfl, hnil, hsize⟩ |
    ⟨i, used', e, es, hi, rfl, hcons, hsize, hhead, hused, helement, helements⟩
  · exact Or.inl ⟨rfl, if_pos hsize, StaticList.popLeft_nil hnil⟩
  · have hnodup := h.nodup
    rw [List.cons_append, List.nodup_cons, List.mem_append, not_or] at hnodup
    have hpop : l.popLeft = (.ok (some e), {
        nodes := l.nodes.set i { l.nodes[i] with next := l.space.next }
        head := { l.head with next := l.nodes[i].next }
        space := { l.space with next := link (some i) }
        currentSize := l.currentSize - 1 }) := by
      simp only [popLeft, if_neg hsize, hhead, nodeAt_link hi, helement]
    obtain ⟨s', hs, hmax, hes⟩ := StaticList.popLeft_cons hcons
    refine Or.inr ⟨i, used', e, _, s', rfl, hpop, hs, ?_⟩
    have hnodes : (l.nodes.set i { l.nodes[i] with next := l.space.next }).length =
        l.nodes.length := List.length_set
    refine ⟨⟨?_, ?_, ?_, ?_⟩, hnodes.trans (h.maxSize.trans hmax.symm), ?_⟩
    · rw [next_set hi rfl, next_of_lt hi]
      exact hused.update hnodup.1.1 _
    · rw [next_set hi rfl]
      exact h.freeChain.push hnodup.1.2
    · rw [hnodes]
      exact List.perm_middle.trans h.perm
    · exact Nat.sub_eq_of_eq_add h.size
    · rw [hes, ← helements]
      exact List.map_congr_left fun j hj =>
        elementOf_set_of_ne rfl (ne_of_mem_of_not_mem hj hnodup.1.1)

theorem peekLeft_represents {l : NodeList α} {s : StaticList α} {used free : List ℕ}
    (h : Represents l s used free) :
    (used = [] ∧ l.peekLeft = .error listEmpty ∧ s.peekLeft = .error listEmpty) ∨
      ∃ i used' e, used = i :: used' ∧ l.peekLeft = .ok (some e) ∧ s.peekLeft = .ok e := by
  rcases h.first with ⟨rfl, hnil, hsize⟩ |
    ⟨i, used', e, es, hi, rfl, hcons, hsize, hhead, _, helement, _⟩
  · refine Or.inl ⟨rfl, if_pos hsize, ?_⟩
    rw [StaticList.peekLeft, hnil]
    rfl
  · refine Or.inr ⟨i, used', e, rfl, ?_, ?_⟩
    · rw [peekLeft, if_neg hsize, hhead, nodeAt_link hi]
      exact congrArg Except.ok helement
    · rw [StaticList.peekLeft, hcons]

end NodeList

/-! ## Sequences of calls -/

/-- A call of one of the operations. -/
inductive ListCall (α : Type) where
  | insertLeft (element : α)
  | popLeft
  | peekLeft
deriving DecidableEq, Repr

/-- A call on the nodes. `insert_left` returns `None`. -/
def NodeList.call {α : Type} : ListCall α → NodeList α → Except Exc (Option α) × NodeList α
  | .insertLeft element, l => ((l.insertLeft element).1.map fun _ => none, (l.insertLeft element).2)
  | .popLeft, l => l.popLeft
  | .peekLeft, l => (l.peekLeft, l)

/-- The same call on the list used as a stack. -/
def StaticList.call {α : Type} : ListCall α → StaticList α → Except Exc (Option α) × StaticList α
  | .insertLeft element, s =>
    match s.insertLeft element with
    | .ok s' => (.ok none, s')
    | .error ex => (.error ex, s)
  | .popLeft, s =>
    match s.popLeft with
    | .ok (e, s') => (.ok (some e), s')
    | .error ex => (.error ex, s)
  | .peekLeft, s => (s.peekLeft.map some, s)

theorem StaticList.maxSize_call {α : Type} (op : ListCall α) (s : StaticList α) :
    (StaticList.call op s).2.maxSize = s.maxSize := by
  cases op with
  | insertLeft element =>
      cases h : s.insertLeft element with
      | error ex => simp only [call, h]
      | ok s' => simp only [call, h, (StaticList.insertLeft_ok h).1]
  | popLeft =>
      cases h : s.popLeft with
      | error ex => simp only [call, h]
      | ok popped => simp only [call, h, (StaticList.popLeft_ok h).1]
  | peekLeft => rfl

theorem StaticList.maxSize_run {α : Type} (ops : List (ListCall α)) (s : StaticList α) :
    (Calls.run StaticList.call ops s).2.maxSize = s.maxSize :=
  Calls.run_invariant (P := fun t => t.maxSize = s.maxSize)
    (fun op t ht => (StaticList.maxSize_call op t).trans ht) ops rfl

namespace NodeList

variable {α : Type} {l : NodeList α} {s : StaticList α} {used free : List ℕ}

/-- A call on the nodes does what it does to the stack. -/
theorem call_represents (h : Represents l s used free) (op : ListCall α) :
    (call op l).1 = (StaticList.call op s).1 ∧
      ∃ used' free', Represents (call op l).2 (StaticList.call op s).2 used' free' := by
  cases op with
  | insertLeft element =>
      rcases insertLeft_represents h element with
        ⟨_, hl, hs⟩ | ⟨i, free', l', s', _, hl, hs, hnext⟩
      · simp only [call, StaticList.call, hl, hs]
        exact ⟨rfl, used, free, h⟩
      · simp only [call, StaticList.call, hl, hs]
        exact ⟨rfl, _, _, hnext⟩
  | popLeft =>
      rcases popLeft_represents h with ⟨_, hl, hs⟩ | ⟨i, used', e, l', s', _, hl, hs, hnext⟩
      · simp only [call, StaticList.call, hl, hs]
        exact ⟨trivial, used, free, h⟩
      · simp only [call, StaticList.call, hl, hs]
        exact ⟨trivial, _, _, hnext⟩
  | peekLeft =>
      rcases peekLeft_represents h with ⟨_, hl, hs⟩ | ⟨i, used', e, _, hl, hs⟩
      · simp only [call, StaticList.call, hl, hs]
        exact ⟨rfl, used, free, h⟩
      · simp only [call, StaticList.call, hl, hs]
        exact ⟨rfl, used, free, h⟩

theorem run_represents (h : Represents l s used free) (ops : List (ListCall α)) :
    (Calls.run call ops l).1 = (Calls.run StaticList.call ops s).1 ∧
      ∃ used' free', Represents (Calls.run call ops l).2
        (Calls.run StaticList.call ops s).2 used' free' :=
  Calls.run_refines (R := fun l s => ∃ used free, Represents l s used free)
    (fun op _ _ ⟨_, _, h⟩ => call_represents h op) ops ⟨used, free, h⟩

/-- The operations raise when the stack has `max_size` elements or none, without changing
anything, and only then; otherwise `pop_left` and `peek_left` return its first element. -/
structure Raises (l : NodeList α) (s : StaticList α) : Prop where
  full : ∀ element, s.elements.length = s.maxSize → l.insertLeft element = (.error listFull, l)
  room : ∀ element, s.elements.length ≠ s.maxSize → (l.insertLeft element).1 = .ok ()
  empty : s.elements = [] → l.popLeft = (.error listEmpty, l) ∧ l.peekLeft = .error listEmpty
  first : ∀ e es, s.elements = e :: es → l.popLeft.1 = .ok (some e) ∧ l.peekLeft = .ok (some e)

theorem Represents.raises (h : Represents l s used free) : Raises l s := by
  have hused := h.length
  have htotal := h.toPartition.length
  have hmax := h.maxSize
  refine ⟨fun element hfull => ?_, fun element hroom => ?_, fun hempty => ?_, fun e es hcons => ?_⟩
  · rcases insertLeft_represents h element with ⟨_, hl, _⟩ | ⟨i, free', _, _, rfl, _⟩
    · exact hl
    · rw [List.length_cons] at htotal
      omega
  · rcases insertLeft_represents h element with ⟨rfl, _, _⟩ | ⟨_, _, _, _, _, hl, _⟩
    · rw [List.length_nil] at htotal
      omega
    · rw [hl]
  · rcases popLeft_represents h with ⟨_, hpop, _⟩ | ⟨i, used', _, _, _, rfl, _⟩
    · rcases peekLeft_represents h with ⟨_, hpeek, _⟩ | ⟨i, used', _, rfl, _⟩
      · exact ⟨hpop, hpeek⟩
      · rw [hempty, List.length_cons] at hused
        cases hused
    · rw [hempty, List.length_cons] at hused
      cases hused
  · rcases popLeft_represents h with ⟨rfl, _⟩ | ⟨_, _, e', _, _, _, hpop, hs, _⟩
    · rw [hcons, List.length_cons] at hused
      cases hused
    · rcases peekLeft_represents h with ⟨rfl, _⟩ | ⟨_, _, e'', _, hpeek, hs'⟩
      · rw [hcons, List.length_cons] at hused
        cases hused
      · have he := (StaticList.popLeft_ok hs).2
        rw [StaticList.peekLeft, hcons] at hs'
        rw [hcons, List.cons.injEq] at he
        cases hs'
        rw [hpop, hpeek, he.1]
        exact ⟨rfl, rfl⟩

/-- Any sequence of calls returns and raises what it does on a stack. Afterwards the nodes are
shared out between the chain from `_head`, which is the stack, and the chain from `_space`. -/
theorem nodes_refine_stack {maxSize : ℕ} (hpos : 0 < maxSize) (ops : List (ListCall α)) :
    (Calls.run call ops (NodeList.new maxSize)).1 =
        (Calls.run StaticList.call ops (StaticList.new maxSize hpos)).1 ∧
      (∃ used free, Represents (Calls.run call ops (NodeList.new maxSize)).2
        (Calls.run StaticList.call ops (StaticList.new maxSize hpos)).2 used free) ∧
      Raises (Calls.run call ops (NodeList.new maxSize)).2
        (Calls.run StaticList.call ops (StaticList.new maxSize hpos)).2 := by
  obtain ⟨hresults, used, free, hlast⟩ := run_represents (new_represents (α := α) hpos) ops
  exact ⟨hresults, ⟨used, free, hlast⟩, hlast.raises⟩

/-- Three elements and one too many, as in the repository's test. -/
theorem nodes_refine_stack_three :
    (Calls.run call [.insertLeft 1, .insertLeft 2, .insertLeft 3, .insertLeft 4, .popLeft]
        (NodeList.new 3 : NodeList ℕ)).1 =
      (Calls.run StaticList.call
        [.insertLeft 1, .insertLeft 2, .insertLeft 3, .insertLeft 4, .popLeft]
        (StaticList.new 3 (by decide))).1 :=
  (nodes_refine_stack (by decide) _).1

end NodeList

end SummerRpc
