import SummerRpc.Lib.Chain
import Mathlib.Data.List.Chain
import Mathlib.Data.List.Nodup

/-! # Rings of doubly linked cells

Cells with a link to the next and a link to the previous one, in a ring that starts and ends
at a head. Nothing is assumed of the links of the cells that are not in it.

* `IsRing`: the cells of the ring, in the order of the next links;
* `IsRing.prev_next`: the neighbours of a cell;
* `IsRing.remove`, `IsRing.insert`: two neighbours are joined where a cell was between them,
  and a cell is put next to the head;
* `IsRing.chain_prev`: the same cells backwards.
-/

universe u

namespace Linked

variable {ι : Type u}

/-- The links of all cells; a cell that is new has none. -/
structure Links (ι : Type u) where
  next : ι → Option ι
  prev : ι → Option ι

namespace Links

/-- The two cells are neighbours, and both say so. -/
def Joined (l : Links ι) (a b : ι) : Prop := l.next a = some b ∧ l.prev b = some a

variable [DecidableEq ι]

/-- Two cells are made neighbours. -/
def join (l : Links ι) (a b : ι) : Links ι where
  next := Function.update l.next a (some b)
  prev := Function.update l.prev b (some a)

theorem joined_join (l : Links ι) (a b : ι) : (l.join a b).Joined a b := by
  constructor
  · exact Function.update_self _ _ _
  · exact Function.update_self _ _ _

theorem Joined.join {l : Links ι} {a b c d : ι} (h : l.Joined a b) (hc : a ≠ c) (hd : b ≠ d) :
    (l.join c d).Joined a b := by
  refine ⟨?_, ?_⟩
  · exact (Function.update_of_ne hc _ _).trans h.1
  · exact (Function.update_of_ne hd _ _).trans h.2

/-- A row of neighbours in which the one cell has no next and the other one no previous cell. -/
theorem isChain_join {l : Links ι} {cells : List ι} {a b : ι} (h : cells.IsChain l.Joined)
    (ha : a ∉ cells.dropLast) (hb : b ∉ cells.tail) : cells.IsChain (l.join a b).Joined := by
  rw [List.isChain_iff_forall_rel_of_append_cons_cons] at h ⊢
  intro x y front back hcells
  refine (h hcells).join ?_ ?_
  · rintro rfl
    refine ha ?_
    rw [hcells, List.dropLast_append_of_ne_nil (List.cons_ne_nil _ _), List.dropLast_cons_cons]
    exact List.mem_append_right _ List.mem_cons_self
  · rintro rfl
    refine hb ?_
    rw [hcells]
    cases front with
    | nil => exact List.mem_cons_self
    | cons z front =>
        exact List.mem_append_right _ (List.mem_cons_of_mem _ List.mem_cons_self)

end Links

/-- From the head the next links lead through these cells and back to it, and the previous links
the other way round. -/
structure IsRing (l : Links ι) (head : ι) (cells : List ι) : Prop where
  nodup : (head :: cells).Nodup
  joined : (head :: (cells ++ [head])).IsChain l.Joined

namespace IsRing

variable {l : Links ι} {head cell : ι} {front back cells : List ι}

/-- The neighbours of a cell, with what is before and after them. -/
theorem prev_next (h : IsRing l head (front ++ cell :: back)) :
    ∃ p n before after, head :: front = before ++ [p] ∧ back ++ [head] = n :: after ∧
      l.prev cell = some p ∧ l.next cell = some n ∧
      (before ++ [p]).IsChain l.Joined ∧ (n :: after).IsChain l.Joined := by
  obtain ⟨before, p, hbefore⟩ : ∃ before p, head :: front = before ++ [p] :=
    ⟨_, _, (List.dropLast_append_getLast (List.cons_ne_nil head front)).symm⟩
  obtain ⟨n, after, hafter⟩ : ∃ n after, back ++ [head] = n :: after :=
    List.exists_cons_of_ne_nil (List.append_ne_nil_of_right_ne_nil _ (List.cons_ne_nil _ _))
  have hjoined := h.joined
  rw [List.append_assoc, List.cons_append, ← List.cons_append, hbefore, hafter,
    List.append_assoc, List.singleton_append, List.isChain_append_cons_cons,
    List.isChain_cons_cons] at hjoined
  obtain ⟨hfront, hp, hn, hback⟩ := hjoined
  exact ⟨p, n, before, after, hbefore, hafter, hp.2, hn.1, hfront, hback⟩

/-- The first cell, or the head where there is none. -/
theorem next_head (h : IsRing l head cells) :
    ∃ n after, cells ++ [head] = n :: after ∧ l.next head = some n := by
  obtain ⟨n, after, hafter⟩ : ∃ n after, cells ++ [head] = n :: after :=
    List.exists_cons_of_ne_nil (List.append_ne_nil_of_right_ne_nil _ (List.cons_ne_nil _ _))
  have hjoined := h.joined
  rw [hafter, List.isChain_cons_cons] at hjoined
  exact ⟨n, after, hafter, hjoined.1.1⟩

/-- The last cell. -/
theorem prev_head (h : IsRing l head (cells ++ [cell])) : l.prev head = some cell := by
  have hjoined := h.joined
  rw [List.append_assoc, List.singleton_append, ← List.cons_append,
    List.isChain_append_cons_cons] at hjoined
  exact hjoined.2.1.2

variable [DecidableEq ι]

/-- A head that is joined to itself. -/
theorem empty (l : Links ι) (head : ι) : IsRing (l.join head head) head [] where
  nodup := List.nodup_singleton head
  joined := List.isChain_pair.mpr (l.joined_join head head)

/-- The neighbours of a cell are joined, and the ring is without it. -/
theorem remove (h : IsRing l head (front ++ cell :: back)) {p n : ι} (hp : l.prev cell = some p)
    (hn : l.next cell = some n) : IsRing (l.join p n) head (front ++ back) := by
  obtain ⟨p', n', before, after, hbefore, hafter, hp', hn', hfront, hback⟩ := h.prev_next
  cases Option.some.inj (hp.symm.trans hp')
  cases Option.some.inj (hn.symm.trans hn')
  have hnodup : (head :: (front ++ back)).Nodup :=
    (((List.sublist_cons_self cell back).append_left front).cons_cons head).nodup h.nodup
  have hrow : (front ++ (n :: after)).Nodup := by
    rw [← hafter, ← List.append_assoc]
    exact (List.perm_append_singleton head _).nodup_iff.mpr hnodup
  rw [← List.cons_append] at hnodup
  refine ⟨hnodup, ?_⟩
  -- `p` is in front of the cell and `n` is behind it, or one of them is the head
  have hfront' : (before ++ [p]).IsChain (l.join p n).Joined := by
    refine Links.isChain_join hfront ?_ ?_
    · rw [List.dropLast_concat]
      have hbeforep := (List.nodup_append.mp hnodup).1
      rw [hbefore] at hbeforep
      exact fun hmem => List.disjoint_of_nodup_append hbeforep hmem (List.mem_singleton_self p)
    · rw [← hbefore, List.tail_cons]
      exact fun hmem => List.disjoint_of_nodup_append hrow hmem List.mem_cons_self
  have hback' : (n :: after).IsChain (l.join p n).Joined := by
    refine Links.isChain_join hback ?_ ?_
    · rw [← hafter, List.dropLast_concat]
      have hpfront : p ∈ head :: front := by
        rw [hbefore]
        exact List.mem_append_right _ (List.mem_singleton_self p)
      exact List.disjoint_of_nodup_append hnodup hpfront
    · exact (List.nodup_cons.mp (List.nodup_append.mp hrow).2.1).1
  rw [List.append_assoc, ← List.cons_append, hbefore, hafter, List.append_assoc,
    List.singleton_append, List.isChain_append_cons_cons]
  exact ⟨hfront', l.joined_join p n, hback'⟩

/-- A cell that is not in the ring is put between the head and the cell next to it. -/
theorem insert (h : IsRing l head cells) (hcell : cell ∉ head :: cells) {n : ι}
    (hn : l.next head = some n) : IsRing ((l.join cell n).join head cell) head (cell :: cells) := by
  obtain ⟨n', after, hafter, hn'⟩ := h.next_head
  cases Option.some.inj (hn.symm.trans hn')
  have hjoined := h.joined
  have hrow : (n :: after).Nodup := by
    rw [← hafter]
    exact (List.perm_append_singleton head cells).nodup_iff.mpr h.nodup
  have hnotin : cell ∉ n :: after := by
    rw [← hafter, List.mem_append, List.mem_singleton]
    rw [List.mem_cons] at hcell
    tauto
  have hdropLast : head ∉ (n :: after).dropLast := by
    rw [← hafter, List.dropLast_concat]
    exact (List.nodup_cons.mp h.nodup).1
  rw [hafter, List.isChain_cons_cons] at hjoined
  refine ⟨?_, ?_⟩
  · have hswap : (head :: cell :: cells).Perm (cell :: head :: cells) := List.Perm.swap _ _ _
    exact hswap.nodup_iff.mpr (List.nodup_cons.mpr ⟨hcell, h.nodup⟩)
  · rw [List.cons_append, hafter, List.isChain_cons_cons, List.isChain_cons_cons]
    refine ⟨Links.joined_join _ _ _, ?_, ?_⟩
    · refine (Links.joined_join _ _ _).join ?_ ?_
      · rintro rfl
        exact hcell List.mem_cons_self
      · rintro rfl
        exact hnotin List.mem_cons_self
    · refine Links.isChain_join (Links.isChain_join hjoined.2 ?_ ?_) hdropLast ?_
      · exact fun hmem => hnotin (List.dropLast_subset _ hmem)
      · exact (List.nodup_cons.mp hrow).1
      · exact fun hmem => hnotin (List.mem_cons_of_mem _ hmem)

end IsRing

/-! ## Backwards -/

/-- In a ring the last link leads to the head. -/
def ringLink (head : ι) : Option ι → Option ι
  | none => some head
  | some i => some i

/-- A row of cells, each linked to the one after it, and the last one to the head. -/
theorem chain_of_isChain {next : ι → Option ι} {head cell : ι} {cells : List ι}
    (h : (cell :: (cells ++ [head])).IsChain fun a b => next a = some b) :
    Chain (ringLink head) next (next cell) cells := by
  induction cells generalizing cell with
  | nil =>
      rw [List.nil_append, List.isChain_pair] at h
      exact h
  | cons i cells ih =>
      rw [List.cons_append, List.isChain_cons_cons] at h
      exact ⟨h.1, ih h.2⟩

/-- The previous links lead through the cells backwards. -/
theorem IsRing.chain_prev {l : Links ι} {head : ι} {cells : List ι} (h : IsRing l head cells) :
    Chain (ringLink head) l.prev (l.prev head) cells.reverse := by
  refine chain_of_isChain ?_
  have hreverse : (head :: (cells ++ [head])).reverse = head :: (cells.reverse ++ [head]) := by
    simp
  rw [← hreverse, List.isChain_reverse]
  exact h.joined.imp fun _ _ hab => hab.2

end Linked
