import SummerRpc.Helper.Traversal
import SummerRpc.Lib.Rotation

/-! # Round robin

A `CyclicIterator` over distinct elements, from which elements are chosen while others come
and go.

* `choose`: `cyclic_has_next`, then `next`;
* `rotation`: the order in which the elements will be chosen;
* `choose_rotation`, `append_rotation`, `removeElement_rotation`: each call is a step of a
  rotation;
* `round_robin_fair`: from one choice of an element to its next one, every other element
  that stays is chosen once.
-/

namespace SummerRpc

namespace Iterator

open Rotation

variable {α : Type}

/-- `cyclic_has_next`, and `next` if there is one. -/
def choose (i : Iterator α) : Option α × Iterator α :=
  if i.cyclicHasNext.1 then i.cyclicHasNext.2.next else (none, i.cyclicHasNext.2)

/-- The calls. -/
inductive Op (α : Type) where
  | choose
  | append (element : α)
  | removeElement (element : α)
deriving DecidableEq, Repr

/-- The element a call appends. -/
def Op.appended : Op α → Option α
  | .append element => some element
  | _ => none

/-- One call: what is chosen, and the iterator it leaves. -/
def step [DecidableEq α] (i : Iterator α) : Op α → Option α × Iterator α
  | .choose => i.choose
  | .append element => (none, i.append element)
  | .removeElement element => (none, (i.removeElement element).getD i)

variable [DecidableEq α]

/-- The iterator some calls leave. -/
def after (i : Iterator α) (ops : List (Op α)) : Iterator α :=
  ops.foldl (fun i op => (i.step op).2) i

/-- What they choose. -/
def chosen (i : Iterator α) : List (Op α) → List α
  | [] => []
  | op :: ops => (i.step op).1.toList ++ chosen (i.step op).2 ops

/-- The elements are distinct, and the cursor is not outside of the list. -/
structure Valid (i : Iterator α) : Prop where
  nodup : i.it.Nodup
  nonneg : 0 ≤ i.cursor
  le : i.cursor ≤ i.it.length

/-- Only elements are appended that are not there. -/
def Fresh (i : Iterator α) (ops : List (Op α)) : Prop :=
  ∀ front element back, ops = front ++ .append element :: back → element ∉ (i.after front).it

/-- The element is there before, between and after the calls. -/
def Throughout (element : α) (i : Iterator α) (ops : List (Op α)) : Prop :=
  ∀ front back, ops = front ++ back → element ∈ (i.after front).it

/-- The element is chosen, and chosen again after some calls that do not choose it. All the
time it is there. -/
structure ChosenAgain (element : α) (i : Iterator α) (between : List (Op α)) : Prop where
  first : i.choose.1 = some element
  again : (i.choose.2.after between).choose.1 = some element
  notBetween : element ∉ i.choose.2.chosen between
  stays : Throughout element i.choose.2 between

omit [DecidableEq α] in
theorem SplitAt.valid {i : Iterator α} {front back : List α} (h : i.SplitAt front back)
    (hnodup : (front ++ back).Nodup) : i.Valid where
  nodup := by rw [h.it]; exact hnodup
  nonneg := by rw [h.cursor]; omega
  le := by
    rw [h.cursor, h.it, List.length_append]
    omega

omit [DecidableEq α] in
theorem Valid.splitAt {i : Iterator α} (h : i.Valid) :
    ∃ front back, i.SplitAt front back ∧ (front ++ back).Nodup := by
  have hle := h.le
  refine ⟨i.it.take i.cursor.toNat, i.it.drop i.cursor.toNat, ⟨?_, ?_⟩, ?_⟩
  · exact (List.take_append_drop _ _).symm
  · rw [List.length_take, Nat.min_eq_left (by omega), Int.toNat_of_nonneg h.nonneg]
  · rw [List.take_append_drop]
    exact h.nodup

omit [DecidableEq α] in
theorem valid_new {it : List α} (h : it.Nodup) : (new it).Valid :=
  (SplitAt.rewind (new it)).valid h

/-! ## The calls as steps of a rotation -/

/-- The elements in the order in which they will be chosen. -/
def rotation (i : Iterator α) : List α := i.it.drop i.cursor.toNat ++ i.it.take i.cursor.toNat

omit [DecidableEq α] in
theorem rotation_perm (i : Iterator α) : i.rotation.Perm i.it := by
  have hperm : i.rotation.Perm (i.it.take i.cursor.toNat ++ i.it.drop i.cursor.toNat) :=
    List.perm_append_comm
  rw [List.take_append_drop] at hperm
  exact hperm

omit [DecidableEq α] in
theorem SplitAt.rotation {i : Iterator α} {front back : List α} (h : i.SplitAt front back) :
    i.rotation = back ++ front := by
  have hcursor : i.cursor.toNat = front.length := by rw [h.cursor, Int.toNat_natCast]
  unfold Iterator.rotation
  rw [hcursor, h.it, List.drop_left, List.take_left]

omit [DecidableEq α] in
theorem SplitAt.choose {i : Iterator α} {front back : List α} {x : α}
    (h : i.SplitAt front (x :: back)) :
    i.choose.1 = some x ∧ i.choose.2.SplitAt (front ++ [x]) back := by
  have hnext : i.hasNext = true := h.hasNext.mpr (List.cons_ne_nil x back)
  have hchoose : i.choose = i.next := by
    unfold Iterator.choose
    simp only [cyclicHasNext, hnext, if_true]
  rw [hchoose]
  exact h.next

omit [DecidableEq α] in
/-- Behind the last element the cursor starts over. -/
theorem SplitAt.choose_rewind {i : Iterator α} {front : List α} (h : i.SplitAt front []) :
    i.choose = i.rewind.choose := by
  have hend : i.hasNext = false := by
    rw [← Bool.not_eq_true, h.hasNext]
    exact fun hne => hne rfl
  unfold Iterator.choose
  cases hrewind : i.rewind.hasNext with
  | true => simp only [cyclicHasNext, hend, hrewind, Bool.false_eq_true, if_false, if_true]
  | false =>
      have hagain : i.rewind.rewind.hasNext = false := hrewind
      simp only [cyclicHasNext, hend, hrewind, hagain, Bool.false_eq_true, if_false]
      rfl

omit [DecidableEq α] in
/-- A choice serves the first element of the rotation. -/
theorem choose_rotation {i : Iterator α} (hi : i.Valid) :
    (i.it = [] ∧ i.choose.1 = none ∧ i.choose.2.Valid ∧ i.choose.2.it = []) ∨
      ∃ x rest, i.rotation = x :: rest ∧ i.choose.1 = some x ∧ i.choose.2.Valid ∧
        i.choose.2.rotation = rest ++ [x] := by
  obtain ⟨front, back, hsplit, hnodup⟩ := hi.splitAt
  have hserve : ∀ {j : Iterator α} {front back : List α} {x : α}, j.SplitAt front (x :: back) →
      (front ++ x :: back).Nodup → j.choose.1 = some x ∧ j.choose.2.Valid ∧
        j.choose.2.rotation = back ++ front ++ [x] := by
    intro j front back x hj hdistinct
    obtain ⟨hfound, hchoose⟩ := hj.choose
    refine ⟨hfound, hchoose.valid ?_, ?_⟩
    · rw [List.append_assoc]
      exact hdistinct
    · rw [hchoose.rotation, List.append_assoc]
  cases back with
  | cons x back =>
      refine Or.inr ⟨x, back ++ front, hsplit.rotation, ?_⟩
      exact hserve hsplit hnodup
  | nil =>
      have hit : i.it = front := by rw [hsplit.it, List.append_nil]
      rw [hsplit.choose_rewind, hsplit.rotation]
      cases front with
      | nil =>
          refine Or.inl ⟨hit, ?_⟩
          have hi : i.rewind = ⟨[], 0⟩ := by rw [Iterator.rewind, hit]
          rw [hi]
          exact ⟨rfl, valid_new List.nodup_nil, rfl⟩
      | cons x front =>
          refine Or.inr ⟨x, front, rfl, ?_⟩
          have hstart : i.rewind.SplitAt [] (x :: front) := by
            rw [← hit]
            exact SplitAt.rewind i
          have hchosen := hserve hstart (by rw [List.append_nil] at hnodup; exact hnodup)
          rw [List.append_nil] at hchosen
          exact hchosen

omit [DecidableEq α] in
/-- An element that is appended comes behind those that have not been chosen in this
round. -/
theorem append_rotation {i : Iterator α} (hi : i.Valid) {x : α} (hx : x ∉ i.it) :
    (i.append x).Valid ∧ i.rotation.Sublist (i.append x).rotation := by
  obtain ⟨front, back, hsplit, hnodup⟩ := hi.splitAt
  have happend := hsplit.append x
  constructor
  · apply happend.valid
    rw [← List.append_assoc, List.nodup_append_comm, List.singleton_append, List.nodup_cons,
      ← hsplit.it]
    exact ⟨hx, hi.nodup⟩
  · rw [hsplit.rotation, happend.rotation]
    exact (List.sublist_append_left back [x]).append (List.Sublist.refl front)

/-- An element that is removed is removed from the part it is in. -/
theorem SplitAt.removeElement {i j : Iterator α} {front back : List α} {x : α}
    (h : i.SplitAt front back) (hj : i.removeElement x = some j) :
    (x ∈ front ∧ j.SplitAt (front.erase x) back) ∨
      (x ∉ front ∧ j.SplitAt front (back.erase x)) := by
  obtain ⟨hx, hit⟩ := removeElement_some hj
  have hcursor : j.cursor = if i.cursor > i.it.idxOf x then i.cursor - 1 else i.cursor := by
    rw [Iterator.removeElement, if_pos hx] at hj
    cases hj
    rfl
  by_cases hfront : x ∈ front
  · have hindex : i.it.idxOf x < front.length := by
      rw [h.it, List.idxOf_append_of_mem hfront]
      exact List.idxOf_lt_length_of_mem hfront
    refine Or.inl ⟨hfront, ?_, ?_⟩
    · rw [hit, h.it, List.erase_append_left back hfront]
    · rw [hcursor, h.cursor, if_pos (by omega), List.length_erase_of_mem hfront]
      omega
  · have hindex : front.length ≤ i.it.idxOf x := by
      rw [h.it, List.idxOf_append_of_notMem hfront]
      omega
    refine Or.inr ⟨hfront, ?_, ?_⟩
    · rw [hit, h.it, List.erase_append_right back hfront]
    · rw [hcursor, h.cursor, if_neg (by omega)]

/-- The others stay in their order. -/
theorem removeElement_rotation {i : Iterator α} (hi : i.Valid) (x : α) :
    ((i.removeElement x).getD i).Valid ∧
      ((i.removeElement x).getD i).rotation = i.rotation.erase x := by
  cases hj : i.removeElement x with
  | none =>
      have hx := removeElement_none.mp hj
      rw [Option.getD_none,
        List.erase_of_not_mem (fun hmem => hx (i.rotation_perm.mem_iff.mp hmem))]
      exact ⟨hi, rfl⟩
  | some j =>
      obtain ⟨front, back, hsplit, hnodup⟩ := hi.splitAt
      have hdisjoint := List.disjoint_of_nodup_append hnodup
      rw [Option.getD_some, hsplit.rotation]
      rcases hsplit.removeElement hj with ⟨hx, hremoved⟩ | ⟨hx, hremoved⟩
      · rw [hremoved.rotation, List.erase_append_right front (fun hback => hdisjoint hx hback)]
        refine ⟨hremoved.valid ?_, rfl⟩
        rw [← List.erase_append_left back hx]
        exact hnodup.erase x
      · refine ⟨hremoved.valid ?_, ?_⟩
        · rw [← List.erase_append_right back hx]
          exact hnodup.erase x
        · rw [hremoved.rotation]
          by_cases hback : x ∈ back
          · rw [List.erase_append_left front hback]
          · rw [List.erase_append_right front hback, List.erase_of_not_mem hback,
              List.erase_of_not_mem hx]

/-! ## Runs -/

variable {i : Iterator α} {op : Op α} {ops : List (Op α)} {x y : α} {n : ℕ}

theorem after_cons (i : Iterator α) (op : Op α) (ops : List (Op α)) :
    i.after (op :: ops) = (i.step op).2.after ops := rfl

theorem after_append (i : Iterator α) (front back : List (Op α)) :
    i.after (front ++ back) = (i.after front).after back := List.foldl_append

theorem throughout_nil : Throughout x i [] ↔ x ∈ i.it := by
  constructor
  · exact fun h => h [] [] rfl
  · intro h front back hops
    obtain ⟨rfl, _⟩ := List.nil_eq_append_iff.mp hops
    exact h

theorem throughout_cons :
    Throughout x i (op :: ops) ↔ x ∈ i.it ∧ Throughout x (i.step op).2 ops := by
  constructor
  · exact fun h => ⟨h [] _ rfl, fun front back hops => h (op :: front) back (by rw [hops]; rfl)⟩
  · rintro ⟨hx, hrest⟩ front back hops
    cases front with
    | nil => exact hx
    | cons op' front =>
        obtain ⟨rfl, htail⟩ := List.cons_eq_cons.mp hops
        exact hrest front back htail

theorem fresh_nil (i : Iterator α) : i.Fresh [] := by
  intro front element back hops
  have hnil := (List.nil_eq_append_iff.mp hops).2
  cases hnil

theorem fresh_cons : i.Fresh (op :: ops) ↔
    (∀ element ∈ op.appended, element ∉ i.it) ∧ (i.step op).2.Fresh ops := by
  constructor
  · intro h
    refine ⟨?_, fun front element back hops => h (op :: front) element back (by rw [hops]; rfl)⟩
    intro element helement
    cases op with
    | append other =>
        cases helement
        exact h [] element ops rfl
    | choose => cases helement
    | removeElement other => cases helement
  · rintro ⟨hop, hrest⟩ front element back hops
    cases front with
    | nil =>
        obtain ⟨rfl, _⟩ := List.cons_eq_cons.mp hops
        exact hop element rfl
    | cons op' front =>
        obtain ⟨rfl, htail⟩ := List.cons_eq_cons.mp hops
        exact hrest front element back htail

instance decidableThroughout (x : α) : ∀ (ops : List (Op α)) (i : Iterator α),
    Decidable (Throughout x i ops)
  | [], i => decidable_of_iff (x ∈ i.it) throughout_nil.symm
  | op :: ops, i =>
    have := decidableThroughout x ops (i.step op).2
    decidable_of_iff (x ∈ i.it ∧ Throughout x (i.step op).2 ops) throughout_cons.symm

instance decidableFresh : ∀ (ops : List (Op α)) (i : Iterator α), Decidable (i.Fresh ops)
  | [], i => isTrue (fresh_nil i)
  | op :: ops, i =>
    have := decidableFresh ops (i.step op).2
    decidable_of_iff ((∀ element ∈ op.appended, element ∉ i.it) ∧ (i.step op).2.Fresh ops)
      fresh_cons.symm

theorem Fresh.tail (h : i.Fresh (op :: ops)) : (i.step op).2.Fresh ops := (fresh_cons.mp h).2

theorem Fresh.drop {front back : List (Op α)} (h : i.Fresh (front ++ back)) :
    (i.after front).Fresh back := by
  intro before element rest hback
  have happend := h (front ++ before) element rest (by rw [hback, List.append_assoc])
  rw [after_append] at happend
  exact happend

theorem Fresh.take {front back : List (Op α)} (h : i.Fresh (front ++ back)) : i.Fresh front := by
  intro before element rest hfront
  exact h before element (rest ++ back) (by rw [hfront, List.append_assoc, List.cons_append])

/-- No call moves the cursor out of the list, or makes two elements the same. -/
theorem valid_step (hi : i.Valid) (hfresh : i.Fresh (op :: ops)) : (i.step op).2.Valid := by
  cases op with
  | choose =>
      rcases choose_rotation hi with ⟨_, _, hvalid, _⟩ | ⟨x, rest, _, _, hvalid, _⟩
      · exact hvalid
      · exact hvalid
  | append element => exact (append_rotation hi (hfresh [] element ops rfl)).1
  | removeElement element => exact (removeElement_rotation hi element).1

theorem valid_after (hi : i.Valid) (hfresh : i.Fresh ops) : (i.after ops).Valid := by
  induction ops generalizing i with
  | nil => exact hi
  | cons op ops ih => exact ih (valid_step hi hfresh) hfresh.tail

/-- One call, if it does not choose `x`, and takes away neither `x` nor `y`. -/
theorem turn_step (hi : i.Valid) (hfresh : i.Fresh (op :: ops)) (hx : x ∈ (i.step op).2.it)
    (hy : y ∈ (i.step op).2.it) (hother : x ∉ (i.step op).1.toList) (h : Turn x y i.rotation n) :
    Turn x y (i.step op).2.rotation (n + (i.step op).1.toList.count y) := by
  cases op with
  | choose =>
      rcases choose_rotation hi with ⟨_, _, _, hempty⟩ | ⟨z, rest, hrotation, hchosen, _, hserved⟩
      · have hmem : x ∈ i.choose.2.it := hx
        rw [hempty] at hmem
        cases hmem
      · have hstep : (i.step .choose).1.toList = [z] := congrArg Option.toList hchosen
        have hrotated : (i.step .choose).2.rotation = rest ++ [z] := hserved
        rw [hstep, List.mem_singleton] at hother
        rw [hrotation] at h
        rw [hstep, hrotated]
        by_cases hzy : z = y
        · subst hzy
          have hnodup : (z :: rest).Nodup := by
            rw [← hrotation]
            exact i.rotation_perm.nodup_iff.mpr hi.nodup
          obtain ⟨rfl, hturn⟩ := h.serve_self hnodup
          rw [List.count_singleton_self]
          exact hturn
        · rw [List.count_singleton, if_neg (by simpa using hzy)]
          exact h.serve_other (Ne.symm hother) hzy
  | append element => exact h.insert (append_rotation hi (hfresh [] element ops rfl)).2
  | removeElement element =>
      have hrotation : (i.step (.removeElement element)).2.rotation = i.rotation.erase element :=
        (removeElement_rotation hi element).2
      have hstays : ∀ z, z ∈ (i.step (.removeElement element)).2.it → element ≠ z := by
        rintro z hz rfl
        have hmem := (rotation_perm _).mem_iff.mpr hz
        rw [hrotation] at hmem
        exact (i.rotation_perm.nodup_iff.mpr hi.nodup).not_mem_erase hmem
      rw [hrotation]
      exact h.erase (hstays x hx) (hstays y hy)

theorem turn_after (hi : i.Valid) (hfresh : i.Fresh ops) (hx : Throughout x i ops)
    (hy : Throughout y i ops) (hother : x ∉ i.chosen ops) (h : Turn x y i.rotation n) :
    Turn x y (i.after ops).rotation (n + (i.chosen ops).count y) := by
  induction ops generalizing i n with
  | nil => exact h
  | cons op ops ih =>
      rw [chosen, List.mem_append, not_or] at hother
      have hstep := turn_step hi hfresh (hx [op] ops rfl) (hy [op] ops rfl) hother.1 h
      have hrest := ih (valid_step hi hfresh) hfresh.tail (throughout_cons.mp hx).2
        (throughout_cons.mp hy).2 hother.2 hstep
      rw [after_cons, chosen, List.count_append, ← Nat.add_assoc]
      exact hrest

/-- From one choice of an element to the next, every other element that is there all the
time is chosen once. -/
theorem count_of_chosenAgain {between : List (Op α)} (hi : i.Valid)
    (hfresh : i.choose.2.Fresh between) (h : ChosenAgain x i between) (hne : y ≠ x)
    (hy : Throughout y i.choose.2 between) : (i.choose.2.chosen between).count y = 1 := by
  rcases choose_rotation hi with ⟨_, hnone, _⟩ | ⟨z, rest, _, hchosen, hvalid, hserved⟩
  · rw [h.first] at hnone
    cases hnone
  · rw [h.first] at hchosen
    obtain rfl := Option.some.inj hchosen
    -- `x` has just been served, and `y` is before it
    have hmem : y ∈ rest := by
      have hit := (rotation_perm _).mem_iff.mpr (hy [] between rfl)
      have hrotated : i.choose.2.rotation = rest ++ [x] := hserved
      have hin : y ∈ rest ++ [x] := by
        rw [← hrotated]
        exact hit
      rcases List.mem_append.mp hin with hrest | hlast
      · exact hrest
      · exact absurd (List.mem_singleton.mp hlast) hne
    have hstart : Turn x y i.choose.2.rotation 0 := by
      rw [hserved]
      exact Turn.served hmem
    have hend := turn_after hvalid hfresh h.stays hy h.notBetween hstart
    rw [Nat.zero_add] at hend
    have hvalid' := valid_after hvalid hfresh
    rcases choose_rotation hvalid' with ⟨_, hnone, _⟩ | ⟨w, rest', hrotation, hagain, _, _⟩
    · rw [h.again] at hnone
      cases hnone
    · rw [h.again] at hagain
      obtain rfl := Option.some.inj hagain
      have hnodup := (rotation_perm _).nodup_iff.mpr hvalid'.nodup
      rw [hrotation] at hend hnodup
      exact hend.due hnodup

/-- Whatever is chosen, appended and removed, the cursor stays inside the list, and between
two choices of an element that stays every other element that stays is chosen once. -/
theorem round_robin_fair (i : Iterator α) (hi : i.Valid) (ops : List (Op α))
    (hfresh : i.Fresh ops) :
    (0 ≤ (i.after ops).cursor ∧ (i.after ops).cursor ≤ (i.after ops).it.length) ∧
      ∀ before between rest, ops = before ++ .choose :: (between ++ .choose :: rest) →
        ∀ x, ChosenAgain x (i.after before) between →
        ∀ y, y ≠ x → Throughout y (i.after before).choose.2 between →
          ((i.after before).choose.2.chosen between).count y = 1 := by
  constructor
  · exact ⟨(valid_after hi hfresh).nonneg, (valid_after hi hfresh).le⟩
  · rintro before between rest rfl x hagain y hne hy
    have hbefore := valid_after hi hfresh.take
    have hbetween : (i.after before).choose.2.Fresh between := hfresh.drop.tail.take
    exact count_of_chosenAgain hbefore hbetween hagain hne hy

/-- Three elements, of which one is removed and replaced while they are chosen in turn. -/
theorem round_robin_fair_three :
    (0 ≤ ((new [1, 2, 3]).after [.choose, .removeElement 2, .append 4, .choose, .choose,
        .choose]).cursor ∧
      ((new [1, 2, 3]).after [.choose, .removeElement 2, .append 4, .choose, .choose,
        .choose]).cursor ≤ 3) ∧
    ((new [1, 2, 3]).choose.2.chosen
      [.removeElement 2, .append 4, .choose, .choose]).count 3 = 1 := by
  have hfair := round_robin_fair (new [1, 2, 3]) (valid_new (by decide))
    [.choose, .removeElement 2, .append 4, .choose, .choose, .choose] (by decide)
  exact ⟨hfair.1, hfair.2 [] [.removeElement 2, .append 4, .choose, .choose] [] rfl 1
    ⟨by decide, by decide, by decide, by decide⟩ 3 (by decide) (by decide)⟩

end Iterator

end SummerRpc
