import SummerRpc.Pool.Numbers
import Mathlib.Algebra.BigOperators.Group.Finset.Basic
import Mathlib.Algebra.Order.BigOperators.Group.Finset

/-! # Dedicated means exclusive

In a dedicated pool a connection is in a queue, with a caller, or in the hands of a
call that has taken it from a queue. The number of these places is counted over all
queues ever made, so that a queue whose key has been kicked out still counts.

* `places`: the number of places a connection is in;
* `Exclusive`, `exclusive_step`: it is at most one, and no step can make it two, as long
  as the factory makes fresh connections and nobody releases what he does not hold;
* `dedicated_exclusive`: no queue has a connection twice, no two queues share one, and
  none that is queued or about to be returned is with a caller.
-/

namespace SummerRpc

namespace LRUConnectionPool

open Finset

variable {κ : Type} [PyHash κ]

/-! ## The places of a connection -/

/-- How often the connection is in the hands of a call. -/
def Call.hand (x : ℕ) : Call κ → ℕ
  | .inspect _ _ _ y => if y = x then 1 else 0
  | _ => 0

/-- How often a call releases the connection under that key. -/
def Call.releases [DecidableEq κ] (key : κ) (x : ℕ) : Call κ → ℕ
  | .release k y => if (k, y) = (key, x) then 1 else 0
  | .put k _ y => if (k, y) = (key, x) then 1 else 0
  | _ => 0

/-- How often the connection is in a queue. -/
def queued (queues : ℕ → List ℕ) (count x : ℕ) : ℕ := ∑ c ∈ range count, (queues c).count x

/-- How many callers have the connection. -/
def holders (held : List (κ × ℕ)) (x : ℕ) : ℕ := (held.map Prod.snd).count x

/-- The number of places the connection is in. -/
def places (s : LRUConnectionPool κ (List ℕ)) (x : ℕ) : ℕ :=
  queued s.containers s.containerCount x + holders s.held x + total (Call.hand x) s.calls

/-- Every connection made is in at most one place, and none is that was not made; what
is being released is held. -/
structure Exclusive [DecidableEq κ] (s : LRUConnectionPool κ (List ℕ)) (created : List ℕ) :
    Prop where
  once : ∀ x, places s x ≤ 1
  made : ∀ x, x ∉ created → places s x = 0
  releasing : ∀ key x, total (Call.releases key x) s.calls ≤ s.held.count (key, x)

/-- The record of the connections the factory has returned. -/
def recordCreated {γ : Type} (l : Label κ) (_ : LRUConnectionPool κ γ) (created : List ℕ) :
    List ℕ :=
  match l with
  | .create _ (.ok x) | .replace _ _ _ (.ok x) => x :: created
  | _ => created

/-! ## Small facts -/

/-- Putting another queue in place moves the difference only. -/
theorem queued_update (queues : ℕ → List ℕ) {count c : ℕ} (hc : c < count) (y : List ℕ) (x : ℕ) :
    queued (Function.update queues c y) count x + (queues c).count x =
      queued queues count x + y.count x := by
  have hmem : c ∈ range count := mem_range.mpr hc
  have hothers : ∑ d ∈ (range count).erase c, (Function.update queues c y d).count x =
      ∑ d ∈ (range count).erase c, (queues d).count x :=
    sum_congr rfl fun d hd => by rw [Function.update_of_ne (ne_of_mem_erase hd)]
  unfold queued
  rw [← add_sum_erase (range count) (fun d => (Function.update queues c y d).count x) hmem,
    ← add_sum_erase (range count) (fun d => (queues d).count x) hmem, hothers,
    Function.update_self]
  omega

/-- A new queue is empty. -/
theorem queued_new (queues : ℕ → List ℕ) (count x : ℕ) :
    queued (Function.update queues count []) (count + 1) x = queued queues count x := by
  unfold queued
  rw [sum_range_succ, Function.update_self, List.count_nil, Nat.add_zero]
  refine sum_congr rfl fun d hd => ?_
  rw [Function.update_of_ne (Nat.ne_of_lt (mem_range.mp hd))]

/-- Closing queues leaves fewer connections in them. -/
theorem queued_closed {queues queues' : ℕ → List ℕ} (h : ∀ c, queues' c = queues c ∨ queues' c = [])
    (count x : ℕ) : queued queues' count x ≤ queued queues count x := by
  refine sum_le_sum fun c _ => ?_
  rcases h c with heq | hnil
  · exact Nat.le_of_eq (by rw [heq])
  · rw [hnil]
    exact Nat.zero_le _

/-- The places in two queues are two places. -/
theorem count_le_queued (queues : ℕ → List ℕ) {count c d : ℕ} (hc : c < count) (hd : d < count)
    (hne : c ≠ d) (x : ℕ) : (queues c).count x + (queues d).count x ≤ queued queues count x := by
  have hmem : d ∈ (range count).erase c := mem_erase.mpr ⟨fun heq => hne heq.symm, mem_range.mpr hd⟩
  have hle : (queues d).count x ≤ ∑ e ∈ (range count).erase c, (queues e).count x :=
    single_le_sum (f := fun e => (queues e).count x) (fun _ _ => Nat.zero_le _) hmem
  unfold queued
  rw [← add_sum_erase (range count) (fun d => (queues d).count x) (mem_range.mpr hc)]
  exact Nat.add_le_add_left hle _

omit [PyHash κ] in
theorem holders_cons (key : κ) (x y : ℕ) (held : List (κ × ℕ)) :
    holders ((key, x) :: held) y = holders held y + if x = y then 1 else 0 := by
  simp [holders, List.count_cons]

omit [PyHash κ] in
/-- One caller fewer has the connection. -/
theorem holders_erase [DecidableEq κ] {key : κ} {x : ℕ} {held : List (κ × ℕ)}
    (h : (key, x) ∈ held) (y : ℕ) :
    holders held y = holders (held.erase (key, x)) y + if x = y then 1 else 0 := by
  rw [← holders_cons key]
  exact ((List.perm_cons_erase h).map Prod.snd).count_eq y

omit [PyHash κ] in
/-- A connection that is released is one that is held. -/
theorem count_erase [DecidableEq κ] {key : κ} {x : ℕ} {held : List (κ × ℕ)}
    (h : (key, x) ∈ held) (item : κ × ℕ) :
    held.count item = (held.erase (key, x)).count item + if (key, x) = item then 1 else 0 := by
  rw [(List.perm_cons_erase h).count_eq item, List.count_cons]
  simp

/-! ## One step -/

section Step

variable [DecidableEq κ] {s t : LRUConnectionPool κ (List ℕ)} {created : List ℕ}

/-- A step after which a connection is in no more places than before, but for the
connections it has made. -/
theorem Exclusive.change (h : Exclusive s created) (made : List ℕ) (hnodup : made.Nodup)
    (hfresh : ∀ x ∈ made, x ∉ created) (hplaces : ∀ x, places t x ≤ places s x + made.count x)
    (hreleasing : ∀ key x, total (Call.releases key x) t.calls + s.held.count (key, x) ≤
      total (Call.releases key x) s.calls + t.held.count (key, x)) :
    Exclusive t (made ++ created) where
  once := by
    intro x
    have hx := hplaces x
    by_cases hmem : x ∈ made
    · -- a connection just made was nowhere before
      have hzero := h.made x (hfresh x hmem)
      have hone := List.nodup_iff_count_le_one.mp hnodup x
      omega
    · have hnot := List.count_eq_zero_of_not_mem hmem
      have hone := h.once x
      omega
  made := by
    intro x hx
    rw [List.mem_append, not_or] at hx
    have hle := hplaces x
    rw [List.count_eq_zero_of_not_mem hx.1, h.made x hx.2] at hle
    exact Nat.le_zero.mp hle
  releasing := by
    intro key x
    have hbefore := h.releasing key x
    have hstep := hreleasing key x
    omega

/-- A call that goes on, or leaves, with what it has done to a queue and to the
connections with callers. -/
theorem Exclusive.work (h : Exclusive s created) (made : List ℕ) (hnodup : made.Nodup)
    (hfresh : ∀ x ∈ made, x ∉ created) {call : Call κ} {c : ℕ} {y : List ℕ} (nexts : List (Call κ))
    (hcall : call ∈ s.calls) (hc : c < s.containerCount)
    (hcontainers : t.containers = Function.update s.containers c y)
    (hcount : t.containerCount = s.containerCount) (hcalls : t.calls = nexts ++ s.calls.erase call)
    (hplaces : ∀ x, y.count x + holders t.held x + total (Call.hand x) nexts ≤
      (s.containers c).count x + holders s.held x + call.hand x + made.count x)
    (hreleasing : ∀ key x, total (Call.releases key x) nexts + s.held.count (key, x) ≤
      call.releases key x + t.held.count (key, x)) : Exclusive t (made ++ created) := by
  refine h.change made hnodup hfresh ?_ ?_
  · intro x
    have hqueues := queued_update s.containers hc y x
    have hhands := total_replace (Call.hand x) hcall hcalls
    have hx := hplaces x
    unfold places
    rw [hcontainers, hcount]
    omega
  · intro key x
    have htotal := total_replace (Call.releases key x) hcall hcalls
    have hx := hreleasing key x
    omega

/-- A step that moves no connection. -/
theorem Exclusive.still (h : Exclusive s created) {call : Call κ} (nexts : List (Call κ))
    (hcall : call ∈ s.calls) (hcontainers : t.containers = s.containers)
    (hcount : t.containerCount = s.containerCount) (hcalls : t.calls = nexts ++ s.calls.erase call)
    (hheld : t.held = s.held) (hhand : ∀ x, total (Call.hand x) nexts = call.hand x)
    (hreleases : ∀ key x, total (Call.releases key x) nexts = call.releases key x) :
    Exclusive t created := by
  refine h.change [] List.nodup_nil nofun ?_ ?_
  · intro x
    have hhands := total_replace (Call.hand x) hcall hcalls
    have hx := hhand x
    unfold places
    rw [hcontainers, hcount, hheld]
    omega
  · intro key x
    have htotal := total_replace (Call.releases key x) hcall hcalls
    have hx := hreleases key x
    rw [hheld]
    omega

/-- What a call releases is held. -/
theorem Exclusive.held (h : Exclusive s created) {call : Call κ} (key : κ) (x : ℕ)
    (hcall : call ∈ s.calls) (hreleases : call.releases key x = 1) : (key, x) ∈ s.held := by
  have htotal := total_erase (Call.releases key x) hcall
  have hle := h.releasing key x
  exact List.count_pos_iff.mp (by omega)

/-- A call that ends a release. -/
theorem Exclusive.released (h : Exclusive s created) {call : Call κ} (key : κ) (x : ℕ)
    (hcall : call ∈ s.calls)
    (hreleases : ∀ k y, call.releases k y = if (key, x) = (k, y) then 1 else 0)
    (hheld : t.held = s.held.erase (key, x)) (hcalls : t.calls = s.calls.erase call)
    (hplaces : ∀ y, places t y ≤ places s y) : Exclusive t created := by
  refine h.change [] List.nodup_nil nofun hplaces ?_
  intro k y
  have hmem := h.held key x hcall (by rw [hreleases, if_pos rfl])
  have hcount := count_erase hmem (k, y)
  have htotal := total_erase (Call.releases k y) hcall
  have hx := hreleases k y
  rw [hheld, hcalls]
  omega

/-- A release that finds no entry drops the connection. -/
theorem exclusive_drop (h : Exclusive s created) {key : κ} {x : ℕ}
    (hcall : Call.release key x ∈ s.calls) :
    Exclusive ({ s with held := s.held.erase (key, x) }.leave (.release key x)) created := by
  refine h.released key x hcall (fun _ _ => rfl) rfl rfl fun y => ?_
  have hholders := holders_erase (h.held key x hcall (if_pos rfl)) y
  have hhands := total_erase (Call.hand y) hcall
  show queued s.containers s.containerCount y + holders (s.held.erase (key, x)) y +
    total (Call.hand y) (s.calls.erase (.release key x)) ≤ _
  unfold places
  omega

/-- A call begins: it has no connection in its hands, and releases what is held. -/
theorem exclusive_begin (h : Exclusive s created) {call : Call κ} (hhand : ∀ x, call.hand x = 0)
    (hreleasing : ∀ key x, total (Call.releases key x) (call :: s.calls) ≤ s.held.count (key, x)) :
    Exclusive { s with calls := call :: s.calls } created := by
  have hplaces : ∀ x, places { s with calls := call :: s.calls } x = places s x := by
    intro x
    show queued _ _ x + holders _ x + total (Call.hand x) (call :: s.calls) = _
    rw [total_cons, hhand, Nat.zero_add]
    rfl
  exact ⟨fun x => hplaces x ▸ h.once x, fun x hx => (hplaces x).trans (h.made x hx), hreleasing⟩

theorem exclusive_lookup (h : Exclusive s created) {n : ℕ} {key : κ} {wait : Wait}
    (hcall : Call.get key wait ∈ s.calls) : Exclusive (s.doLookup dedicate n key wait) created := by
  unfold doLookup
  split
  · exact h.still [] hcall rfl rfl rfl rfl (fun _ => rfl) (fun _ _ => rfl)
  · split
    · exact h.still [.choose key wait _] hcall rfl rfl rfl rfl (fun _ => rfl) (fun _ _ => rfl)
    · refine h.change [] List.nodup_nil nofun ?_ ?_
      · intro x
        have hqueue := queued_new s.containers s.containerCount x
        have hhands := total_erase (Call.hand x) hcall
        show queued (Function.update s.containers s.containerCount []) (s.containerCount + 1) x +
          holders s.held x + total (Call.hand x) (s.calls.erase (.get key wait)) ≤ _
        unfold places
        omega
      · intro k x
        have htotal := total_erase (Call.releases k x) hcall
        show total (Call.releases k x) (s.calls.erase (.get key wait)) + s.held.count (k, x) ≤
          _ + s.held.count (k, x)
        omega

theorem exclusive_create (h : Exclusive s created) (hnum : Numbered s) {k : Creating κ}
    {made : Except Exc ℕ} (hlock : s.lock = some k)
    (hfresh : ∀ x, made = .ok x → x ∉ created) :
    Exclusive (s.doCreate dedicate k made) (recordCreated (.create k made) s created) := by
  cases made with
  | error ex =>
      exact h.change [] List.nodup_nil nofun (fun _ => Nat.le_refl _) (fun _ _ => Nat.le_refl _)
  | ok x =>
      refine h.change [x] (List.nodup_singleton x) ?_ ?_ (fun _ _ => Nat.le_refl _)
      · intro y hy
        rw [List.mem_singleton.mp hy]
        exact hfresh x rfl
      · intro y
        have hqueue := queued_update s.containers (hnum.lock_lt k hlock)
          (s.containers k.container ++ [x]) y
        rw [List.count_append] at hqueue
        show queued (Function.update s.containers k.container (s.containers k.container ++ [x]))
            s.containerCount y + holders s.held y + total (Call.hand y) s.calls ≤ _
        unfold places
        omega

theorem exclusive_register (h : Exclusive s created) (k : Creating κ) :
    Exclusive (s.doRegister dedicate k) created := by
  have hclosed := closeKickedOut_closed dedicate_closes s
  have hcount : (s.closeKickedOut dedicate).containerCount = s.containerCount := by
    rw [hclosed.frame]
    rfl
  have hheld : (s.closeKickedOut dedicate).held = s.held := by
    rw [hclosed.frame]
    rfl
  refine h.change [] List.nodup_nil nofun ?_ ?_
  · -- the queue that leaves the pool is emptied, and the others stay
    intro x
    have hqueue := queued_closed hclosed.connections s.containerCount x
    show queued (s.closeKickedOut dedicate).containers (s.closeKickedOut dedicate).containerCount x +
      holders (s.closeKickedOut dedicate).held x + total (Call.hand x) (_ :: s.calls) ≤ _
    rw [hcount, hheld, total_cons]
    show _ + _ + (0 + _) ≤ _
    unfold places
    omega
  · intro key x
    show total (Call.releases key x) (_ :: s.calls) + _ ≤
      _ + (s.closeKickedOut dedicate).held.count (key, x)
    rw [hheld, total_cons]
    show 0 + _ + _ ≤ _
    omega

theorem exclusive_choose (h : Exclusive s created) (hnum : Numbered s) {key : κ} {wait : Wait}
    {c : ℕ} (hcall : Call.choose key wait c ∈ s.calls) :
    Exclusive (s.doChoose dedicate key wait c) created := by
  unfold doChoose
  split
  · rename_i x y hgot
    have hperm := dedicate_lawful.choice_got _ x y trivial hgot
    refine h.work [] List.nodup_nil nofun [.inspect key wait c x] hcall
      (hnum.calls _ hcall key c rfl) rfl rfl rfl ?_ (fun _ _ => Nat.le_refl _)
    intro z
    -- what the queue loses is in the hands of the call
    have hcount := hperm.count_eq z
    change (s.containers c).count z = (x :: y).count z at hcount
    rw [hcount, List.count_cons, total_cons, total_nil]
    show y.count z + holders s.held z + ((if x = z then 1 else 0) + 0) ≤ _
    simp only [beq_iff_eq]
    omega
  · exact h
  · exact h.still [] hcall rfl rfl rfl rfl (fun _ => rfl) (fun _ _ => rfl)

theorem exclusive_inspect (h : Exclusive s created) (hnum : Numbered s) {key : κ} {wait : Wait}
    {c x : ℕ} (hcall : Call.inspect key wait c x ∈ s.calls) :
    Exclusive (s.doInspect dedicate key wait c x) created := by
  have hc := hnum.calls _ hcall key c rfl
  unfold doInspect
  split
  · -- a closed connection is dropped
    refine h.work [] List.nodup_nil nofun [.replace key wait c] hcall hc rfl rfl rfl ?_
      (fun _ _ => Nat.le_refl _)
    intro y
    show (s.containers c).count y + holders s.held y + 0 ≤ _ + holders s.held y + _ + 0
    omega
  · refine h.work [] List.nodup_nil nofun [] hcall hc (Function.update_eq_self c _).symm rfl rfl
      ?_ ?_
    · intro y
      show (s.containers c).count y + holders ((key, x) :: s.held) y + 0 ≤
        _ + holders s.held y + (if x = y then 1 else 0) + 0
      rw [holders_cons]
      omega
    · intro k y
      show 0 + s.held.count (k, y) ≤ 0 + ((key, x) :: s.held).count (k, y)
      rw [List.count_cons]
      omega

theorem exclusive_replace (h : Exclusive s created) (hnum : Numbered s) {key : κ} {wait : Wait}
    {c : ℕ} {made : Except Exc ℕ} (hcall : Call.replace key wait c ∈ s.calls)
    (hfresh : ∀ x, made = .ok x → x ∉ created) :
    Exclusive (s.doReplace dedicate key wait c made)
      (recordCreated (.replace key wait c made) s created) := by
  cases made with
  | error ex => exact h.still [] hcall rfl rfl rfl rfl (fun _ => rfl) (fun _ _ => rfl)
  | ok x =>
      refine h.work [x] (List.nodup_singleton x) ?_ [.choose key wait c] hcall
        (hnum.calls _ hcall key c rfl) rfl rfl rfl ?_ (fun _ _ => Nat.le_refl _)
      · intro y hy
        rw [List.mem_singleton.mp hy]
        exact hfresh x rfl
      · intro y
        show (s.containers c ++ [x]).count y + holders s.held y + 0 ≤ _
        rw [List.count_append]
        omega

theorem exclusive_release (h : Exclusive s created) {key : κ} {x : ℕ}
    (hcall : Call.release key x ∈ s.calls) : Exclusive (s.doRelease key x) created := by
  unfold doRelease
  split
  · exact exclusive_drop h hcall
  · split
    · exact h.still [.put key _ x] hcall rfl rfl rfl rfl (fun _ => rfl) (fun _ _ => rfl)
    · exact exclusive_drop h hcall

theorem exclusive_put (h : Exclusive s created) (hnum : Numbered s) {key : κ} {c x : ℕ}
    (hcall : Call.put key c x ∈ s.calls) : Exclusive (s.doPut dedicate key c x) created := by
  refine h.released key x hcall (fun _ _ => rfl) rfl rfl fun y => ?_
  -- the queue gains what the caller gives back
  have hqueue := queued_update s.containers (hnum.calls _ hcall key c rfl)
    (s.containers c ++ [x]) y
  rw [List.count_append, List.count_singleton] at hqueue
  have hholders := holders_erase (h.held key x hcall (if_pos rfl)) y
  have hhands := total_erase (Call.hand y) hcall
  simp only [beq_iff_eq] at hqueue
  show queued (Function.update s.containers c (s.containers c ++ [x])) s.containerCount y +
    holders (s.held.erase (key, x)) y + total (Call.hand y) (s.calls.erase (.put key c x)) ≤ _
  unfold places
  omega

theorem exclusive_close (h : Exclusive s created) : Exclusive (s.doClose dedicate) created := by
  cases hopen : s.closed with
  | true =>
      rw [doClose_of_closed hopen]
      exact h
  | false =>
      obtain ⟨u, heq, hall⟩ := doClose_closed dedicate_closes hopen
      rw [heq, hall.frame]
      refine h.change [] List.nodup_nil nofun ?_ (fun _ _ => Nat.le_refl _)
      intro x
      have hqueue := queued_closed hall.connections s.containerCount x
      show queued u.containers s.containerCount x + holders s.held x +
        total (Call.hand x) s.calls ≤ _
      unfold places
      omega

/-- The factory returns a connection that it has not returned before. -/
def fresh {γ : Type} (l : Label κ) (_ : LRUConnectionPool κ γ) (created : List ℕ) : Bool :=
  match l with
  | .create _ (.ok x) | .replace _ _ _ (.ok x) => x ∉ created
  | _ => true

/-- A connection is released by who holds it, once, and under the key it was obtained
for. -/
def releasedOnce {γ : Type} (l : Label κ) (s : LRUConnectionPool κ γ) : Bool :=
  match l with
  | .releaseStart key x => total (Call.releases key x) s.calls < s.held.count (key, x)
  | _ => true

theorem exclusive_step {n : ℕ} {l : Label κ} (hg : guard dedicate l s)
    (hfresh : fresh l s created = true) (hreleased : releasedOnce l s = true) (hnum : Numbered s)
    (h : Exclusive s created) :
    Exclusive (update dedicate n l s) (recordCreated l s created) := by
  cases l with
  | getStart key wait =>
      refine exclusive_begin h (fun _ => rfl) fun k x => ?_
      rw [total_cons]
      exact Nat.le_trans (Nat.le_of_eq (Nat.zero_add _)) (h.releasing k x)
  | lookup key wait => exact exclusive_lookup h hg.1
  | create k made =>
      refine exclusive_create h hnum hg.1 ?_
      rintro x rfl
      simpa [fresh] using hfresh
  | register k => exact exclusive_register h k
  | choose key wait c => exact exclusive_choose h hnum hg.1
  | giveUp key wait c =>
      exact h.still [] hg.1 rfl rfl rfl rfl (fun _ => rfl) (fun _ _ => rfl)
  | inspect key wait c x => exact exclusive_inspect h hnum hg
  | replace key wait c made =>
      refine exclusive_replace h hnum hg ?_
      rintro x rfl
      simpa [fresh] using hfresh
  | releaseStart key x =>
      have hlt : total (Call.releases key x) s.calls < s.held.count (key, x) := by
        simpa [releasedOnce] using hreleased
      refine exclusive_begin h (fun _ => rfl) fun k y => ?_
      rw [total_cons]
      -- only the release that begins is counted anew
      by_cases hsame : (key, x) = (k, y)
      · cases hsame
        simp only [Call.releases, if_true]
        omega
      · simp only [Call.releases, if_neg hsame, Nat.zero_add]
        exact h.releasing k y
  | release key x => exact exclusive_release h hg.1
  | put key c x => exact exclusive_put h hnum hg
  | close => exact exclusive_close h
  | die x =>
      exact h.change [] List.nodup_nil nofun (fun _ => Nat.le_refl _) (fun _ _ => Nat.le_refl _)

end Step

/-! ## Every run -/

section Run

variable [DecidableEq κ]

/-- The runs of a dedicated pool whose factory makes fresh connections, and whose
callers release what they hold. -/
abbrev dedicated (size : Option ℕ) (n : ℕ) :
    Lts.Spec (LRUConnectionPool κ (List ℕ) × List ℕ) (Label κ) :=
  ((system dedicate size n).withHistory recordCreated []).restrict fun l p =>
    fresh l p.1 p.2 && releasedOnce l p.1

theorem exclusive_reachable (size : Option ℕ) (n : ℕ) :
    ∀ p : LRUConnectionPool κ (List ℕ) × List ℕ, (dedicated size n).Reachable p →
      Exclusive p.1 p.2 := by
  apply Lts.Spec.invariant_with (dedicated size n) (fun p => Numbered p.1)
  · intro p hr
    exact numbered_reachable dedicate_closes size n p.1 hr.of_restrict.of_history
  · rintro ⟨s, created⟩ ⟨⟨dead, hs⟩, hcreated⟩
    cases hs
    cases hcreated
    exact ⟨fun _ => Nat.zero_le _, fun _ _ => rfl, fun _ _ => Nat.zero_le _⟩
  · intro l p hg hnum _ h
    have hcond := hg.2
    simp only [Bool.and_eq_true] at hcond
    exact exclusive_step hg.1 hcond.1 hcond.2 hnum h

/-- Every connection is in at most one place, be it the queue of a key or a queue whose
key has been kicked out; and a call of `get_connection` that is about to return a
connection is alone with it. -/
structure OnePlace (s : LRUConnectionPool κ (List ℕ)) : Prop where
  queue_once : ∀ c < s.containerCount, (s.containers c).Nodup
  one_queue : ∀ c < s.containerCount, ∀ d < s.containerCount, ∀ x ∈ s.containers c,
    x ∈ s.containers d → c = d
  one_holder : (s.held.map Prod.snd).Nodup
  /-- no two calls have taken the same connection -/
  in_hand : ∀ x, total (Call.hand x) s.calls ≤ 1
  not_both : ∀ c < s.containerCount, ∀ x ∈ s.containers c, ∀ key, (key, x) ∉ s.held
  returned : ∀ key wait c x, Call.inspect key wait c x ∈ s.calls →
    (∀ key', (key', x) ∉ s.held) ∧ ∀ d < s.containerCount, x ∉ s.containers d

section OnePlace

variable {s : LRUConnectionPool κ (List ℕ)} {x : ℕ}

omit [DecidableEq κ] in
theorem queued_pos {c : ℕ} (hc : c < s.containerCount) (hx : x ∈ s.containers c) :
    1 ≤ queued s.containers s.containerCount x :=
  Nat.le_trans (List.count_pos_iff.mpr hx) (single_le_sum (f := fun d => (s.containers d).count x)
    (fun _ _ => Nat.zero_le _) (mem_range.mpr hc))

omit [PyHash κ] [DecidableEq κ] in
theorem holders_pos {held : List (κ × ℕ)} {key : κ} (h : (key, x) ∈ held) : 1 ≤ holders held x :=
  List.count_pos_iff.mpr (List.mem_map.mpr ⟨(key, x), h, rfl⟩)

omit [PyHash κ] in
theorem hand_pos {calls : List (Call κ)} {key : κ} {wait : Wait} {c : ℕ}
    (h : Call.inspect key wait c x ∈ calls) : 1 ≤ total (Call.hand x) calls := by
  rw [total_erase _ h]
  simp [Call.hand]

/-- The three kinds of places, counted. -/
theorem onePlace_of_places (h : ∀ x, places s x ≤ 1) : OnePlace s := by
  have hsum : ∀ x, queued s.containers s.containerCount x + holders s.held x +
      total (Call.hand x) s.calls ≤ 1 := h
  constructor
  · intro c hc
    refine List.nodup_iff_count_le_one.mpr fun x => ?_
    have hle : (s.containers c).count x ≤ queued s.containers s.containerCount x :=
      single_le_sum (f := fun d => (s.containers d).count x) (fun _ _ => Nat.zero_le _)
        (mem_range.mpr hc)
    have hone := hsum x
    omega
  · intro c hc d hd x hxc hxd
    by_contra hne
    have hle := count_le_queued s.containers hc hd hne x
    have hposc := List.count_pos_iff.mpr hxc
    have hposd := List.count_pos_iff.mpr hxd
    have hone := hsum x
    omega
  · refine List.nodup_iff_count_le_one.mpr fun x => ?_
    have hone := hsum x
    unfold holders at hone
    omega
  · intro x
    have hone := hsum x
    omega
  · intro c hc x hx key hmem
    have hone := hsum x
    have hqueue := queued_pos hc hx
    have hholder := holders_pos hmem
    omega
  · intro key wait c x hcall
    have hone := hsum x
    have hhand := hand_pos hcall
    constructor
    · intro key' hmem
      have hholder := holders_pos hmem
      omega
    · intro d hd hx
      have hqueue := queued_pos hd hx
      omega

end OnePlace

/-- In every run each connection is at every moment in at most one place, whatever keys
are kicked out and come back, whatever the factory does and whenever the pool is closed. -/
theorem dedicated_exclusive (size : Option ℕ) (n : ℕ) (p : LRUConnectionPool κ (List ℕ) × List ℕ)
    (hr : (dedicated size n).Reachable p) : OnePlace p.1 :=
  onePlace_of_places (exclusive_reachable size n p hr).once

/-- Key 4 is kicked out while its connection is checked out, and comes back. -/
def recreated : List (Label ℕ) :=
  let wait : Wait := ⟨true, none⟩
  [.getStart 4 wait, .lookup 4 wait, .create ⟨4, wait, 0, 1⟩ (.ok 10), .register ⟨4, wait, 0, 0⟩,
    .choose 4 wait 0, .inspect 4 wait 0 10,
    .getStart 5 wait, .lookup 5 wait, .create ⟨5, wait, 1, 1⟩ (.ok 11), .register ⟨5, wait, 1, 0⟩,
    .getStart 4 wait, .lookup 4 wait, .create ⟨4, wait, 2, 1⟩ (.ok 12), .register ⟨4, wait, 2, 0⟩,
    .releaseStart 4 10, .release 4 10, .put 4 2 10]

theorem dedicated_exclusive_recreated :
    let p := (dedicated (some 1) 1).run recreated (new dedicate (some 1) fun _ => false, [])
    p.1.containers 2 = [12, 10] ∧ p.1.dead 11 = true ∧ OnePlace p.1 :=
  ⟨by decide, by decide, dedicated_exclusive (some 1) 1 _ (reachable_history _ _ _ _ _ _ _)⟩

end Run

end LRUConnectionPool

end SummerRpc
