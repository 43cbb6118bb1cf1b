import SummerRpc.Pool.Capacity

/-! # The numbers of containers

The cache, the lock and the calls hold containers by their numbers. Whatever keys are
kicked out and whenever the pool is closed, a number given out names one container.

* `total`: a sum over the calls under way;
* `Numbered`, `numbered_reachable`: numbers given out are old ones, two entries have two
  containers, and nobody but the call that holds the lock knows the one it fills;
* `ClosedAll`: what closing the containers of some entries does.
-/

namespace SummerRpc

namespace LRUConnectionPool

variable {κ γ : Type} [PyHash κ]

/-! ## Sums over the calls -/

/-- The sum of what each call under way counts for. -/
def total {M : Type} [AddCommMonoid M] (f : Call κ → M) (calls : List (Call κ)) : M :=
  (calls.map f).sum

section Total

variable {M : Type} [AddCommMonoid M] (f : Call κ → M)

omit [PyHash κ] in
@[simp] theorem total_nil : total f [] = 0 := rfl

omit [PyHash κ] in
theorem total_cons (call : Call κ) (calls : List (Call κ)) :
    total f (call :: calls) = f call + total f calls := by
  simp [total]

omit [PyHash κ] in
theorem total_erase [DecidableEq κ] {call : Call κ} {calls : List (Call κ)} (h : call ∈ calls) :
    total f calls = f call + total f (calls.erase call) :=
  (List.sum_map_erase f h).symm

omit [PyHash κ] in
/-- A call is replaced by what it goes on as, which may be nothing. -/
theorem total_replace [DecidableEq κ] {call : Call κ} {calls calls' nexts : List (Call κ)}
    (hcall : call ∈ calls) (hcalls : calls' = nexts ++ calls.erase call) :
    f call + total f calls' = total f nexts + total f calls := by
  have happend : total f (nexts ++ calls.erase call) =
      total f nexts + total f (calls.erase call) := by
    simp only [total, List.map_append, List.sum_append]
  rw [hcalls, happend, total_erase f hcall, add_left_comm]

omit [PyHash κ] in
theorem total_eq_zero {calls : List (Call κ)} (h : ∀ call ∈ calls, f call = 0) :
    total f calls = 0 := by
  induction calls with
  | nil => rfl
  | cons call calls ih =>
      rw [total_cons, h call List.mem_cons_self, zero_add]
      exact ih fun other hmem => h other (List.mem_cons_of_mem _ hmem)

end Total

/-! ## Closing containers -/

/-- The pool with other containers and other connections closed. -/
def withContainers (s : LRUConnectionPool κ γ) (containers : ℕ → γ) (dead : ℕ → Bool) :
    LRUConnectionPool κ γ := { s with containers := containers, dead := dead }

/-- The containers `cs` have been closed, and nothing else has changed. -/
structure ClosedAll (P : ContainerClass γ) (valid : γ → Prop) (cs : List ℕ)
    (s t : LRUConnectionPool κ γ) : Prop where
  frame : t = s.withContainers t.containers t.dead
  valid : (∀ c, valid (s.containers c)) → ∀ c, valid (t.containers c)
  untouched : ∀ c, c ∉ cs → t.containers c = s.containers c
  emptied : ∀ c ∈ cs, P.connections (t.containers c) = []
  dead_mono : ∀ x, s.dead x = true → t.dead x = true
  dead : ∀ c ∈ cs, ∀ x ∈ P.connections (s.containers c), t.dead x = true

section Closing

variable {P : ContainerClass γ} {valid : γ → Prop} {s t : LRUConnectionPool κ γ}

theorem ClosedAll.nil (P : ContainerClass γ) (valid : γ → Prop) (s : LRUConnectionPool κ γ) :
    ClosedAll P valid [] s s where
  frame := rfl
  valid := id
  untouched := fun _ _ => rfl
  emptied := nofun
  dead_mono := fun _ h => h
  dead := nofun

/-- A container loses nothing but by being closed. -/
theorem ClosedAll.connections {cs : List ℕ} (h : ClosedAll P valid cs s t) (c : ℕ) :
    t.containers c = s.containers c ∨ P.connections (t.containers c) = [] := by
  by_cases hc : c ∈ cs
  · exact Or.inr (h.emptied c hc)
  · exact Or.inl (h.untouched c hc)

theorem closedAll_foldl (hP : Closes P valid) (cs : List ℕ) (s : LRUConnectionPool κ γ) :
    ClosedAll P valid cs s (cs.foldl (fun s c => s.closeContainer P c) s) := by
  induction cs generalizing s with
  | nil => exact ClosedAll.nil P valid s
  | cons c cs ih =>
      -- what closing the first container does, before the others are closed
      have hself : (s.closeContainer P c).containers c = (P.closeConnections (s.containers c)).2 :=
        Function.update_self _ _ _
      have hother : ∀ d, d ≠ c → (s.closeContainer P c).containers d = s.containers d :=
        fun d hd => Function.update_of_ne hd _ _
      have hmono : ∀ x, s.dead x = true → (s.closeContainer P c).dead x = true := by
        intro x hx
        show (s.dead x || _) = true
        rw [hx, Bool.true_or]
      have hdead : ∀ x ∈ P.connections (s.containers c), (s.closeContainer P c).dead x = true := by
        intro x hx
        show (_ || (P.closeConnections (s.containers c)).1.contains x) = true
        rw [hP.closed, List.contains_iff_mem.mpr hx, Bool.or_true]
      have h := ih (s.closeContainer P c)
      rw [List.foldl_cons]
      constructor
      · rw [h.frame]
        rfl
      · intro hv
        apply h.valid
        intro d
        by_cases hd : d = c
        · rw [hd, hself]
          exact hP.valid_close _
        · rw [hother d hd]
          exact hv d
      · intro d hd
        rw [List.mem_cons, not_or] at hd
        rw [h.untouched d hd.2, hother d hd.1]
      · intro d hd
        rcases h.connections d with heq | hnil
        · rcases List.mem_cons.mp hd with rfl | hmem
          · rw [heq, hself]
            exact hP.left _
          · exact h.emptied d hmem
        · exact hnil
      · intro x hx
        exact h.dead_mono x (hmono x hx)
      · intro d hd x hx
        by_cases heq : d = c
        · -- closed by the first step, and nothing revives a connection
          rw [heq] at hx
          exact h.dead_mono x (hdead x hx)
        · rcases List.mem_cons.mp hd with rfl | hmem
          · exact absurd rfl heq
          · exact h.dead d hmem x (by rw [hother d heq]; exact hx)

/-- The containers of the entry about to be kicked out, if there is one. -/
def kicked (s : LRUConnectionPool κ γ) : List ℕ :=
  s.pool.willBeKickedOut.toList.map Entry.value

theorem closeKickedOut_closed (hP : Closes P valid) (s : LRUConnectionPool κ γ) :
    ClosedAll P valid s.kicked s (s.closeKickedOut P) := by
  unfold kicked closeKickedOut
  split
  · rename_i e he
    rw [he]
    exact closedAll_foldl hP [e.value] s
  · rename_i he
    rw [he]
    exact ClosedAll.nil P valid s

/-- `close` closes the containers of all entries. -/
theorem doClose_closed (hP : Closes P valid) (hopen : s.closed = false) :
    ∃ t, s.doClose P = { t with closed := true } ∧
      ClosedAll P valid (s.pool.entries.reverse.map Entry.value) s t := by
  refine ⟨_, ?_, closedAll_foldl hP _ s⟩
  unfold doClose
  rw [if_neg (by rw [hopen]; exact Bool.false_ne_true), List.foldl_map, LRUCache.iteritems,
    List.foldl_map]

theorem doClose_of_closed (hclosed : s.closed = true) : s.doClose P = s := by
  unfold doClose
  rw [if_pos hclosed]

end Closing

/-! ## The invariant -/

/-- The numbers the pool, the lock and the calls hold. -/
structure Numbered (s : LRUConnectionPool κ γ) : Prop where
  entries : ∀ e ∈ s.pool.entries, e.value < s.containerCount
  inj : ∀ d ∈ s.pool.entries, ∀ e ∈ s.pool.entries, d.value = e.value → d = e
  calls : ∀ call ∈ s.calls, ∀ key c, call.place = some (key, c) → c < s.containerCount
  lock_lt : ∀ k, s.lock = some k → k.container < s.containerCount
  /-- the container being filled is nobody's yet, and its key is not in the pool -/
  lock_entries : ∀ k, s.lock = some k →
    ∀ e ∈ s.pool.entries, e.value ≠ k.container ∧ e.hash ≠ PyHash.hash k.key
  lock_calls : ∀ k, s.lock = some k →
    ∀ call ∈ s.calls, ∀ key c, call.place = some (key, c) → c ≠ k.container

namespace Numbered

variable {s t : LRUConnectionPool κ γ}

/-- Nobody is counted at a container whose number has not been given out. -/
theorem nobody (h : Numbered s) {c : ℕ} (hc : s.containerCount ≤ c) {f : Call κ → ℕ}
    (hnone : ∀ call, call.place = none → f call = 0)
    (hplace : ∀ call key d, call.place = some (key, d) → c ≠ d → f call = 0) :
    total f s.calls = 0 := by
  refine total_eq_zero _ fun call hmem => ?_
  cases hat : call.place with
  | none => exact hnone call hat
  | some place =>
      have hlt := h.calls call hmem place.1 place.2 hat
      exact hplace call place.1 place.2 hat (by omega)

/-- A step after which the calls work on containers of entries, or on containers that
calls worked on before. -/
theorem keep (h : Numbered s) (hpool : ∀ e, e ∈ t.pool.entries ↔ e ∈ s.pool.entries)
    (hcount : t.containerCount = s.containerCount)
    (hlock : ∀ k, t.lock = some k →
      ∃ k', s.lock = some k' ∧ k'.container = k.container ∧ k'.key = k.key)
    (hcalls : ∀ call ∈ t.calls, ∀ key c, call.place = some (key, c) →
      (∃ other ∈ s.calls, ∃ key', other.place = some (key', c)) ∨
        ∃ e ∈ s.pool.entries, e.value = c) : Numbered t := by
  constructor
  · intro e he
    rw [hcount]
    exact h.entries e ((hpool e).mp he)
  · intro d hd e he
    exact h.inj d ((hpool d).mp hd) e ((hpool e).mp he)
  · intro call hcall key c hplace
    rw [hcount]
    rcases hcalls call hcall key c hplace with ⟨other, hother, key', hp⟩ | ⟨e, he, rfl⟩
    · exact h.calls other hother key' c hp
    · exact h.entries e he
  · intro k hk
    obtain ⟨k', hk', hcont, _⟩ := hlock k hk
    rw [hcount, ← hcont]
    exact h.lock_lt k' hk'
  · intro k hk e he
    obtain ⟨k', hk', hcont, hkey⟩ := hlock k hk
    rw [← hcont, ← hkey]
    exact h.lock_entries k' hk' e ((hpool e).mp he)
  · intro k hk call hcall key c hplace
    obtain ⟨k', hk', hcont, _⟩ := hlock k hk
    rw [← hcont]
    rcases hcalls call hcall key c hplace with ⟨other, hother, key', hp⟩ | ⟨e, he, rfl⟩
    · exact h.lock_calls k' hk' other hother key' c hp
    · exact (h.lock_entries k' hk' e he).1

variable [DecidableEq κ]

/-- A call goes on at its place, or leaves, and the cache and the lock stay. -/
theorem work (h : Numbered s) {call : Call κ} {key : κ} {c : ℕ} (hcall : call ∈ s.calls)
    (hplace : call.place = some (key, c)) (hpool : t.pool = s.pool)
    (hcount : t.containerCount = s.containerCount) (hlock : t.lock = s.lock)
    (hcalls : t.calls = s.calls.erase call ∨
      ∃ next : Call κ, next.place = some (key, c) ∧ t.calls = next :: s.calls.erase call) :
    Numbered t := by
  refine h.keep (fun e => by rw [hpool]) hcount ?_ ?_
  · intro k hk
    rw [hlock] at hk
    exact ⟨k, hk, rfl, rfl⟩
  · intro other hother key' c' hplace'
    left
    rcases hcalls with heq | ⟨next, hnext, heq⟩
    · rw [heq] at hother
      exact ⟨other, List.mem_of_mem_erase hother, key', hplace'⟩
    · rw [heq] at hother
      rcases List.mem_cons.mp hother with rfl | hmem
      · rw [hnext] at hplace'
        cases hplace'
        exact ⟨call, hcall, key, hplace⟩
      · exact ⟨other, List.mem_of_mem_erase hmem, key', hplace'⟩

omit [DecidableEq κ] in
/-- A call without a place begins or ends. -/
theorem idle (h : Numbered s) (hpool : t.pool = s.pool)
    (hcount : t.containerCount = s.containerCount) (hlock : t.lock = s.lock)
    (hcalls : ∀ call ∈ t.calls, call ∈ s.calls ∨ call.place = none) : Numbered t := by
  refine h.keep (fun e => by rw [hpool]) hcount ?_ ?_
  · intro k hk
    rw [hlock] at hk
    exact ⟨k, hk, rfl, rfl⟩
  · intro call hcall key c hplace
    rcases hcalls call hcall with hold | hnone
    · exact Or.inl ⟨call, hold, key, hplace⟩
    · rw [hnone] at hplace
      cases hplace

/-- A call finds the key in the pool. -/
theorem found (h : Numbered s) {key : κ} {c : ℕ} {pool : LRUCache κ ℕ} {call next : Call κ}
    (hget : s.pool.getItem key = some (c, pool)) (hnext : next.place = some (key, c)) :
    Numbered ({ s with pool := pool }.goOn call next) := by
  obtain ⟨e, he, _, hvalue, _⟩ := LRUCache.getItem_some hget
  refine h.keep ?_ rfl (fun k hk => ⟨k, hk, rfl, rfl⟩) ?_
  · exact fun _ => LRUCache.mem_getItem hget
  · intro other hother key' c' hplace
    rcases List.mem_cons.mp hother with rfl | hmem
    · rw [hnext] at hplace
      cases hplace
      exact Or.inr ⟨e, he, hvalue⟩
    · exact Or.inl ⟨other, List.mem_of_mem_erase hmem, key', hplace⟩

end Numbered

section Step

variable [DecidableEq κ] {P : ContainerClass γ} {valid : γ → Prop} {n : ℕ}
  {s : LRUConnectionPool κ γ}

theorem numbered_lookup (h : Numbered s) (key : κ) (wait : Wait) :
    Numbered (s.doLookup P n key wait) := by
  unfold doLookup
  split
  · exact h.idle rfl rfl rfl fun call hcall => Or.inl (List.mem_of_mem_erase hcall)
  · split
    · rename_i c pool hget
      exact h.found hget rfl
    · -- the new container has the next number
      rename_i hget
      have habsent := LRUCache.contains_eq_false.mp (LRUCache.getItem_none hget)
      constructor
      · exact fun e he => Nat.lt_succ_of_lt (h.entries e he)
      · exact h.inj
      · intro call hcall k c hplace
        exact Nat.lt_succ_of_lt (h.calls call (List.mem_of_mem_erase hcall) k c hplace)
      · intro k hk
        cases hk
        exact Nat.lt_succ_self _
      · intro k hk e he
        cases hk
        exact ⟨Nat.ne_of_lt (h.entries e he), LRUCache.find_none.mp habsent e he⟩
      · intro k hk call hcall key' c hplace
        cases hk
        exact Nat.ne_of_lt (h.calls call (List.mem_of_mem_erase hcall) key' c hplace)

omit [DecidableEq κ] in
theorem numbered_register (hP : Closes P valid) (h : Numbered s) {k : Creating κ}
    (hlock : s.lock = some k) :
    Numbered (s.doRegister P k) := by
  have hframe := (closeKickedOut_closed hP s).frame
  have hentries : ∀ e ∈ (s.pool.setItem k.key k.container).entries,
      e = ⟨k.key, k.container⟩ ∨ e ∈ s.pool.entries := fun e he => LRUCache.mem_setItem he
  unfold doRegister
  rw [hframe]
  constructor
  · intro e he
    rcases hentries e he with rfl | hold
    · exact h.lock_lt k hlock
    · exact h.entries e hold
  · -- the number of the container being filled is that of no other entry
    intro d hd e he hvalue
    rcases hentries d hd with rfl | hd'
    · rcases hentries e he with rfl | he'
      · rfl
      · exact absurd hvalue.symm (h.lock_entries k hlock e he').1
    · rcases hentries e he with rfl | he'
      · exact absurd hvalue (h.lock_entries k hlock d hd').1
      · exact h.inj d hd' e he' hvalue
  · intro call hcall key c hplace
    rcases List.mem_cons.mp hcall with rfl | hmem
    · cases hplace
      exact h.lock_lt k hlock
    · exact h.calls call hmem key c hplace
  · intro k' hk'
    cases hk'
  · intro k' hk'
    cases hk'
  · intro k' hk'
    cases hk'

omit [DecidableEq κ] in
/-- The entries after a new container has been stored. -/
theorem mem_register (P : ContainerClass γ) {k : Creating κ} (hnum : Numbered s)
    (hlock : s.lock = some k) {e : Entry κ ℕ} :
    e ∈ (s.doRegister P k).pool.entries ↔
      e = ⟨k.key, k.container⟩ ∨ (e ∈ s.pool.entries ∧ s.pool.willBeKickedOut ≠ some e) := by
  have habsent : s.pool.contains k.key = false :=
    LRUCache.contains_eq_false.mpr
      (LRUCache.find_none.mpr fun d hd => (hnum.lock_entries k hlock d hd).2)
  show e ∈ (s.pool.setItem k.key k.container).entries ↔ _
  cases hout : s.pool.willBeKickedOut with
  | none =>
      rw [LRUCache.entries_setItem_of_room habsent hout, List.mem_cons]
      simp
  | some last =>
      rw [LRUCache.mem_setItem_of_full habsent hout]
      simp only [Ne, Option.some.injEq, eq_comm]

theorem numbered_step (hP : Closes P valid) {l : Label κ} (hg : guard P l s) (h : Numbered s) :
    Numbered (update P n l s) := by
  cases l with
  | getStart key wait =>
      refine h.idle rfl rfl rfl fun call hcall => ?_
      rcases List.mem_cons.mp hcall with rfl | hmem
      · exact Or.inr rfl
      · exact Or.inl hmem
  | lookup key wait => exact numbered_lookup h key wait
  | create k made =>
      cases made with
      | error ex =>
          -- the number of the container that was being filled is not used again
          refine h.keep (fun _ => Iff.rfl) rfl (fun k' hk' => by cases hk') ?_
          exact fun call hcall key c hplace => Or.inl ⟨call, hcall, key, hplace⟩
      | ok x =>
          refine h.keep (fun _ => Iff.rfl) rfl ?_ ?_
          · intro k' hk'
            cases hk'
            exact ⟨k, hg.1, rfl, rfl⟩
          · exact fun call hcall key c hplace => Or.inl ⟨call, hcall, key, hplace⟩
  | register k => exact numbered_register hP h hg.1
  | choose key wait c =>
      show Numbered (s.doChoose P key wait c)
      unfold doChoose
      split
      · exact h.work hg.1 rfl rfl rfl rfl (Or.inr ⟨_, rfl, rfl⟩)
      · exact h
      · exact h.work hg.1 rfl rfl rfl rfl (Or.inl rfl)
  | giveUp key wait c => exact h.work hg.1 rfl rfl rfl rfl (Or.inl rfl)
  | inspect key wait c x =>
      show Numbered (s.doInspect P key wait c x)
      unfold doInspect
      split
      · exact h.work hg rfl rfl rfl rfl (Or.inr ⟨_, rfl, rfl⟩)
      · exact h.work hg rfl rfl rfl rfl (Or.inl rfl)
  | replace key wait c made =>
      cases made with
      | error ex => exact h.work hg rfl rfl rfl rfl (Or.inl rfl)
      | ok x => exact h.work hg rfl rfl rfl rfl (Or.inr ⟨.choose key wait c, rfl, rfl⟩)
  | releaseStart key x =>
      refine h.idle rfl rfl rfl fun call hcall => ?_
      rcases List.mem_cons.mp hcall with rfl | hmem
      · exact Or.inr rfl
      · exact Or.inl hmem
  | release key x =>
      show Numbered (s.doRelease key x)
      unfold doRelease
      split
      · exact h.idle rfl rfl rfl fun call hcall => Or.inl (List.mem_of_mem_erase hcall)
      · split
        · rename_i c pool hget
          exact h.found hget rfl
        · exact h.idle rfl rfl rfl fun call hcall => Or.inl (List.mem_of_mem_erase hcall)
  | put key c x => exact h.work hg rfl rfl rfl rfl (Or.inl rfl)
  | close =>
      show Numbered (s.doClose P)
      cases hclosed : s.closed with
      | true =>
          rw [doClose_of_closed hclosed]
          exact h
      | false =>
          obtain ⟨t, heq, hall⟩ := doClose_closed hP hclosed
          rw [heq, hall.frame]
          exact h.idle rfl rfl rfl fun call hcall => Or.inl hcall
  | die x => exact h.idle rfl rfl rfl fun call hcall => Or.inl hcall

omit [DecidableEq κ] in
/-- No number is given out at the start. -/
theorem numbered_new (P : ContainerClass γ) (size : Option ℕ) (dead : ℕ → Bool) :
    Numbered (new P size dead : LRUConnectionPool κ γ) where
  entries := nofun
  inj := nofun
  calls := nofun
  lock_lt := nofun
  lock_entries := nofun
  lock_calls := nofun

/-- In every run a number given out names one container. -/
theorem numbered_reachable (hP : Closes P valid) (size : Option ℕ) (n : ℕ) :
    ∀ s : LRUConnectionPool κ γ, (system P size n).Reachable s → Numbered s := by
  apply Lts.Spec.invariant
  · rintro s ⟨dead, rfl⟩
    exact numbered_new P size dead
  · intro l s hg h
    exact numbered_step hP hg h

end Step

end LRUConnectionPool

end SummerRpc
