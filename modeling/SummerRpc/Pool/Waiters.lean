import SummerRpc.Pool.Numbers

/-! # Who waits on which queue

A call of `get_connection` looks its queue up under the lock and waits on it without
the lock. In between another call may kick the key out of the pool, and what is
released under the key then goes to another queue or to none.

* `Call.chooses`: the calls that choose from a queue, which wait when it is empty;
* `Waiting`, `waiting_step`: a queue that is not in the pool holds a connection for
  each of them, unless a key is kicked out whose queue somebody is choosing from;
* `waiter_registered`: nobody waits on a queue that is not in the pool then;
* `evicted_waiter`: such an eviction leaves a call waiting at once.
-/

namespace SummerRpc

namespace LRUConnectionPool

variable {κ : Type} [PyHash κ]

/-- One if the call chooses from the container `c`. -/
def Call.chooses (c : ℕ) : Call κ → ℕ
  | .choose _ _ d => if d = c then 1 else 0
  | _ => 0

/-- A queue that is not in the pool holds a connection for every call that chooses
from it; the queue of a key is used by calls for keys of its hash. -/
structure Waiting (s : LRUConnectionPool κ (List ℕ)) : Prop where
  served : ∀ c, total (Call.chooses c) s.calls ≤ (s.containers c).length ∨
    ∃ e ∈ s.pool.entries, e.value = c
  home : ∀ e ∈ s.pool.entries, ∀ call ∈ s.calls, ∀ key, call.place = some (key, e.value) →
    PyHash.hash key = e.hash

/-- No call is choosing from the queue of the key about to be kicked out. -/
def undisturbed (l : Label κ) (s : LRUConnectionPool κ (List ℕ)) : Bool :=
  match l with
  | .register _ =>
    match s.pool.willBeKickedOut with
    | some e => total (Call.chooses e.value) s.calls = 0
    | none => true
  | _ => true

/-! ## Small facts -/

omit [PyHash κ] in
theorem chooses_of_none {call : Call κ} (h : call.place = none) (c : ℕ) : call.chooses c = 0 := by
  cases call with
  | get | release => rfl
  | choose | inspect | replace | put => cases h

omit [PyHash κ] in
/-- A call chooses from its own container only. -/
theorem chooses_of_place {call : Call κ} {key : κ} {c d : ℕ} (h : call.place = some (key, c))
    (hd : d ≠ c) : call.chooses d = 0 := by
  have hne : c ≠ d := fun heq => hd heq.symm
  cases call with
  | get | release => cases h
  | choose | inspect | replace | put =>
      cases h
      simp [Call.chooses, hne]

/-! ## One step -/

section Step

variable {s t : LRUConnectionPool κ (List ℕ)}

/-- A step that leaves the entries alone and takes nothing from a queue that a call
chooses from. -/
theorem Waiting.keep (h : Waiting s) (hpool : ∀ e, e ∈ t.pool.entries ↔ e ∈ s.pool.entries)
    (hserved : ∀ c, (∀ e ∈ s.pool.entries, e.value ≠ c) →
      total (Call.chooses c) s.calls ≤ (s.containers c).length →
      total (Call.chooses c) t.calls ≤ (t.containers c).length)
    (hhome : ∀ call ∈ t.calls, ∀ key c, call.place = some (key, c) →
      (∃ other ∈ s.calls, other.place = some (key, c)) ∨
        ∃ e ∈ s.pool.entries, e.hash = PyHash.hash key ∧ e.value = c)
    (hinj : ∀ d ∈ s.pool.entries, ∀ e ∈ s.pool.entries, d.value = e.value → d = e) :
    Waiting t := by
  constructor
  · intro c
    by_cases hin : ∃ e ∈ s.pool.entries, e.value = c
    · obtain ⟨e, he, hvalue⟩ := hin
      exact Or.inr ⟨e, (hpool e).mpr he, hvalue⟩
    · left
      have hnone : ∀ e ∈ s.pool.entries, e.value ≠ c := fun e he heq => hin ⟨e, he, heq⟩
      rcases h.served c with hle | hentry
      · exact hserved c hnone hle
      · exact absurd hentry hin
  · intro e he call hcall key hplace
    have hold := (hpool e).mp he
    rcases hhome call hcall key e.value hplace with ⟨other, hother, hp⟩ | ⟨d, hd, hhash, hvalue⟩
    · exact h.home e hold other hother key hp
    · rw [← hhash, hinj d hd e hold hvalue]

variable [DecidableEq κ]

/-- A call that goes on at its place, or leaves, with what it has done to its queue. -/
theorem Waiting.work (h : Waiting s) (hnum : Numbered s) {call : Call κ} {key : κ} {c : ℕ}
    {y : List ℕ} (nexts : List (Call κ)) (hcall : call ∈ s.calls)
    (hplace : call.place = some (key, c))
    (hcontainers : t.containers = Function.update s.containers c y) (hpool : t.pool = s.pool)
    (hcalls : t.calls = nexts ++ s.calls.erase call)
    (hnexts : ∀ next ∈ nexts, next.place = some (key, c))
    (hserved : total (Call.chooses c) nexts + (s.containers c).length ≤
      call.chooses c + y.length) : Waiting t := by
  refine h.keep (fun e => by rw [hpool]) ?_ ?_ hnum.inj
  · intro d _ hle
    have htotal := total_replace (Call.chooses d) hcall hcalls
    rw [hcontainers]
    by_cases hd : d = c
    · subst hd
      rw [Function.update_self]
      omega
    · have hnone : total (Call.chooses d) nexts = 0 :=
        total_eq_zero _ fun next hnext => chooses_of_place (hnexts next hnext) hd
      rw [Function.update_of_ne hd]
      omega
  · intro other hother key' c' hplace'
    rw [hcalls, List.mem_append] at hother
    rcases hother with hnext | hmem
    · rw [hnexts other hnext] at hplace'
      cases hplace'
      exact Or.inl ⟨call, hcall, hplace⟩
    · exact Or.inl ⟨other, List.mem_of_mem_erase hmem, hplace'⟩

omit [DecidableEq κ] in
/-- A call without a place begins or ends. -/
theorem Waiting.idle (h : Waiting s) (hnum : Numbered s) (hpool : t.pool = s.pool)
    (hcontainers : t.containers = s.containers)
    (hchooses : ∀ c, total (Call.chooses c) t.calls = total (Call.chooses c) s.calls)
    (hcalls : ∀ call ∈ t.calls, call ∈ s.calls ∨ call.place = none) : Waiting t := by
  refine h.keep (fun e => by rw [hpool]) ?_ ?_ hnum.inj
  · intro c _ hle
    rw [hcontainers, hchooses]
    exact hle
  · intro call hcall key c hplace
    rcases hcalls call hcall with hold | hnone
    · exact Or.inl ⟨call, hold, hplace⟩
    · rw [hnone] at hplace
      cases hplace

/-- A call without a place leaves. -/
theorem Waiting.leave (h : Waiting s) (hnum : Numbered s) {call : Call κ} (hcall : call ∈ s.calls)
    (hnone : call.place = none) (hpool : t.pool = s.pool) (hcontainers : t.containers = s.containers)
    (hcalls : t.calls = s.calls.erase call) : Waiting t := by
  refine h.idle hnum hpool hcontainers ?_ ?_
  · intro c
    rw [hcalls, total_erase _ hcall, chooses_of_none hnone, Nat.zero_add]
  · intro other hother
    rw [hcalls] at hother
    exact Or.inl (List.mem_of_mem_erase hother)

/-- A call finds the key in the pool and goes on at its container. -/
theorem Waiting.found (h : Waiting s) (hnum : Numbered s) {key : κ} {c : ℕ} {pool : LRUCache κ ℕ}
    {call next : Call κ} (hcall : call ∈ s.calls)
    (hget : s.pool.getItem key = some (c, pool)) (hnext : next.place = some (key, c)) :
    Waiting ({ s with pool := pool }.goOn call next) := by
  obtain ⟨e, he, hhash, hvalue, _⟩ := LRUCache.getItem_some hget
  refine h.keep ?_ ?_ ?_ hnum.inj
  · exact fun _ => LRUCache.mem_getItem hget
  · -- the container is that of an entry
    intro d hd hle
    have hne : d ≠ c := fun heq => hd e he (hvalue.trans heq.symm)
    have htotal := total_erase (Call.chooses d) hcall
    show total (Call.chooses d) (next :: s.calls.erase call) ≤ (s.containers d).length
    rw [total_cons, chooses_of_place hnext hne]
    omega
  · intro other hother key' c' hplace
    rcases List.mem_cons.mp hother with rfl | hmem
    · rw [hnext] at hplace
      cases hplace
      exact Or.inr ⟨e, he, hhash, hvalue⟩
    · exact Or.inl ⟨other, List.mem_of_mem_erase hmem, hplace⟩

theorem waiting_lookup (h : Waiting s) (hnum : Numbered s) {n : ℕ} {key : κ} {wait : Wait}
    (hcall : Call.get key wait ∈ s.calls) : Waiting (s.doLookup dedicate n key wait) := by
  unfold doLookup
  split
  · exact h.leave hnum hcall rfl rfl rfl rfl
  · split
    · rename_i c pool hget
      exact h.found hnum hcall hget rfl
    · refine h.keep (fun _ => Iff.rfl) ?_ ?_ hnum.inj
      · intro c _ hle
        show total (Call.chooses c) (s.calls.erase (.get key wait)) ≤
          (Function.update s.containers s.containerCount [] c).length
        have htotal := total_erase (Call.chooses c) hcall
        by_cases hc : c = s.containerCount
        · -- a container of a new number is used by nobody
          have hnobody : total (Call.chooses c) s.calls = 0 :=
            hnum.nobody (Nat.le_of_eq hc.symm) (fun _ hnone => chooses_of_none hnone c)
              (fun _ _ _ hplace hne => chooses_of_place hplace hne)
          omega
        · rw [Function.update_of_ne hc]
          omega
      · exact fun call hmem key' c hplace => Or.inl ⟨call, List.mem_of_mem_erase hmem, hplace⟩

omit [DecidableEq κ] in
theorem waiting_create (h : Waiting s) (hnum : Numbered s) {k : Creating κ} {made : Except Exc ℕ} :
    Waiting (s.doCreate dedicate k made) := by
  cases made with
  | error ex => exact h.idle hnum rfl rfl (fun _ => rfl) fun call hcall => Or.inl hcall
  | ok x =>
      refine h.keep (fun _ => Iff.rfl) ?_ (fun call hmem _ _ hplace => Or.inl ⟨call, hmem, hplace⟩)
        hnum.inj
      intro c _ hle
      show total (Call.chooses c) s.calls ≤
        (Function.update s.containers k.container (s.containers k.container ++ [x]) c).length
      by_cases hc : c = k.container
      · subst hc
        rw [Function.update_self, List.length_append]
        omega
      · rw [Function.update_of_ne hc]
        exact hle

theorem waiting_register (h : Waiting s) (hnum : Numbered s) {k : Creating κ}
    (hlock : s.lock = some k) (hcond : undisturbed (.register k) s = true) :
    Waiting (s.doRegister dedicate k) := by
  have hclosed := closeKickedOut_closed dedicate_closes s
  constructor
  · intro c
    show total (Call.chooses c) (.choose k.key k.wait k.container :: s.calls) ≤
      ((s.closeKickedOut dedicate).containers c).length ∨ _
    by_cases hc : c = k.container
    · exact Or.inr ⟨_, (mem_register dedicate hnum hlock).mpr (Or.inl rfl), hc.symm⟩
    · rw [total_cons, chooses_of_place rfl hc, Nat.zero_add]
      by_cases hin : ∃ e ∈ s.pool.entries, e.value = c
      · obtain ⟨e, he, hvalue⟩ := hin
        by_cases hout : s.pool.willBeKickedOut = some e
        · -- nobody chooses from the queue that leaves the pool
          left
          simp only [undisturbed, hout, decide_eq_true_eq, hvalue] at hcond
          rw [hcond]
          exact Nat.zero_le _
        · exact Or.inr ⟨e, (mem_register dedicate hnum hlock).mpr (Or.inr ⟨he, hout⟩), hvalue⟩
      · left
        have huntouched : c ∉ s.kicked := by
          intro hmem
          obtain ⟨e, he, hvalue⟩ := List.mem_map.mp hmem
          have hlast := (LRUCache.willBeKickedOut_some (Option.mem_toList.mp he)).2
          exact hin ⟨e, List.mem_of_getLast? hlast, hvalue⟩
        rw [hclosed.untouched c huntouched]
        exact (h.served c).resolve_right hin
  · intro e he call hcall key hplace
    rcases (mem_register dedicate hnum hlock).mp he with rfl | ⟨hold, _⟩
    · rcases List.mem_cons.mp hcall with rfl | hmem
      · cases hplace
        rfl
      · -- nobody works on the container being filled
        exact absurd rfl (hnum.lock_calls k hlock call hmem key _ hplace)
    · rcases List.mem_cons.mp hcall with rfl | hmem
      · have hvalue : k.container = e.value := congrArg Prod.snd (Option.some.inj hplace)
        exact absurd hvalue.symm (hnum.lock_entries k hlock e hold).1
      · exact h.home e hold call hmem key hplace

theorem waiting_choose (h : Waiting s) (hnum : Numbered s) {key : κ} {wait : Wait} {c : ℕ}
    (hcall : Call.choose key wait c ∈ s.calls) : Waiting (s.doChoose dedicate key wait c) := by
  unfold doChoose
  split
  · rename_i x y hgot
    have hlength := (dedicate_lawful.choice_got _ x y trivial hgot).length_eq
    change (s.containers c).length = (x :: y).length at hlength
    refine h.work hnum [.inspect key wait c x] hcall rfl rfl rfl rfl ?_ ?_
    · exact List.forall_mem_singleton.mpr rfl
    · rw [hlength, total_cons, total_nil]
      simp only [Call.chooses, if_true, List.length_cons]
      omega
  · exact h
  · refine h.work hnum [] hcall rfl (Function.update_eq_self c _).symm rfl rfl nofun ?_
    show 0 + (s.containers c).length ≤ _ + (s.containers c).length
    omega

theorem waiting_inspect (h : Waiting s) (hnum : Numbered s) {key : κ} {wait : Wait} {c x : ℕ}
    (hcall : Call.inspect key wait c x ∈ s.calls) : Waiting (s.doInspect dedicate key wait c x) := by
  unfold doInspect
  split
  · exact h.work hnum [.replace key wait c] hcall rfl rfl rfl rfl
      (List.forall_mem_singleton.mpr rfl) (Nat.le_refl _)
  · exact h.work hnum [] hcall rfl (Function.update_eq_self c _).symm rfl rfl nofun (Nat.le_refl _)

theorem waiting_replace (h : Waiting s) (hnum : Numbered s) {key : κ} {wait : Wait} {c : ℕ}
    {made : Except Exc ℕ} (hcall : Call.replace key wait c ∈ s.calls) :
    Waiting (s.doReplace dedicate key wait c made) := by
  cases made with
  | error ex =>
      exact h.work hnum [] hcall rfl (Function.update_eq_self c _).symm rfl rfl nofun (Nat.le_refl _)
  | ok x =>
      refine h.work hnum [.choose key wait c] hcall rfl rfl rfl rfl ?_ ?_
      · exact List.forall_mem_singleton.mpr rfl
      · -- the call that waits again has put a connection there
        show (if c = c then 1 else 0) + 0 + _ ≤ 0 + (s.containers c ++ [x]).length
        rw [if_pos rfl, List.length_append, List.length_singleton]
        omega

theorem waiting_put (h : Waiting s) (hnum : Numbered s) {key : κ} {c x : ℕ}
    (hcall : Call.put key c x ∈ s.calls) : Waiting (s.doPut dedicate key c x) := by
  refine h.work hnum [] hcall rfl rfl rfl rfl nofun ?_
  show 0 + (s.containers c).length ≤ 0 + (s.containers c ++ [x]).length
  rw [List.length_append]
  omega

/-- A pool that is closed stays closed. -/
theorem closed_step {γ : Type} {P : ContainerClass γ} {valid : γ → Prop} (hC : Closes P valid)
    {n : ℕ} {l : Label κ} {s : LRUConnectionPool κ γ} (hclosed : s.closed = true) :
    (update P n l s).closed = true := by
  cases l with
  | getStart | giveUp | releaseStart | put | die => exact hclosed
  | lookup key wait =>
      show (s.doLookup P n key wait).closed = true
      unfold doLookup
      -- a closed pool is not looked into
      rw [if_pos hclosed]
      exact hclosed
  | create k made => cases made <;> exact hclosed
  | register k =>
      show (s.closeKickedOut P).closed = true
      rw [(closeKickedOut_closed hC s).frame]
      exact hclosed
  | choose key wait c =>
      show (s.doChoose P key wait c).closed = true
      unfold doChoose
      split <;> exact hclosed
  | inspect key wait c x =>
      show (s.doInspect P key wait c x).closed = true
      unfold doInspect
      split <;> exact hclosed
  | replace key wait c made => cases made <;> exact hclosed
  | release key x =>
      show (s.doRelease key x).closed = true
      unfold doRelease
      rw [if_pos hclosed]
      exact hclosed
  | close =>
      show (s.doClose P).closed = true
      rw [doClose_of_closed hclosed]
      exact hclosed

theorem waiting_step {n : ℕ} {l : Label κ} (hg : guard dedicate l s)
    (hcond : undisturbed l s = true) (hnum : Numbered s) (hopen : s.closed = false)
    (hstays : (update dedicate n l s).closed = false) (h : Waiting s) :
    Waiting (update dedicate n l s) := by
  have hbegin : ∀ call : Call κ, call.place = none →
      Waiting { s with calls := call :: s.calls } := by
    intro call hplace
    refine h.idle hnum rfl rfl ?_ ?_
    · intro c
      show total _ (call :: s.calls) = _
      rw [total_cons, chooses_of_none hplace, Nat.zero_add]
    · intro other hmem
      rcases List.mem_cons.mp hmem with rfl | hold
      · exact Or.inr hplace
      · exact Or.inl hold
  cases l with
  | getStart key wait => exact hbegin _ rfl
  | lookup key wait => exact waiting_lookup h hnum hg.1
  | create k made => exact waiting_create h hnum
  | register k => exact waiting_register h hnum hg.1 hcond
  | choose key wait c => exact waiting_choose h hnum hg.1
  | giveUp key wait c =>
      refine h.work hnum [] hg.1 rfl (Function.update_eq_self c _).symm rfl rfl nofun ?_
      show 0 + (s.containers c).length ≤ _ + (s.containers c).length
      omega
  | inspect key wait c x => exact waiting_inspect h hnum hg
  | replace key wait c made => exact waiting_replace h hnum hg
  | releaseStart key x => exact hbegin _ rfl
  | release key x =>
      show Waiting (s.doRelease key x)
      cases hget : s.pool.getItem key with
      | some found =>
          rw [doRelease_some hopen hget]
          exact h.found hnum hg.1 hget rfl
      | none =>
          rw [doRelease_none hopen hget]
          exact h.leave hnum hg.1 rfl rfl rfl rfl
  | put key c x => exact waiting_put h hnum hg
  | close =>
      -- the pool is still open after the step
      unfold update doClose at hstays
      rw [hopen] at hstays
      cases hstays
  | die x => exact h.idle hnum rfl rfl (fun _ => rfl) fun call hcall => Or.inl hcall

end Step

/-! ## Every run -/

section Run

variable [DecidableEq κ]

/-- The runs of a dedicated pool in which no key is kicked out whose queue a call is
choosing from. -/
abbrev undisturbing (size : Option ℕ) (n : ℕ) :
    Lts.Spec (LRUConnectionPool κ (List ℕ)) (Label κ) :=
  (system dedicate size n).restrict fun l s => undisturbed l s

theorem waiting_reachable (size : Option ℕ) (n : ℕ) :
    ∀ s : LRUConnectionPool κ (List ℕ), (undisturbing size n).Reachable s →
      s.closed = false → Waiting s := by
  apply Lts.Spec.invariant_with (undisturbing size n) Numbered
  · intro s hr
    exact numbered_reachable dedicate_closes size n s hr.of_restrict
  · rintro s ⟨dead, rfl⟩ _
    exact ⟨fun _ => Or.inl (Nat.le_refl 0), nofun⟩
  · intro l s hg hnum _ h hstays
    cases hopen : s.closed with
    | true =>
        have hclosed := closed_step dedicate_closes (n := n) (l := l) hopen
        exact absurd (hclosed.symm.trans hstays) (by decide)
    | false => exact waiting_step hg.1 hg.2 hnum hopen hstays (h hopen)

/-- A call of `get_connection` that has looked its queue up and finds it empty. -/
def BlockedOn (s : LRUConnectionPool κ (List ℕ)) (key : κ) (c : ℕ) : Prop :=
  (∃ wait, Call.choose key wait c ∈ s.calls) ∧ s.containers c = []

/-- The queue is that of the key, so that what is released under the key goes there. -/
structure Registered (s : LRUConnectionPool κ (List ℕ)) (key : κ) (c : ℕ) : Prop where
  current : (s.pool.getItem key).map Prod.fst = some c
  goes : ∀ x, Call.put key c x ∈ (s.doRelease key x).calls

/-- In every run that meets the condition, a call that waits on a queue of an open pool
waits on the queue registered for its key. -/
theorem waiter_registered (size : Option ℕ) (n : ℕ) (s : LRUConnectionPool κ (List ℕ))
    (hr : (undisturbing size n).Reachable s) (hopen : s.closed = false) (key : κ) (c : ℕ)
    (hblocked : BlockedOn s key c) : Registered s key c := by
  have h := waiting_reachable size n s hr hopen
  obtain ⟨⟨wait, hcall⟩, hempty⟩ := hblocked
  -- an empty queue serves nobody
  have hentry : ∃ e ∈ s.pool.entries, e.value = c := by
    refine (h.served c).resolve_left ?_
    rw [hempty, total_erase _ hcall]
    simp [Call.chooses]
  obtain ⟨e, he, hvalue⟩ := hentry
  have hhash := h.home e he _ hcall key (by rw [hvalue]; rfl)
  have hfind : s.pool.find key = some e := LRUCache.find_some.mpr ⟨he, hhash.symm⟩
  have hget : s.pool.getItem key = some (c, s.pool.touch key) := by
    rw [LRUCache.getItem, hfind, ← hvalue]
    rfl
  constructor
  · rw [hget]
    rfl
  · intro x
    rw [doRelease_some hopen hget]
    exact List.mem_cons_self

/-- Kicking a key out while a call is choosing from its queue leaves that call waiting
on a queue that no key has. -/
theorem evicted_waiter {s : LRUConnectionPool κ (List ℕ)} (hnum : Numbered s) {k : Creating κ}
    (hlock : s.lock = some k) {e : Entry κ ℕ} (hout : s.pool.willBeKickedOut = some e) {key : κ}
    {wait : Wait} (hcall : Call.choose key wait e.value ∈ s.calls) :
    BlockedOn (s.doRegister dedicate k) key e.value ∧
      ¬ Registered (s.doRegister dedicate k) key e.value := by
  have hmem : e ∈ s.pool.entries := List.mem_of_getLast? (LRUCache.willBeKickedOut_some hout).2
  constructor
  · refine ⟨⟨wait, List.mem_cons_of_mem _ hcall⟩, ?_⟩
    apply (closeKickedOut_closed dedicate_closes s).emptied
    rw [kicked, hout]
    exact List.mem_singleton_self _
  · intro hreg
    obtain ⟨found, hget, hvalue⟩ := Option.map_eq_some_iff.mp hreg.current
    obtain ⟨d, hd, _, hdvalue, _⟩ := LRUCache.getItem_some (v := found.1) (d := found.2) hget
    rcases (mem_register dedicate hnum hlock).mp hd with rfl | ⟨hold, hne⟩
    · exact (hnum.lock_entries k hlock e hmem).1 (hvalue.symm.trans hdvalue.symm)
    · have heq := hnum.inj d hold e hmem (hdvalue.trans hvalue)
      rw [heq] at hne
      exact hne hout

/-- Calls of `get_connection` that block and of `release_connection` by who holds the
connection, in any order. -/
def blocking (l : Label κ) (s : LRUConnectionPool κ (List ℕ)) : Bool :=
  match l with
  | .getStart _ wait => wait.block
  | .releaseStart key x => s.isHeld key x
  | .close => false
  | _ => true

/-- One thread has the only connection of key 4, and a second one waits for it. -/
def keptWaiting : List (Label ℕ) :=
  let wait : Wait := ⟨true, none⟩
  [.getStart 4 wait, .lookup 4 wait, .create ⟨4, wait, 0, 1⟩ (.ok 10), .register ⟨4, wait, 0, 0⟩,
    .choose 4 wait 0, .inspect 4 wait 0 10, .getStart 4 wait, .lookup 4 wait]

/-- A third one asks for key 5. -/
def kickedOut : List (Label ℕ) :=
  let wait : Wait := ⟨true, none⟩
  keptWaiting ++ [.getStart 5 wait, .lookup 5 wait, .create ⟨5, wait, 1, 1⟩ (.ok 11),
    .register ⟨5, wait, 1, 0⟩]

theorem waiter_registered_kept :
    let s := (undisturbing (some 1) 1).run keptWaiting (new dedicate (some 1) fun _ => false)
    BlockedOn s 4 0 ∧ Registered s 4 0 := by
  have hblocked : BlockedOn ((undisturbing (some 1) 1).run keptWaiting
      (new dedicate (some 1) fun _ => false)) 4 0 :=
    ⟨⟨⟨true, none⟩, by decide⟩, by decide⟩
  exact ⟨hblocked, waiter_registered (some 1) 1 _ (reachable_run _ _ _ _ _) (by decide) 4 0 hblocked⟩

/-- The third thread kicks key 4 out, and the second one waits on a queue of no key. -/
theorem waiter_stranded :
    ¬ ∀ s : LRUConnectionPool ℕ (List ℕ),
      ((system dedicate (some 1) 1).restrict fun l s => blocking l s).Reachable s →
      s.closed = false → ∀ key c, BlockedOn s key c → Registered s key c := by
  intro h
  have hreg := h _ (reachable_run dedicate (some 1) 1 _ kickedOut) (by decide) 4 0
    ⟨⟨⟨true, none⟩, by decide⟩, by decide⟩
  exact absurd hreg.current (by decide)

end Run

end LRUConnectionPool

end SummerRpc
