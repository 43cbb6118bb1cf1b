import SummerRpc.Pool.Container
import Mathlib.Algebra.BigOperators.Group.List.Basic
import Mathlib.Algebra.GroupWithZero.Nat
import Mathlib.Data.List.Count

/-! # The capacity of a pool

A key of the pool is entitled to `connections_per_key` connections. Each of them is
in the key's container, with a caller, or in the hands of a call that has taken it
out and has not put it or its replacement back.

* `Slots`: that account, as an invariant of every interleaving of the calls;
* `slots_step`, `slots_reachable`: it is kept as long as no replacement fails, no
  key is kicked out and the pool is not closed.
-/

namespace SummerRpc

namespace LRUConnectionPool

variable {κ γ : Type} [PyHash κ]

/-! ## Where the connections of a key are -/

/-- What a connection counts for that a caller has: nothing in a shared pool, where
it is still in the container. -/
def ContainerClass.weight (P : ContainerClass γ) : ℕ := if P.exclusive then 1 else 0

/-- The key and the container a call is at work on. -/
def Call.place : Call κ → Option (κ × ℕ)
  | .get _ _ => none
  | .choose key _ c => some (key, c)
  | .inspect key _ c _ => some (key, c)
  | .replace key _ c => some (key, c)
  | .release _ _ => none
  | .put key c _ => some (key, c)

/-- The connections of the container `c` that a call has in its hands: the one it
has chosen, or the one that the factory is to replace. -/
def Call.inHand (P : ContainerClass γ) (c : ℕ) : Call κ → ℕ
  | .inspect _ _ d _ => if d = c then P.weight else 0
  | .replace _ _ d => if d = c then 1 else 0
  | _ => 0

/-- The connections of the container `c` in the hands of calls. -/
def inHands (P : ContainerClass γ) (c : ℕ) (calls : List (Call κ)) : ℕ :=
  (calls.map (Call.inHand P c)).sum

/-- How many connections of the keys of that hash are checked out. -/
def heldOf (held : List (κ × ℕ)) (hash : ℤ) : ℕ :=
  held.countP fun item => PyHash.hash item.1 = hash

/-- The connections of an entry: those in its container and those with callers. -/
def capacity (P : ContainerClass γ) (s : LRUConnectionPool κ γ) (e : Entry κ ℕ) : ℕ :=
  (P.connections (s.containers e.value)).length + P.weight * heldOf s.held e.hash

/-- The account of the connections. -/
structure Slots (P : ContainerClass γ) (n : ℕ) (valid : γ → Prop) (s : LRUConnectionPool κ γ) :
    Prop where
  isOpen : s.closed = false
  valid : ∀ c, valid (s.containers c)
  lt : ∀ e ∈ s.pool.entries, e.value < s.containerCount
  inj : ∀ d ∈ s.pool.entries, ∀ e ∈ s.pool.entries, d.value = e.value → d = e
  /-- the calls work on containers of entries -/
  place : ∀ call ∈ s.calls, ∀ key c, call.place = some (key, c) →
    ∃ e ∈ s.pool.entries, e.hash = PyHash.hash key ∧ e.value = c
  /-- the container being filled is nobody's yet -/
  filling : ∀ k, s.lock = some k → k.container < s.containerCount ∧
    (∀ e ∈ s.pool.entries, e.value ≠ k.container ∧ e.hash ≠ PyHash.hash k.key) ∧
    n ≤ (P.connections (s.containers k.container)).length + k.left
  enough : ∀ e ∈ s.pool.entries, n ≤ capacity P s e + inHands P e.value s.calls

/-- Nothing is in anybody's hands at the start. -/
theorem slots_new {P : ContainerClass γ} {n : ℕ} {valid : γ → Prop} (hP : Lawful P valid)
    (size : Option ℕ) (dead : ℕ → Bool) :
    Slots P n valid (new P size dead : LRUConnectionPool κ γ) where
  isOpen := rfl
  valid := fun _ => hP.valid_get
  lt := by
    intro e he
    cases he
  inj := by
    intro d hd
    cases hd
  place := by
    intro call hcall
    cases hcall
  filling := by
    intro k hk
    cases hk
  enough := by
    intro e he
    cases he

/-! ## Small facts -/

omit [PyHash κ] in
theorem inHands_cons (P : ContainerClass γ) (c : ℕ) (call : Call κ) (calls : List (Call κ)) :
    inHands P c (call :: calls) = call.inHand P c + inHands P c calls := by
  simp [inHands]

omit [PyHash κ] in
theorem inHands_erase [DecidableEq κ] (P : ContainerClass γ) (c : ℕ) {call : Call κ}
    {calls : List (Call κ)} (h : call ∈ calls) :
    inHands P c calls = call.inHand P c + inHands P c (calls.erase call) :=
  (List.sum_map_erase (Call.inHand P c) h).symm

theorem heldOf_cons (key : κ) (x : ℕ) (held : List (κ × ℕ)) (hash : ℤ) :
    heldOf ((key, x) :: held) hash =
      heldOf held hash + if PyHash.hash key = hash then 1 else 0 := by
  simp [heldOf, List.countP_cons]

/-- Giving a connection back takes at most one off the account of its key. -/
theorem heldOf_erase [DecidableEq κ] (held : List (κ × ℕ)) (key : κ) (x : ℕ) (hash : ℤ) :
    heldOf held hash ≤
      heldOf (held.erase (key, x)) hash + if PyHash.hash key = hash then 1 else 0 := by
  by_cases hmem : (key, x) ∈ held
  · have hperm := List.perm_cons_erase hmem
    have hcount : heldOf held hash = heldOf ((key, x) :: held.erase (key, x)) hash :=
      hperm.countP_eq _
    exact Nat.le_of_eq (hcount.trans (heldOf_cons key x _ hash))
  · rw [List.erase_of_not_mem hmem]
    exact Nat.le_add_right _ _

/-- The container of a call is that of the entry of its key, and of no other. -/
theorem Slots.value_iff {P : ContainerClass γ} {n : ℕ} {valid : γ → Prop}
    {s : LRUConnectionPool κ γ} (h : Slots P n valid s) {call : Call κ} {key : κ} {c : ℕ}
    (hcall : call ∈ s.calls) (hplace : call.place = some (key, c)) :
    ∀ e ∈ s.pool.entries, e.value = c ↔ PyHash.hash key = e.hash := by
  intro e he
  rcases h.place call hcall key c hplace with ⟨d, hd, hhash, hvalue⟩
  constructor
  · intro heq
    rw [h.inj e he d hd (heq.trans hvalue.symm), hhash]
  · intro heq
    rw [LRUCache.eq_of_hash he hd (heq.symm.trans hhash.symm), hvalue]

/-! ## What a lookup does to an open pool -/

section Lookup

variable [DecidableEq κ] {s : LRUConnectionPool κ γ}

theorem doLookup_some (P : ContainerClass γ) (n : ℕ) {key : κ} {c : ℕ} {pool : LRUCache κ ℕ}
    (wait : Wait) (hopen : s.closed = false) (hget : s.pool.getItem key = some (c, pool)) :
    s.doLookup P n key wait =
      { s with pool := pool }.goOn (.get key wait) (.choose key wait c) := by
  rw [doLookup, if_neg (by rw [hopen]; exact Bool.false_ne_true), hget]

theorem doLookup_none (P : ContainerClass γ) (n : ℕ) {key : κ} (wait : Wait)
    (hopen : s.closed = false) (hget : s.pool.getItem key = none) :
    s.doLookup P n key wait =
      { s with
        containers := Function.update s.containers s.containerCount P.getConnectionContainer
        containerCount := s.containerCount + 1
        lock := some ⟨key, wait, s.containerCount, n⟩
      }.leave (.get key wait) := by
  rw [doLookup, if_neg (by rw [hopen]; exact Bool.false_ne_true), hget]

theorem doRelease_some {key : κ} {x c : ℕ} {pool : LRUCache κ ℕ} (hopen : s.closed = false)
    (hget : s.pool.getItem key = some (c, pool)) :
    s.doRelease key x = { s with pool := pool }.goOn (.release key x) (.put key c x) := by
  rw [doRelease, if_neg (by rw [hopen]; exact Bool.false_ne_true), hget]

theorem doRelease_none {key : κ} {x : ℕ} (hopen : s.closed = false)
    (hget : s.pool.getItem key = none) :
    s.doRelease key x =
      { s with held := s.held.erase (key, x) }.leave (.release key x) := by
  rw [doRelease, if_neg (by rw [hopen]; exact Bool.false_ne_true), hget]

omit [DecidableEq κ] in
/-- With room in the pool, storing a filled container closes nothing. -/
theorem doRegister_of_room (P : ContainerClass γ) (k : Creating κ)
    (hroom : s.pool.willBeKickedOut = none) :
    s.doRegister P k =
      { s with
        pool := s.pool.setItem k.key k.container
        lock := none
        calls := .choose k.key k.wait k.container :: s.calls } := by
  have hnothing : s.closeKickedOut P = s := by
    unfold closeKickedOut
    rw [hroom]
  unfold doRegister
  rw [hnothing]

end Lookup

/-! ## One step -/

section Step

variable {P : ContainerClass γ} {n : ℕ} {valid : γ → Prop} {s t : LRUConnectionPool κ γ}

/-- A step that leaves the entries, the lock and the container being filled alone,
and takes nothing off any entry's account. -/
theorem Slots.change (h : Slots P n valid s) (hclosed : t.closed = s.closed)
    (hpool : ∀ e, e ∈ t.pool.entries ↔ e ∈ s.pool.entries)
    (hcount : t.containerCount = s.containerCount) (hlock : t.lock = s.lock)
    (hvalid : ∀ c, valid (t.containers c))
    (hkeep : ∀ k, s.lock = some k → t.containers k.container = s.containers k.container)
    (hplace : ∀ call ∈ t.calls, ∀ key c, call.place = some (key, c) →
      ∃ e ∈ s.pool.entries, e.hash = PyHash.hash key ∧ e.value = c)
    (henough : ∀ e ∈ s.pool.entries, capacity P s e + inHands P e.value s.calls ≤
      capacity P t e + inHands P e.value t.calls) : Slots P n valid t := by
  constructor
  · rw [hclosed]
    exact h.isOpen
  · exact hvalid
  · intro e he
    rw [hcount]
    exact h.lt e ((hpool e).mp he)
  · intro d hd e he
    exact h.inj d ((hpool d).mp hd) e ((hpool e).mp he)
  · intro call hcall key c hc
    rcases hplace call hcall key c hc with ⟨e, he, heq⟩
    exact ⟨e, (hpool e).mpr he, heq⟩
  · intro k hk
    rw [hlock] at hk
    rcases h.filling k hk with ⟨hlt, hother, hle⟩
    rw [hcount, hkeep k hk]
    exact ⟨hlt, fun e he => hother e ((hpool e).mp he), hle⟩
  · intro e he
    have hold := (hpool e).mp he
    exact Nat.le_trans (h.enough e hold) (henough e hold)

variable [DecidableEq κ]

/-- A call that goes on at its place, or leaves, with what it has done to the
container of its place and to the connections with callers. -/
theorem Slots.work (h : Slots P n valid s) {call : Call κ} {key : κ} {c : ℕ} {y : γ}
    (hcall : call ∈ s.calls) (hplace : call.place = some (key, c)) (hy : valid y)
    (hcontainers : t.containers = Function.update s.containers c y)
    (hclosed : t.closed = s.closed) (hpool : t.pool = s.pool)
    (hcount : t.containerCount = s.containerCount) (hlock : t.lock = s.lock)
    (hcalls : t.calls = s.calls.erase call ∨
      ∃ next : Call κ, next.place = some (key, c) ∧ t.calls = next :: s.calls.erase call)
    (hheld : ∀ hash, PyHash.hash key ≠ hash → heldOf s.held hash ≤ heldOf t.held hash)
    (hsame : (P.connections (s.containers c)).length + P.weight * heldOf s.held (PyHash.hash key) +
        inHands P c s.calls ≤
      (P.connections y).length + P.weight * heldOf t.held (PyHash.hash key) +
        inHands P c t.calls) : Slots P n valid t := by
  have hvalue := h.value_iff hcall hplace
  rcases h.place call hcall key c hplace with ⟨d, hd, hdhash, hdvalue⟩
  refine h.change hclosed (fun e => by rw [hpool]) hcount hlock ?_ ?_ ?_ ?_
  · rw [hcontainers]
    exact valid_update _ hy h.valid
  · -- the container of a call is that of an entry, and so not the one being filled
    intro k hk
    have hne : k.container ≠ c := by
      intro heq
      exact ((h.filling k hk).2.1 d hd).1 (hdvalue.trans heq.symm)
    rw [hcontainers, Function.update_of_ne hne]
  · intro other hother key' c' hplace'
    rcases hcalls with heq | ⟨next, hnext, heq⟩
    · rw [heq] at hother
      exact h.place other (List.mem_of_mem_erase hother) key' c' hplace'
    · rw [heq] at hother
      rcases List.mem_cons.mp hother with rfl | hmem
      · rw [hnext] at hplace'
        cases hplace'
        exact ⟨d, hd, hdhash, hdvalue⟩
      · exact h.place other (List.mem_of_mem_erase hmem) key' c' hplace'
  · intro e he
    by_cases hec : e.value = c
    · have hhash := (hvalue e he).mp hec
      simp only [capacity, hcontainers, hec, Function.update_self, ← hhash]
      exact hsame
    · -- the accounts of the other keys
      have hhash : PyHash.hash key ≠ e.hash := fun heq => hec ((hvalue e he).mpr heq)
      have hzero : ∀ other : Call κ, other.place = some (key, c) → other.inHand P e.value = 0 := by
        intro other hother
        have hne : c ≠ e.value := fun heq => hec heq.symm
        cases other <;> cases hother <;> simp [Call.inHand, hne]
      have hhands : inHands P e.value s.calls = inHands P e.value t.calls := by
        rw [inHands_erase P e.value hcall, hzero call hplace, Nat.zero_add]
        rcases hcalls with heq | ⟨next, hnext, heq⟩
        · rw [heq]
        · rw [heq, inHands_cons, hzero next hnext, Nat.zero_add]
      have hmul := Nat.mul_le_mul_left P.weight (hheld e.hash hhash)
      simp only [capacity, hcontainers, Function.update_of_ne hec]
      omega

/-! ## Every step -/

omit [DecidableEq κ] in
/-- A container of a connection more. -/
theorem length_add (hP : Lawful P valid) (y : γ) (x : ℕ) :
    (P.connections (P.addConnectionToContainer y x)).length = (P.connections y).length + 1 :=
  (hP.add y x).length_eq

/-- A call that is on no account leaves nothing behind. -/
theorem inHands_erase_of_none {c : ℕ} {call : Call κ} (hcall : call ∈ s.calls)
    (hnone : call.inHand P c = 0) : inHands P c (s.calls.erase call) = inHands P c s.calls := by
  rw [inHands_erase P c hcall, hnone, Nat.zero_add]

/-- A call finds its key in the pool. -/
theorem Slots.found (h : Slots P n valid s) {call next : Call κ} {key : κ} {c : ℕ}
    {pool : LRUCache κ ℕ} (hcall : call ∈ s.calls) (hget : s.pool.getItem key = some (c, pool))
    (hnext : next.place = some (key, c)) (hcallHand : ∀ d, call.inHand P d = 0)
    (hnextHand : ∀ d, next.inHand P d = 0) :
    Slots P n valid ({ s with pool := pool }.goOn call next) := by
  obtain ⟨e, he, hhash, hvalue, _⟩ := LRUCache.getItem_some hget
  refine h.change rfl (fun _ => LRUCache.mem_getItem hget) rfl rfl h.valid (fun _ _ => rfl) ?_ ?_
  · intro other hother key' c' hplace
    rcases List.mem_cons.mp hother with rfl | hmem
    · rw [hnext] at hplace
      cases hplace
      exact ⟨e, he, hhash, hvalue⟩
    · exact h.place other (List.mem_of_mem_erase hmem) key' c' hplace
  · intro d _
    have hhands : inHands P d.value (next :: s.calls.erase call) = inHands P d.value s.calls := by
      rw [inHands_cons, inHands_erase_of_none hcall (hcallHand d.value), hnextHand, Nat.zero_add]
    exact Nat.le_of_eq (congrArg (capacity P s d + ·) hhands.symm)

theorem slots_lookup (hP : Lawful P valid) (h : Slots P n valid s) {key : κ} {wait : Wait}
    (hcall : Call.get key wait ∈ s.calls) :
    Slots P n valid (s.doLookup P n key wait) := by
  cases hget : s.pool.getItem key with
  | some found =>
      rw [doLookup_some P n wait h.isOpen hget]
      exact h.found hcall hget rfl (fun _ => rfl) (fun _ => rfl)
  | none =>
      rw [doLookup_none P n wait h.isOpen hget]
      have habsent := LRUCache.contains_eq_false.mp (LRUCache.getItem_none hget)
      have hfresh : ∀ e ∈ s.pool.entries, e.value ≠ s.containerCount :=
        fun e he => Nat.ne_of_lt (h.lt e he)
      constructor
      · exact h.isOpen
      · exact valid_update _ hP.valid_get h.valid
      · intro e he
        exact Nat.lt_succ_of_lt (h.lt e he)
      · exact h.inj
      · exact fun call hmem => h.place call (List.mem_of_mem_erase hmem)
      · intro k hk
        cases hk
        refine ⟨Nat.lt_succ_self _, ?_, Nat.le_add_left _ _⟩
        intro e he
        exact ⟨hfresh e he, LRUCache.find_none.mp habsent e he⟩
      · intro e he
        show n ≤ (P.connections (Function.update s.containers s.containerCount _ e.value)).length +
          _ + inHands P e.value (s.calls.erase (.get key wait))
        rw [Function.update_of_ne (hfresh e he), inHands_erase_of_none hcall rfl]
        exact h.enough e he

omit [DecidableEq κ] in
theorem slots_create (hP : Lawful P valid) (h : Slots P n valid s) {k : Creating κ}
    {made : Except Exc ℕ} (hlock : s.lock = some k) (hleft : 0 < k.left) :
    Slots P n valid (s.doCreate P k made) := by
  rcases h.filling k hlock with ⟨hlt, hother, hle⟩
  cases made with
  | error ex =>
      refine ⟨h.isOpen, h.valid, h.lt, h.inj, h.place, ?_, h.enough⟩
      intro k' hk'
      cases hk'
  | ok x =>
      constructor
      · exact h.isOpen
      · exact valid_update _ (hP.valid_add _ x (h.valid _)) h.valid
      · exact h.lt
      · exact h.inj
      · exact h.place
      · intro k' hk'
        cases hk'
        refine ⟨hlt, hother, ?_⟩
        show n ≤ (P.connections (Function.update s.containers k.container _ k.container)).length +
          (k.left - 1)
        rw [Function.update_self, length_add hP]
        omega
      · intro e he
        show n ≤ (P.connections (Function.update s.containers k.container _ e.value)).length + _ + _
        rw [Function.update_of_ne (hother e he).1]
        exact h.enough e he

omit [DecidableEq κ] in
theorem slots_register (h : Slots P n valid s) {k : Creating κ} (hlock : s.lock = some k)
    (hleft : k.left = 0) (hroom : s.pool.willBeKickedOut = none) :
    Slots P n valid (s.doRegister P k) := by
  rcases h.filling k hlock with ⟨hlt, hother, hle⟩
  have habsent : s.pool.contains k.key = false :=
    LRUCache.contains_eq_false.mpr (LRUCache.find_none.mpr fun e he => (hother e he).2)
  have hentries : (s.pool.setItem k.key k.container).entries =
      ⟨k.key, k.container⟩ :: s.pool.entries := LRUCache.entries_setItem_of_room habsent hroom
  rw [doRegister_of_room P k hroom]
  constructor
  · exact h.isOpen
  · exact h.valid
  · show ∀ e ∈ (s.pool.setItem k.key k.container).entries, e.value < s.containerCount
    rw [hentries]
    intro e he
    rcases List.mem_cons.mp he with rfl | he
    · exact hlt
    · exact h.lt e he
  · show ∀ d ∈ (s.pool.setItem k.key k.container).entries,
      ∀ e ∈ (s.pool.setItem k.key k.container).entries, d.value = e.value → d = e
    rw [hentries]
    intro d hd e he heq
    rcases List.mem_cons.mp hd with rfl | hd
    · rcases List.mem_cons.mp he with rfl | he
      · rfl
      · exact absurd heq.symm (hother e he).1
    · rcases List.mem_cons.mp he with rfl | he
      · exact absurd heq (hother d hd).1
      · exact h.inj d hd e he heq
  · intro call hmem key c hplace
    rcases List.mem_cons.mp hmem with rfl | hmem
    · cases hplace
      exact ⟨⟨k.key, k.container⟩, LRUCache.mem_setItem_self k.key k.container, rfl, rfl⟩
    · rcases h.place call hmem key c hplace with ⟨e, he, heq⟩
      refine ⟨e, ?_, heq⟩
      show e ∈ (s.pool.setItem k.key k.container).entries
      rw [hentries]
      exact List.mem_cons_of_mem _ he
  · intro k' hk'
    cases hk'
  · show ∀ e ∈ (s.pool.setItem k.key k.container).entries, n ≤ capacity P s e + _
    rw [hentries]
    intro e he
    rcases List.mem_cons.mp he with rfl | he
    · rw [hleft] at hle
      simp only [capacity]
      omega
    · rw [inHands_cons]
      have henough := h.enough e he
      omega

theorem slots_choose (hP : Lawful P valid) (h : Slots P n valid s) {key : κ} {wait : Wait} {c : ℕ}
    (hcall : Call.choose key wait c ∈ s.calls)
    (hsome : (P.choiceConnectionFromContainer (s.containers c)).isEmpty = false) :
    Slots P n valid (s.doChoose P key wait c) := by
  have hhands := inHands_erase P c hcall
  unfold doChoose
  cases hgot : P.choiceConnectionFromContainer (s.containers c) with
  | got x y =>
      have hperm := (hP.choice_got _ x y (h.valid c) hgot).length_eq
      refine h.work hcall rfl (hP.valid_choice _ x y (h.valid c) hgot) rfl rfl rfl rfl rfl
        (Or.inr ⟨.inspect key wait c x, rfl, rfl⟩) (fun _ _ => Nat.le_refl _) ?_
      show _ ≤ _ + P.weight * heldOf s.held _ + inHands P c (_ :: s.calls.erase _)
      rw [inHands_cons, hhands, hperm]
      -- what the container loses is in the hands of the call
      simp only [Call.inHand, ContainerClass.weight, if_true]
      split
      · simp only [List.length_cons]
        omega
      · omega
  | empty =>
      rw [hgot] at hsome
      cases hsome
  | raised ex =>
      refine h.work hcall rfl (h.valid c) (Function.update_eq_self c _).symm rfl rfl rfl rfl
        (Or.inl rfl) (fun _ _ => Nat.le_refl _) ?_
      rw [hhands]
      show _ ≤ _ + P.weight * heldOf s.held _ + inHands P c (s.calls.erase _)
      simp only [Call.inHand]
      omega

theorem slots_giveUp (h : Slots P n valid s) {key : κ} {wait : Wait} {c : ℕ} (ex : Exc)
    (hcall : Call.choose key wait c ∈ s.calls) :
    Slots P n valid (s.raise (.choose key wait c) key ex) := by
  refine h.work hcall rfl (h.valid c) (Function.update_eq_self c _).symm rfl rfl rfl rfl
    (Or.inl rfl) (fun _ _ => Nat.le_refl _) ?_
  rw [inHands_erase P c hcall]
  show _ ≤ _ + P.weight * heldOf s.held _ + inHands P c (s.calls.erase _)
  simp only [Call.inHand]
  omega

theorem slots_inspect (hP : Lawful P valid) (h : Slots P n valid s) {key : κ} {wait : Wait}
    {c x : ℕ} (hcall : Call.inspect key wait c x ∈ s.calls) :
    Slots P n valid (s.doInspect P key wait c x) := by
  have hhands := inHands_erase P c hcall
  unfold doInspect
  split
  · have hperm := (hP.remove (s.containers c) x).length_eq
    refine h.work hcall rfl (hP.valid_remove _ x (h.valid c)) rfl rfl rfl rfl rfl
      (Or.inr ⟨.replace key wait c, rfl, rfl⟩) (fun _ _ => Nat.le_refl _) ?_
    show _ ≤ _ + P.weight * heldOf s.held _ + inHands P c (_ :: s.calls.erase _)
    rw [inHands_cons, hhands, hperm]
    -- a shared container loses the connection here, a dedicated one has lost it already
    simp only [Call.inHand, ContainerClass.weight, if_true]
    have herase := List.le_length_erase (l := P.connections (s.containers c)) (a := x)
    split <;> omega
  · refine h.work hcall rfl (h.valid c) (Function.update_eq_self c _).symm rfl rfl rfl rfl
      (Or.inl rfl) ?_ ?_
    · intro hash hne
      show _ ≤ heldOf ((key, x) :: s.held) hash
      rw [heldOf_cons]
      exact Nat.le_add_right _ _
    · show _ ≤ _ + P.weight * heldOf ((key, x) :: s.held) _ + inHands P c (s.calls.erase _)
      rw [hhands, heldOf_cons, if_pos rfl, Nat.mul_succ]
      simp only [Call.inHand, if_true]
      omega

theorem slots_replace (hP : Lawful P valid) (h : Slots P n valid s) {key : κ} {wait : Wait}
    {c : ℕ} (x : ℕ) (hcall : Call.replace key wait c ∈ s.calls) :
    Slots P n valid (s.doReplace P key wait c (.ok x)) := by
  refine h.work hcall rfl (hP.valid_add _ x (h.valid c)) rfl rfl rfl rfl rfl
    (Or.inr ⟨.choose key wait c, rfl, rfl⟩) (fun _ _ => Nat.le_refl _) ?_
  show _ ≤ _ + P.weight * heldOf s.held _ + inHands P c (_ :: s.calls.erase _)
  rw [inHands_cons, inHands_erase P c hcall, length_add hP]
  simp only [Call.inHand, if_true]
  omega

theorem slots_release (h : Slots P n valid s) {key : κ} {x : ℕ}
    (hcall : Call.release key x ∈ s.calls) : Slots P n valid (s.doRelease key x) := by
  cases hget : s.pool.getItem key with
  | some found =>
      rw [doRelease_some h.isOpen hget]
      exact h.found hcall hget rfl (fun _ => rfl) (fun _ => rfl)
  | none =>
      -- the pool does not know the key: no account is touched
      rw [doRelease_none h.isOpen hget]
      have habsent := LRUCache.find_none.mp
        (LRUCache.contains_eq_false.mp (LRUCache.getItem_none hget))
      refine h.change rfl (fun _ => Iff.rfl) rfl rfl h.valid (fun _ _ => rfl)
        (fun call hmem => h.place call (List.mem_of_mem_erase hmem)) ?_
      intro e he
      have hheld := heldOf_erase s.held key x e.hash
      rw [if_neg (habsent e he).symm, Nat.add_zero] at hheld
      have hmul := Nat.mul_le_mul_left P.weight hheld
      show _ ≤ (P.connections (s.containers e.value)).length +
        P.weight * heldOf (s.held.erase (key, x)) e.hash + inHands P e.value (s.calls.erase _)
      rw [inHands_erase_of_none hcall rfl, capacity]
      omega

theorem slots_put (hP : Lawful P valid) (h : Slots P n valid s) {key : κ} {c x : ℕ}
    (hcall : Call.put key c x ∈ s.calls) : Slots P n valid (s.doPut P key c x) := by
  have hperm := (hP.release (s.containers c) x).length_eq
  refine h.work hcall rfl (hP.valid_release _ x (h.valid c)) rfl rfl rfl rfl rfl (Or.inl rfl) ?_ ?_
  · intro hash hne
    have hheld := heldOf_erase s.held key x hash
    rw [if_neg hne] at hheld
    exact hheld
  · have hheld := heldOf_erase s.held key x (PyHash.hash key)
    rw [if_pos rfl] at hheld
    show _ ≤ _ + P.weight * heldOf (s.held.erase (key, x)) _ + inHands P c (s.calls.erase _)
    rw [inHands_erase P c hcall, hperm]
    -- what the caller gives back the container gains
    simp only [Call.inHand, ContainerClass.weight]
    split
    · simp only [List.length_cons]
      omega
    · omega

end Step

/-! ## Every run -/

section Run

variable [DecidableEq κ]

/-- The calls are `get_connection` and `release_connection`, and no key is kicked
out of the pool. -/
def keepsKeys (l : Label κ) (s : LRUConnectionPool κ γ) : Bool :=
  match l with
  | .close => false
  | .register _ => s.pool.willBeKickedOut.isNone
  | _ => true

/-- A caller has obtained the connection under that key, and not released it. -/
def isHeld (s : LRUConnectionPool κ γ) (key : κ) (x : ℕ) : Bool := (key, x) ∈ s.held

/-- The calls are made one at a time. -/
def oneAtATime (l : Label κ) (s : LRUConnectionPool κ γ) : Bool :=
  match l with
  | .getStart _ _ => s.calls.isEmpty && s.lock.isNone
  | .releaseStart _ _ => s.calls.isEmpty && s.lock.isNone
  | _ => true

/-- The factory does not fail when it replaces a connection found closed. -/
def replaces (l : Label κ) (_ : LRUConnectionPool κ γ) : Bool :=
  match l with
  | .replace _ _ _ (.error _) => false
  | _ => true

/-- The runs of a pool in which no replacement fails and no key is lost. -/
abbrev replacing (P : ContainerClass γ) (size : Option ℕ) (n : ℕ) :
    Lts.Spec (LRUConnectionPool κ γ) (Label κ) :=
  (system P size n).restrict fun l s => keepsKeys l s && replaces l s

/-- The runs begin with a pool without keys. -/
theorem reachable_run (P : ContainerClass γ) (size : Option ℕ) (n : ℕ)
    (C : Label κ → LRUConnectionPool κ γ → Bool) (ls : List (Label κ)) :
    ((system P size n).restrict fun l s => C l s).Reachable
      (((system P size n).restrict fun l s => C l s).run ls (new P size fun _ => false)) := by
  apply Lts.Spec.Reachable.run
  exact Lts.Spec.Reachable.init ⟨_, rfl⟩

/-- The same with a record of the run. -/
theorem reachable_history {η : Type} (record : Label κ → LRUConnectionPool κ γ → η → η) (start : η)
    (P : ContainerClass γ) (size : Option ℕ) (n : ℕ)
    (C : Label κ → LRUConnectionPool κ γ × η → Bool) (ls : List (Label κ)) :
    (((system P size n).withHistory record start).restrict fun l p => C l p).Reachable
      ((((system P size n).withHistory record start).restrict fun l p => C l p).run ls
        (new P size fun _ => false, start)) := by
  apply Lts.Spec.Reachable.run
  exact Lts.Spec.Reachable.init ⟨⟨_, rfl⟩, rfl⟩

variable {P : ContainerClass γ} {n : ℕ} {valid : γ → Prop}

theorem slots_step (hP : Lawful P valid) {l : Label κ} {s : LRUConnectionPool κ γ}
    (hg : guard P l s) (hkeys : keepsKeys l s = true) (hmade : replaces l s = true)
    (h : Slots P n valid s) : Slots P n valid (update P n l s) := by
  -- a call that only begins has no place and nothing in its hands
  have hbegin : ∀ call : Call κ, call.place = none → (∀ c, call.inHand P c = 0) →
      Slots P n valid { s with calls := call :: s.calls } := by
    intro call hplace hhand
    refine h.change rfl (fun _ => Iff.rfl) rfl rfl h.valid (fun _ _ => rfl) ?_ ?_
    · intro other hmem key c hc
      rcases List.mem_cons.mp hmem with rfl | hmem
      · rw [hplace] at hc
        cases hc
      · exact h.place other hmem key c hc
    · intro e _
      have hhands : inHands P e.value (call :: s.calls) = inHands P e.value s.calls := by
        rw [inHands_cons, hhand, Nat.zero_add]
      exact Nat.le_of_eq (congrArg (capacity P s e + ·) hhands.symm)
  cases l with
  | getStart key wait => exact hbegin _ rfl fun _ => rfl
  | lookup key wait => exact slots_lookup hP h hg.1
  | create k made => exact slots_create hP h hg.1 hg.2
  | register k => exact slots_register h hg.1 hg.2 (Option.isNone_iff_eq_none.mp hkeys)
  | choose key wait c => exact slots_choose hP h hg.1 hg.2
  | giveUp key wait c => exact slots_giveUp h _ hg.1
  | inspect key wait c x => exact slots_inspect hP h hg
  | replace key wait c made =>
      cases made with
      | error ex => cases hmade
      | ok x => exact slots_replace hP h x hg
  | releaseStart key x => exact hbegin _ rfl fun _ => rfl
  | release key x => exact slots_release h hg.1
  | put key c x => exact slots_put hP h hg
  | close => cases hkeys
  | die x => exact ⟨h.isOpen, h.valid, h.lt, h.inj, h.place, h.filling, h.enough⟩

theorem slots_reachable (hP : Lawful P valid) (size : Option ℕ) :
    ∀ s : LRUConnectionPool κ γ, (replacing P size n).Reachable s → Slots P n valid s := by
  apply Lts.Spec.invariant
  · intro s hs
    rcases hs with ⟨dead, rfl⟩
    exact slots_new hP size dead
  · intro l s hg h
    have hcond := hg.2
    simp only [Bool.and_eq_true] at hcond
    exact slots_step hP hg.1 hcond.1 hcond.2 h

end Run

end LRUConnectionPool

end SummerRpc
