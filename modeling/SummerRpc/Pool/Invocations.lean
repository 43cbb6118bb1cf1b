import SummerRpc.Pool.Exclusive

/-! # Calls of proxies over a pool

`RpcInvoker.invoke` of `invoker.py` takes its connection by `get_connection_from_pool` of
`connection_pool.py`, a context manager that gives it back when the block ends or raises. Any
number of threads call proxies over one pool, and anything may raise anywhere.

* `InvocationPc`: where a call of a proxy is;
* `finishes`: the call of `get_connection` or `release_connection` that a step of the pool ends;
* `Effect`: what a step of the pool does to the calls under way and the connections held;
* `Balanced`: held is what calls of proxies are inside with, and nothing else;
* `pool_runs`: no step of the pool waits for a call of a proxy;
* `nothing_leaks`, `one_user`: what follows for the connections.
-/

namespace SummerRpc

namespace LRUConnectionPool

variable {κ γ : Type} [PyHash κ]

/-! ## The model -/

/-- How a call of the pool ends. -/
inductive Finish (κ : Type) where
  /-- `get_connection` returns or raises -/
  | got (key : κ) (result : Except Exc ℕ)
  /-- `release_connection` returns -/
  | gave (key : κ) (connection : ℕ)

/-- The call that a step of the pool ends. -/
def finishes (P : ContainerClass γ) (l : Label κ) (s : LRUConnectionPool κ γ) :
    Option (Finish κ) :=
  match l with
  | .lookup key _ =>
    if s.closed then some (.got key (.error { cls := .connectionPoolAlreadyClosedError })) else none
  | .create k (.error _) => some (.got k.key (.error createConnectionError))
  | .choose key _ c =>
    match P.choiceConnectionFromContainer (s.containers c) with
    | .raised ex => some (.got key (.error ex))
    | _ => none
  | .giveUp key _ _ => some (.got key (.error { cls := .noAvailableConnectionError }))
  | .inspect key _ _ x => if s.dead x then none else some (.got key (.ok x))
  | .replace key _ _ (.error _) => some (.got key (.error createConnectionError))
  | .release key x =>
    if s.closed then some (.gave key x)
    else
      match s.pool.getItem key with
      | some _ => none
      | none => some (.gave key x)
  | .put key _ x => some (.gave key x)
  | _ => none

/-- A call of the pool begins. -/
def Label.starts : Label κ → Bool
  | .getStart _ _ | .releaseStart _ _ => true
  | _ => false

end LRUConnectionPool

/-- Where a call of a proxy is. -/
inductive InvocationPc (κ : Type) where
  /-- in the filters and in `serializer.dumps` -/
  | filtering (key : κ)
  /-- in `pool.get_connection` -/
  | entering (key : κ)
  /-- in the block: `connection.write`, `write_future.result`, `connection.read` -/
  | inside (key : κ) (connection : ℕ)
  /-- in `pool.release_connection`, after the block has ended or raised -/
  | leaving (key : κ) (connection : ℕ) (raised : Bool)
  /-- in `read_future.result`, and what comes after it -/
  | awaiting
  | ended
deriving DecidableEq

/-- A pool, and the calls of proxies that use it. -/
structure Invocations (κ γ : Type) [PyHash κ] where
  pool : LRUConnectionPool κ γ
  pcs : List (InvocationPc κ)

namespace Invocations

open LRUConnectionPool

variable {κ γ : Type} [PyHash κ]

/-- The steps. -/
inductive Label (κ : Type) where
  /-- a proxy is called, and the cluster has chosen a remote -/
  | call (key : κ)
  /-- a filter or `dumps` raises -/
  | refuse (i : ℕ)
  | enter (i : ℕ) (key : κ)
  /-- the block ends, or something in it raises -/
  | leave (i : ℕ) (key : κ) (connection : ℕ) (raised : Bool)
  /-- the response is there, or the time is over -/
  | conclude (i : ℕ)
  /-- a step in a call of the pool, by call `i` if it ends there -/
  | pool (l : LRUConnectionPool.Label κ) (i : ℕ)

/-- A call of the pool ends where the call of the proxy is. -/
def Waits (pcs : List (InvocationPc κ)) (i : ℕ) : Finish κ → Prop
  | .got key _ => pcs[i]? = some (.entering key)
  | .gave key x => ∃ raised, pcs[i]? = some (.leaving key x raised)

/-- When a step may happen. -/
def guard (P : ContainerClass γ) (l : Label κ) (s : Invocations κ γ) : Prop :=
  match l with
  | .call _ => True
  | .refuse i => ∃ key, s.pcs[i]? = some (.filtering key)
  | .enter i key => s.pcs[i]? = some (.filtering key)
  | .leave i key x _ => s.pcs[i]? = some (.inside key x)
  | .conclude i => s.pcs[i]? = some .awaiting
  | .pool l i => l.starts = false ∧ LRUConnectionPool.guard P l s.pool ∧
      ∀ f, finishes P l s.pool = some f → Waits s.pcs i f

/-- The arguments `get_connection_from_pool` has by default. -/
def defaultWait : Wait := ⟨true, none⟩

/-- Where call `i` is when its call of the pool has ended. -/
def resume (pcs : List (InvocationPc κ)) (i : ℕ) : Finish κ → List (InvocationPc κ)
  | .got key (.ok x) => pcs.set i (.inside key x)
  | .got _ (.error _) => pcs.set i .ended
  | .gave _ _ =>
    match pcs[i]? with
    | some (.leaving _ _ true) => pcs.set i .ended
    | _ => pcs.set i .awaiting

variable [DecidableEq κ]

/-- The state a step leads to. -/
def update (P : ContainerClass γ) (connectionsPerKey : ℕ) (l : Label κ) (s : Invocations κ γ) :
    Invocations κ γ :=
  match l with
  | .call key => { s with pcs := s.pcs ++ [.filtering key] }
  | .refuse i | .conclude i => { s with pcs := s.pcs.set i .ended }
  | .enter i key => {
      pool := LRUConnectionPool.update P connectionsPerKey (.getStart key defaultWait) s.pool
      pcs := s.pcs.set i (.entering key) }
  | .leave i key x raised => {
      pool := LRUConnectionPool.update P connectionsPerKey (.releaseStart key x) s.pool
      pcs := s.pcs.set i (.leaving key x raised) }
  | .pool l i => {
      pool := LRUConnectionPool.update P connectionsPerKey l s.pool
      pcs :=
        match finishes P l s.pool with
        | none => s.pcs
        | some f => resume s.pcs i f }

/-- A pool without keys, and no calls yet. -/
def system (P : ContainerClass γ) (connectionPoolSize : Option ℕ) (connectionsPerKey : ℕ) :
    Lts.Spec (Invocations κ γ) (Label κ) where
  init := fun s => (∃ dead, s.pool = new P connectionPoolSize dead) ∧ s.pcs = []
  guard := guard P
  update := update P connectionsPerKey

end Invocations

namespace LRUConnectionPool

variable {κ γ : Type} [PyHash κ] [DecidableEq κ] {P : ContainerClass γ} {n : ℕ}
  {s t : LRUConnectionPool κ γ}

/-! ## What a step of the pool does -/

/-- A call of `get_connection` for the key. -/
def Call.gets (key : κ) : Call κ → ℕ
  | .get k _ | .choose k _ _ | .inspect k _ _ _ | .replace k _ _ => if k = key then 1 else 0
  | _ => 0

/-- How many calls of `get_connection` there are for the key; one may hold the lock. -/
def getting (s : LRUConnectionPool κ γ) (key : κ) : ℕ :=
  total (Call.gets key) s.calls +
    match s.lock with
    | some k => if k.key = key then 1 else 0
    | none => 0

/-- The call of `get_connection` that has ended. -/
def Finish.gets (key : κ) : Option (Finish κ) → ℕ
  | some (.got k _) => if k = key then 1 else 0
  | _ => 0

/-- The call of `release_connection` that has ended. -/
def Finish.gives (key : κ) (x : ℕ) : Option (Finish κ) → ℕ
  | some (.gave k y) => if (k, y) = (key, x) then 1 else 0
  | _ => 0

/-- The connections held when the call has ended. -/
def Finish.held (held : List (κ × ℕ)) : Option (Finish κ) → List (κ × ℕ)
  | some (.got key (.ok x)) => (key, x) :: held
  | some (.gave key x) => held.erase (key, x)
  | _ => held

/-- What a step of the pool does to the calls and to what is held, when it ends the call. -/
structure Effect (s t : LRUConnectionPool κ γ) (f : Option (Finish κ)) : Prop where
  held : t.held = Finish.held s.held f
  releases : ∀ key x, total (Call.releases key x) s.calls =
    total (Call.releases key x) t.calls + Finish.gives key x f
  gets : ∀ key, s.getting key = t.getting key + Finish.gets key f

/-- A call goes on, and the lock stays as it is. -/
theorem Effect.goes {call : Call κ} (nexts : List (Call κ)) (f : Option (Finish κ))
    (hcall : call ∈ s.calls) (hcalls : t.calls = nexts ++ s.calls.erase call)
    (hlock : t.lock = s.lock) (hheld : t.held = Finish.held s.held f)
    (hreleases : ∀ key x, call.releases key x =
      total (Call.releases key x) nexts + Finish.gives key x f)
    (hgets : ∀ key, call.gets key = total (Call.gets key) nexts + Finish.gets key f) :
    Effect s t f where
  held := hheld
  releases := by
    intro key x
    have htotal := total_replace (Call.releases key x) hcall hcalls
    have hx := hreleases key x
    omega
  gets := by
    intro key
    have htotal := total_replace (Call.gets key) hcall hcalls
    have hkey := hgets key
    unfold getting
    rw [hlock]
    omega

/-- The step leaves the calls, the lock and what is held alone. -/
theorem Effect.same (hcalls : t.calls = s.calls) (hlock : t.lock = s.lock)
    (hheld : t.held = s.held) : Effect s t none where
  held := hheld
  releases := by
    intro key x
    rw [hcalls]
    rfl
  gets := by
    intro key
    unfold getting
    rw [hcalls, hlock]
    rfl

theorem effect_lookup {key : κ} {wait : Wait} (hcall : Call.get key wait ∈ s.calls)
    (hlock : s.lock = none) :
    Effect s (s.doLookup P n key wait) (finishes P (.lookup key wait) s) := by
  unfold doLookup finishes
  simp only
  split
  -- the pool is closed, and the call raises
  · exact .goes [] _ hcall rfl rfl rfl (fun _ _ => rfl) fun _ => (Nat.zero_add _).symm
  · split
    · exact .goes [.choose key wait _] none hcall rfl rfl rfl (fun _ _ => rfl) fun _ => rfl
    · -- the call holds the lock from here on
      refine ⟨rfl, fun k x => ?_, fun k => ?_⟩
      · have htotal := total_erase (Call.releases k x) hcall
        rw [htotal]
        exact Nat.zero_add _
      · have htotal := total_erase (Call.gets k) hcall
        show total (Call.gets k) s.calls + _ =
          total (Call.gets k) (s.calls.erase (.get key wait)) + (if key = k then 1 else 0) + 0
        rw [hlock, htotal]
        simp only [Call.gets]
        omega

theorem effect_create {k : Creating κ} {made : Except Exc ℕ} (hlock : s.lock = some k) :
    Effect s (s.doCreate P k made) (finishes P (.create k made) s) := by
  have hgetting : ∀ key, s.getting key = total (Call.gets key) s.calls +
      if k.key = key then 1 else 0 := by
    intro key
    unfold getting
    rw [hlock]
  cases made with
  | error ex => exact ⟨rfl, fun _ _ => rfl, hgetting⟩
  | ok x => exact ⟨rfl, fun _ _ => rfl, hgetting⟩

omit [DecidableEq κ] in
theorem closeKickedOut_same (P : ContainerClass γ) (s : LRUConnectionPool κ γ) :
    (s.closeKickedOut P).calls = s.calls ∧ (s.closeKickedOut P).lock = s.lock ∧
      (s.closeKickedOut P).held = s.held := by
  unfold closeKickedOut
  split <;> exact ⟨rfl, rfl, rfl⟩

theorem effect_register {k : Creating κ} (hlock : s.lock = some k) :
    Effect s (s.doRegister P k) none := by
  rcases closeKickedOut_same P s with ⟨_, _, hheld⟩
  -- the call that had the lock is among the calls again
  refine ⟨hheld, fun key x => ?_, fun key => ?_⟩
  · show _ = total (Call.releases key x) (.choose k.key k.wait k.container :: s.calls) + 0
    rw [total_cons]
    exact (Nat.zero_add _).symm
  · show total (Call.gets key) s.calls + _ =
      total (Call.gets key) (.choose k.key k.wait k.container :: s.calls) + 0 + 0
    rw [hlock, total_cons]
    simp only [Call.gets]
    omega

theorem effect_choose {key : κ} {wait : Wait} {c : ℕ} (hcall : Call.choose key wait c ∈ s.calls) :
    Effect s (s.doChoose P key wait c) (finishes P (.choose key wait c) s) := by
  unfold doChoose finishes
  simp only
  cases P.choiceConnectionFromContainer (s.containers c) with
  | got x container =>
      exact .goes [.inspect key wait c x] none hcall rfl rfl rfl (fun _ _ => rfl) fun _ => rfl
  -- it stays where it is; giving up is a step of its own
  | empty => exact .same rfl rfl rfl
  | raised ex => exact .goes [] _ hcall rfl rfl rfl (fun _ _ => rfl) fun _ => (Nat.zero_add _).symm

theorem effect_inspect {key : κ} {wait : Wait} {c x : ℕ}
    (hcall : Call.inspect key wait c x ∈ s.calls) :
    Effect s (s.doInspect P key wait c x) (finishes P (.inspect key wait c x) s) := by
  unfold doInspect finishes
  simp only
  split
  -- a dead connection is replaced; otherwise the call returns it
  · exact .goes [.replace key wait c] none hcall rfl rfl rfl (fun _ _ => rfl) fun _ => rfl
  · exact .goes [] _ hcall rfl rfl rfl (fun _ _ => rfl) fun _ => (Nat.zero_add _).symm

theorem effect_replace {key : κ} {wait : Wait} {c : ℕ} {made : Except Exc ℕ}
    (hcall : Call.replace key wait c ∈ s.calls) :
    Effect s (s.doReplace P key wait c made) (finishes P (.replace key wait c made) s) := by
  cases made with
  | error ex => exact .goes [] _ hcall rfl rfl rfl (fun _ _ => rfl) fun _ => (Nat.zero_add _).symm
  | ok x => exact .goes [.choose key wait c] none hcall rfl rfl rfl (fun _ _ => rfl) fun _ => rfl

theorem effect_release {key : κ} {x : ℕ} (hcall : Call.release key x ∈ s.calls) :
    Effect s (s.doRelease key x) (finishes P (.release key x) s) := by
  unfold doRelease finishes
  simp only
  split
  · exact .goes [] _ hcall rfl rfl rfl (fun _ _ => (Nat.zero_add _).symm) fun _ => rfl
  -- a key that has been kicked out takes no connection back
  · cases s.pool.getItem key with
    | some found =>
        exact .goes [.put key found.1 x] none hcall rfl rfl rfl (fun _ _ => rfl) fun _ => rfl
    | none => exact .goes [] _ hcall rfl rfl rfl (fun _ _ => (Nat.zero_add _).symm) fun _ => rfl

omit [DecidableEq κ] in
theorem doClose_same (P : ContainerClass γ) (s : LRUConnectionPool κ γ) :
    (s.doClose P).calls = s.calls ∧ (s.doClose P).lock = s.lock ∧
      (s.doClose P).held = s.held := by
  have hall : ∀ (items : List (κ × ℕ)) (t : LRUConnectionPool κ γ),
      (items.foldl (fun s item => s.closeContainer P item.2) t).calls = t.calls ∧
      (items.foldl (fun s item => s.closeContainer P item.2) t).lock = t.lock ∧
      (items.foldl (fun s item => s.closeContainer P item.2) t).held = t.held := by
    intro items
    induction items with
    | nil => exact fun t => ⟨rfl, rfl, rfl⟩
    | cons item items ih => exact fun t => ih (t.closeContainer P item.2)
  unfold doClose
  split
  · exact ⟨rfl, rfl, rfl⟩
  · exact hall s.pool.iteritems s

/-- A step of the pool that begins no call. -/
theorem effect_update {l : Label κ} (hg : guard P l s) (hstarts : l.starts = false) :
    Effect s (update P n l s) (finishes P l s) := by
  cases l with
  | getStart | releaseStart => cases hstarts
  | lookup key wait => exact effect_lookup hg.1 hg.2
  | create k made => exact effect_create hg.1
  | register k => exact effect_register hg.1
  | choose key wait c => exact effect_choose hg.1
  | giveUp key wait c =>
      exact .goes [] _ hg.1 rfl rfl rfl (fun _ _ => rfl) fun _ => (Nat.zero_add _).symm
  | inspect key wait c x => exact effect_inspect hg
  | replace key wait c made => exact effect_replace hg
  | release key x => exact effect_release hg.1
  | put key c x =>
      exact .goes [] _ hg rfl rfl rfl (fun _ _ => (Nat.zero_add _).symm) fun _ => rfl
  | close =>
      rcases doClose_same P s with ⟨hcalls, hlock, hheld⟩
      exact .same hcalls hlock hheld
  | die x => exact .same rfl rfl rfl

end LRUConnectionPool

namespace Invocations

open LRUConnectionPool

variable {κ γ : Type} [PyHash κ] [DecidableEq κ]

/-! ## What is held -/

/-- The call is in the block with the connection. -/
def uses (key : κ) (x : ℕ) : InvocationPc κ → Bool
  | .inside k y => (k, y) = (key, x)
  | _ => false

/-- The call gives the connection back. -/
def leaves (key : κ) (x : ℕ) : InvocationPc κ → Bool
  | .leaving k y _ => (k, y) = (key, x)
  | _ => false

/-- The call waits for a connection. -/
def enters (key : κ) : InvocationPc κ → Bool
  | .entering k => k = key
  | _ => false

/-- What is held is what calls use or give back, and the calls of the pool are theirs. -/
structure Balanced (s : Invocations κ γ) : Prop where
  held : ∀ key x, s.pool.held.count (key, x) =
    s.pcs.countP (uses key x) + s.pcs.countP (leaves key x)
  releases : ∀ key x, total (Call.releases key x) s.pool.calls = s.pcs.countP (leaves key x)
  gets : ∀ key, s.pool.getting key = s.pcs.countP (enters key)

variable {P : ContainerClass γ} {n : ℕ} {s : Invocations κ γ}

/-- One call moves. -/
theorem countP_move {α : Type} (f : α → Bool) {l : List α} {i : ℕ} {old : α} (new : α)
    (hold : l[i]? = some old) :
    (l.set i new).countP f + (if f old then 1 else 0) =
      l.countP f + if f new then 1 else 0 := by
  rcases List.getElem?_eq_some_iff.mp hold with ⟨hlt, rfl⟩
  rw [List.countP_set hlt]
  -- what is taken off has been counted
  have hpos : f l[i] = true → 0 < l.countP f := fun h =>
    List.countP_pos_iff.mpr ⟨l[i], List.getElem_mem hlt, h⟩
  split
  · have := hpos ‹_›
    omega
  · omega

/-- A call moves, with what that changes in the pool. -/
theorem Balanced.move (h : Balanced s) {i : ℕ} {old : InvocationPc κ} (new : InvocationPc κ)
    (hold : s.pcs[i]? = some old) (pool : LRUConnectionPool κ γ)
    (hheld : ∀ key x, pool.held.count (key, x) + (if uses key x old then 1 else 0) +
        (if leaves key x old then 1 else 0) =
      s.pool.held.count (key, x) + (if uses key x new then 1 else 0) +
        if leaves key x new then 1 else 0)
    (hreleases : ∀ key x, total (Call.releases key x) pool.calls +
        (if leaves key x old then 1 else 0) =
      total (Call.releases key x) s.pool.calls + if leaves key x new then 1 else 0)
    (hgets : ∀ key, pool.getting key + (if enters key old then 1 else 0) =
      s.pool.getting key + if enters key new then 1 else 0) :
    Balanced { pool := pool, pcs := s.pcs.set i new } where
  held := by
    intro key x
    have hx := hheld key x
    have huses := countP_move (uses key x) new hold
    have hleaves := countP_move (leaves key x) new hold
    have hbefore := h.held key x
    show pool.held.count (key, x) = (s.pcs.set i new).countP _ + (s.pcs.set i new).countP _
    omega
  releases := by
    intro key x
    have hx := hreleases key x
    have hleaves := countP_move (leaves key x) new hold
    have hbefore := h.releases key x
    show total (Call.releases key x) pool.calls = (s.pcs.set i new).countP _
    omega
  gets := by
    intro key
    have hkey := hgets key
    have henters := countP_move (enters key) new hold
    have hbefore := h.gets key
    show pool.getting key = (s.pcs.set i new).countP _
    omega

theorem getElem?_countP {α : Type} {f : α → Bool} {l : List α} (h : 0 < l.countP f) :
    ∃ (i : ℕ) (a : α), l[i]? = some a ∧ f a = true := by
  rcases List.countP_pos_iff.mp h with ⟨a, ha, hf⟩
  rcases List.getElem?_of_mem ha with ⟨i, hi⟩
  exact ⟨i, a, hi, hf⟩

theorem countP_of_getElem? {α : Type} {f : α → Bool} {l : List α} {i : ℕ} {a : α}
    (hi : l[i]? = some a) (hf : f a = true) : 0 < l.countP f :=
  List.countP_pos_iff.mpr ⟨a, List.mem_of_getElem? hi, hf⟩

/-- A call of the pool ends, and so the call of a proxy goes on. -/
theorem Balanced.finish (h : Balanced s) {i : ℕ} {f : Finish κ}
    {pool : LRUConnectionPool κ γ} (heffect : Effect s.pool pool (some f))
    (hwaits : Waits s.pcs i f) : Balanced { pool := pool, pcs := resume s.pcs i f } := by
  cases f with
  | got key result =>
      -- the call of the proxy enters the block, or ends
      have hold : s.pcs[i]? = some (.entering key) := hwaits
      cases result with
      | ok x =>
          refine h.move (.inside key x) hold pool (fun k y => ?_) (fun k y => ?_) fun k => ?_
          · rw [heffect.held]
            simp only [Finish.held, List.count_cons, uses, leaves, beq_iff_eq]
            simp
          · have hreleases := heffect.releases k y
            simp only [Finish.gives, leaves, Bool.false_eq_true, if_false] at hreleases ⊢
            omega
          · have hgets := heffect.gets k
            simp only [Finish.gets, enters, decide_eq_true_eq] at hgets ⊢
            simp
            omega
      | error ex =>
          refine h.move .ended hold pool (fun k y => ?_) (fun k y => ?_) fun k => ?_
          · rw [heffect.held]
            rfl
          · have hreleases := heffect.releases k y
            simp only [Finish.gives, leaves, Bool.false_eq_true, if_false] at hreleases ⊢
            omega
          · have hgets := heffect.gets k
            simp only [Finish.gets, enters, decide_eq_true_eq] at hgets ⊢
            simp
            omega
  | gave key x =>
      rcases hwaits with ⟨raised, hold⟩
      have hmem : (key, x) ∈ s.pool.held := by
        refine List.count_pos_iff.mp ?_
        have hheld := h.held key x
        have hpos := countP_of_getElem? (f := leaves key x) hold (by simp [leaves])
        omega
      -- in either place the call has no connection any more
      have hmove : ∀ new, (∀ k y, uses k y new = false) → (∀ k y, leaves k y new = false) →
          (∀ k, enters k new = false) → Balanced { pool := pool, pcs := s.pcs.set i new } := by
        intro new huses hleaves henters
        refine h.move new hold pool (fun k y => ?_) (fun k y => ?_) fun k => ?_
        · have hcount := count_erase hmem (k, y)
          rw [heffect.held, huses, hleaves]
          simp only [Finish.held, uses, leaves, decide_eq_true_eq, Bool.false_eq_true, if_false]
          omega
        · have hreleases := heffect.releases k y
          rw [hleaves]
          simp only [Finish.gives, leaves, decide_eq_true_eq, Bool.false_eq_true,
            if_false] at hreleases ⊢
          omega
        · have hgets := heffect.gets k
          rw [henters]
          simp only [Finish.gets, enters, Bool.false_eq_true, if_false] at hgets ⊢
          omega
      simp only [resume]
      split
      · exact hmove .ended (fun _ _ => rfl) (fun _ _ => rfl) fun _ => rfl
      · exact hmove .awaiting (fun _ _ => rfl) (fun _ _ => rfl) fun _ => rfl

theorem balanced_step (l : Label κ) (s : Invocations κ γ) (hg : guard P l s) (h : Balanced s) :
    Balanced (update P n l s) := by
  cases l with
  | call key =>
      refine ⟨fun k x => ?_, fun k x => ?_, fun k => ?_⟩
      · show _ = (s.pcs ++ [_]).countP _ + (s.pcs ++ [_]).countP _
        rw [List.countP_append, List.countP_append]
        exact h.held k x
      · show _ = (s.pcs ++ [_]).countP _
        rw [List.countP_append]
        exact h.releases k x
      · show _ = (s.pcs ++ [_]).countP _
        rw [List.countP_append]
        exact h.gets k
  | refuse i =>
      rcases hg with ⟨key, hold⟩
      exact h.move .ended hold s.pool (fun _ _ => rfl) (fun _ _ => rfl) fun _ => rfl
  | conclude i => exact h.move .ended hg s.pool (fun _ _ => rfl) (fun _ _ => rfl) fun _ => rfl
  | enter i key =>
      refine h.move (.entering key) hg _ (fun _ _ => rfl) (fun k x => ?_) fun k => ?_
      · show total (Call.releases k x) (.get key defaultWait :: s.pool.calls) + _ = _
        rw [total_cons]
        simp [Call.releases, leaves]
      · have hbegins : ({ s.pool with calls := .get key defaultWait :: s.pool.calls }).getting k =
            (if key = k then 1 else 0) + s.pool.getting k := by
          unfold getting
          rw [total_cons]
          exact Nat.add_assoc _ _ _
        show ({ s.pool with calls := .get key defaultWait :: s.pool.calls }).getting k + _ = _
        rw [hbegins]
        simp only [enters, decide_eq_true_eq, Bool.false_eq_true, if_false]
        omega
  | leave i key x raised =>
      refine h.move (.leaving key x raised) hg _ (fun k y => ?_) (fun k y => ?_) fun k => ?_
      · show s.pool.held.count (k, y) + _ + _ = _
        simp only [uses, leaves, decide_eq_true_eq, Bool.false_eq_true, if_false]
        omega
      · show total (Call.releases k y) (.release key x :: s.pool.calls) + _ = _
        rw [total_cons]
        simp only [Call.releases, leaves, decide_eq_true_eq, Bool.false_eq_true, if_false]
        omega
      · have hbegins : ({ s.pool with calls := .release key x :: s.pool.calls }).getting k =
            s.pool.getting k := by
          unfold getting
          rw [total_cons]
          exact congrArg (· + _) (Nat.zero_add _)
        exact hbegins
  | pool l i =>
      rcases hg with ⟨hstarts, hgl, hwaits⟩
      -- a step inside a call of the pool changes nothing for the proxies, unless it ends it
      have heffect := effect_update (n := n) hgl hstarts
      cases hfinish : finishes P l s.pool with
      | none =>
          rw [hfinish] at heffect
          have hupdate : update P n (.pool l i) s =
              { pool := LRUConnectionPool.update P n l s.pool, pcs := s.pcs } := by
            unfold update
            simp only [hfinish]
          rw [hupdate]
          refine ⟨fun k x => ?_, fun k x => ?_, fun k => ?_⟩
          · rw [← h.held k x, heffect.held]
            rfl
          · exact (heffect.releases k x).symm.trans (h.releases k x)
          · exact (heffect.gets k).symm.trans (h.gets k)
      | some f =>
          rw [hfinish] at heffect
          have hupdate : update P n (.pool l i) s =
              { pool := LRUConnectionPool.update P n l s.pool, pcs := resume s.pcs i f } := by
            unfold update
            simp only [hfinish]
          rw [hupdate]
          exact h.finish heffect (hwaits f hfinish)

theorem balanced_reachable (P : ContainerClass γ) (size : Option ℕ) (n : ℕ)
    (s : Invocations κ γ) (hr : (system P size n).Reachable s) : Balanced s := by
  refine (system P size n).invariant Balanced ?_ balanced_step s hr
  rintro ⟨pool, pcs⟩ ⟨⟨dead, hpool⟩, hpcs⟩
  cases hpool
  cases hpcs
  exact ⟨fun _ _ => rfl, fun _ _ => rfl, fun _ => rfl⟩

/-! ## The pool does not wait -/

/-- A call of `get_connection` that ends is under way. -/
theorem getting_pos {pool : LRUConnectionPool κ γ} {l : LRUConnectionPool.Label κ}
    (hg : LRUConnectionPool.guard P l pool) (hstarts : l.starts = false) {key : κ}
    {result : Except Exc ℕ} (hfinish : finishes P l pool = some (.got key result)) :
    0 < pool.getting key := by
  have heffect := (effect_update (n := 0) hg hstarts).gets key
  rw [hfinish] at heffect
  simp only [Finish.gets, if_true] at heffect
  omega

/-- So is a call of `release_connection`. -/
theorem releasing_pos {pool : LRUConnectionPool κ γ} {l : LRUConnectionPool.Label κ}
    (hg : LRUConnectionPool.guard P l pool) (hstarts : l.starts = false) {key : κ} {x : ℕ}
    (hfinish : finishes P l pool = some (.gave key x)) :
    0 < total (Call.releases key x) pool.calls := by
  have heffect := (effect_update (n := 0) hg hstarts).releases key x
  rw [hfinish] at heffect
  simp only [Finish.gives, if_true] at heffect
  omega

/-- Whatever step the pool may take, some call of a proxy takes it. -/
theorem pool_runs {size : Option ℕ} (hr : (system P size n).Reachable s)
    {l : LRUConnectionPool.Label κ} (hstarts : l.starts = false)
    (hg : LRUConnectionPool.guard P l s.pool) : ∃ i, guard P (.pool l i) s := by
  have h := balanced_reachable P size n s hr
  cases hfinish : finishes P l s.pool with
  | none => exact ⟨0, hstarts, hg, fun f hf => by cases hfinish.symm.trans hf⟩
  | some f =>
      cases f with
      | got key result =>
          -- a call of `get_connection` that ends is counted, so a call of a proxy waits for it
          have hpos := getting_pos hg hstarts hfinish
          rw [h.gets] at hpos
          rcases getElem?_countP hpos with ⟨i, pc, hi, hpc⟩
          refine ⟨i, hstarts, hg, fun f hf => ?_⟩
          cases hfinish.symm.trans hf
          cases pc with
          | entering k =>
              cases of_decide_eq_true hpc
              exact hi
          | _ => cases hpc
      | gave key x =>
          have hpos := releasing_pos hg hstarts hfinish
          rw [h.releases] at hpos
          rcases getElem?_countP hpos with ⟨i, pc, hi, hpc⟩
          refine ⟨i, hstarts, hg, fun f hf => ?_⟩
          cases hfinish.symm.trans hf
          cases pc with
          | leaving k y raised =>
              cases of_decide_eq_true hpc
              exact ⟨raised, hi⟩
          | _ => cases hpc

/-! ## Nothing leaks -/

/-- The call is neither in the pool nor in the block. -/
def Outside : InvocationPc κ → Prop
  | .filtering _ | .awaiting | .ended => True
  | _ => False

/-- Whatever has been raised, by a filter, by `dumps`, by the pool, by the factory or in the
block, and in whatever order: when no call is in the block or in the pool, then no connection is
held, and no call of the pool is under way or has the lock. -/
theorem nothing_leaks {size : Option ℕ} (hr : (system P size n).Reachable s)
    (houtside : ∀ pc ∈ s.pcs, Outside pc) :
    s.pool.held = [] ∧ s.pool.calls = [] ∧ s.pool.lock = none := by
  have h := balanced_reachable P size n s hr
  have hzero : ∀ f : InvocationPc κ → Bool, (∀ pc, Outside pc → f pc = false) →
      s.pcs.countP f = 0 := by
    intro f hf
    refine List.countP_eq_zero.mpr fun pc hpc => ?_
    rw [hf pc (houtside pc hpc)]
    exact Bool.false_ne_true
  have huses := fun key x => hzero (uses key x) fun pc hpc => by cases pc <;> trivial
  have hleaves := fun key x => hzero (leaves key x) fun pc hpc => by cases pc <;> trivial
  have henters := fun key => hzero (enters key) fun pc hpc => by cases pc <;> trivial
  refine ⟨?_, ?_, ?_⟩
  · refine List.eq_nil_iff_forall_not_mem.mpr ?_
    rintro ⟨key, x⟩ hmem
    have hheld := h.held key x
    rw [huses, hleaves] at hheld
    exact List.count_eq_zero.mp hheld hmem
  · refine List.eq_nil_iff_forall_not_mem.mpr fun call hcall => ?_
    -- a call of the pool is one that gets or releases
    have hgets : ∀ key, call.gets key = 0 := by
      intro key
      have htotal := total_erase (Call.gets key) hcall
      have hgetting := (h.gets key).trans (henters key)
      unfold getting at hgetting
      omega
    have hreleases : ∀ key x, call.releases key x = 0 := by
      intro key x
      have htotal := total_erase (Call.releases key x) hcall
      have hnone := (h.releases key x).trans (hleaves key x)
      omega
    cases call with
    | get key _ | choose key _ _ | inspect key _ _ _ | replace key _ _ =>
        have hone := hgets key
        simp only [Call.gets, if_true] at hone
        cases hone
    | release key x | put key _ x =>
        have hone := hreleases key x
        simp only [Call.releases, if_true] at hone
        cases hone
  -- who has the lock is in a call of `get_connection`
  · cases hlock : s.pool.lock with
    | none => rfl
    | some k =>
        have hgetting := (h.gets k.key).trans (henters k.key)
        unfold getting at hgetting
        rw [hlock] at hgetting
        simp only [if_true] at hgetting
        omega

/-- A test of the guard. -/
def fires (P : ContainerClass γ) (l : Label κ) (s : Invocations κ γ) : Bool :=
  match l with
  | .call _ => true
  | .refuse i =>
    match s.pcs[i]? with
    | some (.filtering _) => true
    | _ => false
  | .enter i key => s.pcs[i]? = some (.filtering key)
  | .leave i key x _ => s.pcs[i]? = some (.inside key x)
  | .conclude i => s.pcs[i]? = some .awaiting
  | .pool l i =>
    !l.starts && decide ((LRUConnectionPool.system P none 0).guard l s.pool) &&
      match finishes P l s.pool with
      | none => true
      | some (.got key _) => s.pcs[i]? = some (.entering key)
      | some (.gave key x) =>
        match s.pcs[i]? with
        | some (.leaving k y _) => (k, y) = (key, x)
        | _ => false

theorem fires_guard {l : Label κ} {s : Invocations κ γ} (h : fires P l s = true) :
    guard P l s := by
  cases l with
  | call key => trivial
  | refuse i =>
      unfold fires at h
      simp only at h
      split at h
      · rename_i key hi
        exact ⟨key, hi⟩
      · cases h
  | enter i key | leave i key x raised | conclude i =>
      simp only [fires, decide_eq_true_eq] at h
      exact h
  | pool l i =>
      simp only [fires, Bool.and_eq_true, Bool.not_eq_true', decide_eq_true_eq] at h
      refine ⟨h.1.1, h.1.2, fun f hf => ?_⟩
      have hwaits := h.2
      rw [hf] at hwaits
      cases f with
      | got key result =>
          simp only [decide_eq_true_eq] at hwaits
          exact hwaits
      | gave key x =>
          simp only at hwaits
          split at hwaits
          · rename_i k y raised hi
            cases of_decide_eq_true hwaits
            exact ⟨raised, hi⟩
          · cases hwaits

/-- What a list of labels leads to. -/
def played (P : ContainerClass γ) (size : Option ℕ) (n : ℕ) (ls : List (Label κ)) :
    Invocations κ γ :=
  (system P size n).play (fires P) ls ⟨new P size fun _ => false, []⟩

theorem played_reachable (P : ContainerClass γ) (size : Option ℕ) (n : ℕ)
    (ls : List (Label κ)) : (system P size n).Reachable (played P size n ls) :=
  Lts.Spec.Reachable.play (fun _ _ => fires_guard)
    (Lts.Spec.Reachable.init (S := system P size n) ⟨⟨_, rfl⟩, rfl⟩) ls

/-- The write of the first call of a proxy raises, and a second call comes in between. -/
def raisedInside : List (Label ℕ) :=
  [.call 4, .enter 0 4, .pool (.lookup 4 defaultWait) 0,
    .pool (.create ⟨4, defaultWait, 0, 1⟩ (.ok 10)) 0, .pool (.register ⟨4, defaultWait, 0, 0⟩) 0,
    .pool (.choose 4 defaultWait 0) 0, .pool (.inspect 4 defaultWait 0 10) 0,
    .call 4, .enter 1 4, .pool (.lookup 4 defaultWait) 1]

/-- The two calls go on, until both are over. -/
def bothOver : List (Label ℕ) :=
  [.leave 0 4 10 true, .pool (.release 4 10) 0, .pool (.put 4 0 10) 0,
    .pool (.choose 4 defaultWait 0) 1, .pool (.inspect 4 defaultWait 0 10) 1,
    .leave 1 4 10 false, .pool (.release 4 10) 1, .pool (.put 4 0 10) 1]

theorem nothing_leaks_raised :
    let s := played dedicate (some 1) 1 (raisedInside ++ bothOver)
    s.pcs = [.ended, .awaiting] ∧ s.pool.containers 0 = [10] ∧
      s.pool.held = [] ∧ s.pool.calls = [] ∧ s.pool.lock = none := by
  refine ⟨by decide, by decide, nothing_leaks (played_reachable _ _ _ _) ?_⟩
  have hpcs : (played dedicate (some 1) 1 (raisedInside ++ bothOver)).pcs =
      [.ended, .awaiting] := by decide
  rw [hpcs]
  intro pc hpc
  rcases List.mem_cons.mp hpc with rfl | hpc
  · trivial
  · cases List.mem_singleton.mp hpc
    trivial

/-! ## One user -/

/-- The connections the factory has returned. -/
def recordMade (l : Label κ) (s : Invocations κ (List ℕ)) (created : List ℕ) : List ℕ :=
  match l with
  | .pool l _ => recordCreated l s.pool created
  | _ => created

/-- The factory returns a connection that it has not returned before. -/
def makesFresh (l : Label κ) (s : Invocations κ (List ℕ)) (created : List ℕ) : Bool :=
  match l with
  | .pool l _ => fresh l s.pool created
  | _ => true

/-- Calls of proxies over a `DedicateLRUConnectionPool`, with a factory that makes fresh
connections. -/
abbrev dedicatedCalls (size : Option ℕ) (n : ℕ) :
    Lts.Spec (Invocations κ (List ℕ) × List ℕ) (Label κ) :=
  ((system dedicate size n).withHistory recordMade []).restrict fun l p => makesFresh l p.1 p.2

/-- The calls give back what they hold, each once: the pool is used as it is meant to be. -/
theorem dedicated_projection (size : Option ℕ) (n : ℕ) :
    Lts.Spec.Projection (dedicatedCalls (κ := κ) size n) (dedicated size n)
      fun p => (p.1.pool, p.2) where
  init := fun p hp => ⟨hp.1.1, hp.2⟩
  step := by
    rintro l ⟨s, created⟩ hr ⟨hg, hfresh⟩
    cases l with
    | call key | refuse i | conclude i => exact Or.inl rfl
    -- `get_connection` begins
    | enter i key => exact Or.inr ⟨.getStart key defaultWait, ⟨trivial, rfl⟩, rfl⟩
    | leave i key x raised =>
        refine Or.inr ⟨.releaseStart key x, ⟨trivial, ?_⟩, rfl⟩
        -- this call is in the block, and so it is not among those that give back
        have h := balanced_reachable dedicate size n s hr.of_restrict.of_history
        have huses : 0 < s.pcs.countP (uses key x) :=
          countP_of_getElem? (f := uses key x) hg (by simp [uses])
        have hheld := h.held key x
        have hreleases := h.releases key x
        show (true && decide (total (Call.releases key x) s.pool.calls <
          s.pool.held.count (key, x))) = true
        rw [Bool.true_and, decide_eq_true_eq]
        omega
    | pool l i =>
        refine Or.inr ⟨l, ⟨hg.2.1, ?_⟩, rfl⟩
        have hreleased : releasedOnce l s.pool = true := by
          cases l with
          | releaseStart key x => cases hg.1
          | _ => rfl
        have hfresh' : fresh l s.pool created = true := hfresh
        show (fresh l s.pool created && releasedOnce l s.pool) = true
        rw [hfresh', hreleased]
        rfl

/-- The connection a call has, in the block or on its way out of it. -/
def connectionOf : InvocationPc κ → Option (κ × ℕ)
  | .inside key x | .leaving key x _ => some (key, x)
  | _ => none

/-- The connections that calls have. -/
def connections (pcs : List (InvocationPc κ)) : List (κ × ℕ) := pcs.filterMap connectionOf

/-- They are the connections held. -/
theorem Balanced.perm {s : Invocations κ γ} (h : Balanced s) :
    (connections s.pcs).Perm s.pool.held := by
  refine List.perm_iff_count.mpr ?_
  rintro ⟨key, x⟩
  rw [h.held, connections, List.count_filterMap]
  -- a call has a connection where it uses one or gives one back
  induction s.pcs with
  | nil => rfl
  | cons pc pcs ih =>
      rw [List.countP_cons, List.countP_cons, List.countP_cons, ih]
      cases pc with
      | inside k y | leaving k y raised =>
          simp only [connectionOf, uses, leaves, beq_iff_eq, Option.some.injEq, decide_eq_true_eq,
            Bool.false_eq_true, if_false]
          omega
      | _ => rfl

/-- The connections held are each in one place only. -/
theorem onePlace_reachable {size : Option ℕ} {p : Invocations κ (List ℕ) × List ℕ}
    (hr : (dedicatedCalls size n).Reachable p) : OnePlace p.1.pool :=
  onePlace_of_places
    (exclusive_reachable size n _ ((dedicated_projection size n).reachable hr)).once

/-- No two calls have the same connection. -/
theorem same_call {size : Option ℕ} {p : Invocations κ (List ℕ) × List ℕ}
    (hr : (dedicatedCalls size n).Reachable p) {i j : ℕ} {pc pc' : InvocationPc κ}
    (hi : p.1.pcs[i]? = some pc) (hj : p.1.pcs[j]? = some pc') {key key' : κ} {x : ℕ}
    (hx : connectionOf pc = some (key, x)) (hx' : connectionOf pc' = some (key', x)) : i = j := by
  have h := balanced_reachable dedicate size n p.1 hr.of_restrict.of_history
  have hnodup : ((connections p.1.pcs).map Prod.snd).Nodup :=
    (h.perm.map Prod.snd).nodup_iff.mpr (onePlace_reachable hr).one_holder
  -- the earlier one of two calls with the connection
  have hpairs : ∀ k l : ℕ, k < l → ∀ q q' : InvocationPc κ, p.1.pcs[k]? = some q →
      p.1.pcs[l]? = some q' → ∀ a b, connectionOf q = some (a, x) →
      connectionOf q' = some (b, x) → False := by
    intro k l hkl q q' hk hl a b ha hb
    rw [connections, List.map_filterMap] at hnodup
    rcases List.getElem?_eq_some_iff.mp hk with ⟨hklt, rfl⟩
    rcases List.getElem?_eq_some_iff.mp hl with ⟨hllt, rfl⟩
    have hne := List.pairwise_iff_getElem.mp (List.pairwise_filterMap.mp hnodup) k l hklt hllt hkl
    exact hne x (by rw [ha]; rfl) x (by rw [hb]; rfl) rfl
  rcases Nat.lt_trichotomy i j with hlt | heq | hgt
  · exact (hpairs i j hlt pc pc' hi hj key key' hx hx').elim
  · exact heq
  · exact (hpairs j i hgt pc' pc hj hi key' key hx' hx).elim

/-- In a dedicated pool, whatever is raised and whichever keys are kicked out: a connection
that a call of a proxy has is no other call's, and it is in no queue of the pool. -/
theorem one_user {size : Option ℕ} {p : Invocations κ (List ℕ) × List ℕ}
    (hr : (dedicatedCalls size n).Reachable p) {i j : ℕ} {pc pc' : InvocationPc κ}
    (hi : p.1.pcs[i]? = some pc) (hj : p.1.pcs[j]? = some pc') {key key' : κ} {x : ℕ}
    (hx : connectionOf pc = some (key, x)) (hx' : connectionOf pc' = some (key', x)) :
    i = j ∧ ∀ c < p.1.pool.containerCount, x ∉ p.1.pool.containers c := by
  have h := balanced_reachable dedicate size n p.1 hr.of_restrict.of_history
  have hmem : (key, x) ∈ p.1.pool.held :=
    h.perm.mem_iff.mp (List.mem_filterMap.mpr ⟨pc, List.mem_of_getElem? hi, hx⟩)
  constructor
  · exact same_call hr hi hj hx hx'
  · intro c hc hqueue
    exact (onePlace_reachable hr).not_both c hc x hqueue key hmem

/-- A call stays in the block until it leaves it. -/
theorem inside_stays {P : ContainerClass γ} {s : Invocations κ γ} {l : Label κ}
    (hg : guard P l s) {i : ℕ} {key : κ} {x : ℕ} (hi : s.pcs[i]? = some (.inside key x))
    (hstays : ∀ raised, l ≠ .leave i key x raised) :
    (update P n l s).pcs[i]? = some (.inside key x) := by
  have hother : ∀ (j : ℕ) (old : InvocationPc κ), s.pcs[j]? = some old → old ≠ .inside key x →
      j ≠ i := by
    rintro j old hj hne rfl
    exact hne (Option.some.inj (hj.symm.trans hi))
  have hset : ∀ (j : ℕ) (new : InvocationPc κ), j ≠ i →
      (s.pcs.set j new)[i]? = some (.inside key x) := by
    intro j new hne
    rw [List.getElem?_set_ne hne]
    exact hi
  cases l with
  | call k =>
      rcases List.getElem?_eq_some_iff.mp hi with ⟨hlt, _⟩
      show (s.pcs ++ [_])[i]? = _
      rw [List.getElem?_append_left hlt]
      exact hi
  | refuse j =>
      rcases hg with ⟨k, hj⟩
      exact hset j _ (hother j _ hj (by rintro ⟨⟩))
  | conclude j => exact hset j _ (hother j _ hg (by rintro ⟨⟩))
  | enter j k => exact hset j _ (hother j _ hg (by rintro ⟨⟩))
  | leave j k y raised =>
      -- it is another call that leaves
      refine hset j _ ?_
      rintro rfl
      cases hi.symm.trans hg
      exact hstays raised rfl
  | pool l j =>
      rcases hg with ⟨_, _, hwaits⟩
      cases hfinish : finishes P l s.pool with
      | none =>
          simp only [update, hfinish]
          exact hi
      | some f =>
          simp only [update, hfinish]
          have hwait := hwaits f hfinish
          cases f with
          | got k result =>
              have hne := hother j _ hwait (by rintro ⟨⟩)
              cases result with
              | ok y => exact hset j _ hne
              | error ex => exact hset j _ hne
          | gave k y =>
              rcases hwait with ⟨raised, hj⟩
              have hne := hother j _ hj (by rintro ⟨⟩)
              unfold resume
              rw [hj]
              cases raised with
              | true => exact hset j _ hne
              | false => exact hset j _ hne

/-- While the first connection is inside with a call, its key is kicked out and comes back. -/
def kickedOutInside : List (Label ℕ) :=
  raisedInside.take 7 ++
    [.call 5, .enter 1 5, .pool (.lookup 5 defaultWait) 1,
      .pool (.create ⟨5, defaultWait, 1, 1⟩ (.ok 11)) 1,
      .pool (.register ⟨5, defaultWait, 1, 0⟩) 1,
      .call 4, .enter 2 4, .pool (.lookup 4 defaultWait) 2,
      .pool (.create ⟨4, defaultWait, 2, 1⟩ (.ok 12)) 2,
      .pool (.register ⟨4, defaultWait, 2, 0⟩) 2,
      .pool (.choose 4 defaultWait 2) 2, .pool (.inspect 4 defaultWait 2 12) 2,
      .leave 0 4 10 false]

/-- A test of the guard of `dedicatedCalls`. -/
def firesFresh (l : Label κ) (p : Invocations κ (List ℕ) × List ℕ) : Bool :=
  fires dedicate l p.1 && makesFresh l p.1 p.2

/-- What a list of labels leads to. -/
def playedFresh (size : Option ℕ) (n : ℕ) (ls : List (Label κ)) :
    Invocations κ (List ℕ) × List ℕ :=
  (dedicatedCalls size n).play firesFresh ls (⟨new dedicate size fun _ => false, []⟩, [])

theorem firesFresh_guard {size : Option ℕ} {l : Label κ} {p : Invocations κ (List ℕ) × List ℕ}
    (h : firesFresh l p = true) : (dedicatedCalls size n).guard l p := by
  unfold firesFresh at h
  rw [Bool.and_eq_true] at h
  exact ⟨fires_guard h.1, h.2⟩

theorem playedFresh_reachable (size : Option ℕ) (n : ℕ) (ls : List (Label κ)) :
    (dedicatedCalls size n).Reachable (playedFresh size n ls) := by
  refine Lts.Spec.Reachable.play (fun _ _ => firesFresh_guard) (Lts.Spec.Reachable.init ?_) ls
  exact ⟨⟨⟨fun _ => false, rfl⟩, rfl⟩, rfl⟩

theorem one_user_kicked_out :
    let p := playedFresh (some 1) 1 kickedOutInside
    p.1.pcs = [.leaving 4 10 false, .entering 5, .inside 4 12] ∧
      (2 = 2 ∧ ∀ c < p.1.pool.containerCount, 12 ∉ p.1.pool.containers c) := by
  have hpcs : (playedFresh (some 1) 1 kickedOutInside).1.pcs =
      [.leaving 4 10 false, .entering 5, .inside 4 12] := by decide
  have hinside : (playedFresh (some 1) 1 kickedOutInside).1.pcs[2]? = some (.inside 4 12) := by
    rw [hpcs]
    rfl
  exact ⟨hpcs, one_user (playedFresh_reachable (some 1) 1 kickedOutInside) hinside hinside rfl rfl⟩

end Invocations

end SummerRpc
