import SummerRpc.Pool.Destinations
import SummerRpc.Pool.Capacity

/-! # Keys of one hash

The pool finds a container by the hash of its key (`LRUCache` compares nothing else). So the
calls of a proxy write to the remote that has been chosen for them exactly where no two remotes
have the same hash.

* `RightRemote`: a call in the block has a connection to the remote of its key;
* `reaches_inside`: a call that finds a container gets the connection that is chosen there;
* `wrong_remote`: so a key gets the connection of another one of its hash;
* `right_remote`: in every run, on either pool, if and only if there are no two such keys.
-/

namespace SummerRpc

namespace Invocations

open LRUConnectionPool

/-- The calls that are in the block have connections to the remotes of their keys. -/
def RightRemote {κ γ : Type} [PyHash κ] (remote : ℕ → κ) (s : Invocations κ γ) : Prop :=
  ∀ (i : ℕ) (key : κ) (x : ℕ), s.pcs[i]? = some (.inside key x) → remote x = key

variable {κ : Type} [PyHash κ] [DecidableEq κ] {size : Option ℕ} {n : ℕ} {remote : ℕ → κ}

/-! ## One step after the other -/

section Step

variable {γ : Type} {P : ContainerClass γ} {s : Invocations κ γ}

/-- A step of a call of a proxy outside of the pool. -/
theorem step_call (hr : (connecting P size n remote).Reachable s) {l : Label κ}
    (hg : guard P l s) (hcall : ∀ m i, l ≠ .pool m i) :
    (connecting P size n remote).Reachable (update P n l s) :=
  Lts.Spec.Reachable.step (S := connecting P size n remote) l hr
    ⟨hg, fun m i heq => absurd heq (hcall m i)⟩

/-- A step of the pool that ends no call of it. -/
theorem step_pool (hr : (connecting P size n remote).Reachable s) {l : LRUConnectionPool.Label κ}
    (hstarts : l.starts = false) (hg : LRUConnectionPool.guard P l s.pool)
    (hopens : Opens remote l) (hnone : finishes P l s.pool = none) :
    (connecting P size n remote).Reachable
      ⟨LRUConnectionPool.update P n l s.pool, s.pcs⟩ := by
  have hguard : guard P (.pool l 0) s := by
    refine ⟨hstarts, hg, fun f hf => ?_⟩
    cases hnone.symm.trans hf
  have hstep := Lts.Spec.Reachable.step (S := connecting P size n remote) (.pool l 0) hr
    ⟨hguard, fun m i heq => by cases heq; exact hopens⟩
  have hupdate : update P n (.pool l 0) s = ⟨LRUConnectionPool.update P n l s.pool, s.pcs⟩ := by
    unfold update
    simp only [hnone]
  exact hupdate ▸ hstep

/-- A call finds the container of its key. -/
theorem step_lookup (hr : (connecting P size n remote).Reachable s)
    (hopen : s.pool.closed = false) (hlock : s.pool.lock = none) {key : κ} {wait : Wait} {c : ℕ}
    {pool : LRUCache κ ℕ} (hcall : .get key wait ∈ s.pool.calls)
    (hget : s.pool.pool.getItem key = some (c, pool)) :
    (connecting P size n remote).Reachable
      ⟨{ s.pool with pool := pool }.goOn (.get key wait) (.choose key wait c), s.pcs⟩ := by
  have hnone : finishes P (.lookup key wait) s.pool = none :=
    if_neg (by rw [hopen]; exact Bool.false_ne_true)
  have hstep := step_pool hr rfl (l := .lookup key wait) ⟨hcall, hlock⟩ trivial hnone
  have hupdate : LRUConnectionPool.update P n (.lookup key wait) s.pool =
      { s.pool with pool := pool }.goOn (.get key wait) (.choose key wait c) :=
    doLookup_some P n wait hopen hget
  rwa [hupdate] at hstep

/-- A call gets a connection out of the container. -/
theorem step_choose (hr : (connecting P size n remote).Reachable s) {key : κ} {wait : Wait}
    {c x : ℕ} {y : γ} (hcall : .choose key wait c ∈ s.pool.calls)
    (hchoice : P.choiceConnectionFromContainer (s.pool.containers c) = .got x y) :
    (connecting P size n remote).Reachable
      ⟨(s.pool.setContainer c y).goOn (.choose key wait c) (.inspect key wait c x), s.pcs⟩ := by
  have hnone : finishes P (.choose key wait c) s.pool = none := by
    unfold finishes
    simp only [hchoice]
  have hg : LRUConnectionPool.guard P (.choose key wait c) s.pool := by
    refine ⟨hcall, ?_⟩
    rw [hchoice]
    rfl
  have hstep := step_pool hr rfl (l := .choose key wait c) hg trivial hnone
  have hupdate : LRUConnectionPool.update P n (.choose key wait c) s.pool =
      (s.pool.setContainer c y).goOn (.choose key wait c) (.inspect key wait c x) := by
    change doChoose P s.pool key wait c = _
    unfold doChoose
    rw [hchoice]
  rwa [hupdate] at hstep

/-- A call that has chosen a live connection gets it. -/
theorem step_inspect (hr : (connecting P size n remote).Reachable s) {key : κ} {wait : Wait}
    {c x i : ℕ} (hcall : .inspect key wait c x ∈ s.pool.calls) (halive : s.pool.dead x = false)
    (hi : s.pcs[i]? = some (.entering key)) :
    ∃ t, (connecting P size n remote).Reachable t ∧ t.pcs[i]? = some (.inside key x) := by
  have hends : finishes P (.inspect key wait c x) s.pool = some (.got key (.ok x)) :=
    if_neg (by rw [halive]; exact Bool.false_ne_true)
  have hguard : guard P (.pool (.inspect key wait c x) i) s := by
    refine ⟨rfl, hcall, fun f hf => ?_⟩
    cases hends.symm.trans hf
    exact hi
  have hstep := Lts.Spec.Reachable.step (S := connecting P size n remote)
    (.pool (.inspect key wait c x) i) hr ⟨hguard, fun m j heq => by cases heq; trivial⟩
  have hpcs : (update P n (.pool (.inspect key wait c x) i) s).pcs =
      s.pcs.set i (.inside key x) := by
    unfold update
    simp only [hends]
    rfl
  refine ⟨_, hstep, (congrArg (·[i]?) hpcs).trans (List.getElem?_set_self ?_)⟩
  exact (List.getElem?_eq_some_iff.mp hi).1

/-- A call whose key finds a container gets the live connection that is chosen there. -/
theorem reaches_inside (hr : (connecting P size n remote).Reachable s)
    (hopen : s.pool.closed = false) (hlock : s.pool.lock = none) {key : κ} {c x : ℕ}
    {pool : LRUCache κ ℕ} {y : γ} (hget : s.pool.pool.getItem key = some (c, pool))
    (hchoice : P.choiceConnectionFromContainer (s.pool.containers c) = .got x y)
    (halive : s.pool.dead x = false) :
    ∃ t, (connecting P size n remote).Reachable t ∧
      t.pcs[s.pcs.length]? = some (.inside key x) := by
  have hcall := step_call hr (l := .call key) trivial (by rintro m i ⟨⟩)
  have henter := step_call hcall (l := .enter s.pcs.length key) List.getElem?_concat_length
    (by rintro m i ⟨⟩)
  have hlookup := step_lookup henter hopen hlock List.mem_cons_self hget
  have hchoose := step_choose hlookup List.mem_cons_self hchoice
  have hlt : s.pcs.length < (s.pcs ++ [InvocationPc.filtering key]).length := by
    rw [List.length_append]
    exact Nat.lt_succ_self _
  exact step_inspect hchoose List.mem_cons_self halive (List.getElem?_set_self hlt)

end Step

/-! ## The right remote -/

/-- A key gets the connection of another one of its hash. -/
theorem wrong_remote {k k' : κ} (hhash : (PyHash.hash k' : ℤ) = PyHash.hash k) :
    ∃ s, (connecting dedicate none 1 fun _ => k).Reachable s ∧
      s.pcs[1]? = some (.inside k' 0) := by
  have hinit : (connecting dedicate none 1 fun _ => k).Reachable
      ⟨new dedicate none fun _ => false, []⟩ :=
    Lts.Spec.Reachable.init ⟨⟨_, rfl⟩, rfl⟩
  have hcall := step_call hinit (l := .call k) trivial (by rintro m i ⟨⟩)
  have henter := step_call hcall (l := .enter 0 k) rfl (by rintro m i ⟨⟩)
  have hlookup := step_pool (l := .lookup k defaultWait) henter rfl
    ⟨List.mem_cons_self, rfl⟩ trivial rfl
  have hcreate := step_pool (l := .create ⟨k, defaultWait, 0, 1⟩ (.ok 0)) hlookup rfl
    ⟨rfl, Nat.one_pos⟩ rfl rfl
  have hregister := step_pool (l := .register ⟨k, defaultWait, 0, 0⟩) hcreate rfl
    ⟨rfl, rfl⟩ trivial rfl
  -- the other key is found where this one is
  have hget : ((LRUCache.new none : LRUCache κ ℕ).setItem k 0).getItem k' =
      some (0, ((LRUCache.new none).setItem k 0).touch k') := by
    have hfind : ((LRUCache.new none : LRUCache κ ℕ).setItem k 0).find k' = some ⟨k, 0⟩ :=
      LRUCache.find_some.mpr ⟨List.mem_cons_self, hhash.symm⟩
    unfold LRUCache.getItem
    rw [hfind]
    rfl
  exact reaches_inside hregister rfl rfl hget rfl rfl

variable (κ) in
/-- Whatever dies, is replaced, kicked out or raised: in every run of calls of proxies over
either pool, every call in the block has a connection to the remote of its key, if and only if
no two keys have the same hash. -/
theorem right_remote :
    (∀ (size : Option ℕ) (n : ℕ) (remote : ℕ → κ),
      (∀ s, (connecting dedicate size n remote).Reachable s → RightRemote remote s) ∧
        ∀ s, (connecting shared size n remote).Reachable s → RightRemote remote s) ↔
      Function.Injective (PyHash.hash : κ → ℤ) := by
  constructor
  · intro h k' k hhash
    rcases wrong_remote hhash with ⟨s, hr, hinside⟩
    exact ((h none 1 fun _ => k).1 s hr 1 k' 0 hinside).symm
  · intro hinj size n remote
    constructor
    · intro s hr i key x hinside
      exact remote_of_inside hinj dedicate_lawful dedicate_closes hr hinside
    · intro s hr i key x hinside
      exact remote_of_inside hinj shared_lawful shared_closes hr hinside

end Invocations

end SummerRpc
