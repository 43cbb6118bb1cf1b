import SummerRpc.Pool.Invocations
import SummerRpc.Pool.Remotes

/-! # Where connections lead

`Refer._get_connnection_context` of `stub.py` gives the pool a remote as the key and a factory
that connects to this remote. A call of a proxy may get a connection that another call has made,
has found dead and replaced, or has given back when its key has been kicked out and is there
again.

* `Opens`: the factory of a call connects to the remote of the call;
* `Directed`: the connections in a container lead to the remote of its key, and so do those that
  calls have in their hands;
* `right_remote`: a call of a proxy writes to the remote that the cluster has chosen for it.
-/

namespace SummerRpc

namespace LRUConnectionPool

variable {κ γ : Type} [PyHash κ]

/-- A factory opens connections to the remote of its key. -/
def Opens (remote : ℕ → κ) : Label κ → Prop
  | .create k (.ok x) => remote x = k.key
  | .replace key _ _ (.ok x) => remote x = key
  | _ => True

/-- So it does, and what is released has been obtained under the same key. -/
def Directs (remote : ℕ → κ) (l : Label κ) (s : LRUConnectionPool κ γ) : Prop :=
  Opens remote l ∧ ∀ key x, l = .releaseStart key x → (key, x) ∈ s.held

/-- The connection that a call has in its hands, and the key it was called with. -/
def Call.carried : Call κ → Option (κ × ℕ)
  | .inspect key _ _ x | .release key x | .put key _ x => some (key, x)
  | .get _ _ | .choose _ _ _ | .replace _ _ _ => none

/-- Every connection leads to the remote of the key under which it can be found. -/
structure Directed (P : ContainerClass γ) (valid : γ → Prop) (remote : ℕ → κ)
    (s : LRUConnectionPool κ γ) (owner : ℕ → Option κ) : Prop where
  valid : ∀ c, valid (s.containers c)
  containers : ∀ c key, owner c = some key → ∀ x ∈ P.connections (s.containers c), remote x = key
  /-- a container that is being filled has no key yet -/
  filling : ∀ k, s.lock = some k → ∀ x ∈ P.connections (s.containers k.container),
    remote x = k.key
  calls : ∀ call ∈ s.calls, ∀ key x, call.carried = some (key, x) → remote x = key
  held : ∀ key x, (key, x) ∈ s.held → remote x = key

variable {P : ContainerClass γ} {valid : γ → Prop} {remote : ℕ → κ} {n : ℕ}
  {s t : LRUConnectionPool κ γ} {owner : ℕ → Option κ}

/-- A step that leaves the containers and the lock alone. -/
theorem Directed.still (h : Directed P valid remote s owner)
    (hcontainers : t.containers = s.containers) (hlock : t.lock = s.lock ∨ t.lock = none)
    (hcalls : ∀ call ∈ t.calls, call ∈ s.calls ∨
      ∀ key x, call.carried = some (key, x) → remote x = key)
    (hheld : ∀ key x, (key, x) ∈ t.held → (key, x) ∈ s.held ∨ remote x = key) :
    Directed P valid remote t owner where
  valid := by
    rw [hcontainers]
    exact h.valid
  containers := by
    rw [hcontainers]
    exact h.containers
  filling := by
    intro k hk
    rw [hcontainers]
    rcases hlock with heq | hnone
    · exact h.filling k (heq ▸ hk)
    · cases hnone.symm.trans hk
  calls := by
    intro call hcall key x hcarried
    rcases hcalls call hcall with hold | hnew
    · exact h.calls call hold key x hcarried
    · exact hnew key x hcarried
  held := fun key x hmem => (hheld key x hmem).elim (h.held key x) id

/-- Containers are emptied. -/
theorem Directed.closed (h : Directed P valid remote s owner) {cs : List ℕ}
    (hall : ClosedAll P valid cs s t) : Directed P valid remote t owner := by
  have hsub : ∀ c, ∀ x ∈ P.connections (t.containers c), x ∈ P.connections (s.containers c) := by
    intro c x hx
    rcases hall.connections c with heq | hnil
    · rwa [heq] at hx
    · rw [hnil] at hx
      cases hx
  have hframe := hall.frame
  constructor
  · exact hall.valid h.valid
  · exact fun c key hc x hx => h.containers c key hc x (hsub c x hx)
  · intro k hk x hx
    rw [hframe] at hk
    exact h.filling k hk x (hsub _ x hx)
  · rw [hframe]
    exact h.calls
  · rw [hframe]
    exact h.held

/-- A call works on a container of its own key. -/
theorem Directed.work (h : Directed P valid remote s owner) (ho : Owned s owner) {call : Call κ}
    (hcall : call ∈ s.calls) {key : κ} {c : ℕ} (hplace : call.container = some (key, c)) {y : γ}
    (hy : valid y)
    (hconnections : ∀ x ∈ P.connections y, x ∈ P.connections (s.containers c) ∨ remote x = key)
    (hcontainers : t.containers = Function.update s.containers c y) (hlock : t.lock = s.lock)
    (hcalls : ∀ other ∈ t.calls, other ∈ s.calls ∨
      ∀ key' x, other.carried = some (key', x) → remote x = key')
    (hheld : ∀ key' x, (key', x) ∈ t.held → (key', x) ∈ s.held) :
    Directed P valid remote t owner := by
  have hc : owner c = some key := ho.calls call hcall key c hplace
  constructor
  · rw [hcontainers]
    exact valid_update c hy h.valid
  · intro d key' hd x hx
    rw [hcontainers] at hx
    by_cases hdc : d = c
    · subst hdc
      cases hc.symm.trans hd
      rw [Function.update_self] at hx
      exact (hconnections x hx).elim (h.containers d key hc x) id
    · rw [Function.update_of_ne hdc] at hx
      exact h.containers d key' hd x hx
  · intro k hk x hx
    rw [hlock] at hk
    -- the container that is being filled is nobody's
    have hne : k.container ≠ c := by
      intro heq
      have hnone := (ho.lock k hk).1
      rw [heq] at hnone
      cases hnone.symm.trans hc
    rw [hcontainers, Function.update_of_ne hne] at hx
    exact h.filling k hk x hx
  · intro other hother key' x hcarried
    rcases hcalls other hother with hold | hnew
    · exact h.calls other hold key' x hcarried
    · exact hnew key' x hcarried
  · exact fun key' x hmem => h.held key' x (hheld key' x hmem)

omit [PyHash κ] in
/-- A call that has nothing in its hands goes on. -/
theorem empty_handed {call : Call κ} (hnone : call.carried = none) :
    ∀ key x, call.carried = some (key, x) → remote x = key := by
  intro key x hsome
  cases hnone.symm.trans hsome

variable [DecidableEq κ]

/-- What a call goes on as is new, and the others were there. -/
theorem mem_goOn {call next other : Call κ} (h : other ∈ next :: s.calls.erase call)
    (hnext : ∀ key x, next.carried = some (key, x) → remote x = key) :
    other ∈ s.calls ∨ ∀ key x, other.carried = some (key, x) → remote x = key := by
  rcases List.mem_cons.mp h with rfl | hold
  · exact Or.inr hnext
  · exact Or.inl (mem_erase_calls hold)

/-- A call ends. -/
theorem Directed.leave (h : Directed P valid remote s owner) (call : Call κ)
    (hcontainers : t.containers = s.containers) (hlock : t.lock = s.lock)
    (hcalls : t.calls = s.calls.erase call)
    (hheld : ∀ key x, (key, x) ∈ t.held → (key, x) ∈ s.held ∨ remote x = key) :
    Directed P valid remote t owner := by
  refine h.still hcontainers (Or.inl hlock) (fun other hother => Or.inl ?_) hheld
  rw [hcalls] at hother
  exact mem_erase_calls hother

theorem directed_lookup (hP : Lawful P valid) (ho : Owned s owner)
    (h : Directed P valid remote s owner) (key : κ) (wait : Wait) :
    Directed P valid remote (s.doLookup P n key wait) owner := by
  unfold doLookup
  split
  · exact h.leave (.get key wait) rfl rfl rfl fun _ _ => Or.inl
  · split
    · exact h.still rfl (Or.inl rfl) (fun _ hother => mem_goOn hother (empty_handed rfl))
        fun _ _ => Or.inl
    · -- the new container is empty, and has no key yet
      have hempty : ∀ x, x ∉ P.connections (Function.update s.containers s.containerCount
          P.getConnectionContainer s.containerCount) := by
        intro x
        rw [Function.update_self, hP.get]
        exact List.not_mem_nil
      constructor
      · exact valid_update s.containerCount hP.valid_get h.valid
      · intro c key' hc x hx
        have hne : c ≠ s.containerCount := by
          rintro rfl
          cases (ho.later _ (Nat.le_refl _)).symm.trans hc
        change x ∈ P.connections (Function.update s.containers _ _ c) at hx
        rw [Function.update_of_ne hne] at hx
        exact h.containers c key' hc x hx
      · intro k hk x hx
        cases hk
        exact absurd hx (hempty x)
      · exact fun call hcall => h.calls call (mem_erase_calls hcall)
      · exact h.held

omit [DecidableEq κ] in
theorem directed_create (hP : Lawful P valid) (ho : Owned s owner)
    (h : Directed P valid remote s owner) {k : Creating κ} (hlock : s.lock = some k)
    {made : Except Exc ℕ} (hopens : Opens remote (.create k made)) :
    Directed P valid remote (s.doCreate P k made) owner := by
  cases made with
  | error ex =>
      exact h.still rfl (Or.inr rfl) (fun _ hcall => Or.inl hcall) fun _ _ => Or.inl
  | ok y =>
      have hmem : ∀ x ∈ P.connections (P.addConnectionToContainer (s.containers k.container) y),
          remote x = k.key := by
        intro x hx
        rcases List.mem_cons.mp ((hP.add _ _).mem_iff.mp hx) with rfl | hold
        · exact hopens
        · exact h.filling k hlock x hold
      constructor
      · exact valid_update k.container (hP.valid_add _ _ (h.valid _)) h.valid
      · intro c key hc x hx
        have hne : c ≠ k.container := by
          rintro rfl
          cases (ho.lock k hlock).1.symm.trans hc
        change x ∈ P.connections (Function.update s.containers _ _ c) at hx
        rw [Function.update_of_ne hne] at hx
        exact h.containers c key hc x hx
      · intro k' hk' x hx
        cases hk'
        change x ∈ P.connections (Function.update s.containers _ _ k.container) at hx
        rw [Function.update_self] at hx
        exact hmem x hx
      · exact h.calls
      · exact h.held

omit [DecidableEq κ] in
/-- The container that has been filled is the one of its key. -/
theorem directed_register (hC : Closes P valid) (h : Directed P valid remote s owner)
    {k : Creating κ} (hlock : s.lock = some k) :
    Directed P valid remote (s.doRegister P k)
      (Function.update owner k.container (some k.key)) := by
  have hclosed := h.closed (closeKickedOut_closed hC s)
  have hsame := closeKickedOut_same P s
  constructor
  · exact hclosed.valid
  · intro c key hc x hx
    by_cases hck : c = k.container
    · subst hck
      rw [Function.update_self] at hc
      cases hc
      exact hclosed.filling k (hsame.2.1.trans hlock) x hx
    · rw [Function.update_of_ne hck] at hc
      exact hclosed.containers c key hc x hx
  · intro k' hk'
    cases hk'
  · intro call hcall key x hcarried
    rcases List.mem_cons.mp hcall with rfl | hold
    · cases hcarried
    · exact h.calls call hold key x hcarried
  · exact hclosed.held

theorem directed_choose (hP : Lawful P valid) (ho : Owned s owner)
    (h : Directed P valid remote s owner) {key : κ} {wait : Wait} {c : ℕ}
    (hcall : .choose key wait c ∈ s.calls) :
    Directed P valid remote (s.doChoose P key wait c) owner := by
  have hc : owner c = some key := ho.calls _ hcall key c rfl
  unfold doChoose
  split
  · rename_i y container hgot
    refine h.work ho hcall rfl (hP.valid_choice _ _ _ (h.valid c) hgot) (fun x hx => Or.inl ?_)
      rfl rfl (fun _ hother => mem_goOn hother ?_) fun _ _ => id
    · rw [(hP.choice_got _ _ _ (h.valid c) hgot).mem_iff]
      split
      · exact List.mem_cons_of_mem _ hx
      · exact hx
    · -- the connection chosen was in the container
      intro key' x hcarried
      cases hcarried
      exact h.containers c key hc y (hP.choice_mem _ _ _ (h.valid c) hgot)
  · exact h
  · exact h.leave (.choose key wait c) rfl rfl rfl fun _ _ => Or.inl

theorem directed_inspect (hP : Lawful P valid) (ho : Owned s owner)
    (h : Directed P valid remote s owner) {key : κ} {wait : Wait} {c x : ℕ}
    (hcall : .inspect key wait c x ∈ s.calls) :
    Directed P valid remote (s.doInspect P key wait c x) owner := by
  unfold doInspect
  split
  · refine h.work ho hcall rfl (hP.valid_remove _ _ (h.valid c)) (fun y hy => Or.inl ?_) rfl rfl
      (fun _ hother => mem_goOn hother (empty_handed rfl)) fun _ _ => id
    have hmem := (hP.remove _ _).mem_iff.mp hy
    split at hmem
    · exact hmem
    · exact List.mem_of_mem_erase hmem
  · refine h.leave (.inspect key wait c x) rfl rfl rfl fun key' y hmem => ?_
    rcases List.mem_cons.mp hmem with heq | hold
    · cases heq
      exact Or.inr (h.calls _ hcall key x rfl)
    · exact Or.inl hold

theorem directed_replace (hP : Lawful P valid) (ho : Owned s owner)
    (h : Directed P valid remote s owner) {key : κ} {wait : Wait} {c : ℕ}
    (hcall : .replace key wait c ∈ s.calls) {made : Except Exc ℕ}
    (hopens : Opens remote (.replace key wait c made)) :
    Directed P valid remote (s.doReplace P key wait c made) owner := by
  cases made with
  | error ex => exact h.leave (.replace key wait c) rfl rfl rfl fun _ _ => Or.inl
  | ok y =>
      refine h.work ho hcall rfl (hP.valid_add _ y (h.valid c)) (fun x hx => ?_) rfl rfl
        (fun _ hother => mem_goOn hother (empty_handed rfl)) fun _ _ => id
      rcases List.mem_cons.mp ((hP.add _ _).mem_iff.mp hx) with rfl | hold
      · exact Or.inr hopens
      · exact Or.inl hold

theorem directed_release (h : Directed P valid remote s owner) {key : κ} {x : ℕ}
    (hcall : .release key x ∈ s.calls) : Directed P valid remote (s.doRelease key x) owner := by
  have hx : remote x = key := h.calls _ hcall key x rfl
  unfold doRelease
  split
  · exact h.leave (.release key x) rfl rfl rfl fun _ _ hmem => Or.inl (List.mem_of_mem_erase hmem)
  · split
    · refine h.still rfl (Or.inl rfl) (fun _ hother => mem_goOn hother ?_) fun _ _ => Or.inl
      intro key' y hcarried
      cases hcarried
      exact hx
    · exact h.leave (.release key x) rfl rfl rfl fun _ _ hmem =>
        Or.inl (List.mem_of_mem_erase hmem)

theorem directed_put (hP : Lawful P valid) (ho : Owned s owner)
    (h : Directed P valid remote s owner) {key : κ} {c x : ℕ} (hcall : .put key c x ∈ s.calls) :
    Directed P valid remote (s.doPut P key c x) owner := by
  refine h.work ho hcall rfl (hP.valid_release _ x (h.valid c)) (fun y hy => ?_) rfl rfl
    (fun _ hother => Or.inl (mem_erase_calls hother)) fun _ _ => List.mem_of_mem_erase
  have hmem := (hP.release _ _).mem_iff.mp hy
  split at hmem
  · rcases List.mem_cons.mp hmem with rfl | hold
    · exact Or.inr (h.calls _ hcall key y rfl)
    · exact Or.inl hold
  · exact Or.inl hmem

omit [DecidableEq κ] in
theorem directed_close (hC : Closes P valid) (h : Directed P valid remote s owner) :
    Directed P valid remote (s.doClose P) owner := by
  cases hopen : s.closed with
  | true =>
      rw [doClose_of_closed hopen]
      exact h
  | false =>
      rcases doClose_closed hC hopen with ⟨u, heq, hall⟩
      have hu := h.closed hall
      rw [heq]
      exact ⟨hu.valid, hu.containers, hu.filling, hu.calls, hu.held⟩

theorem directed_step (hP : Lawful P valid) (hC : Closes P valid) {l : Label κ}
    (hg : guard P l s) (hdirects : Directs remote l s) (ho : Owned s owner)
    (h : Directed P valid remote s owner) :
    Directed P valid remote (update P n l s) (madeFor l s owner) := by
  cases l with
  | getStart key wait =>
      refine h.still rfl (Or.inl rfl) (fun call hcall => ?_) fun _ _ => Or.inl
      rcases List.mem_cons.mp hcall with rfl | hold
      · exact Or.inr (empty_handed rfl)
      · exact Or.inl hold
  | lookup key wait => exact directed_lookup hP ho h key wait
  | create k made => exact directed_create hP ho h hg.1 hdirects.1
  | register k => exact directed_register hC h hg.1
  | choose key wait c => exact directed_choose hP ho h hg.1
  | giveUp key wait c => exact h.leave (.choose key wait c) rfl rfl rfl fun _ _ => Or.inl
  | inspect key wait c x => exact directed_inspect hP ho h hg
  | replace key wait c made => exact directed_replace hP ho h hg hdirects.1
  | releaseStart key x =>
      refine h.still rfl (Or.inl rfl) (fun call hcall => ?_) fun _ _ => Or.inl
      rcases List.mem_cons.mp hcall with rfl | hold
      · -- the caller has held it under this key
        right
        intro key' y hcarried
        cases hcarried
        exact h.held key x (hdirects.2 key x rfl)
      · exact Or.inl hold
  | release key x => exact directed_release h hg.1
  | put key c x => exact directed_put hP ho h hg
  | close => exact directed_close hC h
  | die x => exact h.still rfl (Or.inl rfl) (fun _ hcall => Or.inl hcall) fun _ _ => Or.inl

omit [DecidableEq κ] in
theorem owned_new (P : ContainerClass γ) (size : Option ℕ) (dead : ℕ → Bool) :
    Owned (new P size dead : LRUConnectionPool κ γ) fun _ => none where
  entries := fun _ he => absurd he List.not_mem_nil
  calls := fun _ hcall => absurd hcall List.not_mem_nil
  lock := by
    intro k hk
    cases hk
  later := fun _ _ => rfl

omit [DecidableEq κ] in
theorem directed_new (hP : Lawful P valid) (size : Option ℕ) (dead : ℕ → Bool) :
    Directed P valid remote (new P size dead) fun _ => none where
  valid := fun _ => hP.valid_get
  containers := by
    intro c key hc
    cases hc
  filling := by
    intro k hk
    cases hk
  calls := fun _ hcall => absurd hcall List.not_mem_nil
  held := fun _ _ hmem => absurd hmem List.not_mem_nil

/-- The runs in which connections lead where they should. -/
def directing (P : ContainerClass γ) (size : Option ℕ) (n : ℕ) (remote : ℕ → κ) :
    Lts.Spec (LRUConnectionPool κ γ) (Label κ) :=
  (system P size n).restrict (Directs remote)

theorem directed_reachable (hinj : Function.Injective (PyHash.hash : κ → ℤ))
    (hP : Lawful P valid) (hC : Closes P valid) {size : Option ℕ}
    (hr : (directing P size n remote).Reachable s) :
    ∃ owner, Directed P valid remote s owner := by
  rcases hr.withHistory madeFor (fun _ => none) with ⟨owner, hhistory⟩
  have hboth : Owned s owner ∧ Directed P valid remote s owner := by
    refine Lts.Spec.invariant ((directing P size n remote).withHistory madeFor fun _ => none)
      (fun p => Owned p.1 p.2 ∧ Directed P valid remote p.1 p.2) ?_ ?_ (s, owner) hhistory
    · rintro ⟨u, v⟩ ⟨⟨dead, hu⟩, hv⟩
      cases hu
      cases hv
      exact ⟨owned_new P size dead, directed_new hP size dead⟩
    · rintro l p hg ⟨ho, h⟩
      exact ⟨owned_step hinj n hg.1 ho, directed_step hP hC hg.1 hg.2 ho h⟩
  exact ⟨owner, hboth.2⟩

end LRUConnectionPool

namespace Invocations

open LRUConnectionPool

variable {κ γ : Type} [PyHash κ] [DecidableEq κ]

/-- Calls of proxies, whose factories connect to the remotes that they have been chosen. -/
def connecting (P : ContainerClass γ) (size : Option ℕ) (n : ℕ) (remote : ℕ → κ) :
    Lts.Spec (Invocations κ γ) (Label κ) :=
  (system P size n).restrict fun l _ => ∀ m i, l = .pool m i → Opens remote m

variable {P : ContainerClass γ} {valid : γ → Prop} {remote : ℕ → κ} {size : Option ℕ} {n : ℕ}

/-- The pool is given back what it has given, under the same key. -/
theorem connecting_projection :
    Lts.Spec.Projection (connecting P size n remote) (directing P size n remote)
      fun s => s.pool where
  init := fun _ hs => hs.1
  step := by
    rintro l s hr ⟨hg, hopens⟩
    cases l with
    | call key | refuse i | conclude i => exact Or.inl rfl
    | enter i key =>
        refine Or.inr ⟨.getStart key defaultWait, ⟨trivial, trivial, ?_⟩, rfl⟩
        rintro key' x ⟨⟩
    | leave i key x raised =>
        refine Or.inr ⟨.releaseStart key x, ⟨trivial, trivial, ?_⟩, rfl⟩
        rintro key' y ⟨⟩
        -- the call is in the block, and so the connection is held
        have hheld := (balanced_reachable P size n s hr.of_restrict).held key x
        have huses : 0 < s.pcs.countP (uses key x) :=
          countP_of_getElem? (f := uses key x) hg (by simp [uses])
        exact List.count_pos_iff.mp (by omega)
    | pool m i =>
        refine Or.inr ⟨m, ⟨hg.2.1, hopens m i rfl, ?_⟩, rfl⟩
        rintro key x rfl
        cases hg.1

/-- A call in the block has a connection to the remote of its key. -/
theorem remote_of_inside (hinj : Function.Injective (PyHash.hash : κ → ℤ)) (hP : Lawful P valid)
    (hC : Closes P valid) {s : Invocations κ γ} (hr : (connecting P size n remote).Reachable s)
    {i : ℕ} {key : κ} {x : ℕ} (hi : s.pcs[i]? = some (.inside key x)) : remote x = key := by
  rcases directed_reachable hinj hP hC (connecting_projection.reachable hr) with ⟨_, h⟩
  refine h.held key x (List.count_pos_iff.mp ?_)
  have hheld := (balanced_reachable P size n s hr.of_restrict).held key x
  have huses : 0 < s.pcs.countP (uses key x) :=
    countP_of_getElem? (f := uses key x) hi (by simp [uses])
  omega

end Invocations

end SummerRpc
