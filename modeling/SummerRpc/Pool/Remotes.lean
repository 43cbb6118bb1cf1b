import SummerRpc.Helper.LRUCacheMap
import SummerRpc.Pool.Model

/-! # Remotes

The pool finds the connections to a remote under its key in an `LRUCache`.

* `madeFor`: the key each container was stored under, as a history of the run;
* `Owned`: what the cache and the calls hold for a key was made for that key;
* `remotes_apart`: so it is when different keys have different hashes;
* `keys_apart_iff`: the cache, and with it the pool, keeps the keys apart if and only if
  it is so.
-/

namespace SummerRpc

namespace LRUConnectionPool

variable {κ γ : Type} [PyHash κ]

/-- The container a call works on, and the key it was called with. -/
def Call.container : Call κ → Option (κ × ℕ)
  | .get _ _ | .release _ _ => none
  | .choose key _ c | .inspect key _ c _ | .replace key _ c | .put key c _ => some (key, c)

/-- A container is stored under the key it has been made for. -/
def madeFor (l : Label κ) (_ : LRUConnectionPool κ γ) (owner : ℕ → Option κ) : ℕ → Option κ :=
  match l with
  | .register k => Function.update owner k.container (some k.key)
  | _ => owner

variable [DecidableEq κ]

/-- A pool, with the keys its containers were made for. -/
def owning (P : ContainerClass γ) (connectionPoolSize : Option ℕ) (connectionsPerKey : ℕ) :
    Lts.Spec (LRUConnectionPool κ γ × (ℕ → Option κ)) (Label κ) :=
  (system P connectionPoolSize connectionsPerKey).withHistory madeFor fun _ => none

/-- No call gets a container of another key. -/
def RemotesApart (κ : Type) [PyHash κ] [DecidableEq κ] : Prop :=
  ∀ (γ : Type) (P : ContainerClass γ) connectionPoolSize connectionsPerKey,
    ∀ (s : LRUConnectionPool κ γ) owner,
      (owning P connectionPoolSize connectionsPerKey).Reachable (s, owner) →
      ∀ call ∈ s.calls, ∀ key c, call.container = some (key, c) → owner c = some key

/-! ## Who owns a container -/

/-- The entries and the calls hold containers of their own keys, and those still to be
stored have no key yet. -/
structure Owned (s : LRUConnectionPool κ γ) (owner : ℕ → Option κ) : Prop where
  entries : ∀ e ∈ s.pool.entries, owner e.value = some e.key
  calls : ∀ call ∈ s.calls, ∀ key c, call.container = some (key, c) → owner c = some key
  lock : ∀ k, s.lock = some k → owner k.container = none ∧ k.container < s.containerCount
  later : ∀ c, s.containerCount ≤ c → owner c = none

variable {P : ContainerClass γ} {s t : LRUConnectionPool κ γ} {owner : ℕ → Option κ}

omit [DecidableEq κ] in
/-- A step that at most adds calls on containers of their keys. -/
theorem Owned.congr (h : Owned s owner)
    (hpool : ∀ e ∈ t.pool.entries, e ∈ s.pool.entries)
    (hcalls : ∀ call ∈ t.calls, call ∈ s.calls ∨
      ∀ key c, call.container = some (key, c) → owner c = some key)
    (hlock : t.lock = s.lock ∨ t.lock = none) (hcount : t.containerCount = s.containerCount) :
    Owned t owner := by
  refine ⟨fun e he => h.entries e (hpool e he), ?_, ?_, ?_⟩
  · intro call hcall
    rcases hcalls call hcall with hold | hnew
    · exact h.calls call hold
    · exact hnew
  · intro k hk
    rcases hlock with heq | hnone
    · rw [heq] at hk
      rw [hcount]
      exact h.lock k hk
    · rw [hnone] at hk
      cases hk
  · intro c hc
    rw [hcount] at hc
    exact h.later c hc

/-- A call ends. -/
theorem mem_erase_calls {call other : Call κ} (h : other ∈ s.calls.erase call) : other ∈ s.calls :=
  List.erase_subset h

/-- A call goes on on the same container. -/
theorem Owned.goOn (h : Owned s owner) {call next : Call κ} (hcall : call ∈ s.calls)
    (hcalls : t.calls = next :: s.calls.erase call) (hnext : next.container = call.container)
    (hpool : t.pool = s.pool) (hlock : t.lock = s.lock)
    (hcount : t.containerCount = s.containerCount) : Owned t owner := by
  refine h.congr (by rw [hpool]; exact fun _ he => he) ?_ (Or.inl hlock) hcount
  intro other hother
  rw [hcalls] at hother
  rcases List.mem_cons.mp hother with rfl | hold
  · right
    rw [hnext]
    exact h.calls call hcall
  · exact Or.inl (mem_erase_calls hold)

/-- A call ends, and nothing else changes here. -/
theorem Owned.leave (h : Owned s owner) (call : Call κ) (hpool : t.pool = s.pool)
    (hcalls : t.calls = s.calls.erase call) (hlock : t.lock = s.lock)
    (hcount : t.containerCount = s.containerCount) : Owned t owner := by
  refine h.congr (by rw [hpool]; exact fun _ he => he) ?_ (Or.inl hlock) hcount
  intro other hother
  rw [hcalls] at hother
  exact Or.inl (mem_erase_calls hother)

omit [DecidableEq κ] in
/-- The container found under a key is one of that key. -/
theorem Owned.getItem (hinj : Function.Injective (PyHash.hash : κ → ℤ)) (h : Owned s owner)
    {key : κ} {c : ℕ} {pool : LRUCache κ ℕ} (hget : s.pool.getItem key = some (c, pool)) :
    owner c = some key := by
  obtain ⟨e, he, hhash, rfl, _⟩ := LRUCache.getItem_some hget
  have hkey : e.key = key := hinj hhash
  rw [← hkey]
  exact h.entries e he

/-- A container is found under a key, and a call works on it. -/
theorem Owned.found (hinj : Function.Injective (PyHash.hash : κ → ℤ)) (h : Owned s owner)
    {key : κ} {c : ℕ} {pool : LRUCache κ ℕ} (hget : s.pool.getItem key = some (c, pool))
    {call next : Call κ} (hcalls : t.calls = next :: s.calls.erase call)
    (hnext : next.container = some (key, c)) (hpool : t.pool = pool) (hlock : t.lock = s.lock)
    (hcount : t.containerCount = s.containerCount) : Owned t owner := by
  refine h.congr ?_ ?_ (Or.inl hlock) hcount
  · intro e he
    rw [hpool] at he
    exact (LRUCache.mem_getItem hget).mp he
  · intro other hother
    rw [hcalls] at hother
    rcases List.mem_cons.mp hother with rfl | hold
    · right
      intro key' c' heq
      rw [hnext] at heq
      cases heq
      exact h.getItem hinj hget
    · exact Or.inl (mem_erase_calls hold)

theorem owned_lookup (hinj : Function.Injective (PyHash.hash : κ → ℤ)) (h : Owned s owner)
    (connectionsPerKey : ℕ) (key : κ) (wait : Wait) :
    Owned (s.doLookup P connectionsPerKey key wait) owner := by
  unfold doLookup
  split
  · exact h.leave (.get key wait) rfl rfl rfl rfl
  · split
    · rename_i c pool hget
      exact h.found hinj hget rfl rfl rfl rfl rfl
    · -- a container without a key yet
      refine ⟨h.entries, fun other hother => h.calls other (mem_erase_calls hother), ?_, ?_⟩
      · intro k hk
        cases hk
        exact ⟨h.later _ (Nat.le_refl _), Nat.lt_succ_self _⟩
      · intro c hc
        exact h.later c (Nat.le_of_succ_le hc)

omit [DecidableEq κ] in
theorem owned_create (h : Owned s owner) {k : Creating κ} (hlock : s.lock = some k)
    (made : Except Exc ℕ) : Owned (s.doCreate P k made) owner := by
  unfold doCreate
  split
  · exact h.congr (fun _ he => he) (fun _ hcall => Or.inl hcall) (Or.inr rfl) rfl
  · refine ⟨h.entries, h.calls, ?_, h.later⟩
    intro k' hk'
    cases hk'
    exact h.lock k hlock

omit [DecidableEq κ] in
/-- Closing the container of a kicked out entry. -/
theorem closeKickedOut_frame (P : ContainerClass γ) (s : LRUConnectionPool κ γ) :
    (s.closeKickedOut P).pool = s.pool ∧ (s.closeKickedOut P).calls = s.calls ∧
      (s.closeKickedOut P).lock = s.lock ∧
      (s.closeKickedOut P).containerCount = s.containerCount := by
  unfold closeKickedOut
  split
  · exact ⟨rfl, rfl, rfl, rfl⟩
  · exact ⟨rfl, rfl, rfl, rfl⟩

omit [DecidableEq κ] in
theorem owned_register (h : Owned s owner) {k : Creating κ} (hlock : s.lock = some k) :
    Owned (s.doRegister P k) (Function.update owner k.container (some k.key)) := by
  rcases h.lock k hlock with ⟨hnone, hlt⟩
  -- what has a key already keeps it
  have hkeep : ∀ c key, owner c = some key →
      Function.update owner k.container (some k.key) c = some key := by
    intro c key hc
    have hne : c ≠ k.container := by
      rintro rfl
      rw [hnone] at hc
      cases hc
    rw [Function.update_of_ne hne]
    exact hc
  have hframe := closeKickedOut_frame P s
  constructor
  · intro e he
    rcases LRUCache.mem_setItem he with rfl | hold
    · exact Function.update_self _ _ _
    · exact hkeep _ _ (h.entries e hold)
  · intro call hcall key c heq
    rcases List.mem_cons.mp hcall with rfl | hold
    · cases heq
      exact Function.update_self _ _ _
    · exact hkeep _ _ (h.calls call hold key c heq)
  · intro k' hk'
    cases hk'
  · intro c hc
    have hle : s.containerCount ≤ c := hframe.2.2.2 ▸ hc
    rw [Function.update_of_ne (by omega)]
    exact h.later c hle

theorem owned_choose (h : Owned s owner) {key : κ} {wait : Wait} {c : ℕ}
    (hcall : .choose key wait c ∈ s.calls) : Owned (s.doChoose P key wait c) owner := by
  unfold doChoose
  split
  · exact h.goOn hcall rfl rfl rfl rfl rfl
  · exact h
  · exact h.leave (.choose key wait c) rfl rfl rfl rfl

theorem owned_inspect (h : Owned s owner) {key : κ} {wait : Wait} {c connection : ℕ}
    (hcall : .inspect key wait c connection ∈ s.calls) :
    Owned (s.doInspect P key wait c connection) owner := by
  unfold doInspect
  split
  · exact h.goOn hcall rfl rfl rfl rfl rfl
  · exact h.leave (.inspect key wait c connection) rfl rfl rfl rfl

theorem owned_replace (h : Owned s owner) {key : κ} {wait : Wait} {c : ℕ}
    (hcall : .replace key wait c ∈ s.calls) (made : Except Exc ℕ) :
    Owned (s.doReplace P key wait c made) owner := by
  unfold doReplace
  split
  · exact h.leave (.replace key wait c) rfl rfl rfl rfl
  · exact h.goOn hcall rfl rfl rfl rfl rfl

theorem owned_release (hinj : Function.Injective (PyHash.hash : κ → ℤ)) (h : Owned s owner)
    (key : κ) (connection : ℕ) : Owned (s.doRelease key connection) owner := by
  unfold doRelease
  split
  · exact h.leave (.release key connection) rfl rfl rfl rfl
  · split
    · rename_i c pool hget
      exact h.found hinj hget rfl rfl rfl rfl rfl
    · exact h.leave (.release key connection) rfl rfl rfl rfl

omit [DecidableEq κ] in
theorem closeContainers_frame (P : ContainerClass γ) (items : List (κ × ℕ))
    (s : LRUConnectionPool κ γ) :
    let t := items.foldl (fun s item => s.closeContainer P item.2) s
    t.pool = s.pool ∧ t.calls = s.calls ∧ t.lock = s.lock ∧
      t.containerCount = s.containerCount := by
  induction items generalizing s with
  | nil => exact ⟨rfl, rfl, rfl, rfl⟩
  | cons item items ih => exact ih (s.closeContainer P item.2)

omit [DecidableEq κ] in
theorem owned_close (h : Owned s owner) : Owned (s.doClose P) owner := by
  unfold doClose
  split
  · exact h
  · obtain ⟨hpool, hcalls, hlock, hcount⟩ := closeContainers_frame P s.pool.iteritems s
    refine h.congr ?_ ?_ (Or.inl hlock) hcount
    · intro e he
      exact hpool ▸ he
    · intro call hcall
      exact Or.inl (hcalls ▸ hcall)

omit [DecidableEq κ] in
/-- A call that starts works on no container yet. -/
theorem owned_start (h : Owned s owner) (call : Call κ) (hcall : call.container = none)
    (hpool : t.pool = s.pool) (hcalls : t.calls = call :: s.calls) (hlock : t.lock = s.lock)
    (hcount : t.containerCount = s.containerCount) : Owned t owner := by
  refine h.congr (by rw [hpool]; exact fun _ he => he) ?_ (Or.inl hlock) hcount
  intro other hother
  rw [hcalls] at hother
  rcases List.mem_cons.mp hother with rfl | hold
  · right
    intro key c heq
    rw [hcall] at heq
    cases heq
  · exact Or.inl hold

theorem owned_step (hinj : Function.Injective (PyHash.hash : κ → ℤ)) (connectionsPerKey : ℕ)
    {l : Label κ} (hg : guard P l s) (h : Owned s owner) :
    Owned (update P connectionsPerKey l s) (madeFor l s owner) := by
  cases l with
  | getStart key wait => exact owned_start h (.get key wait) rfl rfl rfl rfl rfl
  | lookup key wait => exact owned_lookup hinj h connectionsPerKey key wait
  | create k made => exact owned_create h hg.1 made
  | register k => exact owned_register h hg.1
  | choose key wait c => exact owned_choose h hg.1
  | giveUp key wait c => exact h.leave (.choose key wait c) rfl rfl rfl rfl
  | inspect key wait c connection => exact owned_inspect h hg
  | replace key wait c made => exact owned_replace h hg made
  | releaseStart key connection =>
      exact owned_start h (.release key connection) rfl rfl rfl rfl rfl
  | release key connection => exact owned_release hinj h key connection
  | put key c connection => exact h.leave (.put key c connection) rfl rfl rfl rfl
  | close => exact owned_close h
  | die connection => exact ⟨h.entries, h.calls, h.lock, h.later⟩

/-- With hashes of their own the keys keep their containers. -/
theorem remotes_apart (hinj : Function.Injective (PyHash.hash : κ → ℤ)) : RemotesApart κ := by
  intro γ P connectionPoolSize connectionsPerKey s owner hr
  have howned : Owned s owner := by
    refine Lts.Spec.invariant (owning P connectionPoolSize connectionsPerKey)
      (fun p => Owned p.1 p.2) ?_ ?_ (s, owner) hr
    · rintro ⟨s, owner⟩ ⟨⟨dead, hs⟩, howner⟩
      simp only at hs howner
      subst hs howner
      constructor
      · intro e he
        cases he
      · intro call hcall
        cases hcall
      · intro k hk
        cases hk
      · intro c _
        rfl
    · intro l p hg h
      exact owned_step hinj connectionsPerKey hg h
  exact howned.calls

/-! ## The result -/

/-- `LRUCache` keeps the keys apart, and the pool the remotes, if and only if no two keys
have one hash. -/
theorem keys_apart_iff (κ υ : Type) [PyHash κ] [DecidableEq κ] [Inhabited υ] :
    ((∀ maxSize, ∀ ops : List (LRUCache.Op κ υ),
        (LRUCache.run maxSize ops).1.MapLaw (LRUCache.run maxSize ops).2) ∧ RemotesApart κ) ↔
      Function.Injective (PyHash.hash : κ → ℤ) := by
  constructor
  · rintro ⟨hlaw, _⟩ k' k hhash
    by_contra hne
    exact LRUCache.not_mapLaw hne hhash none default (hlaw none _)
  · intro hinj
    exact ⟨LRUCache.mapLaw_run hinj, remotes_apart hinj⟩

/-- The hash of an `int` is the number, but for `-1`, which stands for an error in C. -/
instance : PyHash ℤ := ⟨fun n => if n = -1 then -2 else n⟩

/-- With `-1` stored, `-2` is in the cache as well. -/
theorem keys_collide :
    ¬ ((∀ maxSize, ∀ ops : List (LRUCache.Op ℤ ℕ),
        (LRUCache.run maxSize ops).1.MapLaw (LRUCache.run maxSize ops).2) ∧ RemotesApart ℤ) := by
  rintro ⟨hlaw, _⟩
  have hne : (-2 : ℤ) ≠ -1 := by decide
  have hhash : PyHash.hash (-2 : ℤ) = PyHash.hash (-1 : ℤ) := by decide
  exact LRUCache.not_mapLaw hne hhash none 0 (hlaw none _)

end LRUConnectionPool

end SummerRpc
