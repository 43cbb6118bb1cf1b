import SummerRpc.Pool.Bounds

/-! # Threads that share a container

A shared pool hands out a connection and leaves it in its container, so two threads can
find the same connection closed, and a third can look into the container while a
closed connection is out and its replacement is not there yet.

* `results_step`: what `get_connection` raises, unless a container is found empty;
* `replacedOnce`: the condition under which neither happens;
* `shared_bounded`: no container is found empty then, and none grows too large;
* `chosen_too_late`, `shared_races`: what happens otherwise.
-/

namespace SummerRpc

namespace LRUConnectionPool

variable {κ γ : Type} [PyHash κ] [DecidableEq κ]

/-! ## What `get_connection` raises -/

/-- The calls so far have returned, or have raised one of the exceptions of the pool. -/
def RaisesPoolErrors (s : LRUConnectionPool κ γ) : Prop :=
  ∀ r ∈ s.results, ∀ ex, r.2 = .error ex → ex.cls.isA .connectionPoolError = true

omit [DecidableEq κ] in
theorem RaisesPoolErrors.snoc {s t : LRUConnectionPool κ γ} {key : κ} {r : Except Exc ℕ}
    (h : RaisesPoolErrors s) (hresults : t.results = s.results ++ [(key, r)])
    (hr : ∀ ex, r = .error ex → ex.cls.isA .connectionPoolError = true) : RaisesPoolErrors t := by
  intro q hq ex heq
  rw [hresults, List.mem_append, List.mem_singleton] at hq
  rcases hq with hold | rfl
  · exact h q hold ex heq
  · exact hr ex heq

/-- Only choosing from an empty container raises anything else. -/
theorem results_step {P : ContainerClass γ} {valid : γ → Prop} (hC : Closes P valid) {n : ℕ}
    {l : Label κ} {s : LRUConnectionPool κ γ}
    (hchosen : ∀ key wait c ex, l = .choose key wait c →
      P.choiceConnectionFromContainer (s.containers c) ≠ .raised ex)
    (h : RaisesPoolErrors s) : RaisesPoolErrors (update P n l s) := by
  have herror : ∀ ex : Exc, ex.cls.isA .connectionPoolError = true →
      ∀ ex', (Except.error ex : Except Exc ℕ) = .error ex' →
        ex'.cls.isA .connectionPoolError = true := by
    rintro ex hex ex' ⟨⟩
    exact hex
  cases l with
  | getStart key wait => exact h
  | lookup key wait =>
      show RaisesPoolErrors (s.doLookup P n key wait)
      unfold doLookup
      split
      · exact h.snoc rfl (herror _ rfl)
      · split <;> exact h
  | create k made =>
      cases made with
      | error ex => exact h.snoc rfl (herror _ rfl)
      | ok x => exact h
  | register k =>
      show ∀ r ∈ (s.closeKickedOut P).results, _
      unfold closeKickedOut
      split <;> exact h
  | choose key wait c =>
      show RaisesPoolErrors (s.doChoose P key wait c)
      unfold doChoose
      split
      · exact h
      · exact h
      · -- `choice` of an empty list is what the condition rules out
        rename_i ex hraised
        exact absurd hraised (hchosen key wait c ex rfl)
  | giveUp key wait c => exact h.snoc rfl (herror _ rfl)
  | inspect key wait c x =>
      show RaisesPoolErrors (s.doInspect P key wait c x)
      unfold doInspect
      split
      · exact h
      · exact h.snoc rfl nofun
  | replace key wait c made =>
      cases made with
      | error ex => exact h.snoc rfl (herror _ rfl)
      | ok x => exact h
  | releaseStart key x => exact h
  | release key x =>
      show RaisesPoolErrors (s.doRelease key x)
      unfold doRelease
      split
      · exact h
      · split <;> exact h
  | put key c x => exact h
  | close =>
      show RaisesPoolErrors (s.doClose P)
      cases hopen : s.closed with
      | true =>
          rw [doClose_of_closed hopen]
          exact h
      | false =>
          obtain ⟨u, heq, hall⟩ := doClose_closed hC hopen
          rw [heq, hall.frame]
          exact h
  | die x => exact h

/-! ## The condition -/

/-- A connection found closed is still in the container when it is removed, and a
connection is chosen only while fewer than `connections_per_key` connections of the
container are out for replacement. -/
def replacedOnce (n : ℕ) (l : Label κ) (s : LRUConnectionPool κ (Iterator ℕ)) : Bool :=
  match l with
  | .inspect _ _ c x => !s.dead x || x ∈ (s.containers c).it
  | .choose _ _ c => inHands shared c s.calls < n
  | _ => true

/-- The runs of a shared pool that meet the condition: no key is lost, the factory
does not fail when it replaces a connection, and no closed connection is replaced twice. -/
abbrev sharing (size : Option ℕ) (n : ℕ) :
    Lts.Spec (LRUConnectionPool κ (Iterator ℕ)) (Label κ) :=
  (system shared size n).restrict fun l s => keepsKeys l s && replaces l s && replacedOnce n l s

/-- What the threads of a shared pool rely on. -/
structure Sharable (n : ℕ) (s : LRUConnectionPool κ (Iterator ℕ)) : Prop where
  numbered : Numbered s
  slots : Slots shared n (fun it => 0 ≤ it.cursor) s
  room : ∃ loans, Room shared n (fun it => 0 ≤ it.cursor) s loans
  raises : RaisesPoolErrors s

omit [DecidableEq κ] in
/-- A container of which fewer than `n` connections are out for replacement is not empty. -/
theorem Sharable.choice {n : ℕ} {s : LRUConnectionPool κ (Iterator ℕ)} (h : Sharable n s)
    {key : κ} {wait : Wait} {c : ℕ} (hcall : Call.choose key wait c ∈ s.calls)
    (hout : inHands shared c s.calls < n) :
    ∃ x it, shared.choiceConnectionFromContainer (s.containers c) = .got x it := by
  apply shared_lawful.choice_some _ (h.slots.valid c)
  obtain ⟨e, he, _, hvalue⟩ := h.slots.place _ hcall key c rfl
  have henough := h.slots.enough e he
  rw [capacity, hvalue, show shared.weight = 0 from rfl, Nat.zero_mul, Nat.add_zero] at henough
  intro hnil
  rw [hnil, List.length_nil] at henough
  omega

theorem sharable_step {n : ℕ} {l : Label κ} {s : LRUConnectionPool κ (Iterator ℕ)}
    (hg : guard shared l s) (hkeys : keepsKeys l s = true) (hmade : replaces l s = true)
    (honce : replacedOnce n l s = true) (h : Sharable n s) : Sharable n (update shared n l s) := by
  refine ⟨numbered_step shared_closes hg h.numbered,
    slots_step shared_lawful hg hkeys hmade h.slots, ?_, ?_⟩
  · obtain ⟨loans, hroom⟩ := h.room
    refine ⟨lend l s loans, room_step shared_lawful shared_closes hg ?_ nofun h.numbered hroom⟩
    rintro key wait c x rfl _ hdead
    show x ∈ (s.containers c).it
    simpa [replacedOnce, hdead] using honce
  · refine results_step shared_closes ?_ h.raises
    rintro key wait c ex rfl hraised
    obtain ⟨x, it, hgot⟩ := h.choice hg.1 (by simpa [replacedOnce] using honce)
    rw [hraised] at hgot
    cases hgot

theorem sharable_reachable (size : Option ℕ) (n : ℕ) :
    ∀ s : LRUConnectionPool κ (Iterator ℕ), (sharing size n).Reachable s → Sharable n s := by
  apply Lts.Spec.invariant
  · rintro s ⟨dead, rfl⟩
    refine ⟨numbered_new shared size dead, slots_new shared_lawful size dead,
      ⟨[], room_new shared_lawful size dead⟩, ?_⟩
    intro r hr
    cases hr
  · intro l s hg h
    have hcond := hg.2
    simp only [Bool.and_eq_true] at hcond
    exact sharable_step hg.1 hcond.1.1 hcond.1.2 hcond.2 h

/-! ## The bounds -/

/-- What `_choice_connection_from_container` raises for an empty container. -/
def invalidConnectionsPerKey : Exc :=
  { cls := .runtimeError, msg := "invalid connections_per_key" }

/-- In every run that meets the condition no call finds a container empty, and no
container holds more than `connections_per_key` connections. -/
theorem shared_bounded (size : Option ℕ) (n : ℕ) (s : LRUConnectionPool κ (Iterator ℕ))
    (hr : (sharing size n).Reachable s) :
    (∀ r ∈ s.results, r.2 ≠ .error invalidConnectionsPerKey) ∧
      ∀ e ∈ s.pool.entries, (s.containers e.value).it.length ≤ n := by
  have h := sharable_reachable size n s hr
  constructor
  · intro r hmem heq
    have hpool := h.raises r hmem _ heq
    simp [invalidConnectionsPerKey, ExcClass.isA, ExcClass.parent] at hpool
  · intro e _
    obtain ⟨loans, hroom⟩ := h.room
    exact hroom.length_le e.value

omit [PyHash κ] [DecidableEq κ] in
/-- In a shared pool a container's account is what it holds and what is out for
replacement. -/
theorem load_shared (c : ℕ) (calls : List (Call κ)) :
    total (Call.load shared c) calls = inHands shared c calls := by
  have hcall : ∀ call : Call κ, call.load shared c = call.inHand shared c := by
    intro call
    cases call with
    | put key d x => exact ite_self 0
    | get | choose | inspect | replace | release => rfl
  rw [total, inHands, List.map_congr_left fun call _ => hcall call]

/-- When all connections of a container are out for replacement, the next call that
chooses from it raises. -/
theorem chosen_too_late {n : ℕ} {s : LRUConnectionPool κ (Iterator ℕ)} (h : Sharable n s)
    (key : κ) (wait : Wait) {c : ℕ} (hout : n ≤ inHands shared c s.calls) :
    (key, .error invalidConnectionsPerKey) ∈ (s.doChoose shared key wait c).results := by
  obtain ⟨loans, hroom⟩ := h.room
  have hempty : (s.containers c).it = [] := by
    have haccount := hroom.room c
    rw [account, load_shared] at haccount
    apply List.eq_nil_of_length_eq_zero
    show (shared.connections (s.containers c)).length = 0
    omega
  rw [doChoose, shared_choice_empty (h.slots.valid c) hempty]
  exact List.mem_append_right _ (List.mem_singleton_self _)

/-! ## The races -/

/-- One key, a factory that always returns an open connection, and no eviction. -/
def oneKey (key : κ) (l : Label κ) (s : LRUConnectionPool κ γ) : Bool :=
  match l with
  | .getStart k _ => k = key
  | .create _ made | .replace _ _ _ made =>
    match made with
    | .ok x => !s.dead x
    | .error _ => false
  | .register _ => s.pool.willBeKickedOut.isNone
  | .releaseStart _ _ | .close => false
  | _ => true

/-- Two threads have the key's only connection, and it becomes closed. -/
def bothChosen (key : ℕ) : List (Label ℕ) :=
  let wait : Wait := ⟨true, none⟩
  [.getStart key wait, .lookup key wait, .create ⟨key, wait, 0, 1⟩ (.ok 10),
    .register ⟨key, wait, 0, 0⟩, .choose key wait 0, .getStart key wait, .lookup key wait,
    .choose key wait 0, .die 10, .inspect key wait 0 10]

/-- One thread has removed the connection, and a third one looks into the container. -/
def foundEmpty (key : ℕ) : List (Label ℕ) :=
  let wait : Wait := ⟨true, none⟩
  bothChosen key ++ [.getStart key wait, .lookup key wait, .choose key wait 0]

/-- Both threads replace the connection. -/
def replacedTwice (key : ℕ) : List (Label ℕ) :=
  let wait : Wait := ⟨true, none⟩
  bothChosen key ++ [.replace key wait 0 (.ok 11), .inspect key wait 0 10,
    .replace key wait 0 (.ok 12)]

/-- One thread finds its connection closed, and is alone with it. -/
def replacedAlone (key : ℕ) : List (Label ℕ) :=
  let wait : Wait := ⟨true, none⟩
  [.getStart key wait, .lookup key wait, .create ⟨key, wait, 0, 1⟩ (.ok 10),
    .register ⟨key, wait, 0, 0⟩, .choose key wait 0, .die 10, .inspect key wait 0 10,
    .replace key wait 0 (.ok 11), .choose key wait 0, .inspect key wait 0 11]

theorem shared_bounded_alone :
    let s := (sharing (some 1) 1).run (replacedAlone 4) (new shared (some 1) fun _ => false)
    s.results = [(4, .ok 11)] ∧ (s.containers 0).it = [11] ∧
      (∀ r ∈ s.results, r.2 ≠ .error invalidConnectionsPerKey) ∧
      ∀ e ∈ s.pool.entries, (s.containers e.value).it.length ≤ 1 :=
  ⟨by decide, by decide, shared_bounded (some 1) 1 _ (reachable_run _ _ _ _ _)⟩

/-- With one connection a key: a thread that looks into the container between the
removal of a closed connection and its replacement raises, and two threads that have
found the same connection closed put two into the container. -/
theorem shared_races :
    (¬ ∀ s : LRUConnectionPool ℕ (Iterator ℕ),
      ((system shared (some 1) 1).restrict fun l s => oneKey 4 l s).Reachable s →
      ∀ r ∈ s.results, r.2 ≠ .error invalidConnectionsPerKey) ∧
    (¬ ∀ s : LRUConnectionPool ℕ (Iterator ℕ),
      ((system shared (some 1) 1).restrict fun l s => oneKey 4 l s).Reachable s →
      ∀ e ∈ s.pool.entries, (s.containers e.value).it.length ≤ 1) := by
  constructor
  · intro h
    have hempty := h _ (reachable_run shared (some 1) 1 _ (foundEmpty 4))
    exact hempty (4, .error invalidConnectionsPerKey) (by decide) rfl
  · intro h
    have htwice := h _ (reachable_run shared (some 1) 1 _ (replacedTwice 4))
    exact absurd (htwice ⟨4, 0⟩ (by decide)) (by decide)

end LRUConnectionPool

end SummerRpc
