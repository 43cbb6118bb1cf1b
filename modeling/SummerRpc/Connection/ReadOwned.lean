import SummerRpc.Connection.Closing

/-! # Who owns the futures of `read`

A future of the read side is made by a client that asks for a response, or by the
read thread for a response nobody asked for yet. It waits in `_pending_reads` or
in `_pooling_reads`, and leaves them when its response or its reader comes, when
another one is stored, or when the connection is closed.

* `commitRead_cases`, `route_cases`: what the two blocks that look an id up can do;
* `ReadOwned`: where each future is and what it was resolved with;
* `readOwned_commitRead`, `readOwned_route`, `readOwned_close`: the three blocks
  that move futures keep that.
-/

namespace SummerRpc

namespace ReadSide

/-- Failing the announced entry changes nothing but the futures. -/
theorem failKickedOut_frame (r : ReadSide) :
    ∃ futures, r.failKickedOut = { r with futures := futures } := by
  unfold failKickedOut
  split
  · exact ⟨_, rfl⟩
  · exact ⟨r.futures, rfl⟩

/-- What `read` does under the condition: it takes the pooled future of the id, or shares the
one that other readers of the id wait for, or stores a new one. -/
theorem commitRead_cases (r : ReadSide) (tid : ℕ) :
    (∃ b ∈ r.poolingReads.entries, b.key = tid ∧ r.commitRead tid =
      { r with
        poolingReads := (r.poolingReads.touch tid).erase tid
        condition := .free
        returns := r.returns ++ [(tid, .ok b.value)] }) ∨
    (∃ b ∈ r.pendingReads.entries, b.key = tid ∧ r.commitRead tid =
      { r with
        pendingReads := r.pendingReads.touch tid
        condition := .free
        returns := r.returns ++ [(tid, .ok b.value)] }) ∨
    (r.pendingReads.contains tid = false ∧ r.commitRead tid = r.failKickedOut.storeRead tid) := by
  unfold commitRead
  cases hpool : r.poolingReads.getItem tid with
  | some item =>
      obtain ⟨b, hb, hkey, hvalue, hpooling⟩ := LRUCache.getItem_some hpool
      refine Or.inl ⟨b, hb, hash_nat_inj.mp hkey, ?_⟩
      rw [hvalue, ← hpooling]
  | none =>
      cases hpend : r.pendingReads.getItem tid with
      | some item =>
          obtain ⟨b, hb, hkey, hvalue, hpending⟩ := LRUCache.getItem_some hpend
          refine Or.inr (Or.inl ⟨b, hb, hash_nat_inj.mp hkey, ?_⟩)
          rw [hvalue, ← hpending]
      | none => exact Or.inr (Or.inr ⟨LRUCache.getItem_none hpend, rfl⟩)

/-- A response goes to the future its readers wait for, or is kept. -/
theorem route_cases (r : ReadSide) (p : Packet) :
    (∃ b ∈ r.pendingReads.entries, b.key = p.1 ∧
      r.route p = r.routeToReader p b.value (r.pendingReads.touch p.1)) ∨
    (r.pendingReads.contains p.1 = false ∧ r.route p = r.routeToPool p) := by
  unfold route
  cases hpend : r.pendingReads.getItem p.1 with
  | some item =>
      obtain ⟨b, hb, hkey, hvalue, hpending⟩ := LRUCache.getItem_some hpend
      refine Or.inl ⟨b, hb, hash_nat_inj.mp hkey, ?_⟩
      rw [hvalue, ← hpending]
  | none => exact Or.inr ⟨LRUCache.getItem_none hpend, rfl⟩

end ReadSide

/-- Who owns the futures of the read side. `closed` says that `_close_read` has
failed the pending reads. -/
structure ReadOwned (r : ReadSide) (closed : Prop) : Prop where
  fresh : r.futures.Fresh
  pending_lt : ∀ b ∈ r.pendingReads.entries, b.value < r.futures.count
  pending_inj : ∀ a ∈ r.pendingReads.entries, ∀ b ∈ r.pendingReads.entries,
    a.value = b.value → a = b
  pending_calls : ∀ b ∈ r.pendingReads.entries, ∀ c ∈ r.futures.calls b.value,
    c = .error readAbort
  pending_open : ¬ closed → ∀ b ∈ r.pendingReads.entries, r.futures.calls b.value = []
  /-- a pending future has been returned to a reader -/
  pending_returned : ∀ b ∈ r.pendingReads.entries, (b.key, .ok b.value) ∈ r.returns
  returned_lt : ∀ tid f, (tid, .ok f) ∈ r.returns → f < r.futures.count
  /-- a returned future not resolved yet is the one stored for its id -/
  returned_open : ∀ tid f, (tid, .ok f) ∈ r.returns → r.futures.calls f = [] →
    ⟨tid, f⟩ ∈ r.pendingReads.entries
  evicted_calls : ∀ b ∈ r.evicted, r.futures.calls b.value = [.error maxPendingReads]
  failed_evicted : ∀ f, .error maxPendingReads ∈ r.futures.calls f → ∃ b ∈ r.evicted, b.value = f
  routed_calls : ∀ p f, (p, f) ∈ r.routed → r.futures.calls f = [.ok p.2]
  given_routed : ∀ f b, .ok b ∈ r.futures.calls f → ∃ p : Packet, (p, f) ∈ r.routed ∧ p.2 = b
  routed_place : ∀ p f, (p, f) ∈ r.routed → (p.1, .ok f) ∈ r.returns ∨
    ⟨p.1, f⟩ ∈ r.poolingReads.entries ∨ ⟨p.1, f⟩ ∈ r.dropped ∨ ⟨p.1, f⟩ ∈ r.cleared ∨
    ⟨p.1, f⟩ ∈ r.overwritten
  pooling_routed : ∀ b ∈ r.poolingReads.entries, ∃ p : Packet, p.1 = b.key ∧ (p, b.value) ∈ r.routed

namespace ReadOwned

variable {r : ReadSide} {closed : Prop}

/-- Steps that move the read thread or the lock, or bring in a packet. -/
theorem move (h : ReadOwned r closed) (condition : ReadLock) (pc : ReadPc)
    (incoming : List UInt8) (received answered : List Packet) :
    ReadOwned { r with condition := condition, pc := pc, incoming := incoming,
                       received := received, answered := answered } closed := { h with }

/-- The read thread ends when it is the one `close()` returns to. -/
theorem exit (h : ReadOwned r closed) (c : Thread) :
    ReadOwned (if c = .readThread then { r with pc := .exited } else r) closed := by
  split
  · exact h.move _ _ _ _ _
  · exact h

theorem notifyAll (h : ReadOwned r closed) : ReadOwned r.notifyAll closed := by
  unfold ReadSide.notifyAll
  split
  · exact { h with }
  · exact h

/-- Nothing is resolved by more closing. -/
theorem mono {closed' : Prop} (h : ReadOwned r closed) (hc : closed → closed') :
    ReadOwned r closed' :=
  { h with pending_open := fun hn => h.pending_open fun hc' => hn (hc hc') }

/-- A pending future is none that got a response. -/
theorem pending_ne_routed (h : ReadOwned r closed) {b : Entry ℕ ℕ} {p : Packet} {f : ℕ}
    (hb : b ∈ r.pendingReads.entries) (hr : (p, f) ∈ r.routed) : f ≠ b.value := by
  rintro rfl
  have hcall : .ok p.2 ∈ r.futures.calls b.value := by
    rw [h.routed_calls p _ hr]
    exact List.mem_singleton.mpr rfl
  cases h.pending_calls b hb _ hcall

/-- A pending future is none that was evicted. -/
theorem pending_ne_evicted (h : ReadOwned r closed) {b e : Entry ℕ ℕ}
    (hb : b ∈ r.pendingReads.entries) (he : e ∈ r.evicted) : e.value ≠ b.value := by
  intro heq
  have hcall : .error maxPendingReads ∈ r.futures.calls b.value := by
    rw [← heq, h.evicted_calls e he]
    exact List.mem_singleton.mpr rfl
  have habort := h.pending_calls b hb _ hcall
  exact absurd habort (by decide)

/-- A future that got a call has been created. -/
theorem lt_of_calls (h : ReadOwned r closed) {f : ℕ} {c : Except Exc Body}
    (hc : c ∈ r.futures.calls f) : f < r.futures.count := by
  by_contra hle
  rw [h.fresh f (Nat.le_of_not_lt hle)] at hc
  cases hc

/-- A future that has just been created has no calls. -/
theorem create (h : ReadOwned r closed) :
    ReadOwned { r with futures := r.futures.create } closed :=
  { h with
    fresh := h.fresh.create
    pending_lt := fun b hb => Nat.lt_succ_of_lt (h.pending_lt b hb)
    returned_lt := fun t f hr => Nat.lt_succ_of_lt (h.returned_lt t f hr) }

/-! ## `read` -/

/-- A call of `read` that raises returns no future. -/
theorem raised (h : ReadOwned r closed) (tid : ℕ) (ex : Exc) :
    ReadOwned { r with returns := r.returns ++ [(tid, .error ex)] } closed :=
  { h with
    pending_returned := fun b hb => List.mem_append_left _ (h.pending_returned b hb)
    returned_lt := by
      intro t f hr
      exact h.returned_lt t f (by simpa using hr)
    returned_open := by
      intro t f hr
      exact h.returned_open t f (by simpa using hr)
    routed_place := fun p f hr => (h.routed_place p f hr).imp_left (List.mem_append_left _) }

/-- `read` returns a future that is resolved or stored for the id. -/
theorem returnOk (h : ReadOwned r closed) {tid f : ℕ} (hlt : f < r.futures.count)
    (hopen : r.futures.calls f = [] → ⟨tid, f⟩ ∈ r.pendingReads.entries) :
    ReadOwned { r with returns := r.returns ++ [(tid, .ok f)] } closed := by
  have hret : ∀ t g, (t, Except.ok g) ∈ r.returns ++ [(tid, .ok f)] →
      (t, .ok g) ∈ r.returns ∨ (t = tid ∧ g = f) := by
    intro t g hmem
    simpa using hmem
  exact
    { h with
      pending_returned := fun b hb => List.mem_append_left _ (h.pending_returned b hb)
      returned_lt := by
        intro t g hr
        rcases hret t g hr with hold | ⟨rfl, rfl⟩
        · exact h.returned_lt t g hold
        · exact hlt
      returned_open := by
        intro t g hr hg
        rcases hret t g hr with hold | ⟨rfl, rfl⟩
        · exact h.returned_open t g hold hg
        · exact hopen hg
      routed_place := fun p g hr => (h.routed_place p g hr).imp_left (List.mem_append_left _) }

/-- The order of the pending reads does not matter. -/
theorem touchPending (h : ReadOwned r closed) (tid : ℕ) :
    ReadOwned { r with pendingReads := r.pendingReads.touch tid } closed :=
  { h with
    pending_lt := fun b hb => h.pending_lt b (LRUCache.mem_touch.mp hb)
    pending_inj := fun a ha b hb =>
      h.pending_inj a (LRUCache.mem_touch.mp ha) b (LRUCache.mem_touch.mp hb)
    pending_calls := fun b hb => h.pending_calls b (LRUCache.mem_touch.mp hb)
    pending_open := fun hn b hb => h.pending_open hn b (LRUCache.mem_touch.mp hb)
    pending_returned := fun b hb => h.pending_returned b (LRUCache.mem_touch.mp hb)
    returned_open := fun t f hr hf => LRUCache.mem_touch.mpr (h.returned_open t f hr hf) }

/-- A reader that comes for a response in `_pooling_reads` takes it from there. -/
theorem takePooled (h : ReadOwned r closed) {b : Entry ℕ ℕ} (hb : b ∈ r.poolingReads.entries) :
    ReadOwned { r with
      poolingReads := (r.poolingReads.touch b.key).erase b.key
      returns := r.returns ++ [(b.key, .ok b.value)] } closed := by
  rcases h.pooling_routed b hb with ⟨q, hq, hroute⟩
  have hcalls := h.routed_calls q _ hroute
  have hlt : b.value < r.futures.count :=
    h.lt_of_calls (by rw [hcalls]; exact List.mem_singleton.mpr rfl)
  have hstored : r.futures.calls b.value = [] → ⟨b.key, b.value⟩ ∈ r.pendingReads.entries := by
    intro hnil
    rw [hcalls] at hnil
    cases hnil
  have hret := h.returnOk hlt hstored
  have hmem : ∀ e : Entry ℕ ℕ, e ∈ ((r.poolingReads.touch b.key).erase b.key).entries ↔
      e ∈ r.poolingReads.entries ∧ e.key ≠ b.key := by
    intro e
    rw [LRUCache.mem_erase, LRUCache.mem_touch, Ne, Entry.hash, hash_nat_inj]
  exact
    { hret with
      routed_place := by
        intro p f hr
        rcases hret.routed_place p f hr with hdone | hpool | hrest
        · exact Or.inl hdone
        · by_cases hkey : p.1 = b.key
          · -- the entry the reader takes
            have heq : (⟨p.1, f⟩ : Entry ℕ ℕ) = b :=
              LRUCache.eq_of_hash hpool hb (hash_nat_inj.mpr hkey)
            rw [← heq]
            exact Or.inl (List.mem_append_right _ (List.mem_singleton.mpr rfl))
          · exact Or.inr (Or.inl ((hmem _).mpr ⟨hpool, hkey⟩))
        · exact Or.inr (Or.inr hrest)
      pooling_routed := fun e he => h.pooling_routed e ((hmem e).mp he).1 }

/-- What failing the announced entry does, told by the entries the insertion then
loses: exactly their futures are failed. -/
theorem failKickedOut_spec (h : ReadOwned r closed) (hopen : ¬ closed) {tid f : ℕ}
    (hk : r.pendingReads.contains tid = false) :
    ∃ futures, r.failKickedOut = { r with futures := futures } ∧
      futures.count = r.futures.count ∧ futures.Fresh ∧
      (∀ e ∈ r.pendingReads.lost (r.pendingReads.setItem tid f),
        e ∈ r.pendingReads.entries ∧ futures.calls e.value = [.error maxPendingReads]) ∧
      (∀ g, (∀ e ∈ r.pendingReads.lost (r.pendingReads.setItem tid f), e.value ≠ g) →
        futures.calls g = r.futures.calls g) := by
  unfold ReadSide.failKickedOut
  cases hout : r.pendingReads.willBeKickedOut with
  | none =>
      refine ⟨r.futures, rfl, rfl, h.fresh, ?_, fun _ _ => rfl⟩
      intro e he
      rw [LRUCache.lost_setItem_of_room hk hout] at he
      cases he
  | some last =>
      have hlast : last ∈ r.pendingReads.entries :=
        List.mem_of_getLast? (LRUCache.willBeKickedOut_some hout).2
      refine ⟨r.futures.resolve last.value (.error maxPendingReads), rfl, rfl,
        h.fresh.resolve (h.pending_lt last hlast) _, ?_, ?_⟩
      · intro e he
        rw [LRUCache.mem_lost_setItem_of_full hk hout] at he
        subst he
        refine ⟨hlast, ?_⟩
        rw [Futures.calls_resolve_self, h.pending_open hopen e hlast]
        rfl
      · intro g hg
        have hne := hg last ((LRUCache.mem_lost_setItem_of_full hk hout).mpr rfl)
        exact Futures.calls_resolve_of_ne _ _ hne.symm

/-- The entries that `_pending_reads` loses are those whose futures have been failed. -/
theorem evict (h : ReadOwned r closed) (hopen : ¬ closed) {futures : Futures Body}
    {pending : LRUCache ℕ ℕ} {lost : List (Entry ℕ ℕ)}
    (hcount : futures.count = r.futures.count) (hfresh : futures.Fresh)
    (hlost : ∀ e ∈ lost,
      e ∈ r.pendingReads.entries ∧ futures.calls e.value = [.error maxPendingReads])
    (hother : ∀ g, (∀ e ∈ lost, e.value ≠ g) → futures.calls g = r.futures.calls g)
    (hpending : ∀ e, e ∈ pending.entries ↔ e ∈ r.pendingReads.entries ∧ e ∉ lost) :
    ReadOwned { r with
      pendingReads := pending
      futures := futures
      evicted := r.evicted ++ lost } closed := by
  have hkept : ∀ e ∈ r.pendingReads.entries, e ∉ lost →
      futures.calls e.value = r.futures.calls e.value := by
    intro e he hnot
    apply hother
    intro d hd heq
    have hde := h.pending_inj d (hlost d hd).1 e he heq
    exact hnot (hde ▸ hd)
  -- a future that got a call other than this failure is none of the lost ones
  have hsame : ∀ g, r.futures.calls g ≠ [] → futures.calls g = r.futures.calls g := by
    intro g hg
    apply hother
    rintro e he rfl
    exact hg (h.pending_open hopen e (hlost e he).1)
  constructor
  · exact hfresh
  · intro b hb
    show b.value < futures.count
    rw [hcount]
    exact h.pending_lt b ((hpending b).mp hb).1
  · intro a ha b hb
    exact h.pending_inj a ((hpending a).mp ha).1 b ((hpending b).mp hb).1
  · intro b hb c hc
    rcases (hpending b).mp hb with ⟨hold, hnot⟩
    have hc' : c ∈ futures.calls b.value := hc
    rw [hkept b hold hnot] at hc'
    exact h.pending_calls b hold c hc'
  · intro _ b hb
    rcases (hpending b).mp hb with ⟨hold, hnot⟩
    show futures.calls b.value = []
    rw [hkept b hold hnot]
    exact h.pending_open hopen b hold
  · intro b hb
    exact h.pending_returned b ((hpending b).mp hb).1
  · intro t g hr
    show g < futures.count
    rw [hcount]
    exact h.returned_lt t g hr
  · intro t g hr hg
    have hg' : futures.calls g = [] := hg
    have hopen' : r.futures.calls g = [] := by
      by_contra hne
      exact hne (hsame g hne ▸ hg')
    refine (hpending _).mpr ⟨h.returned_open t g hr hopen', ?_⟩
    intro hl
    have hcall := (hlost _ hl).2
    rw [show futures.calls (⟨t, g⟩ : Entry ℕ ℕ).value = [] from hg'] at hcall
    cases hcall
  · intro b hb
    rcases List.mem_append.mp hb with hold | hl
    · have hcalls := h.evicted_calls b hold
      show futures.calls b.value = _
      rw [hsame b.value (by rw [hcalls]; simp), hcalls]
    · exact (hlost b hl).2
  · intro g hg
    have hg' : .error maxPendingReads ∈ futures.calls g := hg
    by_cases hl : ∃ e ∈ lost, e.value = g
    · rcases hl with ⟨e, he, hval⟩
      exact ⟨e, List.mem_append_right _ he, hval⟩
    · rw [hother g fun e he hval => hl ⟨e, he, hval⟩] at hg'
      rcases h.failed_evicted g hg' with ⟨e, he, hval⟩
      exact ⟨e, List.mem_append_left _ he, hval⟩
  · intro p g hg
    have hcalls := h.routed_calls p g hg
    show futures.calls g = _
    rw [hsame g (by rw [hcalls]; simp), hcalls]
  · intro g b hg
    have hg' : .ok b ∈ futures.calls g := hg
    have hsame' : futures.calls g = r.futures.calls g := by
      apply hother
      rintro e he rfl
      rw [(hlost e he).2, List.mem_singleton] at hg'
      cases hg'
    rw [hsame'] at hg'
    exact h.given_routed g b hg'
  · exact h.routed_place
  · exact h.pooling_routed

/-- A new future is stored for a reader and returned to it. -/
theorem storeNew (h : ReadOwned r closed) {tid f : ℕ} (hf : f = r.futures.count)
    {pending : LRUCache ℕ ℕ}
    (hpending : ∀ e, e ∈ pending.entries ↔ e = ⟨tid, f⟩ ∨ e ∈ r.pendingReads.entries) :
    ReadOwned { r with
      pendingReads := pending
      futures := r.futures.create
      returns := r.returns ++ [(tid, .ok f)] } closed := by
  subst hf
  have hnew : r.futures.calls r.futures.count = [] := h.fresh _ (Nat.le_refl _)
  have hret : ∀ t g, (t, Except.ok g) ∈ r.returns ++ [(tid, .ok r.futures.count)] →
      (t, .ok g) ∈ r.returns ∨ (t = tid ∧ g = r.futures.count) := by
    intro t g hmem
    simpa using hmem
  exact
    { h with
      fresh := h.fresh.create
      pending_lt := by
        intro b hb
        rcases (hpending b).mp hb with rfl | hold
        · exact Nat.lt_succ_self _
        · exact Nat.lt_succ_of_lt (h.pending_lt b hold)
      pending_inj := by
        intro a ha b hb heq
        rcases (hpending a).mp ha with rfl | haold
        · rcases (hpending b).mp hb with rfl | hbold
          · rfl
          · exact absurd heq (Nat.ne_of_gt (h.pending_lt b hbold))
        · rcases (hpending b).mp hb with rfl | hbold
          · exact absurd heq (Nat.ne_of_lt (h.pending_lt a haold))
          · exact h.pending_inj a haold b hbold heq
      pending_calls := by
        intro b hb c hc
        rcases (hpending b).mp hb with rfl | hold
        · have hc' : c ∈ r.futures.calls r.futures.count := hc
          rw [hnew] at hc'
          cases hc'
        · exact h.pending_calls b hold c hc
      pending_open := by
        intro hn b hb
        rcases (hpending b).mp hb with rfl | hold
        · exact hnew
        · exact h.pending_open hn b hold
      pending_returned := by
        intro b hb
        rcases (hpending b).mp hb with rfl | hold
        · exact List.mem_append_right _ (List.mem_singleton.mpr rfl)
        · exact List.mem_append_left _ (h.pending_returned b hold)
      returned_lt := by
        intro t g hr
        rcases hret t g hr with hold | ⟨_, rfl⟩
        · exact Nat.lt_succ_of_lt (h.returned_lt t g hold)
        · exact Nat.lt_succ_self _
      returned_open := by
        intro t g hr hg
        rcases hret t g hr with hold | ⟨rfl, rfl⟩
        · exact (hpending _).mpr (Or.inr (h.returned_open t g hold hg))
        · exact (hpending _).mpr (Or.inl rfl)
      routed_place := fun p g hg => (h.routed_place p g hg).imp_left (List.mem_append_left _) }

/-- A reader whose response has not come leaves a future in `_pending_reads`; the
entry this pushes out is the one whose future has been failed. -/
theorem store (h : ReadOwned r closed) (hopen : ¬ closed) {tid : ℕ}
    (hk : r.pendingReads.contains tid = false) :
    ReadOwned (r.failKickedOut.storeRead tid) closed := by
  rcases h.failKickedOut_spec (f := r.futures.count) hopen hk with
    ⟨futures, hr1, hcount, hfresh, hlost, hother⟩
  rw [hr1]
  apply notifyAll
  simp only [hcount]
  have hitem : ∀ e, e ∈ (r.pendingReads.setItem tid r.futures.count).entries ↔
      e = ⟨tid, r.futures.count⟩ ∨ (e ∈ r.pendingReads.entries ∧
        e ∉ r.pendingReads.lost (r.pendingReads.setItem tid r.futures.count)) :=
    fun e => LRUCache.mem_setItem_iff
  -- what stays of the old entries is the new cache without the new entry
  have hkept : ∀ e, e ∈ ((r.pendingReads.setItem tid r.futures.count).erase tid).entries ↔
      e ∈ r.pendingReads.entries ∧
        e ∉ r.pendingReads.lost (r.pendingReads.setItem tid r.futures.count) := by
    intro e
    rw [LRUCache.mem_erase, hitem]
    constructor
    · rintro ⟨rfl | hold, hne⟩
      · exact absurd rfl hne
      · exact hold
    · intro hold
      exact ⟨Or.inr hold, LRUCache.find_none.mp (LRUCache.contains_eq_false.mp hk) e hold.1⟩
  have hevict := h.evict hopen hcount hfresh hlost hother hkept
  have hstored := hevict.storeNew hcount.symm fun e =>
    (hitem e).trans (or_congr_right (hkept e).symm)
  exact hstored.move _ _ _ _ _

/-- The block of `read` under the condition. -/
theorem commitRead (h : ReadOwned r closed) (hopen : ¬ closed) (tid : ℕ) :
    ReadOwned (r.commitRead tid) closed := by
  rcases r.commitRead_cases tid with ⟨b, hb, rfl, heq⟩ | ⟨b, hb, rfl, heq⟩ | ⟨hnew, heq⟩
  · rw [heq]
    exact (h.takePooled hb).move _ _ _ _ _
  · rw [heq]
    have ht := h.touchPending b.key
    exact (ht.returnOk (h.pending_lt b hb) fun _ => LRUCache.mem_touch.mpr hb).move _ _ _ _ _
  · rw [heq]
    exact h.store hopen hnew

/-! ## The read thread -/

/-- A future that no call resolved, and that no pending read waits for any more, gets
a response, which is kept somewhere. -/
theorem resolveOk (h : ReadOwned r closed) {f : ℕ} (hlt : f < r.futures.count)
    (hnil : r.futures.calls f = []) {p : Packet}
    {pending pooling : LRUCache ℕ ℕ} {dropped overwritten : List (Entry ℕ ℕ)}
    (hpending : ∀ e, e ∈ pending.entries ↔ e ∈ r.pendingReads.entries ∧ e.value ≠ f)
    (hpooling : ∀ e ∈ pooling.entries, e = ⟨p.1, f⟩ ∨ e ∈ r.poolingReads.entries)
    (hplace : ∀ q g, (q, g) ∈ r.routed ++ [(p, f)] → (q.1, .ok g) ∈ r.returns ∨
      ⟨q.1, g⟩ ∈ pooling.entries ∨ ⟨q.1, g⟩ ∈ dropped ∨ ⟨q.1, g⟩ ∈ r.cleared ∨
      ⟨q.1, g⟩ ∈ overwritten) :
    ReadOwned { r with
      pendingReads := pending
      poolingReads := pooling
      futures := r.futures.resolve f (.ok p.2)
      routed := r.routed ++ [(p, f)]
      dropped := dropped
      overwritten := overwritten } closed := by
  have hself : (r.futures.resolve f (.ok p.2)).calls f = [.ok p.2] := by
    rw [Futures.calls_resolve_self, hnil]
    rfl
  have hother : ∀ g, g ≠ f → (r.futures.resolve f (.ok p.2)).calls g = r.futures.calls g :=
    fun g hg => Futures.calls_resolve_of_ne _ _ hg
  -- a future that has got a call is another one
  have hcalled : ∀ g c, r.futures.calls g = [c] → g ≠ f := by
    rintro g c hg rfl
    rw [hnil] at hg
    cases hg
  constructor
  · exact h.fresh.resolve hlt _
  · intro e he
    exact h.pending_lt e ((hpending e).mp he).1
  · intro a ha e he
    exact h.pending_inj a ((hpending a).mp ha).1 e ((hpending e).mp he).1
  · intro e he c hc
    rcases (hpending e).mp he with ⟨hold, hne⟩
    apply h.pending_calls e hold c
    rw [← hother e.value hne]
    exact hc
  · intro hn e he
    rcases (hpending e).mp he with ⟨hold, hne⟩
    show (r.futures.resolve f (.ok p.2)).calls e.value = []
    rw [hother e.value hne]
    exact h.pending_open hn e hold
  · intro e he
    exact h.pending_returned e ((hpending e).mp he).1
  · exact h.returned_lt
  · intro t g hr hg
    have hg' : (r.futures.resolve f (.ok p.2)).calls g = [] := hg
    have hgf : g ≠ f := by
      rintro rfl
      rw [hself] at hg'
      cases hg'
    rw [hother g hgf] at hg'
    exact (hpending _).mpr ⟨h.returned_open t g hr hg', hgf⟩
  · intro e he
    have hcalls := h.evicted_calls e he
    show (r.futures.resolve f (.ok p.2)).calls e.value = _
    rw [hother e.value (hcalled _ _ hcalls), hcalls]
  · intro g hg
    have hg' : .error maxPendingReads ∈ (r.futures.resolve f (.ok p.2)).calls g := hg
    by_cases hgf : g = f
    · rw [hgf, hself, List.mem_singleton] at hg'
      cases hg'
    · rw [hother g hgf] at hg'
      exact h.failed_evicted g hg'
  · intro q g hq
    show (r.futures.resolve f (.ok p.2)).calls g = _
    rcases List.mem_append.mp hq with hold | hnew
    · have hcalls := h.routed_calls q g hold
      rw [hother g (hcalled _ _ hcalls), hcalls]
    · cases List.mem_singleton.mp hnew
      exact hself
  · intro g c hg
    have hg' : .ok c ∈ (r.futures.resolve f (.ok p.2)).calls g := hg
    by_cases hgf : g = f
    · rw [hgf, hself, List.mem_singleton] at hg'
      cases hg'
      exact ⟨p, List.mem_append_right _ (List.mem_singleton.mpr (by rw [hgf])), rfl⟩
    · rw [hother g hgf] at hg'
      rcases h.given_routed g c hg' with ⟨q, hq, hc⟩
      exact ⟨q, List.mem_append_left _ hq, hc⟩
  · exact hplace
  · intro e he
    rcases hpooling e he with rfl | hold
    · exact ⟨p, rfl, List.mem_append_right _ (List.mem_singleton.mpr rfl)⟩
    · rcases h.pooling_routed e hold with ⟨q, hq, hroute⟩
      exact ⟨q, hq, List.mem_append_left _ hroute⟩

/-- A response whose reader waits resolves the reader's future. -/
theorem routeToReader (h : ReadOwned r closed) (hopen : ¬ closed) {b : Entry ℕ ℕ}
    (hb : b ∈ r.pendingReads.entries) {p : Packet} (hkey : b.key = p.1) :
    ReadOwned (r.routeToReader p b.value (r.pendingReads.touch p.1)) closed := by
  -- the entries that stay are those with other futures
  have hpending : ∀ e : Entry ℕ ℕ, e ∈ ((r.pendingReads.touch p.1).erase p.1).entries ↔
      e ∈ r.pendingReads.entries ∧ e.value ≠ b.value := by
    intro e
    rw [LRUCache.mem_erase, LRUCache.mem_touch, Ne, Entry.hash, hash_nat_inj]
    apply and_congr_right
    intro he
    apply not_congr
    constructor
    · intro hk
      rw [LRUCache.eq_of_hash he hb (hash_nat_inj.mpr (hk.trans hkey.symm))]
    · intro hval
      rw [h.pending_inj e he b hb hval]
      exact hkey
  have hreturned : (p.1, .ok b.value) ∈ r.returns := by
    rw [← hkey]
    exact h.pending_returned b hb
  have hplace : ∀ q g, (q, g) ∈ r.routed ++ [(p, b.value)] → (q.1, .ok g) ∈ r.returns ∨
      ⟨q.1, g⟩ ∈ r.poolingReads.entries ∨ ⟨q.1, g⟩ ∈ r.dropped ∨ ⟨q.1, g⟩ ∈ r.cleared ∨
      ⟨q.1, g⟩ ∈ r.overwritten := by
    intro q g hq
    rcases List.mem_append.mp hq with hold | hnew
    · exact h.routed_place q g hold
    · cases List.mem_singleton.mp hnew
      exact Or.inl hreturned
  have hresolved := h.resolveOk (h.pending_lt b hb) (h.pending_open hopen b hb) hpending
    (fun e he => Or.inr he) hplace
  exact hresolved.move _ _ _ _ _

/-- Where the responses are after one more is stored in `_pooling_reads`. -/
theorem place_routeToPool (h : ReadOwned r closed) (p : Packet) :
    ∀ q g, (q, g) ∈ (r.routeToPool p).routed → (q.1, .ok g) ∈ (r.routeToPool p).returns ∨
      ⟨q.1, g⟩ ∈ (r.routeToPool p).poolingReads.entries ∨ ⟨q.1, g⟩ ∈ (r.routeToPool p).dropped ∨
      ⟨q.1, g⟩ ∈ (r.routeToPool p).cleared ∨ ⟨q.1, g⟩ ∈ (r.routeToPool p).overwritten := by
  intro q g hq
  rcases List.mem_append.mp hq with hold | hnew
  · rcases h.routed_place q g hold with hret | hpool | hdrop | hclear | hover
    · exact Or.inl hret
    · by_cases hl : ⟨q.1, g⟩ ∈ r.poolingReads.lost (r.poolingReads.setItem p.1 r.futures.count)
      · cases hc : r.poolingReads.contains p.1 with
        | true =>
            refine Or.inr (Or.inr (Or.inr (Or.inr ?_)))
            simp only [ReadSide.routeToPool, hc, if_true]
            exact List.mem_append_right _ hl
        | false =>
            refine Or.inr (Or.inr (Or.inl ?_))
            simp only [ReadSide.routeToPool, hc, Bool.false_eq_true, if_false]
            exact List.mem_append_right _ hl
      · exact Or.inr (Or.inl (LRUCache.mem_setItem_iff.mpr (Or.inr ⟨hpool, hl⟩)))
    · refine Or.inr (Or.inr (Or.inl ?_))
      simp only [ReadSide.routeToPool]
      split
      · exact hdrop
      · exact List.mem_append_left _ hdrop
    · exact Or.inr (Or.inr (Or.inr (Or.inl hclear)))
    · refine Or.inr (Or.inr (Or.inr (Or.inr ?_)))
      simp only [ReadSide.routeToPool]
      split
      · exact List.mem_append_left _ hover
      · exact hover
  · cases List.mem_singleton.mp hnew
    exact Or.inr (Or.inl (LRUCache.mem_setItem_self _ _))

/-- A response whose reader has not come waits in `_pooling_reads`; what this
pushes out is recorded. -/
theorem routeToPool (h : ReadOwned r closed) (p : Packet) :
    ReadOwned (r.routeToPool p) closed := by
  -- no pending read waits for the new future
  have hpending : ∀ e, e ∈ r.pendingReads.entries ↔
      e ∈ r.pendingReads.entries ∧ e.value ≠ r.futures.count := by
    intro e
    constructor
    · intro he
      exact ⟨he, Nat.ne_of_lt (h.pending_lt e he)⟩
    · intro he
      exact he.1
  have hresolved := h.create.resolveOk (Nat.lt_succ_self _) (h.fresh _ (Nat.le_refl _)) hpending
    (fun e he => LRUCache.mem_setItem he) (h.place_routeToPool p)
  exact hresolved.move _ _ _ _ _

/-- The routing of a normal response. -/
theorem route (h : ReadOwned r closed) (hopen : ¬ closed) (p : Packet) :
    ReadOwned (r.route p) closed := by
  rcases r.route_cases p with ⟨b, hb, hkey, heq⟩ | ⟨_, heq⟩
  · rw [heq]
    exact h.routeToReader hopen hb hkey
  · rw [heq]
    exact h.routeToPool p

/-! ## `_close_read` -/

/-- Closing fails the pending reads and no other future. -/
theorem close (h : ReadOwned r closed) {closed' : Prop} (hc : closed') :
    ReadOwned r.close closed' := by
  -- the futures `_close_read` fails are those the readers wait for
  have hlist : ∀ g, g ∈ r.pendingReads.iteritems.map Prod.snd ↔
      ∃ b ∈ r.pendingReads.entries, b.value = g := by
    intro g
    simp only [List.mem_map, Prod.exists, LRUCache.mem_iteritems]
    constructor
    · rintro ⟨k, v, hmem, rfl⟩
      exact ⟨_, hmem, rfl⟩
    · rintro ⟨b, hb, rfl⟩
      exact ⟨b.key, b.value, hb, rfl⟩
  have hother : ∀ g, (∀ b ∈ r.pendingReads.entries, g ≠ b.value) →
      (r.futures.failAll (r.pendingReads.iteritems.map Prod.snd) readAbort).calls g =
        r.futures.calls g := by
    intro g hg
    apply Futures.calls_failAll_of_notMem
    rw [hlist]
    rintro ⟨b, hb, rfl⟩
    exact hg b hb rfl
  apply notifyAll
  constructor
  · apply h.fresh.failAll
    intro g hg
    rcases (hlist g).mp hg with ⟨b, hb, rfl⟩
    exact h.pending_lt b hb
  · intro b hb
    show b.value < (r.futures.failAll _ _).count
    rw [Futures.count_failAll]
    exact h.pending_lt b hb
  · exact h.pending_inj
  · intro b hb c hcall
    rcases Futures.mem_calls_failAll hcall with hold | heq
    · exact h.pending_calls b hb c hold
    · exact heq
  · intro hn
    exact absurd hc hn
  · exact h.pending_returned
  · intro t g hr
    show g < (r.futures.failAll _ _).count
    rw [Futures.count_failAll]
    exact h.returned_lt t g hr
  · intro t g hr hg
    apply h.returned_open t g hr
    by_contra hne
    exact Futures.Resolved.failAll (h := r.futures) hne _ _ hg
  · intro e he
    show (r.futures.failAll _ _).calls e.value = _
    rw [hother e.value fun b hb => h.pending_ne_evicted hb he]
    exact h.evicted_calls e he
  · intro g hg
    rcases Futures.mem_calls_failAll hg with hold | heq
    · exact h.failed_evicted g hold
    · exact absurd heq (by decide)
  · intro q g hq
    show (r.futures.failAll _ _).calls g = _
    rw [hother g fun b hb => h.pending_ne_routed hb hq]
    exact h.routed_calls q g hq
  · intro g c hg
    rcases Futures.mem_calls_failAll hg with hold | heq
    · exact h.given_routed g c hold
    · cases heq
  · -- a pooled future moves from `_pooling_reads` to those cleared
    intro q g hq
    rcases h.routed_place q g hq with hret | hpool | hdrop | hclear | hover
    · exact Or.inl hret
    · exact Or.inr (Or.inr (Or.inr (Or.inl (List.mem_append_right _ hpool))))
    · exact Or.inr (Or.inr (Or.inl hdrop))
    · exact Or.inr (Or.inr (Or.inr (Or.inl (List.mem_append_left _ hclear))))
    · exact Or.inr (Or.inr (Or.inr (Or.inr hover)))
  · intro e he
    cases he

end ReadOwned

end SummerRpc
