import SummerRpc.Connection.Closing

/-! # Who owns the futures of `write`

Ownership of the entries of `_pending_writes`: an entry is made by a client or by
the write thread, waits in the queue, is held by the write thread while it is
sent, or is failed by the thread that closes the connection.

* `Owned`: every future that `write` returned belongs to exactly one entry still
  to be dealt with, or has been resolved once;
* `owns_commitWrite`, `owns_check`, `owns_close`, …: every block of the write side
  keeps that.
-/

namespace SummerRpc

open BaseRecordTransport

/-! ## Entries and their futures -/

/-- The entry the write thread has popped and has not dealt with. -/
def WritePc.held : WritePc → List PendingWrite
  | .holding e => [e]
  | .sending e _ => [e]
  | _ => []

/-- Inside `close()` the write thread has dealt with its entry. -/
theorem WritePc.held_of_inClose {pc : WritePc} (h : pc.inClose = true) : pc.held = [] := by
  cases pc with
  | closing e => rfl
  | _ => cases h

/-- The entries somebody still has to deal with. -/
def WriteSide.live (w : WriteSide) : List PendingWrite := w.pc.held ++ w.pendingWrites.elements

/-- A call of `write` returned the pair. -/
def WriteSide.Returned (w : WriteSide) (transactionId f : ℕ) : Prop :=
  .ok (transactionId, f) ∈ w.returns

/-- Who owns the futures: `live` are the entries still to be dealt with, `returns`
what the calls of `write` returned. -/
structure Owned (futures : Futures WriteValue) (live : List PendingWrite)
    (returns : List (Except Exc (ℕ × ℕ))) (heartbeats : LRUCache ℕ ℕ) : Prop where
  fresh : futures.Fresh
  live_lt : ∀ e ∈ live, e.future < futures.count
  live_nodup : (live.map PendingWrite.future).Nodup
  returned_lt : ∀ tid f, .ok (tid, f) ∈ returns → f < futures.count
  /-- a future not resolved yet belongs to an entry, with the id `write` returned -/
  returned_open : ∀ tid f, .ok (tid, f) ∈ returns → futures.calls f = [] →
    ∃ e ∈ live, e.future = f ∧ e.transactionId = tid
  /-- the entry of a returned future has not been dealt with -/
  returned_live : ∀ tid f, .ok (tid, f) ∈ returns → ∀ e ∈ live, e.future = f →
    futures.calls f = []
  returned_once : ∀ tid f, .ok (tid, f) ∈ returns → (futures.calls f).length ≤ 1
  /-- the futures of heartbeats are not handed out -/
  heartbeat : ∀ b ∈ heartbeats.entries, b.value < futures.count ∧
    ∀ tid, .ok (tid, b.value) ∉ returns

namespace Owned

variable {futures : Futures WriteValue} {live live' : List PendingWrite}
  {returns : List (Except Exc (ℕ × ℕ))} {heartbeats : LRUCache ℕ ℕ}

/-- The order of the entries does not matter. -/
theorem perm (h : Owned futures live returns heartbeats) (hp : live.Perm live') :
    Owned futures live' returns heartbeats where
  fresh := h.fresh
  live_lt := fun e he => h.live_lt e (hp.mem_iff.mpr he)
  live_nodup := (hp.map _).nodup_iff.mp h.live_nodup
  returned_lt := h.returned_lt
  returned_open := by
    intro tid f hr hopen
    rcases h.returned_open tid f hr hopen with ⟨e, he, hf⟩
    exact ⟨e, hp.mem_iff.mp he, hf⟩
  returned_live := fun tid f hr e he => h.returned_live tid f hr e (hp.mem_iff.mpr he)
  returned_once := h.returned_once
  heartbeat := h.heartbeat

/-- A call of `write` that raises returns no future. -/
theorem raised (h : Owned futures live returns heartbeats) (ex : Exc) :
    Owned futures live (returns ++ [.error ex]) heartbeats := by
  have hret : ∀ tid f, .ok (tid, f) ∈ returns ++ [.error ex] → .ok (tid, f) ∈ returns := by
    intro tid f hmem
    simpa using hmem
  constructor
  · exact h.fresh
  · exact h.live_lt
  · exact h.live_nodup
  · intro tid f hr
    exact h.returned_lt tid f (hret tid f hr)
  · intro tid f hr
    exact h.returned_open tid f (hret tid f hr)
  · intro tid f hr
    exact h.returned_live tid f (hret tid f hr)
  · intro tid f hr
    exact h.returned_once tid f (hret tid f hr)
  · intro b hb
    exact ⟨(h.heartbeat b hb).1, fun tid hr => (h.heartbeat b hb).2 tid (hret tid _ hr)⟩

/-- A future that nobody gets to see. -/
theorem create (h : Owned futures live returns heartbeats) :
    Owned futures.create live returns heartbeats where
  fresh := h.fresh.create
  live_lt := fun e he => Nat.lt_succ_of_lt (h.live_lt e he)
  live_nodup := h.live_nodup
  returned_lt := fun tid f hr => Nat.lt_succ_of_lt (h.returned_lt tid f hr)
  returned_open := h.returned_open
  returned_live := h.returned_live
  returned_once := h.returned_once
  heartbeat := fun b hb => ⟨Nat.lt_succ_of_lt (h.heartbeat b hb).1, (h.heartbeat b hb).2⟩

/-- A new entry, whose future is new too. -/
theorem insert (h : Owned futures live returns heartbeats) {e : PendingWrite}
    (he : e.future = futures.count) : Owned futures.create (e :: live) returns heartbeats := by
  have hne : ∀ tid f, .ok (tid, f) ∈ returns → e.future ≠ f := by
    intro tid f hr heq
    have hlt := h.returned_lt tid f hr
    omega
  have hc := h.create
  constructor
  · exact hc.fresh
  · intro d hd
    rcases List.mem_cons.mp hd with rfl | hd
    · rw [Futures.count_create, he]
      exact Nat.lt_succ_self _
    · exact hc.live_lt d hd
  · rw [List.map_cons, List.nodup_cons]
    refine ⟨?_, h.live_nodup⟩
    intro hmem
    rcases List.mem_map.mp hmem with ⟨d, hd, heq⟩
    have hlt := h.live_lt d hd
    omega
  · exact hc.returned_lt
  · intro tid f hr hopen
    rcases h.returned_open tid f hr hopen with ⟨d, hd, hf⟩
    exact ⟨d, List.mem_cons_of_mem _ hd, hf⟩
  · intro tid f hr d hd heq
    rcases List.mem_cons.mp hd with rfl | hd
    · exact absurd heq (hne tid f hr)
    · exact h.returned_live tid f hr d hd heq
  · exact h.returned_once
  · exact hc.heartbeat

/-- `write` returns the future of the entry it made. -/
theorem returnOk (h : Owned futures live returns heartbeats) {e : PendingWrite} (he : e ∈ live)
    (hopen : futures.calls e.future = [])
    (hheart : ∀ b ∈ heartbeats.entries, b.value ≠ e.future) :
    Owned futures live (returns ++ [.ok (e.transactionId, e.future)]) heartbeats := by
  have hret : ∀ tid f, .ok (tid, f) ∈ returns ++ [.ok (e.transactionId, e.future)] →
      .ok (tid, f) ∈ returns ∨ (tid = e.transactionId ∧ f = e.future) := by
    intro tid f hmem
    simpa using hmem
  constructor
  · exact h.fresh
  · exact h.live_lt
  · exact h.live_nodup
  · intro tid f hr
    rcases hret tid f hr with hold | ⟨rfl, rfl⟩
    · exact h.returned_lt tid f hold
    · exact h.live_lt e he
  · intro tid f hr hf
    rcases hret tid f hr with hold | ⟨rfl, rfl⟩
    · exact h.returned_open tid f hold hf
    · exact ⟨e, he, rfl, rfl⟩
  · intro tid f hr d hd hf
    rcases hret tid f hr with hold | ⟨rfl, rfl⟩
    · exact h.returned_live tid f hold d hd hf
    · exact hopen
  · intro tid f hr
    rcases hret tid f hr with hold | ⟨rfl, rfl⟩
    · exact h.returned_once tid f hold
    · rw [hopen]
      exact Nat.zero_le _
  · intro b hb
    refine ⟨(h.heartbeat b hb).1, ?_⟩
    intro tid hr
    rcases hret tid _ hr with hold | ⟨_, heq⟩
    · exact (h.heartbeat b hb).2 tid hold
    · exact hheart b hb heq

/-- Dealing with an entry resolves its future and no other. -/
theorem resolve {e : PendingWrite} (h : Owned futures (e :: live) returns heartbeats)
    (r : Except Exc WriteValue) : Owned (futures.resolve e.future r) live returns heartbeats := by
  have hnd := List.nodup_cons.mp h.live_nodup
  have hne : ∀ d ∈ live, d.future ≠ e.future := by
    intro d hd heq
    exact hnd.1 (List.mem_map.mpr ⟨d, hd, heq⟩)
  constructor
  · exact h.fresh.resolve (h.live_lt e List.mem_cons_self) r
  · intro d hd
    exact h.live_lt d (List.mem_cons_of_mem _ hd)
  · exact hnd.2
  · exact h.returned_lt
  · intro tid f hr hopen
    have hf : f ≠ e.future := by
      rintro rfl
      exact futures.resolved_resolve_self e.future r hopen
    rw [Futures.calls_resolve_of_ne _ _ hf] at hopen
    rcases h.returned_open tid f hr hopen with ⟨d, hd, hdf, htid⟩
    rcases List.mem_cons.mp hd with rfl | hd
    · exact absurd hdf.symm hf
    · exact ⟨d, hd, hdf, htid⟩
  · intro tid f hr d hd hdf
    rw [Futures.calls_resolve_of_ne _ _ (hdf ▸ hne d hd)]
    exact h.returned_live tid f hr d (List.mem_cons_of_mem _ hd) hdf
  · intro tid f hr
    by_cases hf : f = e.future
    · subst hf
      rw [Futures.calls_resolve_self, h.returned_live tid _ hr e List.mem_cons_self rfl]
      exact Nat.le_refl 1
    · rw [Futures.calls_resolve_of_ne _ _ hf]
      exact h.returned_once tid f hr
  · exact h.heartbeat

/-- Failing every entry of a list. -/
theorem failAll {es : List PendingWrite} (ex : Exc) :
    ∀ {futures : Futures WriteValue}, Owned futures (es ++ live) returns heartbeats →
      Owned (futures.failAll (es.map PendingWrite.future) ex) live returns heartbeats := by
  induction es with
  | nil =>
      intro futures h
      exact h
  | cons e es ih =>
      intro futures h
      exact ih (h.resolve (.error ex))

/-- The write thread stores the future of a new heartbeat. -/
theorem storeHeartbeat (h : Owned futures live returns heartbeats) {tid f : ℕ}
    (hlt : f < futures.count) (hret : ∀ t, .ok (t, f) ∉ returns) :
    Owned futures live returns (heartbeats.setItem tid f) :=
  { h with
    heartbeat := by
      intro b hb
      rcases LRUCache.mem_setItem hb with rfl | hold
      · exact ⟨hlt, hret⟩
      · exact h.heartbeat b hold }

/-- The read thread answers a heartbeat. -/
theorem answer (h : Owned futures live returns heartbeats) {b : Entry ℕ ℕ} {heartbeats' : LRUCache ℕ ℕ}
    (hb : b ∈ heartbeats.entries) (hsub : ∀ d ∈ heartbeats'.entries, d ∈ heartbeats.entries)
    (r : Except Exc WriteValue) : Owned (futures.resolve b.value r) live returns heartbeats' := by
  have hne : ∀ tid f, .ok (tid, f) ∈ returns → f ≠ b.value := by
    rintro tid f hr rfl
    exact (h.heartbeat b hb).2 tid hr
  constructor
  · exact h.fresh.resolve (h.heartbeat b hb).1 r
  · exact h.live_lt
  · exact h.live_nodup
  · exact h.returned_lt
  · intro tid f hr
    rw [Futures.calls_resolve_of_ne _ _ (hne tid f hr)]
    exact h.returned_open tid f hr
  · intro tid f hr
    rw [Futures.calls_resolve_of_ne _ _ (hne tid f hr)]
    exact h.returned_live tid f hr
  · intro tid f hr
    rw [Futures.calls_resolve_of_ne _ _ (hne tid f hr)]
    exact h.returned_once tid f hr
  · intro d hd
    exact h.heartbeat d (hsub d hd)

end Owned

/-! ## What the blocks of the write side do -/

namespace WriteSide

/-- `_update_pending_writes` when there is a free node. -/
theorem updatePendingWrites_ok {w w' : WriteSide} {buff : Body} {timeout : Option ℤ} {now : ℤ}
    {f tid : ℕ} (h : w.updatePendingWrites buff timeout now = (.ok (f, tid), w')) :
    f = w.futures.count ∧ ∃ l gen,
      l.elements = ⟨buff, f, tid, now, timeout⟩ :: w.pendingWrites.elements ∧
      w' = { w with pendingWrites := l, futures := w.futures.create, idGenerator := gen } := by
  simp only [updatePendingWrites] at h
  split at h
  · rename_i l hl
    cases h
    exact ⟨rfl, l, _, (StaticList.insertLeft_ok hl).2, rfl⟩
  · cases h

/-- `_update_pending_writes` when every node is in use: the future and the id are
lost. -/
theorem updatePendingWrites_error {w w' : WriteSide} {buff : Body} {timeout : Option ℤ} {now : ℤ}
    {ex : Exc} (h : w.updatePendingWrites buff timeout now = (.error ex, w')) :
    ∃ gen, w' = { w with futures := w.futures.create, idGenerator := gen } := by
  simp only [updatePendingWrites] at h
  split at h
  · cases h
  · cases h
    exact ⟨_, rfl⟩

/-- An empty queue has a free node. -/
theorem updatePendingWrites_of_empty {w w' : WriteSide} {buff : Body} {timeout : Option ℤ}
    {now : ℤ} {ex : Exc} (hempty : w.pendingWrites.elements = []) :
    w.updatePendingWrites buff timeout now ≠ (.error ex, w') := by
  intro h
  rcases StaticList.insertLeft_of_empty
    ⟨buff, w.futures.count, (w.idGenerator.increase 1).1, now, timeout⟩ hempty with ⟨l, hl, _⟩
  simp only [updatePendingWrites, hl] at h
  cases h

@[simp] theorem notifyAll_pendingWrites (w : WriteSide) :
    w.notifyAll.pendingWrites = w.pendingWrites := by
  unfold notifyAll
  split <;> rfl

@[simp] theorem notifyAll_futures (w : WriteSide) : w.notifyAll.futures = w.futures := by
  unfold notifyAll
  split <;> rfl

@[simp] theorem notifyAll_returns (w : WriteSide) : w.notifyAll.returns = w.returns := by
  unfold notifyAll
  split <;> rfl

@[simp] theorem notifyAll_condition (w : WriteSide) : w.notifyAll.condition = w.condition := by
  unfold notifyAll
  split <;> rfl

@[simp] theorem notifyAll_sent (w : WriteSide) : w.notifyAll.sent = w.sent := by
  unfold notifyAll
  split <;> rfl

/-- A notification moves the write thread only within `wait`. -/
theorem notifyAll_pc (w : WriteSide) :
    w.notifyAll.pc = w.pc ∨ ∃ b, w.pc = .waiting b ∧ w.notifyAll.pc = .waiting true := by
  unfold notifyAll
  split
  · rename_i b heq
    exact Or.inr ⟨b, heq, rfl⟩
  · exact Or.inl rfl

@[simp] theorem notifyAll_held (w : WriteSide) : w.notifyAll.pc.held = w.pc.held := by
  rcases w.notifyAll_pc with heq | ⟨b, hb, hn⟩
  · rw [heq]
  · rw [hb, hn]
    rfl

/-- `Owned`, of the fields of the write side. -/
def Owns (w : WriteSide) (heartbeats : LRUCache ℕ ℕ) : Prop :=
  Owned w.futures w.live w.returns heartbeats

theorem owns_enterWrite {w : WriteSide} {heartbeats : LRUCache ℕ ℕ} (h : w.Owns heartbeats)
    (closing : Bool) (buff : Body) (timeout : Option ℤ) :
    (w.enterWrite closing buff timeout).Owns heartbeats := by
  unfold enterWrite
  split
  · exact h.raised writeAbort
  · exact h

theorem owns_commitWrite {w : WriteSide} {heartbeats : LRUCache ℕ ℕ} (h : w.Owns heartbeats)
    (buff : Body) (timeout : Option ℤ) (now : ℤ) :
    (w.commitWrite buff timeout now).Owns heartbeats := by
  unfold commitWrite
  split
  · exact h.raised _
  · split
    · rename_i f tid w' heq
      rcases updatePendingWrites_ok heq with ⟨hf, l, gen, hl, rfl⟩
      have hfresh : w.futures.calls f = [] := h.fresh f (Nat.le_of_eq hf.symm)
      have hins := h.insert (e := ⟨buff, f, tid, now, timeout⟩) hf
      have hret := hins.returnOk List.mem_cons_self hfresh (by
        intro b hb heq
        have hlt := (h.heartbeat b hb).1
        have heq' : b.value = f := heq
        omega)
      show Owned _ _ _ _
      simp only [live, notifyAll_futures, notifyAll_held, notifyAll_pendingWrites, hl]
      exact hret.perm List.perm_middle.symm
    · rename_i ex w' heq
      rcases updatePendingWrites_error heq with ⟨gen, rfl⟩
      exact h.create.raised ex

/-- Popping an entry hands it to the write thread. -/
theorem owns_take {w : WriteSide} {heartbeats : LRUCache ℕ ℕ} (h : w.Owns heartbeats)
    (hpc : w.pc = .locked) : w.take.Owns heartbeats := by
  have hlive : w.live = w.pendingWrites.elements := by simp [live, hpc, WritePc.held]
  unfold take
  split
  · show Owned w.futures w.pendingWrites.elements w.returns heartbeats
    rw [← hlive]
    exact h
  · rename_i e l heq
    have hel := (StaticList.popLeft_ok heq).2
    show Owned w.futures (e :: l.elements) w.returns heartbeats
    rw [← hel, ← hlive]
    exact h

/-- The entry whose timeout is over is failed; any other one stays with the write
thread, provided its packet can be generated. -/
theorem owns_check {w : WriteSide} {heartbeats : LRUCache ℕ ℕ} (h : w.Owns heartbeats)
    {e : PendingWrite} (hpc : w.pc = .holding e) {now : ℤ}
    (hok : e.expired now = false → Encodable (e.transactionId, e.buff)) :
    (w.check e now).Owns heartbeats := by
  have hlive : w.live = e :: w.pendingWrites.elements := by simp [live, hpc, WritePc.held]
  unfold Owns at h
  rw [hlive] at h
  unfold check
  split
  · exact h.resolve _
  · rename_i hexp
    have henc := hok (by simpa using hexp)
    rw [generatePacket_ok henc]
    exact h

theorem owns_finish {w : WriteSide} {heartbeats : LRUCache ℕ ℕ} (h : w.Owns heartbeats)
    {e : PendingWrite} {rest : List UInt8} (hpc : w.pc = .sending e rest) :
    (w.finish e).Owns heartbeats := by
  have hlive : w.live = e :: w.pendingWrites.elements := by simp [live, hpc, WritePc.held]
  unfold Owns at h
  rw [hlive] at h
  exact h.resolve _

theorem owns_fail {w : WriteSide} {heartbeats : LRUCache ℕ ℕ} (h : w.Owns heartbeats)
    {e : PendingWrite} {rest : List UInt8} (hpc : w.pc = .sending e rest) (timedOut : Bool) :
    (w.fail e timedOut).Owns heartbeats := by
  have hlive : w.live = e :: w.pendingWrites.elements := by simp [live, hpc, WritePc.held]
  unfold Owns at h
  rw [hlive] at h
  exact h.resolve _

/-- `_close_write` deals with every entry of the queue. -/
theorem owns_close {w : WriteSide} {heartbeats : LRUCache ℕ ℕ} (h : w.Owns heartbeats) :
    w.close.Owns heartbeats := by
  have hfail := (h.perm List.perm_append_comm).failAll writeAbort
  show Owned _ _ _ _
  simpa only [close, live, notifyAll_futures, notifyAll_held, notifyAll_pendingWrites,
    notifyAll_returns, List.append_nil] using hfail

/-- A step that neither resolves a future nor moves an entry. -/
theorem owns_congr {w w' : WriteSide} {heartbeats : LRUCache ℕ ℕ} (h : w.Owns heartbeats)
    (hfutures : w'.futures = w.futures) (hreturns : w'.returns = w.returns)
    (hqueue : w'.pendingWrites = w.pendingWrites) (hheld : w'.pc.held = w.pc.held) :
    w'.Owns heartbeats := by
  show Owned w'.futures (w'.pc.held ++ w'.pendingWrites.elements) w'.returns heartbeats
  rw [hfutures, hreturns, hqueue, hheld]
  exact h

end WriteSide

/-! ## The blocks of the write thread under the condition -/

/-- The write thread is in a block `_write_condition` guards. -/
def WritePc.holdsCondition : WritePc → Bool
  | .locked => true
  | .woken => true
  | _ => false

/-- The write thread inside its blocks. -/
structure WriteBlocks (w : WriteSide) : Prop where
  holder : w.pc.holdsCondition = true → w.condition = .writeThread
  /-- a heartbeat is inserted into the empty queue -/
  empty : w.pc = .woken → w.pendingWrites.elements = []

namespace WriteBlocks

variable {w w' : WriteSide}

theorem outside (hpc : w.pc.holdsCondition = false) : WriteBlocks w := by
  constructor
  · intro h
    rw [hpc] at h
    cases h
  · intro h
    rw [h] at hpc
    cases hpc

/-- While somebody else holds the condition, or nobody does, the thread is outside. -/
theorem outside_of_ne (h : WriteBlocks w) (hcond : w.condition ≠ .writeThread) :
    w.pc.holdsCondition = false := by
  rw [← Bool.not_eq_true]
  intro hpc
  exact hcond (h.holder hpc)

theorem notifyAll_outside (hpc : w.pc.holdsCondition = false) :
    w.notifyAll.pc.holdsCondition = false := by
  rcases w.notifyAll_pc with heq | ⟨b, _, hn⟩
  · rw [heq]
    exact hpc
  · rw [hn]
    rfl

theorem commitWrite (hpc : w.pc.holdsCondition = false) (buff : Body) (timeout : Option ℤ)
    (now : ℤ) : WriteBlocks (w.commitWrite buff timeout now) := by
  apply outside
  unfold WriteSide.commitWrite
  split
  · exact hpc
  · split
    · rename_i f tid w' heq
      rcases WriteSide.updatePendingWrites_ok heq with ⟨_, l, gen, _, rfl⟩
      exact notifyAll_outside hpc
    · rename_i ex w' heq
      rcases WriteSide.updatePendingWrites_error heq with ⟨gen, rfl⟩
      exact hpc

end WriteBlocks

namespace SharedBlockingConnection

/-- After its block under `_heartbeat_lock` the write thread is outside. -/
theorem insertHeartbeat_outside (s : SharedBlockingConnection) (cfg : Config) (now : ℤ)
    (heartbeat : Except Exc Body) :
    (s.insertHeartbeat cfg now heartbeat).writeSide.pc.holdsCondition = false := by
  unfold insertHeartbeat
  split
  · split
    · rfl
    · split <;> rfl
  · rfl

/-- A write thread that returns from `close()` ends outside its blocks. -/
theorem blocks_returnFromClose {s : SharedBlockingConnection} (c : Thread)
    (h : WriteBlocks s.writeSide) : WriteBlocks (s.returnFromClose c).writeSide := by
  unfold returnFromClose
  by_cases heq : c = .writeThread
  · simp only [if_pos heq]
    exact WriteBlocks.outside rfl
  · simp only [if_neg heq]
    exact h

theorem blocks_step {cfg : Config} {l : Label} {s : SharedBlockingConnection}
    (hg : guard cfg l s) (h : WriteBlocks s.writeSide) : WriteBlocks (update cfg l s).writeSide := by
  cases l with
  | writeEnter buff timeout =>
      -- a client can take the condition, so the write thread does not hold it
      have hpc := h.outside_of_ne (by rw [show s.writeSide.condition = .free from hg]; nofun)
      apply WriteBlocks.outside
      show (s.writeSide.enterWrite _ _ _).pc.holdsCondition = false
      unfold WriteSide.enterWrite
      split <;> exact hpc
  | writeCommit buff timeout now =>
      have hpc := h.outside_of_ne
        (by rw [show s.writeSide.condition = .client buff timeout from hg]; nofun)
      exact WriteBlocks.commitWrite hpc buff timeout now
  | closeWrite c =>
      have hpc := h.outside_of_ne (by rw [hg.2]; nofun)
      exact WriteBlocks.outside (WriteBlocks.notifyAll_outside hpc)
  | closeReturn c => exact blocks_returnFromClose c h
  | closeDone c => exact blocks_returnFromClose c h
  | writeAcquire =>
      show WriteBlocks (s.writeSide.acquire _)
      unfold WriteSide.acquire
      split
      · exact WriteBlocks.outside rfl
      · exact ⟨fun _ => rfl, nofun⟩
  | writeTake =>
      apply WriteBlocks.outside
      show s.writeSide.take.pc.holdsCondition = false
      unfold WriteSide.take
      split <;> rfl
  | writeWake notified =>
      show WriteBlocks (s.writeSide.wake _ _)
      unfold WriteSide.wake
      split
      · -- it goes on to a heartbeat only with the queue still empty
        rename_i hc
        simp only [Bool.and_eq_true, decide_eq_true_eq, Bool.not_eq_true'] at hc
        exact ⟨fun _ => rfl, fun _ => List.eq_nil_of_length_eq_zero hc.1.2⟩
      · exact WriteBlocks.outside rfl
  | writeBeat now heartbeat =>
      exact WriteBlocks.outside (insertHeartbeat_outside s cfg now heartbeat)
  | writeCheck e now =>
      apply WriteBlocks.outside
      show (s.writeSide.check e now).pc.holdsCondition = false
      unfold WriteSide.check
      split
      · rfl
      · split <;> rfl
  | writeMissing wakeup => exact WriteBlocks.outside rfl
  | writeNotify => exact WriteBlocks.outside rfl
  | writeSend e rest k => exact WriteBlocks.outside rfl
  | writeFinish e => exact WriteBlocks.outside rfl
  | writeFail e rest timedOut => exact WriteBlocks.outside rfl
  | readHeartbeat p =>
      show WriteBlocks (s.answerHeartbeat p).writeSide
      unfold answerHeartbeat
      split
      · exact ⟨h.holder, h.empty⟩
      · exact h
  | _ => exact h

/-- In every run the write thread is inside its blocks only with the condition. -/
theorem blocks_reachable (cfg : Config) :
    ∀ s, (system cfg).Reachable s → WriteBlocks s.writeSide := by
  apply Lts.Spec.invariant
  · rintro s rfl
    exact WriteBlocks.outside rfl
  · intro l s hg h
    exact blocks_step hg h

end SharedBlockingConnection

end SummerRpc
