import SummerRpc.Connection.WriteOwned

/-! # The futures of `write`

* `WriteStop`: once `_close_write` is through the queue stays empty, and the
  write thread ends on a connection that is not open;
* `no_write_stranded`: with `Owned`, over every run in which the packets handed to
  `generate_packet` fit their fields and `heartbeat_func` does not raise, no future
  that `write` returned is left behind;
* `writeThread_dies`: on an open connection every other step leaves the write
  thread dead and the connection open.
-/

namespace SummerRpc

open BaseRecordTransport

/-! ## How the write thread ends -/

/-- The write thread and the closing of the connection. -/
structure WriteStop (w : WriteSide) (c : CloseFlags) : Prop where
  /-- the write thread ends on a connection that is not open -/
  exited : w.pc = .exited → c.test = true
  alive : w.pc ≠ .died
  /-- after `_close_write` nobody can add an entry -/
  drained : c.Reached .writesClosed → w.pendingWrites.elements = [] ∧ w.condition = .free
  inside : c.Inside .writeThread → w.pc.inClose = true

namespace WriteStop

variable {w w' : WriteSide} {c : CloseFlags}

/-- Only the position, the holder of the condition and the queue matter. -/
theorem congr (h : WriteStop w c) (hpc : w'.pc = w.pc) (hcond : w'.condition = w.condition)
    (hqueue : w'.pendingWrites = w.pendingWrites) : WriteStop w' c := by
  constructor
  · rw [hpc]
    exact h.exited
  · rw [hpc]
    exact h.alive
  · rw [hqueue, hcond]
    exact h.drained
  · rw [hpc]
    exact h.inside

/-- A step of the write thread outside `close()`. -/
theorem ofThread (h : WriteStop w c) (hin : w.pc.inClose = false)
    (hexited : w'.pc = .exited → c.test = true) (halive : w'.pc ≠ .died)
    (hdrained : c.Reached .writesClosed → w'.pendingWrites.elements = [] ∧ w'.condition = .free) :
    WriteStop w' c := by
  refine ⟨hexited, halive, hdrained, ?_⟩
  intro hi
  have hclose := h.inside hi
  rw [hin] at hclose
  cases hclose

/-- Nothing is held by anybody once `_close_write` is through. -/
theorem not_reached (h : WriteStop w c) (hcond : w.condition ≠ .free) :
    ¬ c.Reached .writesClosed := fun hr => hcond (h.drained hr).2

/-- A notification changes neither the holder nor the queue. -/
theorem notifyAll (h : WriteStop w c) : WriteStop w.notifyAll c := by
  rcases w.notifyAll_pc with heq | ⟨b, hb, hn⟩
  · exact h.congr heq w.notifyAll_condition w.notifyAll_pendingWrites
  · apply h.ofThread (by rw [hb]; rfl)
    · rw [hn]
      nofun
    · rw [hn]
      nofun
    · rw [WriteSide.notifyAll_pendingWrites, WriteSide.notifyAll_condition]
      exact h.drained

end WriteStop

namespace SharedBlockingConnection

/-- What a step must not do: hand `generate_packet` a packet that does not fit
its fields, or get an exception from `heartbeat_func`. -/
def writesFit (l : Label) (s : SharedBlockingConnection) : Bool :=
  match l with
  | .writeCheck e now => e.expired now || decide (Encodable (e.transactionId, e.buff))
  | .writeBeat _ heartbeat =>
      decide (s.heartbeats.maxSize ≤ s.heartbeats.currentSize) || heartbeat.isOk
  | _ => true

theorem writesFit_check {e : PendingWrite} {now : ℤ} {s : SharedBlockingConnection} :
    writesFit (.writeCheck e now) s = true ↔
      (e.expired now = false → Encodable (e.transactionId, e.buff)) := by
  cases h : e.expired now <;> simp [writesFit, h]

theorem writesFit_beat {now : ℤ} {heartbeat : Except Exc Body} {s : SharedBlockingConnection} :
    writesFit (.writeBeat now heartbeat) s = true ↔
      (s.heartbeats.currentSize < s.heartbeats.maxSize → heartbeat.isOk = true) := by
  rcases Nat.lt_or_ge s.heartbeats.currentSize s.heartbeats.maxSize with h | h
  · simp [writesFit, h, Nat.not_le.mpr h]
  · simp [writesFit, h, Nat.not_lt.mpr h]

/-- The write thread has ended. -/
def WriteThreadTerminated (s : SharedBlockingConnection) : Prop :=
  s.writeSide.pc = .exited ∨ s.writeSide.pc = .died

/-! ## Ownership over the steps -/

/-- Ending the two threads after `close()` moves no entry. -/
theorem owns_returnFromClose {s : SharedBlockingConnection} {c : Thread}
    (h : s.writeSide.Owns s.heartbeats) (hc : c = .writeThread → s.writeSide.pc.inClose = true) :
    (s.returnFromClose c).writeSide.Owns s.heartbeats := by
  unfold returnFromClose
  by_cases heq : c = .writeThread
  · simp only [if_pos heq]
    refine WriteSide.owns_congr h rfl rfl rfl ?_
    exact (WritePc.held_of_inClose (hc heq)).symm
  · simp only [if_neg heq]
    exact h

/-- A heartbeat is an entry whose future is stored instead of returned. -/
theorem owns_insertHeartbeat {s : SharedBlockingConnection} (cfg : Config) (now : ℤ)
    {heartbeat : Except Exc Body}
    (hfit : s.heartbeats.currentSize < s.heartbeats.maxSize → heartbeat.isOk = true)
    (h : s.writeSide.Owns s.heartbeats) (hpc : s.writeSide.pc = .woken) :
    (s.insertHeartbeat cfg now heartbeat).writeSide.Owns
      (s.insertHeartbeat cfg now heartbeat).heartbeats := by
  have hlive : s.writeSide.live = s.writeSide.pendingWrites.elements := by
    simp [WriteSide.live, hpc, WritePc.held]
  unfold insertHeartbeat
  split
  · rename_i hroom
    cases heartbeat with
    | error ex => cases hfit hroom
    | ok buff =>
    simp only
    split
    · rename_i ex w heq
      rcases WriteSide.updatePendingWrites_error heq with ⟨gen, rfl⟩
      show Owned s.writeSide.futures.create s.writeSide.pendingWrites.elements _ _
      rw [← hlive]
      exact h.create
    · rename_i f tid w heq
      rcases WriteSide.updatePendingWrites_ok heq with ⟨hf, l, gen, hl, rfl⟩
      have hins := h.insert (e := ⟨buff, f, tid, now, cfg.heartbeatInterval⟩) hf
      show Owned s.writeSide.futures.create l.elements s.writeSide.returns _
      rw [hl, ← hlive]
      apply hins.storeHeartbeat
      · rw [Futures.count_create, hf]
        exact Nat.lt_succ_self _
      · intro t hret
        have hlt := h.returned_lt t f hret
        omega
  · exact WriteSide.owns_congr h rfl rfl rfl (by rw [hpc]; rfl)

theorem owns_answerHeartbeat {s : SharedBlockingConnection} (p : Packet)
    (h : s.writeSide.Owns s.heartbeats) :
    (s.answerHeartbeat p).writeSide.Owns (s.answerHeartbeat p).heartbeats := by
  unfold answerHeartbeat
  split
  · rename_i f hb heq
    rcases LRUCache.getItem_some heq with ⟨b, hb, _, rfl, rfl⟩
    apply h.answer hb
    intro d hd
    exact LRUCache.mem_touch.mp (LRUCache.mem_erase.mp hd).1
  · exact h

theorem owns_step {cfg : Config} {l : Label} {s : SharedBlockingConnection}
    (hg : guard cfg l s) (hfit : writesFit l s = true) (hstop : WriteStop s.writeSide s.flags)
    (h : s.writeSide.Owns s.heartbeats) :
    (update cfg l s).writeSide.Owns (update cfg l s).heartbeats := by
  cases l with
  | writeEnter buff timeout => exact WriteSide.owns_enterWrite h _ _ _
  | writeCommit buff timeout now => exact WriteSide.owns_commitWrite h _ _ _
  | closeReturn c =>
      apply owns_returnFromClose (s := { s with flags := s.flags.release c }) h
      rintro rfl
      exact hg.1
  | closeDone c =>
      apply owns_returnFromClose
        (s := { s with flags := { s.flags with closing := false, closer := none } }) h
      rintro rfl
      exact hstop.inside (Or.inr ⟨_, hg⟩)
  | closeWrite c => exact WriteSide.owns_close h
  | writeMissing wakeup =>
      refine WriteSide.owns_congr h rfl rfl rfl ?_
      rw [show s.writeSide.pc = _ from hg]
      rfl
  | writeNotify =>
      refine WriteSide.owns_congr h rfl rfl rfl ?_
      rw [hg.1]
      rfl
  | writeAcquire =>
      show (s.writeSide.acquire _).Owns s.heartbeats
      unfold WriteSide.acquire
      split <;> exact WriteSide.owns_congr h rfl rfl rfl (by rw [hg.1]; rfl)
  | writeTake => exact WriteSide.owns_take h hg
  | writeWake notified =>
      show (s.writeSide.wake _ _).Owns s.heartbeats
      unfold WriteSide.wake
      split <;> exact WriteSide.owns_congr h rfl rfl rfl (by rw [hg.1]; rfl)
  | writeBeat now heartbeat =>
      exact owns_insertHeartbeat cfg now (writesFit_beat.mp hfit) h hg.1
  | writeCheck e now => exact WriteSide.owns_check h hg (writesFit_check.mp hfit)
  | writeSend e rest k =>
      refine WriteSide.owns_congr h rfl rfl rfl ?_
      rw [hg.1]
      rfl
  | writeFinish e => exact WriteSide.owns_finish h hg
  | writeFail e rest timedOut => exact WriteSide.owns_fail h hg.1 timedOut
  | readHeartbeat p => exact owns_answerHeartbeat p h
  | _ => exact h

/-! ## The end of the write thread over the steps -/

theorem stop_returnFromClose {s : SharedBlockingConnection} {c : Thread} (flags : CloseFlags)
    (h : WriteStop s.writeSide s.flags) (htest : flags.test = true)
    (hreached : flags.Reached .writesClosed → s.flags.Reached .writesClosed)
    (hinside : flags.Inside .writeThread → s.flags.Inside .writeThread ∧ c ≠ .writeThread) :
    WriteStop (({ s with flags := flags } : SharedBlockingConnection).returnFromClose c).writeSide
      { flags with returns := flags.returns ++ [c] } := by
  unfold returnFromClose
  by_cases heq : c = .writeThread
  · simp only [if_pos heq]
    constructor
    · intro _
      exact htest
    · nofun
    · intro hr
      exact h.drained (hreached hr)
    · intro hi
      exact absurd heq (hinside hi).2
  · simp only [if_neg heq]
    constructor
    · intro _
      exact htest
    · exact h.alive
    · intro hr
      exact h.drained (hreached hr)
    · intro hi
      exact h.inside (hinside hi).1

/-- The steps of `close()` that only move the flags. -/
theorem stop_flags {cfg : Config} {l : Label} {s : SharedBlockingConnection}
    (hg : guard cfg l s) (hok : s.flags.Ok) (h : WriteStop s.writeSide s.flags)
    (hside : (update cfg l s).writeSide = s.writeSide) (hwrite : ∀ c, l ≠ .closeWrite c) :
    WriteStop (update cfg l s).writeSide (update cfg l s).flags := by
  rw [hside]
  constructor
  · intro hpc
    exact test_update hg hok (h.exited hpc)
  · exact h.alive
  · intro hr
    rcases reached_writesClosed hg hr with hold | ⟨c, hl⟩
    · exact h.drained hold
    · exact absurd hl (hwrite c)
  · intro hi
    rcases (inside_update hg hok hi).1 with hold | ⟨_, hmay⟩
    · exact h.inside hold
    · exact hmay

theorem stop_insertHeartbeat {s : SharedBlockingConnection} (cfg : Config) (now : ℤ)
    {heartbeat : Except Exc Body}
    (hfit : s.heartbeats.currentSize < s.heartbeats.maxSize → heartbeat.isOk = true)
    (hpc : s.writeSide.pc = .woken) (hblocks : WriteBlocks s.writeSide)
    (h : WriteStop s.writeSide s.flags) :
    WriteStop (s.insertHeartbeat cfg now heartbeat).writeSide s.flags := by
  have hin : s.writeSide.pc.inClose = false := by rw [hpc]; rfl
  have hcond : s.writeSide.condition ≠ .free := by
    rw [hblocks.holder (by rw [hpc]; rfl)]
    nofun
  have hopen := h.not_reached hcond
  unfold insertHeartbeat
  split
  · rename_i hroom
    cases heartbeat with
    | error ex => cases hfit hroom
    | ok buff =>
    simp only
    split
    · -- the queue is empty, so there is a free node
      rename_i ex w heq
      exact absurd heq (WriteSide.updatePendingWrites_of_empty (hblocks.empty hpc))
    · exact h.ofThread hin nofun nofun (fun hr => absurd hr hopen)
  · exact h.ofThread hin nofun nofun (fun hr => absurd hr hopen)

theorem stop_commitWrite {w : WriteSide} {c : CloseFlags} {buff : Body} {timeout : Option ℤ}
    (hg : w.condition = .client buff timeout) (h : WriteStop w c) (now : ℤ) :
    WriteStop (w.commitWrite buff timeout now) c := by
  have hopen : ¬ c.Reached .writesClosed := h.not_reached (by rw [hg]; nofun)
  unfold WriteSide.commitWrite
  split
  · exact ⟨h.exited, h.alive, fun hr => absurd hr hopen, h.inside⟩
  · split
    · rename_i f tid w' heq
      rcases WriteSide.updatePendingWrites_ok heq with ⟨_, l, gen, _, rfl⟩
      have h' : WriteStop { w with
          pendingWrites := l, futures := w.futures.create, idGenerator := gen } c :=
        ⟨h.exited, h.alive, fun hr => absurd hr hopen, h.inside⟩
      exact ⟨h'.notifyAll.exited, h'.notifyAll.alive, fun hr => absurd hr hopen,
        h'.notifyAll.inside⟩
    · rename_i ex w' heq
      rcases WriteSide.updatePendingWrites_error heq with ⟨gen, rfl⟩
      exact ⟨h.exited, h.alive, fun hr => absurd hr hopen, h.inside⟩

/-- `_close_write` empties the queue. -/
theorem stop_closeWrite {cfg : Config} {s : SharedBlockingConnection} {c : Thread}
    (hg : guard cfg (.closeWrite c) s) (h : WriteStop s.writeSide s.flags) :
    WriteStop s.writeSide.close { s.flags with closer := some (c, .writesClosed) } := by
  have h' : WriteStop { s.writeSide with
      futures := s.writeSide.futures.failAll
        (s.writeSide.pendingWrites.elements.map PendingWrite.future) writeAbort
      pendingWrites :=
        { s.writeSide.pendingWrites with elements := [], length_le := Nat.zero_le _ } } s.flags :=
    ⟨h.exited, h.alive, fun hr => ⟨rfl, (h.drained hr).2⟩, h.inside⟩
  have hn := h'.notifyAll
  refine ⟨hn.exited, hn.alive, ?_, ?_⟩
  · intro _
    show (WriteSide.notifyAll _).pendingWrites.elements = [] ∧
      (WriteSide.notifyAll _).condition = .free
    rw [WriteSide.notifyAll_pendingWrites, WriteSide.notifyAll_condition]
    exact ⟨rfl, hg.2⟩
  · intro hi
    apply hn.inside
    rcases hi with hlock | ⟨ph, hcloser⟩
    · exact Or.inl hlock
    · cases hcloser
      exact Or.inr ⟨_, hg.1⟩

theorem stop_enterWrite {w : WriteSide} {c : CloseFlags} (hok : c.Ok) (h : WriteStop w c)
    (buff : Body) (timeout : Option ℤ) : WriteStop (w.enterWrite c.test buff timeout) c := by
  unfold WriteSide.enterWrite
  split
  · exact h.congr rfl rfl rfl
  · -- with the flags clear `_close_write` has not been passed
    rename_i htest
    have hopen := hok.not_reached_of_test htest .writesClosed
    exact ⟨h.exited, h.alive, fun hr => absurd hr hopen, h.inside⟩

theorem stop_acquire {w : WriteSide} {c : CloseFlags} (hpc : w.pc.inClose = false) (hok : c.Ok)
    (h : WriteStop w c) : WriteStop (w.acquire c.test) c := by
  unfold WriteSide.acquire
  split
  · rename_i htest
    exact h.ofThread hpc (fun _ => htest) nofun h.drained
  · rename_i htest
    have hopen := hok.not_reached_of_test htest .writesClosed
    exact h.ofThread hpc nofun nofun (fun hr => absurd hr hopen)

/-- The thread has the condition, so `_close_write` has not been passed. -/
theorem stop_take {w : WriteSide} {c : CloseFlags} (hpc : w.pc = .locked)
    (hblocks : WriteBlocks w) (h : WriteStop w c) : WriteStop w.take c := by
  have hin : w.pc.inClose = false := by rw [hpc]; rfl
  have hcond : w.condition ≠ .free := by
    rw [hblocks.holder (by rw [hpc]; rfl)]
    nofun
  have hopen := h.not_reached hcond
  unfold WriteSide.take
  split <;> exact h.ofThread hin nofun nofun (fun hr => absurd hr hopen)

theorem stop_wake {w : WriteSide} {c : CloseFlags} (hpc : w.pc.inClose = false) (hok : c.Ok)
    (h : WriteStop w c) (heartbeats : Bool) : WriteStop (w.wake c.test heartbeats) c := by
  unfold WriteSide.wake
  split
  · rename_i hc
    simp only [Bool.and_eq_true, decide_eq_true_eq, Bool.not_eq_true'] at hc
    have hopen := hok.not_reached_of_test (by rw [hc.1.1]; exact Bool.false_ne_true) .writesClosed
    exact h.ofThread hpc nofun nofun (fun hr => absurd hr hopen)
  · exact h.ofThread hpc nofun nofun h.drained

/-- An expired entry has its future resolved, and another one can be encoded. -/
theorem stop_check {w : WriteSide} {c : CloseFlags} {e : PendingWrite} {now : ℤ}
    (hpc : w.pc.inClose = false) (h : WriteStop w c)
    (hfit : e.expired now = false → Encodable (e.transactionId, e.buff)) :
    WriteStop (w.check e now) c := by
  unfold WriteSide.check
  split
  · exact h.ofThread hpc nofun nofun h.drained
  · rename_i hexp
    rw [generatePacket_ok (hfit (by simpa using hexp))]
    exact h.ofThread hpc nofun nofun h.drained

/-- Only a call that finds the connection closing or closed returns at once. -/
theorem stop_closeReturn {cfg : Config} {s : SharedBlockingConnection} {c : Thread}
    (hg : guard cfg (.closeReturn c) s) (hok : s.flags.Ok) (h : WriteStop s.writeSide s.flags) :
    WriteStop (update cfg (.closeReturn c) s).writeSide (update cfg (.closeReturn c) s).flags := by
  have htest : s.flags.test = true := by
    rw [CloseFlags.test_eq_true]
    exact hg.2.2.imp_right And.left
  apply stop_returnFromClose (s.flags.release c) h htest id
  intro hi
  have hold := inside_update (l := .closeReturn c) hg hok hi
  exact ⟨hold.1.resolve_right nofun, fun heq => hold.2.1 (by rw [heq])⟩

theorem stop_closeDone {cfg : Config} {s : SharedBlockingConnection} {c : Thread}
    (hg : guard cfg (.closeDone c) s) (hok : s.flags.Ok) (h : WriteStop s.writeSide s.flags) :
    WriteStop (update cfg (.closeDone c) s).writeSide (update cfg (.closeDone c) s).flags := by
  have hclosed := hok.closed_of_closedSet c hg
  apply stop_returnFromClose { s.flags with closing := false, closer := none } h
  · exact CloseFlags.test_eq_true.mpr (Or.inr hclosed)
  · intro _
    exact Or.inl hclosed
  · intro hi
    have hold := inside_update (l := .closeDone c) hg hok hi
    exact ⟨hold.1.resolve_right nofun, fun heq => hold.2.2 (by rw [heq])⟩

theorem stop_step {cfg : Config} {l : Label} {s : SharedBlockingConnection}
    (hg : guard cfg l s) (hfit : writesFit l s = true) (hok : s.flags.Ok)
    (hblocks : WriteBlocks s.writeSide) (h : WriteStop s.writeSide s.flags) :
    WriteStop (update cfg l s).writeSide (update cfg l s).flags := by
  cases l with
  | writeEnter buff timeout => exact stop_enterWrite hok h _ _
  | writeCommit buff timeout now =>
      have hg' : s.writeSide.condition = .client buff timeout := hg
      exact stop_commitWrite hg' h now
  | writeAcquire => exact stop_acquire (by rw [hg.1]; rfl) hok h
  | writeTake => exact stop_take hg hblocks h
  | writeWake notified => exact stop_wake (by rw [hg.1]; rfl) hok h _
  | writeBeat now heartbeat =>
      have hflags : (update cfg (.writeBeat now heartbeat) s).flags = s.flags :=
        flags_insertHeartbeat _ _ _ _
      rw [hflags]
      exact stop_insertHeartbeat cfg now (writesFit_beat.mp hfit) hg.1 hblocks h
  | writeCheck e now =>
      have hpc : s.writeSide.pc = .holding e := hg
      exact stop_check (by rw [hpc]; rfl) h (writesFit_check.mp hfit)
  | writeMissing wakeup =>
      have hin : s.writeSide.pc.inClose = false := by
        rw [show s.writeSide.pc = _ from hg]
        rfl
      exact h.ofThread hin nofun nofun h.drained
  | writeFinish e =>
      have hin : s.writeSide.pc.inClose = false := by
        rw [show s.writeSide.pc = _ from hg]
        rfl
      exact h.ofThread hin nofun nofun h.drained
  | writeNotify | writeSend _ _ _ | writeFail _ _ _ =>
      have hin : s.writeSide.pc.inClose = false := by rw [hg.1]; rfl
      exact h.ofThread hin nofun nofun h.drained
  | closeReturn c => exact stop_closeReturn hg hok h
  | closeDone c => exact stop_closeDone hg hok h
  | closeWrite c => exact stop_closeWrite hg h
  | readHeartbeat p =>
      show WriteStop (s.answerHeartbeat p).writeSide (s.answerHeartbeat p).flags
      rw [flags_answerHeartbeat]
      unfold answerHeartbeat
      split
      · exact h.congr rfl rfl rfl
      · exact h
  | _ => exact stop_flags hg hok h rfl nofun

/-! ## No future of `write` is stranded -/

/-- What a state promises the callers of `write`. -/
structure NoWriteStranded (s : SharedBlockingConnection) : Prop where
  /-- a future is unresolved only while its entry waits in `_pending_writes` or is
  held by the running write thread -/
  waiting : ∀ tid f, s.writeSide.Returned tid f → ¬ s.writeSide.futures.Resolved f →
    (∃ e ∈ s.writeSide.pendingWrites.elements, e.future = f ∧ e.transactionId = tid) ∨
      (¬ s.WriteThreadTerminated ∧
        ∃ e ∈ s.writeSide.pc.held, e.future = f ∧ e.transactionId = tid)
  once : ∀ tid f, s.writeSide.Returned tid f → (s.writeSide.futures.calls f).length ≤ 1
  stopped : s.WriteThreadTerminated → s.flags.closing = true ∨ s.flags.closed = true
  /-- after the call of `close` that closes the connection, and the write thread -/
  settled : s.flags.closed = true → s.WriteThreadTerminated →
    ∀ tid f, s.writeSide.Returned tid f → (s.writeSide.futures.calls f).length = 1

/-- The two invariants of the write side, with the flags. -/
structure WriteInv (s : SharedBlockingConnection) : Prop where
  flags : s.flags.Ok
  blocks : WriteBlocks s.writeSide
  stop : WriteStop s.writeSide s.flags
  owns : s.writeSide.Owns s.heartbeats

theorem newPendingWrites_elements (n : Option ℕ) : (newPendingWrites n).elements = [] := by
  unfold newPendingWrites
  split <;> rfl

theorem stop_new (cfg : Config) : WriteStop (new cfg).writeSide (new cfg).flags := by
  constructor
  · intro h
    cases h
  · intro h
    cases h
  · intro _
    exact ⟨newPendingWrites_elements _, rfl⟩
  · rintro (h | ⟨ph, h⟩)
    · cases h
    · cases h

theorem owns_new (cfg : Config) : (new cfg).writeSide.Owns (new cfg).heartbeats := by
  have hlive : (new cfg).writeSide.live = [] := newPendingWrites_elements _
  unfold WriteSide.Owns
  rw [hlive]
  constructor
  · exact Futures.fresh_empty
  · intro e he
    cases he
  · exact List.nodup_nil
  · intro tid f hr
    cases hr
  · intro tid f hr
    cases hr
  · intro tid f hr
    cases hr
  · intro tid f hr
    cases hr
  · intro b hb
    cases hb

/-- A new connection satisfies them. -/
theorem writeInv_new (cfg : Config) : WriteInv (new cfg) where
  flags := flags_new cfg
  blocks := WriteBlocks.outside rfl
  stop := stop_new cfg
  owns := owns_new cfg

/-- One step keeps both invariants. -/
theorem writeInv_step {cfg : Config} {l : Label} {s : SharedBlockingConnection}
    (hg : guard cfg l s) (hfit : writesFit l s = true) (h : WriteInv s) :
    WriteInv (update cfg l s) where
  flags := flags_step hg h.flags
  blocks := blocks_step hg h.blocks
  stop := stop_step hg hfit h.flags h.blocks h.stop
  owns := owns_step hg hfit h.stop h.owns

/-- Both invariants hold in every run. -/
theorem writeInv_reachable (cfg : Config) :
    ∀ s, ((system cfg).restrict (fun l s => writesFit l s)).Reachable s → WriteInv s := by
  apply Lts.Spec.invariant
  · rintro s rfl
    exact writeInv_new cfg
  · intro l s hg h
    exact writeInv_step hg.1 hg.2 h

theorem WriteInv.noWriteStranded {s : SharedBlockingConnection} (h : WriteInv s) :
    NoWriteStranded s := by
  have hterm : ∀ e, e ∈ s.writeSide.pc.held → ¬ s.WriteThreadTerminated := by
    rintro e he (hpc | hpc)
    · rw [hpc] at he
      cases he
    · rw [hpc] at he
      cases he
  have hwaiting : ∀ tid f, s.writeSide.Returned tid f → ¬ s.writeSide.futures.Resolved f →
      (∃ e ∈ s.writeSide.pendingWrites.elements, e.future = f ∧ e.transactionId = tid) ∨
        (¬ s.WriteThreadTerminated ∧
          ∃ e ∈ s.writeSide.pc.held, e.future = f ∧ e.transactionId = tid) := by
    intro tid f hr hopen
    rcases h.owns.returned_open tid f hr (not_not.mp hopen) with ⟨e, he, hf⟩
    rcases List.mem_append.mp he with hheld | hqueue
    · exact Or.inr ⟨hterm e hheld, e, hheld, hf⟩
    · exact Or.inl ⟨e, hqueue, hf⟩
  refine ⟨hwaiting, h.owns.returned_once, ?_, ?_⟩
  · rintro (hpc | hpc)
    · exact CloseFlags.test_eq_true.mp (h.stop.exited hpc)
    · exact absurd hpc h.stop.alive
  · intro hclosed hend tid f hr
    have hempty := (h.stop.drained (Or.inl hclosed)).1
    have hle := h.owns.returned_once tid f hr
    have hres : s.writeSide.futures.Resolved f := by
      by_contra hopen
      rcases hwaiting tid f hr hopen with ⟨e, he, _⟩ | ⟨hrun, _⟩
      · rw [hempty] at he
        cases he
      · exact hrun hend
    have hpos := List.length_pos_iff.mpr hres
    omega

/-- In every run whose packets fit and whose `heartbeat_func` does not raise, no
future of `write` is stranded in any state. -/
theorem no_write_stranded (cfg : Config) :
    ∀ s, ((system cfg).restrict (fun l s => writesFit l s)).Reachable s → NoWriteStranded s := by
  intro s hr
  exact (writeInv_reachable cfg s hr).noWriteStranded

/-- `SharedBlockingConnection(socket, transport)` -/
def defaultConfig : Config where
  maxPendingWrites := none
  maxPendingReads := none
  maxPoolingReads := none
  writeTimeout := some 60
  heartbeatInterval := none
  heartbeatFunc := false

/-- One entry is sent, a second one still waits when a client closes the
connection. -/
def closeWhileWaiting : List Label :=
  let e : PendingWrite := ⟨[7], 0, 1, 100, some 60⟩
  let data : List UInt8 := [0, 0, 0, 1, 0, 0, 0, 1, 7]
  [.writeEnter [7] none, .writeCommit [7] (some 60) 100, .writeAcquire, .writeTake,
    .writeCheck e 101, .writeSend e data 9, .writeFinish e,
    .writeEnter [8, 9] (some 5), .writeCommit [8, 9] (some 5) 102,
    .closeTest (.client 1), .closeFlag (.client 1), .closeSocket (.client 1),
    .closeWrite (.client 1), .closeRead (.client 1), .closeSet (.client 1), .closeDone (.client 1),
    .writeAcquire]

/-- The run above: both futures are resolved, each once. -/
theorem no_write_stranded_closed :
    let s := ((system defaultConfig).restrict (fun l s => writesFit l s)).run closeWhileWaiting
      (new defaultConfig)
    s.flags.closed = true ∧ s.writeSide.pc = .exited ∧
      s.writeSide.returns = [.ok (1, 0), .ok (2, 1)] ∧ NoWriteStranded s := by
  refine ⟨by decide, by decide, by decide, ?_⟩
  exact no_write_stranded defaultConfig _ ((Lts.Spec.Reachable.init rfl).run _)

/-! ## The steps that end the write thread

Both steps that `writesFit` excludes leave the write thread dead, and nobody
closes the connection.
-/

/-- The condition is exact on an open connection: any step that does not meet it
leads to a state in which the write thread has ended and nothing is closed. -/
theorem writeThread_dies (cfg : Config) {l : Label} {s : SharedBlockingConnection}
    (hfit : writesFit l s = false) (hopen : s.flags.test = false) :
    ¬ NoWriteStranded (update cfg l s) := by
  have hdied : (update cfg l s).writeSide.pc = .died ∧ (update cfg l s).flags = s.flags := by
    cases l with
    | writeCheck e now =>
        rw [← Bool.not_eq_true, writesFit_check, Classical.not_imp] at hfit
        refine ⟨?_, rfl⟩
        show (s.writeSide.check e now).pc = .died
        unfold WriteSide.check
        rw [hfit.1, generatePacket_eq, if_neg hfit.2]
        rfl
    | writeBeat now heartbeat =>
        rw [← Bool.not_eq_true, writesFit_beat, Classical.not_imp] at hfit
        refine ⟨?_, flags_insertHeartbeat _ _ _ _⟩
        show (s.insertHeartbeat cfg now heartbeat).writeSide.pc = .died
        unfold insertHeartbeat
        rw [if_pos hfit.1]
        cases heartbeat with
        | error ex => rfl
        | ok buff => exact absurd rfl hfit.2
    | _ => cases hfit
  intro h
  have hstop := CloseFlags.test_eq_true.mpr (h.stopped (Or.inr hdied.1))
  rw [hdied.2, hopen] at hstop
  cases hstop

/-- The connection after one call of `write`, whose entry the write thread holds. -/
def afterOneWrite (body : Body) : SharedBlockingConnection :=
  [.writeEnter body none, .writeCommit body (some 60) 0, .writeAcquire, .writeTake].foldl
    (fun s l => update defaultConfig l s) (new defaultConfig)

theorem reachable_afterOneWrite (body : Body) :
    (system defaultConfig).Reachable (afterOneWrite body) := by
  have h0 : (system defaultConfig).Reachable (new defaultConfig) := Lts.Spec.Reachable.init rfl
  have h1 := h0.step (Label.writeEnter body none) rfl
  have h2 := h1.step (Label.writeCommit body (some 60) 0) rfl
  have h3 := h2.step Label.writeAcquire ⟨rfl, rfl⟩
  exact h3.step Label.writeTake rfl

/-- A body of `2 ^ 32` bytes: its length does not fit the head of the packet, the
write thread ends with `struct.error`, and the future is never resolved. -/
theorem write_stranded :
    ¬ ∀ s, (system defaultConfig).Reachable s → NoWriteStranded s := by
  intro h
  have hbody : ¬ Encodable (1, List.replicate (2 ^ 32) (0 : UInt8)) := by
    rintro ⟨_, hlen⟩
    rw [List.length_replicate] at hlen
    exact absurd hlen (Nat.lt_irrefl _)
  generalize List.replicate (2 ^ 32) (0 : UInt8) = body at hbody
  let e : PendingWrite := ⟨body, 0, 1, 0, some 60⟩
  have hnext := (reachable_afterOneWrite body).step (Label.writeCheck e 0) rfl
  have hfit : writesFit (.writeCheck e 0) (afterOneWrite body) = false := by
    rw [← Bool.not_eq_true, writesFit_check]
    intro hf
    exact hbody (hf rfl)
  exact writeThread_dies defaultConfig hfit rfl (h _ hnext)

end SharedBlockingConnection

end SummerRpc
