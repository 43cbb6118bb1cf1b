import SummerRpc.Connection.WriteFutures
import SummerRpc.Connection.Heartbeats

/-! # No lost wakeup

Both threads sleep in `wait` until they are notified. A thread that sleeps
un-notified must have nothing to do.

* `writer_asleep`, `reader_asleep`: the one block that puts a thread to sleep, and
  what the steps that leave it asleep have not done;
* `OwesNotify`: a heartbeat is inserted under `_heartbeat_lock`, and the read thread
  hears of it in the next turn of the write thread's loop;
* `no_lost_wakeup`: the invariant, over every run;
* `second_close_returns_early`: a call of `close()` that finds another one under way
  returns while a thread still sleeps.
-/

namespace SummerRpc

/-- In `wait`, and not notified. -/
def WritePc.asleep : WritePc → Bool
  | .waiting notified => !notified
  | _ => false

/-- In `wait`, and not notified. -/
def ReadPc.asleep : ReadPc → Bool
  | .waiting notified => !notified
  | _ => false

theorem WriteSide.notifyAll_awake (w : WriteSide) : w.notifyAll.pc.asleep = false := by
  unfold notifyAll
  split
  · rfl
  · rename_i hpc
    cases heq : w.pc with
    | waiting b => exact absurd heq (hpc b)
    | _ => rfl

theorem ReadSide.notifyAll_awake (r : ReadSide) : r.notifyAll.pc.asleep = false := by
  unfold notifyAll
  split
  · rfl
  · rename_i hpc
    cases heq : r.pc with
    | waiting b => exact absurd heq (hpc b)
    | _ => rfl

/-! ## The blocks that store an entry -/

/-- `write` leaves the write thread asleep only if it has stored nothing. -/
theorem WriteSide.commitWrite_asleep {w : WriteSide} {buff : Body} {timeout : Option ℤ} {now : ℤ}
    (h : (w.commitWrite buff timeout now).pc.asleep = true) :
    w.pc.asleep = true ∧ (w.commitWrite buff timeout now).pendingWrites = w.pendingWrites := by
  unfold commitWrite at h ⊢
  split
  · rename_i hfull
    rw [if_pos hfull] at h
    exact ⟨h, rfl⟩
  · rename_i hfull
    rw [if_neg hfull] at h
    split
    · -- the entry is stored, and the thread notified
      rename_i f tid w' heq
      rw [heq] at h
      have hawake : w'.notifyAll.pc.asleep = true := h
      rw [w'.notifyAll_awake] at hawake
      cases hawake
    · rename_i ex w' heq
      rcases updatePendingWrites_error heq with ⟨gen, rfl⟩
      rw [heq] at h
      exact ⟨h, rfl⟩

/-- `read` leaves the read thread asleep only if it has stored nothing. -/
theorem ReadSide.commitRead_asleep {r : ReadSide} {tid : ℕ}
    (h : (r.commitRead tid).pc.asleep = true) :
    r.pc.asleep = true ∧
      ((r.commitRead tid).pendingReads = r.pendingReads ∨
        (r.commitRead tid).pendingReads = r.pendingReads.touch tid) := by
  rcases r.commitRead_cases tid with ⟨_, _, _, heq⟩ | ⟨_, _, _, heq⟩ | ⟨_, heq⟩
  · rw [heq] at h ⊢
    exact ⟨h, Or.inl rfl⟩
  · rw [heq] at h ⊢
    exact ⟨h, Or.inr rfl⟩
  · -- a new future is stored, and the thread notified
    have hawake : (r.failKickedOut.storeRead tid).pc.asleep = false := notifyAll_awake _
    rw [heq, hawake] at h
    cases h

namespace SharedBlockingConnection

/-! ## How a thread falls asleep -/

/-- A thread that returns from `close()` ends. -/
theorem returnFromClose_asleep {s : SharedBlockingConnection} {c : Thread} {l : Label}
    {wakes : Prop} (h : (s.returnFromClose c).writeSide.pc.asleep = true)
    (hl : ∀ c, l ≠ .closeWrite c) :
    wakes ∨ (s.writeSide.pc.asleep = true ∧ (∀ c, l ≠ .closeWrite c) ∧
      (s.returnFromClose c).writeSide.pendingWrites = s.writeSide.pendingWrites) := by
  unfold returnFromClose at h ⊢
  by_cases heq : c = .writeThread
  · simp only [if_pos heq] at h
    cases h
  · simp only [if_neg heq] at h ⊢
    exact Or.inr ⟨h, hl, trivial⟩

/-- The write thread falls asleep on an empty queue, and while it sleeps the queue
stays as it is. -/
theorem writer_asleep {cfg : Config} {l : Label} {s : SharedBlockingConnection}
    (h : (update cfg l s).writeSide.pc.asleep = true) :
    (l = .writeTake ∧ (update cfg l s).writeSide.pendingWrites.elements = []) ∨
      (s.writeSide.pc.asleep = true ∧ (∀ c, l ≠ .closeWrite c) ∧
        (update cfg l s).writeSide.pendingWrites = s.writeSide.pendingWrites) := by
  cases l with
  | writeTake =>
      left
      refine ⟨rfl, ?_⟩
      show s.writeSide.take.pendingWrites.elements = []
      have htake : s.writeSide.take.pc.asleep = true := h
      unfold WriteSide.take at htake ⊢
      split
      · -- `pop_left` raises on the empty queue, and the thread waits
        rename_i ex heq
        exact StaticList.popLeft_error_iff.mp ⟨ex, heq⟩
      · rename_i e l heq
        rw [heq] at htake
        cases htake
  | writeEnter buff timeout =>
      right
      have hpc : (s.writeSide.enterWrite s.flags.test buff (cfg.timeoutOr timeout)).pc =
          s.writeSide.pc ∧
          (s.writeSide.enterWrite s.flags.test buff (cfg.timeoutOr timeout)).pendingWrites =
            s.writeSide.pendingWrites := by
        unfold WriteSide.enterWrite
        split <;> exact ⟨rfl, rfl⟩
      refine ⟨?_, nofun, hpc.2⟩
      rw [← hpc.1]
      exact h
  | writeCommit buff timeout now =>
      have hcommit := WriteSide.commitWrite_asleep h
      exact Or.inr ⟨hcommit.1, nofun, hcommit.2⟩
  | closeWrite c =>
      -- `_close_write` notifies the thread after it has emptied the queue
      have hawake : (update cfg (.closeWrite c) s).writeSide.pc.asleep = false :=
        WriteSide.notifyAll_awake _
      rw [hawake] at h
      cases h
  | closeReturn c => exact returnFromClose_asleep h nofun
  | closeDone c => exact returnFromClose_asleep h nofun
  | writeMissing wakeup => cases h
  | writeNotify => cases h
  | writeAcquire =>
      have hacq : (s.writeSide.acquire s.flags.test).pc.asleep = true := h
      unfold WriteSide.acquire at hacq
      split at hacq <;> cases hacq
  | writeWake notified =>
      have hwake : (s.writeSide.wake s.flags.test
        (cfg.heartbeatFunc && cfg.heartbeatInterval.isSome)).pc.asleep = true := h
      unfold WriteSide.wake at hwake
      split at hwake <;> cases hwake
  | writeBeat now heartbeat =>
      have hbeat : (s.insertHeartbeat cfg now heartbeat).writeSide.pc.asleep = true := h
      unfold insertHeartbeat at hbeat
      split at hbeat
      · split at hbeat
        · cases hbeat
        · split at hbeat <;> cases hbeat
      · cases hbeat
  | writeCheck e now =>
      have hcheck : (s.writeSide.check e now).pc.asleep = true := h
      unfold WriteSide.check at hcheck
      split at hcheck
      · cases hcheck
      · split at hcheck <;> cases hcheck
  | writeSend e rest k => cases h
  | writeFinish e => cases h
  | writeFail e rest timedOut => cases h
  | readHeartbeat p =>
      have hans : (s.answerHeartbeat p).writeSide.pc = s.writeSide.pc ∧
          (s.answerHeartbeat p).writeSide.pendingWrites = s.writeSide.pendingWrites := by
        unfold answerHeartbeat
        split <;> exact ⟨rfl, rfl⟩
      refine Or.inr ⟨?_, nofun, hans.2⟩
      rw [← hans.1]
      exact h
  | _ => exact Or.inr ⟨h, nofun, rfl⟩

/-- A read thread that sleeps is not the one `close()` returns to. -/
theorem ReadSide.exit_asleep {r : ReadSide} {c : Thread}
    (h : (if c = .readThread then { r with pc := .exited } else r).pc.asleep = true) :
    (if c = .readThread then { r with pc := .exited } else r) = r := by
  split
  · rename_i heq
    rw [if_pos heq] at h
    cases h
  · rfl

/-- The read thread falls asleep when nobody waits for a response, and while it
sleeps nobody comes to. -/
theorem reader_asleep {cfg : Config} {l : Label} {s : SharedBlockingConnection}
    (h : (update cfg l s).readSide.pc.asleep = true) :
    (l = .readLook ∧ (update cfg l s).readSide.pendingReads.entries = [] ∧
      s.heartbeats.entries = []) ∨
      (s.readSide.pc.asleep = true ∧ (∀ c, l ≠ .closeRead c) ∧ l ≠ .writeNotify ∧
        (s.readSide.pendingReads.entries = [] →
          (update cfg l s).readSide.pendingReads.entries = [])) := by
  rw [readSide_update] at h ⊢
  cases l with
  | readLook =>
      have hlook : (s.readSide.look (decide (0 < s.heartbeats.currentSize))).pc.asleep = true := h
      left
      show _ ∧ (s.readSide.look _).pendingReads.entries = [] ∧ _
      unfold ReadSide.look at hlook ⊢
      split
      · rename_i hempty
        simp only [Bool.and_eq_true, decide_eq_true_eq, Bool.not_eq_true', decide_eq_false_iff_not,
          Nat.not_lt, Nat.le_zero] at hempty
        exact ⟨rfl, List.eq_nil_of_length_eq_zero hempty.1,
          List.eq_nil_of_length_eq_zero hempty.2⟩
      · rename_i hsome
        rw [if_neg hsome] at hlook
        cases hlook
  | readEnter tid =>
      have henter : (s.readSide.enterRead s.flags.test tid).pc = s.readSide.pc ∧
          (s.readSide.enterRead s.flags.test tid).pendingReads = s.readSide.pendingReads := by
        unfold ReadSide.enterRead
        split <;> exact ⟨rfl, rfl⟩
      refine Or.inr ⟨?_, nofun, nofun, ?_⟩
      · rw [← henter.1]
        exact h
      · intro hnil
        rw [show (s.readSide.enterRead _ _).pendingReads = _ from henter.2]
        exact hnil
  | readCommit tid =>
      rcases ReadSide.commitRead_asleep h with ⟨hpc, heq⟩
      refine Or.inr ⟨hpc, nofun, nofun, ?_⟩
      intro hnil
      show (s.readSide.commitRead tid).pendingReads.entries = []
      rcases heq with heq | heq
      · rw [heq]
        exact hnil
      · -- `touch` moves an entry and adds none
        rw [heq]
        apply List.eq_nil_iff_forall_not_mem.mpr
        intro b hb
        have hmem := LRUCache.mem_touch.mp hb
        rw [hnil] at hmem
        cases hmem
  | closeReturn c =>
      simp only [ReadSide.exit_asleep h] at h ⊢
      exact Or.inr ⟨h, nofun, nofun, id⟩
  | closeDone c =>
      simp only [ReadSide.exit_asleep h] at h ⊢
      exact Or.inr ⟨h, nofun, nofun, id⟩
  | closeRead c =>
      -- both notifications reach a thread that sleeps, so these two steps wake it
      have hawake : s.readSide.close.pc.asleep = false := ReadSide.notifyAll_awake _
      rw [show s.readSide.close.pc.asleep = true from h] at hawake
      cases hawake
  | writeNotify =>
      have hawake := s.readSide.notifyAll_awake
      rw [show s.readSide.notifyAll.pc.asleep = true from h] at hawake
      cases hawake
  | readAcquire =>
      have hacq : (s.readSide.acquire s.flags.test).pc.asleep = true := h
      unfold ReadSide.acquire at hacq
      split at hacq <;> cases hacq
  | readWake => cases h
  | readReceive p rest => cases h
  | readFail => cases h
  | readHeartbeatLock p =>
      have hlock : (s.readSide.lockHeartbeats s.flags.test p).pc.asleep = true := h
      unfold ReadSide.lockHeartbeats at hlock
      split at hlock <;> cases hlock
  | readHeartbeat p =>
      have hans : (s.answerHeartbeat p).readSide.pc.asleep = true := h
      rcases readSide_answerHeartbeat s p with heq | heq
      · rw [heq] at hans
        cases hans
      · rw [heq] at hans
        cases hans
  | readRouteLock p =>
      have hlock : (s.readSide.lockRoute s.flags.test p).pc.asleep = true := h
      unfold ReadSide.lockRoute at hlock
      split at hlock <;> cases hlock
  | readRoute p =>
      have hroute : (s.readSide.route p).pc.asleep = true := h
      rw [(s.readSide.route_frame p).1] at hroute
      cases hroute
  | _ => exact Or.inr ⟨h, nofun, nofun, id⟩

/-! ## The notification a heartbeat owes -/

/-- The heartbeat was inserted by the write thread, which has not yet performed the
notification it owes the read thread for it. -/
def OwesNotify (s : SharedBlockingConnection) (transactionId : ℕ) : Prop :=
  s.writeSide.pc = .precheck false true ∧
    s.beats.getLast?.map Beat.transactionId = some transactionId

/-- A slot is taken by the write thread, which then owes a notification. -/
theorem slot_update {cfg : Config} {l : Label} {s : SharedBlockingConnection} {b : Entry ℕ ℕ}
    (hg : guard cfg l s) (hb : b ∈ (update cfg l s).heartbeats.entries) :
    b ∈ s.heartbeats.entries ∨ (s.writeSide.pc = .woken ∧ (update cfg l s).OwesNotify b.key) := by
  cases l with
  | writeBeat now heartbeat =>
      have hslot : b ∈ (s.insertHeartbeat cfg now heartbeat).heartbeats.entries := hb
      show _ ∨ (_ ∧ (s.insertHeartbeat cfg now heartbeat).OwesNotify b.key)
      unfold insertHeartbeat at hslot ⊢
      split
      · rename_i hroom
        rw [if_pos hroom] at hslot
        split
        · exact Or.inl hslot
        · simp only at hslot
          split
          · rename_i ex w heq
            rw [heq] at hslot
            exact Or.inl hslot
          · rename_i f tid w heq
            rw [heq] at hslot
            rcases LRUCache.mem_setItem hslot with rfl | hold
            · exact Or.inr ⟨hg.1, rfl, by simp⟩
            · exact Or.inl hold
      · rename_i hroom
        rw [if_neg hroom] at hslot
        exact Or.inl hslot
  | readHeartbeat p => exact Or.inl (answerHeartbeat_heartbeats hb).1
  | closeReturn c => exact Or.inl hb
  | closeDone c => exact Or.inl hb
  | _ => exact Or.inl hb

/-- On an open connection only the notification itself pays what is owed. -/
theorem owes_update {cfg : Config} {l : Label} {s : SharedBlockingConnection} {tid : ℕ}
    (hg : guard cfg l s) (hok : s.flags.Ok) (hopen : s.flags.test = false)
    (hnotify : l ≠ .writeNotify) (h : s.OwesNotify tid) : (update cfg l s).OwesNotify tid := by
  have hpc := h.1
  have hclosed : ¬ (s.flags.closing = true ∨ s.flags.closed = true) := by
    rw [← CloseFlags.test_eq_true, hopen]
    nofun
  -- a notification moves the write thread only within `wait`
  have hwoken : ∀ w : WriteSide, w.pc = .precheck false true →
      w.notifyAll.pc = .precheck false true := by
    intro w hw
    rcases w.notifyAll_pc with heq | ⟨b, hb, _⟩
    · rw [heq]
      exact hw
    · rw [hw] at hb
      cases hb
  cases l with
  | writeEnter buff timeout =>
      refine ⟨?_, h.2⟩
      show (s.writeSide.enterWrite _ _ _).pc = _
      unfold WriteSide.enterWrite
      split <;> exact hpc
  | writeCommit buff timeout now =>
      refine ⟨?_, h.2⟩
      show (s.writeSide.commitWrite buff timeout now).pc = _
      unfold WriteSide.commitWrite
      split
      · exact hpc
      · split
        · rename_i f tid w' heq
          rcases WriteSide.updatePendingWrites_ok heq with ⟨_, l, gen, _, rfl⟩
          exact hwoken _ hpc
        · rename_i ex w' heq
          rcases WriteSide.updatePendingWrites_error heq with ⟨gen, rfl⟩
          exact hpc
  -- these steps of `close()` need a connection that is not open
  | closeReturn c => exact absurd (hg.2.2.imp_right And.left) hclosed
  | closeDone c => exact absurd (Or.inl (hok.closing_of_closer _ _ hg)) hclosed
  | closeWrite c => exact absurd (Or.inl (hok.closing_of_closer _ _ hg.1)) hclosed
  | writeNotify => exact absurd rfl hnotify
  -- the write thread is nowhere else
  | writeMissing wakeup => exact nomatch hpc.symm.trans hg
  | writeAcquire => exact nomatch hpc.symm.trans hg.1
  | writeTake => exact nomatch hpc.symm.trans hg
  | writeWake notified => exact nomatch hpc.symm.trans hg.1
  | writeBeat now heartbeat => exact nomatch hpc.symm.trans hg.1
  | writeCheck e now => exact nomatch hpc.symm.trans hg
  | writeSend e rest k => exact nomatch hpc.symm.trans hg.1
  | writeFinish e => exact nomatch hpc.symm.trans hg
  | writeFail e rest timedOut => exact nomatch hpc.symm.trans hg.1
  | readHeartbeat p =>
      show (s.answerHeartbeat p).OwesNotify tid
      unfold answerHeartbeat
      split <;> exact h
  | _ => exact h

/-! ## The invariant -/

/-- What the sleep of each thread says, and that nobody sleeps once the closing has
been through its block. -/
structure WakeupInv (s : SharedBlockingConnection) : Prop where
  writer : s.writeSide.pc.asleep = true → s.writeSide.pendingWrites.elements = []
  reader : s.readSide.pc.asleep = true → s.readSide.pendingReads.entries = []
  owed : s.readSide.pc.asleep = true → s.flags.test = false →
    ∀ b ∈ s.heartbeats.entries, s.OwesNotify b.key
  /-- after `_close_write` nobody holds the condition, so nobody goes to sleep -/
  writer_closed : s.flags.Reached .writesClosed →
    s.writeSide.condition = .free ∧ s.writeSide.pc.asleep = false
  reader_closed : s.flags.Reached .readsClosed → s.readSide.pc.asleep = false

/-- Somebody takes `_write_condition` only after having seen an open connection. -/
theorem held_update {cfg : Config} {l : Label} {s : SharedBlockingConnection}
    (hfree : s.writeSide.condition = .free) (htest : s.flags.test = true) (hg : guard cfg l s)
    (hpc : s.writeSide.pc.holdsCondition = false) :
    (update cfg l s).writeSide.condition = .free := by
  cases l with
  | writeEnter buff timeout =>
      show (s.writeSide.enterWrite _ _ _).condition = .free
      unfold WriteSide.enterWrite
      rw [if_pos htest]
      exact hfree
  | writeCommit buff timeout now =>
      have hclient : s.writeSide.condition = .client buff timeout := hg
      rw [hfree] at hclient
      cases hclient
  | closeReturn c =>
      show (returnFromClose _ c).writeSide.condition = .free
      unfold returnFromClose
      split <;> exact hfree
  | closeDone c =>
      show (returnFromClose _ c).writeSide.condition = .free
      unfold returnFromClose
      split <;> exact hfree
  | closeWrite c =>
      show (WriteSide.notifyAll _).condition = .free
      rw [WriteSide.notifyAll_condition]
      exact hfree
  | writeAcquire =>
      show (s.writeSide.acquire _).condition = .free
      unfold WriteSide.acquire
      rw [if_pos htest]
      exact hfree
  | writeTake =>
      -- a step of the block that the thread is not in
      rw [show s.writeSide.pc = .locked from hg] at hpc
      cases hpc
  | writeWake notified =>
      show (s.writeSide.wake s.flags.test _).condition = .free
      unfold WriteSide.wake
      rw [htest]
      exact hfree
  | writeBeat now heartbeat =>
      rw [hg.1] at hpc
      cases hpc
  | writeCheck e now =>
      show (s.writeSide.check e now).condition = .free
      unfold WriteSide.check
      split
      · exact hfree
      · split <;> exact hfree
  | readHeartbeat p =>
      show (s.answerHeartbeat p).writeSide.condition = .free
      unfold answerHeartbeat
      split <;> exact hfree
  | _ => exact hfree

/-- `_close_write` wakes the write thread, which does not go to sleep again. -/
theorem writer_closed_step {cfg : Config} {l : Label} {s : SharedBlockingConnection}
    (hg : guard cfg l s) (hok : s.flags.Ok) (hblocks : WriteBlocks s.writeSide)
    (h : s.flags.Reached .writesClosed →
      s.writeSide.condition = .free ∧ s.writeSide.pc.asleep = false)
    (hr : (update cfg l s).flags.Reached .writesClosed) :
    (update cfg l s).writeSide.condition = .free ∧
      (update cfg l s).writeSide.pc.asleep = false := by
  rcases reached_writesClosed hg hr with hold | ⟨c, rfl⟩
  · rcases h hold with ⟨hfree, hawake⟩
    have hpc := hblocks.outside_of_ne (by rw [hfree]; nofun)
    refine ⟨held_update hfree (hok.test_of_reached hold) hg hpc, ?_⟩
    by_contra hasleep
    rcases writer_asleep (Bool.eq_true_of_not_eq_false hasleep) with ⟨rfl, _⟩ | ⟨hold', _⟩
    · -- only the holder of the condition falls asleep
      rw [show s.writeSide.pc = .locked from hg] at hpc
      cases hpc
    · rw [hawake] at hold'
      cases hold'
  · refine ⟨?_, WriteSide.notifyAll_awake _⟩
    show (WriteSide.notifyAll _).condition = .free
    rw [WriteSide.notifyAll_condition]
    exact hg.2

/-- `_close_read` wakes the read thread, which does not go to sleep again. -/
theorem reader_closed_step {cfg : Config} {l : Label} {s : SharedBlockingConnection}
    (hg : guard cfg l s) (hstop : ReadStop s.readSide s.flags)
    (h : s.flags.Reached .readsClosed → s.readSide.pc.asleep = false)
    (hr : (update cfg l s).flags.Reached .readsClosed) :
    (update cfg l s).readSide.pc.asleep = false := by
  by_contra hasleep
  rcases reader_asleep (Bool.eq_true_of_not_eq_false hasleep) with ⟨rfl, _⟩ | ⟨hold, hclose, _⟩
  · -- the read thread holds the condition, so `_close_read` has not been through
    rcases reached_readsClosed hg hr with hr' | ⟨c, hl⟩
    · have hheld := hstop.holder (by rw [show s.readSide.pc = .locked from hg]; rfl)
      rw [(hstop.drained hr').1] at hheld
      cases hheld
    · cases hl
  · rcases reached_readsClosed hg hr with hr' | ⟨c, hl⟩
    · rw [h hr'] at hold
      cases hold
    · exact hclose c hl

theorem wakeupInv_step {cfg : Config} {l : Label} {s : SharedBlockingConnection}
    (hg : guard cfg l s) (hok : s.flags.Ok) (hblocks : WriteBlocks s.writeSide)
    (hstop : ReadStop s.readSide s.flags) (h : WakeupInv s) : WakeupInv (update cfg l s) := by
  constructor
  · intro hasleep
    rcases writer_asleep hasleep with ⟨_, hempty⟩ | ⟨hold, _, hsame⟩
    · exact hempty
    · rw [hsame]
      exact h.writer hold
  · intro hasleep
    rcases reader_asleep hasleep with ⟨_, hempty, _⟩ | ⟨hold, _, _, hsame⟩
    · exact hempty
    · exact hsame (h.reader hold)
  · intro hasleep hopen b hb
    have hopen' := test_of_update hg hok hopen
    rcases reader_asleep hasleep with ⟨rfl, _, hnone⟩ | ⟨hold, _, hnotify, _⟩
    · -- the read thread has seen no heartbeat
      rw [show (update cfg .readLook s).heartbeats = s.heartbeats from rfl, hnone] at hb
      cases hb
    · rcases slot_update hg hb with hslot | ⟨_, howes⟩
      · exact owes_update hg hok hopen' hnotify (h.owed hold hopen' b hslot)
      · exact howes
  · exact writer_closed_step hg hok hblocks h.writer_closed
  · exact reader_closed_step hg hstop h.reader_closed

theorem readStop_new (cfg : Config) : ReadStop (new cfg).readSide (new cfg).flags := by
  constructor
  · intro h
    cases h
  · intro _
    refine ⟨rfl, ?_⟩
    intro b hb
    cases hb

theorem wakeupInv_new (cfg : Config) : WakeupInv (new cfg) := by
  constructor
  · intro h
    cases h
  · intro h
    cases h
  · intro h
    cases h
  · intro _
    exact ⟨rfl, rfl⟩
  · intro _
    rfl

/-- In every run the read thread is inside its blocks only with the condition. -/
theorem readStop_reachable (cfg : Config) :
    ∀ s, (system cfg).Reachable s → ReadStop s.readSide s.flags := by
  apply Lts.Spec.invariant_with (system cfg) (fun s => s.flags.Ok)
    (fun s => ReadStop s.readSide s.flags) (flags_ok cfg)
  · rintro s rfl
    exact readStop_new cfg
  · intro l s hg hok _ h
    exact readStop_step hg hok h

theorem wakeupInv_reachable (cfg : Config) : ∀ s, (system cfg).Reachable s → WakeupInv s := by
  apply Lts.Spec.invariant_with (system cfg)
    (fun s => s.flags.Ok ∧ WriteBlocks s.writeSide ∧ ReadStop s.readSide s.flags) WakeupInv
  · intro s hr
    exact ⟨flags_ok cfg s hr, blocks_reachable cfg s hr, readStop_reachable cfg s hr⟩
  · rintro s rfl
    exact wakeupInv_new cfg
  · intro l s hg hknown _ h
    exact wakeupInv_step hg hknown.1 hknown.2.1 hknown.2.2 h

/-! ## No lost wakeup -/

/-- Nobody sleeps over work. `closeReturned` says when a call of `close()` counts as
returned. -/
structure NoLostWakeup (s : SharedBlockingConnection) (closeReturned : Prop) : Prop where
  /-- a write thread that waits un-notified has nothing to write -/
  writer : s.writeSide.pc = .waiting false → s.writeSide.pendingWrites.elements = []
  /-- a read thread that waits un-notified on an open connection has nobody to read for -/
  reader : s.readSide.pc = .waiting false → s.flags.test = false →
    s.readSide.pendingReads.entries = []
  /-- ... and no heartbeat to read but those it is about to be notified of -/
  owed : s.readSide.pc = .waiting false → s.flags.test = false →
    ∀ b ∈ s.heartbeats.entries, s.OwesNotify b.key
  /-- after `close()` nobody waits un-notified -/
  closed : closeReturned → s.writeSide.pc ≠ .waiting false ∧ s.readSide.pc ≠ .waiting false

/-- In every reachable state a thread that waits un-notified has nothing to do, and
once a call of `close()` has set `_closed` no thread waits un-notified. -/
theorem no_lost_wakeup (cfg : Config) :
    ∀ s, (system cfg).Reachable s → NoLostWakeup s (s.flags.closed = true) := by
  intro s hr
  have h := wakeupInv_reachable cfg s hr
  have hw : s.writeSide.pc = .waiting false → s.writeSide.pc.asleep = true := by
    intro hpc
    rw [hpc]
    rfl
  have hread : s.readSide.pc = .waiting false → s.readSide.pc.asleep = true := by
    intro hpc
    rw [hpc]
    rfl
  constructor
  · intro hpc
    exact h.writer (hw hpc)
  · intro hpc _
    exact h.reader (hread hpc)
  · intro hpc hopen
    exact h.owed (hread hpc) hopen
  · intro hclosed
    constructor
    · intro hpc
      have hawake := (h.writer_closed (Or.inl hclosed)).2
      rw [hw hpc] at hawake
      cases hawake
    · intro hpc
      have hawake := h.reader_closed (Or.inl hclosed)
      rw [hread hpc] at hawake
      cases hawake

/-- Both threads wait, and the write thread inserts a heartbeat. -/
def beatBeforeNotify : List Label :=
  [.readAcquire, .readLook, .writeAcquire, .writeTake, .writeWake false, .writeBeat 5 (.ok [1])]

/-- The run above: the read thread still waits un-notified, and what it waits for is
the notification it is owed. -/
theorem no_lost_wakeup_owed :
    let s := (system beatingConfig).run beatBeforeNotify (new beatingConfig)
    s.readSide.pc = .waiting false ∧ s.heartbeats.entries = [⟨1, 0⟩] ∧
      NoLostWakeup s (s.flags.closed = true) := by
  refine ⟨by decide, by decide, ?_⟩
  exact no_lost_wakeup beatingConfig _ ((Lts.Spec.Reachable.init rfl).run _)

/-- Both threads wait; a client is closing the connection, and the call of a second
one returns at once. -/
def closeTwice : List Label :=
  [.writeAcquire, .writeTake, .readAcquire, .readLook, .closeTest (.client 0),
    .closeFlag (.client 0), .closeReturn (.client 1)]

/-- After the early return of a call of `close()` that found another one under way,
both threads still wait un-notified. -/
theorem second_close_returns_early :
    ¬ ∀ s, (system defaultConfig).Reachable s → NoLostWakeup s (s.flags.returns ≠ []) := by
  intro h
  let s := (system defaultConfig).run closeTwice (new defaultConfig)
  have hr : (system defaultConfig).Reachable s := (Lts.Spec.Reachable.init rfl).run closeTwice
  have hreturned : s.flags.returns ≠ [] := by decide
  have hasleep : s.writeSide.pc = .waiting false := by decide
  exact ((h s hr).closed hreturned).1 hasleep

end SharedBlockingConnection

end SummerRpc
