import SummerRpc.Connection.Wire
import SummerRpc.Lib.Stack

/-! # The queue of writes

What the steps of a `SharedBlockingConnection` do to `_pending_writes`, and in which order its
entries leave.

* `queueEvents`: the entries a step puts in the queue and takes out of it;
* `moves_update`: these are all, they enter and leave on the left, and the entries that enter
  are new;
* `QueueHistory`, `queueHistory_reachable`: the same over a run;
* `last_in_first_out`: an entry leaves after all that were accepted after it.
-/

namespace SummerRpc

open Stack (Event Replays)

namespace WriteSide

/-- The entries in front of the queue that were not there before. -/
def accepted (w w' : WriteSide) : List (Event PendingWrite) :=
  (w'.pendingWrites.elements.take
    (w'.pendingWrites.elements.length - w.pendingWrites.elements.length)).map .push

/-- The entries that were in front of the queue and are there no more. -/
def taken (w w' : WriteSide) : List (Event PendingWrite) :=
  (w.pendingWrites.elements.take
    (w.pendingWrites.elements.length - w'.pendingWrites.elements.length)).map .pop

/-- What a step does to the queue: the events lead from the one to the other, and an entry that
is pushed has a future of its own. -/
structure Moves (w w' : WriteSide) (es : List (Event PendingWrite)) : Prop where
  maxSize : w'.pendingWrites.maxSize = w.pendingWrites.maxSize
  replays : Replays es w.pendingWrites.elements w'.pendingWrites.elements
  pushed : Stack.pushed es = [] ∨ ∃ e, Stack.pushed es = [e] ∧ e.future = w.futures.count ∧
    w.futures.count < w'.futures.count

variable {w w' : WriteSide}

/-- A step that leaves the queue alone. -/
theorem Moves.stay (h : w'.pendingWrites = w.pendingWrites) : Moves w w' [] where
  maxSize := by rw [h]
  replays := by rw [h]; rfl
  pushed := Or.inl rfl

theorem accepted_of_eq (h : w'.pendingWrites = w.pendingWrites) : accepted w w' = [] := by
  rw [accepted, h, Nat.sub_self, List.take_zero, List.map_nil]

/-- A step that may put an entry in the queue and leaves it alone. -/
theorem Moves.refuse (h : w'.pendingWrites = w.pendingWrites) : Moves w w' (accepted w w') := by
  rw [accepted_of_eq h]
  exact Moves.stay h

/-- A step that puts one there. -/
theorem Moves.accept {e : PendingWrite} (h : w.pendingWrites.insertLeft e = .ok w'.pendingWrites)
    (hfuture : e.future = w.futures.count) (hcount : w.futures.count < w'.futures.count) :
    Moves w w' (accepted w w') := by
  obtain ⟨hmax, helements⟩ := StaticList.insertLeft_ok h
  have hevents : accepted w w' = [.push e] := by
    rw [accepted, helements, List.length_cons, Nat.add_sub_cancel_left]
    rfl
  rw [hevents]
  exact ⟨hmax, helements.symm, Or.inr ⟨e, rfl, hfuture, hcount⟩⟩

/-- `_update_pending_writes` puts its entry in the queue, or raises. -/
theorem moves_updatePendingWrites {r : Except Exc (ℕ × ℕ)} {w₁ : WriteSide} {buff : Body}
    {timeout : Option ℤ} {now : ℤ} (heq : w.updatePendingWrites buff timeout now = (r, w₁))
    (hqueue : w'.pendingWrites = w₁.pendingWrites) (hfutures : w'.futures.count = w₁.futures.count) :
    Moves w w' (accepted w w') := by
  have hcreate := (w.updatePendingWrites_counts buff timeout now).2.1
  rw [heq] at hcreate
  have hcount : w.futures.count < w'.futures.count := by
    rw [hfutures, hcreate, Futures.count_create]
    exact Nat.lt_succ_self _
  unfold updatePendingWrites at heq
  dsimp only at heq
  split at heq
  · rename_i pendingWrites hinsert
    cases heq
    exact Moves.accept (by rw [hqueue]; exact hinsert) rfl hcount
  · cases heq
    exact Moves.refuse hqueue

theorem notifyAll_queue (w : WriteSide) : w.notifyAll.pendingWrites = w.pendingWrites := by
  unfold notifyAll
  split <;> rfl

theorem moves_commitWrite (w : WriteSide) (buff : Body) (timeout : Option ℤ) (now : ℤ) :
    Moves w (w.commitWrite buff timeout now) (accepted w (w.commitWrite buff timeout now)) := by
  unfold commitWrite
  split
  · exact Moves.refuse rfl
  · split
    · rename_i heq
      exact moves_updatePendingWrites heq (notifyAll_queue _)
        (congrArg Futures.count (notifyAll_futures _))
    · rename_i heq
      exact moves_updatePendingWrites heq rfl rfl

theorem moves_take (w : WriteSide) : Moves w w.take (taken w w.take) := by
  unfold take
  split
  · have hevents : taken w { w with pc := .waiting false, condition := .free } = [] := by
      rw [taken, Nat.sub_self, List.take_zero, List.map_nil]
    rw [hevents]
    exact Moves.stay rfl
  · rename_i e pendingWrites hpop
    obtain ⟨hmax, helements⟩ := StaticList.popLeft_ok hpop
    have hevents : taken w { w with pc := .holding e, condition := .free,
                                    pendingWrites := pendingWrites } = [.pop e] := by
      rw [taken, helements, List.length_cons, Nat.add_sub_cancel_left]
      rfl
    rw [hevents]
    exact ⟨hmax, ⟨_, helements, rfl⟩, Or.inl rfl⟩

/-- `_close_write` takes the entries out one after the other. -/
theorem moves_close (w : WriteSide) : Moves w w.close (w.pendingWrites.elements.map .pop) := by
  have hqueue : w.close.pendingWrites =
      { w.pendingWrites with elements := [], length_le := Nat.zero_le _ } := notifyAll_queue _
  refine ⟨by rw [hqueue], ?_, Or.inl ?_⟩
  · have hpops := Stack.replays_pops w.pendingWrites.elements []
    rw [List.append_nil] at hpops
    rw [hqueue]
    exact hpops
  · rw [Stack.pushed, List.filterMap_map]
    exact List.filterMap_eq_nil_iff.mpr fun _ _ => rfl

end WriteSide

namespace SharedBlockingConnection

open WriteSide (Moves accepted taken)

/-- What a step puts in the queue and takes out of it. -/
def queueEvents (cfg : Config) (l : Label) (s : SharedBlockingConnection) :
    List (Event PendingWrite) :=
  match l with
  | .writeCommit _ _ _ => accepted s.writeSide (update cfg l s).writeSide
  | .writeBeat _ _ => accepted s.writeSide (update cfg l s).writeSide
  | .writeTake => taken s.writeSide (update cfg l s).writeSide
  | .closeWrite _ => s.writeSide.pendingWrites.elements.map .pop
  | _ => []

theorem moves_insertHeartbeat (s : SharedBlockingConnection) (cfg : Config) (now : ℤ)
    (heartbeat : Except Exc Body) :
    Moves s.writeSide (s.insertHeartbeat cfg now heartbeat).writeSide
      (accepted s.writeSide (s.insertHeartbeat cfg now heartbeat).writeSide) := by
  unfold insertHeartbeat
  split
  · cases heartbeat with
    | error ex => exact Moves.refuse rfl
    | ok buff =>
        dsimp only
        split
        · rename_i heq
          exact WriteSide.moves_updatePendingWrites heq rfl rfl
        · rename_i heq
          exact WriteSide.moves_updatePendingWrites heq rfl rfl
  · exact Moves.refuse rfl

theorem returnFromClose_queue (s : SharedBlockingConnection) (c : Thread) :
    (s.returnFromClose c).writeSide.pendingWrites = s.writeSide.pendingWrites := by
  unfold returnFromClose
  dsimp only
  split <;> rfl

/-- No other step touches the queue. -/
theorem moves_update (cfg : Config) (l : Label) (s : SharedBlockingConnection) :
    Moves s.writeSide (update cfg l s).writeSide (queueEvents cfg l s) := by
  cases l with
  | writeCommit buff timeout now => exact WriteSide.moves_commitWrite _ _ _ _
  | writeBeat now heartbeat => exact moves_insertHeartbeat _ _ _ _
  | writeTake => exact WriteSide.moves_take _
  | closeWrite c => exact WriteSide.moves_close _
  | closeReturn c => exact Moves.stay (returnFromClose_queue _ _)
  | closeDone c => exact Moves.stay (returnFromClose_queue _ _)
  | writeEnter buff timeout =>
      refine Moves.stay ?_
      simp only [update, WriteSide.enterWrite]
      split <;> rfl
  | writeAcquire =>
      refine Moves.stay ?_
      simp only [update, WriteSide.acquire]
      split <;> rfl
  | writeWake notified =>
      refine Moves.stay ?_
      simp only [update, WriteSide.wake]
      split <;> rfl
  | writeCheck e now =>
      refine Moves.stay ?_
      simp only [update, WriteSide.check]
      split
      · rfl
      · split <;> rfl
  | readHeartbeat p =>
      refine Moves.stay ?_
      simp only [update, answerHeartbeat]
      split <;> rfl
  | _ => exact Moves.stay rfl

/-! ## Runs -/

/-- The connection, with what has entered the queue and left it. -/
def queueSystem (cfg : Config) :
    Lts.Spec (SharedBlockingConnection × List (Event PendingWrite)) Label :=
  (system cfg).withHistory (fun l s h => h ++ queueEvents cfg l s) []

instance (cfg : Config) (l : Label) (p : SharedBlockingConnection × List (Event PendingWrite)) :
    Decidable ((queueSystem cfg).guard l p) :=
  inferInstanceAs (Decidable ((system cfg).guard l p.1))

/-- The history leads to the queue, and no two of its entries have one future. -/
structure QueueHistory (w : WriteSide) (h : List (Event PendingWrite)) : Prop where
  replays : Replays h [] w.pendingWrites.elements
  nodup : ((Stack.pushed h).map PendingWrite.future).Nodup
  lt : ∀ e ∈ Stack.pushed h, e.future < w.futures.count

theorem QueueHistory.step {w w' : WriteSide} {h es : List (Event PendingWrite)}
    (hinv : QueueHistory w h) (hmoves : Moves w w' es) (hcount : w.futures.count ≤ w'.futures.count) :
    QueueHistory w' (h ++ es) := by
  have hreplays := Stack.replays_append.mpr ⟨_, hinv.replays, hmoves.replays⟩
  rcases hmoves.pushed with hnone | ⟨e, hone, hfuture, hnew⟩
  · refine ⟨hreplays, ?_, ?_⟩
    · rw [Stack.pushed_append, hnone, List.append_nil]
      exact hinv.nodup
    · rw [Stack.pushed_append, hnone, List.append_nil]
      exact fun d hd => Nat.lt_of_lt_of_le (hinv.lt d hd) hcount
  · refine ⟨hreplays, ?_, ?_⟩
    · rw [Stack.pushed_append, hone, List.map_append, List.map_singleton, List.nodup_append]
      refine ⟨hinv.nodup, List.nodup_singleton _, fun f hf g hg heq => ?_⟩
      -- the futures there are have been made before
      obtain ⟨d, hd, rfl⟩ := List.mem_map.mp hf
      have hlt := hinv.lt d hd
      rw [List.mem_singleton.mp hg] at heq
      omega
    · rw [Stack.pushed_append, hone]
      intro d hd
      rcases List.mem_append.mp hd with hold | hd
      · exact Nat.lt_of_lt_of_le (hinv.lt d hold) hcount
      · rw [List.mem_singleton.mp hd, hfuture]
        exact hnew

theorem queueHistory_reachable (cfg : Config) :
    ∀ p, (queueSystem cfg).Reachable p → QueueHistory p.1.writeSide p.2 := by
  apply Lts.Spec.invariant
  · rintro ⟨s, h⟩ ⟨hs, rfl⟩
    cases hs
    exact ⟨(newPendingWrites_elements _).symm, List.nodup_nil, fun _ hd => nomatch hd⟩
  · intro l p _ hinv
    exact hinv.step (moves_update cfg l p.1) (count_le_update cfg l p.1)

/-- The entries of the queue leave it last in, first out: in the time from the acceptance of an
entry until it leaves, the entries that leave are those that have been accepted in this time,
and the queue behind it stays as it was. -/
theorem last_in_first_out (cfg : Config) (p : SharedBlockingConnection × List (Event PendingWrite))
    (hr : (queueSystem cfg).Reachable p) :
    Replays p.2 [] p.1.writeSide.pendingWrites.elements ∧
      ∀ before between after e, p.2 = before ++ .push e :: (between ++ .pop e :: after) →
        ∃ waiting, Replays before [] waiting ∧ Replays between (e :: waiting) (e :: waiting) ∧
          (Stack.popped between).Perm (Stack.pushed between) := by
  have hinv := queueHistory_reachable cfg p hr
  refine ⟨hinv.replays, fun before between after e hparts => ?_⟩
  have hreplays := hinv.replays
  have hnodup := List.Nodup.of_map _ hinv.nodup
  rw [hparts] at hreplays hnodup
  exact Stack.lifo hreplays hnodup

/-- Two writes are accepted, and then the second one is sent and the first one taken. -/
def overtaking : List Label :=
  let e : PendingWrite := ⟨[8], 1, 2, 101, some 60⟩
  let data : List UInt8 := [0, 0, 0, 1, 0, 0, 0, 2, 8]
  [.writeEnter [7] none, .writeCommit [7] (some 60) 100, .writeEnter [8] none,
    .writeCommit [8] (some 60) 101, .writeAcquire, .writeTake, .writeCheck e 102,
    .writeSend e data 9, .writeFinish e, .writeAcquire, .writeTake]

/-- The run and its history. -/
def overtaken : SharedBlockingConnection × List (Event PendingWrite) :=
  (queueSystem defaultConfig).run overtaking (new defaultConfig, [])

theorem reachable_overtaken : (queueSystem defaultConfig).Reachable overtaken := by
  have hstart : (queueSystem defaultConfig).Reachable (new defaultConfig, []) :=
    Lts.Spec.Reachable.init ⟨rfl, rfl⟩
  exact hstart.run overtaking

theorem history_overtaken :
    overtaken.2 = [.push ⟨[7], 0, 1, 100, some 60⟩, .push ⟨[8], 1, 2, 101, some 60⟩,
      .pop ⟨[8], 1, 2, 101, some 60⟩, .pop ⟨[7], 0, 1, 100, some 60⟩] := by
  decide

/-- The run above, as the theorem tells it. -/
theorem last_in_first_out_two :
    Replays overtaken.2 [] overtaken.1.writeSide.pendingWrites.elements :=
  (last_in_first_out defaultConfig overtaken reachable_overtaken).1

/-- The entries do not leave in the order of their acceptance, and more of them leave before an
entry than there were when it was accepted. -/
theorem requests_overtaken :
    (¬ ∀ (cfg : Config) (p : SharedBlockingConnection × List (Event PendingWrite)),
        (queueSystem cfg).Reachable p → Stack.popped p.2 <+: Stack.pushed p.2) ∧
      ¬ ∀ (cfg : Config) (p : SharedBlockingConnection × List (Event PendingWrite)),
        (queueSystem cfg).Reachable p → ∀ before between after e waiting,
          p.2 = before ++ .push e :: (between ++ .pop e :: after) → Replays before [] waiting →
          (Stack.popped between).length ≤ waiting.length := by
  constructor
  · intro h
    have hprefix := h defaultConfig overtaken reachable_overtaken
    rw [history_overtaken] at hprefix
    exact absurd hprefix (by decide)
  · intro h
    have hle := h defaultConfig overtaken reachable_overtaken []
      [.push ⟨[8], 1, 2, 101, some 60⟩, .pop ⟨[8], 1, 2, 101, some 60⟩] []
      ⟨[7], 0, 1, 100, some 60⟩ [] history_overtaken rfl
    exact absurd hle (by decide)

end SharedBlockingConnection

end SummerRpc
