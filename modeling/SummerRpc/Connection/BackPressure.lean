import SummerRpc.Connection.Queue
import SummerRpc.Helper.StaticListNodes

/-! # Back-pressure

`write` of a `SharedBlockingConnection` asks `_pending_writes.is_full()` before it takes an
id, and `is_full` compares an index with `None`.

* `isFull_eq_false`: no list says that it is full;
* `RefusesFull`: what `write` is to do, with a full queue and with room in it;
* `back_pressure_iff`: it does that as long as there is room.
-/

namespace SummerRpc

namespace NodeList

variable {α : Type}

/-- `is_full` is always `False`. -/
theorem isFull_eq_false (l : NodeList α) : l.isFull = false := rfl

/-- `is_full()` says whether the next `insert_left` would raise `ListFullError`. -/
def TellsFull (l : NodeList α) (element : α) : Prop :=
  l.isFull = true ↔ (l.insertLeft element).1 = .error listFull

/-- It does as long as the list has less than `max_size` elements. -/
theorem tellsFull_iff {maxSize : ℕ} (hpos : 0 < maxSize) (ops : List (ListCall α)) (element : α) :
    TellsFull (Calls.run call ops (NodeList.new maxSize)).2 element ↔
      (Calls.run call ops (NodeList.new maxSize)).2.currentSize < maxSize := by
  obtain ⟨_, used, free, hlast⟩ := run_represents (new_represents (α := α) hpos) ops
  have hmaxSize := StaticList.maxSize_run ops (StaticList.new (α := α) maxSize hpos)
  have hsize := hlast.size.trans hlast.length
  have hle := (Calls.run StaticList.call ops (StaticList.new maxSize hpos)).2.length_le
  have hraises := hlast.raises
  generalize (Calls.run call ops (NodeList.new maxSize)).2 = l at hlast hsize hraises ⊢
  generalize (Calls.run StaticList.call ops (StaticList.new maxSize hpos)).2 = s at *
  replace hmaxSize : s.maxSize = maxSize := hmaxSize
  rw [TellsFull, isFull_eq_false, hsize]
  by_cases hfull : s.elements.length = s.maxSize
  · rw [hraises.full element hfull]
    exact iff_of_false (fun h => Bool.false_ne_true (h.mpr rfl)) (by omega)
  · rw [hraises.room element hfull]
    exact iff_of_true ⟨fun h => absurd h Bool.false_ne_true, nofun⟩ (by omega)

end NodeList

namespace SharedBlockingConnection

/-- The bound `__init__` gives to `_pending_writes`. -/
def boundOnWrites (cfg : Config) : ℕ := (newPendingWrites cfg.maxPendingWrites).maxSize

/-- `MaxPendingWritesReachedError("max pending writes reached")` -/
def maxPendingWrites : Exc where
  cls := .maxPendingWritesReachedError
  msg := "max pending writes reached"

/-- What `write` is to do once it has seen the flags clear. With a full queue it raises
`MaxPendingWritesReachedError`, and nothing but this has happened; otherwise it does not raise
it. -/
structure RefusesFull (cfg : Config) (s : SharedBlockingConnection) (buff : Body)
    (timeout : Option ℤ) (now : ℤ) : Prop where
  full : s.writeSide.pendingWrites.elements.length = boundOnWrites cfg →
    update cfg (.writeCommit buff timeout now) s =
      { s with
        writeSide :=
          { s.writeSide with
            condition := .free
            returns := s.writeSide.returns ++ [.error maxPendingWrites] } }
  room : s.writeSide.pendingWrites.elements.length < boundOnWrites cfg →
    ∃ result, (update cfg (.writeCommit buff timeout now) s).writeSide.returns =
        s.writeSide.returns ++ [result] ∧
      ∀ ex, result = .error ex → ex.cls ≠ .maxPendingWritesReachedError

/-- No step makes the queue larger or smaller. -/
theorem maxSize_reachable (cfg : Config) : ∀ s, (system cfg).Reachable s →
    s.writeSide.pendingWrites.maxSize = boundOnWrites cfg := by
  apply Lts.Spec.invariant
  · intro s hs
    cases hs
    rfl
  · intro l s _ ih
    exact (moves_update cfg l s).maxSize.trans ih

/-! ## `write` -/

/-- With room in the queue the entry is accepted. -/
theorem commitWrite_of_room {w : WriteSide}
    (h : w.pendingWrites.elements.length < w.pendingWrites.maxSize) (buff : Body)
    (timeout : Option ℤ) (now : ℤ) :
    ∃ transactionId f, (w.commitWrite buff timeout now).returns =
      w.returns ++ [.ok (transactionId, f)] := by
  have hupdate : ∃ f transactionId w', w.updatePendingWrites buff timeout now =
      (.ok (f, transactionId), w') := by
    unfold WriteSide.updatePendingWrites StaticList.insertLeft
    simp only [dif_pos h]
    exact ⟨_, _, _, rfl⟩
  obtain ⟨f, transactionId, w', hupdate⟩ := hupdate
  refine ⟨transactionId, f, ?_⟩
  unfold WriteSide.commitWrite StaticList.isFull
  simp only [Bool.false_eq_true, if_false, hupdate]

/-- With a full queue `ListFullError` is raised, after an id has been taken. -/
theorem commitWrite_of_full {w : WriteSide}
    (h : w.pendingWrites.elements.length = w.pendingWrites.maxSize) (buff : Body)
    (timeout : Option ℤ) (now : ℤ) :
    (w.commitWrite buff timeout now).returns = w.returns ++ [.error NodeList.listFull] ∧
      (w.commitWrite buff timeout now).idGenerator = (w.idGenerator.increase 1).2 := by
  have hupdate : w.updatePendingWrites buff timeout now =
      (.error NodeList.listFull,
        { w with futures := w.futures.create, idGenerator := (w.idGenerator.increase 1).2 }) := by
    unfold WriteSide.updatePendingWrites StaticList.insertLeft
    simp only [dif_neg (Nat.not_lt.mpr (Nat.le_of_eq h.symm))]
    rfl
  unfold WriteSide.commitWrite StaticList.isFull
  simp only [Bool.false_eq_true, if_false, hupdate, and_self]

theorem refusesFull_iff {cfg : Config} {s : SharedBlockingConnection} {buff : Body}
    {timeout : Option ℤ} {now : ℤ} (hr : (system cfg).Reachable s) :
    RefusesFull cfg s buff timeout now ↔
      s.writeSide.pendingWrites.elements.length < boundOnWrites cfg := by
  have hbound := maxSize_reachable cfg s hr
  have hle := s.writeSide.pendingWrites.length_le
  constructor
  · intro h
    by_contra hnot
    have hfull : s.writeSide.pendingWrites.elements.length = boundOnWrites cfg := by omega
    have hraised := (commitWrite_of_full (hfull.trans hbound.symm) buff timeout now).1
    have hrefused := congrArg (fun s => s.writeSide.returns) (h.full hfull)
    have hlast := List.append_cancel_left (hraised.symm.trans hrefused)
    cases hlast
  · intro hroom
    refine ⟨fun hfull => absurd hfull (Nat.ne_of_lt hroom), fun _ => ?_⟩
    rw [← hbound] at hroom
    obtain ⟨transactionId, f, hreturns⟩ := commitWrite_of_room hroom buff timeout now
    exact ⟨_, hreturns, nofun⟩

/-- A queue for at most so many writes. -/
def smallQueue (maxPendingWrites : ℕ) : Config :=
  { defaultConfig with maxPendingWrites := some maxPendingWrites }

/-- One write is pending, and a second call of `write` has seen the flags clear. -/
def secondWrite (maxPendingWrites : ℕ) : SharedBlockingConnection :=
  (system (smallQueue maxPendingWrites)).run
    [.writeEnter [7] none, .writeCommit [7] (some 60) 100, .writeEnter [8] none]
    (new (smallQueue maxPendingWrites))

theorem reachable_secondWrite (maxPendingWrites : ℕ) :
    (system (smallQueue maxPendingWrites)).Reachable (secondWrite maxPendingWrites) :=
  (Lts.Spec.Reachable.init rfl).run _

/-- `is_full` tells whether the next `insert_left` raises, and `write` reports a full queue as
documented, if and only if there is room in the list. -/
theorem back_pressure_iff {α : Type} {maxSize : ℕ} (hpos : 0 < maxSize) (ops : List (ListCall α))
    (element : α) {cfg : Config} {s : SharedBlockingConnection} (hr : (system cfg).Reachable s)
    (buff : Body) (timeout : Option ℤ) (now : ℤ) :
    (NodeList.TellsFull (Calls.run NodeList.call ops (NodeList.new maxSize)).2 element ↔
        (Calls.run NodeList.call ops (NodeList.new maxSize)).2.currentSize < maxSize) ∧
      (RefusesFull cfg s buff timeout now ↔
        s.writeSide.pendingWrites.elements.length < boundOnWrites cfg) :=
  ⟨NodeList.tellsFull_iff hpos ops element, refusesFull_iff hr⟩

/-- With room for two writes, both are accepted. -/
theorem back_pressure_iff_two :
    (NodeList.TellsFull (Calls.run NodeList.call [.insertLeft 1] (NodeList.new 2)).2 2 ↔
        (Calls.run NodeList.call [.insertLeft 1] (NodeList.new 2 : NodeList ℕ)).2.currentSize <
          2) ∧
      (RefusesFull (smallQueue 2) (secondWrite 2) [8] (some 60) 101 ↔
        (secondWrite 2).writeSide.pendingWrites.elements.length < boundOnWrites (smallQueue 2)) :=
  back_pressure_iff (by decide) [.insertLeft 1] 2 (reachable_secondWrite 2) [8] (some 60) 101

/-- With room for one write, `is_full` is false of the full list, and the second write raises
`ListFullError` where it should have raised `MaxPendingWritesReachedError`. -/
theorem full_queue_not_refused :
    (¬ ∀ (maxSize : ℕ), 0 < maxSize → ∀ (ops : List (ListCall ℕ)) (element : ℕ),
        NodeList.TellsFull (Calls.run NodeList.call ops (NodeList.new maxSize)).2 element) ∧
      ¬ ∀ (cfg : Config) (s : SharedBlockingConnection) (buff : Body) (timeout : Option ℤ)
        (now : ℤ), (system cfg).Reachable s → (system cfg).guard (.writeCommit buff timeout now) s →
        RefusesFull cfg s buff timeout now := by
  constructor
  · intro h
    have htells := (h 1 (by decide) [.insertLeft 1] 2).mpr rfl
    rw [NodeList.isFull_eq_false] at htells
    cases htells
  · intro h
    have hrefuses := h (smallQueue 1) (secondWrite 1) [8] (some 60) 101 (reachable_secondWrite 1)
      (by decide)
    exact absurd ((refusesFull_iff (reachable_secondWrite 1)).mp hrefuses) (by decide)

end SharedBlockingConnection

end SummerRpc
