import SummerRpc.Connection.WriteOwned
import SummerRpc.Connection.ReadFutures

/-! # Heartbeat slots

The write thread inserts a heartbeat into an idle connection and notes it in
`_heartbeats`; the read thread takes the note out again when the response comes.
Four notes mean that the connection is given up.

* `Kept`: the entry of a slot still waits to be sent, or has been written;
* `Unanswered`: its response has not been dealt with;
* `heartbeat_slots_real`: both, for every slot of an open connection, in every run
  in which no heartbeat is found expired and every heartbeat fits its packet;
* `expired_heartbeat_keeps_slot`: a heartbeat that expires in the queue keeps its
  slot.
-/

namespace SummerRpc

open BaseRecordTransport

/-- The entry the write thread has in its hands, a failed one included. -/
def WritePc.inHands : WritePc → List PendingWrite
  | .holding e => [e]
  | .sending e _ => [e]
  | .closing (some e) => [e]
  | _ => []

/-- The entry is that of a slot of `_heartbeats`. -/
def PendingWrite.IsOf (e : PendingWrite) (b : Entry ℕ ℕ) : Prop :=
  e.transactionId = b.key ∧ e.future = b.value

/-- The heartbeat waits to be sent: in `_pending_writes`, or with the write thread. -/
def WriteSide.Waiting (w : WriteSide) (b : Entry ℕ ℕ) : Prop :=
  ∃ e ∈ w.pc.inHands ++ w.pendingWrites.elements, e.IsOf b

/-- The heartbeat has been written in full. -/
def WriteSide.Written (w : WriteSide) (b : Entry ℕ ℕ) : Prop := ∃ e ∈ w.sent, e.IsOf b

/-- No response of the heartbeat has been read since it was inserted, but for one
the read thread has not looked at yet. -/
def Unanswered (r : ReadSide) (beats : List Beat) (b : Entry ℕ ℕ) : Prop :=
  ∃ beat ∈ beats, beat.transactionId = b.key ∧ beat.future = b.value ∧
    ∀ q ∈ r.received.drop beat.receivedBefore, q.1 = b.key →
      r.pc = .received q ∨ r.pc = .heartbeatLocked q

/-- The slot belongs to a heartbeat on its way or written. -/
def WriteSide.Kept (w : WriteSide) (b : Entry ℕ ℕ) : Prop := w.Waiting b ∨ w.Written b

namespace WriteSide

variable {w w' : WriteSide} {b : Entry ℕ ℕ}

/-- Nothing leaves the hands of the write thread, the queue or the socket. -/
theorem Kept.mono (h : w.Kept b)
    (hentries : ∀ e, e ∈ w.pc.inHands ++ w.pendingWrites.elements →
      e ∈ w'.pc.inHands ++ w'.pendingWrites.elements ∨ e ∈ w'.sent)
    (hsent : ∀ e, e ∈ w.sent → e ∈ w'.sent) : w'.Kept b := by
  rcases h with ⟨e, he, hof⟩ | ⟨e, he, hof⟩
  · rcases hentries e he with hin | hout
    · exact Or.inl ⟨e, hin, hof⟩
    · exact Or.inr ⟨e, hout, hof⟩
  · exact Or.inr ⟨e, hsent e he, hof⟩

/-- A step that moves no entry. -/
theorem Kept.congr (h : w.Kept b) (hpc : w'.pc.inHands = w.pc.inHands)
    (hqueue : w'.pendingWrites = w.pendingWrites) (hsent : w'.sent = w.sent) : w'.Kept b := by
  apply h.mono
  · intro e he
    rw [hpc, hqueue]
    exact Or.inl he
  · intro e he
    rw [hsent]
    exact he

@[simp] theorem notifyAll_inHands (w : WriteSide) : w.notifyAll.pc.inHands = w.pc.inHands := by
  rcases w.notifyAll_pc with heq | ⟨c, hc, hn⟩
  · rw [heq]
  · rw [hc, hn]
    rfl

/-- A new entry goes to the queue. -/
theorem Kept.commitWrite (h : w.Kept b) (buff : Body) (timeout : Option ℤ) (now : ℤ) :
    (w.commitWrite buff timeout now).Kept b := by
  unfold WriteSide.commitWrite
  split
  · exact h.congr rfl rfl rfl
  · split
    · rename_i f tid w' heq
      rcases updatePendingWrites_ok heq with ⟨_, l, gen, hl, rfl⟩
      apply h.mono
      · intro e he
        left
        simp only [notifyAll_inHands, notifyAll_pendingWrites, hl]
        rcases List.mem_append.mp he with hin | hq
        · exact List.mem_append_left _ hin
        · exact List.mem_append_right _ (List.mem_cons_of_mem _ hq)
      · intro e he
        simp only [notifyAll_sent]
        exact he
    · rename_i ex w' heq
      rcases updatePendingWrites_error heq with ⟨gen, rfl⟩
      exact h.congr rfl rfl rfl

/-- Popping an entry hands it to the write thread. -/
theorem Kept.take (h : w.Kept b) (hpc : w.pc = .locked) : w.take.Kept b := by
  unfold WriteSide.take
  split
  · exact h.congr (by rw [hpc]; rfl) rfl rfl
  · rename_i e l heq
    apply h.mono
    · intro d hd
      left
      rw [hpc, (StaticList.popLeft_ok heq).2] at hd
      exact hd
    · intro d hd
      exact hd

/-- What the test of the timeout may lose is the entry popped. -/
theorem Kept.check (h : w.Kept b) {e : PendingWrite} (hpc : w.pc = .holding e) {now : ℤ}
    (hfit : e.IsOf b → e.expired now = false ∧ Encodable (e.transactionId, e.buff)) :
    (w.check e now).Kept b := by
  rcases h with ⟨d, hd, hof⟩ | ⟨d, hd, hof⟩
  · rw [hpc] at hd
    rcases List.mem_cons.mp hd with rfl | hq
    · -- the entry of the slot is the one popped: it is neither expired nor too large
      rcases hfit hof with ⟨hexp, henc⟩
      unfold WriteSide.check
      rw [hexp, generatePacket_ok henc]
      exact Or.inl ⟨d, List.mem_cons_self, hof⟩
    · refine Or.inl ⟨d, List.mem_append_right _ ?_, hof⟩
      unfold WriteSide.check
      split
      · exact hq
      · split <;> exact hq
  · refine Or.inr ⟨d, ?_, hof⟩
    unfold WriteSide.check
    split
    · exact hd
    · split <;> exact hd

end WriteSide

namespace SharedBlockingConnection

/-- What a step must not do: find a heartbeat expired, or too large for a packet. -/
def heartbeatsFit (l : Label) (s : SharedBlockingConnection) : Bool :=
  match l with
  | .writeCheck e now =>
      !(s.heartbeats.entries.any fun b => b.key == e.transactionId && b.value == e.future) ||
        (!e.expired now && decide (Encodable (e.transactionId, e.buff)))
  | _ => true

theorem heartbeatsFit_check {e : PendingWrite} {now : ℤ} {s : SharedBlockingConnection}
    (h : heartbeatsFit (.writeCheck e now) s = true) {b : Entry ℕ ℕ}
    (hb : b ∈ s.heartbeats.entries) (hof : e.IsOf b) :
    e.expired now = false ∧ Encodable (e.transactionId, e.buff) := by
  have hany : (s.heartbeats.entries.any fun b => b.key == e.transactionId && b.value == e.future) =
      true := by
    rw [List.any_eq_true]
    exact ⟨b, hb, by simp [hof.1, hof.2]⟩
  simpa [heartbeatsFit, hany] using h

/-- Inserting a heartbeat: the new slot's entry is in the queue, and nothing that
was kept is lost. -/
theorem insertHeartbeat_spec (s : SharedBlockingConnection) (cfg : Config) (now : ℤ)
    (heartbeat : Except Exc Body) (hpc : s.writeSide.pc = .woken) :
    (∀ b ∈ (s.insertHeartbeat cfg now heartbeat).heartbeats.entries, b ∈ s.heartbeats.entries ∨
      ((s.insertHeartbeat cfg now heartbeat).writeSide.Waiting b ∧
        ⟨b.key, b.value, s.readSide.received.length⟩ ∈
          (s.insertHeartbeat cfg now heartbeat).beats)) ∧
    (∀ b, s.writeSide.Kept b → (s.insertHeartbeat cfg now heartbeat).writeSide.Kept b) ∧
    ∀ beat ∈ s.beats, beat ∈ (s.insertHeartbeat cfg now heartbeat).beats := by
  unfold insertHeartbeat
  split
  · split
    · exact ⟨fun b hb => Or.inl hb, fun b h => h.congr (by rw [hpc]; rfl) rfl rfl, fun _ h => h⟩
    · rename_i buff
      split
      · rename_i ex w heq
        rcases WriteSide.updatePendingWrites_error heq with ⟨gen, rfl⟩
        exact ⟨fun b hb => Or.inl hb, fun b h => h.congr (by rw [hpc]; rfl) rfl rfl, fun _ h => h⟩
      · rename_i f tid w heq
        rcases WriteSide.updatePendingWrites_ok heq with ⟨_, l, gen, hl, rfl⟩
        refine ⟨?_, ?_, fun beat hb => List.mem_append_left _ hb⟩
        · intro b hb
          rcases LRUCache.mem_setItem hb with rfl | hold
          · right
            refine ⟨⟨⟨buff, f, tid, now, cfg.heartbeatInterval⟩, ?_, rfl, rfl⟩,
              List.mem_append_right _ List.mem_cons_self⟩
            show _ ∈ [] ++ l.elements
            rw [hl]
            exact List.mem_cons_self
          · exact Or.inl hold
        · intro b h
          apply h.mono
          · intro e he
            left
            rw [hpc] at he
            show e ∈ [] ++ l.elements
            rw [hl]
            exact List.mem_cons_of_mem _ he
          · intro e he
            exact he
  · exact ⟨fun b hb => Or.inl hb, fun b h => h.congr (by rw [hpc]; rfl) rfl rfl, fun _ h => h⟩

/-- Answering takes the slot of the packet's id away. -/
theorem answerHeartbeat_heartbeats {s : SharedBlockingConnection} {p : Packet} {b : Entry ℕ ℕ}
    (hb : b ∈ (s.answerHeartbeat p).heartbeats.entries) :
    b ∈ s.heartbeats.entries ∧ b.key ≠ p.1 := by
  unfold answerHeartbeat at hb
  split at hb
  · rename_i f hbs heq
    rcases LRUCache.getItem_some heq with ⟨_, _, _, _, rfl⟩
    rcases LRUCache.mem_erase.mp hb with ⟨hmem, hkey⟩
    exact ⟨LRUCache.mem_touch.mp hmem, fun hk => hkey (hash_nat_inj.mpr hk)⟩
  · rename_i heq
    refine ⟨hb, ?_⟩
    intro hk
    have hcontains := LRUCache.getItem_none heq
    have hmem : s.heartbeats.contains p.1 = true :=
      LRUCache.contains_iff.mpr ⟨b, hb, hash_nat_inj.mpr hk⟩
    rw [hcontains] at hmem
    cases hmem

/-- A step keeps what is kept, but for a popped heartbeat that does not fit. -/
theorem kept_step {cfg : Config} {l : Label} {s : SharedBlockingConnection} {b : Entry ℕ ℕ}
    (hg : guard cfg l s) (hfit : heartbeatsFit l s = true) (hok : s.flags.Ok)
    (hopen : (update cfg l s).flags.test = false) (hb : b ∈ s.heartbeats.entries)
    (h : s.writeSide.Kept b) : (update cfg l s).writeSide.Kept b := by
  have hclosed : ¬ s.flags.test = true := by
    rw [test_of_update hg hok hopen]
    exact Bool.false_ne_true
  cases l with
  | writeEnter buff timeout =>
      show (s.writeSide.enterWrite _ _ _).Kept b
      unfold WriteSide.enterWrite
      split <;> exact h.congr rfl rfl rfl
  | writeCommit buff timeout now => exact h.commitWrite buff timeout now
  -- returning from `close()` and `_close_write` need a connection that is not open
  | closeReturn c =>
      exact absurd (CloseFlags.test_eq_true.mpr (hg.2.2.imp_right And.left)) hclosed
  | closeDone c =>
      exact absurd (CloseFlags.test_eq_true.mpr (Or.inl (hok.closing_of_closer _ _ hg))) hclosed
  | closeWrite c =>
      exact absurd (CloseFlags.test_eq_true.mpr (Or.inl (hok.closing_of_closer _ _ hg.1))) hclosed
  | writeMissing wakeup =>
      have hpc : s.writeSide.pc = .precheck true wakeup := hg
      exact h.congr (by rw [hpc]; rfl) rfl rfl
  | writeNotify => exact h.congr (by rw [hg.1]; rfl) rfl rfl
  | writeAcquire =>
      show (s.writeSide.acquire _).Kept b
      unfold WriteSide.acquire
      split <;> exact h.congr (by rw [hg.1]; rfl) rfl rfl
  | writeTake => exact h.take hg
  | writeWake notified =>
      show (s.writeSide.wake _ _).Kept b
      unfold WriteSide.wake
      split <;> exact h.congr (by rw [hg.1]; rfl) rfl rfl
  | writeBeat now heartbeat => exact (insertHeartbeat_spec s cfg now heartbeat hg.1).2.1 b h
  | writeCheck e now => exact h.check hg fun hof => heartbeatsFit_check hfit hb hof
  | writeSend e rest k => exact h.congr (by rw [hg.1]; rfl) rfl rfl
  | writeFinish e =>
      have hpc : s.writeSide.pc = .sending e [] := hg
      apply h.mono
      · intro d hd
        rw [hpc] at hd
        rcases List.mem_cons.mp hd with rfl | hq
        · exact Or.inr (List.mem_append_right _ (List.mem_singleton.mpr rfl))
        · exact Or.inl hq
      · intro d hd
        exact List.mem_append_left _ hd
  | writeFail e rest timedOut => exact h.congr (by rw [hg.1]; rfl) rfl rfl
  | readHeartbeat p =>
      show (s.answerHeartbeat p).writeSide.Kept b
      unfold answerHeartbeat
      split
      · exact h.congr rfl rfl rfl
      · exact h
  | _ => exact h

end SharedBlockingConnection

/-- A step of the read thread that reads no packet and drops none it has not looked
at. -/
theorem Unanswered.congr {r r' : ReadSide} {beats beats' : List Beat} {b : Entry ℕ ℕ}
    (h : Unanswered r beats b) (hbeats : ∀ beat ∈ beats, beat ∈ beats')
    (hreceived : r'.received = r.received)
    (hpc : ∀ q, q.1 = b.key → r.pc = .received q ∨ r.pc = .heartbeatLocked q →
      r'.pc = .received q ∨ r'.pc = .heartbeatLocked q) : Unanswered r' beats' b := by
  rcases h with ⟨beat, hbeat, htid, hf, hq⟩
  refine ⟨beat, hbeats beat hbeat, htid, hf, ?_⟩
  rw [hreceived]
  intro q hmem hkey
  exact hpc q hkey (hq q hmem hkey)

/-- Away from `_heartbeat_lock` the read thread has no packet to look at. -/
theorem Unanswered.away {r r' : ReadSide} {beats beats' : List Beat} {b : Entry ℕ ℕ}
    (h : Unanswered r beats b) (hbeats : ∀ beat ∈ beats, beat ∈ beats')
    (hreceived : r'.received = r.received) (hne : ∀ q, r.pc ≠ .received q)
    (hne' : ∀ q, r.pc ≠ .heartbeatLocked q) : Unanswered r' beats' b := by
  apply h.congr hbeats hreceived
  rintro q _ (hpc | hpc)
  · exact absurd hpc (hne q)
  · exact absurd hpc (hne' q)

/-- A packet that is read may be the response, but then it is looked at next. -/
theorem Unanswered.receive {r : ReadSide} {beats : List Beat} {b : Entry ℕ ℕ}
    (h : Unanswered r beats b) (hpc : r.pc = .reading) (p : Packet) (rest : List UInt8) :
    Unanswered (r.receive p rest) beats b := by
  rcases h with ⟨beat, hbeat, htid, hf, hq⟩
  refine ⟨beat, hbeat, htid, hf, ?_⟩
  intro q hmem hkey
  have hmem' : q ∈ r.received.drop beat.receivedBefore ∨ q = p := by
    rw [show (r.receive p rest).received = r.received ++ [p] from rfl, List.drop_append] at hmem
    rcases List.mem_append.mp hmem with hold | hnew
    · exact Or.inl hold
    · exact Or.inr (List.mem_singleton.mp (List.mem_of_mem_drop hnew))
  rcases hmem' with hold | rfl
  · -- the read thread was in `transport.read`, with no packet in hand
    rcases hq q hold hkey with hpc' | hpc'
    · rw [hpc] at hpc'
      cases hpc'
    · rw [hpc] at hpc'
      cases hpc'
  · exact Or.inl rfl

/-- On an open connection the packet is looked at under `_heartbeat_lock`. -/
theorem Unanswered.lockHeartbeats {r : ReadSide} {beats : List Beat} {b : Entry ℕ ℕ}
    (h : Unanswered r beats b) {p : Packet} (hpc : r.pc = .received p) :
    Unanswered (r.lockHeartbeats false p) beats b := by
  unfold ReadSide.lockHeartbeats
  rw [if_neg Bool.false_ne_true]
  refine h.congr (fun _ hbeat => hbeat) rfl ?_
  rintro q _ (hq | hq)
  · rw [hpc] at hq
    cases hq
    exact Or.inr rfl
  · rw [hpc] at hq
    cases hq

namespace SharedBlockingConnection

/-- The response to another heartbeat is taken. -/
theorem unanswered_answerHeartbeat {s : SharedBlockingConnection} {beats : List Beat}
    {b : Entry ℕ ℕ} (h : Unanswered s.readSide beats b) {p : Packet}
    (hpc : s.readSide.pc = .heartbeatLocked p) (hkey : b.key ≠ p.1) :
    Unanswered (s.answerHeartbeat p).readSide beats b := by
  have hreceived : (s.answerHeartbeat p).readSide.received = s.readSide.received := by
    rcases readSide_answerHeartbeat s p with heq | heq
    · rw [heq]
    · rw [heq]
  apply h.congr (fun _ hbeat => hbeat) hreceived
  rintro q hq (hr | hr)
  · rw [hpc] at hr
    cases hr
  · rw [hpc] at hr
    cases hr
    exact absurd hq.symm hkey

/-- Heartbeats that have been inserted stay on record. -/
theorem beats_update {cfg : Config} {l : Label} {s : SharedBlockingConnection}
    (hg : guard cfg l s) : ∀ beat ∈ s.beats, beat ∈ (update cfg l s).beats := by
  intro beat hbeat
  cases l with
  | writeBeat now heartbeat => exact (insertHeartbeat_spec s cfg now heartbeat hg.1).2.2 beat hbeat
  | readHeartbeat p =>
      show beat ∈ (s.answerHeartbeat p).beats
      unfold answerHeartbeat
      split <;> exact hbeat
  | _ => exact hbeat

/-- A step leaves a slot it does not take away unanswered. -/
theorem unanswered_step {cfg : Config} {l : Label} {s : SharedBlockingConnection} {b : Entry ℕ ℕ}
    (hg : guard cfg l s) (hok : s.flags.Ok) (hopen : (update cfg l s).flags.test = false)
    (hb : b ∈ (update cfg l s).heartbeats.entries)
    (h : Unanswered s.readSide s.beats b) :
    Unanswered (update cfg l s).readSide (update cfg l s).beats b := by
  have htest := test_of_update hg hok hopen
  -- the connection is open before the step, which rules the steps of `close()` out
  have hnot : ¬ (s.flags.closing = true ∨ s.flags.closed = true) := by
    rw [← CloseFlags.test_eq_true, htest]
    exact Bool.false_ne_true
  have hun : Unanswered s.readSide (update cfg l s).beats b :=
    h.congr (beats_update hg) rfl fun _ _ hpc => hpc
  have hsame : ∀ beat ∈ (update cfg l s).beats, beat ∈ (update cfg l s).beats := fun _ h => h
  rw [readSide_update]
  cases l with
  | readEnter tid =>
      show Unanswered (s.readSide.enterRead _ _) _ b
      unfold ReadSide.enterRead
      split <;> exact hun.congr hsame rfl fun _ _ hpc => hpc
  | readCommit tid =>
      rcases s.readSide.commitRead_frame tid with ⟨_, _, hreceived, _, _, hpc⟩
      rcases hpc with heq | ⟨c, hc, _⟩
      · exact hun.congr hsame hreceived fun _ _ hq => by rw [heq]; exact hq
      · exact hun.away hsame hreceived (by rw [hc]; nofun) (by rw [hc]; nofun)
  | closeReturn c => exact absurd (hg.2.2.imp_right And.left) hnot
  | closeDone c => exact absurd (Or.inl (hok.closing_of_closer _ _ hg)) hnot
  | closeRead c => exact absurd (Or.inl (hok.closing_of_closer _ _ hg.1)) hnot
  | writeNotify =>
      show Unanswered s.readSide.notifyAll _ b
      unfold ReadSide.notifyAll
      split
      · rename_i c hc
        exact hun.away hsame rfl (by rw [hc]; nofun) (by rw [hc]; nofun)
      · exact hun
  | readAcquire =>
      show Unanswered (s.readSide.acquire _) _ b
      unfold ReadSide.acquire
      split <;> exact hun.away hsame rfl (by rw [hg.1]; nofun) (by rw [hg.1]; nofun)
  | readLook =>
      have hpc : s.readSide.pc = .locked := hg
      show Unanswered (s.readSide.look _) _ b
      unfold ReadSide.look
      split <;> exact hun.away hsame rfl (by rw [hpc]; nofun) (by rw [hpc]; nofun)
  | readWake => exact hun.away hsame rfl (by rw [hg.1]; nofun) (by rw [hg.1]; nofun)
  | readReceive p rest => exact hun.receive hg.1 p rest
  | readFail =>
      have hpc : s.readSide.pc = .reading := hg
      exact hun.away hsame rfl (by rw [hpc]; nofun) (by rw [hpc]; nofun)
  | readHeartbeatLock p =>
      show Unanswered (s.readSide.lockHeartbeats _ p) _ b
      rw [htest]
      exact hun.lockHeartbeats hg
  | readHeartbeat p => exact unanswered_answerHeartbeat hun hg (answerHeartbeat_heartbeats hb).2
  | readRouteLock p =>
      show Unanswered (s.readSide.lockRoute _ _) _ b
      unfold ReadSide.lockRoute
      split <;> exact hun.away hsame rfl (by rw [hg.1]; nofun) (by rw [hg.1]; nofun)
  | readRoute p =>
      have hpc : s.readSide.pc = .routing p := hg
      exact hun.away hsame (s.readSide.route_frame p).2.2.1 (by rw [hpc]; nofun)
        (by rw [hpc]; nofun)
  | deliver bs => exact hun
  | _ => exact hun

/-! ## The slots of an open connection -/

/-- What an open connection promises about its heartbeats. -/
structure SlotsReal (s : SharedBlockingConnection) : Prop where
  /-- a slot is held by a heartbeat still to be sent, or one written in full and not
  answered -/
  real : ∀ b ∈ s.heartbeats.entries, s.writeSide.Waiting b ∨
    (s.writeSide.Written b ∧ Unanswered s.readSide s.beats b)
  /-- the slots counted before the connection is given up are all of the second kind -/
  counted : s.writeSide.pc = .woken → ∀ b ∈ s.heartbeats.entries,
    s.writeSide.Written b ∧ Unanswered s.readSide s.beats b

/-- The slots of an open connection, with the flags and the write thread's blocks. -/
structure SlotsInv (s : SharedBlockingConnection) : Prop where
  flags : s.flags.Ok
  blocks : WriteBlocks s.writeSide
  slots : s.flags.test = false → ∀ b ∈ s.heartbeats.entries,
    s.writeSide.Kept b ∧ Unanswered s.readSide s.beats b

theorem slots_step {cfg : Config} {l : Label} {s : SharedBlockingConnection}
    (hg : guard cfg l s) (hfit : heartbeatsFit l s = true) (h : SlotsInv s) :
    SlotsInv (update cfg l s) := by
  refine ⟨flags_step hg h.flags, blocks_step hg h.blocks, ?_⟩
  intro hopen b hb
  have htest := test_of_update hg h.flags hopen
  have hold : b ∈ s.heartbeats.entries → (update cfg l s).writeSide.Kept b ∧
      Unanswered (update cfg l s).readSide (update cfg l s).beats b := by
    intro hmem
    rcases h.slots htest b hmem with ⟨hkept, hun⟩
    exact ⟨kept_step hg hfit h.flags hopen hmem hkept, unanswered_step hg h.flags hopen hb hun⟩
  cases l with
  | writeBeat now heartbeat =>
      rcases (insertHeartbeat_spec s cfg now heartbeat hg.1).1 b hb with hmem | ⟨hwait, hbeat⟩
      · exact hold hmem
      · -- the new slot: its entry is queued, and nothing has been read since
        refine ⟨Or.inl hwait, ⟨b.key, b.value, s.readSide.received.length⟩, hbeat, rfl, rfl, ?_⟩
        intro q hq
        rw [readSide_update] at hq
        have hnil : s.readSide.received.drop s.readSide.received.length = [] :=
          List.drop_length
        rw [show (s.readSide.received.drop s.readSide.received.length) = [] from hnil] at hq
        cases hq
  | readHeartbeat p => exact hold (answerHeartbeat_heartbeats hb).1
  | _ => exact hold hb

theorem slotsInv_reachable (cfg : Config) :
    ∀ s, ((system cfg).restrict (fun l s => heartbeatsFit l s)).Reachable s → SlotsInv s := by
  apply Lts.Spec.invariant
  · rintro s rfl
    refine ⟨flags_new cfg, WriteBlocks.outside rfl, ?_⟩
    intro _ b hb
    cases hb
  · intro l s hg h
    exact slots_step hg.1 hg.2 h

/-- In every run in which no heartbeat is found expired or too large for a packet,
the slots of an open connection are held by real heartbeats. -/
theorem heartbeat_slots_real (cfg : Config) :
    ∀ s, ((system cfg).restrict (fun l s => heartbeatsFit l s)).Reachable s →
      s.flags.closing = false → s.flags.closed = false → SlotsReal s := by
  intro s hr hclosing hclosed
  have h := slotsInv_reachable cfg s hr
  have hslots := h.slots (CloseFlags.test_eq_false.mpr ⟨hclosing, hclosed⟩)
  constructor
  · intro b hb
    rcases hslots b hb with ⟨hwait | hwritten, hun⟩
    · exact Or.inl hwait
    · exact Or.inr ⟨hwritten, hun⟩
  · intro hpc b hb
    rcases hslots b hb with ⟨⟨e, he, _⟩ | hwritten, hun⟩
    · -- the queue is empty and the write thread has nothing in its hands
      rw [hpc, h.blocks.empty hpc] at he
      cases he
    · exact ⟨hwritten, hun⟩

/-- A heartbeat every ten ticks. -/
def beatingConfig : Config where
  maxPendingWrites := none
  maxPendingReads := none
  maxPoolingReads := none
  writeTimeout := some 60
  heartbeatInterval := some 10
  heartbeatFunc := true

/-- A heartbeat is inserted and popped, up to the test of its timeout. -/
def oneBeat : List Label :=
  [.writeAcquire, .writeTake, .writeWake false, .writeBeat 0 (.ok [1]), .writeNotify,
    .writeAcquire, .writeTake]

/-- A heartbeat is written, and a second one is due. -/
def twoBeats : List Label :=
  let e : PendingWrite := ⟨[1], 0, 1, 0, some 10⟩
  let data : List UInt8 := [0, 0, 0, 1, 0, 0, 0, 1, 1]
  oneBeat ++ [.writeCheck e 1, .writeSend e data 9, .writeFinish e, .writeAcquire, .writeTake,
    .writeWake false]

/-- The run above: the slot counted is that of a heartbeat written in full. -/
theorem heartbeat_slots_real_twoBeats :
    let s := ((system beatingConfig).restrict (fun l s => heartbeatsFit l s)).run twoBeats
      (new beatingConfig)
    s.writeSide.pc = .woken ∧ s.heartbeats.entries = [⟨1, 0⟩] ∧ SlotsReal s := by
  refine ⟨by decide, by decide, ?_⟩
  exact heartbeat_slots_real beatingConfig _ ((Lts.Spec.Reachable.init rfl).run _)
    (by decide) (by decide)

/-- A heartbeat that has waited for its interval when it is popped is failed, but
keeps its slot. -/
theorem expired_heartbeat_keeps_slot :
    ¬ ∀ s, (system beatingConfig).Reachable s →
      s.flags.closing = false → s.flags.closed = false → SlotsReal s := by
  intro h
  let run := oneBeat ++ [.writeCheck ⟨[1], 0, 1, 0, some 10⟩ 10]
  have hr := (Lts.Spec.Reachable.init rfl :
    (system beatingConfig).Reachable (new beatingConfig)).run run
  have hreal := (h _ hr (by decide) (by decide)).real ⟨1, 0⟩ (by decide)
  rcases hreal with ⟨e, he, _⟩ | ⟨⟨e, he, _⟩, _⟩
  · exact absurd (List.ne_nil_of_mem he) (by decide)
  · exact absurd (List.ne_nil_of_mem he) (by decide)

end SharedBlockingConnection

end SummerRpc
