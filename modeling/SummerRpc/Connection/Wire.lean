import SummerRpc.Connection.WriteFutures

/-! # What the write thread puts on the socket

The entries of `_pending_writes` get distinct transaction ids, and the socket is
given their packets one after the other, each of them whole unless the write thread
has stopped in the middle of it.

* `Counted`: the id generator counts the calls of `_update_pending_writes`;
* `Issued`: packets with distinct ids handed out so far;
* `OnWire`: the socket, the packets begun and the entries still to come;
* `onWire_step`: what a step adds to them, over every interleaving.
-/

namespace SummerRpc

open BaseRecordTransport Framing

/-! ## Transaction ids -/

/-- The id generator has been called once for every future. -/
def WriteSide.Counted (w : WriteSide) : Prop :=
  w.idGenerator = (AtomicInteger.new 0 sysMaxint).after w.futures.count

/-- As long as the ids fit their field, they are the numbers of the calls. -/
theorem WriteSide.Counted.next_id {w : WriteSide} (h : w.Counted)
    (hfew : w.futures.count + 1 < 2 ^ 32) :
    (w.idGenerator.increase 1).1 = w.futures.count + 1 := by
  have hmax : w.futures.count + 1 < sysMaxint + 1 := by
    rw [sysMaxint]
    omega
  have hnth : (w.idGenerator.increase 1).1 =
      (AtomicInteger.new 0 sysMaxint).nth (w.futures.count + 1) := by rw [h]; rfl
  rw [hnth, AtomicInteger.nth_new_zero sysMaxint (Nat.succ_pos _), Nat.mod_eq_of_lt hmax]

/-- Packets whose ids are distinct and among the first `count`. -/
structure Issued (ps : List Packet) (count : ℕ) : Prop where
  nodup : (ps.map Prod.fst).Nodup
  le : ∀ p ∈ ps, p.1 ≤ count

namespace Issued

variable {ps qs : List Packet} {m n : ℕ}

theorem mono (h : Issued ps m) (hs : qs.Sublist ps) (hle : m ≤ n) : Issued qs n where
  nodup := h.nodup.sublist (hs.map _)
  le := fun p hp => Nat.le_trans (h.le p (hs.subset hp)) hle

/-- The packet with the next id. -/
theorem insert (h : Issued ps n) {p : Packet} (hp : p.1 = n + 1) (hq : qs.Perm (p :: ps)) :
    Issued qs (n + 1) := by
  constructor
  · rw [(hq.map _).nodup_iff, List.map_cons, List.nodup_cons]
    refine ⟨?_, h.nodup⟩
    intro hmem
    rcases List.mem_map.mp hmem with ⟨q, hqmem, heq⟩
    have hle := h.le q hqmem
    omega
  · intro q hqmem
    rcases List.mem_cons.mp (hq.mem_iff.mp hqmem) with rfl | hold
    · exact Nat.le_of_eq hp
    · exact Nat.le_succ_of_le (h.le q hold)

end Issued

/-! ## The socket -/

/-- What `transport.write` is given. -/
def PendingWrite.packet (e : PendingWrite) : Packet := (e.transactionId, e.buff)

/-- The entry the write thread has popped and has not begun to send. -/
def WritePc.unsent : WritePc → List PendingWrite
  | .holding e => [e]
  | _ => []

/-- The bytes of the packet in `transport.write` that are not sent. -/
def WritePc.rest : WritePc → List UInt8
  | .sending _ rest => rest
  | _ => []

/-- The write thread sends nothing any more. -/
def WritePc.stopped : WritePc → Bool
  | .closing _ | .exited | .died => true
  | _ => false

/-- The entries whose packets have not been begun. -/
def WriteSide.unsent (w : WriteSide) : List PendingWrite := w.pc.unsent ++ w.pendingWrites.elements

/-- The packets begun, and those still to come. -/
def WriteSide.packets (w : WriteSide) (begun : List Packet) : List Packet :=
  begun ++ w.unsent.map PendingWrite.packet

/-- The bytes on the socket are those of the packets begun. Only a thread that has
stopped leaves its last packet incomplete. -/
structure OnWire (w : WriteSide) (begun : List Packet) : Prop where
  encodable : ∀ p ∈ begun, Encodable p
  issued : Issued (w.packets begun) w.futures.count
  isPrefix : w.outgoing <+: packetCode.encAll begun
  whole : w.pc.stopped = false → w.outgoing ++ w.pc.rest = packetCode.encAll begun

namespace OnWire

variable {w w' : WriteSide} {begun : List Packet}

/-- A step that puts nothing on the socket; it may drop entries. -/
theorem congr (h : OnWire w begun) (hout : w'.outgoing = w.outgoing)
    (hcount : w.futures.count ≤ w'.futures.count) (hunsent : w'.unsent.Sublist w.unsent)
    (hpc : w'.pc.stopped = false → w.pc.stopped = false ∧ w'.pc.rest = w.pc.rest) :
    OnWire w' begun := by
  constructor
  · exact h.encodable
  · exact h.issued.mono ((hunsent.map _).append_left _) hcount
  · rw [hout]
    exact h.isPrefix
  · intro hrun
    rw [hout, (hpc hrun).2]
    exact h.whole (hpc hrun).1

/-- A new entry waits in the queue. -/
theorem insert (h : OnWire w begun) (w' : WriteSide) (e : PendingWrite)
    (hid : e.transactionId = w.futures.count + 1) (hout : w'.outgoing = w.outgoing)
    (hcount : w'.futures.count = w.futures.count + 1)
    (hqueue : w'.pendingWrites.elements = e :: w.pendingWrites.elements)
    (hunsent : w'.pc.unsent = w.pc.unsent)
    (hpc : w'.pc.stopped = false → w.pc.stopped = false ∧ w'.pc.rest = w.pc.rest) :
    OnWire w' begun ∧ (w'.packets begun).Perm (e.packet :: w.packets begun) := by
  have hperm : (w'.packets begun).Perm (e.packet :: w.packets begun) := by
    unfold WriteSide.packets WriteSide.unsent
    rw [hqueue, hunsent, List.map_append, List.map_cons, ← List.append_assoc, List.map_append,
      ← List.append_assoc]
    exact List.perm_middle
  refine ⟨⟨h.encodable, ?_, ?_, ?_⟩, hperm⟩
  · rw [hcount]
    exact h.issued.insert hid hperm
  · rw [hout]
    exact h.isPrefix
  · intro hrun
    rw [hout, (hpc hrun).2]
    exact h.whole (hpc hrun).1

/-- The write thread begins the packet of the entry it holds. -/
theorem beginPacket (h : OnWire w begun) {e : PendingWrite} (hpc : w.pc = .holding e)
    {data : List UInt8} (hdata : generatePacket e.transactionId e.buff = .ok data) :
    OnWire { w with pc := .sending e data } (begun ++ [e.packet]) ∧
      WriteSide.packets { w with pc := .sending e data } (begun ++ [e.packet]) =
        w.packets begun := by
  obtain ⟨henc, rfl⟩ := generatePacket_eq_enc.mp hdata
  have hpackets : WriteSide.packets
      { w with pc := .sending e (packetCode.enc (e.transactionId, e.buff)) }
      (begun ++ [e.packet]) = w.packets begun := by
    simp only [WriteSide.packets, WriteSide.unsent, hpc, WritePc.unsent, List.nil_append,
      List.map_append, List.map_cons, List.map_nil, List.append_assoc]
  have hall : packetCode.encAll (begun ++ [e.packet]) =
      packetCode.encAll begun ++ packetCode.enc (e.transactionId, e.buff) :=
    packetCode.encAll_concat begun e.packet
  have hwhole : w.outgoing = packetCode.encAll begun := by
    have hw := h.whole (by rw [hpc]; rfl)
    rw [hpc] at hw
    simpa [WritePc.rest] using hw
  refine ⟨⟨?_, ?_, ?_, ?_⟩, hpackets⟩
  · exact List.forall_mem_append.mpr ⟨h.encodable, List.forall_mem_singleton.mpr henc⟩
  · rw [hpackets]
    exact h.issued
  · rw [hall]
    exact h.isPrefix.trans (List.prefix_append _ _)
  · intro _
    show w.outgoing ++ packetCode.enc (e.transactionId, e.buff) = _
    rw [hall, hwhole]

/-- The socket takes some bytes of the packet. -/
theorem send (h : OnWire w begun) {e : PendingWrite} {rest : List UInt8}
    (hpc : w.pc = .sending e rest) (k : ℕ) : OnWire (w.send e rest k) begun := by
  have hwhole := h.whole (by rw [hpc]; rfl)
  rw [hpc] at hwhole
  have hsplit : (w.outgoing ++ rest.take k) ++ rest.drop k = packetCode.encAll begun := by
    rw [List.append_assoc, List.take_append_drop]
    exact hwhole
  refine ⟨h.encodable, ?_, ⟨_, hsplit⟩, fun _ => hsplit⟩
  have hunsent : (w.send e rest k).unsent = w.unsent := by
    simp only [WriteSide.unsent, WriteSide.send, hpc, WritePc.unsent]
  unfold WriteSide.packets
  rw [hunsent]
  exact h.issued

end OnWire

/-! ## The blocks of the write side -/

namespace WriteSide

theorem updatePendingWrites_id {w w' : WriteSide} {buff : Body} {timeout : Option ℤ} {now : ℤ}
    {f tid : ℕ} (h : w.updatePendingWrites buff timeout now = (.ok (f, tid), w')) :
    tid = (w.idGenerator.increase 1).1 := by
  simp only [updatePendingWrites] at h
  split at h
  · cases h
    rfl
  · cases h

/-- A call of `_update_pending_writes` takes one id and makes one future. -/
theorem updatePendingWrites_counts (w : WriteSide) (buff : Body) (timeout : Option ℤ) (now : ℤ) :
    (w.updatePendingWrites buff timeout now).2.idGenerator = (w.idGenerator.increase 1).2 ∧
      (w.updatePendingWrites buff timeout now).2.futures = w.futures.create ∧
      (w.updatePendingWrites buff timeout now).2.outgoing = w.outgoing := by
  simp only [updatePendingWrites]
  split <;> exact ⟨rfl, rfl, rfl⟩

/-- `write` raises, or returns the next id. -/
theorem commitWrite_returns {w : WriteSide} (hcounted : w.Counted) (buff : Body)
    (timeout : Option ℤ) (now : ℤ)
    (hfew : (w.commitWrite buff timeout now).futures.count < 2 ^ 32) :
    (∃ ex, (w.commitWrite buff timeout now).returns = w.returns ++ [.error ex]) ∨
      ∃ f, (w.commitWrite buff timeout now).returns =
          w.returns ++ [.ok (w.futures.count + 1, f)] ∧
        (w.commitWrite buff timeout now).futures.count = w.futures.count + 1 := by
  revert hfew
  unfold commitWrite
  split
  · exact fun _ => Or.inl ⟨_, rfl⟩
  · split
    · rename_i f tid w₁ heq
      intro hfew
      have hfutures := (w.updatePendingWrites_counts buff timeout now).2.1
      rw [heq] at hfutures
      have hcount : w₁.notifyAll.futures.count = w.futures.count + 1 := by
        rw [notifyAll_futures, hfutures, Futures.count_create]
      have hid : tid = w.futures.count + 1 := by
        rw [updatePendingWrites_id heq]
        apply hcounted.next_id
        rw [← hcount]
        exact hfew
      exact Or.inr ⟨f, by rw [hid], hcount⟩
    · exact fun _ => Or.inl ⟨_, rfl⟩

/-- A notification reaches a thread that is in `wait`, with nothing in hand. -/
theorem notifyAll_frame (w : WriteSide) : w.notifyAll.outgoing = w.outgoing ∧
    w.notifyAll.idGenerator = w.idGenerator ∧ w.notifyAll.pc.unsent = w.pc.unsent ∧
    w.notifyAll.pc.rest = w.pc.rest ∧ w.notifyAll.pc.stopped = w.pc.stopped := by
  unfold notifyAll
  split
  · rename_i b hb
    rw [hb]
    exact ⟨rfl, rfl, rfl, rfl, rfl⟩
  · exact ⟨rfl, rfl, rfl, rfl, rfl⟩

end WriteSide

namespace OnWire

variable {w w' : WriteSide} {begun : List Packet}

/-- Only the position, the queue, the socket and the number of futures matter. -/
theorem keep (h : OnWire w begun) (hout : w'.outgoing = w.outgoing)
    (hcount : w.futures.count ≤ w'.futures.count) (hqueue : w'.pendingWrites = w.pendingWrites)
    (hpc : w'.pc = w.pc) : OnWire w' begun := by
  apply h.congr hout hcount
  · unfold WriteSide.unsent
    rw [hpc, hqueue]
  · intro hrun
    rw [hpc] at hrun ⊢
    exact ⟨hrun, rfl⟩

/-- What a step adds: at most one packet, with the next id. -/
def Adds (w w' : WriteSide) (begun begun' : List Packet) (body : Body → Prop) : Prop :=
  ∀ p ∈ w'.packets begun', p ∈ w.packets begun ∨ (p.1 = w.futures.count + 1 ∧ body p.2)

theorem adds_of_unsent {body : Body → Prop} (hunsent : w'.unsent.Sublist w.unsent) :
    Adds w w' begun begun body := by
  intro p hp
  exact Or.inl (((hunsent.map _).append_left _).subset hp)

/-- `write` inserts the entry with its body. -/
theorem commitWrite (h : OnWire w begun) (hcounted : w.Counted) (buff : Body)
    (timeout : Option ℤ) (now : ℤ)
    (hfew : (w.commitWrite buff timeout now).futures.count < 2 ^ 32) :
    OnWire (w.commitWrite buff timeout now) begun ∧
      Adds w (w.commitWrite buff timeout now) begun begun (· = buff) := by
  revert hfew
  unfold WriteSide.commitWrite
  split
  · intro _
    exact ⟨h.keep rfl (Nat.le_refl _) rfl rfl, adds_of_unsent (List.Sublist.refl _)⟩
  · split
    · rename_i f tid w₁ heq
      intro hfew
      have htid := WriteSide.updatePendingWrites_id heq
      rcases WriteSide.updatePendingWrites_ok heq with ⟨_, l, gen, hl, rfl⟩
      -- no id has been used twice yet, so the id is the number of the future
      have hid : tid = w.futures.count + 1 := by
        rw [htid]
        apply hcounted.next_id
        simpa using hfew
      rcases WriteSide.notifyAll_frame
        { w with pendingWrites := l, futures := w.futures.create, idGenerator := gen } with
        ⟨hout, _, hunsent, hrest, hstopped⟩
      have hins := h.insert { WriteSide.notifyAll
          { w with pendingWrites := l, futures := w.futures.create, idGenerator := gen } with
          condition := .free, returns := w.returns ++ [Except.ok (tid, f)] }
        ⟨buff, f, tid, now, timeout⟩ hid hout (by simp) (by simpa using hl) hunsent
        (fun hrun => ⟨hstopped.symm.trans hrun, hrest⟩)
      refine ⟨hins.1, ?_⟩
      intro p hp
      rcases List.mem_cons.mp (hins.2.mem_iff.mp hp) with rfl | hold
      · exact Or.inr ⟨hid, rfl⟩
      · exact Or.inl hold
    · -- the refused entry has used an id up
      rename_i ex w₁ heq
      intro _
      rcases WriteSide.updatePendingWrites_error heq with ⟨gen, rfl⟩
      exact ⟨h.keep rfl (Nat.le_succ _) rfl rfl, adds_of_unsent (List.Sublist.refl _)⟩

/-- The write thread pops an entry, or waits. -/
theorem take (h : OnWire w begun) (hpc : w.pc = .locked) :
    OnWire w.take begun ∧ w.take.unsent.Sublist w.unsent := by
  have hunsent : w.take.unsent.Sublist w.unsent := by
    unfold WriteSide.unsent WriteSide.take
    rw [hpc]
    split
    · exact List.Sublist.refl _
    · rename_i e l heq
      rw [(StaticList.popLeft_ok heq).2]
      exact List.Sublist.refl _
  refine ⟨h.congr ?_ ?_ hunsent ?_, hunsent⟩
  · unfold WriteSide.take
    split <;> rfl
  · unfold WriteSide.take
    split <;> exact Nat.le_refl _
  · intro _
    rw [hpc]
    unfold WriteSide.take
    split <;> exact ⟨rfl, rfl⟩

/-- The write thread begins the packet of the entry it holds, or drops the entry. -/
theorem check (h : OnWire w begun) {e : PendingWrite} (hpc : w.pc = .holding e) (now : ℤ) :
    ∃ begun', OnWire (w.check e now) begun' ∧
      ∀ p ∈ (w.check e now).packets begun', p ∈ w.packets begun := by
  -- without a packet the entry is gone
  have hdrop : ∀ w' : WriteSide, w'.outgoing = w.outgoing → w'.futures.count = w.futures.count →
      w'.pendingWrites = w.pendingWrites → w'.pc.unsent = [] → w'.pc.rest = [] →
      OnWire w' begun ∧ ∀ p ∈ w'.packets begun, p ∈ w.packets begun := by
    intro w' hout hcount hqueue hun hrest
    have hunsent : w'.unsent.Sublist w.unsent := by
      unfold WriteSide.unsent
      rw [hqueue, hun]
      exact List.sublist_append_right _ _
    refine ⟨h.congr hout (Nat.le_of_eq hcount.symm) hunsent ?_, ?_⟩
    · intro _
      rw [hrest, hpc]
      exact ⟨rfl, rfl⟩
    · intro p hp
      exact ((hunsent.map _).append_left _).subset hp
  unfold WriteSide.check
  split
  · exact ⟨begun, hdrop _ rfl rfl rfl rfl rfl⟩
  · split
    · rename_i data hdata
      have hb := h.beginPacket hpc hdata
      refine ⟨_, hb.1, ?_⟩
      rw [hb.2]
      exact fun p hp => hp
    · exact ⟨begun, hdrop _ rfl rfl rfl rfl rfl⟩

/-- `_close_write` empties the queue. -/
theorem close (h : OnWire w begun) : OnWire w.close begun ∧ w.close.unsent.Sublist w.unsent := by
  rcases WriteSide.notifyAll_frame
    { w with
      futures := w.futures.failAll (w.pendingWrites.elements.map PendingWrite.future) writeAbort
      pendingWrites := { w.pendingWrites with elements := [], length_le := Nat.zero_le _ } } with
    ⟨hout, _, hun, hrest, hstopped⟩
  have hunsent : w.close.unsent.Sublist w.unsent := by
    unfold WriteSide.unsent WriteSide.close
    rw [hun, WriteSide.notifyAll_pendingWrites]
    exact (List.nil_sublist _).append_left _
  refine ⟨h.congr hout ?_ hunsent fun hrun => ⟨hstopped.symm.trans hrun, hrest⟩, hunsent⟩
  unfold WriteSide.close
  rw [WriteSide.notifyAll_futures, Futures.count_failAll]

end OnWire

/-! ## The steps -/

namespace SharedBlockingConnection

/-- What has been sent stays sent, and the id generator and the futures advance
together, if at all. -/
structure Advance (w w' : WriteSide) : Prop where
  outgoing : w.outgoing <+: w'.outgoing
  counts : (w'.idGenerator = w.idGenerator ∧ w'.futures.count = w.futures.count) ∨
    (w'.idGenerator = (w.idGenerator.increase 1).2 ∧ w'.futures.count = w.futures.count + 1)

/-- A call of `_update_pending_writes` uses an id up, also when it raises. -/
theorem Advance.updatePendingWrites {w w' : WriteSide} {buff : Body} {timeout : Option ℤ} {now : ℤ}
    {r : Except Exc (ℕ × ℕ)} (heq : w.updatePendingWrites buff timeout now = (r, w')) :
    Advance w w' := by
  have hcounts := w.updatePendingWrites_counts buff timeout now
  rw [heq] at hcounts
  refine ⟨?_, Or.inr ⟨hcounts.1, ?_⟩⟩
  · rw [hcounts.2.2]
  · rw [hcounts.2.1, Futures.count_create]

theorem Advance.notifyAll {w w' : WriteSide} (h : Advance w w') : Advance w w'.notifyAll := by
  rcases w'.notifyAll_frame with ⟨hout, hgen, _⟩
  refine ⟨?_, ?_⟩
  · rw [hout]
    exact h.outgoing
  · rw [hgen, WriteSide.notifyAll_futures]
    exact h.counts

theorem advance_update (cfg : Config) (l : Label) (s : SharedBlockingConnection) :
    Advance s.writeSide (update cfg l s).writeSide := by
  cases l with
  | writeEnter buff timeout =>
      show Advance _ (s.writeSide.enterWrite _ _ _)
      unfold WriteSide.enterWrite
      split <;> exact ⟨List.prefix_refl _, Or.inl ⟨rfl, rfl⟩⟩
  | writeCommit buff timeout now =>
      simp only [update, WriteSide.commitWrite]
      split
      · exact ⟨List.prefix_refl _, Or.inl ⟨rfl, rfl⟩⟩
      · split
        · -- stored, and the thread notified
          rename_i f tid w heq
          have hadvance := (Advance.updatePendingWrites heq).notifyAll
          exact ⟨hadvance.outgoing, hadvance.counts⟩
        · rename_i ex w heq
          have hadvance := Advance.updatePendingWrites heq
          exact ⟨hadvance.outgoing, hadvance.counts⟩
  | closeReturn c =>
      simp only [update, returnFromClose]
      split <;> exact ⟨List.prefix_refl _, Or.inl ⟨rfl, rfl⟩⟩
  | closeDone c =>
      simp only [update, returnFromClose]
      split <;> exact ⟨List.prefix_refl _, Or.inl ⟨rfl, rfl⟩⟩
  | closeWrite c =>
      refine ⟨?_, Or.inl ⟨(WriteSide.notifyAll_frame _).2.1, ?_⟩⟩
      · simp only [update, WriteSide.close, WriteSide.notifyAll_frame]
        exact List.prefix_refl _
      · simp only [update, WriteSide.close, WriteSide.notifyAll_futures, Futures.count_failAll]
  | writeAcquire =>
      show Advance _ (s.writeSide.acquire _)
      unfold WriteSide.acquire
      split <;> exact ⟨List.prefix_refl _, Or.inl ⟨rfl, rfl⟩⟩
  | writeTake =>
      show Advance _ s.writeSide.take
      unfold WriteSide.take
      split <;> exact ⟨List.prefix_refl _, Or.inl ⟨rfl, rfl⟩⟩
  | writeWake notified =>
      show Advance _ (s.writeSide.wake _ _)
      unfold WriteSide.wake
      split <;> exact ⟨List.prefix_refl _, Or.inl ⟨rfl, rfl⟩⟩
  | writeBeat now heartbeat =>
      simp only [update, insertHeartbeat]
      split
      · cases heartbeat with
        | error ex => exact ⟨List.prefix_refl _, Or.inl ⟨rfl, rfl⟩⟩
        | ok buff =>
            simp only
            split
            · rename_i ex w heq
              have hadvance := Advance.updatePendingWrites heq
              exact ⟨hadvance.outgoing, hadvance.counts⟩
            · rename_i f tid w heq
              have hadvance := Advance.updatePendingWrites heq
              exact ⟨hadvance.outgoing, hadvance.counts⟩
      · exact ⟨List.prefix_refl _, Or.inl ⟨rfl, rfl⟩⟩
  | writeCheck e now =>
      show Advance _ (s.writeSide.check e now)
      unfold WriteSide.check
      split
      · exact ⟨List.prefix_refl _, Or.inl ⟨rfl, rfl⟩⟩
      · split <;> exact ⟨List.prefix_refl _, Or.inl ⟨rfl, rfl⟩⟩
  | readHeartbeat p =>
      show Advance _ (s.answerHeartbeat p).writeSide
      unfold answerHeartbeat
      split <;> exact ⟨List.prefix_refl _, Or.inl ⟨rfl, rfl⟩⟩
  | writeSend e rest k => exact ⟨List.prefix_append _ _, Or.inl ⟨rfl, rfl⟩⟩
  | _ => exact ⟨List.prefix_refl _, Or.inl ⟨rfl, rfl⟩⟩

/-- Futures are never taken back. -/
theorem count_le_update (cfg : Config) (l : Label) (s : SharedBlockingConnection) :
    s.writeSide.futures.count ≤ (update cfg l s).writeSide.futures.count := by
  rcases (advance_update cfg l s).counts with ⟨_, h⟩ | ⟨_, h⟩ <;> omega

theorem counted_update (cfg : Config) (l : Label) {s : SharedBlockingConnection}
    (h : s.writeSide.Counted) : (update cfg l s).writeSide.Counted := by
  unfold WriteSide.Counted at *
  rcases (advance_update cfg l s).counts with ⟨hid, hcount⟩ | ⟨hid, hcount⟩
  · rw [hid, hcount, h]
  · rw [hid, hcount, h, AtomicInteger.after_succ]

theorem counted_reachable (cfg : Config) :
    ∀ s, (system cfg).Reachable s → s.writeSide.Counted := by
  apply Lts.Spec.invariant
  · rintro s rfl
    rfl
  · intro l s _ h
    exact counted_update cfg l h

/-- The body a step gives a new packet. -/
def Label.body : Label → Body → Prop
  | .writeCommit buff _ _ => (· = buff)
  | _ => fun _ => True

/-- The heartbeat is one more entry. -/
theorem onWire_insertHeartbeat {s : SharedBlockingConnection} (cfg : Config) (now : ℤ)
    (heartbeat : Except Exc Body) {begun : List Packet} (hpc : s.writeSide.pc = .woken)
    (hcounted : s.writeSide.Counted)
    (hfew : (s.insertHeartbeat cfg now heartbeat).writeSide.futures.count < 2 ^ 32)
    (h : OnWire s.writeSide begun) :
    OnWire (s.insertHeartbeat cfg now heartbeat).writeSide begun ∧
      OnWire.Adds s.writeSide (s.insertHeartbeat cfg now heartbeat).writeSide begun begun
        fun _ => True := by
  -- outside the insertion only the position changes
  have hmove : ∀ w' : WriteSide, w'.outgoing = s.writeSide.outgoing →
      s.writeSide.futures.count ≤ w'.futures.count →
      w'.pendingWrites = s.writeSide.pendingWrites → w'.pc.unsent = [] → w'.pc.rest = [] →
      OnWire w' begun ∧ OnWire.Adds s.writeSide w' begun begun fun _ => True := by
    intro w' hout hcount hqueue hun hrest
    have hunsent : w'.unsent.Sublist s.writeSide.unsent := by
      unfold WriteSide.unsent
      rw [hqueue, hun]
      exact List.sublist_append_right _ _
    refine ⟨h.congr hout hcount hunsent ?_, OnWire.adds_of_unsent hunsent⟩
    intro _
    rw [hrest, hpc]
    exact ⟨rfl, rfl⟩
  revert hfew
  unfold insertHeartbeat
  split
  · cases heartbeat with
    | error ex =>
        intro _
        exact hmove _ rfl (Nat.le_refl _) rfl rfl rfl
    | ok buff =>
        simp only
        split
        · rename_i ex w heq
          intro _
          rcases WriteSide.updatePendingWrites_error heq with ⟨gen, rfl⟩
          exact hmove _ rfl (Nat.le_succ _) rfl rfl rfl
        · rename_i f tid w heq
          intro hfew
          have htid := WriteSide.updatePendingWrites_id heq
          rcases WriteSide.updatePendingWrites_ok heq with ⟨_, l, gen, hl, rfl⟩
          have hid : tid = s.writeSide.futures.count + 1 := by
            rw [htid]
            exact hcounted.next_id hfew
          have hins := h.insert { s.writeSide with
              pendingWrites := l, futures := s.writeSide.futures.create, idGenerator := gen,
              pc := .precheck false true, condition := .free }
            ⟨buff, f, tid, now, cfg.heartbeatInterval⟩ hid rfl rfl hl
            (by rw [hpc]; rfl) (fun _ => by rw [hpc]; exact ⟨rfl, rfl⟩)
          refine ⟨hins.1, ?_⟩
          intro p hp
          rcases List.mem_cons.mp (hins.2.mem_iff.mp hp) with rfl | hold
          · exact Or.inr ⟨hid, trivial⟩
          · exact Or.inl hold
  · intro _
    exact hmove _ rfl (Nat.le_refl _) rfl rfl rfl

/-- What the socket is after a step. -/
def Wired (w w' : WriteSide) (begun : List Packet) (body : Body → Prop) : Prop :=
  ∃ begun', OnWire w' begun' ∧ OnWire.Adds w w' begun begun' body

/-- Nothing has been sent on a new connection. -/
theorem onWire_new (cfg : Config) : OnWire (new cfg).writeSide [] := by
  have hunsent : (new cfg).writeSide.unsent = [] := newPendingWrites_elements _
  have hpackets : (new cfg).writeSide.packets [] = [] := by
    unfold WriteSide.packets
    rw [hunsent]
    rfl
  constructor
  · exact fun _ hp => absurd hp List.not_mem_nil
  · rw [hpackets]
    exact ⟨List.nodup_nil, fun _ hp => absurd hp List.not_mem_nil⟩
  · exact List.prefix_refl _
  · exact fun _ => rfl

/-- A step of the write thread that begins no packet. -/
theorem wired_move {w w' : WriteSide} {begun : List Packet} {body : Body → Prop}
    (h : OnWire w begun) (hout : w'.outgoing = w.outgoing)
    (hcount : w'.futures.count = w.futures.count) (hunsent : w'.unsent.Sublist w.unsent)
    (hpc : w'.pc.stopped = false → w.pc.stopped = false ∧ w'.pc.rest = w.pc.rest) :
    Wired w w' begun body :=
  ⟨begun, h.congr hout (Nat.le_of_eq hcount.symm) hunsent hpc, OnWire.adds_of_unsent hunsent⟩

/-- A step that leaves the entries and the write thread where they are. -/
theorem wired_keep {w w' : WriteSide} {begun : List Packet} {body : Body → Prop}
    (h : OnWire w begun) (hout : w'.outgoing = w.outgoing)
    (hcount : w'.futures.count = w.futures.count) (hqueue : w'.pendingWrites = w.pendingWrites)
    (hpc : w'.pc = w.pc) : Wired w w' begun body := by
  have hunsent : w'.unsent = w.unsent := by
    unfold WriteSide.unsent
    rw [hqueue, hpc]
  apply wired_move h hout hcount (by rw [hunsent])
  intro hrun
  rw [hpc] at hrun ⊢
  exact ⟨hrun, rfl⟩

/-- The write thread moves on with nothing in hand, on either side. -/
theorem wired_go {w w' : WriteSide} {begun : List Packet} {body : Body → Prop}
    (h : OnWire w begun) (hout : w'.outgoing = w.outgoing)
    (hcount : w'.futures.count = w.futures.count) (hqueue : w'.pendingWrites = w.pendingWrites)
    (hun : w'.pc.unsent = [])
    (hpc : w'.pc.stopped = false → w.pc.stopped = false ∧ w'.pc.rest = w.pc.rest) :
    Wired w w' begun body := by
  apply wired_move h hout hcount _ hpc
  unfold WriteSide.unsent
  rw [hqueue, hun]
  exact List.sublist_append_right _ _

/-- The return from `close` ends the write thread when it is the caller. -/
theorem wired_exit {w : WriteSide} {begun : List Packet} {body : Body → Prop}
    (h : OnWire w begun) (c : Thread) :
    Wired w (if c = .writeThread then { w with pc := .exited } else w) begun body := by
  split
  · exact wired_go h rfl rfl rfl rfl nofun
  · exact wired_keep h rfl rfl rfl rfl

theorem wired_enterWrite {w : WriteSide} {begun : List Packet} {body : Body → Prop}
    (h : OnWire w begun) (closing : Bool) (buff : Body) (timeout : Option ℤ) :
    Wired w (w.enterWrite closing buff timeout) begun body := by
  unfold WriteSide.enterWrite
  split <;> exact wired_keep h rfl rfl rfl rfl

theorem wired_acquire {w : WriteSide} {begun : List Packet} {body : Body → Prop}
    (h : OnWire w begun) (hpc : w.pc = .precheck false false) (closing : Bool) :
    Wired w (w.acquire closing) begun body := by
  unfold WriteSide.acquire
  split
  · exact wired_go h rfl rfl rfl rfl nofun
  · refine wired_go h rfl rfl rfl rfl ?_
    rw [hpc]
    exact fun _ => ⟨rfl, rfl⟩

theorem wired_wake {w : WriteSide} {begun : List Packet} {body : Body → Prop} {notified : Bool}
    (h : OnWire w begun) (hpc : w.pc = .waiting notified) (closing heartbeats : Bool) :
    Wired w (w.wake closing heartbeats) begun body := by
  unfold WriteSide.wake
  split
  all_goals
    refine wired_go h rfl rfl rfl rfl ?_
    rw [hpc]
    exact fun _ => ⟨rfl, rfl⟩

/-- Every step keeps the socket in order, and adds at most one packet. -/
theorem onWire_step {cfg : Config} {l : Label} {s : SharedBlockingConnection}
    {begun : List Packet} (hg : guard cfg l s) (hcounted : s.writeSide.Counted)
    (hfew : (update cfg l s).writeSide.futures.count < 2 ^ 32) (h : OnWire s.writeSide begun) :
    Wired s.writeSide (update cfg l s).writeSide begun l.body := by
  cases l with
  | writeEnter buff timeout => exact wired_enterWrite h _ _ _
  | writeCommit buff timeout now =>
      exact ⟨begun, h.commitWrite hcounted buff timeout now hfew⟩
  | closeReturn c => exact wired_exit h c
  | closeDone c => exact wired_exit h c
  | closeWrite c => exact ⟨begun, h.close.1, OnWire.adds_of_unsent h.close.2⟩
  | writeMissing wakeup => exact wired_go h rfl rfl rfl rfl nofun
  | writeNotify =>
      refine wired_go h rfl rfl rfl rfl ?_
      rw [hg.1]
      exact fun _ => ⟨rfl, rfl⟩
  | writeAcquire => exact wired_acquire h hg.1 _
  | writeTake =>
      have ht := h.take hg
      exact ⟨begun, ht.1, OnWire.adds_of_unsent ht.2⟩
  | writeWake notified => exact wired_wake h hg.1 _ _
  | writeBeat now heartbeat =>
      exact ⟨begun, onWire_insertHeartbeat cfg now heartbeat hg.1 hcounted hfew h⟩
  | writeCheck e now =>
      obtain ⟨begun', hw, hp⟩ := h.check hg now
      exact ⟨begun', hw, fun p hmem => Or.inl (hp p hmem)⟩
  | writeSend e rest k =>
      refine ⟨begun, h.send hg.1 k, OnWire.adds_of_unsent ?_⟩
      show (WritePc.unsent (.sending e (rest.drop k)) ++ _).Sublist (s.writeSide.pc.unsent ++ _)
      rw [hg.1]
      exact List.Sublist.refl _
  | writeFinish e =>
      refine wired_go h rfl rfl rfl rfl ?_
      rw [show s.writeSide.pc = .sending e [] from hg]
      exact fun _ => ⟨rfl, rfl⟩
  | writeFail e rest timedOut => exact wired_go h rfl rfl rfl rfl nofun
  | readHeartbeat p =>
      show Wired _ (s.answerHeartbeat p).writeSide begun _
      unfold answerHeartbeat
      split
      · exact wired_keep h rfl rfl rfl rfl
      · exact wired_keep h rfl rfl rfl rfl
  | _ => exact wired_keep h rfl rfl rfl rfl

end SharedBlockingConnection

end SummerRpc
