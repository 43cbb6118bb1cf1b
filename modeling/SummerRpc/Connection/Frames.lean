import SummerRpc.Lib.Sender
import SummerRpc.Connection.Wire
import SummerRpc.Connection.Simple

/-! # Outgoing frames

Both connections are senders of packets: the write thread of a
`SharedBlockingConnection` sends a packet in pieces and stops when a piece fails; a
call of `write` on a `SimpleBlockingConnection` sends a whole packet or stops.

* `SharedBlockingConnection.sender_projection`, `SimpleBlockingConnection.sender_simulation`:
  their steps are those of a sender;
* `outgoing_frames_intact`: so the peer sees whole packets and at most a truncated one,
  after which nothing comes.
-/

namespace SummerRpc

open BaseRecordTransport Framing

/-! ## The write thread -/

/-- The write side as a sender: a packet in `transport.write` is in hand. -/
def WriteSide.sender (w : WriteSide) : Sender UInt8 where
  out := w.outgoing
  rest := w.pc.rest
  stopped := w.pc.stopped

/-- The step is none of a sender, or one. -/
def SenderStep (w w' : WriteSide) : Prop :=
  w'.sender = w.sender ∨ ∃ m : Sender.Label Packet,
    Sender.guard Encodable m w.sender ∧ w'.sender = Sender.update packetCode m w.sender

namespace SenderStep

variable {w w' : WriteSide}

/-- Nothing is sent, and the thread is as busy as before. -/
theorem stay (hout : w'.outgoing = w.outgoing) (hrest : w'.pc.rest = w.pc.rest)
    (hstopped : w'.pc.stopped = w.pc.stopped) : SenderStep w w' := by
  left
  unfold WriteSide.sender
  rw [hout, hrest, hstopped]

/-- Nothing is sent, and the thread gives up what it has in hand. -/
theorem stop (hout : w'.outgoing = w.outgoing) (hrest : w'.pc.rest = [])
    (hstopped : w'.pc.stopped = true) : SenderStep w w' := by
  right
  refine ⟨.stop, trivial, ?_⟩
  unfold WriteSide.sender Sender.update
  rw [hout, hrest, hstopped]

/-- A thread that has popped an entry begins its packet, or drops the entry. -/
theorem check {e : PendingWrite} (hpc : w.pc = .holding e) (now : ℤ) :
    SenderStep w (w.check e now) := by
  unfold WriteSide.check
  split
  · exact stay rfl (by rw [hpc]; rfl) (by rw [hpc]; rfl)
  · split
    · rename_i data hdata
      obtain ⟨henc, rfl⟩ := generatePacket_eq_enc.mp hdata
      right
      refine ⟨.start (e.transactionId, e.buff), ⟨?_, ?_, henc⟩, ?_⟩
      · show w.pc.stopped = false
        rw [hpc]
        rfl
      · show w.pc.rest = []
        rw [hpc]
        rfl
      · unfold WriteSide.sender
        rw [hpc]
        rfl
    · exact stop rfl rfl rfl

theorem commitWrite (w : WriteSide) (buff : Body) (timeout : Option ℤ) (now : ℤ) :
    SenderStep w (w.commitWrite buff timeout now) := by
  unfold WriteSide.commitWrite
  split
  · exact stay rfl rfl rfl
  · split
    · rename_i f tid w₁ heq
      rcases WriteSide.updatePendingWrites_ok heq with ⟨_, l, gen, _, rfl⟩
      rcases WriteSide.notifyAll_frame
        { w with pendingWrites := l, futures := w.futures.create, idGenerator := gen } with
        ⟨hout, _, _, hrest, hstopped⟩
      exact stay hout hrest hstopped
    · rename_i ex w₁ heq
      rcases WriteSide.updatePendingWrites_error heq with ⟨gen, rfl⟩
      exact stay rfl rfl rfl

end SenderStep

namespace SharedBlockingConnection

theorem senderStep_insertHeartbeat {s : SharedBlockingConnection} (cfg : Config) (now : ℤ)
    (heartbeat : Except Exc Body) (hpc : s.writeSide.pc = .woken) :
    SenderStep s.writeSide (s.insertHeartbeat cfg now heartbeat).writeSide := by
  unfold insertHeartbeat
  split
  · split
    · exact .stop rfl rfl rfl
    · split
      · rename_i ex w heq
        rcases WriteSide.updatePendingWrites_error heq with ⟨gen, rfl⟩
        exact .stop rfl rfl rfl
      · rename_i f tid w heq
        rcases WriteSide.updatePendingWrites_ok heq with ⟨_, l, gen, _, rfl⟩
        exact .stay rfl (by rw [hpc]; rfl) (by rw [hpc]; rfl)
  · exact .stay rfl (by rw [hpc]; rfl) (by rw [hpc]; rfl)

/-- Every step is one of a sender, or none. -/
theorem senderStep_update {cfg : Config} {l : Label} {s : SharedBlockingConnection}
    (hg : guard cfg l s) : SenderStep s.writeSide (update cfg l s).writeSide := by
  -- a thread that has returned from `close()` sends nothing any more
  have hexit : ∀ c : Thread, SenderStep s.writeSide
      (if c = .writeThread then { s.writeSide with pc := .exited } else s.writeSide) := by
    intro c
    split
    · exact .stop rfl rfl rfl
    · exact .stay rfl rfl rfl
  cases l with
  | writeEnter buff timeout =>
      show SenderStep _ (s.writeSide.enterWrite _ _ _)
      unfold WriteSide.enterWrite
      split <;> exact .stay rfl rfl rfl
  | writeCommit buff timeout now => exact .commitWrite s.writeSide buff timeout now
  | closeReturn c => exact hexit c
  | closeDone c => exact hexit c
  | closeWrite c =>
      rcases WriteSide.notifyAll_frame
        { s.writeSide with
          futures := s.writeSide.futures.failAll
            (s.writeSide.pendingWrites.elements.map PendingWrite.future) writeAbort
          pendingWrites :=
            { s.writeSide.pendingWrites with elements := [], length_le := Nat.zero_le _ } } with
        ⟨hout, _, _, hrest, hstopped⟩
      exact .stay hout hrest hstopped
  | writeMissing wakeup => exact .stop rfl rfl rfl
  | writeNotify => exact .stay rfl (by rw [hg.1]; rfl) (by rw [hg.1]; rfl)
  | writeAcquire =>
      show SenderStep _ (s.writeSide.acquire _)
      unfold WriteSide.acquire
      split
      · exact .stop rfl rfl rfl
      · exact .stay rfl (by rw [hg.1]; rfl) (by rw [hg.1]; rfl)
  | writeTake =>
      have hpc : s.writeSide.pc = .locked := hg
      show SenderStep _ s.writeSide.take
      unfold WriteSide.take
      split <;> exact .stay rfl (by rw [hpc]; rfl) (by rw [hpc]; rfl)
  | writeWake notified =>
      show SenderStep _ (s.writeSide.wake _ _)
      unfold WriteSide.wake
      split <;> exact .stay rfl (by rw [hg.1]; rfl) (by rw [hg.1]; rfl)
  | writeBeat now heartbeat => exact senderStep_insertHeartbeat cfg now heartbeat hg.1
  | writeCheck e now => exact .check hg now
  | writeSend e rest k =>
      right
      refine ⟨.send k, trivial, ?_⟩
      show Sender.mk (s.writeSide.outgoing ++ rest.take k) (rest.drop k) false =
        Sender.mk (s.writeSide.outgoing ++ s.writeSide.pc.rest.take k) (s.writeSide.pc.rest.drop k)
          s.writeSide.pc.stopped
      rw [hg.1]
      rfl
  | writeFinish e =>
      have hpc : s.writeSide.pc = .sending e [] := hg
      exact .stay rfl (by rw [hpc]; rfl) (by rw [hpc]; rfl)
  | writeFail e rest timedOut => exact .stop rfl rfl rfl
  | readHeartbeat p =>
      show SenderStep _ (s.answerHeartbeat p).writeSide
      unfold answerHeartbeat
      split <;> exact .stay rfl rfl rfl
  | _ => exact .stay rfl rfl rfl

/-- The write side of a connection is a sender of packets. -/
theorem sender_projection (cfg : Config) : Lts.Spec.Projection (system cfg)
    (Sender.system packetCode Encodable) (fun s => s.writeSide.sender) where
  init := by
    rintro s rfl
    rfl
  step := fun _ _ _ hg => senderStep_update hg

end SharedBlockingConnection

/-! ## One call after the other -/

namespace SimpleBlockingConnection

/-- A connection between two calls as a sender: it has nothing in hand. -/
def sender (c : SimpleBlockingConnection) : Sender UInt8 where
  out := c.sock.outgoing
  rest := []
  stopped := c.socketClosed

/-- A sender that sends the first part of a packet. -/
theorem sender_begins {c : SimpleBlockingConnection} (hopen : c.socketClosed = false)
    {p : Packet} (hp : Encodable p) (k : ℕ) :
    ((Sender.system packetCode Encodable).startingAt c.sender).Reachable
      ⟨c.sock.outgoing ++ (packetCode.enc p).take k, (packetCode.enc p).drop k, false⟩ := by
  have hstart := Lts.Spec.reachable_update (S := Sender.system packetCode Encodable)
    (l := .start p) (s := c.sender) ⟨hopen, rfl, hp⟩
  have hsend := hstart.trans (Lts.Spec.reachable_update (S := Sender.system packetCode Encodable)
    (l := .send k) trivial)
  rw [← hopen]
  exact hsend

theorem sender_wrote {c c' : SimpleBlockingConnection} (h : Wrote c c') :
    ((Sender.system packetCode Encodable).startingAt c.sender).Reachable c'.sender := by
  cases h with
  | nothing hout hclosed =>
      have hsame : c'.sender = c.sender := by
        unfold sender
        rw [hout, hclosed]
      rw [hsame]
      exact Lts.Spec.reachable_self _ _
  | packet p henc hopen hout hclosed =>
      have hb := sender_begins hopen henc (packetCode.enc p).length
      rw [List.take_length, List.drop_length, ← hout] at hb
      unfold sender
      rw [hclosed]
      exact hb
  | part p k henc hopen hout hclosed =>
      have hb := (sender_begins hopen henc k).trans
        (Lts.Spec.reachable_update (S := Sender.system packetCode Encodable) (l := .stop) trivial)
      unfold sender
      rw [hclosed, hout]
      exact hb

/-- Closing the connection stops the sender. -/
theorem sender_stopped {c c' : SimpleBlockingConnection} (hout : c'.sock.outgoing = c.sock.outgoing)
    (hclosed : c'.socketClosed = true) :
    ((Sender.system packetCode Encodable).startingAt c.sender).Reachable c'.sender := by
  have hstop := Lts.Spec.reachable_update (S := Sender.system packetCode Encodable)
    (l := .stop) (s := c.sender) trivial
  unfold sender
  rw [hout, hclosed]
  exact hstop

/-- A call is some steps of a sender of packets. -/
theorem sender_simulation (incoming : List UInt8) (script : List SockEvent) :
    Lts.Spec.Simulation (system ⟨incoming, [], script⟩)
      (Sender.system packetCode Encodable) sender where
  init := by
    rintro c rfl
    rfl
  step := by
    intro l c hr _
    have hs := settled_reachable _ c hr
    cases l with
    | write buff =>
        have hwrote : ((Sender.system packetCode Encodable).startingAt c.sender).Reachable
            (c.write buff).2.sender := sender_wrote (write_wrote hs buff)
        exact hwrote
    | read tid =>
        have hread := read_frame hs tid
        show ((Sender.system packetCode Encodable).startingAt c.sender).Reachable
          (c.read tid).2.sender
        obtain ⟨_, _, ⟨_, _, _, hopen, hopen'⟩ | ⟨_, hclosed⟩⟩ := hread.consumed
        · -- a packet is handed over, and nothing is sent
          exact sender_wrote (.nothing hread.outgoing (hopen'.trans hopen.symm))
        · exact sender_stopped hread.outgoing hclosed
    | close =>
        show ((Sender.system packetCode Encodable).startingAt c.sender).Reachable c.close.sender
        rw [hs.close]
        exact sender_stopped rfl rfl

end SimpleBlockingConnection

/-! ## Intact frames -/

/-- Whatever the callers, the two threads and the socket do, the bytes a connection puts
on its socket are whole packets and at most a truncated one, after which it sends
nothing. -/
theorem outgoing_frames_intact :
    (∀ cfg s, (SharedBlockingConnection.system cfg).Reachable s →
      Intact (SharedBlockingConnection.system cfg) packetCode Encodable
        (fun s => s.writeSide.outgoing) (fun s => s.writeSide.pc.rest) s) ∧
    (∀ incoming script c, (SimpleBlockingConnection.system ⟨incoming, [], script⟩).Reachable c →
      Intact (SimpleBlockingConnection.system ⟨incoming, [], script⟩) packetCode Encodable
        (fun c => c.sock.outgoing) (fun _ => []) c) := by
  constructor
  · intro cfg s hr
    exact Intact.of_simulation
      (Lts.Spec.Simulation.of_projection (SharedBlockingConnection.sender_projection cfg)) hr
  · intro incoming script c hr
    exact Intact.of_simulation (SimpleBlockingConnection.sender_simulation incoming script) hr

/-- A send that fails in the middle of a packet, on either connection. -/
theorem outgoing_frames_intact_truncated :
    let e : PendingWrite := ⟨[7], 0, 1, 0, some 60⟩
    let s := (SharedBlockingConnection.system SharedBlockingConnection.defaultConfig).run
      [.writeEnter [7] none, .writeCommit [7] (some 60) 0, .writeAcquire, .writeTake,
        .writeCheck e 1, .writeSend e [0, 0, 0, 1, 0, 0, 0, 1, 7] 5,
        .writeFail e [0, 0, 1, 7] false]
      (SharedBlockingConnection.new SharedBlockingConnection.defaultConfig)
    let c := (SimpleBlockingConnection.system ⟨[], [], [.moved 4, .timeout]⟩).play
      (fun _ _ => true) [.write [7], .write [8]]
      (SimpleBlockingConnection.new ⟨[], [], [.moved 4, .timeout]⟩)
    (s.writeSide.outgoing = [0, 0, 0, 1, 0] ∧
      Intact (SharedBlockingConnection.system SharedBlockingConnection.defaultConfig) packetCode
        Encodable (fun s => s.writeSide.outgoing) (fun s => s.writeSide.pc.rest) s) ∧
    (c.sock.outgoing = [0, 0, 0, 1, 0] ∧
      Intact (SimpleBlockingConnection.system ⟨[], [], [.moved 4, .timeout]⟩) packetCode
        Encodable (fun c => c.sock.outgoing) (fun _ => []) c) := by
  refine ⟨⟨by decide +kernel, ?_⟩, by decide +kernel, ?_⟩
  · exact outgoing_frames_intact.1 _ _ ((Lts.Spec.Reachable.init rfl).run _)
  · exact outgoing_frames_intact.2 _ _ _
      ((Lts.Spec.Reachable.init rfl).play (fun _ _ _ => trivial) _)

end SummerRpc
