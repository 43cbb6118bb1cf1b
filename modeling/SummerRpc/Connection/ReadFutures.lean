import SummerRpc.Connection.ReadOwned

/-! # The futures of `read`

Conservation of responses and of read futures, over every interleaving of readers,
the read thread and `close()`, with a server that answers an id at most once.

* `ReadStop`: once `_close_read` is through every pending read is resolved, and
  nobody is inside a block the condition guards;
* `ReadHistory`: a packet is dealt with once, and on an open connection every
  packet read is dealt with;
* `reads_conserved`: with `ReadOwned`, what becomes of every future and packet;
* `early_close`: a call of `close()` that finds another one under way returns while
  read futures are still unresolved.
-/

namespace SummerRpc

/-! ## What a step does to the read side -/

namespace SharedBlockingConnection

@[simp] theorem readSide_insertHeartbeat (s : SharedBlockingConnection) (cfg : Config) (now : ℤ)
    (heartbeat : Except Exc Body) :
    (s.insertHeartbeat cfg now heartbeat).readSide = s.readSide := by
  unfold insertHeartbeat
  split
  · split
    · rfl
    · split <;> rfl
  · rfl

/-- The steps that touch the read side. -/
theorem readSide_update (cfg : Config) (l : Label) (s : SharedBlockingConnection) :
    (update cfg l s).readSide =
      match l with
      | .readEnter transactionId => s.readSide.enterRead s.flags.test transactionId
      | .readCommit transactionId => s.readSide.commitRead transactionId
      | .closeReturn c =>
          if c = .readThread then { s.readSide with pc := .exited } else s.readSide
      | .closeDone c =>
          if c = .readThread then { s.readSide with pc := .exited } else s.readSide
      | .closeRead _ => s.readSide.close
      | .writeNotify => s.readSide.notifyAll
      | .readAcquire => s.readSide.acquire s.flags.test
      | .readLook => s.readSide.look (decide (0 < s.heartbeats.currentSize))
      | .readWake => { s.readSide with pc := .top }
      | .readReceive p rest => s.readSide.receive p rest
      | .readFail => { s.readSide with pc := .closing }
      | .readHeartbeatLock p => s.readSide.lockHeartbeats s.flags.test p
      | .readHeartbeat p => (s.answerHeartbeat p).readSide
      | .readRouteLock p => s.readSide.lockRoute s.flags.test p
      | .readRoute p => s.readSide.route p
      | .deliver bs => { s.readSide with incoming := s.readSide.incoming ++ bs }
      | _ => s.readSide := by
  cases l <;> simp [update, returnFromClose]

/-- A heartbeat's response, or one for the second lock. -/
theorem readSide_answerHeartbeat (s : SharedBlockingConnection) (p : Packet) :
    (s.answerHeartbeat p).readSide =
        { s.readSide with pc := .top, answered := s.readSide.answered ++ [p] } ∨
      (s.answerHeartbeat p).readSide = { s.readSide with pc := .unrouted p } := by
  unfold answerHeartbeat
  split
  · exact Or.inl rfl
  · exact Or.inr rfl

end SharedBlockingConnection

/-! ## Closing -/

/-- The read thread is in a block `_read_condition` guards. -/
def ReadPc.holdsCondition : ReadPc → Bool
  | .locked => true
  | .routing _ => true
  | _ => false

/-- The read side and the closing of the connection. -/
structure ReadStop (r : ReadSide) (c : CloseFlags) : Prop where
  holder : r.pc.holdsCondition = true → r.condition = .readThread
  drained : c.Reached .readsClosed →
    r.condition = .free ∧ ∀ b ∈ r.pendingReads.entries, r.futures.Resolved b.value

namespace ReadStop

variable {r r' : ReadSide} {c : CloseFlags}

theorem not_reached (h : ReadStop r c) (hcond : r.condition ≠ .free) :
    ¬ c.Reached .readsClosed := fun hr => hcond (h.drained hr).1

/-- A step of the read thread to a position where it does not hold the condition. -/
theorem move (h : ReadStop r c) {pc : ReadPc} (hpc : pc.holdsCondition = false)
    (incoming : List UInt8) (received answered : List Packet) :
    ReadStop { r with pc := pc, incoming := incoming, received := received,
                      answered := answered } c := by
  refine ⟨?_, h.drained⟩
  intro heq
  rw [show ReadPc.holdsCondition _ = false from hpc] at heq
  cases heq

/-- The read thread gives up the condition. -/
theorem release (h : ReadStop r c) (hpc : r.pc.holdsCondition = true)
    (hpc' : r'.pc.holdsCondition = false) : ReadStop r' c := by
  have hopen : ¬ c.Reached .readsClosed := h.not_reached (by rw [h.holder hpc]; nofun)
  refine ⟨?_, fun hr => absurd hr hopen⟩
  intro heq
  rw [hpc'] at heq
  cases heq

/-- The read thread takes the condition of a connection seen open. -/
theorem take (r : ReadSide) (hopen : ¬ c.Reached .readsClosed) (pc : ReadPc) :
    ReadStop { r with pc := pc, condition := .readThread } c :=
  ⟨fun _ => rfl, fun hr => absurd hr hopen⟩

theorem notifyAll (h : ReadStop r c) : ReadStop r.notifyAll c := by
  unfold ReadSide.notifyAll
  split
  · exact h.move rfl _ _ _
  · exact h

end ReadStop

namespace ReadSide

/-- The block of `read` moves no packet, and the read thread only within `wait`. -/
theorem commitRead_frame (r : ReadSide) (tid : ℕ) :
    (r.commitRead tid).condition = .free ∧ (r.commitRead tid).routed = r.routed ∧
      (r.commitRead tid).received = r.received ∧ (r.commitRead tid).answered = r.answered ∧
      (r.commitRead tid).overwritten = r.overwritten ∧
      ((r.commitRead tid).pc = r.pc ∨
        ∃ b, r.pc = .waiting b ∧ (r.commitRead tid).pc = .waiting true) := by
  rcases r.commitRead_cases tid with ⟨b, _, _, heq⟩ | ⟨b, _, _, heq⟩ | ⟨_, heq⟩
  · rw [heq]
    exact ⟨rfl, rfl, rfl, rfl, rfl, Or.inl rfl⟩
  · rw [heq]
    exact ⟨rfl, rfl, rfl, rfl, rfl, Or.inl rfl⟩
  · obtain ⟨futures, hfutures⟩ := r.failKickedOut_frame
    rw [heq, hfutures]
    simp only [storeRead, ReadSide.notifyAll]
    split
    · rename_i b hb
      exact ⟨rfl, rfl, rfl, rfl, rfl, Or.inr ⟨b, hb, rfl⟩⟩
    · exact ⟨rfl, rfl, rfl, rfl, rfl, Or.inl rfl⟩

/-- Routing ends at the top of the loop, with the condition released. -/
theorem route_frame (r : ReadSide) (p : Packet) :
    (r.route p).pc = .top ∧ (r.route p).condition = .free ∧ (r.route p).received = r.received ∧
      (r.route p).answered = r.answered ∧ ∃ f, (r.route p).routed = r.routed ++ [(p, f)] := by
  unfold route
  split
  · exact ⟨rfl, rfl, rfl, rfl, _, rfl⟩
  · exact ⟨rfl, rfl, rfl, rfl, _, rfl⟩

end ReadSide

namespace SharedBlockingConnection

/-- The steps other than `_close_read` keep to the flags as they are. -/
theorem readStop_side {cfg : Config} {l : Label} {s : SharedBlockingConnection}
    (hg : guard cfg l s) (hok : s.flags.Ok) (hread : ∀ c, l ≠ .closeRead c)
    (h : ReadStop s.readSide s.flags) : ReadStop (update cfg l s).readSide s.flags := by
  rw [readSide_update]
  cases l with
  | readEnter tid =>
      show ReadStop (s.readSide.enterRead _ _) s.flags
      unfold ReadSide.enterRead
      split
      · exact ⟨h.holder, h.drained⟩
      · rename_i htest
        have hopen := hok.not_reached_of_test htest .readsClosed
        refine ⟨?_, fun hr => absurd hr hopen⟩
        intro hpc
        have hw := h.holder hpc
        rw [show s.readSide.condition = .free from hg] at hw
        cases hw
  | readCommit tid =>
      have hcond : s.readSide.condition = .client tid := hg
      have hopen : ¬ s.flags.Reached .readsClosed := h.not_reached (by rw [hcond]; nofun)
      refine ⟨?_, fun hr => absurd hr hopen⟩
      -- the condition is the client's, so the read thread is not inside its blocks
      intro hpc
      rcases (s.readSide.commitRead_frame tid).2.2.2.2.2 with heq | ⟨b, _, hn⟩
      · rw [heq] at hpc
        have hw := h.holder hpc
        rw [hcond] at hw
        cases hw
      · rw [hn] at hpc
        cases hpc
  | closeReturn c =>
      by_cases heq : c = .readThread
      · simp only [if_pos heq]
        exact h.move rfl _ _ _
      · simp only [if_neg heq]
        exact h
  | closeDone c =>
      by_cases heq : c = .readThread
      · simp only [if_pos heq]
        exact h.move rfl _ _ _
      · simp only [if_neg heq]
        exact h
  | closeRead c => exact absurd rfl (hread c)
  | writeNotify => exact h.notifyAll
  | readAcquire =>
      show ReadStop (s.readSide.acquire _) s.flags
      unfold ReadSide.acquire
      split
      · exact h.move rfl _ _ _
      · rename_i htest
        exact ReadStop.take _ (hok.not_reached_of_test htest _) _
  | readLook =>
      show ReadStop (s.readSide.look _) s.flags
      unfold ReadSide.look
      have hpc : s.readSide.pc.holdsCondition = true := by
        rw [show s.readSide.pc = .locked from hg]
        rfl
      split
      · exact h.release hpc rfl
      · exact h.release hpc rfl
  | readWake => exact h.move rfl _ _ _
  | readReceive p rest => exact h.move rfl _ _ _
  | readFail => exact h.move rfl _ _ _
  | readHeartbeatLock p =>
      show ReadStop (s.readSide.lockHeartbeats _ _) s.flags
      unfold ReadSide.lockHeartbeats
      split
      · exact h.move rfl _ _ _
      · exact h.move rfl _ _ _
  | readHeartbeat p =>
      show ReadStop (s.answerHeartbeat p).readSide s.flags
      rcases readSide_answerHeartbeat s p with heq | heq
      · rw [heq]
        exact h.move rfl _ _ _
      · rw [heq]
        exact h.move rfl _ _ _
  | readRouteLock p =>
      show ReadStop (s.readSide.lockRoute _ _) s.flags
      unfold ReadSide.lockRoute
      split
      · exact h.move rfl _ _ _
      · rename_i htest
        exact ReadStop.take _ (hok.not_reached_of_test htest _) _
  | readRoute p =>
      have hpc : s.readSide.pc.holdsCondition = true := by
        rw [show s.readSide.pc = .routing p from hg]
        rfl
      apply h.release hpc
      rw [show (s.readSide.route p).pc = .top from (s.readSide.route_frame p).1]
      rfl
  | deliver bs => exact ⟨h.holder, h.drained⟩
  | _ => exact h

/-- `_close_read` fails every pending read and frees nobody's condition. -/
theorem close_frame (r : ReadSide) :
    r.close.condition = r.condition ∧ r.close.pendingReads = r.pendingReads ∧
      r.close.futures = r.futures.failAll (r.pendingReads.iteritems.map Prod.snd) readAbort := by
  simp only [ReadSide.close, ReadSide.notifyAll]
  split <;> exact ⟨rfl, rfl, rfl⟩

/-- After `_close_read` no read is pending. -/
theorem resolved_close {r : ReadSide} {b : Entry ℕ ℕ} (hb : b ∈ r.close.pendingReads.entries) :
    r.close.futures.Resolved b.value := by
  rw [(close_frame r).2.2]
  rw [(close_frame r).2.1] at hb
  apply Futures.resolved_failAll
  exact List.mem_map.mpr ⟨(b.key, b.value), LRUCache.mem_iteritems.mpr hb, rfl⟩

theorem readStop_step {cfg : Config} {l : Label} {s : SharedBlockingConnection}
    (hg : guard cfg l s) (hok : s.flags.Ok) (h : ReadStop s.readSide s.flags) :
    ReadStop (update cfg l s).readSide (update cfg l s).flags := by
  by_cases hread : ∃ c, l = .closeRead c
  · rcases hread with ⟨c, rfl⟩
    have hclose : ReadStop s.readSide.close s.flags := by
      apply ReadStop.notifyAll
      refine ⟨h.holder, ?_⟩
      intro hr
      exact ⟨(h.drained hr).1, fun b hb => ((h.drained hr).2 b hb).failAll _ _⟩
    rw [readSide_update]
    refine ⟨hclose.holder, ?_⟩
    intro _
    rw [show (s.readSide.close).condition = _ from (close_frame s.readSide).1]
    exact ⟨hg.2, fun _ hb => resolved_close hb⟩
  · have hside := readStop_side hg hok (fun c heq => hread ⟨c, heq⟩) h
    refine ⟨hside.holder, ?_⟩
    intro hr
    exact hside.drained ((reached_readsClosed hg hr).resolve_right hread)

theorem readOwned_step {cfg : Config} {l : Label} {s : SharedBlockingConnection}
    (hg : guard cfg l s) (hok : s.flags.Ok) (hstop : ReadStop s.readSide s.flags)
    (h : ReadOwned s.readSide (s.flags.Reached .readsClosed)) :
    ReadOwned (update cfg l s).readSide ((update cfg l s).flags.Reached .readsClosed) := by
  have hmono : s.flags.Reached .readsClosed → (update cfg l s).flags.Reached .readsClosed :=
    reached_mono hg hok
  rw [readSide_update]
  cases l with
  | readEnter tid =>
      show ReadOwned (s.readSide.enterRead _ _) _
      unfold ReadSide.enterRead
      split
      · exact (h.mono hmono).raised tid readAbort
      · exact (h.mono hmono).move _ _ _ _ _
  | readCommit tid =>
      -- a reader has the condition, so `_close_read` has not been passed
      have hcond : s.readSide.condition = .client tid := hg
      have hopen : ¬ s.flags.Reached .readsClosed := hstop.not_reached (by rw [hcond]; nofun)
      exact (h.commitRead hopen tid).mono hmono
  | closeReturn c => exact (h.mono hmono).exit c
  | closeDone c => exact (h.mono hmono).exit c
  | closeRead c =>
      -- from this step on `_close_read` has been passed
      apply h.close
      rw [flags_update]
      exact Or.inr ⟨c, _, rfl, Nat.le_refl _⟩
  | writeNotify => exact (h.mono hmono).notifyAll
  | readAcquire =>
      show ReadOwned (s.readSide.acquire _) _
      unfold ReadSide.acquire
      split <;> exact (h.mono hmono).move _ _ _ _ _
  | readLook =>
      show ReadOwned (s.readSide.look _) _
      unfold ReadSide.look
      split <;> exact (h.mono hmono).move _ _ _ _ _
  | readHeartbeatLock p =>
      show ReadOwned (s.readSide.lockHeartbeats _ _) _
      unfold ReadSide.lockHeartbeats
      split <;> exact (h.mono hmono).move _ _ _ _ _
  | readHeartbeat p =>
      show ReadOwned (s.answerHeartbeat p).readSide _
      rcases readSide_answerHeartbeat s p with heq | heq
      · rw [heq]
        exact (h.mono hmono).move _ _ _ _ _
      · rw [heq]
        exact (h.mono hmono).move _ _ _ _ _
  | readRouteLock p =>
      show ReadOwned (s.readSide.lockRoute _ _) _
      unfold ReadSide.lockRoute
      split <;> exact (h.mono hmono).move _ _ _ _ _
  | readRoute p =>
      have hpc : s.readSide.pc.holdsCondition = true := by
        rw [show s.readSide.pc = .routing p from hg]
        rfl
      have hopen : ¬ s.flags.Reached .readsClosed := by
        apply hstop.not_reached
        rw [hstop.holder hpc]
        nofun
      exact (h.route hopen p).mono hmono
  | readWake => exact (h.mono hmono).move _ _ _ _ _
  | readReceive p rest => exact (h.mono hmono).move _ _ _ _ _
  | readFail => exact (h.mono hmono).move _ _ _ _ _
  | deliver bs => exact (h.mono hmono).move _ _ _ _ _
  | _ => exact h.mono hmono

end SharedBlockingConnection

/-! ## Packets -/

/-- What becomes of the packets the read thread reads, when no id is answered
twice. `closing` says that the connection is not open. -/
structure ReadHistory (r : ReadSide) (closing : Prop) : Prop where
  routed_received : ∀ p f, (p, f) ∈ r.routed → p ∈ r.received
  hand_received : ∀ p ∈ r.pc.packet, p ∈ r.received
  /-- the packet in hand is none of those routed -/
  hand_new : ∀ p ∈ r.pc.packet, ∀ q f, (q, f) ∈ r.routed → q.1 ≠ p.1
  routed_unique : ∀ p f q g, (p, f) ∈ r.routed → (q, g) ∈ r.routed → p.1 = q.1 → p = q ∧ f = g
  /-- while the connection is open no packet is lost -/
  complete : ¬ closing → ∀ p ∈ r.received,
    p ∈ r.pc.packet ∨ p ∈ r.answered ∨ ∃ f, (p, f) ∈ r.routed
  overwritten_nil : r.overwritten = []

namespace ReadHistory

variable {r r' : ReadSide} {closing closing' : Prop}

/-- A step that deals with no packet. -/
theorem congr (h : ReadHistory r closing) (hrouted : r'.routed = r.routed)
    (hreceived : r'.received = r.received) (hanswered : r'.answered = r.answered)
    (hover : r'.overwritten = r.overwritten) (hpacket : r'.pc.packet = r.pc.packet)
    (hclosing : closing → closing') : ReadHistory r' closing' := by
  constructor
  · rw [hrouted, hreceived]
    exact h.routed_received
  · rw [hpacket, hreceived]
    exact h.hand_received
  · rw [hpacket, hrouted]
    exact h.hand_new
  · rw [hrouted]
    exact h.routed_unique
  · rw [hpacket, hreceived, hanswered, hrouted]
    intro hn
    exact h.complete fun hc => hn (hclosing hc)
  · rw [hover]
    exact h.overwritten_nil

/-- On a connection that is not open the read thread may drop its packet. -/
theorem drop (h : ReadHistory r closing) {pc : ReadPc} (hpc : pc.packet = none)
    (hclosing : closing') : ReadHistory { r with pc := pc } closing' := by
  refine ⟨h.routed_received, ?_, ?_, h.routed_unique, fun hn => absurd hclosing hn,
    h.overwritten_nil⟩
  · intro p hp
    rw [show (_ : Option Packet) = none from hpc] at hp
    cases hp
  · intro p hp
    rw [show (_ : Option Packet) = none from hpc] at hp
    cases hp

/-- The read thread ends when it is the one `close()` returns to. -/
theorem exit (h : ReadHistory r closing) (c : Thread) (hclosing : closing') :
    ReadHistory (if c = .readThread then { r with pc := .exited } else r) closing' := by
  split
  · exact h.drop rfl hclosing
  · exact h.congr rfl rfl rfl rfl rfl fun _ => hclosing

/-- Waking the read thread leaves the packet in its hand. -/
theorem notifyAll (h : ReadHistory r closing) : ReadHistory r.notifyAll closing := by
  unfold ReadSide.notifyAll
  split
  · rename_i notified hpc
    exact h.congr rfl rfl rfl rfl (by rw [hpc]; rfl) id
  · exact h

/-- A packet with a new id is read. -/
theorem receive (h : ReadHistory r closing) (hpc : r.pc.packet = none) {p : Packet}
    (hnew : p.1 ∉ r.received.map Prod.fst) (incoming : List UInt8) :
    ReadHistory (r.receive p incoming) closing := by
  constructor
  · intro q f hq
    exact List.mem_append_left _ (h.routed_received q f hq)
  · rintro q ⟨rfl⟩
    exact List.mem_append_right _ (List.mem_singleton.mpr rfl)
  · rintro q ⟨rfl⟩ q' f hq heq
    apply hnew
    rw [← heq]
    exact List.mem_map.mpr ⟨q', h.routed_received q' f hq, rfl⟩
  · exact h.routed_unique
  · intro hn q hq
    rcases List.mem_append.mp hq with hold | hmem
    · rcases h.complete hn q hold with hhand | hrest
      · rw [hpc] at hhand
        cases hhand
      · exact Or.inr hrest
    · cases List.mem_singleton.mp hmem
      exact Or.inl rfl
  · exact h.overwritten_nil

/-- A heartbeat's response. -/
theorem answer (h : ReadHistory r closing) {p : Packet} (hpc : r.pc.packet = some p) :
    ReadHistory { r with pc := .top, answered := r.answered ++ [p] } closing := by
  refine ⟨h.routed_received, nofun, nofun, h.routed_unique, ?_, h.overwritten_nil⟩
  intro hn q hq
  rcases h.complete hn q hq with hhand | hans | hrouted
  · rw [hpc] at hhand
    cases hhand
    exact Or.inr (Or.inl (List.mem_append_right _ (List.mem_singleton.mpr rfl)))
  · exact Or.inr (Or.inl (List.mem_append_left _ hans))
  · exact Or.inr (Or.inr hrouted)

/-- A normal response. -/
theorem route (h : ReadHistory r closing) {p : Packet} (hpc : r.pc.packet = some p)
    (hpool : ∀ b ∈ r.poolingReads.entries, ∃ q : Packet, q.1 = b.key ∧ (q, b.value) ∈ r.routed) :
    ReadHistory (r.route p) closing := by
  rcases r.route_frame p with ⟨htop, _, hreceived, hanswered, f, hrouted⟩
  have hnew := h.hand_new p hpc
  constructor
  · rw [hrouted, hreceived]
    intro q g hq
    rcases List.mem_append.mp hq with hold | hmem
    · exact h.routed_received q g hold
    · cases List.mem_singleton.mp hmem
      exact h.hand_received p hpc
  · rw [htop]
    nofun
  · rw [htop]
    nofun
  · rw [hrouted]
    intro q g q' g' hq hq' heq
    rcases List.mem_append.mp hq with hold | hmem
    · rcases List.mem_append.mp hq' with hold' | hmem'
      · exact h.routed_unique q g q' g' hold hold' heq
      · cases List.mem_singleton.mp hmem'
        exact absurd heq (hnew q g hold)
    · cases List.mem_singleton.mp hmem
      rcases List.mem_append.mp hq' with hold' | hmem'
      · exact absurd heq.symm (hnew q' g' hold')
      · cases List.mem_singleton.mp hmem'
        exact ⟨rfl, rfl⟩
  · rw [hreceived, hanswered, hrouted, htop]
    intro hn q hq
    rcases h.complete hn q hq with hhand | hans | ⟨g, hg⟩
    · rw [hpc] at hhand
      cases hhand
      exact Or.inr (Or.inr ⟨f, List.mem_append_right _ (List.mem_singleton.mpr rfl)⟩)
    · exact Or.inr (Or.inl hans)
    · exact Or.inr (Or.inr ⟨g, List.mem_append_left _ hg⟩)
  · -- no entry of `_pooling_reads` has the id of the packet
    have hcontains : r.poolingReads.contains p.1 = false := by
      rw [← Bool.not_eq_true, LRUCache.contains_iff]
      rintro ⟨b, hb, hkey⟩
      rcases hpool b hb with ⟨q, hq, hroute⟩
      exact hnew q b.value hroute (hq.trans (hash_nat_inj.mp hkey))
    unfold ReadSide.route
    split
    · exact h.overwritten_nil
    · simp only [ReadSide.routeToPool, hcontains, Bool.false_eq_true, if_false]
      exact h.overwritten_nil

end ReadHistory

namespace SharedBlockingConnection

/-- The server sends at most one response per transaction id. -/
def answersOnce (l : Label) (s : SharedBlockingConnection) : Bool :=
  match l with
  | .readReceive p _ => decide (p.1 ∉ s.readSide.received.map Prod.fst)
  | _ => true

theorem readHistory_step {cfg : Config} {l : Label} {s : SharedBlockingConnection}
    (hg : guard cfg l s) (honce : answersOnce l s = true) (hok : s.flags.Ok)
    (howned : ReadOwned s.readSide (s.flags.Reached .readsClosed))
    (h : ReadHistory s.readSide (s.flags.test = true)) :
    ReadHistory (update cfg l s).readSide ((update cfg l s).flags.test = true) := by
  have htest : s.flags.test = true → (update cfg l s).flags.test = true := test_update hg hok
  rw [readSide_update]
  cases l with
  | readEnter tid =>
      show ReadHistory (s.readSide.enterRead _ _) _
      unfold ReadSide.enterRead
      split <;> exact h.congr rfl rfl rfl rfl rfl htest
  | readCommit tid =>
      rcases s.readSide.commitRead_frame tid with ⟨_, hrouted, hreceived, hanswered, hover, hpc⟩
      apply h.congr hrouted hreceived hanswered hover _ htest
      rcases hpc with heq | ⟨b, hb, hn⟩
      · rw [heq]
      · rw [hb, hn]
        rfl
  | closeReturn c =>
      have hclosing : s.flags.test = true :=
        CloseFlags.test_eq_true.mpr (hg.2.2.imp_right And.left)
      exact h.exit c (htest hclosing)
  | closeDone c =>
      have hclosing : s.flags.test = true :=
        CloseFlags.test_eq_true.mpr (Or.inr (hok.closed_of_closedSet c hg))
      exact h.exit c (htest hclosing)
  | closeRead c => exact ReadHistory.notifyAll (h.congr rfl rfl rfl rfl rfl htest)
  | writeNotify => exact ReadHistory.notifyAll (h.congr rfl rfl rfl rfl rfl htest)
  | readAcquire =>
      show ReadHistory (s.readSide.acquire _) _
      unfold ReadSide.acquire
      split <;> exact h.congr rfl rfl rfl rfl (by rw [hg.1]; rfl) htest
  | readLook =>
      have hpc : s.readSide.pc = .locked := hg
      show ReadHistory (s.readSide.look _) _
      unfold ReadSide.look
      split <;> exact h.congr rfl rfl rfl rfl (by rw [hpc]; rfl) htest
  | readWake => exact h.congr rfl rfl rfl rfl (by rw [hg.1]; rfl) htest
  | readReceive p rest =>
      -- the only step that uses that the server answers an id once
      have hnew : p.1 ∉ s.readSide.received.map Prod.fst := of_decide_eq_true honce
      exact (h.receive (by rw [hg.1]; rfl) hnew rest).congr rfl rfl rfl rfl rfl htest
  | readFail =>
      have hpc : s.readSide.pc = .reading := hg
      exact h.congr rfl rfl rfl rfl (by rw [hpc]; rfl) htest
  | readHeartbeatLock p =>
      have hpc : s.readSide.pc = .received p := hg
      show ReadHistory (s.readSide.lockHeartbeats _ _) _
      unfold ReadSide.lockHeartbeats
      split
      · -- the thread leaves for `close()` with the packet unrouted
        rename_i hclosing
        exact h.drop rfl (htest hclosing)
      · exact h.congr rfl rfl rfl rfl (by rw [hpc]; rfl) htest
  | readHeartbeat p =>
      have hpc : s.readSide.pc = .heartbeatLocked p := hg
      show ReadHistory (s.answerHeartbeat p).readSide _
      rcases readSide_answerHeartbeat s p with heq | heq
      · rw [heq]
        exact (h.answer (by rw [hpc]; rfl)).congr rfl rfl rfl rfl rfl htest
      · rw [heq]
        exact h.congr rfl rfl rfl rfl (by rw [hpc]; rfl) htest
  | readRouteLock p =>
      show ReadHistory (s.readSide.lockRoute _ _) _
      unfold ReadSide.lockRoute
      split
      · rename_i hclosing
        exact h.drop rfl (htest hclosing)
      · exact h.congr rfl rfl rfl rfl (by rw [hg.1]; rfl) htest
  | readRoute p =>
      have hpc : s.readSide.pc = .routing p := hg
      exact (h.route (by rw [hpc]; rfl) howned.pooling_routed).congr rfl rfl rfl rfl rfl htest
  | deliver bs => exact h.congr rfl rfl rfl rfl rfl htest
  | _ => exact h.congr rfl rfl rfl rfl rfl htest

/-! ## Conservation -/

/-- What a state promises the readers, where `closeReturned` says that `close()`
has returned. -/
structure ReadsConserved (s : SharedBlockingConnection) (closeReturned : Prop) : Prop where
  /-- a future of `read` is resolved, or the one stored for its id -/
  waiting : ∀ tid f, (tid, .ok f) ∈ s.readSide.returns → s.readSide.futures.Resolved f ∨
    ⟨tid, f⟩ ∈ s.readSide.pendingReads.entries
  settled : closeReturned → ∀ tid f, (tid, .ok f) ∈ s.readSide.returns →
    s.readSide.futures.Resolved f
  /-- the futures evicted from `_pending_reads` are those failed for it -/
  evicted : ∀ f, (∃ b ∈ s.readSide.evicted, b.value = f) ↔
    .error maxPendingReads ∈ s.readSide.futures.calls f
  /-- on an open connection a packet that answers no heartbeat is routed -/
  complete : s.flags.test = false → ∀ p ∈ s.readSide.received, p ∉ s.readSide.pc.packet →
    p ∉ s.readSide.answered → ∃ f, (p, f) ∈ s.readSide.routed
  /-- a routed packet has resolved one future and no other future -/
  given : ∀ p f, (p, f) ∈ s.readSide.routed → s.readSide.futures.calls f = [.ok p.2] ∧
    ∀ g, (p, g) ∈ s.readSide.routed → g = f
  /-- and nothing else resolves a future with a response -/
  genuine : ∀ f b, .ok b ∈ s.readSide.futures.calls f →
    ∃ p : Packet, (p, f) ∈ s.readSide.routed ∧ p.2 = b
  /-- where the future of a routed packet is -/
  place : ∀ p f, (p, f) ∈ s.readSide.routed → (p.1, .ok f) ∈ s.readSide.returns ∨
    ⟨p.1, f⟩ ∈ s.readSide.poolingReads.entries ∨ ⟨p.1, f⟩ ∈ s.readSide.dropped ∨
    ⟨p.1, f⟩ ∈ s.readSide.cleared

/-- The invariants of the read side, with the flags. -/
structure ReadInv (s : SharedBlockingConnection) : Prop where
  flags : s.flags.Ok
  stop : ReadStop s.readSide s.flags
  owned : ReadOwned s.readSide (s.flags.Reached .readsClosed)
  history : ReadHistory s.readSide (s.flags.test = true)

theorem readInv_new (cfg : Config) : ReadInv (new cfg) where
  flags := flags_new cfg
  stop := by
    constructor
    · intro h
      cases h
    · intro _
      exact ⟨rfl, fun b hb => by cases hb⟩
  owned := by
    constructor
    · exact Futures.fresh_empty
    · intro b hb
      cases hb
    · intro b hb
      cases hb
    · intro b hb
      cases hb
    · intro _ b hb
      cases hb
    · intro b hb
      cases hb
    · intro t f hr
      cases hr
    · intro t f hr
      cases hr
    · intro b hb
      cases hb
    · intro f hf
      cases hf
    · intro p f hp
      cases hp
    · intro f b hb
      cases hb
    · intro p f hp
      cases hp
    · intro b hb
      cases hb
  history := by
    constructor
    · intro p f hp
      cases hp
    · intro p hp
      cases hp
    · intro p hp
      cases hp
    · intro p f q g hp
      cases hp
    · intro _ p hp
      cases hp
    · rfl

/-- One step keeps the invariants. -/
theorem readInv_step {cfg : Config} {l : Label} {s : SharedBlockingConnection}
    (hg : guard cfg l s) (honce : answersOnce l s = true) (h : ReadInv s) :
    ReadInv (update cfg l s) where
  flags := flags_step hg h.flags
  stop := readStop_step hg h.flags h.stop
  owned := readOwned_step hg h.flags h.stop h.owned
  history := readHistory_step hg honce h.flags h.owned h.history

/-- They hold in every run. -/
theorem readInv_reachable (cfg : Config) :
    ∀ s, ((system cfg).restrict (fun l s => answersOnce l s)).Reachable s → ReadInv s := by
  apply Lts.Spec.invariant
  · rintro s rfl
    exact readInv_new cfg
  · intro l s hg h
    exact readInv_step hg.1 hg.2 h

theorem ReadInv.conserved {s : SharedBlockingConnection} (h : ReadInv s) :
    ReadsConserved s (s.flags.closed = true) := by
  have hwaiting : ∀ tid f, (tid, .ok f) ∈ s.readSide.returns →
      s.readSide.futures.Resolved f ∨ ⟨tid, f⟩ ∈ s.readSide.pendingReads.entries := by
    intro tid f hr
    by_cases hres : s.readSide.futures.calls f = []
    · exact Or.inr (h.owned.returned_open tid f hr hres)
    · exact Or.inl hres
  refine ⟨hwaiting, ?_, ?_, ?_, ?_, h.owned.given_routed, ?_⟩
  · intro hclosed tid f hr
    rcases hwaiting tid f hr with hres | hpend
    · exact hres
    · exact (h.stop.drained (Or.inl hclosed)).2 _ hpend
  · intro f
    constructor
    · rintro ⟨b, hb, rfl⟩
      rw [h.owned.evicted_calls b hb]
      exact List.mem_singleton.mpr rfl
    · exact h.owned.failed_evicted f
  · intro htest p hp hhand hans
    have hopen : ¬ s.flags.test = true := by
      rw [htest]
      nofun
    rcases h.history.complete hopen p hp with hh | ha | hr
    · exact absurd hh hhand
    · exact absurd ha hans
    · exact hr
  · intro p f hp
    exact ⟨h.owned.routed_calls p f hp,
      fun g hg => (h.history.routed_unique p g p f hg hp rfl).2⟩
  · intro p f hp
    rcases h.owned.routed_place p f hp with hret | hpool | hdrop | hclear | hover
    · exact Or.inl hret
    · exact Or.inr (Or.inl hpool)
    · exact Or.inr (Or.inr (Or.inl hdrop))
    · exact Or.inr (Or.inr (Or.inr hclear))
    · rw [h.history.overwritten_nil] at hover
      cases hover

/-- Responses and read futures are conserved in every run with a server that
answers an id at most once; once the call that closes the connection has set
`_closed`, no future of `read` is unresolved. -/
theorem reads_conserved (cfg : Config) :
    ∀ s, ((system cfg).restrict (fun l s => answersOnce l s)).Reachable s →
      ReadsConserved s (s.flags.closed = true) := by
  intro s hr
  exact (readInv_reachable cfg s hr).conserved

/-- One pending read at most. -/
def oneReadConfig : Config where
  maxPendingWrites := none
  maxPendingReads := some 1
  maxPoolingReads := none
  writeTimeout := some 60
  heartbeatInterval := none
  heartbeatFunc := false

/-- A second reader evicts the first one, whose response then comes late and
waits for it in `_pooling_reads`; a third future is pending when the connection
is closed. -/
def lateResponse : List Label :=
  let first : Packet := (5, [9])
  let second : Packet := (1, [7])
  [.readEnter 1, .readCommit 1, .readEnter 5, .readCommit 5,
    .deliver [0, 0, 0, 1, 0, 0, 0, 5, 9, 0, 0, 0, 1, 0, 0, 0, 1, 7],
    .readAcquire, .readLook, .readReceive first [0, 0, 0, 1, 0, 0, 0, 1, 7],
    .readHeartbeatLock first, .readHeartbeat first, .readRouteLock first, .readRoute first,
    .readAcquire, .readLook, .readEnter 6, .readCommit 6, .readWake, .readAcquire, .readLook,
    .readReceive second [], .readHeartbeatLock second, .readHeartbeat second,
    .readRouteLock second, .readRoute second, .readEnter 1, .readCommit 1,
    .closeTest (.client 0), .closeFlag (.client 0), .closeSocket (.client 0),
    .closeWrite (.client 0), .closeRead (.client 0), .closeSet (.client 0)]

/-- The run above: one future evicted, two given a response, one failed by
`close()`. -/
theorem reads_conserved_late :
    let s := ((system oneReadConfig).restrict (fun l s => answersOnce l s)).run lateResponse
      (new oneReadConfig)
    s.flags.closed = true ∧ s.readSide.evicted = [⟨1, 0⟩] ∧
      s.readSide.routed = [((5, [9]), 1), ((1, [7]), 3)] ∧
      s.readSide.returns = [(1, .ok 0), (5, .ok 1), (6, .ok 2), (1, .ok 3)] ∧
      ReadsConserved s (s.flags.closed = true) := by
  refine ⟨by decide, by decide, by decide, by decide, ?_⟩
  exact reads_conserved oneReadConfig _ ((Lts.Spec.Reachable.init rfl).run _)

/-- A client reads, a second one is closing the connection, and the call of a
third one returns at once. -/
def secondClose : List Label :=
  [.readEnter 1, .readCommit 1, .closeTest (.client 2), .closeFlag (.client 2),
    .closeReturn (.client 3)]

/-- After the early return of a call of `close()` that found another one under
way, a future of `read` is still unresolved. -/
theorem early_close :
    ¬ ∀ s, ((system oneReadConfig).restrict (fun l s => answersOnce l s)).Reachable s →
      ReadsConserved s (s.flags.returns ≠ []) := by
  intro h
  have hr := ((Lts.Spec.Reachable.init rfl : ((system oneReadConfig).restrict
    (fun l s => answersOnce l s)).Reachable (new oneReadConfig)).run secondClose)
  exact (h _ hr).settled (by decide) 1 0 (by decide) (by decide)

end SharedBlockingConnection

end SummerRpc
