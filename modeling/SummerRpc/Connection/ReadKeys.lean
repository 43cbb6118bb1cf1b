import SummerRpc.Connection.ReadFutures

/-! # Whose response a read future holds

Every future of the read side is made for one transaction id, and is handed out and
resolved for that id only: by the readers that ask for it, and by the packet that
carries it.

* `Keyed`: the futures with the ids they were made for;
* `keyed_step`: every step keeps that, over every interleaving.
-/

namespace SummerRpc

/-- `keys` lists the ids the futures were made for. -/
structure Keyed (r : ReadSide) (keys : List ℕ) : Prop where
  length : keys.length = r.futures.count
  pending : ∀ b ∈ r.pendingReads.entries, keys[b.value]? = some b.key
  pooling : ∀ b ∈ r.poolingReads.entries, keys[b.value]? = some b.key
  returned : ∀ tid f, (tid, .ok f) ∈ r.returns → keys[f]? = some tid
  /-- a response is that of a packet with the id of the future -/
  given : ∀ f body, .ok body ∈ r.futures.calls f →
    ∃ tid, keys[f]? = some tid ∧ (tid, body) ∈ r.received
  hand : ∀ p ∈ r.pc.packet, p ∈ r.received

namespace Keyed

variable {r r' : ReadSide} {keys : List ℕ}

/-- A step that makes no future and gives none a response. -/
theorem congr (h : Keyed r keys) (hcount : r'.futures.count = r.futures.count)
    (hpending : ∀ b ∈ r'.pendingReads.entries, b ∈ r.pendingReads.entries)
    (hpooling : ∀ b ∈ r'.poolingReads.entries, b ∈ r.poolingReads.entries)
    (hreturned : ∀ tid f, (tid, .ok f) ∈ r'.returns →
      (tid, .ok f) ∈ r.returns ∨ keys[f]? = some tid)
    (hgiven : ∀ f body, .ok body ∈ r'.futures.calls f → .ok body ∈ r.futures.calls f)
    (hreceived : ∀ p ∈ r.received, p ∈ r'.received)
    (hhand : ∀ p ∈ r'.pc.packet, p ∈ r'.received) : Keyed r' keys := by
  constructor
  · rw [hcount]
    exact h.length
  · exact fun b hb => h.pending b (hpending b hb)
  · exact fun b hb => h.pooling b (hpooling b hb)
  · intro tid f hr
    rcases hreturned tid f hr with hold | hkey
    · exact h.returned tid f hold
    · exact hkey
  · intro f body hc
    rcases h.given f body (hgiven f body hc) with ⟨tid, hkey, hmem⟩
    exact ⟨tid, hkey, hreceived _ hmem⟩
  · exact hhand

/-- Steps that move the read thread or the lock. -/
theorem move (h : Keyed r keys) (condition : ReadLock) {pc : ReadPc} (incoming : List UInt8)
    (answered : List Packet) (hhand : ∀ p ∈ pc.packet, p ∈ r.received) :
    Keyed { r with condition := condition, pc := pc, incoming := incoming,
                   answered := answered } keys :=
  h.congr rfl (fun _ hb => hb) (fun _ hb => hb) (fun _ _ hr => Or.inl hr) (fun _ _ hc => hc)
    (fun _ hp => hp) hhand

/-- The read thread ends when it is the one `close()` returns to. -/
theorem exit (h : Keyed r keys) (c : Thread) :
    Keyed (if c = .readThread then { r with pc := .exited } else r) keys := by
  split
  · exact h.move _ _ _ nofun
  · exact h

theorem notifyAll (h : Keyed r keys) : Keyed r.notifyAll keys := by
  unfold ReadSide.notifyAll
  split
  · exact h.move _ _ _ nofun
  · exact h

/-- A new future, made for `tid`. -/
theorem create (h : Keyed r keys) (tid : ℕ) :
    Keyed { r with futures := r.futures.create } (keys ++ [tid]) := by
  have hold : ∀ {f t : ℕ}, keys[f]? = some t → (keys ++ [tid])[f]? = some t := by
    intro f t hf
    rw [List.getElem?_append_left (List.getElem?_eq_some_iff.mp hf).1]
    exact hf
  constructor
  · rw [List.length_append, List.length_singleton, h.length]
    rfl
  · exact fun b hb => hold (h.pending b hb)
  · exact fun b hb => hold (h.pooling b hb)
  · exact fun t f hr => hold (h.returned t f hr)
  · intro f body hc
    rcases h.given f body hc with ⟨t, hkey, hmem⟩
    exact ⟨t, hold hkey, hmem⟩
  · exact h.hand

/-- The future made last. -/
theorem key_new (h : Keyed r keys) (tid : ℕ) : (keys ++ [tid])[r.futures.count]? = some tid := by
  rw [← h.length]
  simp

/-- A future gets an exception. -/
theorem fail (h : Keyed r keys) (f : ℕ) (ex : Exc) :
    Keyed { r with futures := r.futures.resolve f (.error ex) } keys := by
  refine h.congr rfl (fun _ hb => hb) (fun _ hb => hb) (fun _ _ hr => Or.inl hr) ?_
    (fun _ hp => hp) h.hand
  intro g body hc
  by_cases hgf : g = f
  · subst hgf
    rw [Futures.calls_resolve_self] at hc
    rcases List.mem_append.mp hc with hold | hnew
    · exact hold
    · cases List.mem_singleton.mp hnew
  · rw [Futures.calls_resolve_of_ne _ _ hgf] at hc
    exact hc

/-- A future gets the response of a packet with its id. -/
theorem give (h : Keyed r keys) {f : ℕ} {p : Packet} (hkey : keys[f]? = some p.1)
    (hp : p ∈ r.received) : Keyed { r with futures := r.futures.resolve f (.ok p.2) } keys := by
  refine ⟨h.length, h.pending, h.pooling, h.returned, ?_, h.hand⟩
  intro g body hc
  by_cases hgf : g = f
  · subst hgf
    have hc' : .ok body ∈ (r.futures.resolve g (.ok p.2)).calls g := hc
    rw [Futures.calls_resolve_self] at hc'
    rcases List.mem_append.mp hc' with hold | hnew
    · exact h.given g body hold
    · cases List.mem_singleton.mp hnew
      exact ⟨p.1, hkey, hp⟩
  · have hc' : .ok body ∈ (r.futures.resolve f (.ok p.2)).calls g := hc
    rw [Futures.calls_resolve_of_ne _ _ hgf] at hc'
    exact h.given g body hc'

/-! ## `read` -/

theorem enterRead (h : Keyed r keys) (closing : Bool) (tid : ℕ) :
    Keyed (r.enterRead closing tid) keys := by
  unfold ReadSide.enterRead
  split
  · refine h.congr rfl (fun _ hb => hb) (fun _ hb => hb) ?_ (fun _ _ hc => hc) (fun _ hp => hp) h.hand
    intro t f hr
    exact Or.inl (by simpa using hr)
  · exact h.move _ _ _ h.hand

/-- `read` hands out a future made for the id. -/
theorem commitRead (h : Keyed r keys) (tid : ℕ) : ∃ keys', Keyed (r.commitRead tid) keys' := by
  -- the id and a future that was made for it are added to the returns
  have hret : ∀ {f t g : ℕ}, keys[f]? = some tid →
      (t, Except.ok g) ∈ r.returns ++ [(tid, .ok f)] →
      (t, .ok g) ∈ r.returns ∨ keys[g]? = some t := by
    intro f t g hkey hmem
    rcases List.mem_append.mp hmem with hold | hnew
    · exact Or.inl hold
    · cases List.mem_singleton.mp hnew
      exact Or.inr hkey
  rcases r.commitRead_cases tid with ⟨b, hb, hkey, heq⟩ | ⟨b, hb, hkey, heq⟩ | ⟨_, heq⟩
  · have hfuture : keys[b.value]? = some tid := by
      rw [h.pooling b hb, hkey]
    rw [heq]
    refine ⟨keys, h.congr rfl (fun _ hb => hb) ?_ (fun _ _ => hret hfuture) (fun _ _ hc => hc)
      (fun _ hp => hp) h.hand⟩
    intro d hd
    exact LRUCache.mem_touch.mp (LRUCache.mem_erase.mp hd).1
  · have hfuture : keys[b.value]? = some tid := by
      rw [h.pending b hb, hkey]
    rw [heq]
    refine ⟨keys, h.congr rfl ?_ (fun _ hb => hb) (fun _ _ => hret hfuture)
      (fun _ _ hc => hc) (fun _ hp => hp) h.hand⟩
    exact fun d hd => LRUCache.mem_touch.mp hd
  · -- a new future is stored under the id
    have hkick : ∃ futures, r.failKickedOut = { r with futures := futures } ∧
        Keyed { r with futures := futures } keys := by
      unfold ReadSide.failKickedOut
      split
      · exact ⟨_, rfl, h.fail _ _⟩
      · exact ⟨r.futures, rfl, h⟩
    rcases hkick with ⟨futures, hfutures, hk⟩
    rw [heq, hfutures]
    have hnew := hk.key_new tid
    have hc := hk.create tid
    refine ⟨keys ++ [tid], Keyed.notifyAll ⟨hc.length, ?_, hc.pooling, ?_, hc.given, hc.hand⟩⟩
    · intro b hb
      rcases LRUCache.mem_setItem hb with rfl | hold
      · exact hnew
      · exact hc.pending b hold
    · intro t g hr
      rcases List.mem_append.mp hr with hold | hlast
      · exact hc.returned t g hold
      · cases List.mem_singleton.mp hlast
        exact hnew

/-! ## The read thread and `close()` -/

/-- A packet is read. -/
theorem receive (h : Keyed r keys) (p : Packet) (incoming : List UInt8) :
    Keyed (r.receive p incoming) keys := by
  refine h.congr rfl (fun _ hb => hb) (fun _ hb => hb) (fun _ _ hr => Or.inl hr)
    (fun _ _ hc => hc) (fun _ hp => List.mem_append_left _ hp) ?_
  rintro q ⟨rfl⟩
  exact List.mem_append_right _ (List.mem_singleton.mpr rfl)

/-- The packet goes to a future that was made for its id. -/
theorem route (h : Keyed r keys) {p : Packet} (hpc : r.pc.packet = some p) :
    ∃ keys', Keyed (r.route p) keys' := by
  have hp : p ∈ r.received := h.hand p hpc
  rcases r.route_cases p with ⟨b, hb, hkey, heq⟩ | ⟨_, heq⟩
  · have hfuture : keys[b.value]? = some p.1 := by
      rw [h.pending b hb, hkey]
    have hg := h.give hfuture hp
    rw [heq]
    refine ⟨keys, hg.length, ?_, hg.pooling, hg.returned, hg.given, nofun⟩
    intro d hd
    exact hg.pending d (LRUCache.mem_touch.mp (LRUCache.mem_erase.mp hd).1)
  · have hnew := h.key_new p.1
    have hc := (h.create p.1).give hnew hp
    rw [heq]
    refine ⟨keys ++ [p.1], hc.length, hc.pending, ?_, hc.returned, hc.given, nofun⟩
    intro d hd
    rcases LRUCache.mem_setItem hd with rfl | hold
    · exact hnew
    · exact hc.pooling d hold

/-- Closing gives no future a response. -/
theorem close (h : Keyed r keys) : Keyed r.close keys := by
  apply notifyAll
  refine h.congr (Futures.count_failAll _ _ _) (fun _ hb => hb) ?_ (fun _ _ hr => Or.inl hr) ?_
    (fun _ hp => hp) h.hand
  · intro b hb
    cases hb
  · intro f body hc
    rcases Futures.mem_calls_failAll hc with hold | heq
    · exact hold
    · cases heq

end Keyed

/-! ## The steps -/

namespace SharedBlockingConnection

open Framing BaseRecordTransport

theorem keyed_step {cfg : Config} {l : Label} {s : SharedBlockingConnection} {keys : List ℕ}
    (hg : guard cfg l s) (h : Keyed s.readSide keys) :
    ∃ keys', Keyed (update cfg l s).readSide keys' := by
  rw [readSide_update]
  cases l with
  | readEnter tid => exact ⟨keys, h.enterRead _ tid⟩
  | readCommit tid => exact h.commitRead tid
  | closeReturn c => exact ⟨keys, h.exit c⟩
  | closeDone c => exact ⟨keys, h.exit c⟩
  | closeRead c => exact ⟨keys, h.close⟩
  | writeNotify => exact ⟨keys, h.notifyAll⟩
  | readAcquire =>
      show ∃ keys', Keyed (s.readSide.acquire _) keys'
      unfold ReadSide.acquire
      split <;> exact ⟨keys, h.move _ _ _ nofun⟩
  | readLook =>
      show ∃ keys', Keyed (s.readSide.look _) keys'
      unfold ReadSide.look
      split <;> exact ⟨keys, h.move _ _ _ nofun⟩
  | readWake => exact ⟨keys, h.move _ _ _ nofun⟩
  | readReceive p rest => exact ⟨keys, h.receive p rest⟩
  | readFail => exact ⟨keys, h.move _ _ _ nofun⟩
  | readHeartbeatLock p =>
      -- the packet stays in the hand of the thread, unless it is dropped
      have hhand := h.hand
      rw [show s.readSide.pc = .received p from hg] at hhand
      show ∃ keys', Keyed (s.readSide.lockHeartbeats _ _) keys'
      unfold ReadSide.lockHeartbeats
      split
      · exact ⟨keys, h.move _ _ _ nofun⟩
      · exact ⟨keys, h.move _ _ _ hhand⟩
  | readHeartbeat p =>
      have hhand := h.hand
      rw [show s.readSide.pc = .heartbeatLocked p from hg] at hhand
      show ∃ keys', Keyed (s.answerHeartbeat p).readSide keys'
      rcases readSide_answerHeartbeat s p with heq | heq
      · rw [heq]
        exact ⟨keys, h.move _ _ _ nofun⟩
      · rw [heq]
        exact ⟨keys, h.move _ _ _ hhand⟩
  | readRouteLock p =>
      have hhand := h.hand
      rw [hg.1] at hhand
      show ∃ keys', Keyed (s.readSide.lockRoute _ _) keys'
      unfold ReadSide.lockRoute
      split
      · exact ⟨keys, h.move _ _ _ nofun⟩
      · exact ⟨keys, h.move _ _ _ hhand⟩
  | readRoute p => exact h.route (by rw [show s.readSide.pc = .routing p from hg]; rfl)
  | deliver bs => exact ⟨keys, h.move _ _ _ h.hand⟩
  | _ => exact ⟨keys, h⟩

/-- In every run the futures of the read side have their ids. -/
theorem keyed_reachable (cfg : Config) :
    ∀ s, (system cfg).Reachable s → ∃ keys, Keyed s.readSide keys := by
  apply Lts.Spec.invariant
  · rintro s rfl
    refine ⟨[], rfl, ?_, ?_, ?_, ?_, ?_⟩
    · intro b hb
      cases hb
    · intro b hb
      cases hb
    · intro tid f hr
      cases hr
    · intro f body hc
      cases hc
    · nofun
  · rintro l s hg ⟨keys, h⟩
    exact keyed_step hg h

/-- A reader gets the response of a packet with the id it asked for. -/
theorem response_received {cfg : Config} {s : SharedBlockingConnection}
    (hr : (system cfg).Reachable s) {tid f : ℕ} {body : Body}
    (hreturned : (tid, .ok f) ∈ s.readSide.returns) (hbody : .ok body ∈ s.readSide.futures.calls f) :
    (tid, body) ∈ s.readSide.received := by
  obtain ⟨keys, h⟩ := keyed_reachable cfg s hr
  rcases h.given f body hbody with ⟨tid', hkey, hmem⟩
  rw [h.returned tid f hreturned] at hkey
  cases hkey
  exact hmem

/-! ## What the read thread takes off the socket -/

/-- Nothing comes off the socket; a call of `read` may return. -/
structure Still (r r' : ReadSide) : Prop where
  received : r'.received = r.received
  incoming : r'.incoming = r.incoming
  returns : r.returns <+: r'.returns

theorem Still.refl (r : ReadSide) : Still r r := ⟨rfl, rfl, List.prefix_refl _⟩

theorem Still.notifyAll {r r' : ReadSide} (h : Still r r') : Still r r'.notifyAll := by
  unfold ReadSide.notifyAll
  split
  · exact ⟨h.received, h.incoming, h.returns⟩
  · exact h

theorem still_commitRead (r : ReadSide) (tid : ℕ) : Still r (r.commitRead tid) := by
  rcases r.commitRead_cases tid with ⟨b, _, _, heq⟩ | ⟨b, _, _, heq⟩ | ⟨_, heq⟩
  · rw [heq]
    exact ⟨rfl, rfl, List.prefix_append _ _⟩
  · rw [heq]
    exact ⟨rfl, rfl, List.prefix_append _ _⟩
  · obtain ⟨futures, hfutures⟩ := r.failKickedOut_frame
    rw [heq, hfutures]
    exact Still.notifyAll ⟨rfl, rfl, List.prefix_append _ _⟩

/-- What `read` returns or raises is for the id it was asked for. -/
theorem commitRead_returns (r : ReadSide) (tid : ℕ) :
    ∃ ret, (r.commitRead tid).returns = r.returns ++ [(tid, ret)] := by
  rcases r.commitRead_cases tid with ⟨b, _, _, heq⟩ | ⟨b, _, _, heq⟩ | ⟨_, heq⟩
  · exact ⟨.ok b.value, by rw [heq]⟩
  · exact ⟨.ok b.value, by rw [heq]⟩
  · obtain ⟨futures, hfutures⟩ := r.failKickedOut_frame
    rw [heq, hfutures]
    simp only [ReadSide.storeRead, ReadSide.notifyAll]
    split <;> exact ⟨_, rfl⟩

theorem still_route (r : ReadSide) (p : Packet) : Still r (r.route p) := by
  unfold ReadSide.route
  split <;> exact ⟨rfl, rfl, List.prefix_refl _⟩

theorem still_update (cfg : Config) {l : Label} (s : SharedBlockingConnection)
    (hreceive : ∀ p rest, l ≠ .readReceive p rest) (hdeliver : ∀ bs, l ≠ .deliver bs) :
    Still s.readSide (update cfg l s).readSide := by
  rw [readSide_update]
  cases l with
  | readReceive p rest => exact absurd rfl (hreceive p rest)
  | deliver bs => exact absurd rfl (hdeliver bs)
  | readEnter tid =>
      show Still _ (s.readSide.enterRead _ _)
      unfold ReadSide.enterRead
      split
      · exact ⟨rfl, rfl, List.prefix_append _ _⟩
      · exact ⟨rfl, rfl, List.prefix_refl _⟩
  | readCommit tid => exact still_commitRead s.readSide tid
  | closeReturn c =>
      simp only
      split <;> exact ⟨rfl, rfl, List.prefix_refl _⟩
  | closeDone c =>
      simp only
      split <;> exact ⟨rfl, rfl, List.prefix_refl _⟩
  | closeRead c => exact Still.notifyAll ⟨rfl, rfl, List.prefix_refl _⟩
  | writeNotify => exact (Still.refl _).notifyAll
  | readAcquire =>
      show Still _ (s.readSide.acquire _)
      unfold ReadSide.acquire
      split <;> exact ⟨rfl, rfl, List.prefix_refl _⟩
  | readLook =>
      show Still _ (s.readSide.look _)
      unfold ReadSide.look
      split <;> exact ⟨rfl, rfl, List.prefix_refl _⟩
  | readHeartbeatLock p =>
      show Still _ (s.readSide.lockHeartbeats _ _)
      unfold ReadSide.lockHeartbeats
      split <;> exact ⟨rfl, rfl, List.prefix_refl _⟩
  | readHeartbeat p =>
      show Still _ (s.answerHeartbeat p).readSide
      rcases readSide_answerHeartbeat s p with heq | heq
      · rw [heq]
        exact ⟨rfl, rfl, List.prefix_refl _⟩
      · rw [heq]
        exact ⟨rfl, rfl, List.prefix_refl _⟩
  | readRouteLock p =>
      show Still _ (s.readSide.lockRoute _ _)
      unfold ReadSide.lockRoute
      split <;> exact ⟨rfl, rfl, List.prefix_refl _⟩
  | readRoute p => exact still_route s.readSide p
  | readWake => exact ⟨rfl, rfl, List.prefix_refl _⟩
  | readFail => exact ⟨rfl, rfl, List.prefix_refl _⟩
  | _ => exact Still.refl _

/-- The bytes a step brings in. -/
def Label.delivered : Label → List UInt8
  | .deliver bs => bs
  | _ => []

/-- What a step takes off the socket: at most the next packet. -/
structure Takes (arrived : List UInt8) (l : Label) (r r' : ReadSide) : Prop where
  readOff : ReadOff packetCode Encodable (arrived ++ l.delivered) r'.received r'.incoming
  received : r.received <+: r'.received
  returns : r.returns <+: r'.returns

/-- The read thread decodes the packets that arrive, in order. -/
theorem takes_update {cfg : Config} {l : Label} {s : SharedBlockingConnection}
    {arrived : List UInt8} (hg : guard cfg l s)
    (h : ReadOff packetCode Encodable arrived s.readSide.received s.readSide.incoming) :
    Takes arrived l s.readSide (update cfg l s).readSide := by
  by_cases hreceive : ∃ p rest, l = .readReceive p rest
  · rcases hreceive with ⟨p, rest, rfl⟩
    refine ⟨?_, List.prefix_append _ _, List.prefix_refl _⟩
    rw [Label.delivered, List.append_nil]
    · exact h.next packetCode_exact hg.2
    · nofun
  · by_cases hdeliver : ∃ bs, l = .deliver bs
    · rcases hdeliver with ⟨bs, rfl⟩
      exact ⟨h.arrive bs, List.prefix_refl _, List.prefix_refl _⟩
    · have hstill := still_update cfg s (fun p rest heq => hreceive ⟨p, rest, heq⟩)
        (fun bs heq => hdeliver ⟨bs, heq⟩)
      have hnone : l.delivered = [] := by
        cases l with
        | deliver bs => exact absurd ⟨bs, rfl⟩ hdeliver
        | _ => rfl
      refine ⟨?_, ?_, hstill.returns⟩
      · rw [hstill.received, hstill.incoming, hnone, List.append_nil]
        exact h
      · rw [hstill.received]

end SharedBlockingConnection

end SummerRpc
