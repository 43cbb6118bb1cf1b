import SummerRpc.Session.Proxies

/-! # What the server invokes

`Correlation` follows a response back to the request that it answers. Here the packets are
followed the other way, to the server: what is invoked there is a request of a call, or a
heartbeat, and nothing is invoked twice. This is so whatever becomes of the calls, which may have
timed out or have been interrupted by `close()`.

* `Label.sent`: the body of the packet that a step of the connection brings into the queue;
* `FromCall`: a packet of the write thread that holds the request of a call;
* `Accounted`: every packet of the write thread is that of a call, or a heartbeat;
* `performed_once`: so is every invocation, and no two are of the same call.
-/

namespace SummerRpc

open BaseRecordTransport Framing

/-! ## The packets that a step adds -/

namespace WriteSide

/-- `write` that raises has put nothing into the queue. -/
theorem commitWrite_unsent (w : WriteSide) (buff : Body) (timeout : Option ℤ) (now : ℤ) :
    (∃ r, (w.commitWrite buff timeout now).returns = w.returns ++ [.ok r]) ∨
      (w.commitWrite buff timeout now).unsent = w.unsent := by
  unfold commitWrite
  split
  · exact Or.inr rfl
  · split
    · exact Or.inl ⟨_, rfl⟩
    · rename_i ex w₁ heq
      rcases updatePendingWrites_error heq with ⟨gen, rfl⟩
      exact Or.inr rfl

end WriteSide

namespace SharedBlockingConnection

/-- A step that may call `_update_pending_writes`. -/
def Label.updates : Label → Bool
  | .writeCommit .. | .writeBeat .. => true
  | _ => false

/-- The body of the packet that a step puts into the queue. -/
def Label.sent : Label → Body → Prop
  | .writeCommit buff _ _ => (· = buff)
  | .writeBeat _ (.ok buff) => (· = buff)
  | _ => fun _ => False

/-- No other step makes a future of a write. -/
theorem count_update (cfg : Config) {l : Label} (hl : l.updates = false)
    (s : SharedBlockingConnection) :
    (update cfg l s).writeSide.futures.count = s.writeSide.futures.count := by
  cases l with
  | writeCommit | writeBeat => cases hl
  | writeEnter buff timeout =>
      show (s.writeSide.enterWrite _ _ _).futures.count = _
      unfold WriteSide.enterWrite
      split <;> rfl
  | closeReturn c | closeDone c =>
      simp only [update, returnFromClose]
      split <;> rfl
  | closeWrite c =>
      simp only [update, WriteSide.close, WriteSide.notifyAll_futures, Futures.count_failAll]
  | writeAcquire =>
      show (s.writeSide.acquire _).futures.count = _
      unfold WriteSide.acquire
      split <;> rfl
  | writeTake =>
      show s.writeSide.take.futures.count = _
      unfold WriteSide.take
      split <;> rfl
  | writeWake notified =>
      show (s.writeSide.wake _ _).futures.count = _
      unfold WriteSide.wake
      split <;> rfl
  | writeCheck e now =>
      show (s.writeSide.check e now).futures.count = _
      unfold WriteSide.check
      split
      · simp
      · split <;> rfl
  | readHeartbeat p =>
      show (s.answerHeartbeat p).writeSide.futures.count = _
      unfold answerHeartbeat
      split
      · simp
      · rfl
  | _ => rfl

theorem unsent_new (cfg : Config) : (new cfg).writeSide.unsent = [] := newPendingWrites_elements _

/-- The heartbeat's is the only body that comes into the queue. -/
theorem insertHeartbeat_unsent (cfg : Config) (now : ℤ) (heartbeat : Except Exc Body)
    (s : SharedBlockingConnection) {e : PendingWrite}
    (he : e ∈ (s.insertHeartbeat cfg now heartbeat).writeSide.unsent) :
    e ∈ s.writeSide.unsent ∨ heartbeat = .ok e.buff := by
  -- wherever the write thread goes, it holds nothing there
  have hqueue : ∀ w' : WriteSide, w'.pc.unsent = [] →
      w'.pendingWrites = s.writeSide.pendingWrites → e ∈ w'.unsent → e ∈ s.writeSide.unsent := by
    intro w' hpc hpending hmem
    unfold WriteSide.unsent at hmem ⊢
    rw [hpc, hpending] at hmem
    exact List.mem_append_right _ hmem
  revert he
  unfold insertHeartbeat
  split
  · cases heartbeat with
    | error ex => exact fun he => Or.inl (hqueue { s.writeSide with pc := .died } rfl rfl he)
    | ok buff =>
        simp only
        split
        · rename_i ex w heq
          rcases WriteSide.updatePendingWrites_error heq with ⟨gen, rfl⟩
          exact fun he => Or.inl (hqueue { s.writeSide with
            futures := s.writeSide.futures.create, idGenerator := gen, pc := .died } rfl rfl he)
        · rename_i f tid w heq
          rcases WriteSide.updatePendingWrites_ok heq with ⟨_, l, gen, hl, rfl⟩
          intro he
          change e ∈ l.elements at he
          rw [hl] at he
          rcases List.mem_cons.mp he with rfl | hold
          · exact Or.inr rfl
          · exact Or.inl (List.mem_append_right _ hold)
  · exact fun he => Or.inl
      (hqueue { s.writeSide with pc := .precheck true false, condition := .free } rfl rfl he)

/-- Every step keeps the socket in order, and a packet that is new has the body that the step
brings. -/
theorem onWire_sent {cfg : Config} {l : Label} {s : SharedBlockingConnection}
    {begun : List Packet} (hg : guard cfg l s) (hcounted : s.writeSide.Counted)
    (hfew : (update cfg l s).writeSide.futures.count < 2 ^ 32) (h : OnWire s.writeSide begun) :
    Wired s.writeSide (update cfg l s).writeSide begun l.sent := by
  by_cases hl : l.updates = false
  · -- a new packet would need a new id
    rcases onWire_step hg hcounted hfew h with ⟨begun', hwire, hadds⟩
    refine ⟨begun', hwire, ?_⟩
    intro p hp
    rcases hadds p hp with hold | ⟨hid, _⟩
    · exact Or.inl hold
    · have hle := hwire.issued.le p hp
      rw [count_update cfg hl] at hle
      omega
  · cases l with
    | writeCommit buff timeout now =>
        exact ⟨begun, h.commitWrite hcounted buff timeout now hfew⟩
    | writeBeat now heartbeat =>
        rcases onWire_insertHeartbeat cfg now heartbeat hg.1 hcounted hfew h with ⟨hwire, hadds⟩
        refine ⟨begun, hwire, ?_⟩
        intro p hp
        rcases hadds p hp with hold | ⟨hid, _⟩
        · exact Or.inl hold
        · rcases List.mem_append.mp hp with hbegun | hunsent
          · exact Or.inl (List.mem_append_left _ hbegun)
          · rcases List.mem_map.mp hunsent with ⟨e, he, rfl⟩
            rcases insertHeartbeat_unsent cfg now heartbeat s he with hold | rfl
            · exact Or.inl (List.mem_append_right _ (List.mem_map_of_mem hold))
            · exact Or.inr ⟨hid, rfl⟩
    | _ => exact absurd rfl hl

end SharedBlockingConnection

namespace Session

variable {cfg : SessionConfig} {s : Session}

/-! ## The calls behind the packets -/

/-- The call has not been given an id. -/
def Unassigned (v : Invoke) : Prop :=
  v.pc = .dumped ∨ v.pc = .inWrite → v.transactionId = none

/-- A call that has come further. -/
structure Follows (v v' : Invoke) : Prop where
  request : v'.request = v.request
  buff : v'.buff = v.buff
  id : ∀ tid, v.transactionId = some tid → v'.transactionId = some tid
  unassigned : Unassigned v'

/-- The packet holds the request of one of the calls. -/
def FromCall (cfg : SessionConfig) (vs : List Invoke) (p : Packet) : Prop :=
  ∃ v ∈ vs, v.transactionId = some p.1 ∧ v.buff = p.2 ∧
    cfg.serializer.dumps (.request v.request) = .ok v.buff

theorem FromCall.follows {vs : List Invoke} {p : Packet} {n : ℕ} {v v' : Invoke}
    (h : FromCall cfg vs p) (hv : vs[n]? = some v) (hfollows : Follows v v') :
    FromCall cfg (vs.set n v') p := by
  rcases h with ⟨w, hw, hid, hbuff, hdumps⟩
  rcases List.mem_iff_getElem?.mp hw with ⟨k, hk⟩
  by_cases hkn : n = k
  · -- the call itself keeps its id
    subst hkn
    rw [hv] at hk
    cases hk
    refine ⟨v', ?_, hfollows.id _ hid, ?_, ?_⟩
    · exact List.mem_set (List.getElem?_eq_some_iff.mp hv).1 v'
    · rw [hfollows.buff, hbuff]
    · rw [hfollows.request, hfollows.buff, hdumps]
  · refine ⟨w, ?_, hid, hbuff, hdumps⟩
    apply List.mem_of_getElem? (i := k)
    rw [List.getElem?_set_ne hkn, hk]

/-- A call moves on with the id it has. -/
theorem follows_move {v : Invoke} {pc : InvokePc} (hdumped : pc ≠ .dumped)
    (hwrite : pc = .inWrite → v.transactionId = none) : Follows v { v with pc := pc } where
  request := rfl
  buff := rfl
  id := fun _ htid => htid
  unassigned := fun hpc => hpc.elim (fun h => absurd h hdumped) hwrite

theorem follows_afterWrite {v : Invoke} (hnone : v.transactionId = none)
    (ret : Option (Except Exc (ℕ × ℕ))) : Follows v (v.afterWrite ret) := by
  unfold Invoke.afterWrite
  split
  · exact follows_move nofun fun _ => hnone
  · -- `connection.write` has returned an id
    refine ⟨rfl, rfl, ?_, ?_⟩
    · intro tid htid
      rw [hnone] at htid
      cases htid
    · rintro (hpc | hpc) <;> cases hpc
  · exact follows_move nofun nofun

theorem follows_afterRead (v : Invoke) (ret : Option (ℕ × Except Exc ℕ)) :
    Follows v (v.afterRead ret) := by
  unfold Invoke.afterRead
  split <;> exact follows_move nofun nofun

theorem follows_afterCall {v : Invoke} (h : Unassigned v) (c c' : SharedBlockingConnection) :
    Follows v (v.afterCall c c') := by
  unfold Invoke.afterCall
  split
  · rename_i hpc
    exact follows_afterWrite (h (Or.inl hpc)) _
  · rename_i hpc
    exact follows_afterWrite (h (Or.inr hpc)) _
  · exact follows_afterRead v _

theorem follows_wake {v v' : Invoke} {serializer : Serializer} {c : SharedBlockingConnection}
    (h : v.wake serializer c = some v') : Follows v v' := by
  unfold Invoke.wake at h
  split at h
  · split at h
    · cases h
    · cases h
      exact follows_move nofun nofun
    · cases h
      exact follows_move nofun nofun
  · split at h
    · cases h
    · cases h
      exact follows_move nofun nofun
    · cases h
      exact follows_move nofun nofun
  · cases h

theorem follows_timeOut {v v' : Invoke} (h : v.timeOut = some v') : Follows v v' := by
  unfold Invoke.timeOut at h
  split at h
  · rcases Option.map_eq_some_iff.mp h with ⟨t, _, rfl⟩
    exact follows_move nofun nofun
  · rcases Option.map_eq_some_iff.mp h with ⟨t, _, rfl⟩
    exact follows_move nofun nofun
  · cases h

/-! ## The steps -/

/-- `write` has put the request of the call into the queue, under the id that it has returned, or
has put nothing there. -/
theorem wired_call {v : Invoke} {m : SharedBlockingConnection.Label} {now : ℤ}
    {c : SharedBlockingConnection} (hm : v.call cfg.connection now = some m)
    (hg : SharedBlockingConnection.guard cfg.connection m c) (hcounted : c.writeSide.Counted)
    (hfew : (SharedBlockingConnection.update cfg.connection m c).writeSide.futures.count < 2 ^ 32) :
    (∀ begun, OnWire c.writeSide begun → SharedBlockingConnection.Wired c.writeSide
        (SharedBlockingConnection.update cfg.connection m c).writeSide begun fun _ => False) ∨
      ((∀ begun, OnWire c.writeSide begun → SharedBlockingConnection.Wired c.writeSide
          (SharedBlockingConnection.update cfg.connection m c).writeSide begun (· = v.buff)) ∧
        (v.afterCall c (SharedBlockingConnection.update cfg.connection m c)).transactionId =
          some (c.writeSide.futures.count + 1)) := by
  have hsent : ∀ begun, OnWire c.writeSide begun → SharedBlockingConnection.Wired c.writeSide
      (SharedBlockingConnection.update cfg.connection m c).writeSide begun m.sent :=
    fun begun h => SharedBlockingConnection.onWire_sent hg hcounted hfew h
  cases hpc : v.pc with
  | dumped =>
      -- it enters `write`, which puts nothing into the queue yet
      simp only [Invoke.call, hpc, Option.some.injEq] at hm
      subst hm
      exact Or.inl hsent
  | inWrite =>
      simp only [Invoke.call, hpc, Option.some.injEq] at hm
      subst hm
      rcases c.writeSide.commitWrite_unsent v.buff (cfg.connection.timeoutOr v.writeTimeout) now
        with ⟨r, hr⟩ | hunsent
      · refine Or.inr ⟨hsent, ?_⟩
        rcases WriteSide.commitWrite_returns hcounted v.buff
          (cfg.connection.timeoutOr v.writeTimeout) now hfew with ⟨ex, hret⟩ | ⟨f, hret, _⟩
        · -- it has not raised
          rw [hr] at hret
          cases List.append_cancel_left hret
        · simp only [Invoke.afterCall, hpc]
          show (v.afterWrite ((c.writeSide.commitWrite _ _ _).returns.drop _).head?).transactionId =
            _
          rw [hret, head_drop_append]
          rfl
      · left
        intro begun h
        -- `write` has raised
        refine ⟨begun, (h.commitWrite hcounted v.buff _ now hfew).1, OnWire.adds_of_unsent ?_⟩
        exact hunsent ▸ List.Sublist.refl _
  | written =>
      simp only [Invoke.call, hpc, Option.map_eq_some_iff] at hm
      rcases hm with ⟨tid, _, rfl⟩
      exact Or.inl hsent
  | inRead =>
      simp only [Invoke.call, hpc, Option.map_eq_some_iff] at hm
      rcases hm with ⟨tid, _, rfl⟩
      exact Or.inl hsent
  | waitWrite f =>
      rw [Invoke.call, hpc] at hm
      cases hm
  | waitRead f =>
      rw [Invoke.call, hpc] at hm
      cases hm
  | done ending =>
      rw [Invoke.call, hpc] at hm
      cases hm

/-- The packets of the write thread are those of calls, and heartbeats. -/
structure Accounted (cfg : SessionConfig) (heartbeat : Body → Prop) (s : Session) : Prop where
  unassigned : ∀ v ∈ s.invokes, Unassigned v
  packets : ∃ begun, OnWire s.connection.writeSide begun ∧
    ∀ p ∈ s.connection.writeSide.packets begun, FromCall cfg s.invokes p ∨ heartbeat p.2

namespace Accounted

variable {heartbeat : Body → Prop} {s' : Session}

/-- A step of the connection, with what is known of a packet that it adds. -/
theorem advance (h : Accounted cfg heartbeat s) {body : Body → Prop}
    (hwired : ∀ begun, OnWire s.connection.writeSide begun → SharedBlockingConnection.Wired
      s.connection.writeSide s'.connection.writeSide begun body)
    (hunassigned : ∀ v ∈ s'.invokes, Unassigned v)
    (hold : ∀ p, FromCall cfg s.invokes p → FromCall cfg s'.invokes p)
    (hnew : ∀ p : Packet, p.1 = s.connection.writeSide.futures.count + 1 → body p.2 →
      FromCall cfg s'.invokes p ∨ heartbeat p.2) : Accounted cfg heartbeat s' := by
  rcases h.packets with ⟨begun, hwire, hall⟩
  rcases hwired begun hwire with ⟨begun', hwire', hadds⟩
  refine ⟨hunassigned, begun', hwire', ?_⟩
  intro p hp
  rcases hadds p hp with hmem | ⟨hid, hbody⟩
  · exact (hall p hmem).imp_left (hold p)
  · exact hnew p hid hbody

/-- A step of the connection on its own. -/
theorem connection (h : Accounted cfg heartbeat s) {m : SharedBlockingConnection.Label}
    (hg : SharedBlockingConnection.guard cfg.connection m s.connection)
    (hcounted : s.connection.writeSide.Counted)
    (hfew : (SharedBlockingConnection.update cfg.connection m
      s.connection).writeSide.futures.count < 2 ^ 32)
    (hconnection : s'.connection = SharedBlockingConnection.update cfg.connection m s.connection)
    (hinvokes : s'.invokes = s.invokes) (hbeats : ∀ buff, m.sent buff → heartbeat buff) :
    Accounted cfg heartbeat s' := by
  have hwired : ∀ begun, OnWire s.connection.writeSide begun → SharedBlockingConnection.Wired
      s.connection.writeSide s'.connection.writeSide begun m.sent := by
    rw [hconnection]
    exact fun begun hwire => SharedBlockingConnection.onWire_sent hg hcounted hfew hwire
  refine h.advance hwired ?_ ?_ ?_
  · rw [hinvokes]
    exact h.unassigned
  · rw [hinvokes]
    exact fun p hp => hp
  · exact fun p _ hsent => Or.inr (hbeats p.2 hsent)

/-- A step of call `n` that leaves the connection alone. -/
theorem stepInvoke (h : Accounted cfg heartbeat s) (f : Invoke → Option Invoke) (n : ℕ)
    (hfollows : ∀ v v', f v = some v' → Follows v v') :
    Accounted cfg heartbeat (s.stepInvoke f n) := by
  unfold Session.stepInvoke
  split
  · exact h
  · rename_i v' hv'
    rcases Option.bind_eq_some_iff.mp hv' with ⟨v, hv, hf⟩
    rcases h.packets with ⟨begun, hwire, hall⟩
    refine ⟨?_, begun, hwire, ?_⟩
    · intro w hw
      rcases List.mem_or_eq_of_mem_set hw with hw | rfl
      · exact h.unassigned w hw
      · exact (hfollows v w hf).unassigned
    · intro p hp
      exact (hall p hp).imp_left fun hcall => hcall.follows hv (hfollows v v' hf)

end Accounted

/-- The heartbeats are what `heartbeat_func` may return. -/
def Beats (heartbeat : Body → Prop) (l : Label) : Prop :=
  ∀ now buff, l = .connection (.writeBeat now (.ok buff)) → heartbeat buff

/-- The runs in which they are. -/
def beating (cfg : SessionConfig) (heartbeat : Body → Prop) : Lts.Spec Session Label :=
  (system cfg).restrict fun l _ => Beats heartbeat l

/-- What a thread of the connection puts into the queue is a heartbeat. -/
theorem beats_sent {heartbeat : Body → Prop} {m : SharedBlockingConnection.Label}
    (hthreads : ofThreads m = true) (hbeats : Beats heartbeat (.connection m)) {buff : Body}
    (hsent : m.sent buff) : heartbeat buff := by
  cases m with
  | writeBeat now beat =>
      cases beat with
      | error ex => cases hsent
      | ok b =>
          rcases hsent with rfl
          exact hbeats now buff rfl
  | writeCommit _ _ _ => cases hthreads
  | _ => cases hsent

theorem accounted_step {heartbeat : Body → Prop} {l : Label} (hg : guard cfg l s)
    (hbeats : Beats heartbeat l)
    (hr : (SharedBlockingConnection.system cfg.connection).Reachable s.connection)
    (hfew : (update cfg l s).writes < 2 ^ 32)
    (hok : ∀ v ∈ s.invokes, InvokeOk cfg s.connection v) (h : Accounted cfg heartbeat s) :
    Accounted cfg heartbeat (update cfg l s) := by
  have hcounted := SharedBlockingConnection.counted_reachable cfg.connection _ hr
  cases l with
  | invoke request writeTimeout readTimeout =>
      rcases h.packets with ⟨begun, hwire, hall⟩
      refine ⟨?_, begun, hwire, ?_⟩
      · intro v hv
        rcases List.mem_append.mp hv with hv | hv
        · exact h.unassigned v hv
        · -- the new call has no id
          cases List.mem_singleton.mp hv
          unfold Invoke.start
          split <;> exact fun _ => rfl
      · intro p hp
        refine (hall p hp).imp_left ?_
        rintro ⟨v, hv, hcall⟩
        exact ⟨v, List.mem_append_left _ hv, hcall⟩
  | call n now =>
      rcases hg with ⟨v, m, hv, hm, hgm⟩
      simp only [update, stepCall, hv, hm] at hfew ⊢
      have hvmem : v ∈ s.invokes := List.mem_of_getElem? hv
      have hfollows := follows_afterCall (h.unassigned v hvmem) s.connection
        (SharedBlockingConnection.update cfg.connection m s.connection)
      have hunassigned : ∀ w ∈ s.invokes.set n (v.afterCall s.connection
          (SharedBlockingConnection.update cfg.connection m s.connection)), Unassigned w := by
        intro w hw
        rcases List.mem_or_eq_of_mem_set hw with hw | rfl
        · exact h.unassigned w hw
        · exact hfollows.unassigned
      rcases wired_call hm hgm hcounted hfew with hwired | ⟨hwired, hid⟩
      · -- nothing has been added
        refine h.advance hwired hunassigned (fun p hp => hp.follows hv hfollows) ?_
        exact fun _ _ hfalse => False.elim hfalse
      · -- the new packet is that of this call
        refine h.advance hwired hunassigned (fun p hp => hp.follows hv hfollows) ?_
        intro p hp hbuff
        refine Or.inl ⟨_, List.mem_set (List.getElem?_eq_some_iff.mp hv).1 _, ?_, ?_, ?_⟩
        · rw [hid, hp]
        · rw [hfollows.buff, hbuff]
        · rw [hfollows.request, hfollows.buff]
          exact (hok v hvmem).dumped (running_of_call hm)
  -- these steps of a call do not touch the connection
  | wake n => exact h.stepInvoke _ n fun _ _ hwake => follows_wake hwake
  | timeOut n => exact h.stepInvoke _ n fun _ _ htime => follows_timeOut htime
  | connection m =>
      exact h.connection hg.2 hcounted hfew rfl rfl fun _ hsent => beats_sent hg.1 hbeats hsent
  | runner m => exact ⟨h.unassigned, h.packets⟩
  | carryRequest bs => exact ⟨h.unassigned, h.packets⟩
  | carryResponse bs =>
      have hgm : SharedBlockingConnection.guard cfg.connection (.deliver bs) s.connection := trivial
      exact h.connection hgm hcounted hfew rfl rfl fun _ hfalse => False.elim hfalse

theorem accounted_reachable (cfg : SessionConfig) (heartbeat : Body → Prop) :
    ∀ s, (beating cfg heartbeat).Reachable s → s.writes < 2 ^ 32 → Accounted cfg heartbeat s := by
  apply Lts.Spec.invariant_with _ (system cfg).Reachable
  · exact fun s hr => hr.of_restrict
  · rintro s ⟨now, rfl⟩ _
    refine ⟨fun _ hv => absurd hv List.not_mem_nil, [], SharedBlockingConnection.onWire_new _, ?_⟩
    intro p hp
    rcases List.mem_map.mp hp with ⟨e, he, _⟩
    change e ∈ (SharedBlockingConnection.new cfg.connection).writeSide.unsent at he
    rw [SharedBlockingConnection.unsent_new] at he
    cases he
  · intro l s hg hr _ ih hfew
    -- there have been no more writes before the step
    have hbefore : s.writes < 2 ^ 32 := Nat.lt_of_le_of_lt (writes_update hg.1) hfew
    rcases linked_reachable cfg s hr hbefore with ⟨begun, ps, qs, hlinked⟩
    exact accounted_step hg.1 hg.2 ((connection_projection cfg).reachable hr) hfew
      hlinked.calls.ok (ih hbefore)

/-! ## What is invoked -/

/-- The invocation is of call `n`: it has its id, and its request as the serializers leave it. -/
def OfCall (cfg : SessionConfig) (s : Session) (n : ℕ) (inv : Invocation) : Prop :=
  ∃ v, s.invokes[n]? = some v ∧ v.transactionId = some inv.transactionId ∧
    Received cfg.serializer v.request inv.request

/-- What has been invoked was in a packet of a call, or in a heartbeat. -/
theorem Accounted.origin {heartbeat : Body → Prop} {begun ps qs : List Packet}
    (h : Accounted cfg heartbeat s) (hlinked : Linked cfg s begun ps qs) {inv : Invocation}
    (hinv : inv ∈ s.runner.invocations) : (∃ n, OfCall cfg s n inv) ∨
      ∃ buff, heartbeat buff ∧ cfg.serializer.loads (some buff) = .ok (.request inv.request) := by
  rcases h.packets with ⟨sent, hwire, hall⟩
  rcases List.mem_iff_getElem?.mp hinv with ⟨j, hj⟩
  rcases hlinked.net.consumed.packet_of hj with ⟨q, hq, hcarries⟩
  -- the packet that the server has read is one that the write thread has begun
  have hread : ps <+: sent :=
    hlinked.net.consumed.readOff.isPrefix packetCode_exact hwire.encodable
      (hlinked.net.requests.trans hwire.isPrefix)
  have hloads : cfg.serializer.loads (some q.2) = .ok (.request inv.request) := hcarries.request
  rcases hall q (List.mem_append_left _ (hread.subset hq)) with hcall | hbeat
  · rcases hcall with ⟨v, hv, hid, hbuff, hdumps⟩
    rcases List.mem_iff_getElem?.mp hv with ⟨n, hn⟩
    rw [← hcarries.transactionId] at hid
    refine Or.inl ⟨n, v, hn, hid, v.buff, hdumps, ?_⟩
    rw [hbuff, hloads]
  · exact Or.inr ⟨q.2, hbeat, hloads⟩

/-- In every run with fewer than 2³² writes, whatever the calls end with: each invocation is of
exactly one call, or of a heartbeat, and no two invocations are of the same call. -/
theorem performed_once (cfg : SessionConfig) (heartbeat : Body → Prop) {s : Session}
    (hr : (beating cfg heartbeat).Reachable s) (hfew : s.writes < 2 ^ 32) :
    (∀ inv ∈ s.runner.invocations, (∃! n, OfCall cfg s n inv) ∨
      ∃ buff, heartbeat buff ∧ cfg.serializer.loads (some buff) = .ok (.request inv.request)) ∧
    ∀ (i j n : ℕ) (inv inv' : Invocation), s.runner.invocations[i]? = some inv →
      s.runner.invocations[j]? = some inv' → OfCall cfg s n inv → OfCall cfg s n inv' → i = j := by
  rcases linked_reachable cfg s hr.of_restrict hfew with ⟨_, _, _, hlinked⟩
  have haccounted := accounted_reachable cfg heartbeat s hr hfew
  constructor
  · intro inv hinv
    rcases haccounted.origin hlinked hinv with ⟨n, hcall⟩ | hbeat
    · -- no other call has the id
      refine Or.inl ⟨n, hcall, ?_⟩
      rcases hcall with ⟨v, hv, hid, _⟩
      rintro k ⟨w, hk, hwid, _⟩
      exact hlinked.calls.distinct k n w v _ hk hv hwid hid
    · exact Or.inr hbeat
  · rintro i j n inv inv' hi hj ⟨v, hv, hid, _⟩ ⟨w, hw, hid', _⟩
    rw [hv] at hw
    cases hw
    rw [hid] at hid'
    -- both have the id of the call, and no id is invoked twice
    exact hlinked.invocation_unique hi hj (Option.some.inj hid')

/-- A call that has timed out before the server has read its request. -/
def lateRun : List Label :=
  [.invoke (echoRequest 1) none (some 5), .call 0 0, .call 0 0] ++ echoSend 1 ++
  [.wake 0, .call 0 0, .call 0 0, .timeOut 0, .carryRequest (echoRequestPacket 1),
    .runner (.readDone none 0)]

/-- A test for the steps of the run, of which none is a heartbeat. -/
def lateFires (l : Label) (s : Session) : Bool :=
  fires echoSession l s &&
    match l with
    | .connection (.writeBeat _ _) => false
    | _ => true

theorem lateFires_guard (l : Label) (s : Session) (h : lateFires l s = true) :
    (beating echoSession fun _ => False).guard l s := by
  unfold lateFires at h
  rw [Bool.and_eq_true] at h
  refine ⟨fires_guard l s h.1, ?_⟩
  rintro now buff rfl
  cases h.2

def late : Session :=
  (beating echoSession fun _ => False).play lateFires lateRun (new echoSession 0)

/-- The call has raised `ConnectionReadTimeout`. -/
def hasTimedOut (v : Invoke) : Bool :=
  match v.pc with
  | .done (.raised ex) => ex = RpcInvoker.readTimeoutExc 5
  | _ => false

theorem late_checks : decide (late.writes < 2 ^ 32) = true ∧
    late.invokes.map hasTimedOut = [true] ∧ late.runner.invocations.length = 1 := by decide +kernel

/-- It has been performed all the same, and once. -/
theorem performed_once_late :
    (∃ v ∈ late.invokes, hasTimedOut v = true) ∧
      ∃ inv, late.runner.invocations = [inv] ∧ ∃! n, OfCall echoSession late n inv := by
  have hr : (beating echoSession fun _ => False).Reachable late :=
    (Lts.Spec.Reachable.init ⟨0, rfl⟩ :
      (beating echoSession fun _ => False).Reachable (new echoSession 0)).play
        lateFires_guard lateRun
  rcases late_checks with ⟨hfew, htimed, hone⟩
  rcases List.length_eq_one_iff.mp hone with ⟨inv, hinv⟩
  have hmem : true ∈ late.invokes.map hasTimedOut := by
    rw [htimed]
    exact List.mem_singleton.mpr rfl
  refine ⟨List.mem_map.mp hmem, inv, hinv, ?_⟩
  have hspec := performed_once echoSession (fun _ => False) hr (of_decide_eq_true hfew)
  rcases hspec.1 inv (hinv ▸ List.mem_singleton.mpr rfl) with hcall | ⟨_, hbeat, _⟩
  · exact hcall
  · exact hbeat.elim

end Session

end SummerRpc
