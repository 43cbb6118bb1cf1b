import SummerRpc.Session.Model

/-! # Which result a call of `invoke` gets

* `Net`: what is on the network, from the entries of the write thread to the packets
  of the read thread;
* `Calls`: the transaction ids and the responses of the calls;
* `ResultOf`: the result that ends a call is that of an invocation of its request;
* `invoke_correlated`: every call that ends with a result has exactly one such
  invocation, and no two calls have the same.
-/

namespace SummerRpc

open BaseRecordTransport Framing

namespace Session

/-! ## The network -/

/-- The packets on their way: `begun` by the write thread, `ps` read by the `Runner`,
of which `qs` were invoked. -/
structure Net (cfg : SessionConfig) (c : SharedBlockingConnection) (r : Runner)
    (requestBytes responseBytes : List UInt8) (begun ps qs : List Packet) : Prop where
  wire : OnWire c.writeSide begun
  requests : requestBytes <+: c.writeSide.outgoing
  consumed : Runner.Consumed cfg.runner r requestBytes ps qs
  responses : responseBytes <+: r.output
  readOff : ReadOff packetCode Encodable responseBytes c.readSide.received c.readSide.incoming

namespace Net

variable {cfg : SessionConfig} {c : SharedBlockingConnection} {r : Runner}
  {requestBytes responseBytes : List UInt8} {begun ps qs : List Packet}

/-- A step of the connection. -/
theorem connection (h : Net cfg c r requestBytes responseBytes begun ps qs)
    {m : SharedBlockingConnection.Label} (hg : SharedBlockingConnection.guard cfg.connection m c)
    (hcounted : c.writeSide.Counted)
    (hfew : (SharedBlockingConnection.update cfg.connection m c).writeSide.futures.count < 2 ^ 32)
    (hresponses : responseBytes ++ m.delivered <+: r.output) :
    ∃ begun', Net cfg (SharedBlockingConnection.update cfg.connection m c) r requestBytes
        (responseBytes ++ m.delivered) begun' ps qs ∧
      OnWire.Adds c.writeSide (SharedBlockingConnection.update cfg.connection m c).writeSide
        begun begun' m.body := by
  obtain ⟨begun', hwire, hadds⟩ :=
    SharedBlockingConnection.onWire_step hg hcounted hfew h.wire
  have hadvance := SharedBlockingConnection.advance_update cfg.connection m c
  have htakes := SharedBlockingConnection.takes_update hg h.readOff
  exact ⟨begun', ⟨hwire, h.requests.trans hadvance.outgoing, h.consumed, hresponses,
    htakes.readOff⟩, hadds⟩

/-- A step of the `Runner`. -/
theorem runner (h : Net cfg c r requestBytes responseBytes begun ps qs) {m : Runner.Label}
    (hg : Runner.guard cfg.runner m r)
    (hrequests : requestBytes ++ m.arrived <+: c.writeSide.outgoing) :
    ∃ ps' qs', Net cfg c (Runner.update cfg.runner m r) (requestBytes ++ m.arrived) responseBytes
      begun ps' qs' := by
  obtain ⟨ps', qs', hconsumed⟩ := Runner.consumed_step rfl hg h.consumed
  exact ⟨ps', qs', h.wire, hrequests, hconsumed, h.responses.trans (Runner.output_update hg),
    h.readOff⟩

end Net

/-! ## The calls of `invoke` -/

/-- What is known of a call by itself. -/
structure InvokeOk (cfg : SessionConfig) (c : SharedBlockingConnection) (v : Invoke) : Prop where
  dumped : (∀ ex, v.pc ≠ .done (.raised ex)) →
    cfg.serializer.dumps (.request v.request) = .ok v.buff
  waiting : ∀ f, v.pc = .waitRead f →
    ∃ tid, v.transactionId = some tid ∧ (tid, .ok f) ∈ c.readSide.returns
  /-- a result is that of a packet with the id of the call -/
  done : ∀ ending, v.pc = .done ending → ending.isResult = true →
    ∃ tid body, v.transactionId = some tid ∧ (tid, body) ∈ c.readSide.received ∧
      ending = RpcInvoker.conclude cfg.serializer body

/-- The transaction ids of the calls, told by the packets of the write thread. -/
structure Calls (cfg : SessionConfig) (c : SharedBlockingConnection) (vs : List Invoke)
    (begun : List Packet) : Prop where
  ok : ∀ v ∈ vs, InvokeOk cfg c v
  le : ∀ v ∈ vs, ∀ tid, v.transactionId = some tid → tid ≤ c.writeSide.futures.count
  /-- a packet with the id of a call holds its request -/
  bodies : ∀ v ∈ vs, ∀ tid, v.transactionId = some tid →
    ∀ p ∈ c.writeSide.packets begun, p.1 = tid → p.2 = v.buff
  distinct : ∀ (m n : ℕ) (v w : Invoke) (tid : ℕ), vs[m]? = some v → vs[n]? = some w →
    v.transactionId = some tid → w.transactionId = some tid → m = n

/-- A call that moves on without a new id. -/
theorem InvokeOk.move {cfg : SessionConfig} {c c' : SharedBlockingConnection} {v : Invoke}
    (h : InvokeOk cfg c v) (hrun : ∀ ex, v.pc ≠ .done (.raised ex)) (pc : InvokePc)
    (hwaiting : ∀ f, pc = .waitRead f →
      ∃ tid, v.transactionId = some tid ∧ (tid, .ok f) ∈ c'.readSide.returns)
    (hdone : ∀ ending, pc = .done ending → ending.isResult = true →
      ∃ tid body, v.transactionId = some tid ∧ (tid, body) ∈ c'.readSide.received ∧
        ending = RpcInvoker.conclude cfg.serializer body) :
    InvokeOk cfg c' { v with pc := pc } where
  dumped := fun _ => h.dumped hrun
  waiting := hwaiting
  done := hdone

/-- What is known of a call stays true. -/
theorem InvokeOk.mono {cfg : SessionConfig} {c c' : SharedBlockingConnection} {v : Invoke}
    (h : InvokeOk cfg c v) (hreturns : c.readSide.returns <+: c'.readSide.returns)
    (hreceived : c.readSide.received <+: c'.readSide.received) : InvokeOk cfg c' v where
  dumped := h.dumped
  waiting := by
    intro f hpc
    rcases h.waiting f hpc with ⟨tid, htid, hmem⟩
    exact ⟨tid, htid, hreturns.subset hmem⟩
  done := by
    intro ending hpc hresult
    rcases h.done ending hpc hresult with ⟨tid, body, htid, hmem, heq⟩
    exact ⟨tid, body, htid, hreceived.subset hmem, heq⟩

namespace Calls

variable {cfg : SessionConfig} {c c' : SharedBlockingConnection} {vs : List Invoke}
  {begun begun' : List Packet}

/-- A new call has no id. -/
theorem append (h : Calls cfg c vs begun) {v : Invoke} (hok : InvokeOk cfg c v)
    (hnone : v.transactionId = none) : Calls cfg c (vs ++ [v]) begun := by
  have hmem : ∀ w ∈ vs ++ [v], w ∈ vs ∨ w = v := by
    intro w hw
    simpa using hw
  -- a call that has an id is one of the old ones
  have hat : ∀ (n : ℕ) (w : Invoke) (tid : ℕ), (vs ++ [v])[n]? = some w →
      w.transactionId = some tid → vs[n]? = some w := by
    intro n w tid hn htid
    by_cases hlt : n < vs.length
    · rw [List.getElem?_append_left hlt] at hn
      exact hn
    · rw [List.getElem?_append_right (Nat.le_of_not_lt hlt), List.getElem?_singleton] at hn
      split at hn
      · cases hn
        rw [hnone] at htid
        cases htid
      · cases hn
  constructor
  · intro w hw
    rcases hmem w hw with hold | rfl
    · exact h.ok w hold
    · exact hok
  · intro w hw tid htid
    rcases hmem w hw with hold | rfl
    · exact h.le w hold tid htid
    · rw [hnone] at htid
      cases htid
  · intro w hw tid htid
    rcases hmem w hw with hold | rfl
    · exact h.bodies w hold tid htid
    · rw [hnone] at htid
      cases htid
  · intro m n u w tid hm hn hu hw
    exact h.distinct m n u w tid (hat m u tid hm hu) (hat n w tid hn hw) hu hw

/-- A step of the connection takes no id away from a call. -/
theorem connection (h : Calls cfg c vs begun) {body : Body → Prop}
    (hadds : OnWire.Adds c.writeSide c'.writeSide begun begun' body)
    (hcount : c.writeSide.futures.count ≤ c'.writeSide.futures.count)
    (hreturns : c.readSide.returns <+: c'.readSide.returns)
    (hreceived : c.readSide.received <+: c'.readSide.received) : Calls cfg c' vs begun' := by
  constructor
  · exact fun v hv => (h.ok v hv).mono hreturns hreceived
  · exact fun v hv tid htid => Nat.le_trans (h.le v hv tid htid) hcount
  · intro v hv tid htid p hp heq
    rcases hadds p hp with hold | ⟨hnew, _⟩
    · exact h.bodies v hv tid htid p hold heq
    · -- the new packet has an id that no call has
      have hle := h.le v hv tid htid
      omega
  · exact h.distinct

/-- A call moves on with the id it has. -/
theorem set (h : Calls cfg c vs begun) {n : ℕ} {v : Invoke} (hv : vs[n]? = some v) {pc : InvokePc}
    (hok : InvokeOk cfg c { v with pc := pc }) :
    Calls cfg c (vs.set n { v with pc := pc }) begun := by
  have hmem : ∀ w ∈ vs.set n { v with pc := pc }, w ∈ vs ∨ w = { v with pc := pc } :=
    fun w hw => List.mem_or_eq_of_mem_set hw
  have hvmem : v ∈ vs := List.mem_of_getElem? hv
  -- every place still has the id it had
  have hat : ∀ (k : ℕ) (w : Invoke), (vs.set n { v with pc := pc })[k]? = some w →
      ∃ u : Invoke, vs[k]? = some u ∧ u.transactionId = w.transactionId := by
    intro k w hk
    by_cases hkn : n = k
    · subst hkn
      rw [List.getElem?_set_self (List.getElem?_eq_some_iff.mp hv).1] at hk
      cases hk
      exact ⟨v, hv, rfl⟩
    · rw [List.getElem?_set_ne hkn] at hk
      exact ⟨w, hk, rfl⟩
  constructor
  · intro w hw
    rcases hmem w hw with hold | rfl
    · exact h.ok w hold
    · exact hok
  · intro w hw tid htid
    rcases hmem w hw with hold | rfl
    · exact h.le w hold tid htid
    · exact h.le v hvmem tid htid
  · intro w hw tid htid
    rcases hmem w hw with hold | rfl
    · exact h.bodies w hold tid htid
    · exact h.bodies v hvmem tid htid
  · intro m k u w tid hm hk hu hw
    rcases hat m u hm with ⟨u', hu', hideq⟩
    rcases hat k w hk with ⟨w', hw', hidwq⟩
    exact h.distinct m k u' w' tid hu' hw' (hideq.trans hu) (hidwq.trans hw)

/-- `connection.write` gives a call the next id, and the packet its request. -/
theorem assign (h : Calls cfg c vs begun) (hissued : Issued (c.writeSide.packets begun)
      c.writeSide.futures.count)
    {n : ℕ} {v : Invoke} (hv : vs[n]? = some v) (hrun : ∀ ex, v.pc ≠ .done (.raised ex))
    (hadds : OnWire.Adds c.writeSide c'.writeSide begun begun' (· = v.buff))
    (hcount : c'.writeSide.futures.count = c.writeSide.futures.count + 1)
    (hreturns : c.readSide.returns <+: c'.readSide.returns)
    (hreceived : c.readSide.received <+: c'.readSide.received) (f : ℕ) :
    Calls cfg c'
      (vs.set n { v with transactionId := some (c.writeSide.futures.count + 1), pc := .waitWrite f })
      begun' := by
  have hc := h.connection hadds (by omega) hreturns hreceived
  have hvmem : v ∈ vs := List.mem_of_getElem? hv
  -- the id is new to every other call
  have hnew : ∀ w ∈ vs, w.transactionId ≠ some (c.writeSide.futures.count + 1) := by
    intro w hw htid
    have hle := h.le w hw _ htid
    omega
  have hat : ∀ (k : ℕ) (w : Invoke), (vs.set n { v with
        transactionId := some (c.writeSide.futures.count + 1), pc := .waitWrite f })[k]? = some w →
      (k = n ∧ w.transactionId = some (c.writeSide.futures.count + 1)) ∨ vs[k]? = some w := by
    intro k w hk
    by_cases hkn : n = k
    · subst hkn
      rw [List.getElem?_set_self (List.getElem?_eq_some_iff.mp hv).1] at hk
      cases hk
      exact Or.inl ⟨rfl, rfl⟩
    · rw [List.getElem?_set_ne hkn] at hk
      exact Or.inr hk
  constructor
  · intro w hw
    rcases List.mem_or_eq_of_mem_set hw with hold | rfl
    · exact hc.ok w hold
    · exact ⟨fun _ => (h.ok v hvmem).dumped hrun, nofun, nofun⟩
  · intro w hw tid htid
    rcases List.mem_or_eq_of_mem_set hw with hold | rfl
    · exact hc.le w hold tid htid
    · cases htid
      exact Nat.le_of_eq hcount.symm
  · intro w hw tid htid p hp heq
    rcases List.mem_or_eq_of_mem_set hw with hold | rfl
    · exact hc.bodies w hold tid htid p hp heq
    · cases htid
      rcases hadds p hp with hold | ⟨_, hbody⟩
      · have hle := hissued.le p hold
        omega
      · exact hbody
  · intro m k u w tid hm hk hu hw
    rcases hat m u hm with ⟨rfl, hidu⟩ | hmold
    · rcases hat k w hk with ⟨rfl, _⟩ | hkold
      · rfl
      · rw [hidu] at hu
        cases hu
        exact absurd hw (hnew w (List.mem_of_getElem? hkold))
    · rcases hat k w hk with ⟨rfl, hidw⟩ | hkold
      · rw [hidw] at hw
        cases hw
        exact absurd hu (hnew u (List.mem_of_getElem? hmold))
      · exact h.distinct m k u w tid hmold hkold hu hw

end Calls

/-! ## A step of a call in the connection -/

/-- A call that takes a step in the connection has not ended. -/
theorem running_of_call {cfg : Config} {now : ℤ} {v : Invoke}
    {m : SharedBlockingConnection.Label} (hm : v.call cfg now = some m) :
    ∀ ex, v.pc ≠ .done (.raised ex) := by
  intro ex hpc
  rw [Invoke.call, hpc] at hm
  cases hm

/-- The call goes on, or raises. -/
def GoesOn (c' : SharedBlockingConnection) (v v' : Invoke) : Prop :=
  ∃ pc, v' = { v with pc := pc } ∧
    (∀ f, pc = .waitRead f →
      ∃ tid, v.transactionId = some tid ∧ (tid, .ok f) ∈ c'.readSide.returns) ∧
    ∀ ending, pc = .done ending → ending.isResult = false

theorem goesOn_afterWrite_none (c' : SharedBlockingConnection) (v : Invoke) :
    GoesOn c' v (v.afterWrite none) :=
  ⟨.inWrite, rfl, nofun, nofun⟩

theorem goesOn_afterWrite_error (c' : SharedBlockingConnection) (v : Invoke) (ex : Exc) :
    GoesOn c' v (v.afterWrite (some (.error ex))) := by
  refine ⟨.done (.raised ex), rfl, nofun, ?_⟩
  rintro ending ⟨rfl⟩
  rfl

theorem goesOn_afterRead {c' : SharedBlockingConnection} {v : Invoke} {tid : ℕ}
    (htid : v.transactionId = some tid) {ret : Option (ℕ × Except Exc ℕ)}
    (hret : ∀ r ∈ ret, r.1 = tid ∧ r ∈ c'.readSide.returns) : GoesOn c' v (v.afterRead ret) := by
  cases ret with
  | none => exact ⟨.inRead, rfl, nofun, nofun⟩
  | some r =>
      obtain ⟨t, r⟩ := r
      obtain ⟨hid, hmem⟩ := hret (t, r) rfl
      cases hid
      cases r with
      | error ex =>
          refine ⟨.done (.raised ex), rfl, nofun, ?_⟩
          rintro ending ⟨rfl⟩
          rfl
      | ok f =>
          refine ⟨.waitRead f, rfl, ?_, nofun⟩
          rintro g ⟨rfl⟩
          exact ⟨t, htid, hmem⟩

/-- What a step of the connection adds to the returns. -/
theorem head_drop_append {α : Type} (xs : List α) (x : α) :
    ((xs ++ [x]).drop xs.length).head? = some x := by
  rw [List.drop_left]
  rfl

/-- A call of a client puts nothing on the socket. -/
theorem delivered_of_call {cfg : Config} {now : ℤ} {v : Invoke}
    {m : SharedBlockingConnection.Label} (hm : v.call cfg now = some m) : m.delivered = [] := by
  revert hm
  unfold Invoke.call
  split
  · rintro ⟨rfl⟩
    rfl
  · rintro ⟨rfl⟩
    rfl
  · intro hm
    obtain ⟨_, _, rfl⟩ := Option.map_eq_some_iff.mp hm
    rfl
  · intro hm
    obtain ⟨_, _, rfl⟩ := Option.map_eq_some_iff.mp hm
    rfl
  · intro hm
    cases hm

/-- Only a call of `write` that returns gives the call an id, the next one. -/
theorem afterCall_cases {cfg : SessionConfig} {c : SharedBlockingConnection} {now : ℤ}
    {v : Invoke} {m : SharedBlockingConnection.Label} (hm : v.call cfg.connection now = some m)
    (hcounted : c.writeSide.Counted)
    (hfew : (SharedBlockingConnection.update cfg.connection m c).writeSide.futures.count < 2 ^ 32) :
    GoesOn (SharedBlockingConnection.update cfg.connection m c) v
        (v.afterCall c (SharedBlockingConnection.update cfg.connection m c)) ∨
      ∃ f, m.body = (· = v.buff) ∧
        (SharedBlockingConnection.update cfg.connection m c).writeSide.futures.count =
          c.writeSide.futures.count + 1 ∧
        v.afterCall c (SharedBlockingConnection.update cfg.connection m c) =
          { v with
            transactionId := some (c.writeSide.futures.count + 1), pc := .waitWrite f } := by
  cases hpc : v.pc with
  | dumped =>
      simp only [Invoke.call, hpc, Option.some.injEq] at hm
      subst hm
      refine Or.inl ?_
      simp only [Invoke.afterCall, hpc, SharedBlockingConnection.update, WriteSide.enterWrite]
      split
      · rw [head_drop_append]
        exact goesOn_afterWrite_error _ v _
      · rw [List.drop_length]
        exact goesOn_afterWrite_none _ v
  | inWrite =>
      simp only [Invoke.call, hpc, Option.some.injEq] at hm
      subst hm
      simp only [Invoke.afterCall, hpc]
      rcases WriteSide.commitWrite_returns hcounted v.buff
        (cfg.connection.timeoutOr v.writeTimeout) now hfew with ⟨ex, hret⟩ | ⟨f, hret, hcount⟩
      · -- a refused write ends the call without an id
        refine Or.inl ?_
        show GoesOn _ v (v.afterWrite ((c.writeSide.commitWrite _ _ _).returns.drop _).head?)
        rw [hret, head_drop_append]
        exact goesOn_afterWrite_error _ v ex
      · refine Or.inr ⟨f, rfl, hcount, ?_⟩
        show v.afterWrite ((c.writeSide.commitWrite _ _ _).returns.drop _).head? = _
        rw [hret, head_drop_append]
        rfl
  | written =>
      simp only [Invoke.call, hpc, Option.map_eq_some_iff] at hm
      obtain ⟨tid, htid, rfl⟩ := hm
      refine Or.inl ?_
      simp only [Invoke.afterCall, hpc]
      apply goesOn_afterRead htid
      show ∀ r ∈ ((c.readSide.enterRead _ tid).returns.drop _).head?, r.1 = tid ∧
        r ∈ (c.readSide.enterRead _ tid).returns
      unfold ReadSide.enterRead
      split
      · rw [head_drop_append]
        rintro r ⟨rfl⟩
        exact ⟨rfl, List.mem_append_right _ (List.mem_singleton.mpr rfl)⟩
      · rw [List.drop_length]
        intro r hr
        cases hr
  | inRead =>
      simp only [Invoke.call, hpc, Option.map_eq_some_iff] at hm
      obtain ⟨tid, htid, rfl⟩ := hm
      refine Or.inl ?_
      simp only [Invoke.afterCall, hpc]
      apply goesOn_afterRead htid
      show ∀ r ∈ ((c.readSide.commitRead tid).returns.drop _).head?, r.1 = tid ∧
        r ∈ (c.readSide.commitRead tid).returns
      obtain ⟨ret, hret⟩ := SharedBlockingConnection.commitRead_returns c.readSide tid
      rw [hret, head_drop_append]
      rintro r ⟨rfl⟩
      exact ⟨rfl, List.mem_append_right _ (List.mem_singleton.mpr rfl)⟩
  | waitWrite f =>
      rw [Invoke.call, hpc] at hm
      cases hm
  | waitRead f =>
      rw [Invoke.call, hpc] at hm
      cases hm
  | done ending =>
      rw [Invoke.call, hpc] at hm
      cases hm

/-- A call begins with its request dumped, or ends at once. -/
theorem invokeOk_start (cfg : SessionConfig) (c : SharedBlockingConnection) (request : Request)
    (writeTimeout readTimeout : Option ℤ) :
    InvokeOk cfg c (Invoke.start cfg.serializer request writeTimeout readTimeout) := by
  unfold Invoke.start
  split
  · rename_i buff hdumps
    constructor
    · exact fun _ => hdumps
    · intro f hf
      cases hf
    · intro ending hending
      cases hending
  · constructor
    · intro hrun
      exact absurd rfl (hrun _)
    · intro f hf
      cases hf
    · intro ending hending hresult
      cases hending
      cases hresult

/-- A call that goes on with a future, or stops waiting for it. -/
theorem invokeOk_wake {cfg : SessionConfig} {c : SharedBlockingConnection}
    (hr : (SharedBlockingConnection.system cfg.connection).Reachable c) {v v' : Invoke}
    (hwake : v.wake cfg.serializer c = some v') (h : InvokeOk cfg c v) :
    ∃ pc, v' = { v with pc := pc } ∧ InvokeOk cfg c { v with pc := pc } := by
  cases hpc : v.pc with
  | waitWrite f =>
      have hrun : ∀ ex, v.pc ≠ .done (.raised ex) := by
        rw [hpc]
        nofun
      simp only [Invoke.wake, hpc] at hwake
      split at hwake
      · cases hwake
      · cases hwake
        exact ⟨_, rfl, h.move hrun _ nofun nofun⟩
      · cases hwake
        refine ⟨_, rfl, h.move hrun _ nofun ?_⟩
        rintro ending ⟨rfl⟩ hresult
        cases hresult
  | waitRead f =>
      have hrun : ∀ ex, v.pc ≠ .done (.raised ex) := by
        rw [hpc]
        nofun
      rcases h.waiting f hpc with ⟨tid, htid, hreturned⟩
      simp only [Invoke.wake, hpc] at hwake
      split at hwake
      · cases hwake
      · rename_i response hresult
        cases hwake
        refine ⟨_, rfl, h.move hrun _ nofun ?_⟩
        -- the response is that of a packet with the id of the call
        have hmem := SharedBlockingConnection.response_received hr hreturned
          (Futures.mem_calls_of_result hresult)
        rintro ending ⟨rfl⟩ _
        exact ⟨tid, response, htid, hmem, rfl⟩
      · cases hwake
        refine ⟨_, rfl, h.move hrun _ nofun ?_⟩
        rintro ending ⟨rfl⟩ hresult
        cases hresult
  | _ =>
      simp only [Invoke.wake, hpc] at hwake
      cases hwake

theorem invokeOk_timeOut {cfg : SessionConfig} {c : SharedBlockingConnection} {v v' : Invoke}
    (htime : v.timeOut = some v') (h : InvokeOk cfg c v) :
    ∃ pc, v' = { v with pc := pc } ∧ InvokeOk cfg c { v with pc := pc } := by
  have hraised : ∀ ex, (∀ e, v.pc ≠ .done (.raised e)) →
      InvokeOk cfg c { v with pc := .done (.raised ex) } := by
    intro ex hrun
    refine h.move hrun _ nofun ?_
    rintro ending ⟨rfl⟩ hresult
    cases hresult
  cases hpc : v.pc with
  | waitWrite f =>
      simp only [Invoke.timeOut, hpc, Option.map_eq_some_iff] at htime
      obtain ⟨t, _, rfl⟩ := htime
      exact ⟨_, rfl, hraised _ (by rw [hpc]; nofun)⟩
  | waitRead f =>
      simp only [Invoke.timeOut, hpc, Option.map_eq_some_iff] at htime
      obtain ⟨t, _, rfl⟩ := htime
      exact ⟨_, rfl, hraised _ (by rw [hpc]; nofun)⟩
  | _ =>
      simp only [Invoke.timeOut, hpc] at htime
      cases htime

/-! ## The steps of a session -/

/-- The network and the calls. -/
structure Linked (cfg : SessionConfig) (s : Session) (begun ps qs : List Packet) : Prop where
  net : Net cfg s.connection s.runner s.requestBytes s.responseBytes begun ps qs
  calls : Calls cfg s.connection s.invokes begun

/-- The calls of `_update_pending_writes`, for requests and for heartbeats. -/
def writes (s : Session) : ℕ := s.connection.writeSide.futures.count

theorem writes_update {cfg : SessionConfig} {l : Label} {s : Session} (hg : guard cfg l s) :
    s.writes ≤ (update cfg l s).writes := by
  unfold writes
  rcases connection_update hg with heq | ⟨m, _, heq⟩
  · rw [heq]
  · rw [heq]
    exact SharedBlockingConnection.count_le_update cfg.connection m s.connection

/-- A call becomes what `f` makes of it. -/
theorem linked_stepInvoke {cfg : SessionConfig} {s : Session} {begun ps qs : List Packet}
    (h : Linked cfg s begun ps qs) (f : Invoke → Option Invoke) (n : ℕ)
    (hok : ∀ v v', v ∈ s.invokes → f v = some v' →
      ∃ pc, v' = { v with pc := pc } ∧ InvokeOk cfg s.connection { v with pc := pc }) :
    Linked cfg (s.stepInvoke f n) begun ps qs := by
  unfold stepInvoke
  split
  · exact h
  · rename_i v' hv'
    obtain ⟨v, hv, hf⟩ := Option.bind_eq_some_iff.mp hv'
    obtain ⟨pc, rfl, hpc⟩ := hok v v' (List.mem_of_getElem? hv) hf
    exact ⟨h.net, h.calls.set hv hpc⟩

theorem linked_step {cfg : SessionConfig} {l : Label} {s : Session} {begun ps qs : List Packet}
    (hg : guard cfg l s)
    (hr : (SharedBlockingConnection.system cfg.connection).Reachable s.connection)
    (hfew : (update cfg l s).writes < 2 ^ 32) (h : Linked cfg s begun ps qs) :
    ∃ begun' ps' qs', Linked cfg (update cfg l s) begun' ps' qs' := by
  have hcounted := SharedBlockingConnection.counted_reachable cfg.connection _ hr
  cases l with
  | invoke request writeTimeout readTimeout =>
      refine ⟨begun, ps, qs, h.net, h.calls.append ?_ ?_⟩
      · exact invokeOk_start cfg s.connection request writeTimeout readTimeout
      · unfold Invoke.start
        split <;> rfl
  | call n now =>
      rcases hg with ⟨v, m, hv, hm, hgm⟩
      simp only [update, stepCall, hv, hm] at hfew ⊢
      have hfew' : (SharedBlockingConnection.update cfg.connection m
        s.connection).writeSide.futures.count < 2 ^ 32 := hfew
      have hnone : m.delivered = [] := delivered_of_call hm
      obtain ⟨begun', hnet, hadds⟩ := h.net.connection hgm hcounted hfew'
        (by rw [hnone, List.append_nil]; exact h.net.responses)
      rw [hnone, List.append_nil] at hnet
      have htakes := SharedBlockingConnection.takes_update hgm h.net.readOff
      refine ⟨begun', ps, qs, hnet, ?_⟩
      have hvmem : v ∈ s.invokes := List.mem_of_getElem? hv
      rcases afterCall_cases hm hcounted hfew' with ⟨pc, heq, hwaiting, hdone⟩ |
        ⟨f, hbody, hcount, heq⟩
      · -- the call keeps the id it has, if any
        rw [heq]
        have hcalls := h.calls.connection hadds
          (SharedBlockingConnection.count_le_update cfg.connection m s.connection)
          htakes.returns htakes.received
        apply hcalls.set hv
        apply (h.calls.ok v hvmem).move (running_of_call hm) pc hwaiting
        intro ending hpc hresult
        rw [hdone ending hpc] at hresult
        cases hresult
      · -- it gets the id of the one packet the step has added
        rw [heq]
        rw [hbody] at hadds
        exact h.calls.assign h.net.wire.issued hv (running_of_call hm) hadds hcount htakes.returns
          htakes.received f
  | wake n =>
      refine ⟨begun, ps, qs, linked_stepInvoke h _ n ?_⟩
      intro v v' hmem hwake
      exact invokeOk_wake hr hwake (h.calls.ok v hmem)
  | timeOut n =>
      refine ⟨begun, ps, qs, linked_stepInvoke h _ n ?_⟩
      intro v v' hmem htime
      exact invokeOk_timeOut htime (h.calls.ok v hmem)
  | connection m =>
      have hnone : m.delivered = [] := by
        -- bytes are delivered by `carryResponse` only
        have hthreads := hg.1
        cases m with
        | deliver bs => cases hthreads
        | _ => rfl
      obtain ⟨begun', hnet, hadds⟩ := h.net.connection hg.2 hcounted hfew
        (by rw [hnone, List.append_nil]; exact h.net.responses)
      rw [hnone, List.append_nil] at hnet
      have htakes := SharedBlockingConnection.takes_update hg.2 h.net.readOff
      exact ⟨begun', ps, qs, hnet, h.calls.connection hadds
        (SharedBlockingConnection.count_le_update cfg.connection m s.connection)
        htakes.returns htakes.received⟩
  | runner m =>
      have hnone : m.arrived = [] := by
        have hrunner := hg.1
        cases m with
        | arrive bs => cases hrunner
        | _ => rfl
      obtain ⟨ps', qs', hnet⟩ := h.net.runner hg.2
        (by rw [hnone, List.append_nil]; exact h.net.requests)
      rw [hnone, List.append_nil] at hnet
      exact ⟨begun, ps', qs', hnet, h.calls⟩
  | carryRequest bs =>
      obtain ⟨ps', qs', hnet⟩ := h.net.runner hg.2 hg.1
      exact ⟨begun, ps', qs', hnet, h.calls⟩
  | carryResponse bs =>
      have hgm : SharedBlockingConnection.guard cfg.connection (.deliver bs) s.connection := trivial
      obtain ⟨begun', hnet, hadds⟩ := h.net.connection hgm hcounted hfew hg
      have htakes := SharedBlockingConnection.takes_update hgm h.net.readOff
      exact ⟨begun', ps, qs, hnet, h.calls.connection hadds (Nat.le_refl _) htakes.returns
        htakes.received⟩

/-- In every run with fewer than 2³² writes the network and the calls are in order. -/
theorem linked_reachable (cfg : SessionConfig) :
    ∀ s, (system cfg).Reachable s → s.writes < 2 ^ 32 →
      ∃ begun ps qs, Linked cfg s begun ps qs := by
  apply Lts.Spec.invariant_with _
    (fun s => (SharedBlockingConnection.system cfg.connection).Reachable s.connection)
  · intro s hr
    exact (connection_projection cfg).reachable hr
  · rintro s ⟨now, rfl⟩ _
    refine ⟨[], [], [], ⟨SharedBlockingConnection.onWire_new _, List.prefix_refl _,
      Runner.consumed_new _ now, List.nil_prefix, ReadOff.nil _ _⟩, ?_⟩
    refine ⟨fun _ hv => absurd hv List.not_mem_nil, fun _ hv => absurd hv List.not_mem_nil,
      fun _ hv => absurd hv List.not_mem_nil, ?_⟩
    intro m n v w tid hv
    cases hv
  · intro l s hg hr _ ih hfew
    obtain ⟨begun, ps, qs, h⟩ := ih (Nat.lt_of_le_of_lt (writes_update hg) hfew)
    exact linked_step hg hr hfew h

/-! ## Correlation -/

/-- The serializer gives back what it has dumped. -/
def RoundTrips (serializer : Serializer) (message : Message) : Prop :=
  ∀ buff, serializer.dumps message = .ok buff → serializer.loads (some buff) = .ok message

/-- The serializer is faithful to the request of a call, and to the result the server makes
of it. -/
structure Faithful (cfg : SessionConfig) (s : Session) (v : Invoke) : Prop where
  request : RoundTrips cfg.serializer (.request v.request)
  result : ∀ inv ∈ s.runner.invocations, inv.request = v.request →
    v.transactionId = some inv.transactionId → ∀ outcome, inv.outcome = some outcome →
      RoundTrips cfg.serializer (.result (Runner.toResult inv.meta outcome))

/-- The call has ended with the result the `Runner` made of invocation `j`, an
invocation of the request of the call. -/
def ResultOf (s : Session) (v : Invoke) (j : ℕ) : Prop :=
  ∃ inv outcome, s.runner.invocations[j]? = some inv ∧
    v.transactionId = some inv.transactionId ∧ inv.request = v.request ∧
    inv.outcome = some outcome ∧
    v.pc = .done (RpcInvoker.raiseOrReturn (Runner.toResult inv.meta outcome))

/-- The packets read by the `Runner` are packets of the write thread. -/
theorem Linked.read_begun {cfg : SessionConfig} {s : Session} {begun ps qs : List Packet}
    (h : Linked cfg s begun ps qs) : ps <+: begun :=
  h.net.consumed.readOff.isPrefix packetCode_exact h.net.wire.encodable
    (h.net.requests.trans h.net.wire.isPrefix)

/-- The `Runner` invokes no id twice. -/
theorem Linked.invocation_unique {cfg : SessionConfig} {s : Session} {begun ps qs : List Packet}
    (h : Linked cfg s begun ps qs) {i j : ℕ} {inv inv' : Invocation}
    (hi : s.runner.invocations[i]? = some inv) (hj : s.runner.invocations[j]? = some inv')
    (hid : inv.transactionId = inv'.transactionId) : i = j := by
  have hnodup : (s.runner.invocations.map Invocation.transactionId).Nodup := by
    rw [h.net.consumed.ids]
    have hsub : (qs.map Prod.fst).Sublist (begun.map Prod.fst) :=
      (h.net.consumed.sublist.trans h.read_begun.sublist).map _
    have hbegun : (begun.map Prod.fst).Sublist
        ((s.connection.writeSide.packets begun).map Prod.fst) :=
      (List.sublist_append_left _ _).map _
    exact h.net.wire.issued.nodup.sublist (hsub.trans hbegun)
  obtain ⟨hi', rfl⟩ := List.getElem?_eq_some_iff.mp hi
  obtain ⟨hj', rfl⟩ := List.getElem?_eq_some_iff.mp hj
  have hilen : i < (s.runner.invocations.map Invocation.transactionId).length := by simpa using hi'
  have hjlen : j < (s.runner.invocations.map Invocation.transactionId).length := by simpa using hj'
  have hget : (s.runner.invocations.map Invocation.transactionId)[i] =
      (s.runner.invocations.map Invocation.transactionId)[j] := by simpa using hid
  exact (List.Nodup.getElem_inj_iff hnodup).mp hget

/-- The response a call ends with comes from an invocation of its request. -/
theorem Linked.resultOf {cfg : SessionConfig} {s : Session} {begun ps qs : List Packet}
    (h : Linked cfg s begun ps qs) (hresponded : Runner.Responded cfg.runner s.runner)
    {v : Invoke} (hfaithful : Faithful cfg s v) (hv : v ∈ s.invokes) {ending : Ending}
    (hpc : v.pc = .done ending) (hresult : ending.isResult = true) : ∃ j, ResultOf s v j := by
  rcases (h.calls.ok v hv).done ending hpc hresult with ⟨tid, body, htid, hreceived, hending⟩
  -- the packet with the response was written by the `Runner`
  obtain ⟨rs, hout, henc, hanswers⟩ := Runner.output_eq rfl hresponded
  have hpre : s.connection.readSide.received <+: rs :=
    h.net.readOff.isPrefix packetCode_exact henc (hout ▸ h.net.responses)
  rcases hanswers (tid, body) (hpre.subset hreceived) with ⟨j, inv, outcome, hresponse⟩
  have hid : inv.transactionId = tid := hresponse.transactionId
  have hinv : inv ∈ s.runner.invocations := List.mem_of_getElem? hresponse.found
  -- the request of the invocation was read from a packet of the write thread
  obtain ⟨q, hq, hcarries⟩ := h.net.consumed.packet_of hresponse.found
  have hqbody : q.2 = v.buff := by
    apply h.calls.bodies v hv tid htid q
    · exact List.mem_append_left _ (h.read_begun.subset hq)
    · rw [← hcarries.transactionId, hid]
  have hdumps : cfg.serializer.dumps (.request v.request) = .ok v.buff := by
    apply (h.calls.ok v hv).dumped
    intro ex hex
    rw [hpc] at hex
    cases hex
    cases hresult
  have hrequest : inv.request = v.request := by
    have hloads : cfg.serializer.loads (some q.2) = .ok (.request inv.request) := hcarries.request
    rw [hqbody, hfaithful.request v.buff hdumps] at hloads
    simp only [Except.ok.injEq, Message.request.injEq] at hloads
    exact hloads.symm
  have htransaction : v.transactionId = some inv.transactionId := by rw [htid, hid]
  have hloads := hfaithful.result inv hinv hrequest htransaction outcome hresponse.resolved body
    hresponse.dumps
  refine ⟨j, inv, outcome, hresponse.found, htransaction, hrequest, hresponse.resolved, ?_⟩
  rw [hpc, hending, RpcInvoker.conclude, hloads]

/-- In every run with fewer than 2³² writes, a call of `invoke` that returns a value or
raises a remote exception ends with the result of exactly one invocation, an
invocation of its own request, if the serializer is faithful to these two, and no two calls
end with that of the same. -/
theorem invoke_correlated (cfg : SessionConfig) {s : Session} (hr : (system cfg).Reachable s)
    (hfew : s.writes < 2 ^ 32) :
    (∀ (n : ℕ) (v : Invoke) ending, s.invokes[n]? = some v → Faithful cfg s v →
      v.pc = .done ending → ending.isResult = true → ∃! j, ResultOf s v j) ∧
    ∀ (m n : ℕ) (v w : Invoke) (j : ℕ), s.invokes[m]? = some v → s.invokes[n]? = some w → ResultOf s v j →
      ResultOf s w j → m = n := by
  obtain ⟨begun, ps, qs, h⟩ := linked_reachable cfg s hr hfew
  have hresponded := Runner.responded_reachable cfg.runner _ ((runner_projection cfg).reachable hr)
  constructor
  · intro n v ending hn hfaithful hpc hresult
    obtain ⟨j, hj⟩ := h.resultOf hresponded hfaithful (List.mem_of_getElem? hn) hpc hresult
    refine ⟨j, hj, ?_⟩
    intro i hi
    rcases hi with ⟨inv, _, hfound, htid, _⟩
    rcases hj with ⟨inv', _, hfound', htid', _⟩
    apply h.invocation_unique hfound hfound'
    rw [htid] at htid'
    exact Option.some.inj htid'
  · rintro m n v w j hm hn ⟨inv, _, hfound, htid, _⟩ ⟨inv', _, hfound', htid', _⟩
    rw [hfound] at hfound'
    cases hfound'
    exact h.calls.distinct m n v w _ hm hn htid htid'

/-! ## Two calls that overtake each other -/

/-- A test for the guards of the `Runner`. -/
def runnerFires (cfg : RunnerConfig) (l : Runner.Label) (s : Runner) : Bool :=
  match l with
  | .readDone _ _ => s.pc = .reading &&
    match cfg.transport.read s.incoming with
    | .needMore => false
    | _ => true
  | .respond i _ _ =>
    match s.invocations[i]? with
    | some inv => inv.pc = .running && inv.failed.isNone
    | none => false
  | _ => false

theorem runnerFires_guard {cfg : RunnerConfig} {l : Runner.Label} {s : Runner}
    (h : runnerFires cfg l s = true) : Runner.guard cfg l s ∧ ofRunner l = true := by
  cases l with
  | readDone refused now =>
      simp only [runnerFires, Bool.and_eq_true, decide_eq_true_eq] at h
      refine ⟨⟨h.1, ?_⟩, rfl⟩
      intro hmore
      rw [hmore] at h
      cases h.2
  | respond i outcome now =>
      simp only [runnerFires] at h
      split at h
      · rename_i inv hinv
        simp only [Bool.and_eq_true, decide_eq_true_eq] at h
        refine ⟨⟨inv, hinv, h.1, ?_⟩, rfl⟩
        intro ex hex
        rw [hex] at h
        cases h.2
      · cases h
  | _ => cases h

/-- A test for the guards of a session. -/
def fires (cfg : SessionConfig) (l : Label) (s : Session) : Bool :=
  match l with
  | .invoke _ _ _ => true
  | .call n now =>
    match s.invokes[n]?.bind (Invoke.call cfg.connection now) with
    | some l => decide ((SharedBlockingConnection.system cfg.connection).guard l s.connection)
    | none => false
  | .wake n => (s.invokes[n]?.bind (Invoke.wake cfg.serializer s.connection)).isSome
  | .timeOut n => (s.invokes[n]?.bind Invoke.timeOut).isSome
  | .connection l => ofThreads l &&
      decide ((SharedBlockingConnection.system cfg.connection).guard l s.connection)
  | .runner l => runnerFires cfg.runner l s.runner
  | .carryRequest bs =>
      decide (s.requestBytes ++ bs <+: s.connection.writeSide.outgoing) && !s.runner.closed
  | .carryResponse bs => decide (s.responseBytes ++ bs <+: s.runner.output)

theorem fires_guard {cfg : SessionConfig} (l : Label) (s : Session) (h : fires cfg l s = true) :
    guard cfg l s := by
  cases l with
  | invoke request writeTimeout readTimeout => trivial
  | call n now =>
      simp only [fires] at h
      split at h
      · rename_i m hm
        obtain ⟨v, hv, hcall⟩ := Option.bind_eq_some_iff.mp hm
        have hgm : (SharedBlockingConnection.system cfg.connection).guard m s.connection :=
          of_decide_eq_true h
        exact ⟨v, m, hv, hcall, hgm⟩
      · cases h
  | wake n =>
      obtain ⟨v', hv'⟩ := Option.isSome_iff_exists.mp h
      obtain ⟨v, hv, hwake⟩ := Option.bind_eq_some_iff.mp hv'
      exact ⟨v, v', hv, hwake⟩
  | timeOut n =>
      obtain ⟨v', hv'⟩ := Option.isSome_iff_exists.mp h
      obtain ⟨v, hv, htime⟩ := Option.bind_eq_some_iff.mp hv'
      exact ⟨v, v', hv, htime⟩
  | connection m =>
      simp only [fires, Bool.and_eq_true] at h
      have hgm : (SharedBlockingConnection.system cfg.connection).guard m s.connection :=
        of_decide_eq_true h.2
      exact ⟨h.1, hgm⟩
  | runner m =>
      have hm := runnerFires_guard h
      exact ⟨hm.2, hm.1⟩
  | carryRequest bs =>
      simp only [fires, Bool.and_eq_true, decide_eq_true_eq, Bool.not_eq_true'] at h
      exact h
  | carryResponse bs =>
      have hpre : s.responseBytes ++ bs <+: s.runner.output := of_decide_eq_true h
      exact hpre

/-- `{"class_name": "Echo", "method_name": "echo", "args": [n], ...}` -/
def echoRequestJson (n : ℤ) : Body :=
  bytes ("\x7b\"class_name\": \"Echo\", \"method_name\": \"echo\", \"args\": [" ++ toString n ++
    "], \"kwargs\": \x7b\x7d, \"meta\": null, \"is_request\": true\x7d")

/-- `{"result": n, ...}` -/
def echoResultJson (n : ℤ) : Body :=
  bytes ("\x7b\"result\": " ++ toString n ++
    ", \"exc\": null, \"meta\": null, \"is_request\": false\x7d")

/-- The dictionaries of the requests and results of `Echo.echo`. -/
def echoRequestDict (n : ℤ) : PyVal :=
  .dict [
    (.unicode "class_name".toList, .unicode "Echo".toList),
    (.unicode "method_name".toList, .unicode "echo".toList),
    (.unicode "args".toList, .list [.int n]),
    (.unicode "kwargs".toList, .dict []),
    (.unicode "meta".toList, .none),
    (.unicode "is_request".toList, .bool true)]

def echoResultDict (n : ℤ) : PyVal :=
  .dict [
    (.unicode "result".toList, .int n),
    (.unicode "exc".toList, .none),
    (.unicode "meta".toList, .none),
    (.unicode "is_request".toList, .bool false)]

/-- `json`, for calls of `Echo.echo` with `1` and `2`. -/
def echoJson : Codec where
  loads := fun buff =>
    if buff = some (echoRequestJson 1) then .ok (echoRequestDict 1)
    else if buff = some (echoRequestJson 2) then .ok (echoRequestDict 2)
    else if buff = some (echoResultJson 1) then .ok (echoResultDict 1)
    else if buff = some (echoResultJson 2) then .ok (echoResultDict 2)
    else .error { cls := .valueError, msg := "No JSON object could be decoded" }
  dumps := fun default value =>
    match value with
    | .dict [_, _, (_, .list [.int n]), (_, .dict []), (_, .none), (_, .bool true)] =>
        .ok (echoRequestJson n)
    | .dict [(_, .int n), (_, .none), (_, .none), (_, .bool false)] => .ok (echoResultJson n)
    | value => (default value).map fun _ => []

/-- A call of `Echo.echo`. -/
def echoRequest (n : ℤ) : Request :=
  { Request.new with
    className := some (.unicode "Echo".toList)
    methodName := some (.unicode "echo".toList)
    args := some (.list [.int n]) }

/-- A client and a server of `Echo.echo`. -/
def echoSession : SessionConfig where
  connection :=
    { maxPendingWrites := none, maxPendingReads := none, maxPoolingReads := none
      writeTimeout := none, heartbeatInterval := none, heartbeatFunc := false }
  special :=
    { str := fun _ => .ok [], hash := fun _ => .ok (), iter := fun _ => .ok [],
      items := fun _ => .ok [] }
  serializer := JsonSerializer
    { str := fun _ => .ok [], hash := fun _ => .ok (), iter := fun _ => .ok [],
      items := fun _ => .ok [] } echoJson
  exporter := { exported := [(bytes "Echo", [(bytes "echo", {})])] }
  threadPool := true
  processPool := false
  concurrentRequestPerConnection := 8

/-- The entry of call `n`. -/
def echoEntry (n : ℕ) : PendingWrite := ⟨echoRequestJson n, n - 1, n, 0, none⟩

/-- Its packets. -/
def echoRequestPacket (n : ℕ) : List UInt8 := packetCode.enc (n, echoRequestJson n)

def echoResultPacket (n : ℕ) : List UInt8 := packetCode.enc (n, echoResultJson n)

/-- The write thread sends an entry. -/
def echoSend (n : ℕ) : List Label :=
  [.connection .writeAcquire, .connection .writeTake, .connection (.writeCheck (echoEntry n) 0),
    .connection (.writeSend (echoEntry n) (echoRequestPacket n) (echoRequestPacket n).length),
    .connection (.writeFinish (echoEntry n))]

/-- The read thread reads a response and routes it. -/
def echoReceive (n : ℕ) (rest : List UInt8) : List Label :=
  [.connection .readAcquire, .connection .readLook,
    .connection (.readReceive (n, echoResultJson n) rest),
    .connection (.readHeartbeatLock (n, echoResultJson n)),
    .connection (.readHeartbeat (n, echoResultJson n)),
    .connection (.readRouteLock (n, echoResultJson n)),
    .connection (.readRoute (n, echoResultJson n))]

/-- Two calls. The second is sent and answered first, and its response arrives before
it asks for it. -/
def echoRun : List Label :=
  [.invoke (echoRequest 1) none none, .invoke (echoRequest 2) none none,
    .call 0 0, .call 0 0, .call 1 0, .call 1 0] ++
  echoSend 2 ++ echoSend 1 ++
  [.wake 0, .call 0 0, .call 0 0,
    .carryRequest (echoRequestPacket 2 ++ echoRequestPacket 1),
    .runner (.readDone none 0), .runner (.readDone none 0),
    .runner (.respond 0 (.ok (.int 2)) 0), .runner (.respond 1 (.ok (.int 1)) 0),
    .carryResponse (echoResultPacket 2 ++ echoResultPacket 1)] ++
  echoReceive 2 (echoResultPacket 1) ++ echoReceive 1 [] ++
  [.wake 0, .wake 1, .call 1 0, .call 1 0, .wake 1]

def echoed : Session :=
  (system echoSession).play (fires echoSession) echoRun (new echoSession 0)

/-- The call has ended with a result. -/
def endedWithResult (v : Invoke) : Bool :=
  match v.pc with
  | .done ending => ending.isResult
  | _ => false

theorem echoJson_request {n : ℤ} (hn : n = 1 ∨ n = 2) :
    echoJson.loads (some (echoRequestJson n)) = .ok (echoRequestDict n) := by
  simp only [echoJson]
  rcases hn with rfl | rfl
  · rw [if_pos rfl]
  · have hne : some (echoRequestJson 2) ≠ some (echoRequestJson 1) := by decide +kernel
    rw [if_neg hne, if_pos rfl]

theorem echoJson_result {n : ℤ} (hn : n = 1 ∨ n = 2) :
    echoJson.loads (some (echoResultJson n)) = .ok (echoResultDict n) := by
  have hrequest : ∀ m, (m = 1 ∨ m = 2) → some (echoResultJson n) ≠ some (echoRequestJson m) := by
    rintro m (rfl | rfl)
    · rcases hn with rfl | rfl <;> decide +kernel
    · rcases hn with rfl | rfl <;> decide +kernel
  simp only [echoJson]
  rw [if_neg (hrequest 1 (Or.inl rfl)), if_neg (hrequest 2 (Or.inr rfl))]
  rcases hn with rfl | rfl
  · rw [if_pos rfl]
  · have hne : some (echoResultJson 2) ≠ some (echoResultJson 1) := by decide +kernel
    rw [if_neg hne, if_pos rfl]

theorem roundTrips_request {n : ℤ} (hn : n = 1 ∨ n = 2) :
    RoundTrips echoSession.serializer (.request (echoRequest n)) := by
  intro buff hdumps
  have hbuff : buff = echoRequestJson n := by
    cases hdumps
    rfl
  subst hbuff
  show BaseSerializer.loads echoJson (some (echoRequestJson n)) = _
  unfold BaseSerializer.loads
  rw [echoJson_request hn]
  rfl

theorem roundTrips_result {n : ℤ} (hn : n = 1 ∨ n = 2) :
    RoundTrips echoSession.serializer (.result (Runner.toResult .none (.ok (.int n)))) := by
  intro buff hdumps
  have hbuff : buff = echoResultJson n := by
    cases hdumps
    rfl
  subst hbuff
  show BaseSerializer.loads echoJson (some (echoResultJson n)) = _
  unfold BaseSerializer.loads
  rw [echoJson_result hn]
  rfl

/-- The request is one of the two. -/
def isEchoRequest : Request → Bool
  | ⟨some (.unicode c), some (.unicode m), some (.list [.int n]), some (.dict []), some .none⟩ =>
      c = "Echo".toList && m = "echo".toList && (n = 1 || n = 2)
  | _ => false

theorem isEchoRequest_spec {request : Request} (h : isEchoRequest request = true) :
    ∃ n, (n = 1 ∨ n = 2) ∧ request = echoRequest n := by
  unfold isEchoRequest at h
  split at h
  · rename_i c m n
    simp only [Bool.and_eq_true, Bool.or_eq_true, decide_eq_true_eq] at h
    exact ⟨n, h.2, by rw [h.1.1, h.1.2]; rfl⟩
  · cases h

/-- The invocation has returned one of the two values. -/
def isEchoResult (inv : Invocation) : Bool :=
  match inv.meta, inv.outcome with
  | .none, some (.ok (.int n)) => n = 1 || n = 2
  | _, _ => false

theorem isEchoResult_spec {inv : Invocation} (h : isEchoResult inv = true) :
    ∃ n, (n = 1 ∨ n = 2) ∧ inv.meta = .none ∧ inv.outcome = some (.ok (.int n)) := by
  unfold isEchoResult at h
  split at h
  · rename_i n hmeta hout
    simp only [Bool.or_eq_true, decide_eq_true_eq] at h
    exact ⟨n, h, hmeta, hout⟩
  · cases h

/-- What the run has led to. -/
theorem echoed_checks : decide (echoed.writes < 2 ^ 32) = true ∧
    echoed.invokes.all (fun v => isEchoRequest v.request) = true ∧
    echoed.runner.invocations.all isEchoResult = true ∧
    echoed.invokes.map endedWithResult = [true, true] := by decide +kernel

theorem echoed_faithful {v : Invoke} (hv : v ∈ echoed.invokes) : Faithful echoSession echoed v := by
  obtain ⟨_, hrequests, hresults, _⟩ := echoed_checks
  constructor
  · obtain ⟨n, hn, heq⟩ := isEchoRequest_spec (List.all_eq_true.mp hrequests v hv)
    rw [heq]
    exact roundTrips_request hn
  · intro inv hinv _ _ outcome hout
    obtain ⟨n, hn, hmeta, hout'⟩ := isEchoResult_spec (List.all_eq_true.mp hresults inv hinv)
    rw [hout'] at hout
    cases hout
    rw [hmeta]
    exact roundTrips_result hn

theorem endedWithResult_spec {v : Invoke} (h : endedWithResult v = true) :
    ∃ ending, v.pc = .done ending ∧ ending.isResult = true := by
  unfold endedWithResult at h
  split at h
  · rename_i ending hpc
    exact ⟨ending, hpc, h⟩
  · cases h

/-- Each of the two calls has the result of an invocation of its own. -/
theorem invoke_correlated_echo :
    ∃ v w, echoed.invokes[0]? = some v ∧ echoed.invokes[1]? = some w ∧
      (∃! j, ResultOf echoed v j) ∧ (∃! j, ResultOf echoed w j) ∧
      ∀ j, ResultOf echoed v j → ¬ ResultOf echoed w j := by
  have hr : (system echoSession).Reachable echoed :=
    (Lts.Spec.Reachable.init ⟨0, rfl⟩ : (system echoSession).Reachable (new echoSession 0)).play
      fires_guard echoRun
  obtain ⟨hfew, _, _, hends⟩ := echoed_checks
  have hspec := invoke_correlated echoSession hr (of_decide_eq_true hfew)
  have hfirst : echoed.invokes[0]?.map endedWithResult = some true := by
    rw [← List.getElem?_map, hends]
    rfl
  have hsecond : echoed.invokes[1]?.map endedWithResult = some true := by
    rw [← List.getElem?_map, hends]
    rfl
  obtain ⟨v, hv, hended⟩ := Option.map_eq_some_iff.mp hfirst
  obtain ⟨w, hw, hended'⟩ := Option.map_eq_some_iff.mp hsecond
  obtain ⟨ending, hpc, hresult⟩ := endedWithResult_spec hended
  obtain ⟨ending', hpc', hresult'⟩ := endedWithResult_spec hended'
  have hvfaithful := echoed_faithful (List.mem_of_getElem? hv)
  have hwfaithful := echoed_faithful (List.mem_of_getElem? hw)
  refine ⟨v, w, hv, hw, hspec.1 0 v ending hv hvfaithful hpc hresult,
    hspec.1 1 w ending' hw hwfaithful hpc' hresult', ?_⟩
  intro j hj hj'
  exact absurd (hspec.2 0 1 v w j hv hw hj hj') (by decide)

end Session

end SummerRpc
