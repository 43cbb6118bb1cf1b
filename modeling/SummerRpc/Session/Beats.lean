import SummerRpc.Session.Deliveries
import SummerRpc.Service.FailedExport
import SummerRpc.Connection.Heartbeats

/-! # What becomes of a heartbeat

The write thread of a client puts the requests of `Stub.heartbeat_func` between those of the
calls, and every `Exporter` exports `HeartBeatRequest` before anything else: `stub.py`,
`heartbeat.py` and `exporter.py`, over the connection of a session.

* `Stub.heartbeatFunc`: the body of a heartbeat;
* `getMethod_exportAll`: the exporter keeps the method, whatever else is exported;
* `heartbeats_performed`: what is invoked for a heartbeat is `HeartBeatRequest.send`.
-/

namespace SummerRpc

open BaseRecordTransport Framing

/-- `send` of `HeartBeatRequest` -/
def heartBeatSend : Routine where
  function := { id := 0 }

namespace Stub

/-- The request of `heartbeat_func`. -/
def heartbeatRequest : Except Exc Request :=
  let className := ExporterState.heartBeatRequest.className
  match (ExporterState.heartBeatRequest.getattr (bytes "send")).bind getProvide with
  | some info => do
    if ← info.isFiltered then
      .error { cls := .runtimeError, msg := "HeartBeatRequest.send is filtered" }
    let methodName ← info.getName
    return Refer.request className methodName [] []
  | none => .ok (Refer.request className (.key (bytes "send")) [] [])

/-- `heartbeat_func` -/
def heartbeatFunc (serializer : Serializer) : Except Exc Body := do
  serializer.dumps (.request (← heartbeatRequest))

/-- Neither the class nor the method is decorated. -/
theorem heartbeatRequest_eq :
    heartbeatRequest =
      .ok (Refer.request (bytes "HeartBeatRequest") (.key (bytes "send")) [] []) := rfl

end Stub

namespace ExporterState

variable {exporter : ExporterState}

/-- A class that is there stays as it is, unless it is exported again with `cover`. -/
theorem lookup_exportAll_kept {className : List UInt8} {calls : List (PyClass × Bool)}
    (hmem : className ∈ exporter.exported)
    (h : ∀ call ∈ calls, call.1.className = className → call.2 = false) :
    (exporter.exportAll calls).exported.lookup className = exporter.exported.lookup className := by
  induction calls generalizing exporter with
  | nil => rfl
  | cons call calls ih =>
      rcases List.forall_mem_cons.mp h with ⟨hcall, hcalls⟩
      have hone : (exporter.exportClass call.1 call.2).2.exported.lookup className =
          exporter.exported.lookup className := by
        by_cases heq : call.1.className = className
        · -- it is passed over
          have htaken : exporter.Taken call.1 call.2 := ⟨heq ▸ hmem, hcall heq⟩
          rw [exportClass_of_taken htaken]
        · exact lookup_exportClass_ne heq call.2
      -- it is still there for the calls that follow
      have hstays : className ∈ (exporter.exportClass call.1 call.2).2.exported := by
        rw [mem_exported_iff, hone]
        exact mem_exported_iff.mp hmem
      show (exportAll (exporter.exportClass call.1 call.2).2 calls).exported.lookup className = _
      rw [ih hstays hcalls, hone]

/-- `HeartBeatRequest.send` can be found, whatever has been exported and whatever has raised. -/
theorem getMethod_exportAll {calls : List (PyClass × Bool)}
    (h : ∀ call ∈ calls, call.1.className = bytes "HeartBeatRequest" → call.2 = false) :
    ((new true).exportAll calls).getMethod (bytes "HeartBeatRequest") (bytes "send") =
      some (.bound heartBeatSend) := by
  have hmem : bytes "HeartBeatRequest" ∈ (new true).exported := by decide +kernel
  unfold getMethod
  rw [lookup_exportAll_kept hmem h]
  decide +kernel

end ExporterState

namespace Session

variable {cfg : SessionConfig} {s : Session}

/-- A heartbeat is received as its serializer leaves it. -/
theorem received_of_heartbeat {serializer : Serializer} {buff : Body} {request : Request}
    (hbeat : Stub.heartbeatFunc serializer = .ok buff)
    (hloads : serializer.loads (some buff) = .ok (.request request)) :
    Received serializer (Refer.request (bytes "HeartBeatRequest") (.key (bytes "send")) [] [])
      request := by
  unfold Stub.heartbeatFunc at hbeat
  rw [Stub.heartbeatRequest_eq] at hbeat
  exact ⟨buff, hbeat, hloads⟩

/-- The only reason for which the server does not call `HeartBeatRequest.send`. -/
theorem refused_heartbeat {ex : PyVal}
    (h : Runner.Refused cfg.runner heartBeatSend.function.method ex) :
    cfg.threadPool = false := by
  cases h with
  | processPool _ _ hsubprocess => cases hsubprocess
  | threadPool hthread _ => exact hthread

/-- Whatever calls there are and whatever classes have been exported, also where an `export` has
raised: an invocation that is not of a call ends as `HeartBeatRequest.send` has ended, if the
server has a thread pool. Only `cover` could put another class in its place. -/
theorem heartbeats_performed (cfg : SessionConfig) (calls : List (PyClass × Bool))
    (behaviour : Behaviour) {s : Session}
    (hr : (beating cfg fun buff => Stub.heartbeatFunc cfg.serializer = .ok buff).Reachable s)
    (hfew : s.writes < 2 ^ 32)
    (hexporter : cfg.exporter = ((ExporterState.new true).exportAll calls).toExporter)
    (hkept : ∀ call ∈ calls, call.1.className = bytes "HeartBeatRequest" → call.2 = false)
    (hnames : ∀ request', Received cfg.serializer
      (Refer.request (bytes "HeartBeatRequest") (.key (bytes "send")) [] []) request' →
        KeepsNames cfg.special request' (bytes "HeartBeatRequest") (bytes "send"))
    (hpool : cfg.threadPool = true) :
    ∀ inv ∈ s.runner.invocations, (∃ n, OfCall cfg s n inv) ∨
      (Runner.Performs cfg.runner ((ExporterState.new true).exportAll calls) behaviour inv →
        ∀ outcome, inv.outcome = some outcome →
          ∃ args kwargs, inv.request.args = some args ∧ inv.request.kwargs = some kwargs ∧
            behaviour (.bound heartBeatSend) args kwargs outcome) := by
  rcases linked_reachable cfg s hr.of_restrict hfew with ⟨_, _, _, hlinked⟩
  intro inv hinv
  rcases (accounted_reachable cfg _ s hr hfew).origin hlinked hinv with
    hcall | ⟨buff, hbeat, hloads⟩
  · exact Or.inl hcall
  · right
    intro hperforms outcome hresolved
    rcases hnames inv.request (received_of_heartbeat hbeat hloads) with
      ⟨c, m, hc, hm, hcname, hmname⟩
    -- the names in the request still lead to `send`, which is exported first of all
    have hfind : ((ExporterState.new true).exportAll calls).find c m =
        some (.bound heartBeatSend) :=
      (ExporterState.find_namesEqual hcname hmname).trans (ExporterState.getMethod_exportAll hkept)
    rcases (started_reachable hr.of_restrict inv hinv).ends hexporter hc hm hcname.1
      hmname.1 hfind hresolved with ⟨args, kwargs, hargs, hkwargs, _, hended⟩
    refine ⟨args, kwargs, hargs, hkwargs, ?_⟩
    rcases hended with hcalled | ⟨ex, _, hrefused⟩
    · have hcallee : ((ExporterState.new true).exportAll calls).callee cfg.processPool c m =
          some (.exported (.bound heartBeatSend)) := by
        unfold ExporterState.callee
        rw [hfind, Option.bind_some]
        -- `send` is not for a subprocess
        refine if_neg ?_
        rintro ⟨_, hsub, _⟩
        cases hsub
      exact hperforms hcalled outcome hresolved c m args kwargs _ hc hm hargs hkwargs hcallee
    · -- there is a pool
      rw [refused_heartbeat hrefused] at hpool
      cases hpool

/-! ## A connection that nobody calls -/

/-- `pickle`, for a heartbeat and what it is answered. -/
def beatPickle : Pickle where
  dumps := fun
    | .request _ => .ok [1]
    | .result _ => .ok [2]
    | .other _ => .error { cls := .typeError }
  loads := fun buff =>
    if buff = some [1] then
      .ok (.request (Refer.request (bytes "HeartBeatRequest") (.key (bytes "send")) [] []))
    else .error { cls := .valueError }

/-- A client that sends heartbeats, and a server that has exported a class of its own. -/
def beatSession : SessionConfig :=
  { echoSession with
    connection := SharedBlockingConnection.beatingConfig
    serializer := PickleSerializer beatPickle
    exporter := ((ExporterState.new true).exportAll [(counterClass, false)]).toExporter }

/-- `send` returns a `HeartBeatResponse`. -/
def beatBehaviour : Behaviour := fun v args kwargs outcome =>
  v = .bound heartBeatSend ∧ ∃ now a kw, args = .tuple a ∧ kwargs = .dict kw ∧
    outcome = .ok (HeartBeatRequest.send now a kw)

def isBeatResponse : PyVal → Bool
  | .instance cls [(t, .float _), (a, .tuple []), (k, .dict [])] =>
      cls = "HeartBeatResponse" && t = "_timestamp" && a = "_args" && k = "_kwargs"
  | _ => false

theorem isBeatResponse_spec {value : PyVal} (h : isBeatResponse value = true) :
    ∃ now, value = HeartBeatRequest.send (.float now) [] [] := by
  unfold isBeatResponse at h
  split at h
  · rename_i cls t now a k
    simp only [Bool.and_eq_true, decide_eq_true_eq] at h
    rcases h with ⟨⟨⟨rfl, rfl⟩, rfl⟩, rfl⟩
    exact ⟨now, rfl⟩
  · cases h

/-- Nobody has written for as long as the interval, and the server answers the heartbeat. -/
def beatRun : List Label :=
  let entry : PendingWrite := ⟨[1], 0, 1, 0, some 10⟩
  let request := packetCode.enc (1, [1])
  [.connection .writeAcquire, .connection .writeTake, .connection (.writeWake false),
    .connection (.writeBeat 0 (.ok [1])), .connection .writeNotify, .connection .writeAcquire,
    .connection .writeTake, .connection (.writeCheck entry 1),
    .connection (.writeSend entry request request.length), .connection (.writeFinish entry),
    .carryRequest request, .runner (.readDone none 0),
    .runner (.respond 0 (.ok (HeartBeatRequest.send (.float (bytes "1.5")) [] [])) 0)]

/-- A test for the steps of the run. -/
def beatFires (l : Label) (s : Session) : Bool :=
  fires beatSession l s &&
    match l with
    | .connection (.writeBeat _ (.ok buff)) => buff = [1]
    | _ => true

theorem beatFires_guard (l : Label) (s : Session) (h : beatFires l s = true) :
    (beating beatSession fun buff =>
      Stub.heartbeatFunc beatSession.serializer = .ok buff).guard l s := by
  unfold beatFires at h
  rw [Bool.and_eq_true] at h
  refine ⟨fires_guard l s h.1, ?_⟩
  rintro now buff rfl
  have hbuff : buff = [1] := of_decide_eq_true h.2
  rw [hbuff]
  rfl

/-- Where the run has led. -/
def beaten : Session :=
  (beating beatSession fun buff => Stub.heartbeatFunc beatSession.serializer = .ok buff).play
    beatFires beatRun (new beatSession 0)

/-- The invocation is of the heartbeat, and has ended as `send` may. -/
def isBeatInvocation (inv : Invocation) : Bool :=
  match inv.request, inv.outcome with
  | ⟨some (.str c), some (.str m), some (.tuple []), some (.dict []), _⟩, some (.ok value) =>
      c = bytes "HeartBeatRequest" && m = bytes "send" && isBeatResponse value
  | _, _ => false

theorem performs_of_isBeatInvocation {inv : Invocation} (h : isBeatInvocation inv = true) :
    Runner.Performs beatSession.runner ((ExporterState.new true).exportAll [(counterClass, false)])
      beatBehaviour inv := by
  unfold isBeatInvocation at h
  split at h
  · rename_i c m «meta» value hrequest hout
    simp only [Bool.and_eq_true, decide_eq_true_eq] at h
    rcases h with ⟨⟨rfl, rfl⟩, hvalue⟩
    rcases isBeatResponse_spec hvalue with ⟨now, rfl⟩
    intro _ outcome houtcome c m args kwargs v hc hm hargs hkwargs hcallee
    rw [hrequest] at hc hm hargs hkwargs
    cases hc
    cases hm
    cases hargs
    cases hkwargs
    have hsend : ((ExporterState.new true).exportAll [(counterClass, false)]).callee
        beatSession.runner.processPool (.str (bytes "HeartBeatRequest")) (.str (bytes "send")) =
          some (.exported (.bound heartBeatSend)) := by decide +kernel
    cases hsend.symm.trans hcallee
    cases hout.symm.trans houtcome
    exact ⟨rfl, _, _, _, rfl, rfl, rfl⟩
  · cases h

theorem beaten_checks : decide (beaten.writes < 2 ^ 32) = true ∧ beaten.invokes.length = 0 ∧
    beaten.runner.invocations.map isBeatInvocation = [true] := by decide +kernel

/-- The one invocation is of the heartbeat. -/
theorem heartbeats_performed_beaten :
    ∃ inv ∈ beaten.runner.invocations, ∃ now a kw,
      inv.outcome = some (.ok (HeartBeatRequest.send now a kw)) := by
  have hr : (beating beatSession fun buff =>
      Stub.heartbeatFunc beatSession.serializer = .ok buff).Reachable beaten :=
    (Lts.Spec.Reachable.init ⟨0, rfl⟩ :
      (beating beatSession fun buff => Stub.heartbeatFunc beatSession.serializer = .ok
        buff).Reachable (new beatSession 0)).play beatFires_guard beatRun
  rcases beaten_checks with ⟨hfew, hnone, hbeat⟩
  have hmem : true ∈ beaten.runner.invocations.map isBeatInvocation := by
    rw [hbeat]
    exact List.mem_singleton.mpr rfl
  rcases List.mem_map.mp hmem with ⟨inv, hinv, hisBeat⟩
  have hnames : ∀ request', Received beatSession.serializer
      (Refer.request (bytes "HeartBeatRequest") (.key (bytes "send")) [] []) request' →
        KeepsNames beatSession.special request' (bytes "HeartBeatRequest") (bytes "send") := by
    rintro request' ⟨buff, hdumps, hloads⟩
    cases hdumps
    cases hloads
    exact ⟨_, _, rfl, rfl, ExporterState.namesEqual_str _ _, ExporterState.namesEqual_str _ _⟩
  have hkept : ∀ call ∈ [(counterClass, false)],
      call.1.className = bytes "HeartBeatRequest" → call.2 = false := by
    intro call hcall _
    cases List.mem_singleton.mp hcall
    rfl
  rcases heartbeats_performed beatSession [(counterClass, false)] beatBehaviour hr
    (of_decide_eq_true hfew) rfl hkept hnames rfl inv hinv with ⟨n, v, hv, _⟩ | hended
  · -- there is no call
    rw [List.length_eq_zero_iff.mp hnone] at hv
    cases hv
  · have hresolved : ∃ outcome, inv.outcome = some outcome := by
      unfold isBeatInvocation at hisBeat
      split at hisBeat
      · rename_i value _ hout
        exact ⟨.ok value, hout⟩
      · cases hisBeat
    rcases hresolved with ⟨outcome, hresolved⟩
    rcases hended (performs_of_isBeatInvocation hisBeat) outcome hresolved with
      ⟨args, kwargs, _, _, _, now, a, kw, _, _, rfl⟩
    exact ⟨inv, hinv, now, a, kw, hresolved⟩

end Session

end SummerRpc
