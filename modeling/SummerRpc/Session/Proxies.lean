import SummerRpc.Session.Correlation
import SummerRpc.Server.Concurrency
import SummerRpc.Service.Names
import SummerRpc.Service.Subprocess

/-! # What a proxy returns

A client calls the proxies that `Refer` of `stub.py` makes of the methods of a class, and a
server has exported the class: `stub.py`, `invoker.py`, both ends of the connection,
`rpc_server.py` and `exporter.py` together.

* `Refer.request`: the request of `_dynamic_proxy`;
* `ExporterState.find`: the method `get_method` finds for the names in a request;
* `callee`: what is called for them, in a thread or in a subprocess;
* `Runner.Started`: what is known of an invocation;
* `Session.proxy_calls`: a call of a proxy ends as the method of the class does.

Arguments and results are taken through the serializer, which may change them.
-/

namespace SummerRpc

open BaseRecordTransport Framing

/-- The name as a value; a list stands for the objects that are not hashable. -/
def ProvidedName.value : ProvidedName → PyVal
  | .key name => .str name
  | .unhashable => .list []

/-- The request of `_dynamic_proxy`. -/
def Refer.request (className : List UInt8) (methodName : ProvidedName) (args : List PyVal)
    (kwargs : List (PyVal × PyVal)) : Request :=
  { Request.new with
    className := some (.str className)
    methodName := some methodName.value
    args := some (.tuple args)
    kwargs := some (.dict kwargs) }

/-- How a method that is called with `*args` and `**kwargs` may end. -/
abbrev Behaviour := Exported → (args kwargs : PyVal) → Except PyVal PyVal → Prop

namespace ExporterState

/-- The method under the names of a request. -/
def find (exporter : ExporterState) (className methodName : PyVal) : Option Exported :=
  (Exporter.lookup (exporter.exported.entries.map fun e => (e.1, e.2)) className).bind
    fun methods => Exporter.lookup (methods.entries.map fun e => (e.1, e.2)) methodName

/-- `get_object`, for the name in a request -/
def findObject (exporter : ExporterState) (className : PyVal) : Option Instance :=
  Exporter.lookup (exporter.classNameToObject.entries.map fun e => (e.1, e.2)) className

/-- The name of an attribute in `getattr(obj, method_name)`. -/
def attributeName : PyVal → Option (List UInt8)
  | .str s => some s
  | .unicode s =>
    if s.all (fun c => c.toNat < 128) then some (s.map fun c => UInt8.ofNat c.toNat) else none
  | _ => none

/-- What `WRAPPER` calls for the names in a request. -/
def wrappedFor (exporter : ExporterState) (className methodName : PyVal) : Option InstanceAttr :=
  (exporter.findObject className).bind fun obj => (attributeName methodName).bind obj.getattr

/-- What `_invoke` calls, or has called: a subprocess looks the name up in the object. -/
def callee (exporter : ExporterState) (processPool : Bool) (className methodName : PyVal) :
    Option InstanceAttr :=
  (exporter.find className methodName).bind fun v =>
    if v.toMethod.isCoroutine = false ∧ v.toMethod.runInSubprocess = some true ∧ processPool then
      exporter.wrappedFor className methodName
    else some (.exported v)

theorem lookup_comp {α β : Type} (f : α → β) (items : List (List UInt8 × α)) (name : PyVal) :
    Exporter.lookup (items.map fun item => (item.1, f item.2)) name =
      (Exporter.lookup items name).map f := by
  unfold Exporter.lookup
  rw [List.find?_map, Option.map_map, Option.map_map]
  rfl

/-- What the server asks of a method is what `find` finds asks. -/
theorem getMethod_find {exporter : ExporterState} {S : PyVal.SpecialMethods}
    {className methodName : PyVal} {found : Option Method}
    (h : exporter.toExporter.getMethod S className methodName = .ok found) :
    found = (exporter.find className methodName).map Exported.toMethod := by
  unfold Exporter.getMethod at h
  -- a name that is not hashable raises before anything is found
  cases hclass : className.hash S with
  | error ex =>
      rw [hclass] at h
      cases h
  | ok _ =>
      cases hmethod : methodName.hash S with
      | error ex =>
          rw [hclass, hmethod] at h
          cases h
      | ok _ =>
          rw [hclass, hmethod] at h
          cases h
          have hmap : exporter.toExporter.exported =
              (exporter.exported.entries.map fun e => (e.1, e.2)).map fun item =>
                (item.1, item.2.entries.map fun method => (method.1, method.2.toMethod)) := by
            rw [List.map_map]
            rfl
          rw [hmap, lookup_comp fun methods : PyDict Exported =>
            methods.entries.map fun method => (method.1, method.2.toMethod), find]
          cases Exporter.lookup (exporter.exported.entries.map fun e => (e.1, e.2)) className with
          | none => rfl
          | some methods =>
              have hmethods : (methods.entries.map fun method =>
                  (method.1, method.2.toMethod)) =
                  (methods.entries.map fun e => (e.1, e.2)).map fun item =>
                    (item.1, item.2.toMethod) := by
                rw [List.map_map]
                rfl
              simp only [Option.map_some, Option.getD_some, Option.bind_some]
              rw [hmethods, lookup_comp Exported.toMethod]

/-- The names of a request stand for these names, also when the request has been through a
serializer. -/
def NamesEqual (S : PyVal.SpecialMethods) (value : PyVal) (name : List UInt8) : Prop :=
  value.hash S = .ok () ∧ ∀ other, value.eqStr other = decide (name = other)

theorem namesEqual_str (S : PyVal.SpecialMethods) (name : List UInt8) :
    NamesEqual S (.str name) name := ⟨rfl, fun _ => rfl⟩

theorem lookup_namesEqual {α : Type} {S : PyVal.SpecialMethods} {value : PyVal}
    {name : List UInt8} (h : NamesEqual S value name) (items : List (List UInt8 × α)) :
    Exporter.lookup items value = Exporter.lookup items (.str name) := by
  unfold Exporter.lookup
  refine congrArg (Option.map Prod.snd) (congrArg (items.find? ·) (funext fun item => ?_))
  exact h.2 item.1

theorem lookup_entries {α : Type} {S : PyVal.SpecialMethods} {value : PyVal} {name : List UInt8}
    (h : NamesEqual S value name) (d : PyDict α) :
    Exporter.lookup (d.entries.map fun e => (e.1, e.2)) value = d.lookup name := by
  rw [lookup_namesEqual h]
  exact (lookup_map (fun a => a) name d).trans Option.map_id'

theorem find_namesEqual {exporter : ExporterState} {S : PyVal.SpecialMethods} {c m : PyVal}
    {className methodName : List UInt8} (hc : NamesEqual S c className)
    (hm : NamesEqual S m methodName) :
    exporter.find c m = exporter.getMethod className methodName := by
  unfold find getMethod
  rw [lookup_entries hc]
  cases exporter.exported.lookup className with
  | none => rfl
  | some methods => exact lookup_entries hm methods

/-- A name that stands for an attribute name is one. -/
theorem attributeName_of_eqStr {value : PyVal} {name : List UInt8}
    (h : value.eqStr name = true) : attributeName value = some name := by
  cases value with
  | str s =>
      have heq : s = name := of_decide_eq_true h
      rw [heq]
      rfl
  | unicode s =>
      simp only [PyVal.eqStr, decide_eq_true_eq] at h
      rcases h with ⟨hchars, hascii⟩
      have hall : s.all (fun c => c.toNat < 128) = true := by
        rw [List.all_eq_true] at hascii ⊢
        intro c hc
        have hmem : c.toNat ∈ name.map fun b => b.toNat := hchars ▸ List.mem_map_of_mem hc
        rcases List.mem_map.mp hmem with ⟨b, hb, heq⟩
        have hlt := of_decide_eq_true (hascii b hb)
        rw [UInt8.lt_iff_toNat_lt] at hlt
        rw [decide_eq_true_eq, ← heq]
        exact hlt
      have hbytes : (s.map fun c => UInt8.ofNat c.toNat) = name := by
        have hmap := congrArg (List.map UInt8.ofNat) hchars
        rw [List.map_map, List.map_map] at hmap
        refine hmap.trans ?_
        simp [Function.comp_def]
      simp only [attributeName, if_pos hall, hbytes]
  | _ => cases h

/-- Where both paths call the same, it is the method that is found. -/
theorem callee_of_samePaths {exporter : ExporterState} {processPool : Bool}
    (hpaths : processPool = true → exporter.SamePaths) {S : PyVal.SpecialMethods} {c m : PyVal}
    {className methodName : List UInt8} (hc : NamesEqual S c className)
    (hm : NamesEqual S m methodName) {v : Exported}
    (hv : exporter.getMethod className methodName = some v) :
    exporter.callee processPool c m = some (.exported v) := by
  unfold callee
  rw [find_namesEqual hc hm, hv, Option.bind_some]
  by_cases hsub : v.toMethod.isCoroutine = false ∧ v.toMethod.runInSubprocess = some true ∧
      processPool = true
  · rw [if_pos hsub]
    have hsame := hpaths hsub.2.2 className methodName v hv ⟨hsub.1, hsub.2.1⟩
    unfold wrapped getObject at hsame
    have hname : attributeName m = some methodName :=
      attributeName_of_eqStr ((hm.2 methodName).trans (decide_eq_true rfl))
    unfold wrappedFor findObject
    rw [lookup_entries hc, hname]
    exact hsame
  · rw [if_neg hsub]

end ExporterState

namespace Runner

variable {cfg : RunnerConfig} {s t : Runner}

/-- What has been called for an invocation has ended as it may, if `_invoke` has come to call
anything. -/
def Performs (cfg : RunnerConfig) (exporter : ExporterState) (behaviour : Behaviour)
    (inv : Invocation) : Prop :=
  inv.failed = none → ∀ outcome, inv.outcome = some outcome → ∀ className methodName args kwargs v,
    inv.request.className = some className → inv.request.methodName = some methodName →
    inv.request.args = some args → inv.request.kwargs = some kwargs →
    exporter.callee cfg.processPool className methodName = some (.exported v) →
    behaviour v args kwargs outcome

/-- `_invoke` has handed over the invocation, and an exception of `_invoke` is what its future
was resolved with. -/
structure StartedInvocation (cfg : RunnerConfig) (inv : Invocation) : Prop where
  started : ∃ refused, start cfg refused inv.request = .ok inv.failed
  «meta» : getattr inv.request.meta = .ok inv.meta
  outcome : ∀ outcome, inv.outcome = some outcome → ∀ ex, inv.failed = some ex →
    outcome = .error ex

def Started (cfg : RunnerConfig) (s : Runner) : Prop :=
  ∀ inv ∈ s.invocations, StartedInvocation cfg inv

/-- At most one request is handed over. -/
def HandsOver (cfg : RunnerConfig) (s t : Runner) : Prop :=
  t.invocations = s.invocations ∨ ∃ inv, t.invocations = s.invocations ++ [inv] ∧
    (∃ refused, start cfg refused inv.request = .ok inv.failed) ∧
    getattr inv.request.meta = .ok inv.meta ∧ inv.outcome = none

theorem handsOver_invoke (cfg : RunnerConfig) (refused : Option Exc) (request : Request)
    (transactionId : ℕ) (s : Runner) :
    HandsOver cfg s (invoke cfg refused request transactionId s).2 := by
  unfold invoke
  simp only
  split
  · exact Or.inl rfl
  · rename_i failed hstarted
    split
    · exact Or.inl rfl
    · rename_i «meta» hmeta
      exact Or.inr ⟨_, rfl, ⟨refused, hstarted⟩, hmeta, rfl⟩

theorem handsOver_handOver (cfg : RunnerConfig) (refused : Option Exc) (request : Request)
    (transactionId : ℕ) (now : ℤ) (s : Runner) :
    HandsOver cfg s (s.handOver cfg refused request transactionId now) := by
  have hinvoke := handsOver_invoke cfg refused request transactionId { s with timestamp := now }
  unfold handOver
  split
  · rename_i u heq
    rw [heq] at hinvoke
    unfold HandsOver
    rw [(kept_loop cfg now u).invocations]
    exact hinvoke
  · rename_i u heq
    rw [heq] at hinvoke
    exact hinvoke

theorem handsOver_readDone (cfg : RunnerConfig) (refused : Option Exc) (now : ℤ) (s : Runner) :
    HandsOver cfg s (s.readDone cfg refused now) := by
  unfold readDone
  split
  · rename_i transactionId buff rest _
    -- a packet: its request may be handed over
    unfold received
    split
    · exact Or.inl (kept_handle _ now _).invocations
    · exact handsOver_handOver cfg refused _ transactionId now { s with incoming := rest }
    · exact Or.inl rfl
  · exact Or.inl rfl
  · exact Or.inl (kept_handle _ now _).invocations

/-- What `_send_response` makes of an invocation. -/
theorem resolve_invocations (cfg : RunnerConfig) {i : ℕ} {old : Invocation}
    (hold : s.invocations[i]? = some old) (outcome : Except PyVal PyVal) (now : ℤ) :
    ∃ pc, (s.resolve cfg i outcome now).invocations =
      s.invocations.set i { old with pc := pc, outcome := some outcome } := by
  let resolved := { old with outcome := some outcome }
  have hfinish : (s.finish i resolved now).invocations =
      s.invocations.set i { resolved with pc := .finished } := by
    have hproceeds : Proceeds s (s.finish i resolved now) i old { resolved with pc := .finished } :=
      proceeds_finish now hold rfl rfl
    exact hproceeds.invocations
  unfold resolve
  rw [hold]
  simp only [respond]
  -- the stream is closed, the response cannot be dumped or written, or the write is under way
  split
  · exact ⟨.dropped, rfl⟩
  · split
    · exact ⟨.finished, hfinish⟩
    · split
      · exact ⟨.finished, hfinish⟩
      · exact ⟨.writing, rfl⟩

theorem started_step {l : Label} (hg : guard cfg l s) (h : Started cfg s) :
    Started cfg (update cfg l s) := by
  have hkept : (update cfg l s).invocations = s.invocations → Started cfg (update cfg l s) := by
    intro heq inv hinv
    rw [heq] at hinv
    exact h inv hinv
  cases l with
  | arrive bs | peerClose => exact hkept rfl
  | readDone refused now =>
      rcases handsOver_readDone cfg refused now s with heq | ⟨new, heq, hstarted, hmeta, hnone⟩
      · exact hkept heq
      · intro inv hinv
        change inv ∈ (s.readDone cfg refused now).invocations at hinv
        rw [heq] at hinv
        -- the one handed over has no outcome yet
        rcases List.mem_append.mp hinv with hinv | hinv
        · exact h inv hinv
        · cases List.mem_singleton.mp hinv
          refine ⟨hstarted, hmeta, fun outcome hsome => ?_⟩
          cases hnone.symm.trans hsome
  | readFail ex now => exact hkept (kept_handle ex now s).invocations
  | wake now => exact hkept (kept_loop cfg now s).invocations
  | respond i outcome now =>
      rcases hg with ⟨old, hold, _, hfailed⟩
      rcases resolve_invocations cfg hold outcome now with ⟨pc, hset⟩
      have hstarted := h old (List.mem_of_getElem? hold)
      intro inv hinv
      change inv ∈ (s.resolve cfg i outcome now).invocations at hinv
      rw [hset] at hinv
      rcases List.mem_or_eq_of_mem_set hinv with hinv | rfl
      · exact h inv hinv
      · refine ⟨hstarted.started, hstarted.meta, ?_⟩
        rintro _ ⟨⟩ ex hex
        exact hfailed ex hex
  | flushed i now =>
      rcases hg with ⟨old, hold, _⟩
      have hstarted := h old (List.mem_of_getElem? hold)
      have hset : (s.flush i now).invocations =
          s.invocations.set i { old with pc := .finished } := by
        unfold flush
        rw [hold]
        exact (proceeds_finish now hold rfl rfl).invocations
      intro inv hinv
      change inv ∈ (s.flush i now).invocations at hinv
      rw [hset] at hinv
      rcases List.mem_or_eq_of_mem_set hinv with hinv | rfl
      · exact h inv hinv
      · exact ⟨hstarted.started, hstarted.meta, hstarted.outcome⟩
  | onConnectionClose => exact hkept (kept_notifyAll { s with streamClosed := true }).invocations
  | closeInactive => exact hkept (kept_notifyAll { s with closed := true }).invocations

/-! ## What `_invoke` makes of a method it finds -/

/-- The pools do not take the method: an exception of `_invoke` instead of the method's. -/
inductive Refused (cfg : RunnerConfig) (method : Method) : PyVal → Prop where
  | processPool (msg : List UInt8) (hprocess : cfg.processPool = true)
      (hsubprocess : method.runInSubprocess = some true) :
      Refused cfg method (.baseError .submitTaskToProcessPoolError (.str msg))
  | threadPool (hthread : cfg.threadPool = false) (hcoroutine : method.isCoroutine = false) :
      Refused cfg method
        (.baseError .concurrencyError (.str (bytes "no thread pool is specified")))

theorem refused_of_startFound {refused : Option Exc} {method : Method} {args kwargs ex : PyVal}
    (h : startFound cfg refused method args kwargs = .ok (some ex)) : Refused cfg method ex := by
  unfold startFound at h
  split at h
  · -- a coroutine is started here, and its future is not resolved
    cases hcall : call cfg.special args kwargs with
    | error _ =>
        rw [hcall] at h
        cases h
    | ok _ =>
        rw [hcall] at h
        cases h
  · rename_i hcoroutine
    split at h
    · rename_i hsub
      split at h
      · cases h
      · cases h
        exact .processPool _ hsub.2 hsub.1
    · split at h
      · cases hsubmit : submit cfg.special refused args kwargs with
        | error _ =>
            rw [hsubmit] at h
            cases h
        | ok _ =>
            rw [hsubmit] at h
            cases h
      · rename_i hthread
        cases h
        exact .threadPool (Bool.eq_false_iff.mpr hthread) (Bool.eq_false_iff.mpr hcoroutine)

/-- `get_method` finds what `find` finds. -/
theorem getMethod_of_find {exporter : ExporterState}
    (hexporter : cfg.exporter = exporter.toExporter) {c m : PyVal}
    (hc : c.hash cfg.special = .ok ()) (hm : m.hash cfg.special = .ok ()) {v : Exported}
    (hfind : exporter.find c m = some v) :
    cfg.exporter.getMethod cfg.special c m = .ok (some v.toMethod) := by
  have hlookup : cfg.exporter.getMethod cfg.special c m =
      .ok (Exporter.lookup ((Exporter.lookup cfg.exporter.exported c).getD []) m) := by
    unfold Exporter.getMethod
    rw [hc, hm]
    rfl
  rw [hexporter] at hlookup ⊢
  rw [hlookup, ExporterState.getMethod_find hlookup, hfind]
  rfl

/-- An invocation of a method that is exported: it has been called with the arguments in the
request, or its future is resolved with the exception that no pool takes it. -/
theorem StartedInvocation.ends {exporter : ExporterState} {inv : Invocation}
    (h : StartedInvocation cfg inv) (hexporter : cfg.exporter = exporter.toExporter) {c m : PyVal}
    (hc : inv.request.className = some c) (hm : inv.request.methodName = some m)
    (hchash : c.hash cfg.special = .ok ()) (hmhash : m.hash cfg.special = .ok ()) {v : Exported}
    (hfind : exporter.find c m = some v) {outcome : Except PyVal PyVal}
    (hresolved : inv.outcome = some outcome) :
    ∃ args kwargs, inv.request.args = some args ∧ inv.request.kwargs = some kwargs ∧
      inv.request.meta = some inv.meta ∧
      (inv.failed = none ∨ ∃ ex, outcome = .error ex ∧ Refused cfg v.toMethod ex) := by
  -- the attributes of the request are there
  have hattr : ∀ {attr : Option PyVal} {value : PyVal}, SummerRpc.getattr attr = .ok value →
      attr = some value := by
    intro attr value hget
    cases attr with
    | none => cases hget
    | some value' =>
        cases hget
        rfl
  rcases h.started with ⟨refused, hstart⟩
  unfold start at hstart
  rw [hc, hm] at hstart
  cases hargs : inv.request.args with
  | none =>
      rw [hargs] at hstart
      cases hstart
  | some args =>
      cases hkwargs : inv.request.kwargs with
      | none =>
          rw [hargs, hkwargs] at hstart
          cases hstart
      | some kwargs =>
          refine ⟨args, kwargs, rfl, rfl, hattr h.meta, ?_⟩
          rcases Option.eq_none_or_eq_some inv.failed with hnone | ⟨ex, hfailed⟩
          · exact Or.inl hnone
          · -- `_invoke` has found the method
            refine Or.inr ⟨ex, h.outcome outcome hresolved ex hfailed, ?_⟩
            rw [hargs, hkwargs, hfailed] at hstart
            change startMethod cfg refused c m args kwargs = .ok (some ex) at hstart
            unfold startMethod at hstart
            rw [getMethod_of_find hexporter hchash hmhash hfind] at hstart
            exact refused_of_startFound hstart

end Runner

namespace Session

variable {cfg : SessionConfig} {s : Session}

/-! ## Calls of proxies -/

/-- A step of a session is a step of the `Runner`, brings it bytes, or leaves it alone. -/
theorem runner_moves {l : Label} (hg : guard cfg l s) :
    (update cfg l s).runner = s.runner ∨ ∃ m, Runner.guard cfg.runner m s.runner ∧
      (update cfg l s).runner = Runner.update cfg.runner m s.runner := by
  cases l with
  | runner m => exact Or.inr ⟨m, hg.2, rfl⟩
  | carryRequest bs => exact Or.inr ⟨.arrive bs, hg.2, rfl⟩
  | call n now =>
      left
      simp only [update, stepCall]
      split
      · rfl
      · split <;> rfl
  | wake n | timeOut n =>
      left
      simp only [update, stepInvoke]
      split <;> rfl
  | invoke _ _ _ | connection _ | carryResponse _ => exact Or.inl rfl

theorem started_reachable (hr : (system cfg).Reachable s) :
    Runner.Started cfg.runner s.runner := by
  refine (system cfg).invariant (fun s => Runner.Started cfg.runner s.runner) ?_ ?_ s hr
  · rintro s ⟨now, rfl⟩ inv hinv
    change inv ∈ ((Runner.accepted now).loop cfg.runner now).invocations at hinv
    rw [(Runner.kept_loop cfg.runner now _).invocations] at hinv
    cases hinv
  · intro l s hg h
    show Runner.Started _ (update cfg l s).runner
    rcases runner_moves hg with hsame | ⟨m, hgm, hmoves⟩
    · rw [hsame]
      exact h
    · rw [hmoves]
      exact Runner.started_step hgm h

/-- What the serializers make of a request on its way. -/
def Received (serializer : Serializer) (request request' : Request) : Prop :=
  ∃ buff, serializer.dumps (.request request) = .ok buff ∧
    serializer.loads (some buff) = .ok (.request request')

/-- What they make of what a method has done. -/
def Concluded (serializer : Serializer) («meta» : PyVal) (outcome : Except PyVal PyVal)
    (ending : Ending) : Prop :=
  ∃ body, serializer.dumps (.result (Runner.toResult «meta» outcome)) = .ok body ∧
    ending = RpcInvoker.conclude serializer body

/-- The names are still those of the proxy. -/
def KeepsNames (S : PyVal.SpecialMethods) (request : Request) (className methodName : List UInt8) :
    Prop :=
  ∃ c m, request.className = some c ∧ request.methodName = some m ∧
    ExporterState.NamesEqual S c className ∧ ExporterState.NamesEqual S m methodName

/-- The response a call ends with answers the request of the call. -/
theorem Linked.answered {begun ps qs : List Packet} (h : Linked cfg s begun ps qs)
    (hresponded : Runner.Responded cfg.runner s.runner) {v : Invoke} (hv : v ∈ s.invokes)
    {ending : Ending} (hpc : v.pc = .done ending) (hresult : ending.isResult = true) :
    ∃ inv ∈ s.runner.invocations, ∃ outcome, v.transactionId = some inv.transactionId ∧
      Received cfg.serializer v.request inv.request ∧ inv.outcome = some outcome ∧
      Concluded cfg.serializer inv.meta outcome ending := by
  rcases (h.calls.ok v hv).done ending hpc hresult with ⟨tid, body, htid, hreceived, hending⟩
  -- the packet with the response was written by the `Runner`
  rcases Runner.output_eq rfl hresponded with ⟨rs, hout, henc, hanswers⟩
  have hpre : s.connection.readSide.received <+: rs :=
    h.net.readOff.isPrefix packetCode_exact henc (hout ▸ h.net.responses)
  rcases hanswers (tid, body) (hpre.subset hreceived) with ⟨j, inv, outcome, hresponse⟩
  -- and the request of the invocation was read from a packet of the write thread
  rcases h.net.consumed.packet_of hresponse.found with ⟨q, hq, hcarries⟩
  have hqbody : q.2 = v.buff := by
    apply h.calls.bodies v hv tid htid q
    · exact List.mem_append_left _ (h.read_begun.subset hq)
    · rw [← hcarries.transactionId, hresponse.transactionId]
  -- a call whose request was not dumped ends with that exception
  have hdumps : cfg.serializer.dumps (.request v.request) = .ok v.buff := by
    apply (h.calls.ok v hv).dumped
    intro ex hex
    cases hpc.symm.trans hex
    cases hresult
  have hloads : cfg.serializer.loads (some q.2) = .ok (.request inv.request) := hcarries.request
  rw [hqbody] at hloads
  have htransaction : v.transactionId = some inv.transactionId := by
    rw [htid, hresponse.transactionId]
  exact ⟨inv, List.mem_of_getElem? hresponse.found, outcome, htransaction, ⟨v.buff, hdumps, hloads⟩,
    hresponse.resolved, body, hresponse.dumps, hending⟩

/-- Whatever other calls there are and in whatever order everything happens: a call of a proxy
that ends with a result ends with what the class's own method of that name has done when it was
called with the arguments of the call, or with the exception that says that there was no pool
to call it. Where there is a process pool, a method for it must have the name it is exported
under. -/
theorem proxy_calls (cfg : SessionConfig) (installHeartbeat : Bool)
    (calls : List (PyClass × Bool)) (behaviour : Behaviour) {s : Session}
    (hr : (system cfg).Reachable s) (hfew : s.writes < 2 ^ 32)
    (hexporter : cfg.exporter =
      ((ExporterState.new installHeartbeat).exportAll calls).toExporter)
    (haliased : cfg.processPool = true →
      ((ExporterState.new installHeartbeat).exportAll calls).Aliased)
    {cls : PyClass} {filtered : List UInt8 → Prop}
    (hagree : NamesAgree cls filtered ((ExporterState.new installHeartbeat).exportAll calls))
    {v : Invoke} (hv : v ∈ s.invokes)
    (hperforms : ∀ inv ∈ s.runner.invocations, v.transactionId = some inv.transactionId →
      Runner.Performs cfg.runner ((ExporterState.new installHeartbeat).exportAll calls) behaviour
        inv)
    {attrName className methodName : List UInt8}
    (hproxy : Refer.lookup cls attrName = .ok (.proxy className (.key methodName)))
    {args : List PyVal} {kwargs : List (PyVal × PyVal)}
    (hrequest : v.request = Refer.request className (.key methodName) args kwargs)
    (hnames : ∀ request', Received cfg.serializer v.request request' →
      KeepsNames cfg.special request' className methodName)
    {ending : Ending} (hpc : v.pc = .done ending) (hresult : ending.isResult = true) :
    ∃ r request' args' kwargs' «meta» outcome, cls.getattr attrName = some (.routine r) ∧
      Received cfg.serializer (Refer.request className (.key methodName) args kwargs) request' ∧
      request'.args = some args' ∧ request'.kwargs = some kwargs' ∧
      request'.meta = some «meta» ∧
      (behaviour (.bound r) args' kwargs' outcome ∨
        ∃ ex, outcome = .error ex ∧ Runner.Refused cfg.runner r.function.method ex) ∧
      Concluded cfg.serializer «meta» outcome ending := by
  rcases linked_reachable cfg s hr hfew with ⟨begun, ps, qs, h⟩
  have hresponded := Runner.responded_reachable cfg.runner _
    ((runner_projection cfg).reachable hr)
  obtain ⟨inv, hinv, outcome, htransaction, hreceived, hresolved, hconcluded⟩ :=
    h.answered hresponded hv hpc hresult
  -- the names lead to the routine that the attribute is
  rcases hagree.found attrName className _ hproxy with ⟨name, found, ⟨⟩, hfound, r, hattr, rfl⟩
  rcases hnames inv.request hreceived with ⟨c, m, hc, hm, hcname, hmname⟩
  have hfind : ((ExporterState.new installHeartbeat).exportAll calls).find c m = some (.bound r) :=
    (ExporterState.find_namesEqual hcname hmname).trans hfound
  obtain ⟨args', kwargs', hargs, hkwargs, hmeta, hends⟩ :=
    (started_reachable hr inv hinv).ends hexporter hc hm hcname.1 hmname.1 hfind hresolved
  rw [hrequest] at hreceived
  refine ⟨r, inv.request, args', kwargs', inv.meta, outcome, hattr, hreceived, hargs, hkwargs,
    hmeta, ?_, hconcluded⟩
  rcases hends with hcalled | hrefused
  · -- and so does the process pool
    have hconsistent := ExporterState.consistent_exportAll
      (ExporterState.consistent_new installHeartbeat) calls
    have hcallee := ExporterState.callee_of_samePaths
      (fun hpool => ExporterState.samePaths_of_aliased hconsistent (haliased hpool)) hcname hmname
      hfound
    exact Or.inl (hperforms inv hinv htransaction hcalled outcome hresolved c m args' kwargs' _ hc
      hm hargs hkwargs hcallee)
  · exact Or.inr hrefused

/-! ## A counter -/

/-- `def next(self, n): return n + 1` -/
def nextRoutine : Routine where
  function := { id := 1 }

/-- The class it is in. -/
def counterClass : PyClass where
  name := bytes "Counter"
  own := { vars := AList.singleton (bytes "next") (.routine nextRoutine) }
  bases := []
  metaclass := []
  construct := .ok ∅

def counterExporter : ExporterState := (ExporterState.new true).exportAll [(counterClass, false)]

def nextBehaviour : Behaviour := fun v args _ outcome =>
  v = .bound nextRoutine ∧ ∃ n, args = .tuple [.int n] ∧ outcome = .ok (.int (n + 1))

/-- `pickle`, for the request `next(7)` and its result. -/
def counterPickle : Pickle where
  dumps := fun
    | .request _ => .ok [1]
    | .result _ => .ok [2]
    | .other _ => .error { cls := .typeError }
  loads := fun buff =>
    if buff = some [1] then
      .ok (.request (Refer.request (bytes "Counter") (.key (bytes "next")) [.int 7] []))
    else if buff = some [2] then .ok (.result { Result.new with result := some (.int 8) })
    else .error { cls := .valueError }

/-- A client and a server of the class. -/
def counterSession : SessionConfig :=
  { echoSession with
    serializer := PickleSerializer counterPickle
    exporter := counterExporter.toExporter }

/-- The names agree: the only proxy is that of `next`. -/
theorem namesAgree_counter : NamesAgree counterClass (fun _ => False) counterExporter := by
  constructor
  · intro attrName className methodName hproxy
    by_cases hname : attrName = bytes "next"
    · subst hname
      have hnext : Refer.lookup counterClass (bytes "next") =
          .ok (.proxy (bytes "Counter") (.key (bytes "next"))) := rfl
      cases hnext.symm.trans hproxy
      exact ⟨bytes "next", .bound nextRoutine, rfl, by decide +kernel, nextRoutine, rfl, rfl⟩
    · have hnone : counterClass.getattr attrName = none := by
        have hlookup : (AList.singleton (bytes "next") (Attr.routine nextRoutine) :
            PyDict Attr).lookup attrName = none := by
          rw [AList.lookup_eq_none, ← AList.insert_empty, AList.mem_insert]
          rintro (hyes | hmem)
          · exact hname hyes
          · exact AList.notMem_empty _ hmem
        unfold PyClass.getattr
        simp only [PyClass.dicts, counterClass, List.append_nil, List.findSome?_cons, hlookup,
          List.findSome?_nil]
      unfold Refer.lookup at hproxy
      split at hproxy
      · cases hproxy
      · unfold Refer.getattr at hproxy
        rw [hnone] at hproxy
        cases hproxy
  · exact fun _ hfalse => hfalse.elim

/-- The call `next(7)`, and its two packets. -/
def nextRequest : Request := Refer.request (bytes "Counter") (.key (bytes "next")) [.int 7] []

def nextRun : List Label :=
  let entry : PendingWrite := ⟨[1], 0, 1, 0, none⟩
  let request := packetCode.enc (1, [1])
  let response := packetCode.enc (1, [2])
  [.invoke nextRequest none none, .call 0 0, .call 0 0,
    .connection .writeAcquire, .connection .writeTake, .connection (.writeCheck entry 0),
    .connection (.writeSend entry request request.length), .connection (.writeFinish entry),
    .wake 0, .call 0 0, .call 0 0, .carryRequest request,
    .runner (.readDone none 0), .runner (.respond 0 (.ok (.int 8)) 0),
    .carryResponse response,
    .connection .readAcquire, .connection .readLook, .connection (.readReceive (1, [2]) []),
    .connection (.readHeartbeatLock (1, [2])), .connection (.readHeartbeat (1, [2])),
    .connection (.readRouteLock (1, [2])), .connection (.readRoute (1, [2])), .wake 0]

/-- Where the run has led. -/
def counted : Session :=
  (system counterSession).play (fires counterSession) nextRun (new counterSession 0)

/-- The request is that of `next(7)`. -/
def isNextRequest : Request → Bool
  | ⟨some (.str c), some (.str m), some (.tuple [.int n]), some (.dict []), some .none⟩ =>
      c = bytes "Counter" && m = bytes "next" && n = 7
  | _ => false

/-- The invocation is of `next(7)`, and has returned `8`. -/
def isNextInvocation (inv : Invocation) : Bool :=
  isNextRequest inv.request &&
    match inv.outcome with
    | some (.ok (.int n)) => n = 8
    | _ => false

theorem isNextRequest_spec {request : Request} (h : isNextRequest request = true) :
    request = nextRequest := by
  unfold isNextRequest at h
  split at h
  · simp only [Bool.and_eq_true, decide_eq_true_eq] at h
    rcases h with ⟨⟨rfl, rfl⟩, rfl⟩
    rfl
  · cases h

/-- `next` has been called, and has done what it may. -/
theorem performs_of_isNextInvocation {inv : Invocation} (h : isNextInvocation inv = true) :
    Runner.Performs counterSession.runner counterExporter nextBehaviour inv := by
  unfold isNextInvocation at h
  rw [Bool.and_eq_true] at h
  have hrequest := isNextRequest_spec h.1
  have hreturned := h.2
  split at hreturned
  · rename_i n hout
    have hn : n = 8 := of_decide_eq_true hreturned
    subst hn
    intro _ outcome houtcome c m args kwargs v hc hm hargs _ hcallee
    rw [hrequest] at hc hm hargs
    cases hc
    cases hm
    cases hargs
    have hnext : counterExporter.callee counterSession.runner.processPool
        (.str (bytes "Counter")) (.str (bytes "next")) = some (.exported (.bound nextRoutine)) := by
      decide +kernel
    cases hnext.symm.trans hcallee
    cases hout.symm.trans houtcome
    exact ⟨rfl, 7, rfl, rfl⟩
  · cases hreturned

/-- The one call has ended with a result. -/
theorem counted_checks : decide (counted.writes < 2 ^ 32) = true ∧
    counted.invokes.map (fun v => isNextRequest v.request && endedWithResult v) = [true] ∧
    counted.runner.invocations.all isNextInvocation = true := by
  decide +kernel

theorem proxy_calls_next :
    ∃ v ∈ counted.invokes, v.pc = .done (.returned (.int 8)) := by
  have hr : (system counterSession).Reachable counted :=
    (Lts.Spec.Reachable.init ⟨0, rfl⟩ :
      (system counterSession).Reachable (new counterSession 0)).play fires_guard nextRun
  rcases counted_checks with ⟨hfew, hended, hinvocations⟩
  have hone : counted.invokes[0]?.map (fun v => isNextRequest v.request && endedWithResult v) =
      some true := by
    rw [← List.getElem?_map, hended]
    rfl
  rcases Option.map_eq_some_iff.mp hone with ⟨v, hv, htest⟩
  rw [Bool.and_eq_true] at htest
  have hrequest := isNextRequest_spec htest.1
  rcases endedWithResult_spec htest.2 with ⟨ending, hpc, hresult⟩
  have hnames : ∀ request', Received counterSession.serializer v.request request' →
      KeepsNames counterSession.special request' (bytes "Counter") (bytes "next") := by
    rintro request' ⟨buff, hdumps, hloads⟩
    cases hdumps
    cases hloads
    exact ⟨_, _, rfl, rfl, ExporterState.namesEqual_str _ _, ExporterState.namesEqual_str _ _⟩
  have hnext : Refer.lookup counterClass (bytes "next") =
      .ok (.proxy (bytes "Counter") (.key (bytes "next"))) := rfl
  obtain ⟨r, request', args', kwargs', «meta», outcome, _, _, _, _, _, _, body, hdumps, rfl⟩ :=
    proxy_calls counterSession true [(counterClass, false)] nextBehaviour hr
      (of_decide_eq_true hfew) rfl (fun hpool => by cases hpool) namesAgree_counter
      (List.mem_of_getElem? hv)
      (fun inv hinv _ => performs_of_isNextInvocation (List.all_eq_true.mp hinvocations inv hinv))
      hnext hrequest hnames hpc hresult
  cases hdumps
  exact ⟨v, List.mem_of_getElem? hv, hpc⟩

end Session

end SummerRpc
