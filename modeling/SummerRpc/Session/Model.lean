import SummerRpc.Connection.Wire
import SummerRpc.Connection.ReadKeys
import SummerRpc.Server.Echo

/-! # `RpcInvoker.invoke` over one connection

Any number of threads in `RpcInvoker.invoke` (`invoker.py`), the
`SharedBlockingConnection` they use, the bytes on the network and the `Runner` that
serves the connection.

* `Invoke`: a call of `invoke` and how far it has come;
* `Session`: the calls, the connection, the network and the `Runner`;
* `Label`, `guard`, `update`: the steps, of which every order is a run of `system`.
-/

namespace SummerRpc

/-! ## `RpcInvoker.invoke` -/

/-- How a call of `invoke` ends. -/
inductive Ending where
  /-- `return result.result` -/
  | returned (value : PyVal)
  /-- `raise result.exc` -/
  | remote (exc : PyVal)
  /-- an exception of the client -/
  | raised (ex : Exc)

/-- The ending is what a result says. -/
def Ending.isResult : Ending → Bool
  | .returned _ | .remote _ => true
  | .raised _ => false

namespace RpcInvoker

/-- `raise result.exc` or `return result.result` -/
def raiseOrReturn (result : Result) : Ending :=
  match getattr result.exc with
  | .error ex => .raised ex
  | .ok .none =>
    match getattr result.result with
    | .error ex => .raised ex
    | .ok value => .returned value
  | .ok exc => .remote exc

/-- `InvalidResponseError("expect Result, not %s" % ...)` -/
def invalidResponse (typeName : String) : Exc where
  cls := .invalidResponseError
  msg := "expect Result, not " ++ typeName

/-- The end of `invoke`, from the response on. -/
def conclude (serializer : Serializer) (response : Body) : Ending :=
  match serializer.loads (some response) with
  | .error ex => .raised ex
  | .ok (.result result) => raiseOrReturn result
  | .ok (.request _) => .raised (invalidResponse "Request")
  | .ok (.other value) => .raised (invalidResponse value.typeName)

/-- `ConnectionWriteTimeout("timeout: %s" % write_timeout)` -/
def writeTimeoutExc (timeout : ℤ) : Exc where
  cls := .connectionWriteTimeout
  msg := "timeout: " ++ toString timeout

/-- `ConnectionReadTimeout("timeout: %s" % read_timeout)` -/
def readTimeoutExc (timeout : ℤ) : Exc where
  cls := .connectionReadTimeout
  msg := "timeout: " ++ toString timeout

end RpcInvoker

/-- Where a call of `invoke` is. -/
inductive InvokePc where
  /-- about to call `connection.write` -/
  | dumped
  /-- in `connection.write`, with the condition -/
  | inWrite
  /-- in `write_future.result` -/
  | waitWrite (writeFuture : ℕ)
  /-- about to call `connection.read` -/
  | written
  /-- in `connection.read`, with the condition -/
  | inRead
  /-- in `read_future.result` -/
  | waitRead (readFuture : ℕ)
  | done (ending : Ending)

/-- A call of `invoke`. -/
structure Invoke where
  request : Request
  buff : Body
  writeTimeout : Option ℤ
  readTimeout : Option ℤ
  /-- what `connection.write` has returned -/
  transactionId : Option ℕ
  pc : InvokePc

namespace Invoke

/-- `serializer.dumps(request)` -/
def start (serializer : Serializer) (request : Request) (writeTimeout readTimeout : Option ℤ) :
    Invoke :=
  match serializer.dumps (.request request) with
  | .ok buff => ⟨request, buff, writeTimeout, readTimeout, none, .dumped⟩
  | .error ex => ⟨request, [], writeTimeout, readTimeout, none, .done (.raised ex)⟩

/-- The step of the connection that the call takes next. -/
def call (cfg : Config) (now : ℤ) (v : Invoke) : Option SharedBlockingConnection.Label :=
  match v.pc with
  | .dumped => some (.writeEnter v.buff v.writeTimeout)
  | .inWrite => some (.writeCommit v.buff (cfg.timeoutOr v.writeTimeout) now)
  | .written => v.transactionId.map .readEnter
  | .inRead => v.transactionId.map .readCommit
  | _ => none

/-- After a step in `connection.write`, which may have ended it. -/
def afterWrite (v : Invoke) (ret : Option (Except Exc (ℕ × ℕ))) : Invoke :=
  match ret with
  | none => { v with pc := .inWrite }
  | some (.ok (transactionId, f)) =>
      { v with transactionId := some transactionId, pc := .waitWrite f }
  | some (.error ex) => { v with pc := .done (.raised ex) }

/-- After a step in `connection.read`. -/
def afterRead (v : Invoke) (ret : Option (ℕ × Except Exc ℕ)) : Invoke :=
  match ret with
  | none => { v with pc := .inRead }
  | some (_, .ok f) => { v with pc := .waitRead f }
  | some (_, .error ex) => { v with pc := .done (.raised ex) }

/-- After a step that has taken the connection from `c` to `c'`. -/
def afterCall (v : Invoke) (c c' : SharedBlockingConnection) : Invoke :=
  match v.pc with
  | .dumped | .inWrite =>
      v.afterWrite (c'.writeSide.returns.drop c.writeSide.returns.length).head?
  | _ => v.afterRead (c'.readSide.returns.drop c.readSide.returns.length).head?

/-- The future the call waits for is resolved. -/
def wake (serializer : Serializer) (c : SharedBlockingConnection) (v : Invoke) : Option Invoke :=
  match v.pc with
  | .waitWrite f =>
    match c.writeSide.futures.result f with
    | none => none
    | some (.ok _) => some { v with pc := .written }
    | some (.error ex) => some { v with pc := .done (.raised ex) }
  | .waitRead f =>
    match c.readSide.futures.result f with
    | none => none
    | some (.ok response) => some { v with pc := .done (RpcInvoker.conclude serializer response) }
    | some (.error ex) => some { v with pc := .done (.raised ex) }
  | _ => none

/-- The time to wait for a future is over. -/
def timeOut (v : Invoke) : Option Invoke :=
  match v.pc with
  | .waitWrite _ =>
      v.writeTimeout.map fun t => { v with pc := .done (.raised (RpcInvoker.writeTimeoutExc t)) }
  | .waitRead _ =>
      v.readTimeout.map fun t => { v with pc := .done (.raised (RpcInvoker.readTimeoutExc t)) }
  | _ => none

end Invoke

/-! ## The session -/

/-- The parameters of the connection and of the `Runner`. Both ends use the same
serializer, and the record transport. -/
structure SessionConfig where
  connection : Config
  special : PyVal.SpecialMethods
  serializer : Serializer
  exporter : Exporter
  threadPool : Bool
  processPool : Bool
  concurrentRequestPerConnection : ℕ

/-- The `Runner` of the connection. -/
def SessionConfig.runner (cfg : SessionConfig) : RunnerConfig where
  special := cfg.special
  transport := recordTransport
  serializer := cfg.serializer
  exporter := cfg.exporter
  threadPool := cfg.threadPool
  processPool := cfg.processPool
  concurrentRequestPerConnection := cfg.concurrentRequestPerConnection

/-- The two ends of a connection, and the calls of `invoke` that use it. -/
structure Session where
  connection : SharedBlockingConnection
  runner : Runner
  invokes : List Invoke
  /-- the bytes that have crossed the network, to the server and to the client -/
  requestBytes : List UInt8
  responseBytes : List UInt8

namespace Session

/-- The steps. -/
inductive Label where
  /-- a thread calls `invoke` -/
  | invoke (request : Request) (writeTimeout readTimeout : Option ℤ)
  /-- call `n` takes a step in `connection.write` or `connection.read` -/
  | call (n : ℕ) (now : ℤ)
  /-- call `n` goes on with a resolved future -/
  | wake (n : ℕ)
  /-- call `n` has waited long enough -/
  | timeOut (n : ℕ)
  /-- a step of the write thread, of the read thread, or in `close()` -/
  | connection (l : SharedBlockingConnection.Label)
  | runner (l : Runner.Label)
  /-- bytes reach the server -/
  | carryRequest (bs : List UInt8)
  /-- bytes reach the client -/
  | carryResponse (bs : List UInt8)

/-- The step of a connection is one of its own threads, or in `close()`. -/
def ofThreads : SharedBlockingConnection.Label → Bool
  | .writeEnter .. | .writeCommit .. | .readEnter _ | .readCommit _ | .deliver _ => false
  | _ => true

/-- The step of a `Runner` is not that of its socket. -/
def ofRunner : Runner.Label → Bool
  | .arrive _ => false
  | _ => true

/-- When a step may happen. Bytes arrive in the order in which they were sent. -/
def guard (cfg : SessionConfig) (l : Label) (s : Session) : Prop :=
  match l with
  | .invoke _ _ _ => True
  | .call n now => ∃ v l, s.invokes[n]? = some v ∧ v.call cfg.connection now = some l ∧
      SharedBlockingConnection.guard cfg.connection l s.connection
  | .wake n => ∃ v v', s.invokes[n]? = some v ∧ v.wake cfg.serializer s.connection = some v'
  | .timeOut n => ∃ v v', s.invokes[n]? = some v ∧ v.timeOut = some v'
  | .connection l => ofThreads l = true ∧
      SharedBlockingConnection.guard cfg.connection l s.connection
  | .runner l => ofRunner l = true ∧ Runner.guard cfg.runner l s.runner
  | .carryRequest bs => s.requestBytes ++ bs <+: s.connection.writeSide.outgoing ∧
      Runner.guard cfg.runner (.arrive bs) s.runner
  | .carryResponse bs => s.responseBytes ++ bs <+: s.runner.output

/-- Call `n` takes its step of the connection. -/
def stepCall (cfg : SessionConfig) (n : ℕ) (now : ℤ) (s : Session) : Session :=
  match s.invokes[n]? with
  | none => s
  | some v =>
    match v.call cfg.connection now with
    | none => s
    | some l =>
      let c := SharedBlockingConnection.update cfg.connection l s.connection
      { s with connection := c, invokes := s.invokes.set n (v.afterCall s.connection c) }

/-- Call `n` becomes what `f` makes of it. -/
def stepInvoke (f : Invoke → Option Invoke) (n : ℕ) (s : Session) : Session :=
  match s.invokes[n]?.bind f with
  | none => s
  | some v => { s with invokes := s.invokes.set n v }

/-- The state a step leads to. -/
def update (cfg : SessionConfig) (l : Label) (s : Session) : Session :=
  match l with
  | .invoke request writeTimeout readTimeout =>
      { s with
        invokes := s.invokes ++ [Invoke.start cfg.serializer request writeTimeout readTimeout] }
  | .call n now => s.stepCall cfg n now
  | .wake n => s.stepInvoke (Invoke.wake cfg.serializer s.connection) n
  | .timeOut n => s.stepInvoke Invoke.timeOut n
  | .connection l =>
      { s with connection := SharedBlockingConnection.update cfg.connection l s.connection }
  | .runner l => { s with runner := Runner.update cfg.runner l s.runner }
  | .carryRequest bs =>
      { s with
        runner := Runner.update cfg.runner (.arrive bs) s.runner
        requestBytes := s.requestBytes ++ bs }
  | .carryResponse bs =>
      { s with
        connection := SharedBlockingConnection.update cfg.connection (.deliver bs) s.connection
        responseBytes := s.responseBytes ++ bs }

/-- A fresh connection, accepted by the server. -/
def new (cfg : SessionConfig) (now : ℤ) : Session where
  connection := SharedBlockingConnection.new cfg.connection
  runner := Runner.new cfg.runner now
  invokes := []
  requestBytes := []
  responseBytes := []

/-- A session as a transition system. -/
def system (cfg : SessionConfig) : Lts.Spec Session Label where
  init := fun s => ∃ now, s = new cfg now
  guard := guard cfg
  update := update cfg

/-! ## The two ends as components -/

/-- A step of a session is at most one step of the connection. -/
theorem connection_update {cfg : SessionConfig} {l : Label} {s : Session} (hg : guard cfg l s) :
    (update cfg l s).connection = s.connection ∨
      ∃ m, SharedBlockingConnection.guard cfg.connection m s.connection ∧
        (update cfg l s).connection =
          SharedBlockingConnection.update cfg.connection m s.connection := by
  cases l with
  | call n now =>
      rcases hg with ⟨v, m, hv, hm, hgm⟩
      refine Or.inr ⟨m, hgm, ?_⟩
      simp only [update, stepCall, hv, hm]
  | wake n =>
      simp only [update, stepInvoke]
      split <;> exact Or.inl rfl
  | timeOut n =>
      simp only [update, stepInvoke]
      split <;> exact Or.inl rfl
  | connection m => exact Or.inr ⟨m, hg.2, rfl⟩
  | carryResponse bs => exact Or.inr ⟨.deliver bs, trivial, rfl⟩
  | _ => exact Or.inl rfl

/-- A step of a session is at most one step of the `Runner`. -/
theorem runner_update {cfg : SessionConfig} {l : Label} {s : Session} (hg : guard cfg l s) :
    (update cfg l s).runner = s.runner ∨
      ∃ m, Runner.guard cfg.runner m s.runner ∧
        (update cfg l s).runner = Runner.update cfg.runner m s.runner := by
  cases l with
  | call n now =>
      simp only [update, stepCall]
      split
      · exact Or.inl rfl
      · split <;> exact Or.inl rfl
  | wake n =>
      simp only [update, stepInvoke]
      split <;> exact Or.inl rfl
  | timeOut n =>
      simp only [update, stepInvoke]
      split <;> exact Or.inl rfl
  | runner m => exact Or.inr ⟨m, hg.2, rfl⟩
  | carryRequest bs => exact Or.inr ⟨.arrive bs, hg.2, rfl⟩
  | _ => exact Or.inl rfl

/-- Every invariant of a connection holds of the connection of a session. -/
theorem connection_projection (cfg : SessionConfig) :
    Lts.Spec.Projection (system cfg) (SharedBlockingConnection.system cfg.connection)
      Session.connection where
  init := by
    rintro s ⟨now, rfl⟩
    exact rfl
  step := fun _ _ _ hg => connection_update hg

/-- Every invariant of a `Runner` holds of the `Runner` of a session. -/
theorem runner_projection (cfg : SessionConfig) :
    Lts.Spec.Projection (system cfg) (Runner.system cfg.runner) Session.runner where
  init := by
    rintro s ⟨now, rfl⟩
    exact ⟨now, rfl⟩
  step := fun _ _ _ hg => runner_update hg

end Session

end SummerRpc
