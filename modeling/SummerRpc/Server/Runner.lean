import SummerRpc.Lib.Transition
import SummerRpc.Message.Serializer
import SummerRpc.Server.Exporter
import SummerRpc.Transport.Http
import SummerRpc.Transport.Record

/-! # A connection of the server

The `Runner` of one connection, with the stream and the `ConnectionInformation` it
shares with the server (`rpc_server.py`).

* `startMethod`, `invoke`: `_invoke`;
* `loop`, `received`: `_run`, from one suspension to the next;
* `respond`, `finish`: `_send_response`;
* `Label`, `guard`, `update`: the event loop's callbacks as the steps of a system.
-/

namespace SummerRpc

/-- A transport of the server; `read` gives no body where the HTTP transport reads an
empty one. It reads what fits into the buffer of the stream: a stream whose buffer is full
closes itself, and the read that waits on it fails (`peerClose` and `readFail`). -/
structure ServerTransport where
  read : StreamRead (ℕ × Option (List UInt8))
  generatePacket : ℕ → List UInt8 → Except Exc (List UInt8)

/-- `RecordTransport` -/
def recordTransport : ServerTransport where
  read := do
    let (transactionId, body) ← RecordTransport.read .unbounded
    return (transactionId, some body)
  generatePacket := BaseRecordTransport.generatePacket

/-- `HTTPTransport` -/
def httpTransport (limits : HTTPTransport.Limits) : ServerTransport where
  read := HTTPTransport.read limits .unbounded
  generatePacket := fun transactionId buff => .ok (HTTPTransport.generatePacket transactionId buff)

/-- The arguments of `Runner`. Of the pools only their presence is needed. -/
structure RunnerConfig where
  special : PyVal.SpecialMethods
  transport : ServerTransport
  serializer : Serializer
  exporter : Exporter
  threadPool : Bool
  processPool : Bool
  concurrentRequestPerConnection : ℕ

/-- Where `_run` is. -/
inductive RunPc where
  /-- in `read_condition.wait()` -/
  | waiting
  /-- notified, not yet resumed -/
  | woken
  /-- in `transport.read` -/
  | reading
  | terminated
deriving DecidableEq, Repr

/-- Where `_send_response` is. -/
inductive SendPc where
  /-- the future of the method is not resolved -/
  | running
  /-- in `transport.write` -/
  | writing
  | finished
  /-- `stream_closed` was set when the future was resolved -/
  | dropped
deriving DecidableEq, Repr

/-- A request that `_invoke` has handed over. -/
structure Invocation where
  request : Request
  transactionId : ℕ
  «meta» : PyVal
  /-- the exception of a future that `_invoke` itself resolved -/
  failed : Option PyVal
  pc : SendPc
  /-- what the future was resolved with -/
  outcome : Option (Except PyVal PyVal)

/-- The state of a connection. -/
structure Runner where
  /-- the bytes that have arrived and have not been read -/
  incoming : List UInt8
  /-- the packets handed to `stream.write`, with the number of the request answered -/
  written : List (ℕ × List UInt8)
  /-- `stream.closed()` -/
  closed : Bool
  /-- `connection_information.timestamp` -/
  timestamp : ℤ
  /-- `connection_information.stream_closed` -/
  streamClosed : Bool
  pc : RunPc
  currentConcurrency : ℕ
  /-- the requests invoked so far -/
  invocations : List Invocation

namespace Runner

/-- `read_condition.notify_all()` -/
def notifyAll (s : Runner) : Runner :=
  match s.pc with
  | .waiting => { s with pc := .woken }
  | _ => s

/-! ## `_invoke` -/

/-- `method(*args, **kwargs)`, as far as the call itself goes. -/
def call (S : PyVal.SpecialMethods) (args kwargs : PyVal) : Except Exc Unit := do
  let _ ← args.star S
  let _ ← kwargs.starStar S

/-- `pool.submit(method, *args, **kwargs)`; `refused` is what `submit` raises. -/
def submit (S : PyVal.SpecialMethods) (refused : Option Exc) (args kwargs : PyVal) :
    Except Exc Unit := do
  call S args kwargs
  match refused with
  | some ex => .error ex
  | none => .ok ()

/-- `_invoke`, when the method is exported: a future that is not resolved (`none`), or
one that holds an exception. -/
def startFound (cfg : RunnerConfig) (refused : Option Exc) (method : Method)
    (args kwargs : PyVal) : Except Exc (Option PyVal) :=
  if method.isCoroutine then (call cfg.special args kwargs).map fun _ => none
  else if method.runInSubprocess = some true ∧ cfg.processPool then
    match submit cfg.special refused args kwargs with
    | .ok _ => .ok none
    | .error ex => .ok (some (.baseError .submitTaskToProcessPoolError (.str (bytes ex.msg))))
  else if cfg.threadPool then (submit cfg.special refused args kwargs).map fun _ => none
  else .ok (some (.baseError .concurrencyError (.str (bytes "no thread pool is specified"))))

/-- `_invoke`, when the method is not exported. -/
def startMissing (cfg : RunnerConfig) (className methodName : PyVal) :
    Except Exc (Option PyVal) := do
  let msg ← PyVal.format cfg.special "the requested method:(" ", " ") is not exported"
    className methodName
  return some (.baseError .lookupMethodError msg)

/-- `_invoke`, up to the future. -/
def startMethod (cfg : RunnerConfig) (refused : Option Exc)
    (className methodName args kwargs : PyVal) : Except Exc (Option PyVal) := do
  match ← cfg.exporter.getMethod cfg.special className methodName with
  | none => startMissing cfg className methodName
  | some method => startFound cfg refused method args kwargs

/-- `_invoke`: the state it leaves, and the exception that escapes from it. -/
def invoke (cfg : RunnerConfig) (refused : Option Exc) (request : Request) (transactionId : ℕ)
    (s : Runner) : Except Exc Unit × Runner :=
  let started : Except Exc (Option PyVal) := do
    let className ← getattr request.className
    let methodName ← getattr request.methodName
    let args ← getattr request.args
    let kwargs ← getattr request.kwargs
    startMethod cfg refused className methodName args kwargs
  match started with
  | .error ex => (.error ex, s)
  | .ok failed =>
    let s := { s with currentConcurrency := s.currentConcurrency + 1 }
    match getattr request.meta with
    | .error ex => (.error ex, s)
    | .ok «meta» =>
      (.ok (), { s with
        invocations := s.invocations ++
          [{ request := request
             transactionId := transactionId
             «meta» := «meta»
             failed := failed
             pc := .running
             outcome := none }] })

/-! ## `_run` -/

/-- The `while` loop, up to its next suspension. -/
def loop (cfg : RunnerConfig) (now : ℤ) (s : Runner) : Runner :=
  if s.streamClosed || s.closed then { s with pc := .terminated }
  else if cfg.concurrentRequestPerConnection ≤ s.currentConcurrency then { s with pc := .waiting }
  else { s with timestamp := now, pc := .reading }

/-- The `except` clauses: two of them close the stream, and an exception of another
class escapes. All end the coroutine. -/
def handle (ex : Exc) (now : ℤ) (s : Runner) : Runner :=
  if ex.cls.isA .unsatisfiableReadError then
    { s with closed := true, timestamp := now, pc := .terminated }
  else if ex.cls.isA .streamClosedError then { s with timestamp := now, pc := .terminated }
  else if ex.cls.isA .deserializationError then
    { s with closed := true, timestamp := now, pc := .terminated }
  else { s with timestamp := now, pc := .terminated }

/-- The rest of an iteration, from a request. -/
def handOver (cfg : RunnerConfig) (refused : Option Exc) (request : Request) (transactionId : ℕ)
    (now : ℤ) (s : Runner) : Runner :=
  match invoke cfg refused request transactionId { s with timestamp := now } with
  | (.ok _, s) => s.loop cfg now
  | (.error _, s) => { s with pc := .terminated }

/-- The rest of an iteration, from the packet read. -/
def received (cfg : RunnerConfig) (refused : Option Exc) (transactionId : ℕ)
    (buff : Option (List UInt8)) (now : ℤ) (s : Runner) : Runner :=
  match cfg.serializer.loads buff with
  | .error ex => s.handle ex now
  | .ok (.request request) => s.handOver cfg refused request transactionId now
  | .ok _ => { s with closed := true, timestamp := now, pc := .terminated }

/-- The read coroutine ends. A read that goes over a limit of the stream closes it. -/
def readDone (cfg : RunnerConfig) (refused : Option Exc) (now : ℤ) (s : Runner) : Runner :=
  match cfg.transport.read s.incoming with
  | .ok (transactionId, buff) rest =>
      { s with incoming := rest }.received cfg refused transactionId buff now
  | .needMore => s
  | .raised ex =>
      { s with closed := s.closed || ex.cls.isA .streamClosedError }.handle ex now

/-! ## `_send_response` -/

/-- The `finally` clause. -/
def finish (i : ℕ) (inv : Invocation) (now : ℤ) (s : Runner) : Runner :=
  { s with
    currentConcurrency := s.currentConcurrency - 1
    timestamp := now
    invocations := s.invocations.set i { inv with pc := .finished } }.notifyAll

/-- The `Result` for what the future was resolved with. -/
def toResult («meta» : PyVal) (outcome : Except PyVal PyVal) : Result :=
  match outcome with
  | .ok value => { Result.new with «meta» := some «meta», result := some value }
  | .error ex =>
      { Result.new with «meta» := some «meta», exc := some (.baseError .methodExecutionError ex) }

/-- The packet that answers a request. -/
def response (cfg : RunnerConfig) («meta» : PyVal) (transactionId : ℕ)
    (outcome : Except PyVal PyVal) : Except Exc (List UInt8) := do
  let buff ← cfg.serializer.dumps (.result (toResult «meta» outcome))
  cfg.transport.generatePacket transactionId buff

/-- `_send_response`, up to its suspension in `transport.write`. The server gives its streams no
`max_write_buffer_size`, so that `stream.write` never raises `StreamBufferFullError`. -/
def respond (cfg : RunnerConfig) (i : ℕ) (inv : Invocation) (outcome : Except PyVal PyVal)
    (now : ℤ) (s : Runner) : Runner :=
  if s.streamClosed then { s with invocations := s.invocations.set i { inv with pc := .dropped } }
  else
    match response cfg inv.meta inv.transactionId outcome with
    | .error _ => s.finish i inv now
    | .ok data =>
      -- `StreamClosedError`
      if s.closed then s.finish i inv now
      else
        { s with
          timestamp := now
          written := s.written ++ [(i, data)]
          invocations := s.invocations.set i { inv with pc := .writing } }

/-- The future of request `i` is resolved, and calls `_send_response`. -/
def resolve (cfg : RunnerConfig) (i : ℕ) (outcome : Except PyVal PyVal) (now : ℤ) (s : Runner) :
    Runner :=
  match s.invocations[i]? with
  | some inv => s.respond cfg i { inv with outcome := some outcome } outcome now
  | none => s

/-- The rest of `_send_response`. -/
def flush (i : ℕ) (now : ℤ) (s : Runner) : Runner :=
  match s.invocations[i]? with
  | some inv => s.finish i inv now
  | none => s

/-! ## The system -/

/-- The steps. -/
inductive Label where
  | arrive (bs : List UInt8)
  /-- the peer closes the connection, or it breaks -/
  | peerClose
  | readDone (refused : Option Exc) (now : ℤ)
  /-- a read on a closed stream raises -/
  | readFail (ex : Exc) (now : ℤ)
  /-- the coroutine resumes after `read_condition.wait()` -/
  | wake (now : ℤ)
  /-- the future of a request is resolved, and its callback runs -/
  | respond (i : ℕ) (outcome : Except PyVal PyVal) (now : ℤ)
  /-- the write of a response ends -/
  | flushed (i : ℕ) (now : ℤ)
  /-- `RpcServer._on_connection_close` -/
  | onConnectionClose
  /-- the connection is found idle -/
  | closeInactive

/-- The connection when it is accepted, before `_run` starts. -/
def accepted (now : ℤ) : Runner where
  incoming := []
  written := []
  closed := false
  timestamp := now
  streamClosed := false
  pc := .waiting
  currentConcurrency := 0
  invocations := []

/-- `Runner.__init__`, which runs `_run` up to its first suspension. -/
def new (cfg : RunnerConfig) (now : ℤ) : Runner := (accepted now).loop cfg now

/-- When a step may happen. -/
def guard (cfg : RunnerConfig) (l : Label) (s : Runner) : Prop :=
  match l with
  | .arrive _ => s.closed = false
  | .peerClose => True
  | .readDone _ _ => s.pc = .reading ∧ cfg.transport.read s.incoming ≠ .needMore
  | .readFail _ _ => s.pc = .reading ∧ s.closed = true
  | .wake _ => s.pc = .woken
  | .respond i outcome _ => ∃ inv, s.invocations[i]? = some inv ∧ inv.pc = .running ∧
      ∀ ex, inv.failed = some ex → outcome = .error ex
  | .flushed i _ => ∃ inv, s.invocations[i]? = some inv ∧ inv.pc = .writing
  | .onConnectionClose => s.closed = true ∧ s.streamClosed = false
  | .closeInactive => True

/-- The state a step leads to. -/
def update (cfg : RunnerConfig) (l : Label) (s : Runner) : Runner :=
  match l with
  | .arrive bs => { s with incoming := s.incoming ++ bs }
  | .peerClose => { s with closed := true }
  | .readDone refused now => s.readDone cfg refused now
  | .readFail ex now => s.handle ex now
  | .wake now => s.loop cfg now
  | .respond i outcome now => s.resolve cfg i outcome now
  | .flushed i now => s.flush i now
  | .onConnectionClose => { s with streamClosed := true }.notifyAll
  | .closeInactive => { s with closed := true }.notifyAll

/-- A connection as a transition system. -/
def system (cfg : RunnerConfig) : Lts.Spec Runner Label where
  init := fun s => ∃ now, s = new cfg now
  guard := guard cfg
  update := update cfg

/-! ## What reading leaves alone -/

/-- The steps of `_run` write nothing and end no request; they may invoke a new one,
and close the stream. -/
structure ReadFrame (s t : Runner) : Prop where
  streamClosed : t.streamClosed = s.streamClosed
  closed : s.closed = true → t.closed = true
  written : t.written = s.written
  invocations : t.invocations = s.invocations ∨
    ∃ inv, inv.pc = .running ∧ t.invocations = s.invocations ++ [inv]

theorem ReadFrame.refl (s : Runner) : ReadFrame s s := ⟨rfl, id, rfl, Or.inl rfl⟩

/-- A second part that invokes nothing. -/
theorem ReadFrame.trans {s t u : Runner} (h : ReadFrame s t) (hstream : u.streamClosed = t.streamClosed)
    (hclosed : t.closed = true → u.closed = true) (hwritten : u.written = t.written)
    (hinv : u.invocations = t.invocations) : ReadFrame s u where
  streamClosed := hstream.trans h.streamClosed
  closed := fun hs => hclosed (h.closed hs)
  written := hwritten.trans h.written
  invocations := by
    rw [hinv]
    exact h.invocations

theorem loop_frame (cfg : RunnerConfig) (now : ℤ) {s t : Runner} (h : ReadFrame s t) :
    ReadFrame s (t.loop cfg now) := by
  unfold loop
  split
  · exact h.trans rfl id rfl rfl
  · split
    · exact h.trans rfl id rfl rfl
    · exact h.trans rfl id rfl rfl

theorem handle_frame (ex : Exc) (now : ℤ) {s t : Runner} (h : ReadFrame s t) :
    ReadFrame s (t.handle ex now) := by
  unfold handle
  split
  · exact h.trans rfl (fun _ => rfl) rfl rfl
  · split
    · exact h.trans rfl id rfl rfl
    · split
      · exact h.trans rfl (fun _ => rfl) rfl rfl
      · exact h.trans rfl id rfl rfl

theorem invoke_frame (cfg : RunnerConfig) (refused : Option Exc) (request : Request)
    (transactionId : ℕ) (s : Runner) :
    ReadFrame s (invoke cfg refused request transactionId s).2 := by
  unfold invoke
  simp only
  split
  · exact ReadFrame.refl s
  · split
    · exact (ReadFrame.refl s).trans rfl id rfl rfl
    · exact ⟨rfl, id, rfl, Or.inr ⟨_, rfl, rfl⟩⟩

theorem handOver_frame (cfg : RunnerConfig) (refused : Option Exc) (request : Request)
    (transactionId : ℕ) (now : ℤ) (s : Runner) :
    ReadFrame s (s.handOver cfg refused request transactionId now) := by
  have h := invoke_frame cfg refused request transactionId { s with timestamp := now }
  unfold handOver
  split
  · rename_i hinvoke
    rw [hinvoke] at h
    exact loop_frame cfg now ⟨h.streamClosed, h.closed, h.written, h.invocations⟩
  · rename_i hinvoke
    rw [hinvoke] at h
    exact ⟨h.streamClosed, h.closed, h.written, h.invocations⟩

theorem readDone_frame (cfg : RunnerConfig) (refused : Option Exc) (now : ℤ) (s : Runner) :
    ReadFrame s (s.readDone cfg refused now) := by
  unfold readDone
  split
  · rename_i transactionId buff rest hread
    unfold received
    split
    · exact handle_frame _ now ((ReadFrame.refl s).trans rfl id rfl rfl)
    · rename_i request hloads
      have h := handOver_frame cfg refused request transactionId now { s with incoming := rest }
      exact ⟨h.streamClosed, h.closed, h.written, h.invocations⟩
    · exact (ReadFrame.refl s).trans rfl (fun _ => rfl) rfl rfl
  · exact ReadFrame.refl s
  · rename_i ex hread
    apply handle_frame
    refine (ReadFrame.refl s).trans rfl ?_ rfl rfl
    intro hclosed
    show (s.closed || ex.cls.isA .streamClosedError) = true
    rw [hclosed]
    rfl

/-! ## The flags of the stream -/

theorem notifyAll_frame (s : Runner) : s.notifyAll.closed = s.closed ∧
    s.notifyAll.streamClosed = s.streamClosed ∧ s.notifyAll.written = s.written ∧
    s.notifyAll.invocations = s.invocations ∧ (s.notifyAll.pc = .terminated ↔ s.pc = .terminated) := by
  unfold notifyAll
  cases hpc : s.pc <;> simp [hpc]

@[simp] theorem timestamp_notifyAll (s : Runner) : s.notifyAll.timestamp = s.timestamp := by
  unfold notifyAll
  split <;> rfl

theorem finish_frame (i : ℕ) (inv : Invocation) (now : ℤ) (s : Runner) :
    (s.finish i inv now).closed = s.closed ∧ (s.finish i inv now).streamClosed = s.streamClosed ∧
      (s.finish i inv now).written = s.written ∧
      (s.finish i inv now).invocations = s.invocations.set i { inv with pc := .finished } ∧
      ((s.finish i inv now).pc = .terminated ↔ s.pc = .terminated) :=
  notifyAll_frame _

/-- `_send_response` closes nothing and ends no `_run`. -/
theorem respond_frame (cfg : RunnerConfig) (i : ℕ) (inv : Invocation)
    (outcome : Except PyVal PyVal) (now : ℤ) (s : Runner) :
    (s.respond cfg i inv outcome now).closed = s.closed ∧
      (s.respond cfg i inv outcome now).streamClosed = s.streamClosed ∧
      ((s.respond cfg i inv outcome now).pc = .terminated ↔ s.pc = .terminated) := by
  have hfinish := finish_frame i inv now s
  unfold respond
  split
  · exact ⟨rfl, rfl, Iff.rfl⟩
  · split
    · exact ⟨hfinish.1, hfinish.2.1, hfinish.2.2.2.2⟩
    · split
      · exact ⟨hfinish.1, hfinish.2.1, hfinish.2.2.2.2⟩
      · exact ⟨rfl, rfl, Iff.rfl⟩

theorem resolve_frame (cfg : RunnerConfig) (i : ℕ) (outcome : Except PyVal PyVal) (now : ℤ)
    (s : Runner) :
    (s.resolve cfg i outcome now).closed = s.closed ∧
      (s.resolve cfg i outcome now).streamClosed = s.streamClosed ∧
      ((s.resolve cfg i outcome now).pc = .terminated ↔ s.pc = .terminated) := by
  unfold resolve
  split
  · exact respond_frame cfg i _ outcome now s
  · exact ⟨rfl, rfl, Iff.rfl⟩

theorem flush_frame (i : ℕ) (now : ℤ) (s : Runner) : (s.flush i now).closed = s.closed ∧
    (s.flush i now).streamClosed = s.streamClosed ∧
    ((s.flush i now).pc = .terminated ↔ s.pc = .terminated) := by
  unfold flush
  split
  · have h := finish_frame i
    exact ⟨(h _ now s).1, (h _ now s).2.1, (h _ now s).2.2.2.2⟩
  · exact ⟨rfl, rfl, Iff.rfl⟩

/-- A stream stays closed. -/
theorem closed_update (cfg : RunnerConfig) (l : Label) {s : Runner} (h : s.closed = true) :
    (update cfg l s).closed = true := by
  cases l with
  | arrive bs => exact h
  | peerClose => rfl
  | readDone refused now => exact (readDone_frame cfg refused now s).closed h
  | readFail ex now => exact (handle_frame ex now (ReadFrame.refl s)).closed h
  | wake now => exact (loop_frame cfg now (ReadFrame.refl s)).closed h
  | respond i outcome now => exact (resolve_frame cfg i outcome now s).1.trans h
  | flushed i now => exact (flush_frame i now s).1.trans h
  | onConnectionClose => exact (notifyAll_frame { s with streamClosed := true }).1.trans h
  | closeInactive => exact (notifyAll_frame { s with closed := true }).1

/-- The flag is set by the close callback only. -/
theorem streamClosed_update (cfg : RunnerConfig) {l : Label} {s : Runner} (hg : guard cfg l s)
    (h : (update cfg l s).streamClosed = true) : s.streamClosed = true ∨ s.closed = true := by
  cases l with
  | arrive bs => exact Or.inl h
  | peerClose => exact Or.inl h
  | readDone refused now => exact Or.inl ((readDone_frame cfg refused now s).streamClosed.symm.trans h)
  | readFail ex now =>
      exact Or.inl ((handle_frame ex now (ReadFrame.refl s)).streamClosed.symm.trans h)
  | wake now => exact Or.inl ((loop_frame cfg now (ReadFrame.refl s)).streamClosed.symm.trans h)
  | respond i outcome now =>
      exact Or.inl ((resolve_frame cfg i outcome now s).2.1.symm.trans h)
  | flushed i now => exact Or.inl ((flush_frame i now s).2.1.symm.trans h)
  | onConnectionClose => exact Or.inr hg.1
  | closeInactive =>
      exact Or.inl ((notifyAll_frame { s with closed := true }).2.1.symm.trans h)

/-- The stream of a connection that is known to be closed is closed. -/
theorem closed_of_streamClosed (cfg : RunnerConfig) :
    ∀ s, (system cfg).Reachable s → s.streamClosed = true → s.closed = true := by
  apply Lts.Spec.invariant
  · intro s hs h
    rcases hs with ⟨now, rfl⟩
    have hframe := loop_frame cfg now (ReadFrame.refl (accepted now))
    exact absurd (hframe.streamClosed.symm.trans h) Bool.false_ne_true
  · intro l s hg ih h
    rcases streamClosed_update cfg hg h with hs | hs
    · exact closed_update cfg l (ih hs)
    · exact closed_update cfg l hs

end Runner

end SummerRpc
