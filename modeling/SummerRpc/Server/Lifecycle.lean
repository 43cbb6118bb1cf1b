import Mathlib.Logic.Function.Basic
import SummerRpc.Lib.Transition

/-! # Starting and closing a server

`start` and `close` of `RpcServer`, called from any threads. Every flag is read and written on
its own, so calls are interleaved at any of these points. `change_status` is run by the event
loop; when that runs it, and when `ioloop.start()` returns or raises, is left open.

* `State.step`, `State.fail`: what a call does next, and what is left when that raises;
* `State.changeStatus`: the callback;
* `system`: the calls, each of them whenever its turn comes;
* `recorded`: the same, with a record of whether anything has gone wrong.
-/

namespace SummerRpc

namespace Lifecycle

/-! ## The calls -/

/-- `_starting`, `_started`, `_closing` and `_closed` -/
inductive Flag where
  | starting
  | started
  | closing
  | closed
deriving DecidableEq, Repr

/-- What `can_start` reads, and the values with which it goes on. -/
def canStart : List (Flag × Bool) := [(.starting, false), (.started, false), (.closing, false)]

/-- What `can_close` reads, and the values with which it goes on. -/
def canClose : List (Flag × Bool) :=
  [(.started, true), (.starting, false), (.closing, false), (.closed, false)]

/-- What a call is about. -/
inductive Op where
  | start
  | close
  /-- the `_close_if_necessary` at the end of `start` -/
  | cleanup
deriving DecidableEq, Repr

def Op.check : Op → List (Flag × Bool)
  | start => canStart
  | close | cleanup => canClose

/-- The flags that are written once the lock is held and the check is passed. -/
def Op.writes : Op → List (Flag × Bool)
  | start => [(.starting, true), (.started, false), (.closed, false)]
  | close | cleanup => [(.closing, true), (.closed, false)]

/-- What `start` does between its flags and `ioloop.start()`. -/
inductive Setup where
  | threadPool
  | processPool
  | addHandler
  | callLater
  | register
  | addCallback
deriving DecidableEq, Repr

def setup : List Setup :=
  [.threadPool, .processPool, .addHandler, .callLater, .register, .addCallback]

/-- What `_close_if_necessary` does between its flags. -/
inductive Release where
  | registry
  | ioloop
  | threadPool
  | processPool
deriving DecidableEq, Repr

def releases : List Release := [.registry, .ioloop, .threadPool, .processPool]

/-- The last writes of `_close_if_necessary`. -/
def lastWrites : List (Flag × Bool) :=
  [(.closed, true), (.closing, false), (.started, false), (.starting, false)]

/-- `change_status` -/
def changeStatus : List (Flag × Bool) := [(.started, true), (.starting, false)]

/-- Where a call is, with what is left of the list it works off there. -/
inductive Pc where
  | idle
  /-- the check before the lock -/
  | check (op : Op) (reads : List (Flag × Bool))
  /-- before `with self._start_stop_lock` -/
  | wait (op : Op)
  /-- the check under the lock -/
  | recheck (op : Op) (reads : List (Flag × Bool))
  | write (op : Op) (writes : List (Flag × Bool))
  | setup (steps : List Setup)
  /-- in `ioloop.start()` -/
  | looping
  | release (op : Op) (steps : List Release)
  | finish (op : Op) (writes : List (Flag × Bool))
  /-- before `ioloop.close` -/
  | closeLoop
deriving DecidableEq, Repr

/-- The call returns; `start` goes on behind its cleanup. -/
def Op.after : Op → Pc
  | start | close => .idle
  | cleanup => .closeLoop

/-- The pool sizes of a server. -/
structure Config where
  threadPoolSize : Option ℕ
  processPoolSize : Option ℕ

/-- A server, and where its calls are. -/
structure State (τ : Type) where
  flags : Flag → Bool := fun _ => false
  /-- the holder of `_start_stop_lock` -/
  lock : Option τ := none
  pc : τ → Pc := fun _ => .idle
  threadPool : Option ℕ := none
  processPool : Option ℕ := none
  /-- there is a registry -/
  registry : Bool
  /-- how often `change_status` is among the callbacks of the event loop -/
  callbacks : ℕ := 0
  /-- what is left of the one it runs -/
  callback : List (Flag × Bool) := []
  loopClosed : Bool := false

variable {τ : Type}

namespace State

/-- No call is in progress, and no callback is to be run. -/
def Quiet (s : State τ) : Prop := (∀ i, s.pc i = .idle) ∧ s.callbacks = 0 ∧ s.callback = []

/-- A check, at one moment. -/
def passes (s : State τ) (reads : List (Flag × Bool)) : Bool :=
  reads.all fun read => s.flags read.1 == read.2

def set (s : State τ) (write : Flag × Bool) : State τ :=
  { s with flags := Function.update s.flags write.1 write.2 }

def unlock (s : State τ) : State τ := { s with lock := none }

/-- A step of `start`. What `add_handler`, `call_later` and `register` do no flag depends on. -/
def setUp (cfg : Config) (s : State τ) : Setup → State τ
  | .threadPool =>
    if s.threadPool.isNone then { s with threadPool := cfg.threadPoolSize } else s
  | .processPool =>
    if s.processPool.isNone then { s with processPool := cfg.processPoolSize } else s
  | .addHandler | .callLater | .register => s
  | .addCallback => if s.loopClosed then s else { s with callbacks := s.callbacks + 1 }

def release (s : State τ) : Release → State τ
  | .registry => { s with registry := false }
  | .ioloop => s
  | .threadPool => { s with threadPool := none }
  | .processPool => { s with processPool := none }

/-- `ioloop.close`: the callbacks are dropped. -/
def closeLoop (s : State τ) : State τ := { s with loopClosed := true, callbacks := 0 }

variable [DecidableEq τ]

def goto (s : State τ) (i : τ) (p : Pc) : State τ := { s with pc := Function.update s.pc i p }

/-- What a call does next. -/
def step (cfg : Config) (i : τ) (s : State τ) : State τ :=
  match s.pc i with
  | .idle => s
  | .check op [] => s.goto i (.wait op)
  | .check op (read :: reads) =>
    if s.flags read.1 = read.2 then s.goto i (.check op reads) else s.goto i op.after
  | .wait op => { s with lock := some i }.goto i (.recheck op op.check)
  | .recheck op [] => s.goto i (.write op op.writes)
  | .recheck op (read :: reads) =>
    if s.flags read.1 = read.2 then s.goto i (.recheck op reads) else s.unlock.goto i op.after
  | .write .start [] => s.unlock.goto i (.setup setup)
  | .write op [] => s.goto i (.release op releases)
  | .write op (write :: writes) => (s.set write).goto i (.write op writes)
  | .setup [] => s.goto i .looping
  | .setup (step :: steps) => (s.setUp cfg step).goto i (.setup steps)
  | .looping => s.goto i (.check .cleanup canClose)
  | .release op [] => s.goto i (.finish op lastWrites)
  | .release op (step :: steps) => (s.release step).goto i (.release op steps)
  | .finish op [] => s.unlock.goto i op.after
  | .finish op (write :: writes) => (s.set write).goto i (.finish op writes)
  | .closeLoop => s.closeLoop.goto i .idle

/-- What a call does next may raise, apart from `ioloop.start()`, which goes on the same. -/
def mayRaise (cfg : Config) (i : τ) (s : State τ) : Bool :=
  match s.pc i with
  | .setup (.threadPool :: _) => cfg.threadPoolSize.isSome && s.threadPool.isNone
  | .setup (.processPool :: _) => cfg.processPoolSize.isSome && s.processPool.isNone
  | .setup (.register :: _) => s.registry
  | .setup (_ :: _) => true
  | .release _ (.registry :: _) => s.registry
  | .release _ (.ioloop :: _) => true
  | .release _ (.threadPool :: _) => s.threadPool.isSome
  | .release _ (.processPool :: _) => s.processPool.isSome
  | .closeLoop => true
  | _ => false

/-- It has raised, and with it the call: `start` does not clean up before `ioloop.start()`, nor
does it close the loop when the cleanup has raised. A pool is forgotten before it is shut
down. -/
def fail (i : τ) (s : State τ) : State τ :=
  match s.pc i with
  | .release _ (.registry :: _) => s.unlock.goto i .idle
  | .release _ (step :: _) => (s.release step).unlock.goto i .idle
  | _ => s.goto i .idle

/-- The event loop runs `change_status`, one write at a time. -/
def changeStatus (s : State τ) : State τ :=
  match s.callback with
  | [] => { s with callbacks := s.callbacks - 1, callback := Lifecycle.changeStatus }
  | write :: writes => { s.set write with callback := writes }

end State

inductive Action (τ : Type) where
  | start (i : τ)
  | close (i : τ)
  | step (i : τ)
  | fail (i : τ)
  | changeStatus
deriving DecidableEq, Repr

/-- When it may happen. The lock is taken when it is free. -/
def guard (cfg : Config) : Action τ → State τ → Bool
  | .start i, s | .close i, s => s.pc i = .idle
  | .step i, s =>
    match s.pc i with
    | .idle => false
    | .wait _ => s.lock.isNone
    | _ => true
  | .fail i, s => s.mayRaise cfg i
  | .changeStatus, s => s.callbacks ≠ 0 || !s.callback.isEmpty

def update [DecidableEq τ] (cfg : Config) : Action τ → State τ → State τ
  | .start i, s => s.goto i (.check .start canStart)
  | .close i, s => s.goto i (.check .close canClose)
  | .step i, s => s.step cfg i
  | .fail i, s => s.fail i
  | .changeStatus, s => s.changeStatus

/-- The calls of `start` and `close`, each of them whenever its turn comes. -/
def system (τ : Type) [DecidableEq τ] (cfg : Config) : Lts.Spec (State τ) (Action τ) where
  init := fun s => ∃ registry, s = { registry }
  guard := fun a s => guard cfg a s = true
  update := update cfg

instance [DecidableEq τ] (cfg : Config) (a : Action τ) (s : State τ) :
    Decidable ((system τ cfg).guard a s) :=
  inferInstanceAs (Decidable (_ = true))

/-- Something raises before the end of `start`, or the callback is lost: the loop is closed when
it is handed over, or before it is run. -/
def breaks : Action τ → State τ → Bool
  | .fail i, s => s.pc i ≠ .closeLoop
  | .step i, s =>
    match s.pc i with
    | .setup (.addCallback :: _) => s.loopClosed
    | .closeLoop => s.callbacks ≠ 0
    | _ => false
  | _, _ => false

/-- The calls, with a record of whether anything has gone wrong. -/
def recorded (τ : Type) [DecidableEq τ] (cfg : Config) : Lts.Spec (State τ × Bool) (Action τ) :=
  (system τ cfg).withHistory (fun a s broken => broken || breaks a s) false

instance [DecidableEq τ] (cfg : Config) (a : Action τ) (p : State τ × Bool) :
    Decidable ((recorded τ cfg).guard a p) :=
  inferInstanceAs (Decidable (_ = true))

end Lifecycle

end SummerRpc
