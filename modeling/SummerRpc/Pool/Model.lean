import SummerRpc.Lib.Transition
import SummerRpc.Exception
import SummerRpc.Helper.Iterator
import SummerRpc.Helper.LRUCache
import Mathlib.Algebra.BigOperators.Group.List.Basic
import Mathlib.Data.List.Perm.Basic

/-! # The connection pools

`LRUConnectionPool` of `connection_pool.py`: an LRU cache from keys to containers
of connections, with the container left to the two subclasses. Any number of
threads call `get_connection`, `release_connection` and `close`.

* `ContainerClass`: the methods a subclass defines, `dedicate` and `shared` its two
  instances;
* `Call`: a call under way, by what it is about to do;
* `Label`, `guard`, `update`: the steps. The factory's answers, and the moments at
  which connections become closed, are inputs.

Calls have no names: a step takes one that is where the label says.
-/

namespace SummerRpc

namespace LRUConnectionPool

/-! ## Containers -/

/-- What `_choice_connection_from_container` finds: a connection, with the
container it leaves, nothing to take, or an exception. -/
inductive Choice (γ : Type) where
  | got (connection : ℕ) (container : γ)
  | empty
  | raised (ex : Exc)

/-- There is nothing to take. -/
def Choice.isEmpty {γ : Type} : Choice γ → Bool
  | .empty => true
  | _ => false

/-- The methods of a subclass. -/
structure ContainerClass (γ : Type) where
  getConnectionContainer : γ
  addConnectionToContainer : γ → ℕ → γ
  /-- the connections closed, and the container left -/
  closeConnections : γ → List ℕ × γ
  choiceConnectionFromContainer : γ → Choice γ
  removeConnectionFromContainer : γ → ℕ → γ
  releaseConnectionToContainer : γ → ℕ → γ
  /-- the connections in a container -/
  connections : γ → List ℕ
  /-- a connection chosen from a container leaves it -/
  exclusive : Bool

/-- `DedicateLRUConnectionPool`, over a `Queue`: taken from the front, put at the
end. -/
def dedicate : ContainerClass (List ℕ) where
  getConnectionContainer := []
  addConnectionToContainer := fun q connection => q ++ [connection]
  closeConnections := fun q => (q, [])
  choiceConnectionFromContainer := fun q =>
    match q with
    | [] => .empty
    | connection :: rest => .got connection rest
  removeConnectionFromContainer := fun q _ => q
  releaseConnectionToContainer := fun q connection => q ++ [connection]
  connections := fun q => q
  exclusive := true

/-- `SharedLRUConnectionPool._close_connections`, the loop: each round closes the
next element and removes it. -/
def closeLoop : ℕ → Iterator ℕ → List ℕ × Iterator ℕ
  | 0, it => ([], it)
  | rounds + 1, it =>
    if it.hasNext then
      let rest := closeLoop rounds it.next.2.remove.2
      (it.next.1.toList ++ rest.1, rest.2)
    else ([], it)

/-- `SharedLRUConnectionPool`, over a `CyclicIterator`. -/
def shared : ContainerClass (Iterator ℕ) where
  getConnectionContainer := Iterator.new []
  addConnectionToContainer := fun it connection => it.append connection
  closeConnections := fun it => closeLoop it.size it.rewind
  choiceConnectionFromContainer := fun it =>
    if it.cyclicHasNext.1 then
      match it.cyclicHasNext.2.next with
      | (some connection, it') => .got connection it'
      | (none, _) => .raised { cls := .indexError, msg := "list index out of range" }
    else .raised { cls := .runtimeError, msg := "invalid connections_per_key" }
  removeConnectionFromContainer := fun it connection => (it.removeElement connection).getD it
  releaseConnectionToContainer := fun it _ => it
  connections := fun it => it.it
  exclusive := false

/-! ## The pool -/

/-- The arguments `block` and `timeout` of `get_connection`. A timeout is not negative:
`Queue.get` takes no other, and raises `ValueError` before it looks at the queue. -/
structure Wait where
  block : Bool
  timeout : Option ℕ
deriving DecidableEq, Repr

/-- A call under way. -/
inductive Call (κ : Type) where
  /-- `get_connection`, before the pool's lock -/
  | get (key : κ) (wait : Wait)
  /-- choosing from the container -/
  | choose (key : κ) (wait : Wait) (container : ℕ)
  /-- about to test a connection chosen -/
  | inspect (key : κ) (wait : Wait) (container connection : ℕ)
  /-- a closed connection has been removed, the factory is being called -/
  | replace (key : κ) (wait : Wait) (container : ℕ)
  /-- `release_connection`, before the pool's lock -/
  | release (key : κ) (connection : ℕ)
  /-- about to give the connection back to the container -/
  | put (key : κ) (container connection : ℕ)
deriving DecidableEq, Repr

/-- `_create_connections_if_necessary`, holding the lock: a container that is being
filled, with the number of factory calls still to come. -/
structure Creating (κ : Type) where
  key : κ
  wait : Wait
  container : ℕ
  left : ℕ
deriving DecidableEq, Repr

end LRUConnectionPool

/-- The state of a pool and of the calls under way. -/
structure LRUConnectionPool (κ γ : Type) [PyHash κ] where
  pool : LRUCache κ ℕ
  /-- the containers made so far; the cache and the calls hold their numbers -/
  containers : ℕ → γ
  containerCount : ℕ
  closed : Bool
  /-- the call that holds the lock from one step to the next -/
  lock : Option (LRUConnectionPool.Creating κ)
  calls : List (LRUConnectionPool.Call κ)
  /-- `connection.closing or connection.closed` -/
  dead : ℕ → Bool
  /-- the connections obtained and not released, with the key of the call -/
  held : List (κ × ℕ)
  /-- history: what each call of `get_connection` returned or raised -/
  results : List (κ × Except Exc ℕ)

namespace LRUConnectionPool

variable {κ γ : Type} [PyHash κ]

/-- A pool without keys. -/
def new (P : ContainerClass γ) (connectionPoolSize : Option ℕ) (dead : ℕ → Bool) :
    LRUConnectionPool κ γ where
  pool := LRUCache.new connectionPoolSize
  containers := fun _ => P.getConnectionContainer
  containerCount := 0
  closed := false
  lock := none
  calls := []
  dead := dead
  held := []
  results := []

/-- The steps. -/
inductive Label (κ : Type) where
  | getStart (key : κ) (wait : Wait)
  /-- the lookup under the lock -/
  | lookup (key : κ) (wait : Wait)
  /-- a call of the factory while a container is filled -/
  | create (k : Creating κ) (made : Except Exc ℕ)
  /-- the filled container is stored -/
  | register (k : Creating κ)
  | choose (key : κ) (wait : Wait) (container : ℕ)
  /-- `Empty`: the call does not block, or its timeout is over -/
  | giveUp (key : κ) (wait : Wait) (container : ℕ)
  | inspect (key : κ) (wait : Wait) (container connection : ℕ)
  /-- a call of the factory for a removed connection -/
  | replace (key : κ) (wait : Wait) (container : ℕ) (made : Except Exc ℕ)
  | releaseStart (key : κ) (connection : ℕ)
  | release (key : κ) (connection : ℕ)
  | put (key : κ) (container connection : ℕ)
  | close
  /-- a connection becomes closed -/
  | die (connection : ℕ)

/-- `CreateConnectionError` -/
def createConnectionError : Exc := { cls := .createConnectionError }

/-- The call `c` goes on as `c'`. -/
def goOn [DecidableEq κ] (s : LRUConnectionPool κ γ) (c c' : Call κ) : LRUConnectionPool κ γ :=
  { s with calls := c' :: s.calls.erase c }

/-- The call `c` returns. -/
def leave [DecidableEq κ] (s : LRUConnectionPool κ γ) (c : Call κ) : LRUConnectionPool κ γ :=
  { s with calls := s.calls.erase c }

/-- The call `c` of `get_connection` raises. -/
def raise [DecidableEq κ] (s : LRUConnectionPool κ γ) (c : Call κ) (key : κ) (ex : Exc) :
    LRUConnectionPool κ γ :=
  { s with calls := s.calls.erase c, results := s.results ++ [(key, .error ex)] }

/-- A container is replaced by what an operation made of it. -/
def setContainer (s : LRUConnectionPool κ γ) (c : ℕ) (container : γ) : LRUConnectionPool κ γ :=
  { s with containers := Function.update s.containers c container }

/-- `connection.close()` of each. -/
def closeAll (s : LRUConnectionPool κ γ) (connections : List ℕ) : LRUConnectionPool κ γ :=
  { s with dead := fun n => s.dead n || connections.contains n }

/-- `_close_connections` of the container with that number. -/
def closeContainer (P : ContainerClass γ) (s : LRUConnectionPool κ γ) (c : ℕ) :
    LRUConnectionPool κ γ :=
  (s.setContainer c (P.closeConnections (s.containers c)).2).closeAll
    (P.closeConnections (s.containers c)).1

/-- When a step may happen. -/
def guard (P : ContainerClass γ) (l : Label κ) (s : LRUConnectionPool κ γ) : Prop :=
  match l with
  | .getStart _ _ => True
  | .lookup key wait => .get key wait ∈ s.calls ∧ s.lock = none
  | .create k _ => s.lock = some k ∧ 0 < k.left
  | .register k => s.lock = some k ∧ k.left = 0
  -- an empty `Queue` makes the call wait
  | .choose key wait c => .choose key wait c ∈ s.calls ∧
      (P.choiceConnectionFromContainer (s.containers c)).isEmpty = false
  | .giveUp key wait c => .choose key wait c ∈ s.calls ∧
      (P.choiceConnectionFromContainer (s.containers c)).isEmpty = true ∧
      (wait.block = false ∨ wait.timeout.isSome = true)
  | .inspect key wait c connection => .inspect key wait c connection ∈ s.calls
  | .replace key wait c _ => .replace key wait c ∈ s.calls
  | .releaseStart _ _ => True
  | .release key connection => .release key connection ∈ s.calls ∧ s.lock = none
  | .put key c connection => .put key c connection ∈ s.calls
  | .close => s.lock = none
  | .die _ => True

variable [DecidableEq κ]

/-- `_create_connections_if_necessary` under the lock, up to the first factory call. -/
def doLookup (P : ContainerClass γ) (connectionsPerKey : ℕ) (s : LRUConnectionPool κ γ) (key : κ)
    (wait : Wait) : LRUConnectionPool κ γ :=
  if s.closed then s.raise (.get key wait) key { cls := .connectionPoolAlreadyClosedError }
  else
    match s.pool.getItem key with
    | some (c, pool) => { s with pool := pool }.goOn (.get key wait) (.choose key wait c)
    | none =>
        { s with
          containers := Function.update s.containers s.containerCount P.getConnectionContainer
          containerCount := s.containerCount + 1
          lock := some ⟨key, wait, s.containerCount, connectionsPerKey⟩
        }.leave (.get key wait)

/-- `_initialize_connections`, one round. -/
def doCreate (P : ContainerClass γ) (s : LRUConnectionPool κ γ) (k : Creating κ)
    (made : Except Exc ℕ) : LRUConnectionPool κ γ :=
  match made with
  | .error _ =>
      { s with lock := none, results := s.results ++ [(k.key, .error createConnectionError)] }
  | .ok connection =>
      { s with lock := some { k with left := k.left - 1 } }.setContainer k.container
        (P.addConnectionToContainer (s.containers k.container) connection)

/-- The connections of the entry about to be kicked out are closed. -/
def closeKickedOut (P : ContainerClass γ) (s : LRUConnectionPool κ γ) : LRUConnectionPool κ γ :=
  match s.pool.willBeKickedOut with
  | some entry => s.closeContainer P entry.value
  | none => s

/-- `_create_connections_if_necessary`, the end of it. -/
def doRegister (P : ContainerClass γ) (s : LRUConnectionPool κ γ) (k : Creating κ) :
    LRUConnectionPool κ γ :=
  { s.closeKickedOut P with
    pool := s.pool.setItem k.key k.container
    lock := none
    calls := .choose k.key k.wait k.container :: s.calls }

/-- `_choice_connection_from_container` -/
def doChoose (P : ContainerClass γ) (s : LRUConnectionPool κ γ) (key : κ) (wait : Wait) (c : ℕ) :
    LRUConnectionPool κ γ :=
  match P.choiceConnectionFromContainer (s.containers c) with
  | .got connection container =>
      (s.setContainer c container).goOn (.choose key wait c) (.inspect key wait c connection)
  | .empty => s
  | .raised ex => s.raise (.choose key wait c) key ex

/-- `get_connection`, the test of the connection chosen. -/
def doInspect (P : ContainerClass γ) (s : LRUConnectionPool κ γ) (key : κ) (wait : Wait)
    (c connection : ℕ) : LRUConnectionPool κ γ :=
  if s.dead connection then
    (s.setContainer c (P.removeConnectionFromContainer (s.containers c) connection)).goOn
      (.inspect key wait c connection) (.replace key wait c)
  else
    { s with
      held := (key, connection) :: s.held
      results := s.results ++ [(key, Except.ok connection)] }.leave (.inspect key wait c connection)

/-- `get_connection`, the call of the factory for a connection removed. -/
def doReplace (P : ContainerClass γ) (s : LRUConnectionPool κ γ) (key : κ) (wait : Wait) (c : ℕ)
    (made : Except Exc ℕ) : LRUConnectionPool κ γ :=
  match made with
  | .error _ => s.raise (.replace key wait c) key createConnectionError
  | .ok connection =>
      (s.setContainer c (P.addConnectionToContainer (s.containers c) connection)).goOn
        (.replace key wait c) (.choose key wait c)

/-- `release_connection` under the lock. -/
def doRelease (s : LRUConnectionPool κ γ) (key : κ) (connection : ℕ) : LRUConnectionPool κ γ :=
  if s.closed then
    { s with held := s.held.erase (key, connection) }.leave (.release key connection)
  else
    match s.pool.getItem key with
    | some (c, pool) => { s with pool := pool }.goOn (.release key connection) (.put key c connection)
    | none => { s with held := s.held.erase (key, connection) }.leave (.release key connection)

/-- `_release_connection_to_container` -/
def doPut (P : ContainerClass γ) (s : LRUConnectionPool κ γ) (key : κ) (c connection : ℕ) :
    LRUConnectionPool κ γ :=
  ({ s with held := s.held.erase (key, connection) }.setContainer c
    (P.releaseConnectionToContainer (s.containers c) connection)).leave (.put key c connection)

/-- `close` -/
def doClose (P : ContainerClass γ) (s : LRUConnectionPool κ γ) : LRUConnectionPool κ γ :=
  if s.closed then s
  else
    { s.pool.iteritems.foldl (fun s item => s.closeContainer P item.2) s with closed := true }

/-- The state a step leads to. -/
def update (P : ContainerClass γ) (connectionsPerKey : ℕ) (l : Label κ)
    (s : LRUConnectionPool κ γ) : LRUConnectionPool κ γ :=
  match l with
  | .getStart key wait => { s with calls := .get key wait :: s.calls }
  | .lookup key wait => s.doLookup P connectionsPerKey key wait
  | .create k made => s.doCreate P k made
  | .register k => s.doRegister P k
  | .choose key wait c => s.doChoose P key wait c
  | .giveUp key wait c =>
      s.raise (.choose key wait c) key { cls := .noAvailableConnectionError }
  | .inspect key wait c connection => s.doInspect P key wait c connection
  | .replace key wait c made => s.doReplace P key wait c made
  | .releaseStart key connection => { s with calls := .release key connection :: s.calls }
  | .release key connection => s.doRelease key connection
  | .put key c connection => s.doPut P key c connection
  | .close => s.doClose P
  | .die connection => s.closeAll [connection]

/-- A pool as a transition system. Which connections are closed to begin with does
not matter. -/
def system (P : ContainerClass γ) (connectionPoolSize : Option ℕ) (connectionsPerKey : ℕ) :
    Lts.Spec (LRUConnectionPool κ γ) (Label κ) where
  init := fun s => ∃ dead, s = new P connectionPoolSize dead
  guard := guard P
  update := update P connectionsPerKey

instance (P : ContainerClass γ) (connectionPoolSize : Option ℕ) (connectionsPerKey : ℕ)
    (l : Label κ) (s : LRUConnectionPool κ γ) :
    Decidable ((system P connectionPoolSize connectionsPerKey).guard l s) := by
  cases l <;> (simp only [system, guard]; infer_instance)

end LRUConnectionPool

end SummerRpc
