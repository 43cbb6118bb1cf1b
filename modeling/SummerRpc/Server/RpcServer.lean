import SummerRpc.Helper.AtomicInteger
import SummerRpc.Helper.LRUCache
import SummerRpc.Server.Runner

/-! # The server

`RpcServer` (`rpc_server.py`): the connections it has accepted, the cache it keeps them
in, the close callbacks and the scan for idle connections.

* `scan`: `_close_inactive_connections`, over the readings of the clock it makes;
* `Label`, `guard`, `update`: accepts, the steps of the runners, close callbacks and
  scans, in any order.

A connection is a number, given when it is accepted; the cache maps the ids of the
connections to these numbers.
-/

namespace SummerRpc

/-- The arguments of `RpcServer` that matter here. -/
structure ServerConfig where
  runner : RunnerConfig
  maxConnections : ℕ
  maxIdleTime : ℤ

/-- The state of the server. -/
structure RpcServer where
  currentConnections : ℕ
  connectionLruCache : LRUCache ℕ ℕ
  idGenerator : AtomicInteger
  /-- the connections accepted so far -/
  connections : ℕ → Runner
  connectionCount : ℕ
  /-- the id a connection was given -/
  connectionId : ℕ → ℕ
  /-- the close callback of a connection has run -/
  closeCallbackRun : ℕ → Bool
  /-- when the next scan was scheduled, and for when -/
  scheduledAt : ℤ
  nextScan : ℤ

namespace RpcServer

/-- A server that has started to listen. -/
def new (cfg : ServerConfig) (now : ℤ) : RpcServer where
  currentConnections := 0
  connectionLruCache := LRUCache.new (some cfg.maxConnections)
  idGenerator := AtomicInteger.new 0 sysMaxint
  connections := fun _ => Runner.new cfg.runner now
  connectionCount := 0
  connectionId := fun _ => 0
  closeCallbackRun := fun _ => false
  scheduledAt := now
  nextScan := now + cfg.maxIdleTime

/-- One round of the loop of `_accept_connection`. -/
def accept (cfg : ServerConfig) (now : ℤ) (s : RpcServer) : RpcServer :=
  let (connectionId, idGenerator) := s.idGenerator.increase 1
  { s with
    currentConnections := s.currentConnections + 1
    idGenerator := idGenerator
    connectionLruCache := s.connectionLruCache.setItem connectionId s.connectionCount
    connections := Function.update s.connections s.connectionCount (Runner.new cfg.runner now)
    connectionCount := s.connectionCount + 1
    connectionId := Function.update s.connectionId s.connectionCount connectionId }

/-- A step of one connection. -/
def onConnection (cfg : ServerConfig) (n : ℕ) (l : Runner.Label) (s : RpcServer) : RpcServer :=
  { s with
    connections :=
      Function.update s.connections n (Runner.update cfg.runner l (s.connections n)) }

@[simp] theorem connections_onConnection_self (cfg : ServerConfig) (n : ℕ) (l : Runner.Label)
    (s : RpcServer) :
    (s.onConnection cfg n l).connections n = Runner.update cfg.runner l (s.connections n) :=
  Function.update_self n _ s.connections

theorem connections_onConnection_of_ne (cfg : ServerConfig) {m n : ℕ} (l : Runner.Label)
    (s : RpcServer) (h : m ≠ n) : (s.onConnection cfg n l).connections m = s.connections m :=
  Function.update_of_ne h _ s.connections

/-- `_on_connection_close`; a `KeyError` of the cache ends it. -/
def onConnectionClose (cfg : ServerConfig) (n : ℕ) (s : RpcServer) : RpcServer :=
  let s :=
    { s with
      currentConnections := s.currentConnections - 1
      closeCallbackRun := Function.update s.closeCallbackRun n true }
  match s.connectionLruCache.getItem (s.connectionId n) with
  | none => s
  | some (m, cache) =>
    let s := s.onConnection cfg m .onConnectionClose
    { s with connectionLruCache := (cache.delItem (s.connectionId n)).getD cache }

/-- The loop of `_close_inactive_connections`: the state it leaves, `when`, and the number
of the next reading of the clock. The clock reads `time i`, `time (i + 1)` and so on. -/
def scanLoop (cfg : ServerConfig) (time : ℕ → ℤ) :
    List (ℕ × ℕ) → ℕ → RpcServer → RpcServer × ℤ × ℕ
  | [], i, s => (s, cfg.maxIdleTime, i)
  | item :: items, i, s =>
    let info := s.connections item.2
    let currentTime := time i
    if currentTime - info.timestamp < cfg.maxIdleTime then
      (s, max (info.timestamp + cfg.maxIdleTime - time (i + 1)) 0, i + 2)
    else scanLoop cfg time items (i + 1) (s.onConnection cfg item.2 .closeInactive)

/-- `_close_inactive_connections`. `call_later` reads the clock once more, and counts the
delay from there. -/
def closeInactiveConnections (cfg : ServerConfig) (time : ℕ → ℤ) (s : RpcServer) : RpcServer :=
  let (s, «when», i) := scanLoop cfg time s.connectionLruCache.iteritems 0 s
  { s with
    scheduledAt := time i
    nextScan := time i + «when» }

/-- The steps. -/
inductive Label where
  | accept (now : ℤ)
  /-- a step of connection `n` -/
  | connection (n : ℕ) (l : Runner.Label)
  /-- the close callback of connection `n` -/
  | onConnectionClose (n : ℕ)
  | closeInactiveConnections (time : ℕ → ℤ)

/-- The steps a connection makes by itself. -/
def own : Runner.Label → Bool
  | .onConnectionClose | .closeInactive => false
  | _ => true

/-- When a step may happen. -/
def guard (cfg : ServerConfig) (l : Label) (s : RpcServer) : Prop :=
  match l with
  | .accept _ => s.currentConnections < cfg.maxConnections
  | .connection n l => n < s.connectionCount ∧ own l = true ∧
      Runner.guard cfg.runner l (s.connections n)
  | .onConnectionClose n => n < s.connectionCount ∧ (s.connections n).closed = true ∧
      s.closeCallbackRun n = false
  | .closeInactiveConnections _ => True

/-- The state a step leads to. -/
def update (cfg : ServerConfig) (l : Label) (s : RpcServer) : RpcServer :=
  match l with
  | .accept now => s.accept cfg now
  | .connection n l => s.onConnection cfg n l
  | .onConnectionClose n => s.onConnectionClose cfg n
  | .closeInactiveConnections time => s.closeInactiveConnections cfg time

/-- The server as a transition system. -/
def system (cfg : ServerConfig) : Lts.Spec RpcServer Label where
  init := fun s => ∃ now, s = new cfg now
  guard := guard cfg
  update := update cfg

end RpcServer

end SummerRpc
