import SummerRpc.Lib.Transition
import SummerRpc.Registry.ZookeeperRegistry
import Mathlib.Logic.Function.Basic

/-! # Registries and their sessions

Any number of `ZookeeperRegistry` objects of `registry.py`, in any processes, and the
ZooKeeper they use. A registry has a handle for `register()` and one for `discovery()`. Each
handle has a session, which ZooKeeper may let expire, and a thread that calls its watchers,
one after the other.

The znodes of `_real_register` are ephemeral: they go with the session that has created
them. The watch that `_real_discovery` sets on the children of the base znode fires once.
`close()` ends a session only over a connection: the session of a handle that has none, or
whose `zookeeper.close` raises, is abandoned, and lives until ZooKeeper lets it expire.

* `Handle`: a handle, what its watchers are going to be told and where they are;
* `Registries`: the registries, their handles and the znodes;
* `Label`, `guard`, `update`: the steps, of which every order is a run of `system`; what they
  make of a handle and of the znodes is `handleAfter` and `nodesAfter`.

A watcher is told of the state of its connection in any order with changes of children. State
events also go to `_real_discovery`, which raises for their empty path and changes nothing.
-/

namespace SummerRpc

/-- A znode; an ephemeral one has the session it goes with. -/
structure Znode where
  path : List UInt8
  data : List UInt8
  owner : Option ℕ
deriving DecidableEq

/-- The znodes, as `get_children` and `create` look at them. -/
def zookeeperOf (nodes : List Znode) : Zookeeper where
  nodes := nodes.map fun node => (node.path, node.data)

/-- `_register_handler` and `_discovery_handler` -/
inductive Role where
  | register
  | discovery
deriving DecidableEq

/-- What the watchers of a handle are told: the state of the connection, or that the children
of the base znode have changed. -/
inductive Event where
  | connected
  | disconnected
  | expired
  | children
deriving DecidableEq

/-- Where the watchers of a handle are. -/
inductive WatcherPc where
  | idle
  /-- in `_real_register`, before `zookeeper.create` for the first of the entries -/
  | creating (todo : List (List UInt8 × List UInt8))
  /-- before `zookeeper.delete`, for a znode that exists -/
  | deleting (entry : List UInt8 × List UInt8) (todo : List (List UInt8 × List UInt8))
  /-- in `_real_discovery`, before `zookeeper.get_children` -/
  | reading
  /-- it has the children -/
  | collected (children : List (List UInt8))
deriving DecidableEq

/-- What `zookeeper.init` returns. -/
structure Handle where
  session : ℕ
  /-- the session has not expired -/
  live : Bool := true
  connected : Bool := false
  /-- the registry has it as an attribute -/
  assigned : Bool := false
  /-- what the watchers are going to be told -/
  events : List Event := []
  /-- watches on the children of the base znode -/
  watches : ℕ := 0
  pc : WatcherPc := .idle
  /-- history: the children that have been read last -/
  lastRead : Option (List (List UInt8)) := none
  /-- history: `_real_register` has registered all entries -/
  finished : Bool := false
  /-- history: the calls that have been lost with the connection since -/
  lost : ℕ := 0
deriving DecidableEq

/-- The registries, by the names of their objects, and ZooKeeper. -/
structure Registries (ι : Type) where
  nodes : List Znode
  /-- the number of sessions there have been -/
  sessions : ℕ
  /-- the sessions of closed handles that ZooKeeper has still to let expire -/
  abandoned : List ℕ
  registry : ι → ZookeeperRegistry
  /-- `_register_entry_set` -/
  registerEntrySet : ι → RegisterEntrySet
  /-- `_delete_if_exists` -/
  deleteIfExists : ι → Bool
  handles : ι × Role → Option Handle

namespace Registries

variable {ι : Type}

/-- The names of the children of a base znode. -/
def childrenOf (baseZnode : List UInt8) (nodes : List Znode) : List (List UInt8) :=
  (zookeeperOf nodes).getChildren baseZnode

/-- `_base_znode` -/
def baseZnode (s : Registries ι) (i : ι) : List UInt8 := (s.registry i).baseZnode

/-- The path of the znode of an entry. -/
def znodeOf (s : Registries ι) (i : ι) (entry : List UInt8 × List UInt8) : List UInt8 :=
  ZookeeperRegistry.znodePath (s.baseZnode i) entry.1

/-- There is such a znode. -/
def hasZnode (s : Registries ι) (path : List UInt8) : Bool :=
  (s.nodes.map Znode.path).contains path

/-- There is the base znode. The root is always there. -/
def hasBase (s : Registries ι) (i : ι) : Bool :=
  s.baseZnode i = [47] || s.hasZnode (s.baseZnode i)

/-- There is the base znode, and it may have children, which an ephemeral one may not. -/
def takesChildren (s : Registries ι) (i : ι) : Bool :=
  s.baseZnode i = [47] || s.nodes.any fun node => node.path = s.baseZnode i && node.owner = none

/-- A name that ZooKeeper takes for a child; `quote` makes no others of URLs. -/
def IsName (name : List UInt8) : Prop :=
  name ≠ [] ∧ name ≠ bytes "." ∧ name ≠ bytes ".." ∧ ∀ b ∈ name, 32 < b ∧ b < 127 ∧ b ≠ 47

instance (name : List UInt8) : Decidable (IsName name) := inferInstanceAs (Decidable (_ ∧ _))

/-- The watches of a handle fire when the children it watches have changed. -/
def hear (before after : List (List UInt8)) (h : Handle) : Handle :=
  { h with
    events := (if after = before then [] else List.replicate h.watches .children) ++ h.events
    watches := if after = before then h.watches else 0 }

/-- The znode that `zookeeper.create` makes for an entry. -/
def znodeFor (s : Registries ι) (i : ι) (h : Handle) (entry : List UInt8 × List UInt8) : Znode where
  path := s.znodeOf i entry
  data := entry.2
  owner := some h.session

/-- `zookeeper.create` raises. -/
def CreateRaises (s : Registries ι) (i : ι) (entry : List UInt8 × List UInt8) : Prop :=
  s.takesChildren i = false ∨ s.hasZnode (s.znodeOf i entry) = true

instance (s : Registries ι) (i : ι) (entry : List UInt8 × List UInt8) :
    Decidable (s.CreateRaises i entry) := inferInstanceAs (Decidable (_ ∨ _))

/-- What ZooKeeper has after `zookeeper.create`. -/
def created (s : Registries ι) (i : ι) (h : Handle) (entry : List UInt8 × List UInt8) :
    List Znode :=
  if s.CreateRaises i entry then s.nodes else s.znodeFor i h entry :: s.nodes

/-- What it has after `zookeeper.delete`. -/
def deleted (s : Registries ι) (path : List UInt8) : List Znode :=
  s.nodes.filter fun node => node.path ≠ path

/-- What it has when a session is over. -/
def without (nodes : List Znode) (session : ℕ) : List Znode :=
  nodes.filter fun node => node.owner ≠ some session

/-- What a call does that is lost with the connection, when it has got to ZooKeeper. -/
def applied (s : Registries ι) (i : ι) (h : Handle) : List Znode :=
  match h.pc with
  | .creating (entry :: _) => s.created i h entry
  | .deleting entry _ => s.deleted (s.znodeOf i entry)
  | _ => s.nodes

/-- A call of ZooKeeper under way. -/
def Calling (h : Handle) : Prop :=
  match h.pc with
  | .creating (_ :: _) | .deleting _ _ | .reading => True
  | _ => False

instance (h : Handle) : Decidable (Calling h) := by
  unfold Calling
  split <;> infer_instance

/-- A call raises with the connection. The watchers are told when there is one again, and they
are in the call until it has raised. -/
def MayLose (h : Handle) : Prop := Calling h ∧ (h.connected = false ∨ .connected ∈ h.events)

instance (h : Handle) : Decidable (MayLose h) := inferInstanceAs (Decidable (_ ∧ _))

/-- `close()` finds the handle, and `zookeeper.close` has no watcher to wait for. It ends the
session only over a connection. -/
def MayClose (h : Option Handle) (ended : Bool) : Prop :=
  ∀ h' ∈ h, h'.pc = .idle ∧ h'.assigned = true ∧ (ended = true → h'.connected = true)

instance (h : Option Handle) (ended : Bool) : Decidable (MayClose h ended) := by
  unfold MayClose
  infer_instance

/-- What the watchers do when they are told something. -/
def hears (s : Registries ι) (i : ι) (role : Role) (h : Handle) (e : Event) : WatcherPc :=
  match role, e with
  -- `zookeeper.set_watcher` raises for `None`
  | .register, .connected => if h.assigned then .creating (s.registerEntrySet i).map else .idle
  | .discovery, .connected => if h.assigned then .reading else .idle
  | .discovery, .children => .reading
  | _, _ => .idle

/-- The steps. -/
inductive Label (ι : Type) where
  /-- `register()`, until `zookeeper.init` has returned -/
  | register (i : ι) (entries : RegisterEntrySet) (deleteIfExists : Bool)
  /-- `discovery()`, until `zookeeper.init` has returned -/
  | discovery (i : ι)
  /-- the attribute is set -/
  | assign (i : ι) (role : Role) (h : Handle)
  | connect (i : ι) (role : Role) (h : Handle)
  | disconnect (i : ι) (role : Role) (h : Handle)
  | expire (i : ι) (role : Role) (h : Handle)
  /-- the watchers are told something -/
  | deliver (i : ι) (role : Role) (h : Handle) (e : Event)
  /-- `zookeeper.create` -/
  | create (i : ι) (h : Handle) (entry : List UInt8 × List UInt8)
      (todo : List (List UInt8 × List UInt8))
  /-- `zookeeper.delete` -/
  | delete (i : ι) (h : Handle) (entry : List UInt8 × List UInt8)
      (todo : List (List UInt8 × List UInt8))
  /-- the end of `_real_register` -/
  | finish (i : ι) (h : Handle)
  /-- a call of `_real_register` is lost, perhaps after it has got to ZooKeeper -/
  | loseRegister (i : ι) (h : Handle) (arrived : Bool)
  /-- `zookeeper.get_children` -/
  | getChildren (i : ι) (h : Handle)
  /-- `zookeeper.get_children` is lost -/
  | loseDiscovery (i : ι) (h : Handle)
  /-- the rest of `_real_discovery` -/
  | publish (i : ι) (h : Handle) (children : List (List UInt8))
  /-- `close()`; `zookeeper.close` waits for the watchers, and ends the session or raises -/
  | close (i : ι) (ended : Role → Bool)
  /-- an abandoned session expires -/
  | timeOut (session : ℕ)
  /-- somebody else changes the znodes -/
  | outside (nodes : List Znode)

/-- When a step may happen. -/
def guard (l : Label ι) (s : Registries ι) : Prop :=
  match l with
  -- the entries are a dictionary, and their names are those of children
  | .register i entries _ => s.handles (i, .register) = none ∧
      (entries.map.map Prod.fst).Nodup ∧ ∀ entry ∈ entries.map, IsName entry.1
  | .discovery i => s.handles (i, .discovery) = none
  | .assign i role h => s.handles (i, role) = some h ∧ h.assigned = false
  | .connect i role h => s.handles (i, role) = some h ∧ h.live = true ∧ h.connected = false
  | .disconnect i role h => s.handles (i, role) = some h ∧ h.connected = true
  | .expire i role h => s.handles (i, role) = some h ∧ h.live = true
  | .deliver i role h e => s.handles (i, role) = some h ∧ h.pc = .idle ∧ e ∈ h.events
  | .create i h entry todo => s.handles (i, .register) = some h ∧ h.connected = true ∧
      h.pc = .creating (entry :: todo)
  | .delete i h entry todo => s.handles (i, .register) = some h ∧ h.connected = true ∧
      h.pc = .deleting entry todo
  | .finish i h => s.handles (i, .register) = some h ∧ h.pc = .creating []
  | .loseRegister i h arrived => s.handles (i, .register) = some h ∧ MayLose h ∧
      (arrived = true → h.live = true)
  | .getChildren i h => s.handles (i, .discovery) = some h ∧ h.connected = true ∧ h.pc = .reading
  | .loseDiscovery i h => s.handles (i, .discovery) = some h ∧ MayLose h
  | .publish i h children => s.handles (i, .discovery) = some h ∧ h.pc = .collected children
  | .close i ended => MayClose (s.handles (i, .register)) (ended .register) ∧
      MayClose (s.handles (i, .discovery)) (ended .discovery)
  | .timeOut session => session ∈ s.abandoned
  | .outside nodes => ∀ node ∈ nodes, node ∈ s.nodes ∨ node.owner = none

/-- The sessions that `close()` ends. -/
def endedBy (s : Registries ι) (i : ι) (ended : Role → Bool) : List ℕ :=
  [Role.register, .discovery].filterMap fun role =>
    if ended role then (s.handles (i, role)).map Handle.session else none

/-- The sessions that it leaves alive. -/
def abandonedBy (s : Registries ι) (i : ι) (ended : Role → Bool) : List ℕ :=
  [Role.register, .discovery].filterMap fun role =>
    if ended role then none else ((s.handles (i, role)).filter Handle.live).map Handle.session

/-! ## What a step does -/

/-- The handles a step is about. -/
def Label.IsAbout (l : Label ι) (p : ι × Role) : Prop :=
  match l with
  | .register i _ _ | .create i _ _ _ | .delete i _ _ _ | .finish i _ | .loseRegister i _ _ =>
      p = (i, .register)
  | .discovery i | .getChildren i _ | .loseDiscovery i _ | .publish i _ _ => p = (i, .discovery)
  | .assign i role _ | .connect i role _ | .disconnect i role _ | .expire i role _
  | .deliver i role _ _ => p = (i, role)
  | .close i _ => p.1 = i
  | .timeOut _ | .outside _ => False

/-- What the step makes of them. -/
def handleAfter (l : Label ι) (s : Registries ι) : Option Handle :=
  match l with
  | .register _ _ _ | .discovery _ => some { session := s.sessions }
  | .assign _ _ h => some { h with assigned := true }
  | .connect _ _ h => some { h with connected := true, events := .connected :: h.events }
  | .disconnect _ _ h => some { h with connected := false, events := .disconnected :: h.events }
  | .expire _ _ h => some
      { h with live := false, connected := false, events := .expired :: h.events, watches := 0 }
  | .deliver i role h e => some { h with events := h.events.erase e, pc := s.hears i role h e }
  | .create i h entry todo =>
      -- `NoNodeException`, or `NoChildrenForEphemeralsException`
      if s.takesChildren i = false then some { h with pc := .idle }
      else if s.hasZnode (s.znodeOf i entry) then
        -- `NodeExistsException`
        if s.deleteIfExists i then some { h with pc := .deleting entry todo }
        else some { h with pc := .idle }
      else some { h with pc := .creating todo }
  | .delete _ h entry todo => some { h with pc := .creating (entry :: todo) }
  | .finish _ h => some { h with pc := .idle, finished := true, lost := 0 }
  | .loseRegister _ h _ => some { h with pc := .idle, lost := h.lost + 1 }
  | .getChildren i h =>
      if s.hasBase i then
        some { h with
          watches := h.watches + 1
          lastRead := some (childrenOf (s.baseZnode i) s.nodes)
          pc := .collected (childrenOf (s.baseZnode i) s.nodes) }
      -- `NoNodeException`
      else some { h with pc := .idle }
  | .loseDiscovery _ h | .publish _ h _ => some { h with pc := .idle }
  | .close _ _ | .timeOut _ | .outside _ => none

/-- The znodes after a step. -/
def nodesAfter (l : Label ι) (s : Registries ι) : List Znode :=
  match l with
  | .expire _ _ h => without s.nodes h.session
  | .create i h entry _ => s.created i h entry
  | .delete i _ entry _ => s.deleted (s.znodeOf i entry)
  | .loseRegister i h arrived => if arrived then s.applied i h else s.nodes
  | .close i ended => (s.endedBy i ended).foldl without s.nodes
  | .timeOut session => without s.nodes session
  | .outside nodes => nodes
  | _ => s.nodes

/-- A handle, once it has heard of the znodes that a step has changed. -/
def heard (l : Label ι) (s : Registries ι) (p : ι × Role) : Handle → Handle :=
  hear (childrenOf (s.baseZnode p.1) s.nodes) (childrenOf (s.baseZnode p.1) (nodesAfter l s))

variable [DecidableEq ι]

instance (l : Label ι) (p : ι × Role) : Decidable (l.IsAbout p) := by
  cases l <;> (simp only [Label.IsAbout]; infer_instance)

/-- The state a step leads to. -/
def update (l : Label ι) (s : Registries ι) : Registries ι where
  nodes := nodesAfter l s
  sessions :=
    match l with
    | .register _ _ _ | .discovery _ => s.sessions + 1
    | _ => s.sessions
  abandoned :=
    match l with
    | .close i ended => s.abandonedBy i ended ++ s.abandoned
    | .timeOut session => s.abandoned.filter (· ≠ session)
    | _ => s.abandoned
  registry :=
    match l with
    | .publish i _ children =>
        Function.update s.registry i ((s.registry i).realDiscovery children).2
    | .close i _ => Function.update s.registry i { s.registry i with localCache := [] }
    | _ => s.registry
  registerEntrySet :=
    match l with
    | .register i entries _ => Function.update s.registerEntrySet i entries
    | _ => s.registerEntrySet
  deleteIfExists :=
    match l with
    | .register i _ deleteIfExists => Function.update s.deleteIfExists i deleteIfExists
    | _ => s.deleteIfExists
  handles := fun p => (if l.IsAbout p then handleAfter l s else s.handles p).map (heard l s p)

/-- The registries have been made, and there are no ephemeral znodes of theirs. -/
def system (ι : Type) [DecidableEq ι] : Lts.Spec (Registries ι) (Label ι) where
  init := fun s => s.sessions = 0 ∧ (∀ p, s.handles p = none) ∧
    (∀ node ∈ s.nodes, node.owner = none) ∧ (∀ i, (s.registry i).localCache = []) ∧
    s.abandoned = []
  guard := guard
  update := update

instance (l : Label ι) (s : Registries ι) : Decidable ((system ι).guard l s) := by
  cases l <;> (simp only [system, guard]; infer_instance)

end Registries

end SummerRpc
