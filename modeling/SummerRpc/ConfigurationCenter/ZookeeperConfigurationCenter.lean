import SummerRpc.Exception
import SummerRpc.Lib.Transition
import Mathlib.Data.List.AList

/-! # The configuration center

A `ZookeeperConfigurationCenter` of `configuration_center/zookeeper_configuration_center.py`,
the ZooKeeper it reads from and those who write there. The data of the children of the base
znode are the values of the keys. The center reads them when it is connected and when the data
of the base znode change, so that writers change the children first and the base znode last.

* `ZookeeperConfigurationCenter`: what the center has read, with `getKey` and `iteritems`;
* `Configured`: the center, its handle and the base znode;
* `Label`, `guard`, `update`: the steps, of which every order is a run of `system`.

The watch that `_real_start` sets fires once. The watchers of a handle are called by one thread
of its own, one after the other; each call of ZooKeeper and each assignment of an attribute is
a step. State events also go to `_real_start`, which raises for their empty path and changes
nothing.
-/

namespace SummerRpc

variable {κ υ : Type} [DecidableEq κ]

/-- Equality of dictionaries, by a term that computes. -/
instance decidableEqCache [DecidableEq υ] : DecidableEq (AList fun _ : κ => υ) := fun xs ys =>
  decidable_of_iff (xs.entries = ys.entries) AList.ext_iff.symm

/-- The base znode: the version of its data, and the data of its children. -/
structure Configuration (κ υ : Type) where
  version : ℕ
  values : AList fun _ : κ => υ
deriving DecidableEq

/-- The attributes that are read by others. -/
structure ZookeeperConfigurationCenter (κ υ : Type) where
  localCache : Option (AList fun _ : κ => υ) := none
  mainVersion : Option ℕ := none

namespace ZookeeperConfigurationCenter

/-- `success` -/
def success (center : ZookeeperConfigurationCenter κ υ) : Bool := center.localCache.isSome

/-- `get_key` -/
def getKey (center : ZookeeperConfigurationCenter κ υ) (key : κ) : Except Exc (Option υ) :=
  match center.localCache with
  | none => .error { cls := .attributeError, msg := "'NoneType' object has no attribute 'get'" }
  | some localCache => .ok (localCache.lookup key)

/-- `iteritems` -/
def iteritems (center : ZookeeperConfigurationCenter κ υ) :
    Except Exc (List (Sigma fun _ : κ => υ)) :=
  match center.localCache with
  | none => .error { cls := .runtimeError }
  | some localCache => .ok localCache.entries

end ZookeeperConfigurationCenter

namespace Configured

/-- What the watchers are told: the state of the connection, or that the data of the base znode
have changed. -/
inductive Event where
  | connected
  | disconnected
  | expired
  | changed
deriving DecidableEq

/-- Where the watchers are. -/
inductive WatcherPc (κ υ : Type) where
  | idle
  /-- in `_real_start`, before `zookeeper.get` of the base znode -/
  | starting
  /-- before `zookeeper.get_children` -/
  | versioned (mainVersion : ℕ)
  /-- before `zookeeper.get` of the first child that is left -/
  | fetching (mainVersion : ℕ) (children : List κ) (tmpCache : AList fun _ : κ => υ)
  /-- `_local_cache` has been assigned -/
  | publishing (mainVersion : ℕ)
deriving DecidableEq

/-- What `zookeeper.init` returns. -/
structure Handle (κ υ : Type) where
  /-- the session has not expired -/
  live : Bool := true
  connected : Bool := false
  /-- what the watchers are going to be told -/
  events : List Event := []
  /-- watches on the data of the base znode -/
  watches : ℕ := 0
  pc : WatcherPc κ υ := .idle
  /-- history: the version that has been read last -/
  lastRead : Option ℕ := none
deriving DecidableEq

end Configured

/-- The center and what it reads. -/
structure Configured (κ υ : Type) where
  /-- `_base_znode`, the path of the base znode -/
  baseZnode : List UInt8
  /-- the base znode, when there is one -/
  base : Option (Configuration κ υ)
  center : ZookeeperConfigurationCenter κ υ := {}
  /-- `_handler` -/
  handle : Option (Configured.Handle κ υ) := none
  /-- history: what the base znode and its children have been -/
  past : List (Configuration κ υ)

namespace Configured

/-- A call of ZooKeeper under way. -/
def Calling (h : Handle κ υ) : Prop :=
  match h.pc with
  | .starting | .versioned _ | .fetching _ (_ :: _) _ => True
  | _ => False

instance (h : Handle κ υ) : Decidable (Calling h) := by
  unfold Calling
  split <;> infer_instance

/-- What the watchers do when they are told something. -/
def hears : Event → WatcherPc κ υ
  | .connected | .changed => .starting
  | .disconnected | .expired => .idle

/-- The steps. -/
inductive Label (κ υ : Type) where
  /-- `start()` -/
  | start
  | connect (h : Handle κ υ)
  | disconnect (h : Handle κ υ)
  | expire (h : Handle κ υ)
  /-- the watchers are told something -/
  | deliver (h : Handle κ υ) (e : Event)
  /-- `zookeeper.get` of the base znode -/
  | get (h : Handle κ υ)
  | getChildren (h : Handle κ υ) (mainVersion : ℕ)
  /-- `zookeeper.get` of a child -/
  | getChild (h : Handle κ υ) (mainVersion : ℕ) (child : κ) (children : List κ)
      (tmpCache : AList fun _ : κ => υ)
  /-- `_local_cache` is assigned -/
  | store (h : Handle κ υ) (mainVersion : ℕ) (tmpCache : AList fun _ : κ => υ)
  /-- `_main_version` is assigned -/
  | finish (h : Handle κ υ) (mainVersion : ℕ)
  /-- a call raises with the connection -/
  | lose (h : Handle κ υ)
  /-- `close()`; `zookeeper.close` waits for the watchers -/
  | close
  /-- a writer sets the data of the base znode -/
  | setBase (base : Configuration κ υ)
  /-- a writer creates a child, or sets its data -/
  | setChild (base : Configuration κ υ) (key : κ) (value : υ)
  | deleteChild (base : Configuration κ υ) (key : κ)
  | createBase
  | deleteBase (base : Configuration κ υ)

/-- When a step may happen. -/
def guard (l : Label κ υ) (s : Configured κ υ) : Prop :=
  match l with
  | .start => True
  | .connect h => s.handle = some h ∧ h.live = true ∧ h.connected = false
  | .disconnect h => s.handle = some h ∧ h.connected = true
  | .expire h => s.handle = some h ∧ h.live = true
  | .deliver h e => s.handle = some h ∧ h.pc = .idle ∧ e ∈ h.events
  | .get h => s.handle = some h ∧ h.connected = true ∧ h.pc = .starting
  | .getChildren h mainVersion => s.handle = some h ∧ h.connected = true ∧
      h.pc = .versioned mainVersion
  | .getChild h mainVersion child children tmpCache => s.handle = some h ∧ h.connected = true ∧
      h.pc = .fetching mainVersion (child :: children) tmpCache
  | .store h mainVersion tmpCache => s.handle = some h ∧ h.pc = .fetching mainVersion [] tmpCache
  | .finish h mainVersion => s.handle = some h ∧ h.pc = .publishing mainVersion
  -- the watchers are in the call until it has raised
  | .lose h => s.handle = some h ∧ Calling h ∧ (h.connected = false ∨ .connected ∈ h.events)
  | .close => ∀ h ∈ s.handle, h.pc = .idle
  | .setBase base | .setChild base _ _ | .deleteChild base _ => s.base = some base
  | .createBase => s.base = none
  -- ZooKeeper deletes no znode that has children
  | .deleteBase base => s.base = some base ∧ base.values.keys = []

/-- The base znode after a step. -/
def baseAfter (l : Label κ υ) (s : Configured κ υ) : Option (Configuration κ υ) :=
  match l with
  | .setBase base => some { base with version := base.version + 1 }
  | .setChild base key value => some { base with values := base.values.insert key value }
  | .deleteChild base key => some { base with values := base.values.erase key }
  | .createBase => some { version := 0, values := ∅ }
  | .deleteBase _ => none
  | _ => s.base

/-- The watches on the data of the base znode fire. -/
def fire (h : Handle κ υ) : Handle κ υ :=
  { h with events := List.replicate h.watches .changed ++ h.events, watches := 0 }

/-- The handle after a step. -/
def handleAfter (l : Label κ υ) (s : Configured κ υ) : Option (Handle κ υ) :=
  match l with
  | .start => some (s.handle.getD {})
  | .connect h => some { h with connected := true, events := .connected :: h.events }
  | .disconnect h => some { h with connected := false, events := .disconnected :: h.events }
  | .expire h => some
      { h with live := false, connected := false, events := .expired :: h.events, watches := 0 }
  | .deliver h e => some { h with events := h.events.erase e, pc := hears e }
  | .get h =>
    match s.base with
    -- `NoNodeException`, and no watch
    | none => some { h with pc := .idle }
    | some base => some
        { h with
          watches := h.watches + 1
          lastRead := some base.version
          pc := .versioned base.version }
  | .getChildren h mainVersion =>
    match s.base with
    | none => some { h with pc := .idle }
    | some base => some { h with pc := .fetching mainVersion base.values.keys ∅ }
  | .getChild h mainVersion child children tmpCache =>
    -- `path + "/" + child` is no path of a child of the root: `BadArgumentsException`
    if s.baseZnode = [47] then some { h with pc := .idle }
    else
      match s.base.bind (·.values.lookup child) with
      -- the child has been deleted meanwhile
      | none => some { h with pc := .idle }
      | some value => some
          { h with pc := .fetching mainVersion children (tmpCache.insert child value) }
  | .store h mainVersion _ => some { h with pc := .publishing mainVersion }
  | .finish h _ | .lose h => some { h with pc := .idle }
  | .close => none
  | .setBase _ | .deleteBase _ => s.handle.map fire
  | .setChild _ _ _ | .deleteChild _ _ | .createBase => s.handle

/-- The attributes after a step. -/
def centerAfter (l : Label κ υ) (s : Configured κ υ) : ZookeeperConfigurationCenter κ υ :=
  match l with
  | .store _ _ tmpCache => { s.center with localCache := some tmpCache }
  | .finish _ mainVersion => { s.center with mainVersion := some mainVersion }
  | _ => s.center

/-- The state a step leads to. -/
def update (l : Label κ υ) (s : Configured κ υ) : Configured κ υ where
  baseZnode := s.baseZnode
  base := baseAfter l s
  center := centerAfter l s
  handle := handleAfter l s
  past := (baseAfter l s).toList ++ s.past

variable (κ υ) in
/-- The center has been made. -/
def system : Lts.Spec (Configured κ υ) (Label κ υ) where
  init := fun s => s.center = {} ∧ s.handle = none ∧ s.past = s.base.toList
  guard := guard
  update := update

instance [DecidableEq υ] (l : Label κ υ) (s : Configured κ υ) :
    Decidable ((system κ υ).guard l s) := by
  cases l <;> (simp only [system, guard]; infer_instance)

end Configured

end SummerRpc
