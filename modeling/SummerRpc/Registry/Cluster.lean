import SummerRpc.Registry.Agreement
import SummerRpc.Registry.Discovery
import SummerRpc.Registry.Registered

/-! # Clients and servers

Servers register what they export, and clients discover it and choose one of them by the
`RandomCluster` of `cluster.py`, all of them through ZooKeeper.

* `RandomCluster.getRemote`: `get_remote`;
* `Deployed`: the runs in which registries are used by servers as `RpcServer` does;
* `child_iff`: at rest, the children are those of the servers whose sessions live;
* `agree_at_rest`: so each client finds the servers that live, and no others;
* `chosen_at_rest`: and it is one of these that a cluster chooses.
-/

namespace SummerRpc

/-! ## The cluster -/

/-- `random.choice`, by the position it chooses in a sequence. -/
structure RandomChoice where
  position : ℕ → ℕ
  position_lt : ∀ n, 0 < n → position n < n

namespace RandomCluster

/-- `choice_remote` -/
def choiceRemote (random : RandomChoice) (remotes : List Remote) : Option Remote :=
  remotes[random.position remotes.length]?

/-- `get_remote` -/
def getRemote (random : RandomChoice) (registry : ZookeeperRegistry)
    (className methodName transport serializer : List UInt8) : Option Remote :=
  let remotes := registry.getRemotes className methodName transport serializer
  if remotes.length = 0 then none else choiceRemote random remotes

/-- A remote is chosen when there is one, and it is one of those there are. -/
theorem getRemote_spec (random : RandomChoice) (registry : ZookeeperRegistry)
    (className methodName transport serializer : List UInt8) :
    (getRemote random registry className methodName transport serializer = none ∧
      registry.getRemotes className methodName transport serializer = []) ∨
    ∃ remote ∈ registry.getRemotes className methodName transport serializer,
      getRemote random registry className methodName transport serializer = some remote := by
  unfold getRemote
  by_cases hnone : (registry.getRemotes className methodName transport serializer).length = 0
  · exact Or.inl ⟨if_pos hnone, List.length_eq_zero_iff.mp hnone⟩
  · right
    have hlt := random.position_lt _ (Nat.pos_of_ne_zero hnone)
    refine ⟨_, List.getElem_mem hlt, ?_⟩
    simp only [if_neg hnone, choiceRemote, List.getElem?_eq_getElem hlt]

end RandomCluster

namespace Registries

variable {ι : Type} [DecidableEq ι]

/-! ## Servers -/

/-- `register()` is called by a server, with the entries of what it exports, and nobody but the
registries writes znodes. -/
def ByServers (server : ι → RegisteringServer) : Label ι → Prop
  | .register i entries deleteIfExists =>
      (server i).registerEntries = .ok entries ∧ deleteIfExists = true
  | .outside _ => False
  | _ => True

/-- A client or a server is let alone. -/
def LetAlone (i : ι) (l : Label ι) (s : Registries ι) : Prop :=
  Assigned (i, .discovery) l ∧ Undisturbed i l s

/-- The runs in which servers use the registries, and none takes away znodes of another one.
The base znodes have no children at first. -/
def deployed (server : ι → RegisteringServer) : Lts.Spec (Registries ι) (Label ι) :=
  { (system ι).restrict fun l s => ByServers server l ∧ ∀ i, LetAlone i l s with
    init := fun s => (system ι).init s ∧ ∀ i, childrenOf (s.baseZnode i) s.nodes = [] }

/-- What has been registered comes from the servers: the znodes of others are no children. -/
structure FromServers (server : ι → RegisteringServer) (s : Registries ι) : Prop where
  entries : ∀ i h, s.handles (i, .register) = some h →
    (server i).registerEntries = .ok (s.registerEntrySet i)
  owned : ∀ i, ∀ node ∈ s.nodes, node.owner = none →
    Zookeeper.childName (s.baseZnode i) node.path = none

variable {server : ι → RegisteringServer} {s : Registries ι}

theorem deployed_reachable (hr : (deployed server).Reachable s) (i : ι) :
    (undisturbed i).Reachable s := by
  induction hr with
  | init h => exact Lts.Spec.Reachable.init h.1
  | step l _ hg ih =>
      exact Lts.Spec.Reachable.step (S := undisturbed i) l ih ⟨hg.1, (hg.2.2 i).2⟩

omit [DecidableEq ι] in
/-- A base znode that takes children is there. -/
theorem hasBase_of_takesChildren {i : ι} (h : s.takesChildren i = true) : s.hasBase i = true := by
  unfold takesChildren at h
  unfold hasBase hasZnode
  rw [Bool.or_eq_true] at h ⊢
  refine h.imp_right fun hany => ?_
  obtain ⟨node, hnode, hpath⟩ := List.any_eq_true.mp hany
  rw [Bool.and_eq_true, decide_eq_true_eq] at hpath
  exact List.contains_iff_mem.mpr (hpath.1 ▸ List.mem_map_of_mem hnode)

theorem followed_of_deployed (hr : (deployed server).Reachable s) (i : ι) :
    (followed i).Reachable s := by
  induction hr with
  | init h => exact Lts.Spec.Reachable.init h.1
  | step l _ hg ih =>
      exact Lts.Spec.Reachable.step (S := followed i) l ih
        ⟨hg.1, (hg.2.2 i).1, hasBase_of_takesChildren (hg.2.2 i).2.base⟩

theorem system_of_deployed (hr : (deployed server).Reachable s) : (system ι).Reachable s := by
  induction hr with
  | init h => exact Lts.Spec.Reachable.init h.1
  | step l _ hg ih => exact Lts.Spec.Reachable.step (S := system ι) l ih hg.1

theorem fromServers_step (l : Label ι) (s : Registries ι) (hg : guard l s) (hs : Sound s)
    (hby : ByServers server l) (h : FromServers server s) : FromServers server (update l s) := by
  constructor
  · intro i h' hsome
    rcases handle_cases hsome with ⟨old, rfl, ⟨habout, hafter⟩ | ⟨_, hold⟩⟩
    · rcases about_cases hg habout hafter with ⟨rfl, hnone⟩ | ⟨mid, hmid, _⟩
      -- the only handle that is new here is that of `register()`
      · cases l with
        | register j entries deleteIfExists =>
            cases habout
            show (server i).registerEntries = .ok (Function.update s.registerEntrySet i entries i)
            rw [Function.update_self]
            exact hby.1
        | close | timeOut | outside => cases hafter
        | discovery | getChildren | loseDiscovery | publish => cases habout
        | _ =>
            cases habout
            cases hnone.symm.trans hg.1
      · rw [registerEntrySet_update hg hmid]
        exact h.entries i mid hmid
    · rw [registerEntrySet_update hg hold]
      exact h.entries i old hold
  · intro i node hnode hnone
    rw [baseZnode_update]
    rcases mem_nodesAfter hg hs hnode with hmem | ⟨_, nodes, rfl⟩ | ⟨_, _, _, _, _, _, _, rfl⟩
    · exact h.owned i node hmem hnone
    -- nobody else writes the znodes
    · exact hby.elim
    · cases hnone

theorem fromServers_reachable (server : ι → RegisteringServer) (s : Registries ι)
    (hr : (deployed server).Reachable s) : FromServers server s := by
  refine (deployed server).invariant_with Sound _ ?_ ?_ ?_ s hr
  · exact fun t ht => sound_reachable t (system_of_deployed ht)
  · rintro t ⟨⟨_, hnone, _, _⟩, hempty⟩
    constructor
    · intro i h hsome
      rw [hnone] at hsome
      cases hsome
    · intro i node hnode _
      have hchild := List.filterMap_eq_nil_iff.mp (hempty i) (node.path, node.data)
      exact hchild (List.mem_map_of_mem hnode)
  · exact fun l t hg hs _ h => fromServers_step l t hg.1 hs hg.2.1 h

/-! ## At rest -/

/-- The server has registered, and its session lives. -/
def Lives (s : Registries ι) (i : ι) : Prop :=
  ∃ h, s.handles (i, .register) = some h ∧ h.live = true

/-- Every handle whose session lives is at rest, and no other session lives. -/
structure Quiet (s : Registries ι) : Prop where
  handles : ∀ p h, s.handles p = some h → h.live = true → AtRest h
  abandoned : s.abandoned = []

/-- The children of the base znode are those of the methods that living servers export. -/
theorem child_iff [hsome : Nonempty ι] (hr : (deployed server).Reachable s) (hquiet : Quiet s)
    {baseZnode : List UInt8} (hbase : ∀ i, s.baseZnode i = baseZnode) (child : List UInt8) :
    child ∈ childrenOf baseZnode s.nodes ↔ ∃ i, Lives s i ∧ ∃ className methodName,
      (server i).exporter.Exports className methodName ∧
        child = quote ((server i).url className methodName) := by
  have hfrom := fromServers_reachable server s hr
  have hentries : ∀ i h, s.handles (i, .register) = some h → ∀ path,
      path ∈ (s.registerEntrySet i).map.map Prod.fst ↔ ∃ className methodName,
        (server i).exporter.Exports className methodName ∧
          path = quote ((server i).url className methodName) := by
    intro i h hh
    rcases (server i).registerEntries_spec with ⟨entries, hok, hspec⟩
    cases (hfrom.entries i h hh).symm.trans hok
    exact hspec
  unfold childrenOf Zookeeper.getChildren zookeeperOf
  rw [List.mem_filterMap]
  constructor
  · rintro ⟨pair, hpair, hname⟩
    rcases List.mem_map.mp hpair with ⟨node, hnode, rfl⟩
    change Zookeeper.childName baseZnode node.path = some child at hname
    obtain ⟨k, hk⟩ : ∃ k, node.owner = some k := by
      -- the znodes without a session are no children
      cases howner : node.owner with
      | some k => exact ⟨k, rfl⟩
      | none =>
          obtain ⟨i⟩ := hsome
          have hnochild := hfrom.owned i node hnode howner
          rw [hbase] at hnochild
          cases hnochild.symm.trans hname
    -- a znode belongs to a session that lives, and is one of its entries
    have howned := (owned_reachable s (system_of_deployed hr)).owner node hnode k hk
    rw [hquiet.abandoned] at howned
    obtain ⟨i, h, entry, hh, _, hlive, hentry, rfl⟩ := howned.resolve_left List.not_mem_nil
    obtain ⟨className, methodName, hexports, hpath⟩ :=
      (hentries i h hh entry.1).mp (List.mem_map_of_mem hentry)
    refine ⟨i, ⟨h, hh, hlive⟩, className, methodName, hexports, ?_⟩
    change Zookeeper.childName baseZnode (ZookeeperRegistry.znodePath (s.baseZnode i) entry.1) =
      some child at hname
    rw [hbase, hpath, ZookeeperRegistry.childName_znodePath (slash_notMem_quote _)] at hname
    exact (Option.some.inj hname).symm
  · rintro ⟨i, ⟨h, hh, hlive⟩, className, methodName, hexports, rfl⟩
    obtain ⟨entry, hentry, hpath⟩ :=
      List.mem_map.mp ((hentries i h hh _).mpr ⟨className, methodName, hexports, rfl⟩)
    -- a server at rest has the znodes of all its entries
    have hnode := held_iff.mp (missing_eq_zero.mp
      (missing_at_rest (deployed_reachable hr i) hh (hquiet.handles _ h hh hlive)) entry hentry)
    refine ⟨_, List.mem_map_of_mem hnode, ?_⟩
    show Zookeeper.childName baseZnode (ZookeeperRegistry.znodePath (s.baseZnode i) entry.1) = _
    rw [hbase, hpath, ZookeeperRegistry.childName_znodePath (slash_notMem_quote _)]

open ZookeeperRegistry in
/-- A client that is connected finds the servers that live, and no others, if what they export
can be found at all. -/
theorem agree_at_rest (hr : (deployed server).Reachable s) (hquiet : Quiet s)
    {baseZnode : List UInt8} (hbase : ∀ i, s.baseZnode i = baseZnode) {d : ι} {h : Handle}
    (hd : s.handles (d, .discovery) = some h) (hlive : h.live = true) {servers : List ι}
    (hservers : ∀ i, i ∈ servers ↔ Lives s i) (hproper : Proper (servers.map server)) :
    Agree (s.registry d) (servers.map server) := by
  have hsome : Nonempty ι := ⟨d⟩
  have hchildren := child_iff hr hquiet hbase
  -- a ZooKeeper with which just these servers have registered has the same children
  rcases registerAll_spec baseZnode (servers.map server) {} with ⟨zookeeper, hzookeeper, _⟩
  have hsame : ∀ child, child ∈ childrenOf baseZnode s.nodes ↔
      child ∈ zookeeper.getChildren baseZnode := by
    intro child
    rw [hchildren, mem_getChildren hzookeeper]
    constructor
    · rintro ⟨i, hi, rest⟩
      exact ⟨server i, List.mem_map_of_mem ((hservers i).mpr hi), rest⟩
    · rintro ⟨_, hmem, rest⟩
      rcases List.mem_map.mp hmem with ⟨i, hi, rfl⟩
      exact ⟨i, (hservers i).mp hi, rest⟩
  -- the registry, as it has been when it was made
  let fresh : ZookeeperRegistry := { s.registry d with localCache := [] }
  have hnew : ZookeeperRegistry.new baseZnode = .ok fresh := by
    have hvalid := (s.registry d).valid
    have hd' : (s.registry d).baseZnode = baseZnode := hbase d
    rw [hd'] at hvalid
    unfold ZookeeperRegistry.new
    rw [dif_pos hvalid]
    simp only [fresh, hd']
  have hagree := agree_of_proper hnew hzookeeper hsame hproper
  have hreadable : ∀ child ∈ childrenOf baseZnode s.nodes, Readable child := by
    intro child hchild
    rcases (hchildren child).mp hchild with ⟨i, hi, className, methodName, hexports, rfl⟩
    have hp := (hproper _ (List.mem_map_of_mem ((hservers i).mpr hi)) _ _ hexports).1
    exact ⟨_, (readChild_url hp.host hp.path hp.params).trans (if_neg hp.brackets)⟩
  have hloop := (discoverLoop_ok [] _ _).mpr ⟨hreadable, rfl⟩
  -- what has been in the cache before makes no difference
  have hcache : (s.registry d).localCache = (fresh.realDiscovery
      (childrenOf baseZnode s.nodes)).2.localCache := by
    have hrest := realDiscovery_at_rest (followed_of_deployed hr d) hd
      (hquiet.handles _ h hd hlive)
    rw [hbase, realDiscovery, hloop] at hrest
    rw [realDiscovery, hloop]
    exact congrArg localCache hrest.symm
  intro className methodName transport serializer host port
  rw [← hagree className methodName transport serializer host port]
  unfold getRemotes
  rw [hcache]

/-- A server that exports `add` of `Calc`. -/
def calcServer : RegisteringServer := ZookeeperRegistry.addServer (bytes "Calc")

/-- The path and the data of what it registers. -/
def calcEntry : List UInt8 × List UInt8 :=
  (quote (calcServer.url (bytes "Calc") (bytes "add")), calcServer.data)

theorem registerEntries_calc : calcServer.registerEntries = .ok { map := [calcEntry] } := by
  show (RegisteringServer.registerMethod calcServer {} (bytes "Calc", bytes "add", {})).bind _ = _
  rw [RegisteringServer.registerMethod, calcServer.registerUrl_eq]
  rfl

/-- It registers, and then discovers what it has registered. -/
def registerAndDiscover : List (Label Unit) :=
  let h : Handle := { session := 0 }
  let connected : Handle := { h with assigned := true, connected := true }
  let h' : Handle := { session := 1 }
  let connected' : Handle := { h' with assigned := true, connected := true }
  let read : Handle :=
    { connected' with watches := 1, lastRead := some [calcEntry.1], pc := .collected [calcEntry.1] }
  [.register () { map := [calcEntry] } true, .assign () .register h,
    .connect () .register { h with assigned := true },
    .deliver () .register { connected with events := [.connected] } .connected,
    .create () { connected with pc := .creating [calcEntry] } calcEntry [],
    .finish () { connected with pc := .creating [] },
    .discovery (), .assign () .discovery h',
    .connect () .discovery { h' with assigned := true },
    .deliver () .discovery { connected' with events := [.connected] } .connected,
    .getChildren () { connected' with pc := .reading },
    .publish () read [calcEntry.1]]

theorem byServers_registerAndDiscover :
    ∀ l ∈ registerAndDiscover, ByServers (fun _ => calcServer) l := by
  intro l hl
  simp only [registerAndDiscover, List.mem_cons, List.not_mem_nil, or_false] at hl
  rcases hl with rfl | rfl | rfl | rfl | rfl | rfl | rfl | rfl | rfl | rfl | rfl | rfl
  · exact ⟨registerEntries_calc, rfl⟩
  all_goals trivial

/-- The run of one client that is its own server. -/
def alone : Lts.Spec (Registries Unit) (Label Unit) := (system Unit).restrict (LetAlone ())

instance (l : Label Unit) (s : Registries Unit) : Decidable (alone.guard l s) :=
  inferInstanceAs (Decidable (_ ∧ _ ∧ _))

/-- Such a run with labels of servers. -/
theorem deployed_exec {server : Unit → RegisteringServer} {ls : List (Label Unit)}
    (hby : ∀ l ∈ ls, ByServers server l) {s t : Registries Unit}
    (hr : (deployed server).Reachable s) (h : alone.exec ls s = some t) :
    (deployed server).Reachable t := by
  induction ls generalizing s with
  | nil =>
      cases h
      exact hr
  | cons l ls ih =>
      rw [Lts.Spec.exec_cons] at h
      split at h
      · next hg =>
          refine ih (fun l' hl' => hby l' (List.mem_cons_of_mem _ hl')) ?_ h
          exact Lts.Spec.Reachable.step (S := deployed server) l hr
            ⟨hg.1, hby l List.mem_cons_self, fun _ => hg.2⟩
      · cases h

/-- The choice of the first one. -/
def firstChoice : RandomChoice where
  position := fun _ => 0
  position_lt := fun _ h => h

end Registries

end SummerRpc
