import SummerRpc.Lib.Watch
import SummerRpc.Registry.Sessions

/-! # The cache follows ZooKeeper

`_real_discovery` sets a watch on the children it reads, so that it is called again when they
change. Whatever others do to the znodes, and however often the connection is lost, the local
cache is what a discovery would make it once there is nothing left to be told.

* `handle_cases`: where a handle comes from, after a step;
* `follower`: a handle of `discovery()` follows the children of the base znode;
* `Published`: the cache has what has been read last;
* `cache_at_rest`: a registry that is connected, with nothing to do, has the children that
  there are.

This takes a base znode, and a `zookeeper.init` that has returned before its watcher is told of
the connection. Without the one `get_children` raises, without the other `set_watcher` does, and
neither is tried again.
-/

namespace SummerRpc

namespace Registries

variable {ι : Type}

/-! ## What a step does to a handle -/

/-- Nothing is heard of znodes that stay. -/
theorem hear_same (children : List (List UInt8)) (h : Handle) : hear children children h = h := by
  simp [hear]

variable [DecidableEq ι] {l : Label ι} {s : Registries ι}

/-- A handle is what the step makes of it, if the step is about it, or what it was before. It
hears of the znodes that have changed. -/
theorem handle_cases {p : ι × Role} {h : Handle} (hsome : (update l s).handles p = some h) :
    ∃ old, h = heard l s p old ∧
      ((l.IsAbout p ∧ handleAfter l s = some old) ∨ (¬ l.IsAbout p ∧ s.handles p = some old)) := by
  rcases Option.map_eq_some_iff.mp hsome with ⟨old, hold, rfl⟩
  refine ⟨old, rfl, ?_⟩
  split at hold
  · exact Or.inl ⟨by assumption, hold⟩
  · exact Or.inr ⟨by assumption, hold⟩

theorem handle_about {p : ι × Role} (habout : l.IsAbout p) {h : Handle}
    (hafter : handleAfter l s = some h) : (update l s).handles p = some (heard l s p h) := by
  show (if l.IsAbout p then handleAfter l s else s.handles p).map _ = _
  rw [if_pos habout, hafter, Option.map_some]

theorem handle_other {p : ι × Role} (hother : ¬ l.IsAbout p) :
    (update l s).handles p = (s.handles p).map (heard l s p) := by
  show (if l.IsAbout p then handleAfter l s else s.handles p).map _ = _
  rw [if_neg hother]

/-- The base znode of a registry is never changed. -/
theorem baseZnode_update (l : Label ι) (s : Registries ι) (i : ι) :
    (update l s).baseZnode i = s.baseZnode i := by
  have hset : ∀ j (r : ZookeeperRegistry), r.baseZnode = s.baseZnode j →
      (Function.update s.registry j r i).baseZnode = s.baseZnode i := by
    intro j r hbase
    by_cases hij : i = j
    · subst hij
      rw [Function.update_self, hbase]
    · rw [Function.update_of_ne hij]
      rfl
  -- only `publish` and `close` change a registry, and neither its base znode
  cases l with
  | publish j h children =>
      refine hset j _ ?_
      unfold ZookeeperRegistry.realDiscovery
      split <;> rfl
  | close j ended => exact hset j _ rfl
  | _ => rfl

/-! ## What a handle is like -/

/-- The watchers are in a function that is called with this handle. -/
def OfRole (role : Role) : WatcherPc → Prop
  | .idle => True
  | .creating _ | .deleting _ _ => role = .register
  | .reading | .collected _ => role = .discovery

/-- What is true of every handle. -/
structure SoundHandle (role : Role) (h : Handle) : Prop where
  live : h.connected = true → h.live = true
  pc : OfRole role h.pc

/-- So it is of all handles there are. -/
def Sound (s : Registries ι) : Prop :=
  ∀ i role h, s.handles (i, role) = some h → SoundHandle role h

omit [DecidableEq ι] in
theorem hears_ofRole (s : Registries ι) (i : ι) (role : Role) (h : Handle) (e : Event) :
    OfRole role (s.hears i role h e) := by
  unfold hears
  split
  · split
    · rfl
    · trivial
  · split
    · rfl
    · trivial
  · rfl
  · trivial

omit [DecidableEq ι] in
theorem sound_about {i : ι} {role : Role} {h : Handle} (hg : guard l s) (hs : Sound s)
    (habout : l.IsAbout (i, role)) (hafter : handleAfter l s = some h) : SoundHandle role h := by
  cases l with
  | register j entries deleteIfExists =>
      cases hafter
      exact ⟨fun hfalse => absurd hfalse Bool.false_ne_true, trivial⟩
  | discovery j =>
      cases hafter
      exact ⟨fun hfalse => absurd hfalse Bool.false_ne_true, trivial⟩
  | assign j r h' =>
      cases habout
      cases hafter
      exact ⟨(hs _ _ _ hg.1).live, (hs _ _ _ hg.1).pc⟩
  | connect j r h' =>
      cases habout
      cases hafter
      exact ⟨fun _ => hg.2.1, (hs _ _ _ hg.1).pc⟩
  | disconnect j r h' =>
      cases habout
      cases hafter
      exact ⟨fun hfalse => absurd hfalse Bool.false_ne_true, (hs _ _ _ hg.1).pc⟩
  | expire j r h' =>
      cases habout
      cases hafter
      exact ⟨fun hfalse => absurd hfalse Bool.false_ne_true, (hs _ _ _ hg.1).pc⟩
  | deliver j r h' e =>
      cases habout
      cases hafter
      exact ⟨(hs _ _ _ hg.1).live, hears_ofRole s i role h' e⟩
  | create j h' entry todo =>
      -- the call raises, the znode exists, and is deleted or given up; or it has been created
      cases habout
      have hlive := (hs _ _ _ hg.1).live
      simp only [handleAfter] at hafter
      split at hafter
      · cases hafter
        exact ⟨hlive, trivial⟩
      · split at hafter
        · split at hafter
          · cases hafter
            exact ⟨hlive, rfl⟩
          · cases hafter
            exact ⟨hlive, trivial⟩
        · cases hafter
          exact ⟨hlive, rfl⟩
  | delete j h' entry todo =>
      cases habout
      cases hafter
      exact ⟨(hs _ _ _ hg.1).live, rfl⟩
  | getChildren j h' =>
      cases habout
      have hlive := (hs _ _ _ hg.1).live
      simp only [handleAfter] at hafter
      split at hafter
      · cases hafter
        exact ⟨hlive, rfl⟩
      · cases hafter
        exact ⟨hlive, trivial⟩
  | finish j h' | loseRegister j h' arrived | loseDiscovery j h' | publish j h' children =>
      cases habout
      cases hafter
      exact ⟨(hs _ _ _ hg.1).live, trivial⟩
  | close j ended => cases hafter
  | timeOut session => cases hafter
  | outside nodes => cases hafter

theorem sound_step (l : Label ι) (s : Registries ι) (hg : guard l s) (h : Sound s) :
    Sound (update l s) := by
  intro i role h' hsome
  rcases handle_cases hsome with ⟨old, rfl, ⟨habout, hafter⟩ | ⟨_, hold⟩⟩
  · have hsound := sound_about hg h habout hafter
    exact ⟨hsound.live, hsound.pc⟩
  · have hsound := h i role old hold
    exact ⟨hsound.live, hsound.pc⟩

theorem sound_reachable (s : Registries ι) (hr : (system ι).Reachable s) : Sound s := by
  refine (system ι).invariant Sound ?_ sound_step s hr
  rintro s ⟨_, hnone, _, _⟩ i role h hsome
  rw [hnone] at hsome
  cases hsome

/-! ## A handle of `discovery()` -/

/-- The events after which `_real_discovery` is called. -/
def discovers : Event → Bool
  | .connected | .children => true
  | .disconnected | .expired => false

/-- The handle as a follower of the children it watches. -/
def follows (children : List (List UInt8)) (h : Handle) :
    Watch.State (List (List UInt8)) where
  value := children
  armed := h.watches
  connected := h.connected
  pending := h.events.countP discovers
  reading := h.pc = .reading
  copy := h.lastRead

/-- What a registry follows; with no session, it follows nothing. -/
def follower (s : Registries ι) (i : ι) : Watch.State (List (List UInt8)) :=
  let children := childrenOf (s.baseZnode i) s.nodes
  match s.handles (i, .discovery) with
  | some h => if h.live then follows children h else Watch.State.fresh children
  | none => Watch.State.fresh children

/-- The watchers of the handle are not told of a connection before the registry has it. -/
def Assigned (p : ι × Role) (l : Label ι) : Prop :=
  match l with
  | .deliver j role h .connected => (j, role) = p → h.assigned = true
  | _ => True

/-- The runs in which `zookeeper.init` returns in time, and there is the base znode. -/
def followed (i : ι) : Lts.Spec (Registries ι) (Label ι) :=
  (system ι).restrict fun l s => Assigned (i, .discovery) l ∧ s.hasBase i = true

/-- To hear of other znodes is to be told of a change. -/
theorem follows_hear (before after : List (List UInt8)) (h : Handle) :
    follows after (hear before after h) = follows before h ∨
      follows after (hear before after h) = Watch.update (.change after) (follows before h) := by
  by_cases heq : after = before
  · subst heq
    left
    rw [hear_same]
  · right
    have hcount : (List.replicate h.watches Event.children).countP discovers = h.watches := by
      rw [List.countP_replicate, discovers, if_pos rfl]
    simp only [follows, hear, Watch.update, if_neg heq, List.countP_append, hcount, Nat.add_comm]

omit [DecidableEq ι] in
theorem follower_of_live {i : ι} {h : Handle} (hh : s.handles (i, .discovery) = some h)
    (hlive : h.live = true) : follower s i = follows (childrenOf (s.baseZnode i) s.nodes) h := by
  simp only [follower, hh, hlive, if_true]

omit [DecidableEq ι] in
theorem follower_of_dead {i : ι}
    (hdead : ∀ h, s.handles (i, .discovery) = some h → h.live = false) :
    follower s i = Watch.State.fresh (childrenOf (s.baseZnode i) s.nodes) := by
  unfold follower
  cases hh : s.handles (i, .discovery) with
  | none => rfl
  | some h => simp only [hdead h hh, Bool.false_eq_true, if_false]

/-- What is followed, with the handle that a step has changed. -/
theorem follower_about {i : ι} {h : Handle} (habout : l.IsAbout (i, .discovery))
    (hnodes : nodesAfter l s = s.nodes) (hafter : handleAfter l s = some h)
    (hlive : h.live = true) :
    follower (update l s) i = follows (childrenOf (s.baseZnode i) s.nodes) h := by
  have hheard : heard l s (i, .discovery) h = h := by
    unfold heard
    rw [hnodes, hear_same]
  rw [follower_of_live (handle_about habout hafter) (by rwa [hheard]), baseZnode_update, hheard]
  show follows (childrenOf (s.baseZnode i) (nodesAfter l s)) h = _
  rw [hnodes]

/-- What is followed stays the same, or makes one step of a follower. -/
def Moves (l : Label ι) (s : Registries ι) (i : ι) : Prop :=
  follower (update l s) i = follower s i ∨ ∃ m, Watch.guard m (follower s i) ∧
    follower (update l s) i = Watch.update m (follower s i)

/-- A step that is about another handle. -/
theorem moves_other {i : ι} (hother : ¬ l.IsAbout (i, .discovery)) : Moves l s i := by
  have hhandles := handle_other (s := s) hother
  by_cases hlive : ∃ h, s.handles (i, .discovery) = some h ∧ h.live = true
  · rcases hlive with ⟨h, hh, hlive⟩
    rw [hh] at hhandles
    unfold Moves
    rw [follower_of_live hh hlive, follower_of_live hhandles hlive, baseZnode_update]
    rcases follows_hear (childrenOf (s.baseZnode i) s.nodes)
      (childrenOf (s.baseZnode i) (nodesAfter l s)) h with heq | heq
    · exact Or.inl heq
    · exact Or.inr ⟨.change _, trivial, heq⟩
  · -- there is no session before the step, and none after it
    refine Or.inr ⟨.forget (childrenOf (s.baseZnode i) (nodesAfter l s)), trivial, ?_⟩
    rw [follower_of_dead (s := update l s), baseZnode_update]
    · rfl
    · intro h hh
      rw [hhandles] at hh
      rcases Option.map_eq_some_iff.mp hh with ⟨old, hold, rfl⟩
      exact Bool.eq_false_iff.mpr fun hl => hlive ⟨old, hold, hl⟩

/-- The session is over, or there is none yet. -/
theorem follower_over {i : ι} (habout : l.IsAbout (i, .discovery))
    (hafter : ∀ h, handleAfter l s = some h → h.live = false) :
    follower (update l s) i =
      Watch.update (.forget (childrenOf (s.baseZnode i) (nodesAfter l s))) (follower s i) := by
  rw [follower_of_dead (s := update l s), baseZnode_update]
  · rfl
  · intro h hh
    rcases handle_cases hh with ⟨old, rfl, ⟨_, hold⟩ | ⟨hother, _⟩⟩
    · exact hafter old hold
    · exact absurd habout hother

theorem moves_over {i : ι} (habout : l.IsAbout (i, .discovery))
    (hafter : ∀ h, handleAfter l s = some h → h.live = false) : Moves l s i :=
  Or.inr ⟨.forget _, trivial, follower_over habout hafter⟩

/-! ### Steps that are about the handle -/

section About

variable {i : ι} {h : Handle}

/-- An expired session stays as it is. -/
theorem moves_of_dead (hh : s.handles (i, .discovery) = some h) (hdead : ¬ h.live = true)
    (habout : l.IsAbout (i, .discovery))
    (hafter : ∀ h', handleAfter l s = some h' → h'.live = h.live)
    (hnodes : nodesAfter l s = s.nodes) : Moves l s i := by
  have hfalse : h.live = false := by simpa using hdead
  left
  rw [follower_over habout fun h' hh' => (hafter h' hh').trans hfalse, hnodes, follower_of_dead]
  · rfl
  · intro h' hh'
    cases hh.symm.trans hh'
    exact hfalse

/-- The children have not changed: what is followed is seen from the handle. -/
theorem moves_of_live (hh : s.handles (i, .discovery) = some h) (hlive : h.live = true)
    (habout : l.IsAbout (i, .discovery)) (hnodes : nodesAfter l s = s.nodes) {h' : Handle}
    (hafter : handleAfter l s = some h') (hlive' : h'.live = true)
    (hmoves : follows (childrenOf (s.baseZnode i) s.nodes) h' =
        follows (childrenOf (s.baseZnode i) s.nodes) h ∨
      ∃ m, Watch.guard m (follows (childrenOf (s.baseZnode i) s.nodes) h) ∧
        follows (childrenOf (s.baseZnode i) s.nodes) h' =
          Watch.update m (follows (childrenOf (s.baseZnode i) s.nodes) h)) : Moves l s i := by
  unfold Moves
  rwa [follower_about habout hnodes hafter hlive', follower_of_live hh hlive]

theorem moves_discovery (hg : guard (.discovery i) s) : Moves (.discovery i) s i := by
  have habout : (Label.discovery i).IsAbout (i, .discovery) := rfl
  left
  rw [follower_about habout rfl rfl rfl, follower_of_dead]
  · rfl
  · intro h hh
    cases hh.symm.trans hg

/-- The assignment is not part of what is followed. -/
theorem moves_assign (hg : guard (.assign i .discovery h) s) :
    Moves (.assign i .discovery h) s i := by
  by_cases hlive : h.live = true
  · exact moves_of_live hg.1 hlive rfl rfl rfl hlive (Or.inl rfl)
  · exact moves_of_dead hg.1 hlive rfl (by rintro h' ⟨⟩; rfl) rfl

theorem moves_connect (hg : guard (.connect i .discovery h) s) :
    Moves (.connect i .discovery h) s i := by
  refine moves_of_live hg.1 hg.2.1 rfl rfl rfl hg.2.1 (Or.inr ⟨.connect, trivial, ?_⟩)
  simp only [follows, Watch.update, List.countP_cons, discovers, if_true]

theorem moves_disconnect (hg : guard (.disconnect i .discovery h) s) (hlive : h.live = true) :
    Moves (.disconnect i .discovery h) s i :=
  moves_of_live hg.1 hlive rfl rfl rfl hlive (Or.inr ⟨.disconnect, trivial, rfl⟩)

/-- An event that calls `_real_discovery` is a look; the others are not counted. -/
theorem moves_deliver {e : Event} (hg : guard (.deliver i .discovery h e) s)
    (hassigned : Assigned (i, .discovery) (.deliver i .discovery h e)) :
    Moves (.deliver i .discovery h e) s i := by
  rcases hg with ⟨hh, hidle, hmem⟩
  by_cases hlive : h.live = true
  · refine moves_of_live hh hlive rfl rfl rfl hlive ?_
    cases hdiscovers : discovers e with
    | true =>
        have hreading : s.hears i .discovery h e = .reading := by
          cases e with
          | connected => exact if_pos (hassigned rfl)
          | children => rfl
          | disconnected | expired => cases hdiscovers
        right
        refine ⟨.look, ⟨?_, ?_⟩, ?_⟩
        · exact List.countP_pos_iff.mpr ⟨e, hmem, hdiscovers⟩
        · simp only [follows, hidle, reduceCtorEq, decide_false]
        · simp only [follows, Watch.update, List.countP_erase, hmem, hdiscovers, hreading,
            and_self, if_true, decide_true]
    | false =>
        have hstays : s.hears i .discovery h e = .idle := by
          cases e with
          | connected | children => cases hdiscovers
          | disconnected | expired => rfl
        left
        simp only [follows, List.countP_erase, hdiscovers, hstays, hidle, Bool.false_eq_true,
          and_false, if_false, Nat.sub_zero]
  · exact moves_of_dead hh hlive rfl (by rintro h' ⟨⟩; rfl) rfl

theorem moves_getChildren (hg : guard (.getChildren i h) s) (hlive : h.live = true)
    (hbase : s.hasBase i = true) : Moves (.getChildren i h) s i := by
  have hafter : handleAfter (.getChildren i h) s = some { h with
      watches := h.watches + 1
      lastRead := some (childrenOf (s.baseZnode i) s.nodes)
      pc := .collected (childrenOf (s.baseZnode i) s.nodes) } := if_pos hbase
  exact moves_of_live hg.1 hlive rfl rfl hafter hlive
    (Or.inr ⟨.read, decide_eq_true hg.2.2, rfl⟩)

/-- The only call of a watcher of `discovery()` is `get_children`. -/
theorem reading_of_calling (hrole : OfRole .discovery h.pc) (hcalling : Calling h) :
    h.pc = .reading := by
  unfold Calling at hcalling
  cases hpc : h.pc with
  | reading => rfl
  | creating todo | deleting entry todo =>
      rw [hpc] at hrole
      cases hrole
  | idle | collected children =>
      rw [hpc] at hcalling
      cases hcalling

theorem moves_loseDiscovery (hg : guard (.loseDiscovery i h) s)
    (hrole : OfRole .discovery h.pc) : Moves (.loseDiscovery i h) s i := by
  rcases hg with ⟨hh, hcalling, hlost⟩
  by_cases hlive : h.live = true
  · refine moves_of_live hh hlive rfl rfl rfl hlive (Or.inr ⟨.fail, ⟨?_, ?_⟩, rfl⟩)
    · exact decide_eq_true (reading_of_calling hrole hcalling)
    · refine hlost.imp_right fun hmem => ?_
      exact List.countP_pos_iff.mpr ⟨.connected, hmem, rfl⟩
  · exact moves_of_dead hh hlive rfl (by rintro h' ⟨⟩; rfl) rfl

/-- The children have been read before. -/
theorem moves_publish {children : List (List UInt8)} (hg : guard (.publish i h children) s) :
    Moves (.publish i h children) s i := by
  by_cases hlive : h.live = true
  · refine moves_of_live hg.1 hlive rfl rfl rfl hlive (Or.inl ?_)
    unfold follows
    rw [hg.2]
    rfl
  · exact moves_of_dead hg.1 hlive rfl (by rintro h' ⟨⟩; rfl) rfl

end About

/-- A step that is about the handle. -/
theorem moves_about {i : ι} (hg : guard l s) (hassigned : Assigned (i, .discovery) l)
    (hbase : s.hasBase i = true) (hs : Sound s) (habout : l.IsAbout (i, .discovery)) :
    Moves l s i := by
  cases l with
  | discovery j =>
      cases habout
      exact moves_discovery hg
  | assign j role h =>
      cases habout
      exact moves_assign hg
  | connect j role h =>
      cases habout
      exact moves_connect hg
  | disconnect j role h =>
      cases habout
      exact moves_disconnect hg ((hs _ _ _ hg.1).live hg.2)
  | expire j role h =>
      refine moves_over habout ?_
      rintro h' ⟨⟩
      rfl
  | deliver j role h e =>
      cases habout
      exact moves_deliver hg hassigned
  | getChildren j h =>
      cases habout
      exact moves_getChildren hg ((hs _ _ _ hg.1).live hg.2.1) hbase
  | loseDiscovery j h =>
      cases habout
      exact moves_loseDiscovery hg (hs _ _ _ hg.1).pc
  | publish j h children =>
      cases habout
      exact moves_publish hg
  | close j ended =>
      refine moves_over habout ?_
      rintro h' ⟨⟩
  | _ => cases habout

/-- A step of the registries is at most one step of a follower. -/
theorem follower_projection (i : ι) :
    Lts.Spec.Projection (followed i) (Watch.system (List (List UInt8))) (follower · i) where
  init := by
    rintro s ⟨_, hnone, _, _⟩
    refine ⟨childrenOf (s.baseZnode i) s.nodes, ?_⟩
    unfold follower
    rw [hnone]
  step := by
    intro l s hr ⟨hg, hassigned, hbase⟩
    by_cases habout : l.IsAbout (i, .discovery)
    · exact moves_about hg hassigned hbase (sound_reachable s hr.of_restrict) habout
    · exact moves_other habout

/-! ## The cache -/

/-- To discover the same children again changes nothing. -/
theorem realDiscovery_again (registry : ZookeeperRegistry) (children : List (List UInt8)) :
    ((registry.realDiscovery children).2.realDiscovery children).2 =
      (registry.realDiscovery children).2 := by
  unfold ZookeeperRegistry.realDiscovery
  cases ZookeeperRegistry.discoverLoop [] children <;> rfl

/-- What `_real_discovery` has at hand is what has been read last; otherwise the cache is what
that makes it. -/
structure PublishedHandle (registry : ZookeeperRegistry) (h : Handle) : Prop where
  collected : ∀ children, h.pc = .collected children → h.lastRead = some children
  published : (∀ children, h.pc ≠ .collected children) → ∀ children,
    h.lastRead = some children → (registry.realDiscovery children).2 = registry

def Published (s : Registries ι) : Prop :=
  ∀ i h, s.handles (i, .discovery) = some h → PublishedHandle (s.registry i) h

omit [DecidableEq ι] in
/-- The watchers go on, but not with children that have been read. -/
theorem PublishedHandle.congr {registry : ZookeeperRegistry} {h h' : Handle}
    (hp : PublishedHandle registry h) (hread : h'.lastRead = h.lastRead)
    (hpc : h'.pc = h.pc ∨
      (∀ children, h.pc ≠ .collected children) ∧ ∀ children, h'.pc ≠ .collected children) :
    PublishedHandle registry h' := by
  constructor
  · intro children hcollected
    rcases hpc with heq | ⟨_, hnot⟩
    · rw [hread]
      exact hp.collected children (heq.symm.trans hcollected)
    · exact absurd hcollected (hnot children)
  · intro hnot children hsome
    rw [hread] at hsome
    refine hp.published ?_ children hsome
    rcases hpc with heq | ⟨hold, _⟩
    · rwa [← heq]
    · exact hold

/-- The registry of a step that is neither `publish` nor `close` for it. -/
theorem registry_update (l : Label ι) (s : Registries ι) {i : ι}
    (hpublish : ∀ h children, l ≠ .publish i h children) (hclose : ∀ ended, l ≠ .close i ended) :
    (update l s).registry i = s.registry i := by
  cases l with
  | publish j h children =>
      have hne : i ≠ j := fun heq => hpublish h children (by rw [heq])
      exact Function.update_of_ne hne ..
  | close j ended =>
      have hne : i ≠ j := fun heq => hclose ended (by rw [heq])
      exact Function.update_of_ne hne ..
  | _ => rfl

theorem published_about {i : ι} {h : Handle} (hg : guard l s) (hp : Published s)
    (habout : l.IsAbout (i, .discovery)) (hafter : handleAfter l s = some h) :
    PublishedHandle ((update l s).registry i) h := by
  cases l with
  | discovery j =>
      cases hafter
      constructor
      · intro children hpc
        cases hpc
      · intro _ children hread
        cases hread
  | assign j role h' | connect j role h' | disconnect j role h' | expire j role h' =>
      cases habout
      cases hafter
      exact (hp i h' hg.1).congr rfl (Or.inl rfl)
  | deliver j role h' e =>
      cases habout
      cases hafter
      refine (hp i h' hg.1).congr rfl (Or.inr ⟨fun children hpc => ?_, fun children hpc => ?_⟩)
      · cases hg.2.1.symm.trans hpc
      · change s.hears i .discovery h' e = _ at hpc
        unfold hears at hpc
        split at hpc
        · split at hpc <;> cases hpc
        · split at hpc <;> cases hpc
        · cases hpc
        · cases hpc
  | getChildren j h' =>
      -- the children at hand are the ones just read
      cases habout
      simp only [handleAfter] at hafter
      split at hafter
      · cases hafter
        refine ⟨?_, fun hnot => absurd rfl (hnot _)⟩
        rintro children ⟨⟩
        rfl
      · cases hafter
        refine (hp i h' hg.1).congr rfl (Or.inr ⟨fun children hpc => ?_, fun children hpc => ?_⟩)
        · cases hg.2.2.symm.trans hpc
        · cases hpc
  | loseDiscovery j h' =>
      -- the call is lost before it has given any children
      cases habout
      cases hafter
      refine (hp i h' hg.1).congr rfl (Or.inr ⟨fun children hpc => ?_, fun children hpc => ?_⟩)
      · have hcalling := hg.2.1
        unfold Calling at hcalling
        rw [hpc] at hcalling
        exact hcalling
      · cases hpc
  | publish j h' children =>
      cases habout
      cases hafter
      refine ⟨fun other hpc => (by cases hpc), fun _ other hread => ?_⟩
      -- the cache is now what the children read last make of it
      have hchildren : children = other :=
        Option.some.inj (((hp i h' hg.1).collected children hg.2).symm.trans hread)
      subst hchildren
      show ((Function.update s.registry i _ i).realDiscovery children).2 =
        Function.update s.registry i _ i
      rw [Function.update_self]
      exact realDiscovery_again _ _
  | close j ended => cases hafter
  | _ => cases habout

theorem published_step (l : Label ι) (s : Registries ι) (hg : guard l s) (h : Published s) :
    Published (update l s) := by
  intro i h' hsome
  rcases handle_cases hsome with ⟨old, rfl, ⟨habout, hafter⟩ | ⟨hother, hold⟩⟩
  · exact (published_about hg h habout hafter).congr rfl (Or.inl rfl)
  · rw [registry_update l s]
    · exact (h i old hold).congr rfl (Or.inl rfl)
    · rintro h'' children rfl
      exact hother rfl
    · rintro ended rfl
      exact hother rfl

theorem published_reachable (s : Registries ι) (hr : (system ι).Reachable s) : Published s := by
  refine (system ι).invariant Published ?_ published_step s hr
  rintro s ⟨_, hnone, _, _⟩ i h hsome
  rw [hnone] at hsome
  cases hsome

/-- The handle is connected, and its watchers have nothing to do. -/
structure AtRest (h : Handle) : Prop where
  connected : h.connected = true
  pc : h.pc = .idle
  events : h.events = []

/-- A registry whose handle is at rest has discovered the children that there are. -/
theorem realDiscovery_at_rest {s : Registries ι} {i : ι} (hr : (followed i).Reachable s)
    {h : Handle} (hh : s.handles (i, .discovery) = some h) (hrest : AtRest h) :
    ((s.registry i).realDiscovery (childrenOf (s.baseZnode i) s.nodes)).2 = s.registry i := by
  have hlive := (sound_reachable s hr.of_restrict i .discovery h hh).live hrest.connected
  have hfollower := follower_of_live hh hlive
  have hread : h.lastRead = some (childrenOf (s.baseZnode i) s.nodes) := by
    -- a follower at rest has the value, and its copy is what has been read last
    have hcopy := Watch.at_rest ((follower_projection i).reachable hr)
      (by rw [hfollower]; exact hrest.connected)
      (by rw [hfollower]; simp only [follows, hrest.events, List.countP_nil])
      (by rw [hfollower]; simp only [follows, hrest.pc, reduceCtorEq, decide_false])
    rwa [hfollower] at hcopy
  exact (published_reachable s hr.of_restrict i h hh).published
    (fun children hpc => by cases hrest.pc.symm.trans hpc) _ hread

/-- Whoever has changed the znodes below the base znode, and however often the connection has
been lost: a registry whose handle is at rest has in its cache what discovering the children
that there are makes of them. -/
theorem cache_at_rest {s : Registries ι} (i : ι) (hr : (followed i).Reachable s) (h : Handle)
    (hh : s.handles (i, .discovery) = some h) (hrest : AtRest h)
    (tempCache : MultiMap ServiceKey Remote)
    (hloop : ZookeeperRegistry.discoverLoop [] (childrenOf (s.baseZnode i) s.nodes) =
      .ok tempCache) :
    (s.registry i).localCache = tempCache := by
  have hcache := congrArg ZookeeperRegistry.localCache (realDiscovery_at_rest hr hh hrest)
  rw [ZookeeperRegistry.realDiscovery, hloop] at hcache
  exact hcache.symm

theorem validZnode_rpc : ValidZnode (bytes "/rpc") := by decide

/-- The base znode. -/
def rpcZnode : Znode := ⟨bytes "/rpc", [], none⟩

/-- A registry below `"/rpc"`, with no other znodes. -/
def nothingYet : Registries Unit where
  nodes := [rpcZnode]
  sessions := 0
  abandoned := []
  registry := fun _ =>
    { baseZnode := bytes "/rpc", valid := validZnode_rpc, localCache := [] }
  registerEntrySet := fun _ => {}
  deleteIfExists := fun _ => true
  handles := fun _ => none

theorem init_nothingYet : (system Unit).init nothingYet := by
  refine ⟨rfl, fun _ => rfl, ?_, fun _ => rfl, rfl⟩
  intro node hnode
  cases List.mem_singleton.mp hnode
  rfl

/-- The URL of a method, as the name of a child. -/
def methodChild : List UInt8 := bytes "http%3A%2F%2Fh%3A80%2FA%2Ff%3Fserializer%3Djson"

/-- The registry discovers nothing, and is then told of a child. -/
def toldOfChild : List (Label Unit) :=
  let h : Handle := { session := 0 }
  let connected : Handle := { h with assigned := true, connected := true }
  let read : Handle := { connected with lastRead := some [], pc := .idle }
  [.discovery (), .assign () .discovery h,
    .connect () .discovery { h with assigned := true },
    .deliver () .discovery { connected with events := [.connected] } .connected,
    .getChildren () { connected with pc := .reading },
    .publish () { read with watches := 1, pc := .collected [] } [],
    .outside [rpcZnode, ⟨bytes "/rpc/" ++ methodChild, [], none⟩],
    .deliver () .discovery { read with events := [.children] } .children,
    .getChildren () { read with pc := .reading },
    .publish () { read with
      watches := 1, lastRead := some [methodChild], pc := .collected [methodChild] } [methodChild]]

/-- A test of `Assigned`. -/
def assigns (p : ι × Role) : Label ι → Bool
  | .deliver j role h .connected => (j, role) ≠ p || h.assigned
  | _ => true

theorem assigns_iff (p : ι × Role) (l : Label ι) : assigns p l = true ↔ Assigned p l := by
  cases l with
  | deliver i role h e =>
      cases e with
      | connected =>
          simp only [assigns, Assigned, Bool.or_eq_true, decide_eq_true_eq]
          exact (imp_iff_not_or).symm
      | _ => exact iff_of_true rfl trivial
  | _ => exact iff_of_true rfl trivial

instance (p : ι × Role) (l : Label ι) : Decidable (Assigned p l) :=
  decidable_of_iff _ (assigns_iff p l)

instance (i : ι) (l : Label ι) (s : Registries ι) : Decidable ((followed i).guard l s) :=
  inferInstanceAs (Decidable (_ ∧ _ ∧ _))

/-- The handle at the end. -/
def restingHandle : Handle where
  session := 0
  assigned := true
  connected := true
  watches := 1
  lastRead := some [methodChild]

theorem cache_at_rest_told :
    (((followed ()).run toldOfChild nothingYet).registry ()).localCache =
      [((bytes "http", bytes "/A/f", bytes "json"), [(bytes "h", 80)])] := by
  have hinit : (followed ()).init nothingYet := init_nothingYet
  have hread : ZookeeperRegistry.readChild methodChild =
      .ok (some ((bytes "http", bytes "/A/f", bytes "json"), (bytes "h", 80))) := by
    decide +kernel
  have hchildren : childrenOf (((followed ()).run toldOfChild nothingYet).baseZnode ())
      ((followed ()).run toldOfChild nothingYet).nodes = [methodChild] := by
    decide +kernel
  refine cache_at_rest () ((Lts.Spec.Reachable.init hinit).run toldOfChild) restingHandle
    (by decide +kernel) ⟨rfl, rfl, rfl⟩ _ ?_
  rw [hchildren, ZookeeperRegistry.discoverLoop, hread]
  rfl

end Registries

end SummerRpc
