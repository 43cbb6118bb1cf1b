import SummerRpc.ConfigurationCenter.ZookeeperConfigurationCenter
import SummerRpc.Lib.Watch
import Mathlib.Data.List.Count

/-! # What the configuration center has

As long as there is the base znode. Below the root nothing is published: there the center asks
for its children under paths that begin with two slashes.

* `follower_projection`: the center follows the version of the base znode by its watches;
* `Since`: what a key has been since a version;
* `Coherent`: what the center has read is not older than the version it has read before it;
* `not_older`: what it tells of a key, it has been since the main version;
* `configured_at_rest`: when writers have changed the base znode last, and the center has
  nothing to do, it has what they have written.
-/

namespace SummerRpc

namespace Configured

variable {κ υ : Type} [DecidableEq κ]

/-- There is the base znode, and it is not deleted. -/
def Kept (l : Label κ υ) (s : Configured κ υ) : Prop :=
  (∃ base, s.base = some base) ∧ ∃ base, baseAfter l s = some base

variable (κ υ) in
/-- The runs in which the base znode stays. -/
def kept : Lts.Spec (Configured κ υ) (Label κ υ) :=
  (system κ υ).restrict Kept

/-! ## The version -/

/-- The events after which `_real_start` is called. -/
def starts : Event → Bool
  | .connected | .changed => true
  | .disconnected | .expired => false

/-- The version of the base znode. -/
def version (s : Configured κ υ) : Option ℕ := s.base.map Configuration.version

/-- The handle as a follower of the version. -/
def follows (version : Option ℕ) (h : Handle κ υ) : Watch.State (Option ℕ) where
  value := version
  armed := h.watches
  connected := h.connected
  pending := h.events.countP starts
  reading := match h.pc with
    | .starting => true
    | _ => false
  copy := h.lastRead.map some

/-- What the center follows; with no session, it follows nothing. -/
def follower (s : Configured κ υ) : Watch.State (Option ℕ) :=
  match s.handle with
  | some h => if h.live then follows s.version h else Watch.State.fresh s.version
  | none => Watch.State.fresh s.version

/-- Only a session that has not expired is connected. -/
def Sound (s : Configured κ υ) : Prop :=
  ∀ h, s.handle = some h → h.connected = true → h.live = true

variable {s : Configured κ υ} {l : Label κ υ}

theorem sound_step (l : Label κ υ) (s : Configured κ υ) (hg : guard l s) (hs : Sound s) :
    Sound (update l s) := by
  intro h' hafter hconnected
  change handleAfter l s = some h' at hafter
  cases l with
  | start =>
      cases hh : s.handle with
      | none =>
          rw [handleAfter, hh] at hafter
          cases hafter
          cases hconnected
      | some h =>
          rw [handleAfter, hh] at hafter
          cases hafter
          exact hs h hh hconnected
  | connect h =>
      cases hafter
      exact hg.2.1
  | disconnect h | expire h =>
      cases hafter
      cases hconnected
  | deliver h e | store h _ _ | finish h _ | lose h =>
      cases hafter
      exact hs h hg.1 hconnected
  | get h | getChildren h _ =>
      simp only [handleAfter] at hafter
      split at hafter <;> (cases hafter; exact hs h hg.1 hconnected)
  | getChild h v child children tmpCache =>
      simp only [handleAfter] at hafter
      split at hafter
      · cases hafter
        exact hs h hg.1 hconnected
      · split at hafter <;> (cases hafter; exact hs h hg.1 hconnected)
  | close => cases hafter
  | setBase base | deleteBase base =>
      rcases Option.map_eq_some_iff.mp hafter with ⟨h, hh, rfl⟩
      exact hs h hh hconnected
  | setChild _ _ _ | deleteChild _ _ | createBase => exact hs h' hafter hconnected

theorem sound_reachable (s : Configured κ υ) (hr : (system κ υ).Reachable s) : Sound s := by
  refine (system κ υ).invariant Sound ?_ sound_step s hr
  rintro s ⟨_, hnone, _⟩ h hh
  rw [hnone] at hh
  cases hh

omit [DecidableEq κ] in
theorem follower_of_live {h : Handle κ υ} (hh : s.handle = some h) (hlive : h.live = true) :
    follower s = follows s.version h := by
  simp only [follower, hh, hlive, if_true]

omit [DecidableEq κ] in
theorem follower_of_dead (hdead : ∀ h, s.handle = some h → h.live = false) :
    follower s = Watch.State.fresh s.version := by
  unfold follower
  cases hh : s.handle with
  | none => rfl
  | some h => simp only [hdead h hh, Bool.false_eq_true, if_false]

/-- A session that has expired is followed by nothing, and a step that leaves the version alone
leaves this so. -/
theorem follower_stays {h : Handle κ υ} (hh : s.handle = some h) (hdead : ¬ h.live = true)
    (hversion : (update l s).version = s.version)
    (hafter : ∀ h', handleAfter l s = some h' → h'.live = h.live) :
    follower (update l s) = follower s := by
  have hdead' := Bool.eq_false_iff.mpr hdead
  rw [follower_of_dead (s := s), follower_of_dead (s := update l s), hversion]
  · exact fun h' hh' => (hafter h' hh').trans hdead'
  · intro h' hh'
    cases hh.symm.trans hh'
    exact hdead'

/-- A step of the watchers that neither begins nor ends the reading of the version. -/
theorem follower_same {h k : Handle κ υ} (hh : s.handle = some h)
    (hversion : (update l s).version = s.version) (hafter : handleAfter l s = some k)
    (hlive : k.live = h.live) (hfollows : follows s.version k = follows s.version h) :
    follower (update l s) = follower s := by
  by_cases hl : h.live = true
  · rw [follower_of_live hh hl, follower_of_live (s := update l s) hafter (hlive.trans hl),
      hversion, hfollows]
  · refine follower_stays hh hl hversion fun h'' hh'' => ?_
    cases hafter.symm.trans hh''
    exact hlive

/-- When the data of the base znode are set, the center is told, if it watches them. -/
theorem follower_setBase (base : Configuration κ υ) :
    ∃ m, Watch.guard m (follower s) ∧
      follower (update (.setBase base) s) = Watch.update m (follower s) := by
  by_cases hlive : ∃ h, s.handle = some h ∧ h.live = true
  · rcases hlive with ⟨h, hh, hl⟩
    have hafter : (update (.setBase base) s).handle = some (fire h) := by
      show s.handle.map fire = _
      rw [hh, Option.map_some]
    have hcount : (List.replicate h.watches Event.changed).countP starts = h.watches := by
      rw [List.countP_replicate, starts, if_pos rfl]
    refine ⟨.change (some (base.version + 1)), trivial, ?_⟩
    rw [follower_of_live hh hl, follower_of_live hafter hl]
    simp only [follows, fire, Watch.update, List.countP_append, hcount, Nat.add_comm]
    rfl
  -- with no session there is nothing to be told
  · refine ⟨.forget (some (base.version + 1)), trivial, ?_⟩
    rw [follower_of_dead (s := update _ s)]
    · rfl
    · intro h hh
      rcases Option.map_eq_some_iff.mp hh with ⟨old, hold, rfl⟩
      exact Bool.eq_false_iff.mpr fun hl => hlive ⟨old, hold, hl⟩

/-- What is followed stays the same, or makes one step of a follower. -/
def Moves (l : Label κ υ) (s : Configured κ υ) : Prop :=
  follower (update l s) = follower s ∨ ∃ m, Watch.guard m (follower s) ∧
    follower (update l s) = Watch.update m (follower s)

section Moves

variable {h : Handle κ υ}

/-- The version has not changed: what is followed is seen from the handle. -/
theorem moves_of_live (hh : s.handle = some h) (hlive : h.live = true)
    (hversion : (update l s).version = s.version) {h' : Handle κ υ}
    (hafter : handleAfter l s = some h') (hlive' : h'.live = true)
    (hmoves : ∃ m, Watch.guard m (follows s.version h) ∧
      follows s.version h' = Watch.update m (follows s.version h)) : Moves l s := by
  right
  rwa [follower_of_live hh hlive, follower_of_live (s := update l s) hafter hlive', hversion]

theorem moves_over (hversion : (update l s).version = s.version)
    (hafter : ∀ h', handleAfter l s = some h' → h'.live = false) : Moves l s := by
  refine Or.inr ⟨.forget s.version, trivial, ?_⟩
  rw [follower_of_dead (s := update l s) hafter, hversion]
  rfl

/-- `start()` of a center that has been started changes nothing. -/
theorem moves_start : Moves .start s := by
  left
  cases hh : s.handle with
  | none =>
      have hafter : (update .start s).handle = some {} := by
        show some (s.handle.getD {}) = _
        rw [hh, Option.getD_none]
      rw [follower_of_live hafter rfl, follower_of_dead (s := s)]
      · rfl
      · intro h hsome
        cases hh.symm.trans hsome
  | some h =>
      refine follower_same hh rfl ?_ rfl rfl
      show some (s.handle.getD {}) = _
      rw [hh, Option.getD_some]

theorem moves_connect (hg : guard (.connect h) s) : Moves (.connect h) s := by
  refine moves_of_live hg.1 hg.2.1 rfl rfl hg.2.1 ⟨.connect, trivial, ?_⟩
  simp only [follows, Watch.update, List.countP_cons, starts, if_true]

theorem moves_disconnect (hg : guard (.disconnect h) s) (hlive : h.live = true) :
    Moves (.disconnect h) s := by
  refine moves_of_live hg.1 hlive rfl rfl hlive ⟨.disconnect, trivial, ?_⟩
  simp only [follows, Watch.update, List.countP_cons, starts, Bool.false_eq_true, if_false]
  rfl

/-- An event that calls `_real_start` is a look; the others are not counted. -/
theorem moves_deliver {e : Event} (hg : guard (.deliver h e) s) : Moves (.deliver h e) s := by
  rcases hg with ⟨hh, hidle, hmem⟩
  cases hstarts : starts e with
  | true =>
      have hstarting : (hears e : WatcherPc κ υ) = .starting := by
        cases e with
        | connected | changed => rfl
        | disconnected | expired => cases hstarts
      by_cases hlive : h.live = true
      · refine moves_of_live hh hlive rfl rfl hlive
          ⟨.look, ⟨List.countP_pos_iff.mpr ⟨e, hmem, hstarts⟩, ?_⟩, ?_⟩
        · simp only [follows, hidle]
        · simp only [follows, Watch.update, List.countP_erase, hmem, hstarts, hstarting,
            and_self, if_true]
      · exact Or.inl (follower_stays hh hlive rfl (by rintro h' ⟨⟩; rfl))
  | false =>
      have hstays : (hears e : WatcherPc κ υ) = .idle := by
        cases e with
        | connected | changed => cases hstarts
        | disconnected | expired => rfl
      refine Or.inl (follower_same hh rfl rfl rfl ?_)
      simp only [follows, List.countP_erase, hstarts, hstays, hidle, Bool.false_eq_true,
        and_false, if_false, Nat.sub_zero]

theorem moves_get {base : Configuration κ υ} (hbase : s.base = some base)
    (hg : guard (.get h) s) (hlive : h.live = true) : Moves (.get h) s := by
  have hafter : handleAfter (.get h) s = some
      { h with
        watches := h.watches + 1
        lastRead := some base.version
        pc := .versioned base.version } := by
    rw [handleAfter, hbase]
  have hversion : s.version = some base.version := by rw [version, hbase, Option.map_some]
  refine moves_of_live hg.1 hlive rfl hafter hlive ⟨.read, ?_, ?_⟩
  · simp only [Watch.guard, follows, hg.2.2]
  · simp only [follows, Watch.update, hversion, Option.map_some]

/-- The version has been read, whatever becomes of the children. -/
theorem moves_reading (pc : WatcherPc κ υ) (hh : s.handle = some h)
    (hversion : (update l s).version = s.version)
    (hafter : handleAfter l s = some { h with pc := pc }) (hbefore : h.pc ≠ .starting)
    (hnow : pc ≠ .starting) : Moves l s := by
  refine Or.inl (follower_same hh hversion hafter rfl ?_)
  unfold follows
  cases hpc : h.pc <;> cases pc <;> first | rfl | contradiction

theorem moves_getChild {v : ℕ} {child : κ} {children : List κ} {tmpCache : AList fun _ : κ => υ}
    (hg : guard (.getChild h v child children tmpCache) s) :
    Moves (.getChild h v child children tmpCache) s := by
  have hpc : h.pc ≠ .starting := by
    rw [hg.2.2]
    rintro ⟨⟩
  by_cases hroot : s.baseZnode = [47]
  · exact moves_reading .idle hg.1 rfl (if_pos hroot) hpc (by rintro ⟨⟩)
  · cases hvalue : s.base.bind (·.values.lookup child) with
    | none =>
        refine moves_reading .idle hg.1 rfl ?_ hpc (by rintro ⟨⟩)
        simp only [handleAfter, if_neg hroot, hvalue]
    | some value =>
        refine moves_reading (.fetching v children (tmpCache.insert child value)) hg.1 rfl
          ?_ hpc (by rintro ⟨⟩)
        simp only [handleAfter, if_neg hroot, hvalue]

/-- A connection that comes back will ask for the version again, if that has not been read. -/
theorem moves_lose (hg : guard (.lose h) s) : Moves (.lose h) s := by
  rcases hg with ⟨hh, hcalling, hlost⟩
  cases hpc : h.pc with
  | starting =>
      by_cases hlive : h.live = true
      · refine moves_of_live hh hlive rfl rfl hlive ⟨.fail, ⟨?_, ?_⟩, ?_⟩
        · simp only [follows, hpc]
        · refine hlost.imp_right fun hmem => ?_
          exact List.countP_pos_iff.mpr ⟨.connected, hmem, rfl⟩
        · simp only [follows, Watch.update]
      · exact Or.inl (follower_stays hh hlive rfl (by rintro h' ⟨⟩; rfl))
  | _ => exact moves_reading .idle hh rfl rfl (by rw [hpc]; rintro ⟨⟩) (by rintro ⟨⟩)

end Moves

theorem follower_step (hg : guard l s) (hkept : Kept l s) (hs : Sound s) : Moves l s := by
  cases l with
  | start => exact moves_start
  | connect h => exact moves_connect hg
  | disconnect h => exact moves_disconnect hg (hs h hg.1 hg.2)
  | expire h =>
      refine moves_over rfl ?_
      rintro h' ⟨⟩
      rfl
  | deliver h e => exact moves_deliver hg
  | get h =>
      rcases hkept with ⟨⟨base, hbase⟩, _⟩
      exact moves_get hbase hg (hs h hg.1 hg.2.1)
  | getChildren h mainVersion =>
      rcases hkept with ⟨⟨base, hbase⟩, _⟩
      refine moves_reading (.fetching mainVersion base.values.keys ∅) hg.1 rfl ?_ ?_ ?_
      · rw [handleAfter, hbase]
      · rw [hg.2.2]
        rintro ⟨⟩
      · rintro ⟨⟩
  | getChild h mainVersion child children tmpCache => exact moves_getChild hg
  | store h mainVersion tmpCache =>
      exact moves_reading (.publishing mainVersion) hg.1 rfl rfl (by rw [hg.2]; rintro ⟨⟩)
        (by rintro ⟨⟩)
  | finish h mainVersion =>
      exact moves_reading .idle hg.1 rfl rfl (by rw [hg.2]; rintro ⟨⟩) (by rintro ⟨⟩)
  | lose h => exact moves_lose hg
  | close =>
      refine moves_over rfl ?_
      rintro h' ⟨⟩
  | setBase base => exact Or.inr (follower_setBase base)
  | setChild base key value | deleteChild base key =>
      -- the children have no part in the version
      left
      have hversion : s.version = some base.version := by
        rw [version, show s.base = some base from hg, Option.map_some]
      unfold follower
      rw [hversion]
      rfl
  | createBase =>
      rcases hkept with ⟨⟨base, hbase⟩, _⟩
      cases hbase.symm.trans hg
  | deleteBase base =>
      rcases hkept with ⟨_, _, hbase⟩
      cases hbase

/-- A step of the center or a writer is at most one step of the follower. -/
theorem follower_projection :
    Lts.Spec.Projection (kept κ υ) (Watch.system (Option ℕ)) follower where
  init := by
    rintro s ⟨_, hnone, _⟩
    refine ⟨s.version, ?_⟩
    unfold follower
    rw [hnone]
  step := fun l s hr hg => follower_step hg.1 hg.2 (sound_reachable s hr.of_restrict)

/-! ## What has been read -/

/-- The key has been so, at a moment when the version was not less than this one. -/
def Since (s : Configured κ υ) (version : ℕ) (key : κ) (value : Option υ) : Prop :=
  ∃ base ∈ s.past, version ≤ base.version ∧ base.values.lookup key = value

/-- A key was there and was not there. -/
def Gone (s : Configured κ υ) (version : ℕ) : Prop :=
  ∃ key, (∃ value, Since s version key (some value)) ∧ Since s version key none

/-- A cache that was read after this version. -/
def Snapshot (s : Configured κ υ) (version : ℕ) (cache : AList fun _ : κ => υ) : Prop :=
  ∀ key, Since s version key (cache.lookup key)

theorem Since.update {version : ℕ} {key : κ} {value : Option υ} (h : Since s version key value)
    (l : Label κ υ) : Since (update l s) version key value := by
  rcases h with ⟨base, hbase, hle, hlookup⟩
  exact ⟨base, List.mem_append_right _ hbase, hle, hlookup⟩

theorem Since.le {v w : ℕ} {key : κ} {value : Option υ} (h : Since s w key value) (hle : v ≤ w) :
    Since s v key value := by
  rcases h with ⟨base, hbase, hle', hlookup⟩
  exact ⟨base, hbase, Nat.le_trans hle hle', hlookup⟩

theorem Gone.update {version : ℕ} (h : Gone s version) (l : Label κ υ) :
    Gone (update l s) version := by
  rcases h with ⟨key, ⟨value, hvalue⟩, hnone⟩
  exact ⟨key, ⟨value, hvalue.update l⟩, hnone.update l⟩

/-- The past ends with the present, and versions grow. -/
structure Chronicle (s : Configured κ υ) : Prop where
  present : ∀ base, s.base = some base → base ∈ s.past
  newest : ∀ old ∈ s.past, ∀ base, s.base = some base → old.version ≤ base.version

/-- What the watchers have at hand. -/
def Holds (s : Configured κ υ) : WatcherPc κ υ → Prop
  | .idle | .starting => True
  | .versioned _ => True
  | .fetching v children tmpCache =>
      (∀ key ∈ children, ∃ value, Since s v key (some value)) ∧
        ∀ key ∉ children, Since s v key (tmpCache.lookup key)
  | .publishing v => ∃ cache, s.center.localCache = some cache ∧ Snapshot s v cache

/-- The version that the watchers are reading the children of. -/
def reads : WatcherPc κ υ → Option ℕ
  | .idle | .starting => none
  | .versioned v | .fetching v _ _ | .publishing v => some v

/-- What a handle has read, beside the center. -/
structure CoherentHandle (s : Configured κ υ) (h : Handle κ υ) : Prop where
  holds : Holds s h.pc
  lastRead : ∀ v, reads h.pc = some v → h.lastRead = some v
  /-- versions are read in their order -/
  later : ∀ v, h.lastRead = some v → ∀ base, s.base = some base → v ≤ base.version
  main : ∀ v, reads h.pc = some v → ∀ w, s.center.mainVersion = some w → w ≤ v
  /-- what has been read is published, or something has come between -/
  idle : h.pc = .idle → ∀ v, h.lastRead = some v → s.center.mainVersion = some v ∨
    h.connected = false ∨ .connected ∈ h.events ∨ Gone s v ∨ s.baseZnode = [47]

/-- What the center has read is not older than its main version. -/
structure Coherent (s : Configured κ υ) : Prop where
  stored : ∀ v, s.center.mainVersion = some v →
    ∃ cache, s.center.localCache = some cache ∧ Snapshot s v cache
  main : ∀ v, s.center.mainVersion = some v → ∀ base, s.base = some base → v ≤ base.version
  handle : ∀ h, s.handle = some h → CoherentHandle s h

theorem chronicle_step (l : Label κ υ) (s : Configured κ υ) (hg : guard l s) (hkept : Kept l s)
    (h : Chronicle s) : Chronicle (update l s) := by
  rcases hkept with ⟨⟨base, hbase⟩, after, hafter⟩
  -- the version is not less than before
  have hle : base.version ≤ after.version := by
    cases l with
    | setBase base' =>
        -- `zookeeper.set` counts the version up; nothing else changes it
        cases hafter
        cases hbase.symm.trans hg
        exact Nat.le_succ _
    | setChild base' _ _ | deleteChild base' _ =>
        cases hafter
        cases hbase.symm.trans hg
        exact Nat.le_refl _
    | createBase => cases hbase.symm.trans hg
    | deleteBase => cases hafter
    | _ =>
        cases hbase.symm.trans hafter
        exact Nat.le_refl _
  have hpast : (update l s).past = after :: s.past := by
    show (baseAfter l s).toList ++ s.past = _
    rw [hafter]
    rfl
  constructor
  · intro base' hbase'
    cases hafter.symm.trans hbase'
    rw [hpast]
    exact List.mem_cons_self
  · intro old hold base' hbase'
    cases hafter.symm.trans hbase'
    rw [hpast] at hold
    rcases List.mem_cons.mp hold with rfl | hold
    · exact Nat.le_refl _
    · exact Nat.le_trans (h.newest old hold base hbase) hle

theorem chronicle_reachable (s : Configured κ υ) (hr : (kept κ υ).Reachable s) : Chronicle s := by
  refine (kept κ υ).invariant Chronicle ?_ ?_ s hr
  · rintro s ⟨_, _, hpast⟩
    constructor
    · intro base hbase
      rw [hpast, hbase]
      exact List.mem_singleton.mpr rfl
    · intro old hold base hbase
      rw [hpast, hbase] at hold
      cases List.mem_singleton.mp hold
      exact Nat.le_refl _
  · exact fun l s hg h => chronicle_step l s hg.1 hg.2 h

/-- Versions grow. -/
theorem version_le (hbefore : Chronicle s) (hafter : Chronicle (update l s)) {v : ℕ}
    (hv : ∀ base, s.base = some base → v ≤ base.version) (hkept : Kept l s) :
    ∀ base, (update l s).base = some base → v ≤ base.version := by
  rcases hkept with ⟨⟨old, hold⟩, _⟩
  intro base hbase
  have hmem : old ∈ (update l s).past := List.mem_append_right _ (hbefore.present old hold)
  exact Nat.le_trans (hv old hold) (hafter.newest old hmem base hbase)

theorem Holds.update {pc : WatcherPc κ υ} (h : Holds s pc) (hcenter : centerAfter l s = s.center) :
    Holds (update l s) pc := by
  cases pc with
  | idle | starting | versioned v => trivial
  | fetching v children tmpCache =>
      refine ⟨fun key hkey => ?_, fun key hkey => (h.2 key hkey).update l⟩
      rcases h.1 key hkey with ⟨value, hvalue⟩
      exact ⟨value, hvalue.update l⟩
  | publishing v =>
      rcases h with ⟨cache, hcache, hsnapshot⟩
      refine ⟨cache, ?_, fun key => (hsnapshot key).update l⟩
      show (centerAfter l s).localCache = some cache
      rw [hcenter, hcache]

/-- The watchers stay where they are. -/
theorem CoherentHandle.stays {h h' : Handle κ υ} (hc : CoherentHandle s h)
    (hbefore : Chronicle s) (hafter : Chronicle (Configured.update l s)) (hkept : Kept l s)
    (hcenter : centerAfter l s = s.center) (hpc : h'.pc = h.pc) (hread : h'.lastRead = h.lastRead)
    (hidle : h.connected = false ∨ .connected ∈ h.events →
      h'.connected = false ∨ .connected ∈ h'.events) :
    CoherentHandle (Configured.update l s) h' where
  holds := by
    rw [hpc]
    exact hc.holds.update hcenter
  lastRead := by
    rw [hpc, hread]
    exact hc.lastRead
  later := by
    rw [hread]
    exact fun v hv => version_le hbefore hafter (hc.later v hv) hkept
  main := by
    rw [hpc]
    intro v hv w hw
    change (centerAfter l s).mainVersion = some w at hw
    rw [hcenter] at hw
    exact hc.main v hv w hw
  idle := by
    rw [hpc, hread]
    intro hpc' v hv
    show (centerAfter l s).mainVersion = some v ∨ _
    rw [hcenter]
    -- what has come between is not undone
    rcases hc.idle hpc' v hv with hmain | hfalse | hmem | hgone | hroot
    · exact Or.inl hmain
    · exact Or.inr (or_assoc.mp (Or.inl (hidle (Or.inl hfalse))))
    · exact Or.inr (or_assoc.mp (Or.inl (hidle (Or.inr hmem))))
    · exact Or.inr (Or.inr (Or.inr (Or.inl (hgone.update l))))
    · exact Or.inr (Or.inr (Or.inr (Or.inr hroot)))

/-- The watchers go on, with what has been read. -/
theorem CoherentHandle.goes {h h' : Handle κ υ} (hc : CoherentHandle s h)
    (hbefore : Chronicle s) (hafter : Chronicle (Configured.update l s)) (hkept : Kept l s)
    (hmain : (centerAfter l s).mainVersion = s.center.mainVersion)
    (hread : h'.lastRead = h.lastRead) (hholds : Holds (Configured.update l s) h'.pc)
    (hreads : reads h'.pc = none ∨ reads h'.pc = reads h.pc)
    (hidle : h'.pc = .idle → ∀ v, h.lastRead = some v → h'.connected = false ∨
      .connected ∈ h'.events ∨ Gone (Configured.update l s) v ∨ s.baseZnode = [47]) :
    CoherentHandle (Configured.update l s) h' where
  holds := hholds
  lastRead := by
    intro v hv
    rw [hread]
    rcases hreads with hnone | hsame
    · cases hnone.symm.trans hv
    · exact hc.lastRead v (hsame.symm.trans hv)
  later := by
    rw [hread]
    exact fun v hv => version_le hbefore hafter (hc.later v hv) hkept
  main := by
    intro v hv w hw
    change (centerAfter l s).mainVersion = some w at hw
    rw [hmain] at hw
    rcases hreads with hnone | hsame
    · cases hnone.symm.trans hv
    · exact hc.main v (hsame.symm.trans hv) w hw
  idle := by
    rw [hread]
    exact fun hpc v hv => Or.inr (hidle hpc v hv)

/-- A key as it is now. -/
theorem Chronicle.now (h : Chronicle s) {base : Configuration κ υ} (hbase : s.base = some base)
    {v : ℕ} (hle : v ≤ base.version) (key : κ) : Since s v key (base.values.lookup key) :=
  ⟨base, h.present base hbase, hle, rfl⟩

section Handle

variable {h h' : Handle κ υ} {v : ℕ}

/-- `start()`: nothing has been read, or the handle stays. -/
theorem coherent_start (hkept : Kept .start s) (hbefore : Chronicle s)
    (hafter : Chronicle (update .start s)) (hc : Coherent s)
    (hsome : handleAfter .start s = some h') : CoherentHandle (update .start s) h' := by
  cases hh : s.handle with
  | none =>
      rw [handleAfter, hh] at hsome
      cases hsome
      constructor
      · trivial
      · rintro v ⟨⟩
      · rintro v ⟨⟩
      · rintro v ⟨⟩
      · rintro _ v ⟨⟩
  | some h =>
      rw [handleAfter, hh] at hsome
      cases hsome
      exact (hc.handle h hh).stays hbefore hafter hkept rfl rfl rfl id

theorem coherent_deliver {e : Event} (hg : guard (.deliver h e) s) (hkept : Kept (.deliver h e) s)
    (hbefore : Chronicle s) (hafter : Chronicle (update (.deliver h e) s)) (hc : Coherent s)
    (hsome : handleAfter (.deliver h e) s = some h') :
    CoherentHandle (update (.deliver h e) s) h' := by
  cases hsome
  rcases hg with ⟨hh, hidle, hmem⟩
  cases e with
  | connected | changed =>
      -- `_real_start` is called, and has read nothing yet
      refine (hc.handle h hh).goes hbefore hafter hkept rfl rfl trivial (Or.inl rfl) ?_
      rintro ⟨⟩
  | disconnected | expired =>
      refine (hc.handle h hh).stays hbefore hafter hkept rfl hidle.symm rfl ?_
      refine Or.imp_right fun hconnected => ?_
      exact (List.mem_erase_of_ne (by rintro ⟨⟩)).mpr hconnected

/-- The version read is the present one, so no version published is later. -/
theorem coherent_get (hkept : Kept (.get h) s) (hc : Coherent s)
    (hsome : handleAfter (.get h) s = some h') : CoherentHandle (update (.get h) s) h' := by
  rcases hkept with ⟨⟨base, hbase⟩, _⟩
  rw [handleAfter, hbase] at hsome
  cases hsome
  constructor
  · trivial
  · exact fun v hv => hv
  · rintro v ⟨⟩ base' hbase'
    cases hbase.symm.trans hbase'
    exact Nat.le_refl _
  · rintro v ⟨⟩ w hw
    exact hc.main w hw base hbase
  · rintro ⟨⟩

theorem coherent_getChildren (hg : guard (.getChildren h v) s) (hkept : Kept (.getChildren h v) s)
    (hbefore : Chronicle s) (hafter : Chronicle (update (.getChildren h v) s)) (hc : Coherent s)
    (hsome : handleAfter (.getChildren h v) s = some h') :
    CoherentHandle (update (.getChildren h v) s) h' := by
  rcases hg with ⟨hh, _, hpc⟩
  rcases hkept.1 with ⟨base, hbase⟩
  rw [handleAfter, hbase] at hsome
  cases hsome
  have hold := hc.handle h hh
  have hle := hold.later v (hold.lastRead v (by rw [hpc]; rfl)) base hbase
  refine hold.goes hbefore hafter hkept rfl rfl ⟨fun key hkey => ?_, fun key hkey => ?_⟩
    (Or.inr (by rw [hpc]; rfl)) (by rintro ⟨⟩)
  -- the children there are have their values now, and the other keys have none
  · obtain ⟨value, hvalue⟩ := Option.isSome_iff_exists.mp
      (AList.lookup_isSome.mpr (AList.mem_keys.mpr hkey))
    refine ⟨value, ?_⟩
    rw [← hvalue]
    exact hafter.now hbase hle key
  · have hnone : base.values.lookup key = none :=
      AList.lookup_eq_none.mpr fun hmem => hkey (AList.mem_keys.mp hmem)
    rw [AList.lookup_empty, ← hnone]
    exact hafter.now hbase hle key

theorem coherent_getChild {child : κ} {children : List κ} {tmpCache : AList fun _ : κ => υ}
    (hg : guard (.getChild h v child children tmpCache) s)
    (hkept : Kept (.getChild h v child children tmpCache) s) (hbefore : Chronicle s)
    (hafter : Chronicle (update (.getChild h v child children tmpCache) s)) (hc : Coherent s)
    (hsome : handleAfter (.getChild h v child children tmpCache) s = some h') :
    CoherentHandle (update (.getChild h v child children tmpCache) s) h' := by
  rcases hg with ⟨hh, _, hpc⟩
  rcases hkept.1 with ⟨base, hbase⟩
  have hold := hc.handle h hh
  have hlast := hold.lastRead v (by rw [hpc]; rfl)
  have hnow := hafter.now hbase (hold.later v hlast base hbase) child
  have hholds := hold.holds.update (l := .getChild h v child children tmpCache) rfl
  rw [hpc] at hholds
  by_cases hroot : s.baseZnode = [47]
  -- nothing below the root is ever read
  · rw [handleAfter, if_pos hroot] at hsome
    cases hsome
    exact hold.goes hbefore hafter hkept rfl rfl trivial (Or.inl rfl)
      fun _ _ _ => Or.inr (Or.inr (Or.inr hroot))
  rw [handleAfter, if_neg hroot, hbase, Option.bind_some] at hsome
  cases hvalue : base.values.lookup child with
  | none =>
      -- it was among the children
      rw [hvalue] at hsome hnow
      cases hsome
      refine hold.goes hbefore hafter hkept rfl rfl trivial (Or.inl rfl) fun _ w hw => ?_
      cases hlast.symm.trans hw
      exact Or.inr (Or.inr (Or.inl ⟨child, hholds.1 child List.mem_cons_self, hnow⟩))
  | some value =>
      rw [hvalue] at hsome
      cases hsome
      refine hold.goes hbefore hafter hkept rfl rfl
        ⟨fun key hkey => hholds.1 key (List.mem_cons_of_mem _ hkey), fun key hkey => ?_⟩
        (Or.inr (by rw [hpc]; rfl)) (by rintro ⟨⟩)
      -- the child is as it is now; the others are as they were when they were read
      by_cases heq : key = child
      · subst heq
        rw [AList.lookup_insert, ← hvalue]
        exact hnow
      · rw [AList.lookup_insert_ne heq]
        exact hholds.2 key fun hmem => (List.mem_cons.mp hmem).elim heq hkey

theorem coherent_store {tmpCache : AList fun _ : κ => υ} (hg : guard (.store h v tmpCache) s)
    (hkept : Kept (.store h v tmpCache) s) (hbefore : Chronicle s)
    (hafter : Chronicle (update (.store h v tmpCache) s)) (hc : Coherent s)
    (hsome : handleAfter (.store h v tmpCache) s = some h') :
    CoherentHandle (update (.store h v tmpCache) s) h' := by
  cases hsome
  rcases hg with ⟨hh, hpc⟩
  have hold := hc.handle h hh
  have hholds := hold.holds
  rw [hpc] at hholds
  exact hold.goes hbefore hafter hkept rfl rfl
    ⟨tmpCache, rfl, fun key => (hholds.2 key List.not_mem_nil).update _⟩
    (Or.inr (by rw [hpc]; rfl)) (by rintro ⟨⟩)

/-- The version read is the version published. -/
theorem coherent_finish (hg : guard (.finish h v) s) (hkept : Kept (.finish h v) s)
    (hbefore : Chronicle s) (hafter : Chronicle (update (.finish h v) s)) (hc : Coherent s)
    (hsome : handleAfter (.finish h v) s = some h') :
    CoherentHandle (update (.finish h v) s) h' := by
  cases hsome
  rcases hg with ⟨hh, hpc⟩
  have hold := hc.handle h hh
  have hv := hold.lastRead v (by rw [hpc]; rfl)
  constructor
  · trivial
  · rintro w ⟨⟩
  · exact fun w hw => version_le hbefore hafter (hold.later w hw) hkept
  · rintro w ⟨⟩
  · intro _ w hw
    cases hv.symm.trans hw
    exact Or.inl rfl

/-- Lost with the connection, which is not there or will be told of. -/
theorem coherent_lose (hg : guard (.lose h) s) (hkept : Kept (.lose h) s) (hbefore : Chronicle s)
    (hafter : Chronicle (update (.lose h) s)) (hc : Coherent s)
    (hsome : handleAfter (.lose h) s = some h') : CoherentHandle (update (.lose h) s) h' := by
  cases hsome
  rcases hg with ⟨hh, _, hlost⟩
  exact (hc.handle h hh).goes hbefore hafter hkept rfl rfl trivial (Or.inl rfl)
    fun _ _ _ => or_assoc.mp (Or.inl hlost)

end Handle

theorem coherentHandle_step (hg : guard l s) (hkept : Kept l s) (hbefore : Chronicle s)
    (hafter : Chronicle (update l s)) (hc : Coherent s) {h' : Handle κ υ}
    (hsome : handleAfter l s = some h') : CoherentHandle (update l s) h' := by
  cases l with
  | start => exact coherent_start hkept hbefore hafter hc hsome
  | connect h =>
      cases hsome
      exact (hc.handle h hg.1).stays hbefore hafter hkept rfl rfl rfl
        fun _ => Or.inr List.mem_cons_self
  | disconnect h | expire h =>
      cases hsome
      exact (hc.handle h hg.1).stays hbefore hafter hkept rfl rfl rfl fun _ => Or.inl rfl
  | deliver h e => exact coherent_deliver hg hkept hbefore hafter hc hsome
  | get h => exact coherent_get hkept hc hsome
  | getChildren h v => exact coherent_getChildren hg hkept hbefore hafter hc hsome
  | getChild h v child children tmpCache =>
      exact coherent_getChild hg hkept hbefore hafter hc hsome
  | store h v tmpCache => exact coherent_store hg hkept hbefore hafter hc hsome
  | finish h v => exact coherent_finish hg hkept hbefore hafter hc hsome
  | lose h => exact coherent_lose hg hkept hbefore hafter hc hsome
  | close => cases hsome
  | setBase base =>
      rcases Option.map_eq_some_iff.mp hsome with ⟨h, hh, rfl⟩
      exact (hc.handle h hh).stays hbefore hafter hkept rfl rfl rfl
        (Or.imp_right (List.mem_append_right _))
  | setChild _ _ _ | deleteChild _ _ =>
      exact (hc.handle h' hsome).stays hbefore hafter hkept rfl rfl rfl id
  | createBase =>
      rcases hkept with ⟨⟨base, hbase⟩, _⟩
      cases hbase.symm.trans hg
  | deleteBase base =>
      rcases hkept with ⟨_, _, hbase⟩
      cases hbase

theorem coherent_step (l : Label κ υ) (s : Configured κ υ) (hg : guard l s) (hkept : Kept l s)
    (hbefore : Chronicle s) (hafter : Chronicle (update l s)) (hc : Coherent s) :
    Coherent (update l s) := by
  have hhandle : ∀ h', (update l s).handle = some h' → CoherentHandle (update l s) h' :=
    fun h' hsome => coherentHandle_step hg hkept hbefore hafter hc hsome
  -- where the attributes stay
  have hstays : centerAfter l s = s.center → Coherent (update l s) := by
    intro hcenter
    constructor
    · intro v hv
      change (centerAfter l s).mainVersion = some v at hv
      rw [hcenter] at hv
      rcases hc.stored v hv with ⟨cache, hcache, hsnapshot⟩
      refine ⟨cache, ?_, fun key => (hsnapshot key).update l⟩
      show (centerAfter l s).localCache = some cache
      rw [hcenter, hcache]
    · intro v hv
      change (centerAfter l s).mainVersion = some v at hv
      rw [hcenter] at hv
      exact version_le hbefore hafter (hc.main v hv) hkept
    · exact hhandle
  cases l with
  | store h v tmpCache =>
      have hold := hc.handle h hg.1
      have hholds := hold.holds
      rw [hg.2] at hholds
      refine ⟨fun w hw => ⟨tmpCache, rfl, fun key => ?_⟩, hc.main, hhandle⟩
      -- the dictionary is new and the version is still the old one, which is not later
      have hle : w ≤ v := hold.main v (by rw [hg.2]; rfl) w hw
      exact ((hholds.2 key List.not_mem_nil).update _).le hle
  | finish h v =>
      have hold := hc.handle h hg.1
      have hholds := hold.holds
      rw [hg.2] at hholds
      refine ⟨?_, ?_, hhandle⟩
      · rintro w ⟨⟩
        -- the dictionary has been assigned before
        rcases hholds with ⟨cache, hcache, hsnapshot⟩
        exact ⟨cache, hcache, fun key => (hsnapshot key).update _⟩
      · rintro w ⟨⟩
        exact hold.later v (hold.lastRead v (by rw [hg.2]; rfl))
  | _ => exact hstays rfl

theorem coherent_reachable (s : Configured κ υ) (hr : (kept κ υ).Reachable s) : Coherent s := by
  refine (kept κ υ).invariant_with Chronicle Coherent chronicle_reachable ?_ ?_ s hr
  · rintro s ⟨hcenter, hnone, _⟩
    constructor
    · intro v hv
      rw [hcenter] at hv
      cases hv
    · intro v hv
      rw [hcenter] at hv
      cases hv
    · intro h hh
      rw [hnone] at hh
      cases hh
  · exact fun l s hg hbefore hafter hc => coherent_step l s hg.1 hg.2 hbefore hafter hc

/-! ## What the center tells -/

/-- At every moment: what the center tells of a key, the key has been since the base znode got
the version that the center tells. -/
theorem not_older {s : Configured κ υ} (hr : (kept κ υ).Reachable s) {v : ℕ}
    (hv : s.center.mainVersion = some v) (key : κ) :
    ∃ base ∈ s.past, v ≤ base.version ∧
      s.center.getKey key = .ok (base.values.lookup key) := by
  rcases (coherent_reachable s hr).stored v hv with ⟨cache, hcache, hsnapshot⟩
  rcases hsnapshot key with ⟨base, hbase, hle, hlookup⟩
  refine ⟨base, hbase, hle, ?_⟩
  rw [ZookeeperConfigurationCenter.getKey, hcache, hlookup]

/-- The session is connected, and the watchers have nothing to do. -/
structure AtRest (h : Handle κ υ) : Prop where
  connected : h.connected = true
  pc : h.pc = .idle
  events : h.events = []

/-- The writers have changed the base znode after the children. -/
def Settled (s : Configured κ υ) (base : Configuration κ υ) : Prop :=
  ∀ old ∈ s.past, old.version = base.version → old.values = base.values

/-- However often the connection has been lost, and whatever children were written while they
were read: when the writers have changed the base znode last and the center has nothing to do,
it tells the version there is, and of each key what it is. The base znode is not the root. -/
theorem configured_at_rest {s : Configured κ υ} (hr : (kept κ υ).Reachable s) {h : Handle κ υ}
    (hroot : s.baseZnode ≠ [47]) (hh : s.handle = some h) (hrest : AtRest h)
    {base : Configuration κ υ} (hbase : s.base = some base) (hsettled : Settled s base) :
    s.center.mainVersion = some base.version ∧
      (∀ key, s.center.getKey key = .ok (base.values.lookup key)) ∧
      ∃ items, s.center.iteritems = .ok items ∧
        ∀ key value, ⟨key, value⟩ ∈ items ↔ base.values.lookup key = some value := by
  have hchronicle := chronicle_reachable s hr
  have hcoherent := coherent_reachable s hr
  -- a key that has been so since this version is so
  have hsince : ∀ key value, Since s base.version key value → value = base.values.lookup key := by
    rintro key value ⟨old, hold, hle, rfl⟩
    have hversion := Nat.le_antisymm (hchronicle.newest old hold base hbase) hle
    rw [hsettled old hold hversion]
  have hlive := sound_reachable s hr.of_restrict h hh hrest.connected
  have hread : h.lastRead = some base.version := by
    have hcopy := Watch.at_rest (follower_projection.reachable hr)
      (by rw [follower_of_live hh hlive]; exact hrest.connected)
      (by rw [follower_of_live hh hlive]; simp only [follows, hrest.events, List.countP_nil])
      (by rw [follower_of_live hh hlive]; simp only [follows, hrest.pc])
    rw [follower_of_live hh hlive] at hcopy
    have hversion : s.version = some base.version := by rw [version, hbase, Option.map_some]
    rcases Option.map_eq_some_iff.mp hcopy with ⟨v, hv, hsame⟩
    rw [hv]
    exact hsame.trans hversion
  have hmain : s.center.mainVersion = some base.version := by
    rcases (hcoherent.handle h hh).idle hrest.pc base.version hread with
      hmain | hfalse | hmem | ⟨key, ⟨value, hvalue⟩, hnone⟩ | habsurd
    · exact hmain
    · cases hrest.connected.symm.trans hfalse
    · rw [hrest.events] at hmem
      cases hmem
    · -- no child has gone
      cases (hsince key _ hvalue).trans (hsince key _ hnone).symm
    · exact absurd habsurd hroot
  rcases hcoherent.stored base.version hmain with ⟨cache, hcache, hsnapshot⟩
  refine ⟨hmain, fun key => ?_, cache.entries, ?_, fun key value => ?_⟩
  · rw [ZookeeperConfigurationCenter.getKey, hcache, ← hsince key _ (hsnapshot key)]
  · rw [ZookeeperConfigurationCenter.iteritems, hcache]
  · rw [← hsince key _ (hsnapshot key), ← AList.mem_lookup_iff, Option.mem_def]

/-! ## A value that is changed -/

/-- The value of the key `1`, and the version. -/
def oneValue (version value : ℕ) : Configuration ℕ ℕ where
  version := version
  values := AList.insert 1 value ∅

/-- Nothing has been read. -/
def unread : Configured ℕ ℕ where
  baseZnode := [47, 99]
  base := some (oneValue 0 10)
  past := [oneValue 0 10]

/-- `_real_start`, when there is nothing but the key `1`. -/
def realStart (h : Handle ℕ ℕ) (version value : ℕ) : List (Label ℕ ℕ) :=
  let h' := { h with watches := h.watches + 1, lastRead := some version }
  [.get { h with pc := .starting },
    .getChildren { h' with pc := .versioned version } version,
    .getChild { h' with pc := .fetching version [1] ∅ } version 1 [] ∅,
    .store { h' with pc := .fetching version [] (AList.insert 1 value ∅) } version
      (AList.insert 1 value ∅),
    .finish { h' with pc := .publishing version } version]

/-- A writer changes the value and then the base znode. -/
def valueChanged : List (Label ℕ ℕ) :=
  let connected : Handle ℕ ℕ := { connected := true }
  let read : Handle ℕ ℕ := { connected with lastRead := some 0 }
  [.start, .connect {}, .deliver { connected with events := [.connected] } .connected] ++
    realStart connected 0 10 ++
    [.setChild (oneValue 0 10) 1 20, .setBase (oneValue 0 20),
      .deliver { read with events := [.changed] } .changed] ++
    realStart read 1 20

instance (l : Label κ υ) (s : Configured κ υ) : Decidable (Kept l s) :=
  decidable_of_iff (s.base.isSome = true ∧ (baseAfter l s).isSome = true)
    (and_congr Option.isSome_iff_exists Option.isSome_iff_exists)

instance [DecidableEq υ] (l : Label κ υ) (s : Configured κ υ) :
    Decidable ((kept κ υ).guard l s) :=
  inferInstanceAs (Decidable (_ ∧ _))

theorem reachable_unread : (kept ℕ ℕ).Reachable unread :=
  Lts.Spec.Reachable.init ⟨rfl, rfl, rfl⟩

/-- The value has been changed, and the version has not. -/
theorem not_older_changed :
    let s := (kept ℕ ℕ).run (valueChanged.take 9) unread
    s.base = some (oneValue 0 20) ∧ s.center.getKey 1 = .ok (some 10) ∧
      ∃ base ∈ s.past, 0 ≤ base.version ∧ s.center.getKey 1 = .ok (base.values.lookup 1) := by
  intro s
  have hmain : s.center.mainVersion = some 0 := by decide +kernel
  have hcache : s.center.localCache = some (AList.insert 1 10 ∅) := by decide +kernel
  refine ⟨by decide +kernel, ?_, not_older (reachable_unread.run _) hmain 1⟩
  rw [ZookeeperConfigurationCenter.getKey, hcache]
  rfl

theorem configured_at_rest_changed :
    let s := (kept ℕ ℕ).run valueChanged unread
    s.center.mainVersion = some 1 ∧
      (∀ key, s.center.getKey key = .ok ((oneValue 1 20).values.lookup key)) ∧
      ∃ items, s.center.iteritems = .ok items ∧
        ∀ key value, ⟨key, value⟩ ∈ items ↔ (oneValue 1 20).values.lookup key = some value := by
  intro s
  have hh : s.handle = some { connected := true, watches := 1, lastRead := some 1 } := by
    decide +kernel
  have hbase : s.base = some (oneValue 1 20) := by decide +kernel
  have hsettled : Settled s (oneValue 1 20) := by
    unfold Settled
    decide +kernel
  have hroot : s.baseZnode ≠ [47] := by decide +kernel
  exact configured_at_rest (reachable_unread.run valueChanged) hroot hh ⟨rfl, rfl, rfl⟩ hbase
    hsettled

end Configured

end SummerRpc
