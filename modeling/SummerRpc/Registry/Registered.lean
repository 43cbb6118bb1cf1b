import SummerRpc.Registry.Registration

/-! # A server stays registered

A server registers its entries each time its handle is connected or connected again: a znode
that is there already is deleted and created anew. Meanwhile others change what they like
except for its znodes, the connection may break in the middle, and calls may be lost with it,
some of them after they have got to ZooKeeper.

* `held`, `missing`: the entries whose znodes are there, and the others;
* `Registering`: how far the watchers have come, and what is there by then;
* `registered_at_rest`: a server that is connected, with nothing to do, has all of its znodes;
* `few_missing`: once it has had them all, it never misses more of them than one, and one for
  each call that has been lost since.
-/

namespace SummerRpc

namespace Registries

variable {ι : Type}

/-- Among the znodes is that of the entry, of the session of the handle. -/
def held (nodes : List Znode) (s : Registries ι) (i : ι) (h : Handle)
    (entry : List UInt8 × List UInt8) : Bool :=
  nodes.contains (s.znodeFor i h entry)

/-- The number of entries whose znodes are not there. -/
def missing (nodes : List Znode) (s : Registries ι) (i : ι) (h : Handle) : ℕ :=
  (s.registerEntrySet i).map.countP fun entry => !held nodes s i h entry

/-- The entry that the watchers are about may have been deleted by them. -/
def slack (nodes : List Znode) (s : Registries ι) (i : ι) (h : Handle) : ℕ :=
  (target h).elim 0 fun entry => if held nodes s i h entry then 0 else 1

/-- `register(entries, True)`, as `RpcServer` calls it. -/
def Replacing (i : ι) : Label ι → Prop
  | .register j _ deleteIfExists => j = i → deleteIfExists = true
  | _ => True

/-- The watchers of the server are told of a connection once the registry has the handle, the
base znode is there, and nobody else takes away znodes of the session. -/
structure Undisturbed (i : ι) (l : Label ι) (s : Registries ι) : Prop where
  assigned : Assigned (i, .register) l
  base : s.takesChildren i = true
  replacing : Replacing i l
  others : ¬ l.IsAbout (i, .register) → ∀ h ∈ s.handles (i, .register), ∀ node ∈ s.nodes,
    node.owner = some h.session → node ∈ nodesAfter l s

/-- How far the watchers of a server have come, with these znodes. -/
structure Registering (nodes : List Znode) (s : Registries ι) (i : ι) (h : Handle) : Prop where
  /-- what is not left to be registered is there -/
  done : ∀ todo, left h = some todo → ∃ done, (s.registerEntrySet i).map = done ++ todo ∧
    ∀ entry ∈ done, held nodes s i h entry = true
  /-- there is something to be told, or all is there -/
  rest : h.connected = true → h.pc = .idle → .connected ∈ h.events ∨ missing nodes s i h = 0
  few : h.finished = true → missing nodes s i h ≤ h.lost + slack nodes s i h

theorem slack_le (nodes : List Znode) (s : Registries ι) (i : ι) (h : Handle) :
    slack nodes s i h ≤ 1 := by
  unfold slack
  cases target h with
  | none => exact Nat.zero_le 1
  | some entry =>
      simp only [Option.elim]
      split <;> omega

theorem held_iff {nodes : List Znode} {s : Registries ι} {i : ι} {h : Handle}
    {entry : List UInt8 × List UInt8} :
    held nodes s i h entry = true ↔ s.znodeFor i h entry ∈ nodes := List.contains_iff_mem

theorem missing_eq_zero {nodes : List Znode} {s : Registries ι} {i : ι} {h : Handle} :
    missing nodes s i h = 0 ↔
      ∀ entry ∈ (s.registerEntrySet i).map, held nodes s i h entry = true := by
  simp [missing, List.countP_eq_zero]

/-- The entries have different znodes. -/
theorem znodeOf_injective {s : Registries ι} {i : ι} {e e' : List UInt8 × List UInt8}
    (h : s.znodeOf i e = s.znodeOf i e') : e.1 = e'.1 := by
  unfold znodeOf at h
  rw [← ZookeeperRegistry.childPrefix_append, ← ZookeeperRegistry.childPrefix_append] at h
  exact List.append_cancel_left h

/-! ## The calls of the watchers -/

section Calls

variable {s : Registries ι} {i : ι} {h : Handle} {entry : List UInt8 × List UInt8}
  {done todo : List (List UInt8 × List UInt8)}
  (hentries : (s.registerEntrySet i).map = done ++ entry :: todo)
  (hkeys : ((s.registerEntrySet i).map.map Prod.fst).Nodup)

include hentries hkeys in
/-- The other entries have other znodes. -/
theorem znodeOf_ne {e : List UInt8 × List UInt8} (he : e ∈ done ∨ e ∈ todo) :
    s.znodeOf i e ≠ s.znodeOf i entry := by
  intro heq
  have hkey := znodeOf_injective heq
  rw [hentries, List.map_append, List.map_cons, List.nodup_append] at hkeys
  rcases hkeys with ⟨_, hright, hapart⟩
  rcases he with hdone | htodo
  · exact hapart _ (List.mem_map_of_mem hdone) _ List.mem_cons_self hkey
  · rw [List.nodup_cons] at hright
    exact hright.1 (hkey ▸ List.mem_map_of_mem htodo)

/-- After `create` the znode is there, if it has not raised, and the others stay. -/
theorem held_created (hnew : ¬ CreateRaises s i entry) (e : List UInt8 × List UInt8) :
    held (s.created i h entry) s i h e = true ↔
      s.znodeFor i h e = s.znodeFor i h entry ∨ held s.nodes s i h e = true := by
  rw [held_iff, held_iff, created, if_neg hnew, List.mem_cons]

/-- After `delete` it is not, and the others stay. -/
theorem held_deleted (e : List UInt8 × List UInt8) :
    held (s.deleted (s.znodeOf i entry)) s i h e = true ↔
      held s.nodes s i h e = true ∧ s.znodeOf i e ≠ s.znodeOf i entry := by
  rw [held_iff, held_iff, deleted, List.mem_filter, decide_eq_true_eq]
  rfl

include hentries in
theorem missing_split (nodes : List Znode) :
    missing nodes s i h = done.countP (fun e => !held nodes s i h e) +
      ((if held nodes s i h entry then 0 else 1) + todo.countP fun e => !held nodes s i h e) := by
  rw [missing, hentries, List.countP_append, List.countP_cons]
  cases held nodes s i h entry <;> simp [Nat.add_comm]

include hentries in
/-- `create` leaves one znode fewer to be missing. -/
theorem missing_created (hnew : ¬ CreateRaises s i entry) :
    missing (s.created i h entry) s i h + 1 ≤ missing s.nodes s i h := by
  -- `create` only makes a znode where there is none
  have hfirst : held s.nodes s i h entry = false := by
    rw [Bool.eq_false_iff]
    intro hheld
    exact hnew (Or.inr (List.contains_iff_mem.mpr (List.mem_map_of_mem (held_iff.mp hheld))))
  have hthen : held (s.created i h entry) s i h entry = true :=
    (held_created hnew entry).mpr (Or.inl rfl)
  have hfewer : ∀ l : List (List UInt8 × List UInt8),
      l.countP (fun e => !held (s.created i h entry) s i h e) ≤
        l.countP fun e => !held s.nodes s i h e := by
    intro l
    refine List.countP_mono_left fun e _ hnot => ?_
    rw [Bool.not_eq_true', Bool.eq_false_iff] at hnot ⊢
    exact fun hheld => hnot ((held_created hnew e).mpr (Or.inr hheld))
  have hdone := hfewer done
  have htodo := hfewer todo
  rw [missing_split hentries, missing_split hentries, hfirst, hthen]
  simp only [if_true, Bool.false_eq_true, if_false]
  omega

include hentries hkeys in
/-- `delete` makes no znode missing but that of the entry. -/
theorem missing_deleted :
    missing (s.deleted (s.znodeOf i entry)) s i h =
      missing s.nodes s i h + if held s.nodes s i h entry then 1 else 0 := by
  have hgone : held (s.deleted (s.znodeOf i entry)) s i h entry = false := by
    rw [Bool.eq_false_iff]
    exact fun hheld => ((held_deleted entry).mp hheld).2 rfl
  have hsame : ∀ e, e ∈ done ∨ e ∈ todo →
      held (s.deleted (s.znodeOf i entry)) s i h e = held s.nodes s i h e := by
    intro e he
    rw [Bool.eq_iff_iff, held_deleted]
    exact and_iff_left (znodeOf_ne hentries hkeys he)
  have hdone : done.countP (fun e => !held (s.deleted (s.znodeOf i entry)) s i h e) =
      done.countP fun e => !held s.nodes s i h e :=
    List.countP_congr fun e he => by rw [hsame e (Or.inl he)]
  have htodo : todo.countP (fun e => !held (s.deleted (s.znodeOf i entry)) s i h e) =
      todo.countP fun e => !held s.nodes s i h e :=
    List.countP_congr fun e he => by rw [hsame e (Or.inr he)]
  rw [missing_split hentries, missing_split hentries, hgone, hdone, htodo]
  -- one more is missing if the znode deleted was this session's own
  cases held s.nodes s i h entry
  · simp
  · simp
    omega

end Calls

/-! ## What a step keeps -/

/-- The znodes of the session are the same, and the watchers do not register anything. -/
theorem Registering.congr {nodes nodes' : List Znode} {s t : Registries ι} {i : ι} {h h' : Handle}
    (hr : Registering nodes s i h) (hentries : t.registerEntrySet i = s.registerEntrySet i)
    (hheld : ∀ entry, held nodes' t i h' entry = held nodes s i h entry)
    (hleft : left h' = left h) (hconnected : h'.connected = true → h'.pc = .idle →
      .connected ∈ h'.events ∨ (h.connected = true ∧ h.pc = .idle ∧ .connected ∉ h.events))
    (hfinished : h'.finished = h.finished) (hlost : h'.lost = h.lost) :
    Registering nodes' t i h' := by
  have hmissing : missing nodes' t i h' = missing nodes s i h := by
    unfold missing
    rw [hentries]
    exact List.countP_congr fun e _ => by rw [hheld]
  constructor
  · intro todo htodo
    rw [hleft] at htodo
    rcases hr.done todo htodo with ⟨done, heq, hdone⟩
    refine ⟨done, by rw [hentries, heq], fun e he => ?_⟩
    rw [hheld]
    exact hdone e he
  · intro hc hidle
    rcases hconnected hc hidle with hmem | ⟨hold, hpc, hnot⟩
    · exact Or.inl hmem
    · rw [hmissing]
      exact Or.inr ((hr.rest hold hpc).resolve_left hnot)
  · intro hf
    have hslack : slack nodes' t i h' = slack nodes s i h := by
      unfold slack target
      rw [hleft]
      cases (left h).bind List.head? with
      | none => rfl
      | some entry => simp only [Option.elim, hheld]
    rw [hmissing, hlost, hslack]
    exact hr.few (hfinished ▸ hf)

variable [DecidableEq ι] {l : Label ι} {s : Registries ι} {i : ι} {h : Handle}

/-- The same after the step, where the handle has heard of the znodes. -/
theorem Registering.update (hr : Registering (nodesAfter l s) s i h)
    (hentries : (update l s).registerEntrySet i = s.registerEntrySet i) :
    Registering (update l s).nodes (update l s) i (heard l s (i, .register) h) := by
  refine hr.congr hentries ?_ rfl ?_ rfl rfl
  · intro entry
    have hsession : (heard l s (i, .register) h).session = h.session := rfl
    unfold held
    rw [znodeFor_update l s i hsession]
    rfl
  · intro hconnected hidle
    by_cases hmem : .connected ∈ h.events
    · exact Or.inl (List.mem_append_right _ hmem)
    · exact Or.inr ⟨hconnected, hidle, hmem⟩

omit [DecidableEq ι] in
/-- Others leave the znodes of the session alone, and create none for it. -/
theorem held_other (hg : guard l s) (hs : Sound s) (hn : Numbered s) (hu : Undisturbed i l s)
    (hh : s.handles (i, .register) = some h) (hother : ¬ l.IsAbout (i, .register))
    (entry : List UInt8 × List UInt8) :
    held (nodesAfter l s) s i h entry = held s.nodes s i h entry := by
  rw [Bool.eq_iff_iff, held_iff, held_iff]
  constructor
  · intro hmem
    rcases mem_nodesAfter hg hs hmem with hold | ⟨hnone, _⟩ | ⟨j, h', e, habout, hh', _, _, heq⟩
    · exact hold
    · cases hnone
    · -- it would be a znode of another session
      have howner : some h.session = some h'.session := congrArg Znode.owner heq
      have hsame := hn.unique _ _ _ _ hh hh' (Option.some.inj howner)
      rw [← hsame] at habout
      exact absurd habout hother
  · exact fun hmem => hu.others hother h hh _ hmem rfl

omit [DecidableEq ι] in
/-- A call that gets to ZooKeeper makes at most one more znode to be missing, and that only if
the entry has not been missing. -/
theorem missing_applied (hkeys : ((s.registerEntrySet i).map.map Prod.fst).Nodup)
    (hr : Registering s.nodes s i h) (hfinished : h.finished = true) :
    missing (s.applied i h) s i h ≤ h.lost + 1 := by
  have hfew := hr.few hfinished
  have hslack := slack_le s.nodes s i h
  cases hpc : h.pc with
  | creating todo =>
      -- all entries are done, and the call is over; or it is `create`
      cases todo with
      | nil =>
          rw [show s.applied i h = s.nodes by rw [applied, hpc]]
          omega
      | cons entry todo =>
          rw [show s.applied i h = s.created i h entry by rw [applied, hpc]]
          rcases hr.done (entry :: todo) (by rw [left, hpc]) with ⟨done, hentries, _⟩
          by_cases hraises : CreateRaises s i entry
          · rw [created, if_pos hraises]
            omega
          · have hless := missing_created (h := h) hentries hraises
            omega
  | deleting entry todo =>
      rw [show s.applied i h = s.deleted (s.znodeOf i entry) by rw [applied, hpc]]
      rcases hr.done (entry :: todo) (by rw [left, hpc]) with ⟨done, hentries, _⟩
      have hslackEq : slack s.nodes s i h = if held s.nodes s i h entry then 0 else 1 := by
        rw [slack, target, left, hpc]
        rfl
      -- an entry that has been missing already is not missing once more
      rw [missing_deleted hentries hkeys]
      rw [hslackEq] at hfew
      split at hfew <;> split <;> first | omega | contradiction
  | idle | reading | collected _ =>
      rw [show s.applied i h = s.nodes by rw [applied, hpc]]
      omega

/-! ## What the watchers do -/

section About

omit [DecidableEq ι]

/-- The state of the connection is not that of the watchers: only a new connection counts, and
they are going to be told of it. -/
theorem registering_connection {h' : Handle} (hr : Registering s.nodes s i h)
    (hsession : h'.session = h.session) (hpc : h'.pc = h.pc)
    (hconnected : h'.connected = true → .connected ∈ h'.events ∨ h.connected = true)
    (hevents : .connected ∈ h.events → .connected ∈ h'.events)
    (hfinished : h'.finished = h.finished) (hlost : h'.lost = h.lost) :
    Registering s.nodes s i h' := by
  refine hr.congr rfl (fun entry => ?_) (by rw [left, left, hpc]) (fun hc hidle => ?_) hfinished
    hlost
  · unfold held znodeFor
    rw [hsession]
  · rcases hconnected hc with hmem | hold
    · exact Or.inl hmem
    · by_cases hmem : .connected ∈ h.events
      · exact Or.inl (hevents hmem)
      · exact Or.inr ⟨hold, hpc ▸ hidle, hmem⟩

/-- Told of a connection, the watchers register everything again; the other events call
nothing, and leave that one where it is. -/
theorem registering_deliver {e : Event} (hr : Registering s.nodes s i h) (hidle : h.pc = .idle)
    (hassigned : e = .connected → h.assigned = true) :
    Registering s.nodes s i
      { h with events := h.events.erase e, pc := s.hears i .register h e } := by
  have hleft : left h = none := by rw [left, hidle]
  cases e with
  | connected =>
      have hears : s.hears i .register h .connected = .creating (s.registerEntrySet i).map :=
        if_pos (hassigned rfl)
      rw [hears]
      refine ⟨?_, fun _ hidle => (by cases hidle), fun hf => ?_⟩
      · intro todo htodo
        cases htodo
        exact ⟨[], rfl, fun e he => absurd he List.not_mem_nil⟩
      · have hfew := hr.few hf
        rw [slack, target, hleft] at hfew
        exact Nat.le_trans hfew (Nat.add_le_add_left (Nat.zero_le _) _)
  | disconnected | expired | children =>
      refine hr.congr rfl (fun _ => rfl) hleft.symm (fun hc _ => ?_) rfl rfl
      by_cases hmem : .connected ∈ h.events
      · exact Or.inl ((List.mem_erase_of_ne (by decide)).mpr hmem)
      · exact Or.inr ⟨hc, hidle, hmem⟩

variable {entry : List UInt8 × List UInt8} {todo : List (List UInt8 × List UInt8)}

/-- `NodeExistsException`: the znode is to be deleted. -/
theorem registering_exists (hr : Registering s.nodes s i h) (hpc : h.pc = .creating (entry :: todo))
    (hraises : CreateRaises s i entry) :
    Registering (s.created i h entry) s i { h with pc := .deleting entry todo } := by
  refine hr.congr rfl (fun e => ?_) ?_ (fun _ hidle => by cases hidle) rfl rfl
  · show held (s.created i h entry) s i h e = _
    rw [created, if_pos hraises]
  · rw [left, left, hpc]

/-- The entry is done. -/
theorem registering_created (hr : Registering s.nodes s i h)
    (hpc : h.pc = .creating (entry :: todo)) (hnew : ¬ CreateRaises s i entry) :
    Registering (s.created i h entry) s i { h with pc := .creating todo } := by
  rcases hr.done (entry :: todo) (by rw [left, hpc]) with ⟨done, hentries, hdone⟩
  refine ⟨?_, fun _ hidle => (by cases hidle), fun hf => ?_⟩
  · intro rest hrest
    cases hrest
    refine ⟨done ++ [entry], by rw [hentries, List.append_assoc]; rfl, ?_⟩
    intro e he
    refine (held_created hnew e).mpr ?_
    rcases List.mem_append.mp he with hold | hlast
    · exact Or.inr (hdone e hold)
    · rw [List.mem_singleton.mp hlast]
      exact Or.inl rfl
  · have hless := missing_created (h := h) hentries hnew
    have hfew := hr.few hf
    have hslack := slack_le s.nodes s i h
    show missing (s.created i h entry) s i h ≤ h.lost + _
    omega

/-- The entry that is missing after `delete` is the one the watchers are about. -/
theorem registering_deleted (hkeys : ((s.registerEntrySet i).map.map Prod.fst).Nodup)
    (hr : Registering s.nodes s i h) (hpc : h.pc = .deleting entry todo) :
    Registering (s.deleted (s.znodeOf i entry)) s i { h with pc := .creating (entry :: todo) } := by
  rcases hr.done (entry :: todo) (by rw [left, hpc]) with ⟨done, hentries, hdone⟩
  refine ⟨?_, fun _ hidle => (by cases hidle), fun hf => ?_⟩
  · intro rest hrest
    cases hrest
    refine ⟨done, hentries, fun e he => (held_deleted e).mpr ⟨hdone e he, ?_⟩⟩
    exact znodeOf_ne hentries hkeys (Or.inl he)
  · have hmissing := missing_applied hkeys hr hf
    rw [show s.applied i h = s.deleted (s.znodeOf i entry) by rw [applied, hpc]] at hmissing
    have hgone : held (s.deleted (s.znodeOf i entry)) s i h entry = false := by
      rw [Bool.eq_false_iff]
      exact fun hheld => ((held_deleted entry).mp hheld).2 rfl
    have hslack : slack (s.deleted (s.znodeOf i entry)) s i
        { h with pc := .creating (entry :: todo) } = 1 := by
      show (if held (s.deleted (s.znodeOf i entry)) s i h entry then 0 else 1) = 1
      rw [hgone]
      rfl
    rw [hslack]
    exact hmissing

/-- Nothing is left, so all entries are done. -/
theorem registering_finish (hr : Registering s.nodes s i h) (hpc : h.pc = .creating []) :
    Registering s.nodes s i { h with pc := .idle, finished := true, lost := 0 } := by
  rcases hr.done [] (by rw [left, hpc]) with ⟨done, hentries, hdone⟩
  have hall : missing s.nodes s i h = 0 := by
    rw [missing_eq_zero, hentries, List.append_nil]
    exact hdone
  refine ⟨fun todo htodo => (by cases htodo), fun _ _ => Or.inr hall, fun _ => ?_⟩
  exact Nat.le_trans (Nat.le_of_eq hall) (Nat.zero_le _)

/-- A call is lost with the connection: if there is one again, the watchers will be told. -/
theorem registering_lose (hkeys : ((s.registerEntrySet i).map.map Prod.fst).Nodup)
    (hr : Registering s.nodes s i h) (hlost : MayLose h) (arrived : Bool) :
    Registering (if arrived then s.applied i h else s.nodes) s i
      { h with pc := .idle, lost := h.lost + 1 } := by
  refine ⟨fun todo htodo => (by cases htodo), fun hc _ => Or.inl ?_, fun hf => ?_⟩
  · rcases hlost.2 with hbroken | hmem
    · cases hbroken.symm.trans hc
    · exact hmem
  · show missing (if arrived then s.applied i h else s.nodes) s i h ≤ h.lost + 1
    cases arrived with
    | true => exact missing_applied hkeys hr hf
    | false =>
        have hfew := hr.few hf
        have hslack := slack_le s.nodes s i h
        show missing s.nodes s i h ≤ h.lost + 1
        omega

/-- What `_real_register` does, and what happens to its handle. -/
theorem registering_about (hg : guard l s) (hu : Undisturbed i l s)
    (hdelete : s.deleteIfExists i = true)
    (hkeys : ((s.registerEntrySet i).map.map Prod.fst).Nodup) {h : Handle}
    (hh : s.handles (i, .register) = some h) (hr : Registering s.nodes s i h)
    (habout : l.IsAbout (i, .register)) {h' : Handle} (hafter : handleAfter l s = some h')
    (hlive : h'.live = true) : Registering (nodesAfter l s) s i h' := by
  cases l with
  | register j entries deleteIfExists =>
      cases habout
      cases hh.symm.trans hg.1
  | assign j role h'' =>
      cases habout
      cases hh.symm.trans hg.1
      cases hafter
      exact registering_connection hr rfl rfl Or.inr id rfl rfl
  | connect j role h'' =>
      cases habout
      cases hh.symm.trans hg.1
      cases hafter
      exact registering_connection hr rfl rfl (fun _ => Or.inl List.mem_cons_self)
        (List.mem_cons_of_mem _) rfl rfl
  | disconnect j role h'' =>
      cases habout
      cases hh.symm.trans hg.1
      cases hafter
      exact registering_connection hr rfl rfl (fun hc => absurd hc Bool.false_ne_true)
        (List.mem_cons_of_mem _) rfl rfl
  | expire j role h'' =>
      cases habout
      cases hh.symm.trans hg.1
      cases hafter
      cases hlive
  | deliver j role h'' e =>
      cases habout
      cases hh.symm.trans hg.1
      cases hafter
      refine registering_deliver hr hg.2.1 ?_
      rintro rfl
      exact hu.assigned rfl
  | create j h'' entry todo =>
      cases habout
      cases hh.symm.trans hg.1
      have hparent : ¬ s.takesChildren i = false := by
        rw [hu.base]
        exact Bool.noConfusion
      simp only [handleAfter, if_neg hparent] at hafter
      split at hafter
      · next hexists =>
          cases hafter
          exact registering_exists hr hg.2.2 (Or.inr hexists)
      · next hnot =>
          cases hafter
          exact registering_created hr hg.2.2 fun hraises => hraises.elim hparent hnot
  | delete j h'' entry todo =>
      cases habout
      cases hh.symm.trans hg.1
      cases hafter
      exact registering_deleted hkeys hr hg.2.2
  | finish j h'' =>
      cases habout
      cases hh.symm.trans hg.1
      cases hafter
      exact registering_finish hr hg.2
  | loseRegister j h'' arrived =>
      cases habout
      cases hh.symm.trans hg.1
      cases hafter
      exact registering_lose hkeys hr hg.2.1 arrived
  | close j ended => cases hafter
  | _ => cases habout

end About

/-! ## Runs -/

/-- A server with a handle, and what its watchers have done. -/
structure Serving (s : Registries ι) (i : ι) (h : Handle) : Prop where
  deleteIfExists : s.deleteIfExists i = true
  keys : ((s.registerEntrySet i).map.map Prod.fst).Nodup
  registering : h.live = true → Registering s.nodes s i h

theorem deleteIfExists_update (hg : guard l s) (hh : s.handles (i, .register) = some h) :
    (update l s).deleteIfExists i = s.deleteIfExists i := by
  cases l with
  | register j entries deleteIfExists =>
      have hne : i ≠ j := by
        rintro rfl
        cases hh.symm.trans hg.1
      exact Function.update_of_ne hne ..
  | _ => rfl

theorem serving_step (hg : guard l s) (hu : Undisturbed i l s) (hs : Sound s) (hn : Numbered s)
    (hserving : ∀ h, s.handles (i, .register) = some h → Serving s i h) {h : Handle}
    (hsome : (update l s).handles (i, .register) = some h) : Serving (update l s) i h := by
  -- a handle that was there before
  have hold : ∀ old mid, s.handles (i, .register) = some old →
      (mid.live = true → old.live = true) →
      (mid.live = true → Registering s.nodes s i old → Registering (nodesAfter l s) s i mid) →
      Serving (update l s) i (heard l s (i, .register) mid) := by
    intro old mid hh hlive hr
    have hentries := registerEntrySet_update hg hh
    refine ⟨?_, ?_, fun hl => ?_⟩
    · rw [deleteIfExists_update hg hh]
      exact (hserving old hh).deleteIfExists
    · rw [hentries]
      exact (hserving old hh).keys
    · exact (hr hl ((hserving old hh).registering (hlive hl))).update hentries
  rcases handle_cases hsome with ⟨mid, rfl, ⟨habout, hafter⟩ | ⟨hother, hh⟩⟩
  · rcases about_cases hg habout hafter with ⟨rfl, hnone⟩ | ⟨old, hh, _, hdead⟩
    -- a new handle: nothing has been registered with it
    · cases l with
      | register j entries deleteIfExists =>
          cases habout
          refine ⟨?_, ?_, fun _ => ⟨fun todo htodo => ?_, fun hc => ?_, fun hf => ?_⟩⟩
          · show Function.update s.deleteIfExists i deleteIfExists i = true
            rw [Function.update_self]
            exact hu.replacing rfl
          · show (((Function.update s.registerEntrySet i entries) i).map.map Prod.fst).Nodup
            rw [Function.update_self]
            exact hg.2.1
          · cases htodo
          · cases hc
          · cases hf
      | close | timeOut | outside => cases hafter
      | discovery | getChildren | loseDiscovery | publish => cases habout
      | _ =>
          cases habout
          cases hnone.symm.trans hg.1
    · have hlive : mid.live = true → old.live = true := by
        intro hl
        cases hl' : old.live with
        | true => rfl
        | false => cases (hdead hl').symm.trans hl
      exact hold old mid hh hlive fun hl hr => registering_about hg hu
        (hserving old hh).deleteIfExists (hserving old hh).keys hh hr habout hafter hl
  -- a step about another handle
  · refine hold mid mid hh id fun _ hr => ?_
    refine hr.congr rfl (held_other hg hs hn hu hh hother) rfl (fun hc hidle => ?_) rfl rfl
    by_cases hmem : .connected ∈ mid.events
    · exact Or.inl hmem
    · exact Or.inr ⟨hc, hidle, hmem⟩

/-- The runs in which nobody disturbs the server. -/
def undisturbed (i : ι) : Lts.Spec (Registries ι) (Label ι) := (system ι).restrict (Undisturbed i)

theorem serving_reachable (i : ι) (s : Registries ι) (hr : (undisturbed i).Reachable s) :
    ∀ h, s.handles (i, .register) = some h → Serving s i h := by
  refine (undisturbed i).invariant_with (fun s => Sound s ∧ Numbered s)
    (fun s => ∀ h, s.handles (i, .register) = some h → Serving s i h) ?_ ?_ ?_ s hr
  · exact fun t ht => ⟨sound_reachable t ht.of_restrict, numbered_reachable t ht.of_restrict⟩
  · rintro t ⟨_, hnone, _, _⟩ h hsome
    rw [hnone] at hsome
    cases hsome
  · exact fun l t hg hknown _ hserving h hsome =>
      serving_step hg.1 hg.2 hknown.1 hknown.2 hserving hsome

/-- A test of `Replacing`. -/
def replaces (i : ι) : Label ι → Bool
  | .register j _ deleteIfExists => j ≠ i || deleteIfExists
  | _ => true

theorem replaces_iff (i : ι) (l : Label ι) : replaces i l = true ↔ Replacing i l := by
  cases l with
  | register j entries deleteIfExists =>
      simp only [replaces, Replacing, Bool.or_eq_true, decide_eq_true_eq]
      exact (imp_iff_not_or).symm
  | _ => exact iff_of_true rfl trivial

instance (i : ι) (l : Label ι) : Decidable (Replacing i l) :=
  decidable_of_iff _ (replaces_iff i l)

instance (i : ι) (l : Label ι) (s : Registries ι) : Decidable (Undisturbed i l s) :=
  decidable_of_iff (_ ∧ _ ∧ _ ∧ _)
    ⟨fun h => ⟨h.1, h.2.1, h.2.2.1, h.2.2.2⟩,
      fun h => ⟨h.assigned, h.base, h.replacing, h.others⟩⟩

instance (i : ι) (l : Label ι) (s : Registries ι) : Decidable ((undisturbed i).guard l s) :=
  inferInstanceAs (Decidable (_ ∧ _))

/-- A server at rest misses no znode. -/
theorem missing_at_rest {s : Registries ι} {i : ι} (hr : (undisturbed i).Reachable s)
    {h : Handle} (hh : s.handles (i, .register) = some h) (hrest : AtRest h) :
    missing s.nodes s i h = 0 := by
  have hlive := (sound_reachable s hr.of_restrict i .register h hh).live hrest.connected
  have hregistering := (serving_reachable i s hr h hh).registering hlive
  -- it is not going to be told that it is connected, so it has been
  exact (hregistering.rest hrest.connected hrest.pc).resolve_left
    (by rw [hrest.events]; exact List.not_mem_nil)

/-- A server is connected again after it has registered, and registers once more. -/
def registeredTwice : List (Label Unit) :=
  let connected : Handle := { session := 0, assigned := true, connected := true, finished := true }
  registeredAndExpired.take 6 ++ [.disconnect () .register connected,
    .connect () .register { connected with connected := false, events := [.disconnected] },
    .deliver () .register { connected with events := [.connected, .disconnected] } .disconnected,
    .deliver () .register { connected with events := [.connected] } .connected,
    .create () { connected with pc := .creating [oneEntry] } oneEntry [],
    .delete () { connected with pc := .deleting oneEntry [] } oneEntry [],
    .create () { connected with pc := .creating [oneEntry] } oneEntry [],
    .finish () { connected with pc := .creating [] }]

end Registries

end SummerRpc
