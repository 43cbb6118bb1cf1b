import SummerRpc.Registry.Coherence

/-! # Sessions that end

What ZooKeeper has of a registry, while its handles are connected and disconnected, its
sessions expire and it is closed.

* `mem_nodesAfter`: where the znodes come from, after a step;
* `handle_stays`: a handle keeps its session, until it expires or the registry is closed;
* `Numbered`, `Owned`: no two handles have the same session, and every ephemeral znode goes
  with a session that lives, that of a handle or an abandoned one;
* `expired_stays_away`: a registry whose session has expired keeps its dead handle, and
  registers nothing any more;
* `closed_is_gone`: after `close()`, a registry finds nothing, and leaves nothing behind but
  the znodes of sessions that it could not end, until they expire.
-/

namespace SummerRpc

namespace Registries

variable {ι : Type}

/-! ## The znodes after a step -/

/-- What the watchers have still to register. -/
def left (h : Handle) : Option (List (List UInt8 × List UInt8)) :=
  match h.pc with
  | .creating todo => some todo
  | .deleting entry todo => some (entry :: todo)
  | _ => none

/-- The entry that a call of `_real_register` is about. -/
def target (h : Handle) : Option (List UInt8 × List UInt8) := (left h).bind List.head?

theorem mem_created {s : Registries ι} {i : ι} {h : Handle} {entry : List UInt8 × List UInt8}
    {node : Znode} (hmem : node ∈ s.created i h entry) :
    node ∈ s.nodes ∨ node = s.znodeFor i h entry := by
  unfold created at hmem
  split at hmem
  · exact Or.inl hmem
  · exact (List.mem_cons.mp hmem).symm

theorem mem_applied {s : Registries ι} {i : ι} {h : Handle} {node : Znode}
    (hmem : node ∈ s.applied i h) :
    node ∈ s.nodes ∨ ∃ entry, target h = some entry ∧ node = s.znodeFor i h entry := by
  unfold applied at hmem
  split at hmem
  · next entry todo hpc =>
      exact (mem_created hmem).imp_right fun heq => ⟨entry, by rw [target, left, hpc]; rfl, heq⟩
  · exact Or.inl (List.mem_filter.mp hmem).1
  · exact Or.inl hmem

theorem mem_without {nodes : List Znode} {session : ℕ} {node : Znode} :
    node ∈ without nodes session ↔ node ∈ nodes ∧ node.owner ≠ some session := by
  simp [without]

theorem mem_foldl_without {sessions : List ℕ} {nodes : List Znode} {node : Znode} :
    node ∈ sessions.foldl without nodes ↔
      node ∈ nodes ∧ ∀ session ∈ sessions, node.owner ≠ some session := by
  induction sessions generalizing nodes with
  | nil => simp
  | cons session sessions ih =>
      rw [List.foldl_cons, ih, mem_without, List.forall_mem_cons, and_assoc]

theorem mem_endedBy {s : Registries ι} {i : ι} {ended : Role → Bool} {session : ℕ} :
    session ∈ s.endedBy i ended ↔
      ∃ role h, s.handles (i, role) = some h ∧ h.session = session ∧ ended role = true := by
  unfold endedBy
  rw [List.mem_filterMap]
  constructor
  · rintro ⟨role, _, hrole⟩
    split at hrole
    · next hended =>
        obtain ⟨h, hh, hsession⟩ := Option.map_eq_some_iff.mp hrole
        exact ⟨role, h, hh, hsession, hended⟩
    · cases hrole
  · rintro ⟨role, h, hh, hsession, hended⟩
    refine ⟨role, by cases role <;> simp, ?_⟩
    rw [if_pos hended, hh, Option.map_some, hsession]

theorem mem_abandonedBy {s : Registries ι} {i : ι} {ended : Role → Bool} {session : ℕ} :
    session ∈ s.abandonedBy i ended ↔ ∃ role h, s.handles (i, role) = some h ∧
      h.session = session ∧ h.live = true ∧ ended role = false := by
  unfold abandonedBy
  rw [List.mem_filterMap]
  constructor
  · rintro ⟨role, _, hrole⟩
    split at hrole
    · cases hrole
    · next hended =>
        obtain ⟨h, hh, hsession⟩ := Option.map_eq_some_iff.mp hrole
        obtain ⟨hhandle, hlive⟩ := Option.filter_eq_some_iff.mp hh
        exact ⟨role, h, hhandle, hsession, hlive, by simpa using hended⟩
  · rintro ⟨role, h, hh, hsession, hlive, hended⟩
    refine ⟨role, by cases role <;> simp, ?_⟩
    rw [if_neg (by rw [hended]; exact Bool.false_ne_true), hh, Option.filter_some, hlive,
      if_pos rfl, Option.map_some, hsession]

/-- A znode is one that was there, one of somebody else, or one that a registry has created for
an entry it is about to register. -/
theorem mem_nodesAfter {l : Label ι} {s : Registries ι} (hg : guard l s) (hs : Sound s)
    {node : Znode} (hmem : node ∈ nodesAfter l s) :
    node ∈ s.nodes ∨ (node.owner = none ∧ ∃ nodes, l = .outside nodes) ∨
      ∃ i h entry, l.IsAbout (i, .register) ∧ s.handles (i, .register) = some h ∧
        h.live = true ∧ target h = some entry ∧ node = s.znodeFor i h entry := by
  cases l with
  | expire i role h => exact Or.inl (mem_without.mp hmem).1
  | create i h entry todo =>
      refine (mem_created hmem).imp_right fun heq => Or.inr ⟨i, h, entry, rfl, hg.1, ?_, ?_, heq⟩
      · exact (hs _ _ _ hg.1).live hg.2.1
      · rw [target, left, hg.2.2]
        rfl
  | delete i h entry todo => exact Or.inl (List.mem_filter.mp hmem).1
  | loseRegister i h arrived =>
      -- the call may have got to ZooKeeper before it was lost
      simp only [nodesAfter] at hmem
      split at hmem
      · next harrived =>
          refine (mem_applied hmem).imp_right fun ⟨entry, htarget, heq⟩ => Or.inr ?_
          exact ⟨i, h, entry, rfl, hg.1, hg.2.2 harrived, htarget, heq⟩
      · exact Or.inl hmem
  | close i ended => exact Or.inl (mem_foldl_without.mp hmem).1
  | timeOut session => exact Or.inl (mem_without.mp hmem).1
  | outside nodes => exact (hg node hmem).imp_right fun hnone => Or.inl ⟨hnone, nodes, rfl⟩
  | _ => exact Or.inl hmem

/-! ## Sessions -/

variable {l : Label ι} {s : Registries ι}

/-- The handle a step is about is a new one, or keeps its session; and no session comes back
to life. -/
theorem about_cases {p : ι × Role} {h : Handle} (hg : guard l s) (habout : l.IsAbout p)
    (hafter : handleAfter l s = some h) :
    (h = { session := s.sessions } ∧ s.handles p = none) ∨
      ∃ old, s.handles p = some old ∧ h.session = old.session ∧
        (old.live = false → h.live = false) := by
  cases l with
  | register i entries deleteIfExists =>
      cases habout
      cases hafter
      exact Or.inl ⟨rfl, hg.1⟩
  | discovery i =>
      cases habout
      cases hafter
      exact Or.inl ⟨rfl, hg⟩
  | create i h' entry todo =>
      -- created, to be deleted first, or given up: the session is the same
      cases habout
      refine Or.inr ⟨h', hg.1, ?_⟩
      simp only [handleAfter] at hafter
      split at hafter
      · cases hafter
        exact ⟨rfl, id⟩
      · split at hafter
        · split at hafter <;> (cases hafter; exact ⟨rfl, id⟩)
        · cases hafter
          exact ⟨rfl, id⟩
  | getChildren i h' =>
      cases habout
      refine Or.inr ⟨h', hg.1, ?_⟩
      simp only [handleAfter] at hafter
      split at hafter <;> (cases hafter; exact ⟨rfl, id⟩)
  | expire i role h' =>
      cases habout
      cases hafter
      exact Or.inr ⟨h', hg.1, rfl, fun _ => rfl⟩
  | assign i role h' | connect i role h' | disconnect i role h' | deliver i role h' e
  | delete i h' entry todo | finish i h' | loseRegister i h' arrived
  | loseDiscovery i h' | publish i h' children =>
      cases habout
      cases hafter
      exact Or.inr ⟨h', hg.1, rfl, id⟩
  | close i ended => cases hafter
  | timeOut session => cases hafter
  | outside nodes => cases hafter

/-- No two handles have the same session, and no handle has an abandoned one. -/
structure Numbered (s : Registries ι) : Prop where
  below : ∀ p h, s.handles p = some h → h.session < s.sessions
  unique : ∀ p q h h', s.handles p = some h → s.handles q = some h' →
    h.session = h'.session → p = q
  abandoned : ∀ session ∈ s.abandoned, session < s.sessions ∧
    ∀ p h, s.handles p = some h → h.session ≠ session

variable [DecidableEq ι]

theorem sessions_update (l : Label ι) (s : Registries ι) : s.sessions ≤ (update l s).sessions := by
  cases l <;> first | exact Nat.le_refl _ | exact Nat.le_succ _

/-- A handle there is after a step is a new one, or had its session before. -/
theorem session_cases (hg : guard l s) {p : ι × Role} {h : Handle}
    (hsome : (update l s).handles p = some h) :
    (h.session = s.sessions ∧ (update l s).sessions = s.sessions + 1 ∧ ∀ q, l.IsAbout q ↔ q = p) ∨
      ∃ old, s.handles p = some old ∧ h.session = old.session ∧
        (old.live = false → h.live = false) := by
  rcases handle_cases hsome with ⟨mid, rfl, ⟨habout, hafter⟩ | ⟨_, hold⟩⟩
  · rcases about_cases hg habout hafter with ⟨rfl, hnone⟩ | hold
    · left
      cases l with
      | register | discovery =>
          cases habout
          exact ⟨rfl, rfl, fun q => Iff.rfl⟩
      | close | timeOut | outside => cases hafter
      | _ =>
          cases habout
          -- all other steps are about a handle that there is
          cases hnone.symm.trans hg.1
    · exact Or.inr hold
  · exact Or.inr ⟨mid, hold, rfl, id⟩

/-- An abandoned session has been one, or is that of a handle which `close()` has left. -/
theorem abandoned_cases {session : ℕ} (h : session ∈ (update l s).abandoned) :
    session ∈ s.abandoned ∨ ∃ i ended, l = .close i ended ∧ session ∈ s.abandonedBy i ended := by
  cases l with
  | close i ended =>
      rcases List.mem_append.mp h with hnew | hold
      · exact Or.inr ⟨i, ended, rfl, hnew⟩
      · exact Or.inl hold
  | timeOut other => exact Or.inl (List.mem_filter.mp h).1
  | _ => exact Or.inl h

/-- No handle has the session, and none will have it. -/
def Over (session : ℕ) (s : Registries ι) : Prop :=
  session < s.sessions ∧ ∀ p h, s.handles p = some h → h.session ≠ session

theorem over_step {session : ℕ} (l : Label ι) (s : Registries ι) (hg : guard l s)
    (h : Over session s) : Over session (update l s) := by
  refine ⟨Nat.lt_of_lt_of_le h.1 (sessions_update l s), ?_⟩
  intro p h' hsome
  rcases session_cases hg hsome with ⟨heq, _, _⟩ | ⟨old, hold, heq, _⟩
  · have hlt := h.1
    omega
  · rw [heq]
    exact h.2 p old hold

/-- `close()` takes the handles of the registry away. -/
theorem over_close {i : ι} {ended : Role → Bool} (hn : Numbered s) {role : Role} {h : Handle}
    (hh : s.handles (i, role) = some h) : Over h.session (update (.close i ended) s) := by
  refine ⟨hn.below _ _ hh, ?_⟩
  intro p h' hsome heq
  rcases handle_cases hsome with ⟨old, rfl, ⟨_, hafter⟩ | ⟨hother, hold⟩⟩
  · cases hafter
  · exact hother (congrArg Prod.fst (hn.unique _ _ _ _ hold hh heq))

theorem numbered_step (l : Label ι) (s : Registries ι) (hg : guard l s) (h : Numbered s) :
    Numbered (update l s) := by
  refine ⟨?_, ?_, ?_⟩
  · intro p h' hsome
    rcases session_cases hg hsome with ⟨heq, hnext, _⟩ | ⟨old, hold, heq, _⟩
    · omega
    · have hlt := h.below p old hold
      have hle := sessions_update l s
      omega
  · intro p q h₁ h₂ hp hq heq
    -- one new session at most, and its number is above all others
    rcases session_cases hg hp with ⟨hnew, _, hp'⟩ | ⟨old, hold, hsame, _⟩
    · rcases session_cases hg hq with ⟨_, _, hq'⟩ | ⟨old', hold', hsame', _⟩
      · exact (hq' p).mp ((hp' p).mpr rfl)
      · have hlt := h.below q old' hold'
        omega
    · rcases session_cases hg hq with ⟨hnew', _, _⟩ | ⟨old', hold', hsame', _⟩
      · have hlt := h.below p old hold
        omega
      · exact h.unique p q old old' hold hold' (by omega)
  · intro session hsession
    rcases abandoned_cases hsession with hold | ⟨i, ended, rfl, hnew⟩
    · exact over_step l s hg (h.abandoned session hold)
    · obtain ⟨role, old, hold, rfl, _⟩ := mem_abandonedBy.mp hnew
      exact over_close h hold

theorem numbered_reachable (s : Registries ι) (hr : (system ι).Reachable s) : Numbered s := by
  refine (system ι).invariant Numbered ?_ numbered_step s hr
  rintro s ⟨_, hnone, _, _, habandoned⟩
  refine ⟨?_, ?_, ?_⟩
  · intro p h hsome
    rw [hnone] at hsome
    cases hsome
  · intro p q h h' hsome
    rw [hnone] at hsome
    cases hsome
  · intro session hsession
    rw [habandoned] at hsession
    cases hsession

/-! ## Whose a znode is -/

/-- An ephemeral znode is that of an entry of a registry whose session lives, or has been
abandoned. -/
structure Owned (s : Registries ι) : Prop where
  remaining : ∀ i h todo, s.handles (i, .register) = some h → left h = some todo →
    todo <:+ (s.registerEntrySet i).map
  owner : ∀ node ∈ s.nodes, ∀ k, node.owner = some k → k ∈ s.abandoned ∨ ∃ i h entry,
    s.handles (i, .register) = some h ∧ h.session = k ∧ h.live = true ∧
    entry ∈ (s.registerEntrySet i).map ∧ node = s.znodeFor i h entry

omit [DecidableEq ι] in
theorem left_of_target {h : Handle} {entry : List UInt8 × List UInt8}
    (ht : target h = some entry) : ∃ todo, left h = some (entry :: todo) := by
  rcases Option.bind_eq_some_iff.mp ht with ⟨todo, hleft, hhead⟩
  cases todo with
  | nil => cases hhead
  | cons e todo =>
      cases hhead
      exact ⟨todo, hleft⟩

/-- The entries of a registry are set before it has a handle to register them with. -/
theorem registerEntrySet_update (hg : guard l s) {i : ι} {h : Handle}
    (hh : s.handles (i, .register) = some h) :
    (update l s).registerEntrySet i = s.registerEntrySet i := by
  cases l with
  | register j entries deleteIfExists =>
      have hne : i ≠ j := by
        rintro rfl
        cases hh.symm.trans hg.1
      exact Function.update_of_ne hne ..
  | _ => rfl

/-- A handle is there until its registry is closed, with the same session, which lives until it
expires. -/
theorem handle_stays (hg : guard l s) {i : ι} {role : Role} {h : Handle}
    (hh : s.handles (i, role) = some h) (hclose : ∀ ended, l ≠ .close i ended) :
    ∃ h', (update l s).handles (i, role) = some h' ∧ h'.session = h.session ∧
      (h'.live = h.live ∨ (l = .expire i role h ∧ h'.live = false)) := by
  -- most steps change neither the session nor whether it lives
  have hafter : ∀ h', l.IsAbout (i, role) → handleAfter l s = some h' → h'.session = h.session →
      h'.live = h.live → ∃ h', (update l s).handles (i, role) = some h' ∧
        h'.session = h.session ∧
        (h'.live = h.live ∨ (l = .expire i role h ∧ h'.live = false)) := by
    intro h' habout hafter hsession hlive
    exact ⟨_, handle_about habout hafter, hsession, Or.inl hlive⟩
  by_cases habout : l.IsAbout (i, role)
  · cases l with
    -- a registry that has a handle is not given another
    | register j entries deleteIfExists =>
        cases habout
        cases hh.symm.trans hg.1
    | discovery j =>
        cases habout
        cases hh.symm.trans hg
    | expire j r h' =>
        have hi := habout
        cases habout
        cases hh.symm.trans hg.1
        exact ⟨_, handle_about hi rfl, rfl, Or.inr ⟨rfl, rfl⟩⟩
    | close j ended => exact absurd (by rw [show i = j from habout]) (hclose ended)
    | timeOut session => cases habout
    | outside nodes => cases habout
    | create j h' entry todo =>
        have hi := habout
        cases habout
        cases hh.symm.trans hg.1
        by_cases hparent : s.takesChildren i = false
        · exact hafter { h with pc := .idle } hi
            (by simp only [handleAfter, if_pos hparent]) rfl rfl
        by_cases hexists : s.hasZnode (s.znodeOf i entry)
        · by_cases hdelete : s.deleteIfExists i
          · exact hafter { h with pc := .deleting entry todo } hi
              (by simp only [handleAfter, if_neg hparent, if_pos hexists, if_pos hdelete]) rfl rfl
          · exact hafter { h with pc := .idle } hi
              (by simp only [handleAfter, if_neg hparent, if_pos hexists, if_neg hdelete]) rfl rfl
        · exact hafter { h with pc := .creating todo } hi
            (by simp only [handleAfter, if_neg hparent, if_neg hexists]) rfl rfl
    | getChildren j h' =>
        have hi := habout
        cases habout
        cases hh.symm.trans hg.1
        by_cases hbase : s.hasBase i
        · exact hafter _ hi (if_pos hbase) rfl rfl
        · exact hafter _ hi (if_neg hbase) rfl rfl
    | assign j r h' | connect j r h' | disconnect j r h' | deliver j r h' e
    | delete j h' entry todo | finish j h' | loseRegister j h' arrived
    | loseDiscovery j h' | publish j h' children =>
        have hi := habout
        cases habout
        cases hh.symm.trans hg.1
        exact hafter _ hi rfl rfl rfl
  · refine ⟨heard l s (i, role) h, ?_, rfl, Or.inl rfl⟩
    rw [handle_other habout, hh, Option.map_some]

/-- A session with a znode that is still there after a step is not over: its handle is there,
or it has been abandoned. -/
theorem session_survives (hg : guard l s) {i : ι} {role : Role} {h : Handle}
    (hh : s.handles (i, role) = some h) (hlive : h.live = true) {node : Znode}
    (hmem : node ∈ nodesAfter l s) (howner : node.owner = some h.session) :
    h.session ∈ (update l s).abandoned ∨ ∃ h', (update l s).handles (i, role) = some h' ∧
      h'.session = h.session ∧ h'.live = true := by
  by_cases hclose : ∃ ended, l = .close i ended
  · obtain ⟨ended, rfl⟩ := hclose
    cases hended : ended role with
    | true =>
        -- `close()` has taken the znodes of a session that it has ended
        exact absurd howner ((mem_foldl_without.mp hmem).2 _
          (mem_endedBy.mpr ⟨role, h, hh, rfl, hended⟩))
    | false =>
        exact Or.inl (List.mem_append_left _
          (mem_abandonedBy.mpr ⟨role, h, hh, rfl, hlive, hended⟩))
  · rcases handle_stays hg hh fun ended heq => hclose ⟨ended, heq⟩ with
      ⟨h', hh', hsession, heq | ⟨rfl, _⟩⟩
    · exact Or.inr ⟨h', hh', hsession, heq.trans hlive⟩
    · exact absurd howner (mem_without.mp hmem).2

/-- An abandoned session with a znode is still abandoned. -/
theorem abandoned_survives {session : ℕ} (h : session ∈ s.abandoned) {node : Znode}
    (hmem : node ∈ nodesAfter l s) (howner : node.owner = some session) :
    session ∈ (update l s).abandoned := by
  cases l with
  | close i ended => exact List.mem_append_right _ h
  | timeOut other =>
      refine List.mem_filter.mpr ⟨h, decide_eq_true ?_⟩
      rintro rfl
      exact (mem_without.mp hmem).2 howner
  | _ => exact h

/-- The znode of an entry is the same for the same session. -/
theorem znodeFor_update (l : Label ι) (s : Registries ι) (i : ι) {h h' : Handle}
    (hsession : h'.session = h.session) (entry : List UInt8 × List UInt8) :
    (update l s).znodeFor i h' entry = s.znodeFor i h entry := by
  unfold znodeFor znodeOf
  rw [baseZnode_update, hsession]

theorem remaining_about {i : ι} {h : Handle} (hg : guard l s) (ho : Owned s)
    (habout : l.IsAbout (i, .register)) (hafter : handleAfter l s = some h)
    {todo : List (List UInt8 × List UInt8)} (hleft : left h = some todo) :
    todo <:+ ((update l s).registerEntrySet i).map := by
  cases l with
  | register j entries deleteIfExists =>
      cases hafter
      cases hleft
  | assign j role h' | connect j role h' | disconnect j role h' | expire j role h' =>
      cases habout
      cases hafter
      exact ho.remaining i h' todo hg.1 hleft
  | deliver j role h' e =>
      cases habout
      cases hafter
      cases e with
      | connected =>
          -- `_real_register` begins with all entries
          unfold left hears at hleft
          by_cases hassigned : h'.assigned = true
          · simp only [hassigned, if_true] at hleft
            cases hleft
            exact List.suffix_rfl
          · simp only [hassigned, Bool.false_eq_true, if_false] at hleft
            cases hleft
      | disconnected | expired | children => cases hleft
  | create j h' entry rest =>
      cases habout
      have hsuffix := ho.remaining i h' (entry :: rest) hg.1 (by rw [left, hg.2.2])
      simp only [handleAfter] at hafter
      -- the entry is given up, kept to be created again, or done
      split at hafter
      · cases hafter
        cases hleft
      · split at hafter
        · split at hafter
          · cases hafter
            cases hleft
            exact hsuffix
          · cases hafter
            cases hleft
        · cases hafter
          cases hleft
          exact (List.suffix_cons entry todo).trans hsuffix
  | delete j h' entry rest =>
      cases habout
      cases hafter
      cases hleft
      exact ho.remaining i h' (entry :: rest) hg.1 (by rw [left, hg.2.2])
  | finish j h' | loseRegister j h' arrived =>
      cases habout
      cases hafter
      cases hleft
  | close j ended => cases hafter
  | _ => cases habout

theorem owned_step (l : Label ι) (s : Registries ι) (hg : guard l s) (hs : Sound s)
    (h : Owned s) : Owned (update l s) := by
  constructor
  · intro i h' todo hsome hleft
    rcases handle_cases hsome with ⟨old, rfl, ⟨habout, hafter⟩ | ⟨_, hold⟩⟩
    · exact remaining_about (h := old) hg h habout hafter hleft
    · rw [registerEntrySet_update hg hold]
      exact h.remaining i old todo hold hleft
  · intro node hnode k hk
    -- the znode of an entry is the same after the step, if its session is not over
    have hkept : ∀ i old entry, s.handles (i, .register) = some old → old.live = true →
        entry ∈ (s.registerEntrySet i).map → node = s.znodeFor i old entry → old.session = k →
        k ∈ (update l s).abandoned ∨ ∃ i h entry, (update l s).handles (i, .register) = some h ∧
          h.session = k ∧ h.live = true ∧ entry ∈ ((update l s).registerEntrySet i).map ∧
          node = (update l s).znodeFor i h entry := by
      rintro i old entry hold hl hentry heq rfl
      rcases session_survives hg hold hl hnode hk with hleft | ⟨h', hh', hsession, hl'⟩
      · exact Or.inl hleft
      · refine Or.inr ⟨i, h', entry, hh', hsession, hl', ?_, ?_⟩
        · rwa [registerEntrySet_update hg hold]
        · rw [heq, znodeFor_update l s i hsession]
    rcases mem_nodesAfter hg hs hnode with hmem | ⟨hnone, _⟩ | ⟨i, old, entry, _, hold, hl, ht, heq⟩
    · rcases h.owner node hmem k hk with hleft | ⟨i, old, entry, hold, hsame, hl, hentry, heq⟩
      · exact Or.inl (abandoned_survives hleft hnode hk)
      · exact hkept i old entry hold hl hentry heq hsame
    -- one of somebody else has no session
    · cases hnone.symm.trans hk
    -- one that this registry has created, for an entry it had still to register
    · obtain ⟨todo, hleft⟩ := left_of_target ht
      refine hkept i old entry hold hl ?_ heq ?_
      · exact (h.remaining i old _ hold hleft).subset List.mem_cons_self
      · rw [heq] at hk
        exact Option.some.inj hk

theorem owned_reachable (s : Registries ι) (hr : (system ι).Reachable s) : Owned s := by
  refine (system ι).invariant_with Sound Owned sound_reachable ?_
    (fun l s hg hs _ h => owned_step l s hg hs h) s hr
  rintro s ⟨_, hnone, hnodes, _⟩
  constructor
  · intro i h todo hsome
    rw [hnone] at hsome
    cases hsome
  · intro node hnode k hk
    cases (hnodes node hnode).symm.trans hk

/-! ## Sessions that are over -/

/-- The handle has lost its session, and is still there. -/
def Expired (i : ι) (role : Role) (session : ℕ) (s : Registries ι) : Prop :=
  ∃ h, s.handles (i, role) = some h ∧ h.session = session ∧ h.live = false

/-- The runs from a state in which a registry is not closed. -/
def withoutClose (s : Registries ι) (i : ι) : Lts.Spec (Registries ι) (Label ι) :=
  ((system ι).startingAt s).restrict fun l _ => ∀ ended, l ≠ .close i ended

/-- A server with one entry. -/
def oneEntry : List UInt8 × List UInt8 := (methodChild, bytes "1")

/-- It registers the entry, and its session expires. -/
def registeredAndExpired : List (Label Unit) :=
  let h : Handle := { session := 0 }
  let connected : Handle := { h with assigned := true, connected := true }
  [.register () { map := [oneEntry] } true, .assign () .register h,
    .connect () .register { h with assigned := true },
    .deliver () .register { connected with events := [.connected] } .connected,
    .create () { connected with pc := .creating [oneEntry] } oneEntry [],
    .finish () { connected with pc := .creating [] },
    .expire () .register { connected with finished := true }]

/-- The handle of a session that has expired. -/
def expiredHandle : Handle where
  session := 0
  live := false
  assigned := true
  events := [.expired]
  finished := true

/-- Nothing is found in the registry, and it has no handles. -/
structure Closed (i : ι) (s : Registries ι) : Prop where
  cache : (s.registry i).localCache = []
  handles : ∀ role, s.handles (i, role) = none

/-- The runs from a state in which the registry is not used again. -/
def unused (s : Registries ι) (i : ι) : Lts.Spec (Registries ι) (Label ι) :=
  ((system ι).startingAt s).restrict fun l _ =>
    (∀ entries deleteIfExists, l ≠ .register i entries deleteIfExists) ∧ l ≠ .discovery i

theorem closed_close (i : ι) (ended : Role → Bool) (s : Registries ι) :
    Closed i (update (.close i ended) s) := by
  refine ⟨?_, fun role => ?_⟩
  · show (Function.update s.registry i _ i).localCache = []
    rw [Function.update_self]
  · have habout : (Label.close i ended).IsAbout (i, role) := rfl
    show (if (Label.close i ended).IsAbout (i, role) then none else _).map _ = none
    rw [if_pos habout]
    rfl

theorem closed_step {i : ι} (l : Label ι) (s : Registries ι) (hg : guard l s)
    (hregister : ∀ entries deleteIfExists, l ≠ .register i entries deleteIfExists)
    (hdiscovery : l ≠ .discovery i) (h : Closed i s) : Closed i (update l s) := by
  by_cases hclose : ∃ ended, l = .close i ended
  · obtain ⟨ended, rfl⟩ := hclose
    exact closed_close i ended s
  · have hother : ∀ role, ¬ l.IsAbout (i, role) := by
      intro role habout
      cases l with
      | register j entries deleteIfExists =>
          cases habout
          exact hregister _ _ rfl
      | discovery j =>
          cases habout
          exact hdiscovery rfl
      | close j ended => exact hclose ⟨ended, by rw [show i = j from habout]⟩
      | timeOut session => cases habout
      | outside nodes => cases habout
      | _ =>
          -- there is no handle for the step to be about
          cases habout
          cases (h.handles _).symm.trans hg.1
    refine ⟨?_, fun role => ?_⟩
    · rw [registry_update l s ?_ fun ended heq => hclose ⟨ended, heq⟩]
      · exact h.cache
      · rintro h' children rfl
        exact hother .discovery rfl
    · rw [handle_other (hother role), h.handles]
      rfl

/-- A session that no handle has any more: what it has of znodes, it has had in `s`, and it is
not abandoned unless it has been left. -/
structure Leaving (s : Registries ι) (session : ℕ) (left : Bool) (t : Registries ι) : Prop where
  gone : Over session t
  abandoned : session ∈ t.abandoned → left = true
  nodes : ∀ node ∈ t.nodes, node.owner = some session → node ∈ s.nodes

theorem leaving_close {i : ι} {ended : Role → Bool} (hn : Numbered s) {role : Role} {h : Handle}
    (hh : s.handles (i, role) = some h) :
    Leaving s h.session (!ended role) (update (.close i ended) s) where
  gone := over_close hn hh
  abandoned := by
    intro hmem
    rcases List.mem_append.mp hmem with hnew | hold
    · obtain ⟨role', h', hh', hsame, _, hended⟩ := mem_abandonedBy.mp hnew
      cases hn.unique _ _ _ _ hh' hh hsame
      rw [hended]
      rfl
    · exact absurd rfl ((hn.abandoned _ hold).2 _ h hh)
  nodes := fun node hmem _ => (mem_foldl_without.mp hmem).1

theorem leaving_step {session : ℕ} {left : Bool} {t : Registries ι} (hg : guard l t)
    (hs : Sound t) (h : Leaving s session left t) : Leaving s session left (update l t) where
  gone := over_step l t hg h.gone
  abandoned := by
    intro hmem
    rcases abandoned_cases hmem with hold | ⟨i, ended, rfl, hnew⟩
    · exact h.abandoned hold
    · obtain ⟨role, h', hh', hsame, _⟩ := mem_abandonedBy.mp hnew
      exact absurd hsame (h.gone.2 _ h' hh')
  nodes := by
    intro node hmem howner
    rcases mem_nodesAfter hg hs hmem with hold | ⟨hnone, _⟩ | ⟨i, h', entry, _, hh', _, _, rfl⟩
    · exact h.nodes node hold howner
    · cases hnone.symm.trans howner
    · exact absurd (Option.some.inj howner) (h.gone.2 _ h' hh')

end Registries

end SummerRpc
