import SummerRpc.Connection.Shared

/-! # Closing a `SharedBlockingConnection`

What `close()` guarantees whichever thread calls it, and however many do.

* `flags_ok`: `_closing` is set for as long as a thread is closing, and `_closed`
  before it stops, so a connection that is not open is never open again;
* `reached_writesClosed`, `reached_readsClosed`: the only steps that bring the
  closing past `_close_write` and `_close_read` are these two blocks;
* `test_update`: what the flags' test has seen set stays set.
-/

namespace SummerRpc

/-- The order of the phases. -/
def ClosePhase.rank : ClosePhase → ℕ
  | .flagged => 0
  | .socketClosed => 1
  | .writesClosed => 2
  | .readsClosed => 3
  | .closedSet => 4

namespace CloseFlags

/-- Some call of `close()` has come as far as `ph`. -/
def Reached (c : CloseFlags) (ph : ClosePhase) : Prop :=
  c.closed = true ∨ ∃ t q, c.closer = some (t, q) ∧ ph.rank ≤ q.rank

/-- The thread is inside a call of `close()` that may set the flags. -/
def Inside (c : CloseFlags) (t : Thread) : Prop := c.lock = some t ∨ ∃ ph, c.closer = some (t, ph)

/-- How the flags and the closing thread agree. -/
structure Ok (c : CloseFlags) : Prop where
  closing_of_closer : ∀ t ph, c.closer = some (t, ph) → c.closing = true
  closed_of_closedSet : ∀ t, c.closer = some (t, .closedSet) → c.closed = true
  lock_ne_closer : ∀ t ph, c.lock = some t → c.closer ≠ some (t, ph)

/-- As long as the closer has not come as far, only an earlier call can have. -/
theorem Reached.earlier {c d : CloseFlags} {t : Thread} {q ph : ClosePhase} (h : d.Reached ph)
    (hcloser : d.closer = some (t, q)) (hshort : q.rank < ph.rank) (hsame : d.closed = c.closed) :
    c.Reached ph := by
  rcases h with hclosed | ⟨_, _, heq, hle⟩
  · exact Or.inl (hsame.symm.trans hclosed)
  · rw [hcloser] at heq
    cases heq
    exact absurd hle (Nat.not_le.mpr hshort)

theorem test_eq_true {c : CloseFlags} : c.test = true ↔ c.closing = true ∨ c.closed = true := by
  simp [test]

theorem test_eq_false {c : CloseFlags} :
    c.test = false ↔ c.closing = false ∧ c.closed = false := by
  simp [test]

/-- Only the thread that held the lock has released it. -/
theorem release_lock {c : CloseFlags} {t u : Thread} :
    (c.release t).lock = some u ↔ c.lock = some u ∧ u ≠ t := by
  unfold release
  by_cases heq : c.lock = some t
  · simp only [heq, Option.some.injEq]
    constructor
    · intro h
      cases h
    · rintro ⟨rfl, hne⟩
      exact absurd rfl hne
  · simp only [if_neg heq]
    constructor
    · intro h
      exact ⟨h, fun hut => heq (hut ▸ h)⟩
    · exact And.left

/-- A connection on which `close()` has come to any of its phases is not open. -/
theorem Ok.test_of_reached {c : CloseFlags} (h : c.Ok) {ph : ClosePhase} (hr : c.Reached ph) :
    c.test = true := by
  rw [test_eq_true]
  rcases hr with hclosed | ⟨t, q, hcloser, _⟩
  · exact Or.inr hclosed
  · exact Or.inl (h.closing_of_closer t q hcloser)

/-- On an open connection it has come to none. -/
theorem Ok.not_reached_of_test {c : CloseFlags} (h : c.Ok) (htest : ¬ c.test = true)
    (ph : ClosePhase) : ¬ c.Reached ph := fun hr => htest (h.test_of_reached hr)

/-- The closing thread comes to another phase, and at the last one has set `_closed`. -/
theorem Ok.advance {c : CloseFlags} (h : c.Ok) {t : Thread} {q : ClosePhase}
    (hcloser : c.closer = some (t, q)) {closed : Bool} {ph : ClosePhase}
    (hclosed : ph = .closedSet → closed = true) :
    { c with closed := closed, closer := some (t, ph) }.Ok := by
  refine ⟨fun _ _ _ => h.closing_of_closer t q hcloser, ?_, ?_⟩
  · rintro u ⟨rfl⟩
    exact hclosed rfl
  · rintro u ph' hlock ⟨rfl⟩
    exact h.lock_ne_closer _ _ hlock hcloser

/-- A thread that has come to a phase of `close()` was inside it before. -/
theorem Inside.earlier {c : CloseFlags} {t u : Thread} {closed : Bool} {q ph : ClosePhase}
    (h : { c with closed := closed, closer := some (u, ph) }.Inside t)
    (hcloser : c.closer = some (u, q)) : c.Inside t := by
  rcases h with hlock | ⟨_, heq⟩
  · exact Or.inl hlock
  · cases heq
    exact Or.inr ⟨q, hcloser⟩

end CloseFlags

namespace SharedBlockingConnection

@[simp] theorem flags_insertHeartbeat (s : SharedBlockingConnection) (cfg : Config) (now : ℤ)
    (heartbeat : Except Exc Body) : (s.insertHeartbeat cfg now heartbeat).flags = s.flags := by
  unfold insertHeartbeat
  split
  · split
    · rfl
    · split <;> rfl
  · rfl

@[simp] theorem flags_answerHeartbeat (s : SharedBlockingConnection) (p : Packet) :
    (s.answerHeartbeat p).flags = s.flags := by
  unfold answerHeartbeat
  split <;> rfl

/-- The steps that touch the flags are those of `close()`. -/
theorem flags_update (cfg : Config) (l : Label) (s : SharedBlockingConnection) :
    (update cfg l s).flags =
      match l with
      | .closeTest c => { s.flags with lock := some c }
      | .closeReturn c =>
          { s.flags.release c with returns := s.flags.returns ++ [c] }
      | .closeFlag c => { s.flags with closing := true, lock := none, closer := some (c, .flagged) }
      | .closeSocket c => { s.flags with closer := some (c, .socketClosed) }
      | .closeWrite c => { s.flags with closer := some (c, .writesClosed) }
      | .closeRead c => { s.flags with closer := some (c, .readsClosed) }
      | .closeSet c => { s.flags with closed := true, closer := some (c, .closedSet) }
      | .closeDone c =>
          { s.flags with closing := false, closer := none, returns := s.flags.returns ++ [c] }
      | _ => s.flags := by
  cases l <;> simp [update, returnFromClose, CloseFlags.release]

/-! ## The flags -/

theorem flags_step {cfg : Config} {l : Label} {s : SharedBlockingConnection}
    (hg : guard cfg l s) (h : s.flags.Ok) : (update cfg l s).flags.Ok := by
  rw [flags_update]
  cases l with
  | closeTest c =>
      -- the closing thread does not call `close()` again, so the lock is another's
      refine ⟨h.closing_of_closer, h.closed_of_closedSet, ?_⟩
      intro t ph hlock hcloser
      have hct : c = t := by simpa using hlock
      apply hg.2.1
      rw [hcloser, hct]
      rfl
  | closeReturn c =>
      refine ⟨h.closing_of_closer, h.closed_of_closedSet, ?_⟩
      intro t ph hlock
      exact h.lock_ne_closer t ph (CloseFlags.release_lock.mp hlock).1
  | closeFlag c => exact ⟨fun _ _ _ => rfl, fun _ => nofun, fun _ _ => nofun⟩
  | closeSocket c => exact h.advance hg nofun
  | closeWrite c => exact h.advance hg.1 nofun
  | closeRead c => exact h.advance hg.1 nofun
  | closeSet c => exact h.advance hg fun _ => rfl
  | closeDone c => exact ⟨fun _ _ => nofun, fun _ => nofun, fun _ _ _ => nofun⟩
  | _ => exact h

/-- Nobody has called `close()` on a new connection. -/
theorem flags_new (cfg : Config) : (new cfg).flags.Ok := by
  constructor
  · intro t ph h
    cases h
  · intro t h
    cases h
  · intro t ph h
    cases h

/-- In every run the flags and the closing thread agree. -/
theorem flags_ok (cfg : Config) : ∀ s, (system cfg).Reachable s → s.flags.Ok := by
  apply Lts.Spec.invariant
  · rintro s rfl
    exact flags_new cfg
  · intro l s hg h
    exact flags_step hg h

/-- A connection that is being closed, or is closed, stays so. -/
theorem test_update {cfg : Config} {l : Label} {s : SharedBlockingConnection}
    (hg : guard cfg l s) (hok : s.flags.Ok) (h : s.flags.test = true) :
    (update cfg l s).flags.test = true := by
  rw [CloseFlags.test_eq_true] at h ⊢
  rw [flags_update]
  cases l with
  | closeFlag c => exact Or.inl rfl
  | closeSet c => exact Or.inr rfl
  | closeDone c => exact Or.inr (hok.closed_of_closedSet c hg)
  | _ => exact h

/-- A connection that is open after a step was open before it. -/
theorem test_of_update {cfg : Config} {l : Label} {s : SharedBlockingConnection}
    (hg : guard cfg l s) (hok : s.flags.Ok) (hopen : (update cfg l s).flags.test = false) :
    s.flags.test = false := by
  rw [← Bool.not_eq_true]
  intro htest
  rw [test_update hg hok htest] at hopen
  cases hopen

/-- The closing never goes back. -/
theorem reached_mono {cfg : Config} {l : Label} {s : SharedBlockingConnection} {ph : ClosePhase}
    (hg : guard cfg l s) (hok : s.flags.Ok) (h : s.flags.Reached ph) :
    (update cfg l s).flags.Reached ph := by
  -- the closing thread comes to a later phase
  have hnext : ∀ {c : Thread} {p q : ClosePhase}, s.flags.closer = some (c, p) → p.rank ≤ q.rank →
      s.flags.closed = true ∨ ∃ t r, some (c, q) = some (t, r) ∧ ph.rank ≤ r.rank := by
    intro c p q hcloser hle
    rcases h with hclosed | ⟨t, r, heq, hr⟩
    · exact Or.inl hclosed
    · rw [hcloser] at heq
      cases heq
      exact Or.inr ⟨c, q, rfl, Nat.le_trans hr hle⟩
  rw [flags_update]
  cases l with
  | closeFlag c =>
      rcases h with hclosed | ⟨t, q, heq, _⟩
      · exact Or.inl hclosed
      · have hclosing := hok.closing_of_closer t q heq
        rw [hg.2] at hclosing
        cases hclosing
  | closeSocket c => exact hnext hg (by decide)
  | closeWrite c => exact hnext hg.1 (by decide)
  | closeRead c => exact hnext hg.1 (by decide)
  | closeSet c => exact Or.inl rfl
  | closeDone c => exact Or.inl (hok.closed_of_closedSet c hg)
  | _ => exact h

/-- Only `_close_write` takes the closing past `_close_write`. -/
theorem reached_writesClosed {cfg : Config} {l : Label} {s : SharedBlockingConnection}
    (hg : guard cfg l s) (h : (update cfg l s).flags.Reached .writesClosed) :
    s.flags.Reached .writesClosed ∨ ∃ c, l = .closeWrite c := by
  rw [flags_update] at h
  cases l with
  | closeWrite c => exact Or.inr ⟨c, rfl⟩
  | closeFlag c => exact Or.inl (h.earlier rfl (by decide) rfl)
  | closeSocket c => exact Or.inl (h.earlier rfl (by decide) rfl)
  | closeRead c => exact Or.inl (Or.inr ⟨c, _, hg.1, by decide⟩)
  | closeSet c => exact Or.inl (Or.inr ⟨c, _, hg, by decide⟩)
  | closeDone c => exact Or.inl (Or.inr ⟨c, _, hg, by decide⟩)
  | _ => exact Or.inl h

/-- Only `_close_read` takes the closing past `_close_read`. -/
theorem reached_readsClosed {cfg : Config} {l : Label} {s : SharedBlockingConnection}
    (hg : guard cfg l s) (h : (update cfg l s).flags.Reached .readsClosed) :
    s.flags.Reached .readsClosed ∨ ∃ c, l = .closeRead c := by
  rw [flags_update] at h
  cases l with
  | closeRead c => exact Or.inr ⟨c, rfl⟩
  | closeFlag c => exact Or.inl (h.earlier rfl (by decide) rfl)
  | closeSocket c => exact Or.inl (h.earlier rfl (by decide) rfl)
  | closeWrite c => exact Or.inl (h.earlier rfl (by decide) rfl)
  | closeSet c => exact Or.inl (Or.inr ⟨c, _, hg, by decide⟩)
  | closeDone c => exact Or.inl (Or.inr ⟨c, _, hg, by decide⟩)
  | _ => exact Or.inl h

/-- A thread enters a call of `close()` by taking `_close_lock`, and has left it
when the call has returned. -/
theorem inside_update {cfg : Config} {l : Label} {s : SharedBlockingConnection} {t : Thread}
    (hg : guard cfg l s) (hok : s.flags.Ok) (h : (update cfg l s).flags.Inside t) :
    (s.flags.Inside t ∨ (l = .closeTest t ∧ s.MayClose t)) ∧
      l ≠ .closeReturn t ∧ l ≠ .closeDone t := by
  rw [flags_update] at h
  cases l with
  | closeTest c =>
      refine ⟨?_, nofun, nofun⟩
      rcases h with hlock | hcloser
      · have hct : c = t := by simpa using hlock
        subst hct
        exact Or.inr ⟨rfl, hg.1⟩
      · exact Or.inl (Or.inr hcloser)
  | closeReturn c =>
      rcases h with hlock | ⟨ph, hcloser⟩
      · have hl := CloseFlags.release_lock.mp hlock
        refine ⟨Or.inl (Or.inl hl.1), ?_, nofun⟩
        rintro ⟨rfl⟩
        exact hl.2 rfl
      · have hc : s.flags.closer = some (t, ph) := hcloser
        refine ⟨Or.inl (Or.inr ⟨ph, hc⟩), ?_, nofun⟩
        rintro ⟨rfl⟩
        apply hg.2.1
        rw [hc]
        rfl
  | closeFlag c =>
      -- the lock is given up as the flag is set, so the caller stays inside
      refine ⟨Or.inl ?_, nofun, nofun⟩
      rcases h with hlock | ⟨ph, hcloser⟩
      · cases hlock
      · cases hcloser
        exact Or.inl hg.1
  | closeDone c =>
      rcases h with hlock | ⟨ph, hcloser⟩
      · refine ⟨Or.inl (Or.inl hlock), nofun, ?_⟩
        rintro ⟨rfl⟩
        exact hok.lock_ne_closer t _ hlock hg
      · cases hcloser
  | closeSocket c => exact ⟨Or.inl (CloseFlags.Inside.earlier h hg), nofun, nofun⟩
  | closeWrite c => exact ⟨Or.inl (CloseFlags.Inside.earlier h hg.1), nofun, nofun⟩
  | closeRead c => exact ⟨Or.inl (CloseFlags.Inside.earlier h hg.1), nofun, nofun⟩
  | closeSet c => exact ⟨Or.inl (CloseFlags.Inside.earlier h hg), nofun, nofun⟩
  | _ => exact ⟨Or.inl h, nofun, nofun⟩

end SharedBlockingConnection

end SummerRpc
