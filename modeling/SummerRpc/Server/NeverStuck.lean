import SummerRpc.Server.Phases

/-! # A server that can be started or closed

Every step of a call, and what becomes of the phase.

* `Inv.next`: an action leaves the phase as it is, takes the server to the next one, or breaks
  it;
* `phase_of_reachable`: a server is in some phase at any moment;
* `never_stuck_iff`: with no call in progress, it can be started or closed if and only if nothing
  has gone wrong.
-/

namespace SummerRpc

namespace Lifecycle

/-- What an action makes of the phase: the same or the next one, unless it breaks the server. -/
def Goes {τ : Type} (a : Action τ) (s : State τ) (ph ph' : Phase τ) : Prop :=
  (breaks a s = false ∧ (ph' = ph ∨ ph.Next ph')) ∨ (breaks a s = true ∧ ph.Fails ph')

namespace Inv

variable {τ : Type} [DecidableEq τ] {s t : State τ} {ph ph' : Phase τ} {i : τ} {p : Pc}
  {cfg : Config} {op : Op}

/-! ## The steps of a call -/

theorem step_check {reads : List (Flag × Bool)} (h : Inv s ph) (hpc : s.pc i = .check op reads) :
    Inv (s.step cfg i) ph := by
  cases reads with
  | nil =>
      simp only [State.step, hpc]
      exact h.goto hpc Iff.rfl rfl trivial
  | cons read reads =>
      simp only [State.step, hpc]
      split_ifs
      · exact h.goto hpc Iff.rfl rfl trivial
      · exact h.goto hpc (iff_of_false (Pc.after_out op) id) (Pc.after_claim op i)
          (Pc.after_ok op _)

theorem step_wait (h : Inv s ph) (hpc : s.pc i = .wait op) (hfree : s.lock = none) :
    Inv (s.step cfg i) ph := by
  have hclaim : (s.pc i).claim i = none := by
    rw [hpc]
    rfl
  simp only [State.step, hpc]
  refine h.stay rfl rfl rfl rfl ?_ ?_ ?_ ?_
  · have hmutex := h.mutex
    rw [hfree] at hmutex
    exact hmutex.acquire trivial
  · intro ph' hp
    cases hp
  · intro howner
    have hsome := h.owner i howner
    rw [hclaim] at hsome
    cases hsome
  · -- nothing has been read yet
    exact ⟨List.suffix_refl _, fun read hmem hnot => absurd hmem hnot⟩

/-- The lock is given up by a call that knows nothing, or has nothing more to do. -/
theorem unlock (h : Inv s ph) (hin : (s.pc i).Locked) (hout : ¬ p.Locked)
    (hclaim : p.claim i = none) (howner : ph.owner ≠ some i) (hok : p.Ok s.flags) :
    Inv (s.unlock.goto i p) ph := by
  refine h.stay rfl rfl rfl rfl (h.mutex.release hin hout) ?_ ?_ hok
  · intro ph' hp
    rw [hclaim] at hp
    cases hp
  · exact fun hsame => absurd hsame howner

theorem step_recheck {reads : List (Flag × Bool)} (h : Inv s ph)
    (hpc : s.pc i = .recheck op reads) : Inv (s.step cfg i) ph := by
  have hin : (s.pc i).Locked := by
    rw [hpc]
    trivial
  have hclaim : (s.pc i).claim i = none := by
    rw [hpc]
    rfl
  have hok := h.ok i
  rw [hpc] at hok
  obtain ⟨hsuffix, hok⟩ := hok
  have howner : ph.owner ≠ some i := by
    intro howner
    have hsome := h.owner i howner
    rw [hclaim] at hsome
    cases hsome
  cases reads with
  | nil =>
      simp only [State.step, hpc]
      have hknows : (Pc.write op op.writes).claim i = some ph := by
        cases op with
        | start =>
            rw [h.stopped_of_check fun read hread => hok read hread List.not_mem_nil]
            rfl
        | close | cleanup =>
            rw [h.running_of_check hin hclaim fun read hread => hok read hread List.not_mem_nil]
            rfl
      refine h.stay rfl rfl rfl rfl (h.mutex.move (iff_of_true trivial hin)) ?_ ?_ ?_
      · intro ph' hp
        exact Option.some.inj (hp.symm.trans hknows)
      · exact fun _ => hknows
      · exact List.suffix_refl _
  | cons read reads =>
      simp only [State.step, hpc]
      split_ifs with hread
      · refine h.goto hpc Iff.rfl rfl
          ⟨(List.suffix_cons _ _).trans hsuffix, ?_⟩
        intro r hr hnot
        by_cases heq : r = read
        · rw [heq]
          exact hread
        · exact hok r hr fun hmem => (List.mem_cons.mp hmem).elim heq hnot
      · exact h.unlock hin (Pc.after_out op) (Pc.after_claim op i) howner (Pc.after_ok op _)

/-- The first writes of a call make the server start, or close. -/
theorem step_write (cfg : Config) {writes : List (Flag × Bool)} (h : Inv s ph)
    (hpc : s.pc i = .write op writes) :
    ∃ ph', Inv (s.step cfg i) ph' ∧ (ph' = ph ∨ ph.Next ph') := by
  have hok : writes <:+ op.writes := by
    have hwrites := h.ok i
    rw [hpc] at hwrites
    exact hwrites
  have hin : (s.pc i).Locked := by
    rw [hpc]
    trivial
  cases op with
  | start =>
      have hlist := hok
      simp only [Op.writes, List.suffix_cons_iff, List.suffix_nil] at hlist
      rcases hlist with rfl | rfl | rfl | rfl
      · -- `_starting`, while no other call is at work
        obtain rfl : .stopped = ph := h.known hpc rfl
        refine ⟨.starting i, ?_, Or.inr (.start i)⟩
        simp only [State.step, hpc]
        refine h.write hpc rfl trivial trivial rfl ((List.suffix_cons _ _).trans hok) ?_ ?_ rfl rfl
        · exact fun v hv => (Option.some.inj hv).symm
        · intro f hf v hv
          cases f <;> simp_all [Phase.flag]
      · -- `_started`, which is not set here
        obtain rfl : .starting i = ph := h.known hpc rfl
        refine ⟨.starting i, ?_, Or.inl rfl⟩
        simp only [State.step, hpc]
        exact h.rewrite hpc rfl trivial trivial rfl ((List.suffix_cons _ _).trans hok)
          fun v hv => (Option.some.inj hv).symm
      · -- `_closed`, from the last time the server was closed
        obtain rfl : .starting i = ph := h.known hpc rfl
        refine ⟨.opening i, ?_, Or.inr (.open i)⟩
        simp only [State.step, hpc]
        refine h.write hpc rfl trivial trivial rfl ((List.suffix_cons _ _).trans hok) ?_ ?_ rfl rfl
        · exact fun v hv => (Option.some.inj hv).symm
        · intro f hf v hv
          cases f <;> simp_all [Phase.flag]
      · -- the lock is released, and the call still knows what it has written
        obtain rfl : .opening i = ph := h.known hpc rfl
        refine ⟨.opening i, ?_, Or.inl rfl⟩
        simp only [State.step, hpc]
        refine h.stay rfl rfl rfl rfl (h.mutex.release hin id) ?_ ?_ (List.suffix_refl _)
        · exact fun ph' hp => (Option.some.inj hp).symm
        · exact fun _ => rfl
  | close | cleanup =>
      have hlist := hok
      simp only [Op.writes, List.suffix_cons_iff, List.suffix_nil] at hlist
      rcases hlist with rfl | rfl | rfl
      · -- `_closing`
        obtain rfl : .running = ph := h.known hpc rfl
        refine ⟨.closing i, ?_, Or.inr (.close i)⟩
        simp only [State.step, hpc]
        refine h.write hpc rfl trivial trivial rfl ((List.suffix_cons _ _).trans hok) ?_ ?_ rfl rfl
        · exact fun v hv => (Option.some.inj hv).symm
        · intro f hf v hv
          cases f <;> simp_all [Phase.flag]
      · -- `_closed`, which nothing depends on while the server is closing
        obtain rfl : .closing i = ph := h.known hpc rfl
        refine ⟨.closing i, ?_, Or.inl rfl⟩
        simp only [State.step, hpc]
        refine h.rewrite hpc rfl trivial trivial rfl ((List.suffix_cons _ _).trans hok) ?_
        intro v hv
        cases hv
      · obtain rfl : .closing i = ph := h.known hpc rfl
        refine ⟨.closing i, ?_, Or.inl rfl⟩
        simp only [State.step, hpc]
        exact h.goto hpc Iff.rfl rfl trivial

/-- The last writes make it stop. -/
theorem step_finish (cfg : Config) {writes : List (Flag × Bool)} (h : Inv s ph)
    (hpc : s.pc i = .finish op writes) :
    ∃ ph', Inv (s.step cfg i) ph' ∧ (ph' = ph ∨ ph.Next ph') := by
  have hok : writes <:+ lastWrites := by
    have hwrites := h.ok i
    rw [hpc] at hwrites
    exact hwrites
  have hlist := hok
  simp only [lastWrites, List.suffix_cons_iff, List.suffix_nil] at hlist
  rcases hlist with rfl | rfl | rfl | rfl | rfl
  · -- `_closed`
    obtain rfl : .closing i = ph := h.known hpc rfl
    refine ⟨.closing i, ?_, Or.inl rfl⟩
    simp only [State.step, hpc]
    refine h.rewrite hpc rfl trivial trivial rfl ((List.suffix_cons _ _).trans hok) ?_
    intro v hv
    cases hv
  · -- `_closing`, while the server still counts as started
    obtain rfl : .closing i = ph := h.known hpc rfl
    refine ⟨.leaving i, ?_, Or.inr (.leave i)⟩
    simp only [State.step, hpc]
    refine h.write hpc rfl trivial trivial rfl ((List.suffix_cons _ _).trans hok) ?_ ?_ rfl rfl
    · exact fun v hv => (Option.some.inj hv).symm
    · intro f hf v hv
      cases f <;> simp_all [Phase.flag]
  · -- `_started`
    obtain rfl : .leaving i = ph := h.known hpc rfl
    refine ⟨.stopped, ?_, Or.inr (.stop i)⟩
    simp only [State.step, hpc]
    refine h.write hpc rfl trivial trivial rfl ((List.suffix_cons _ _).trans hok) ?_ ?_ rfl rfl
    · exact fun v hv => (Option.some.inj hv).symm
    · intro f hf v hv
      cases f <;> simp_all [Phase.flag]
  · -- `_starting`, which is not set here
    obtain rfl : .stopped = ph := h.known hpc rfl
    refine ⟨.stopped, ?_, Or.inl rfl⟩
    simp only [State.step, hpc]
    exact h.rewrite hpc rfl trivial trivial rfl ((List.suffix_cons _ _).trans hok)
      fun v hv => (Option.some.inj hv).symm
  · obtain rfl : .stopped = ph := h.known hpc rfl
    refine ⟨.stopped, ?_, Or.inl rfl⟩
    have hin : (s.pc i).Locked := by
      rw [hpc]
      trivial
    simp only [State.step, hpc]
    exact h.unlock hin (Pc.after_out op) (Pc.after_claim op i) (by rintro ⟨⟩) (Pc.after_ok op _)

/-- The steps between the writes of `_close_if_necessary`. -/
theorem step_release {steps : List Release} (h : Inv s ph) (hpc : s.pc i = .release op steps) :
    Inv (s.step cfg i) ph := by
  cases steps with
  | nil =>
      simp only [State.step, hpc]
      exact h.goto hpc Iff.rfl rfl (List.suffix_refl _)
  | cons step steps =>
      have hsame := same_release s step
      simp only [State.step, hpc]
      exact (h.same hsame).goto ((congrFun hsame.pc i).trans hpc) Iff.rfl rfl trivial

/-- The callback is handed over, unless the loop is closed. -/
theorem step_addCallback (cfg : Config) (h : Inv s ph) (hpc : s.pc i = .setup [.addCallback]) :
    ∃ ph', Inv (s.step cfg i) ph' ∧
      ((s.loopClosed = false ∧ ph.Next ph') ∨ (s.loopClosed = true ∧ ph.Fails ph')) := by
  obtain rfl : .opening i = ph := h.known hpc rfl
  have hknows : (s.pc i).claim i = some (.opening i) := by
    rw [hpc]
    rfl
  have hout : ¬ (s.pc i).Locked := by
    rw [hpc]
    exact id
  have hmutex := h.mutex.move (p := .setup []) (iff_of_false id hout)
  cases hclosed : s.loopClosed with
  | false =>
      refine ⟨.queued, ?_, Or.inl ⟨rfl, .handOver i⟩⟩
      simp only [State.step, hpc, State.setUp, hclosed]
      exact h.advance hknows rfl h.flags (congrArg Nat.succ h.callbacks) h.callback hmutex
        (Or.inr ⟨rfl, rfl⟩) List.nil_suffix (Or.inl rfl)
  | true =>
      refine ⟨.stuck, ?_, Or.inr ⟨rfl, .start i⟩⟩
      simp only [State.step, hpc, State.setUp, hclosed]
      exact h.advance hknows rfl (h.flags_of_fails (.start i)) h.callbacks h.callback hmutex
        (Or.inr ⟨rfl, rfl⟩) List.nil_suffix (Or.inl rfl)

/-- Handing over the callback is the last of the steps of `start`. -/
theorem setup_cases {step : Setup} {steps : List Setup} (h : step :: steps <:+ setup) :
    step = .addCallback ∧ steps = [] ∨ step ≠ .addCallback ∧ .addCallback ∈ steps := by
  simp only [setup, List.suffix_cons_iff, List.suffix_nil] at h
  rcases h with hlist | hlist | hlist | hlist | hlist | hlist | hlist
  all_goals
    cases hlist
  all_goals
    decide

/-- The steps before that. -/
theorem step_setup {step : Setup} {steps : List Setup} (h : Inv s ph)
    (hpc : s.pc i = .setup (step :: steps)) (hstep : step ≠ .addCallback)
    (hmem : .addCallback ∈ steps) : Inv (s.step cfg i) ph := by
  have hok : step :: steps <:+ setup := by
    have hsteps := h.ok i
    rw [hpc] at hsteps
    exact hsteps
  have hsame := same_setUp cfg s hstep
  simp only [State.step, hpc]
  refine (h.same hsame).goto ((congrFun hsame.pc i).trans hpc) Iff.rfl ?_
    ((List.suffix_cons _ _).trans hok)
  simp only [Pc.claim, hmem, List.mem_cons, or_true, if_true]

/-- Into the event loop, and out of it. -/
theorem step_loop (h : Inv s ph) (hpc : s.pc i = .setup [] ∨ s.pc i = .looping) :
    Inv (s.step cfg i) ph := by
  rcases hpc with hpc | hpc
  · simp only [State.step, hpc]
    exact h.goto hpc Iff.rfl rfl trivial
  · simp only [State.step, hpc]
    exact h.goto hpc Iff.rfl rfl trivial

/-- The loop is closed, and the callback is lost if it has not been run. -/
theorem step_closeLoop (cfg : Config) (h : Inv s ph) (hpc : s.pc i = .closeLoop) :
    ∃ ph', Inv (s.step cfg i) ph' ∧
      ((s.callbacks = 0 ∧ ph' = ph) ∨ (s.callbacks ≠ 0 ∧ ph.Fails ph')) := by
  have hmove : ∀ {ph' : Phase τ}, Inv s.closeLoop ph' → Inv (s.step cfg i) ph' := by
    intro ph' h'
    simp only [State.step, hpc]
    exact h'.goto hpc Iff.rfl rfl trivial
  by_cases hzero : s.callbacks = 0
  · exact ⟨ph, hmove (h.same ⟨rfl, hzero.symm, rfl, rfl, rfl⟩), Or.inl ⟨hzero, rfl⟩⟩
  · obtain rfl := h.queued_of_callbacks hzero
    have hfree := h.free (Or.inl Nat.one_ne_zero)
    refine ⟨.stuck, hmove ?_, Or.inr ⟨hzero, .callback⟩⟩
    exact h.proceed hfree rfl rfl rfl (h.flags_of_fails .callback) rfl h.callback h.ok

/-- `start` raises, and nobody takes the server on any more. -/
theorem fail_setup {step : Setup} {steps : List Setup} (h : Inv s ph)
    (hpc : s.pc i = .setup (step :: steps)) : ∃ ph', Inv (s.fail i) ph' ∧ ph.Fails ph' := by
  have hmem : .addCallback ∈ step :: steps := by
    have hok := h.ok i
    rw [hpc] at hok
    rcases setup_cases hok with ⟨rfl, _⟩ | ⟨_, hmem⟩
    · exact List.mem_cons_self
    · exact List.mem_cons_of_mem _ hmem
  obtain rfl : .opening i = ph := h.known hpc (if_pos hmem)
  have hknows : (s.pc i).claim i = some (.opening i) := by
    rw [hpc]
    exact if_pos hmem
  have hout : ¬ (s.pc i).Locked := by
    rw [hpc]
    exact id
  refine ⟨.stuck, ?_, .start i⟩
  simp only [State.fail, hpc]
  exact h.advance hknows rfl (h.flags_of_fails (.start i)) h.callbacks h.callback
    (h.mutex.move (iff_of_false id hout)) (Or.inr ⟨rfl, rfl⟩) trivial (Or.inl rfl)

/-- So does `_close_if_necessary`. -/
theorem fail_release {step : Release} {steps : List Release} (h : Inv s ph)
    (hpc : s.pc i = .release op (step :: steps)) : ∃ ph', Inv (s.fail i) ph' ∧ ph.Fails ph' := by
  obtain rfl : .closing i = ph := h.known hpc rfl
  refine ⟨.jammed, ?_, .close i⟩
  have hunlock : ∀ t : State τ, Same s t → Inv (t.unlock.goto i .idle) .jammed := by
    intro t hsame
    have h' := h.same hsame
    have hpc' : t.pc i = .release op (step :: steps) := (congrFun hsame.pc i).trans hpc
    have hknows : (t.pc i).claim i = some (.closing i) := by
      rw [hpc']
      rfl
    have hin : (t.pc i).Locked := by
      rw [hpc']
      trivial
    exact h'.advance hknows rfl (h'.flags_of_fails (.close i)) h'.callbacks h'.callback
      (h'.mutex.release hin id) (Or.inr ⟨rfl, rfl⟩) trivial (Or.inl rfl)
  simp only [State.fail, hpc]
  cases step with
  | registry => exact hunlock s ⟨rfl, rfl, rfl, rfl, rfl⟩
  | _ => exact hunlock _ (same_release s _)

/-- The end of `start` may raise: the flags are written by then. -/
theorem fail_closeLoop (h : Inv s ph) (hpc : s.pc i = .closeLoop) : Inv (s.fail i) ph := by
  simp only [State.fail, hpc]
  exact h.goto hpc Iff.rfl rfl trivial

/-- A new call knows nothing. -/
theorem begin (h : Inv s ph) (hidle : s.pc i = .idle) (op : Op) (reads : List (Flag × Bool)) :
    Inv (s.goto i (.check op reads)) ph :=
  h.goto hidle Iff.rfl rfl trivial

/-- A step of a call leaves the phase as it is, takes the server to the next one, or breaks
it. -/
theorem step (h : Inv s ph) (hg : guard cfg (.step i) s = true) :
    ∃ ph', Inv (s.step cfg i) ph' ∧ Goes (.step i) s ph ph' := by
  have hkept : Inv (s.step cfg i) ph → breaks (.step i) s = false →
      ∃ ph', Inv (s.step cfg i) ph' ∧ Goes (.step i) s ph ph' :=
    fun h' hwell => ⟨ph, h', Or.inl ⟨hwell, Or.inl rfl⟩⟩
  cases hpc : s.pc i with
  | idle =>
      simp only [guard, hpc] at hg
      cases hg
  | check op reads => exact hkept (h.step_check hpc) (by simp only [breaks, hpc])
  | wait op =>
      simp only [guard, hpc, Option.isNone_iff_eq_none] at hg
      exact hkept (h.step_wait hpc hg) (by simp only [breaks, hpc])
  | recheck op reads => exact hkept (h.step_recheck hpc) (by simp only [breaks, hpc])
  | write op writes =>
      obtain ⟨ph', h', hnext⟩ := h.step_write cfg hpc
      exact ⟨ph', h', Or.inl ⟨by simp only [breaks, hpc], hnext⟩⟩
  | setup steps =>
      cases steps with
      | nil => exact hkept (h.step_loop (Or.inl hpc)) (by simp only [breaks, hpc])
      | cons step steps =>
          have hok := h.ok i
          rw [hpc] at hok
          rcases setup_cases hok with ⟨rfl, rfl⟩ | ⟨hstep, hmem⟩
          · obtain ⟨ph', h', hnext⟩ := h.step_addCallback cfg hpc
            refine ⟨ph', h', ?_⟩
            simp only [Goes, breaks, hpc]
            rcases hnext with ⟨hopen, hnext⟩ | hlost
            · exact Or.inl ⟨hopen, Or.inr hnext⟩
            · exact Or.inr hlost
          · refine hkept (h.step_setup hpc hstep hmem) ?_
            cases step with
            | addCallback => exact absurd rfl hstep
            | _ => simp only [breaks, hpc]
  | looping => exact hkept (h.step_loop (Or.inr hpc)) (by simp only [breaks, hpc])
  | release op steps => exact hkept (h.step_release hpc) (by simp only [breaks, hpc])
  | finish op writes =>
      obtain ⟨ph', h', hnext⟩ := h.step_finish cfg hpc
      exact ⟨ph', h', Or.inl ⟨by simp only [breaks, hpc], hnext⟩⟩
  | closeLoop =>
      obtain ⟨ph', h', hnext⟩ := h.step_closeLoop cfg hpc
      refine ⟨ph', h', ?_⟩
      simp only [Goes, breaks, hpc]
      rcases hnext with ⟨hzero, hsame⟩ | ⟨hne, hfails⟩
      · exact Or.inl ⟨decide_eq_false (not_not_intro hzero), Or.inl hsame⟩
      · exact Or.inr ⟨decide_eq_true hne, hfails⟩

theorem next (cfg : Config) (h : Inv s ph) {a : Action τ} (hg : guard cfg a s = true) :
    ∃ ph', Inv (update cfg a s) ph' ∧ Goes a s ph ph' := by
  cases a with
  | start i => exact ⟨ph, h.begin (of_decide_eq_true hg) _ _, Or.inl ⟨rfl, Or.inl rfl⟩⟩
  | close i => exact ⟨ph, h.begin (of_decide_eq_true hg) _ _, Or.inl ⟨rfl, Or.inl rfl⟩⟩
  | step i => exact h.step hg
  | fail i =>
      rcases mayRaise_cases hg with ⟨step, steps, hpc⟩ | ⟨op, step, steps, hpc⟩ | hpc
      · obtain ⟨ph', h', hfails⟩ := h.fail_setup hpc
        exact ⟨ph', h', Or.inr ⟨by simp [breaks, hpc], hfails⟩⟩
      · obtain ⟨ph', h', hfails⟩ := h.fail_release hpc
        exact ⟨ph', h', Or.inr ⟨by simp [breaks, hpc], hfails⟩⟩
      · exact ⟨ph, h.fail_closeLoop hpc, Or.inl ⟨by simp [breaks, hpc], Or.inl rfl⟩⟩
  | changeStatus =>
      have hne : s.callbacks ≠ 0 ∨ s.callback ≠ [] := by
        simpa [guard] using hg
      obtain ⟨ph', h', hnext⟩ := h.changeStatus hne
      exact ⟨ph', h', Or.inl ⟨rfl, Or.inr hnext⟩⟩

end Inv

/-! ## Runs -/

variable {τ : Type}

theorem inv_init {s : State τ} {cfg : Config} [DecidableEq τ] (h : (system τ cfg).init s) :
    Inv s .stopped := by
  obtain ⟨registry, rfl⟩ := h
  constructor
  · intro f v hv
    cases f with
    | closed => cases hv
    | starting | started | closing => exact Option.some.inj hv
  · rfl
  · rfl
  · intro i
    exact ⟨fun hin => absurd hin id, fun hnone => by cases hnone⟩
  · intro i ph hi
    cases hi
  · intro i hi
    cases hi
  · exact fun i => trivial

/-- The phase of a server at any moment; it is broken once something has gone wrong. -/
theorem phase_of_reachable [DecidableEq τ] {cfg : Config} {p : State τ × Bool}
    (hr : (recorded τ cfg).Reachable p) : ∃ ph, Inv p.1 ph ∧ (p.2 = true ↔ ph.Broken) := by
  refine (recorded τ cfg).invariant
    (fun p => ∃ ph, Inv p.1 ph ∧ (p.2 = true ↔ ph.Broken)) ?_ ?_ p hr
  · rintro ⟨s, broken⟩ ⟨hs, hbroken⟩
    refine ⟨.stopped, inv_init hs, ?_⟩
    rw [show broken = false from hbroken]
    simp [Phase.Broken]
  · rintro a ⟨s, broken⟩ hg ⟨ph, h, hiff⟩
    obtain ⟨ph', h', hnext⟩ := h.next cfg hg
    refine ⟨ph', h', ?_⟩
    show (broken || breaks a s) = true ↔ ph'.Broken
    rw [Bool.or_eq_true]
    rcases hnext with ⟨hwell, rfl | hnext⟩ | ⟨hbreaks, hfails⟩
    · rw [hwell]
      simpa using hiff
    · obtain ⟨hnot, hnot'⟩ := hnext.not_broken
      have hwhole : broken = false := Bool.eq_false_iff.mpr fun hbroken => hnot (hiff.mp hbroken)
      simp [hwell, hwhole, hnot']
    · exact iff_of_true (Or.inr hbreaks) hfails.broken.2

theorem passes_iff {s : State τ} {reads : List (Flag × Bool)} :
    s.passes reads = true ↔ ∀ read ∈ reads, s.flags read.1 = read.2 := by
  simp [State.passes]

/-- With no call in progress and no callback, no phase is in the middle of something. -/
theorem Inv.quiet {s : State τ} {ph : Phase τ} (h : Inv s ph) (hq : s.Quiet) :
    ph = .stopped ∨ ph = .running ∨ ph.Broken := by
  obtain ⟨hidle, hcallbacks, hcallback⟩ := hq
  have howner : ∀ i, ph.owner ≠ some i := by
    intro i howner
    have hclaim := h.owner i howner
    rw [hidle i] at hclaim
    cases hclaim
  rw [h.callbacks] at hcallbacks
  rw [h.callback] at hcallback
  cases ph with
  | stopped => exact Or.inl rfl
  | running => exact Or.inr (Or.inl rfl)
  | stuck => exact Or.inr (Or.inr (Or.inl rfl))
  | jammed => exact Or.inr (Or.inr (Or.inr rfl))
  | starting i | opening i | closing i | leaving i => exact absurd rfl (howner i)
  | queued => cases hcallbacks
  | changing | halfway => cases hcallback

/-- A server that is broken can neither be started nor closed. -/
theorem Inv.not_passes {s : State τ} {ph : Phase τ} (h : Inv s ph) (hbroken : ph.Broken) :
    ¬ s.passes canStart = true ∧ ¬ s.passes canClose = true := by
  rw [passes_iff, passes_iff]
  rcases hbroken with rfl | rfl
  · have hstarting : s.flags .starting = true := h.flags .starting true rfl
    constructor
    · intro hreads
      exact absurd ((hreads (.starting, false) (by decide)).symm.trans hstarting) (by decide)
    · intro hreads
      exact absurd ((hreads (.starting, false) (by decide)).symm.trans hstarting) (by decide)
  · have hclosing : s.flags .closing = true := h.flags .closing true rfl
    constructor
    · intro hreads
      exact absurd ((hreads (.closing, false) (by decide)).symm.trans hclosing) (by decide)
    · intro hreads
      exact absurd ((hreads (.closing, false) (by decide)).symm.trans hclosing) (by decide)

theorem Inv.passes_of_quiet {s : State τ} {ph : Phase τ} (h : Inv s ph) (hq : s.Quiet) :
    s.passes canStart = true ∨ s.passes canClose = true ↔ ¬ ph.Broken := by
  constructor
  · intro hpasses hbroken
    obtain ⟨hstart, hclose⟩ := h.not_passes hbroken
    exact hpasses.elim hstart hclose
  · intro hwell
    rw [passes_iff, passes_iff]
    rcases h.quiet hq with rfl | rfl | hbroken
    · have hreads : ∀ read ∈ canStart, (Phase.stopped : Phase τ).flag read.1 = some read.2 := by
        simp [canStart, Phase.flag]
      exact Or.inl fun read hread => h.flags read.1 read.2 (hreads read hread)
    · have hreads : ∀ read ∈ canClose, (Phase.running : Phase τ).flag read.1 = some read.2 := by
        simp [canClose, Phase.flag]
      exact Or.inr fun read hread => h.flags read.1 read.2 (hreads read hread)
    · exact absurd hbroken hwell

/-- With no call in progress and no callback to be run, a server can be started or closed if and
only if nothing has gone wrong so far: no step of `start` has raised before `ioloop.start()`, nor
any step of a close, and the loop has not been closed on the callback. -/
theorem never_stuck_iff [DecidableEq τ] (cfg : Config) (p : State τ × Bool)
    (hr : (recorded τ cfg).Reachable p) (hq : p.1.Quiet) :
    p.1.passes canStart = true ∨ p.1.passes canClose = true ↔ p.2 = false := by
  obtain ⟨ph, h, hbroken⟩ := phase_of_reachable hr
  rw [h.passes_of_quiet hq, ← hbroken, Bool.not_eq_true]

/-! ## Two runs -/

/-- A server with a thread pool of five threads. -/
def fiveThreads : Config where
  threadPoolSize := some 5
  processPoolSize := none

def newServer (τ : Type) : State τ := { registry := true }

/-- `start` on one thread, up to `ioloop.start()`; the callback; `close` on another thread; and
the end of `start`. -/
def startAndClose : List (Action Bool) :=
  .start false :: List.replicate 20 (.step false) ++ List.replicate 3 .changeStatus ++
    .close true :: List.replicate 24 (.step true) ++ List.replicate 3 (.step false)

/-- Then the server can be started or closed. -/
theorem never_stuck_iff_startAndClose :
    ((recorded Bool fiveThreads).run startAndClose (newServer Bool, false)).1.passes canStart =
        true ∨
      ((recorded Bool fiveThreads).run startAndClose (newServer Bool, false)).1.passes canClose =
        true := by
  have hinit : (recorded Bool fiveThreads).Reachable (newServer Bool, false) :=
    Lts.Spec.Reachable.init ⟨⟨true, rfl⟩, rfl⟩
  refine (never_stuck_iff fiveThreads _ (hinit.run startAndClose) ⟨?_, ?_, ?_⟩).mpr ?_
  · decide +kernel
  · decide +kernel
  · decide +kernel
  · decide +kernel

/-- `start`, up to the thread pool, which cannot be created. -/
def startAndFail : List (Action Unit) :=
  .start () :: List.replicate 13 (.step ()) ++ [.fail ()]

/-- The server is stuck then. -/
theorem stuck_without_pool :
    ¬ ∀ (cfg : Config) (s : State Unit), (system Unit cfg).Reachable s → s.Quiet →
      s.passes canStart = true ∨ s.passes canClose = true := by
  intro h
  have hinit : (system Unit fiveThreads).Reachable (newServer Unit) :=
    Lts.Spec.Reachable.init ⟨true, rfl⟩
  have hpasses := h fiveThreads _ (hinit.run startAndFail)
    ⟨fun () => by decide +kernel, by decide +kernel, by decide +kernel⟩
  revert hpasses
  decide +kernel

end Lifecycle

end SummerRpc
