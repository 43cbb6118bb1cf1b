import Mathlib.Tactic.SplitIfs
import SummerRpc.Lib.Mutex
import SummerRpc.Server.Lifecycle

/-! # The phases of a server

Where a server is in its life, whatever its calls are at.

* `Phase`, `Phase.Next`, `Phase.Fails`: the phases, and what follows on each of them;
* `Pc.claim`: the phase a call knows at a point of its program;
* `Inv`: the server is in the phase, and the calls know nothing else;
* `Inv.stay`, `Inv.advance`: what a step keeps that leaves the phase, and one that does not;
* `Inv.changeStatus`: the callback makes the server run.
-/

namespace SummerRpc

namespace Lifecycle

variable {τ : Type}

/-! ## Phases -/

/-- Where a server is in its life, with the call that takes it on. -/
inductive Phase (τ : Type) where
  | stopped
  | starting (i : τ)
  /-- the flags of `start` are written -/
  | opening (i : τ)
  /-- the callback has been handed over -/
  | queued
  /-- it has begun -/
  | changing
  /-- the server counts as started, and as starting -/
  | halfway
  | running
  | closing (i : τ)
  /-- it does not count as closing any more -/
  | leaving (i : τ)
  /-- `start` has raised, or the callback is lost -/
  | stuck
  /-- `_close_if_necessary` has raised -/
  | jammed
deriving DecidableEq

namespace Phase

/-- The value of a flag, where it is known. -/
def flag (ph : Phase τ) : Flag → Option Bool
  | .starting => some <|
    match ph with
    | starting _ | opening _ | queued | changing | halfway | stuck => true
    | _ => false
  | .started => some <|
    match ph with
    | halfway | running | closing _ | leaving _ | jammed => true
    | _ => false
  | .closing => some <|
    match ph with
    | closing _ | jammed => true
    | _ => false
  | .closed =>
    match ph with
    | opening _ | queued | changing | halfway | running => some false
    | _ => none

def owner : Phase τ → Option τ
  | starting i | opening i | closing i | leaving i => some i
  | _ => none

def callbacks : Phase τ → ℕ
  | queued => 1
  | _ => 0

def callback : Phase τ → List (Flag × Bool)
  | changing => changeStatus
  | halfway => [(.starting, false)]
  | _ => []

def Broken (ph : Phase τ) : Prop := ph = stuck ∨ ph = jammed

/-- One phase after the other. -/
inductive Next : Phase τ → Phase τ → Prop where
  | start (i : τ) : Next stopped (starting i)
  | open (i : τ) : Next (starting i) (opening i)
  | handOver (i : τ) : Next (opening i) queued
  | begin : Next queued changing
  | started : Next changing halfway
  | run : Next halfway running
  | close (i : τ) : Next running (closing i)
  | leave (i : τ) : Next (closing i) (leaving i)
  | stop (i : τ) : Next (leaving i) stopped

/-- There is no way on. -/
inductive Fails : Phase τ → Phase τ → Prop where
  | start (i : τ) : Fails (opening i) stuck
  | callback : Fails queued stuck
  | close (i : τ) : Fails (closing i) jammed

theorem Next.not_broken {ph ph' : Phase τ} (h : Next ph ph') : ¬ ph.Broken ∧ ¬ ph'.Broken := by
  cases h <;> simp [Broken]

theorem Fails.broken {ph ph' : Phase τ} (h : Fails ph ph') : ¬ ph.Broken ∧ ph'.Broken := by
  cases h <;> simp [Broken]

/-- No flag is written then. -/
theorem Fails.flag {ph ph' : Phase τ} (h : Fails ph ph') {f : Flag} {v : Bool}
    (hv : ph'.flag f = some v) : ph.flag f = some v := by
  cases f with
  | closed => cases h <;> cases hv
  | starting | started | closing => cases h <;> exact hv

end Phase

namespace Pc

/-- The call holds the lock. -/
def Locked : Pc → Prop
  | recheck _ _ | write _ _ | release _ _ | finish _ _ => True
  | _ => False

/-- The phase in which a call at this point finds the server. -/
def claim (i : τ) : Pc → Option (Phase τ)
  | write .start writes => some <|
    if (.starting, true) ∈ writes then .stopped
    else if (.closed, false) ∈ writes then .starting i
    else .opening i
  | write _ writes => some (if (.closing, true) ∈ writes then .running else .closing i)
  | setup steps => if .addCallback ∈ steps then some (.opening i) else none
  | release _ _ => some (.closing i)
  | finish _ writes => some <|
    if (.closing, false) ∈ writes then .closing i
    else if (.started, false) ∈ writes then .leaving i
    else .stopped
  | _ => none

/-- What is left is the end of the list; what a check under the lock has read is still so. -/
def Ok (flags : Flag → Bool) : Pc → Prop
  | recheck op reads => reads <:+ op.check ∧
      ∀ read ∈ op.check, read ∉ reads → flags read.1 = read.2
  | write op writes => writes <:+ op.writes
  | setup steps => steps <:+ Lifecycle.setup
  | finish _ writes => writes <:+ lastWrites
  | _ => True

/-- What a call knows is about itself, or that nobody is at work while it holds the lock. -/
theorem claim_cases {i : τ} {p : Pc} {ph : Phase τ} (h : p.claim i = some ph) :
    ph = .opening i ∨
      p.Locked ∧ (ph = .stopped ∨ ph = .starting i ∨ ph = .running ∨ ph = .closing i ∨
        ph = .leaving i) := by
  cases p with
  | write op writes =>
      cases op with
      | start =>
          simp only [claim, Option.some.injEq] at h
          subst h
          split_ifs <;> simp [Locked]
      | close | cleanup =>
          simp only [claim, Option.some.injEq] at h
          subst h
          split_ifs <;> simp [Locked]
  | setup steps =>
      simp only [claim, Option.ite_none_right_eq_some, Option.some.injEq] at h
      exact Or.inl h.2.symm
  | release op steps =>
      cases h
      simp [Locked]
  | finish op writes =>
      simp only [claim, Option.some.injEq] at h
      subst h
      split_ifs <;> simp [Locked]
  | _ => cases h

theorem claim_owner {i : τ} {p : Pc} {ph : Phase τ} (h : p.claim i = some ph) :
    ph.owner = some i ∨ ph.owner = none ∧ p.Locked := by
  rcases claim_cases h with rfl | ⟨hlocked, rfl | rfl | rfl | rfl | rfl⟩
  · exact Or.inl rfl
  · exact Or.inr ⟨rfl, hlocked⟩
  · exact Or.inl rfl
  · exact Or.inr ⟨rfl, hlocked⟩
  · exact Or.inl rfl
  · exact Or.inl rfl

/-- No call knows that there is a callback. -/
theorem claim_callback {i : τ} {p : Pc} {ph : Phase τ} (h : p.claim i = some ph) :
    ph.callbacks = 0 ∧ ph.callback = [] := by
  rcases claim_cases h with rfl | ⟨_, rfl | rfl | rfl | rfl | rfl⟩
  all_goals exact ⟨rfl, rfl⟩

theorem locked_of_leaving {i j : τ} {p : Pc} (h : p.claim i = some (.leaving j)) : p.Locked := by
  rcases claim_cases h with hopening | ⟨hlocked, _⟩
  · cases hopening
  · exact hlocked

/-- What a call outside the lock relies on is not in the flags. -/
theorem Ok.of_not_locked {p : Pc} {flags flags' : Flag → Bool} (h : p.Ok flags)
    (hp : ¬ p.Locked) : p.Ok flags' := by
  cases p with
  | recheck op reads => exact absurd trivial hp
  | write op writes => exact h
  | setup steps => exact h
  | finish op writes => exact h
  | _ => trivial

theorem after_out (op : Op) : ¬ op.after.Locked := by
  cases op <;> exact id

theorem after_claim (op : Op) (i : τ) : op.after.claim i = none := by
  cases op <;> rfl

theorem after_ok (op : Op) (flags : Flag → Bool) : op.after.Ok flags := by
  cases op <;> trivial

/-- A write elsewhere keeps what a check under the lock has read, if it writes the same. -/
theorem Ok.write {i : τ} {p : Pc} {flags : Flag → Bool} {w : Flag × Bool} (h : p.Ok flags)
    (hclaim : p.claim i = none)
    (hread : ∀ (op : Op) (reads : List (Flag × Bool)), reads <:+ op.check →
      (∀ read ∈ op.check, read ∉ reads → flags read.1 = read.2) →
      ∀ read ∈ op.check, read ∉ reads → read.1 = w.1 → read.2 = w.2) :
    p.Ok (Function.update flags w.1 w.2) := by
  cases p with
  | recheck op reads =>
      refine ⟨h.1, ?_⟩
      intro read hmem hnot
      by_cases hsame : read.1 = w.1
      · rw [hsame, Function.update_self]
        exact (hread op reads h.1 h.2 read hmem hnot hsame).symm
      · rw [Function.update_of_ne hsame]
        exact h.2 read hmem hnot
  | write op writes => exact h
  | setup steps => exact h
  | finish op writes => exact h
  | _ => trivial

/-- A check for `start` reads `_starting` before `_started`. -/
theorem read_started {flags : Flag → Bool} (hstarting : flags .starting = true) {op : Op}
    {reads : List (Flag × Bool)} (hsuffix : reads <:+ op.check)
    (hreads : ∀ read ∈ op.check, read ∉ reads → flags read.1 = read.2) :
    ∀ read ∈ op.check, read ∉ reads → read.1 = .started → read.2 = true := by
  intro read hmem hnot hflag
  cases op with
  | start =>
      exfalso
      simp only [Op.check, canStart, List.mem_cons, List.not_mem_nil, or_false] at hmem
      rcases hmem with rfl | rfl | rfl
      · cases hflag
      · have hbefore : (Flag.starting, false) ∉ reads := by
          simp only [Op.check, canStart, List.suffix_cons_iff, List.suffix_nil] at hsuffix
          rcases hsuffix with rfl | rfl | rfl | rfl
          · exact absurd (by decide) hnot
          · exact absurd (by decide) hnot
          · decide
          · decide
        have hread := hreads (.starting, false) (by decide) hbefore
        exact absurd (hread.symm.trans hstarting) (by decide)
      · cases hflag
  | close | cleanup =>
      simp only [Op.check, canClose, List.mem_cons, List.not_mem_nil, or_false] at hmem
      rcases hmem with rfl | rfl | rfl | rfl
      · rfl
      · cases hflag
      · cases hflag
      · cases hflag

theorem read_starting {op : Op} : ∀ read ∈ op.check, read.1 = .starting → read.2 = false := by
  cases op <;> decide

end Pc

/-- The server is in the phase. -/
structure Inv (s : State τ) (ph : Phase τ) : Prop where
  flags : ∀ f v, ph.flag f = some v → s.flags f = v
  callbacks : s.callbacks = ph.callbacks
  callback : s.callback = ph.callback
  mutex : Mutex Pc.Locked s.lock s.pc
  claims : ∀ i ph', (s.pc i).claim i = some ph' → ph' = ph
  owner : ∀ i, ph.owner = some i → (s.pc i).claim i = some ph
  ok : ∀ i, (s.pc i).Ok s.flags

/-- The states differ in the pools, the registry or the loop only. -/
structure Same (s t : State τ) : Prop where
  flags : t.flags = s.flags
  callbacks : t.callbacks = s.callbacks
  callback : t.callback = s.callback
  lock : t.lock = s.lock
  pc : t.pc = s.pc

theorem same_release (s : State τ) (step : Release) : Same s (s.release step) := by
  cases step <;> exact ⟨rfl, rfl, rfl, rfl, rfl⟩

theorem same_setUp (cfg : Config) (s : State τ) {step : Setup} (h : step ≠ .addCallback) :
    Same s (s.setUp cfg step) := by
  cases step with
  | threadPool =>
      unfold State.setUp
      split_ifs <;> exact ⟨rfl, rfl, rfl, rfl, rfl⟩
  | processPool =>
      unfold State.setUp
      split_ifs <;> exact ⟨rfl, rfl, rfl, rfl, rfl⟩
  | addHandler | callLater | register => exact ⟨rfl, rfl, rfl, rfl, rfl⟩
  | addCallback => exact absurd rfl h

namespace Inv

variable {s t : State τ} {ph ph' : Phase τ} {i : τ} {p : Pc}

theorem same (h : Inv s ph) (hst : Same s t) : Inv t ph where
  flags := by
    rw [hst.flags]
    exact h.flags
  callbacks := hst.callbacks.trans h.callbacks
  callback := hst.callback.trans h.callback
  mutex := by
    rw [hst.lock, hst.pc]
    exact h.mutex
  claims := by
    rw [hst.pc]
    exact h.claims
  owner := by
    rw [hst.pc]
    exact h.owner
  ok := by
    rw [hst.pc, hst.flags]
    exact h.ok

theorem known (h : Inv s ph) (hpc : s.pc i = p) (hclaim : p.claim i = some ph') : ph' = ph := by
  rw [← hpc] at hclaim
  exact h.claims i ph' hclaim

/-- While one call knows the phase, no other one does. -/
theorem others (h : Inv s ph) (hi : (s.pc i).claim i = some ph) {j : τ} (hj : j ≠ i) :
    (s.pc j).claim j = none := by
  rw [Option.eq_none_iff_forall_ne_some]
  intro ph' hclaim
  have hsame := h.claims j ph' hclaim
  subst hsame
  rcases Pc.claim_owner hi with howner | ⟨hnone, hlocked⟩
  · rcases Pc.claim_owner hclaim with howner' | ⟨hnone', _⟩
    · rw [howner] at howner'
      exact hj (Option.some.inj howner').symm
    · rw [howner] at hnone'
      cases hnone'
  · rcases Pc.claim_owner hclaim with howner' | ⟨_, hlocked'⟩
    · rw [hnone] at howner'
      cases howner'
    · exact hj (h.mutex.unique hlocked' hlocked)

/-- While there is a callback, no call knows the phase. -/
theorem free (h : Inv s ph) (hcallback : ph.callbacks ≠ 0 ∨ ph.callback ≠ []) (i : τ) :
    (s.pc i).claim i = none := by
  rw [Option.eq_none_iff_forall_ne_some]
  intro ph' hclaim
  obtain rfl := h.claims i ph' hclaim
  obtain ⟨hzero, hnil⟩ := Pc.claim_callback hclaim
  exact hcallback.elim (fun hne => hne hzero) (fun hne => hne hnil)

theorem queued_of_callbacks (h : Inv s ph) (hne : s.callbacks ≠ 0) : ph = .queued := by
  rw [h.callbacks] at hne
  cases ph with
  | queued => rfl
  | _ => exact absurd rfl hne

/-- The server goes on, while no call knows the phase. -/
theorem proceed (h : Inv s ph) (hfree : ∀ i, (s.pc i).claim i = none) (hnone : ph'.owner = none)
    (hpc : t.pc = s.pc) (hlock : t.lock = s.lock)
    (hflags : ∀ f v, ph'.flag f = some v → t.flags f = v) (hcallbacks : t.callbacks = ph'.callbacks)
    (hcallback : t.callback = ph'.callback) (hok : ∀ i, (s.pc i).Ok t.flags) : Inv t ph' where
  flags := hflags
  callbacks := hcallbacks
  callback := hcallback
  mutex := by
    rw [hpc, hlock]
    exact h.mutex
  claims := by
    intro i ph'' hi
    rw [hpc, hfree i] at hi
    cases hi
  owner := by
    intro i hi
    rw [hnone] at hi
    cases hi
  ok := by
    rw [hpc]
    exact hok

theorem flags_of_fails (h : Inv s ph) (hfails : ph.Fails ph') (f : Flag) (v : Bool)
    (hv : ph'.flag f = some v) : s.flags f = v := h.flags f v (hfails.flag hv)

theorem flag_update {flags : Flag → Bool} {w : Flag × Bool}
    (h : ∀ f v, ph.flag f = some v → flags f = v) (hw : ∀ v, ph'.flag w.1 = some v → v = w.2)
    (hrest : ∀ f ≠ w.1, ∀ v, ph'.flag f = some v → ph.flag f = some v) :
    ∀ f v, ph'.flag f = some v → Function.update flags w.1 w.2 f = v := by
  intro f v hv
  by_cases hf : f = w.1
  · subst hf
    rw [Function.update_self]
    exact (hw v hv).symm
  · rw [Function.update_of_ne hf]
    exact h f v (hrest f hf v hv)

/-- A check for `start` that is passed under the lock finds the server stopped. -/
theorem stopped_of_check (h : Inv s ph) (hreads : ∀ read ∈ canStart, s.flags read.1 = read.2) :
    ph = .stopped := by
  have hstarting := hreads (.starting, false) (by decide)
  have hstarted := hreads (.started, false) (by decide)
  cases ph with
  | stopped => rfl
  | starting _ | opening _ | queued | changing | halfway | stuck =>
      exact absurd ((h.flags .starting true rfl).symm.trans hstarting) (by decide)
  | running | closing _ | leaving _ | jammed =>
      exact absurd ((h.flags .started true rfl).symm.trans hstarted) (by decide)

/-- One for closing finds it running. -/
theorem running_of_check (h : Inv s ph) (hin : (s.pc i).Locked) (hclaim : (s.pc i).claim i = none)
    (hreads : ∀ read ∈ canClose, s.flags read.1 = read.2) : ph = .running := by
  have hstarted := hreads (.started, true) (by decide)
  have hstarting := hreads (.starting, false) (by decide)
  have hclosing := hreads (.closing, false) (by decide)
  cases hph : ph with
  | running => rfl
  | leaving j =>
      -- the call that is leaving holds the lock, and knows more
      subst hph
      have hj := h.owner j rfl
      have hji : j = i := h.mutex.unique (Pc.locked_of_leaving hj) hin
      subst hji
      rw [hclaim] at hj
      cases hj
  | starting _ | opening _ | queued | changing | halfway | stuck =>
      subst hph
      exact absurd ((h.flags .starting true rfl).symm.trans hstarting) (by decide)
  | stopped =>
      subst hph
      exact absurd ((h.flags .started false rfl).symm.trans hstarted) (by decide)
  | closing _ | jammed =>
      subst hph
      exact absurd ((h.flags .closing true rfl).symm.trans hclosing) (by decide)

/-- The callback makes the server run. -/
theorem changeStatus (h : Inv s ph) (hne : s.callbacks ≠ 0 ∨ s.callback ≠ []) :
    ∃ ph', Inv s.changeStatus ph' ∧ ph.Next ph' := by
  have hfree := h.free (by rwa [← h.callbacks, ← h.callback])
  have hcallback := h.callback
  cases ph with
  | queued =>
      refine ⟨.changing, ?_, .begin⟩
      simp only [State.changeStatus, show s.callback = [] from hcallback]
      refine h.proceed hfree rfl rfl rfl ?_ ?_ rfl h.ok
      · intro f v hv
        refine h.flags f v ?_
        cases f <;> simp_all [Phase.flag]
      · exact congrArg Nat.pred h.callbacks
  | changing =>
      refine ⟨.halfway, ?_, .started⟩
      have hlist : s.callback = [(.started, true), (.starting, false)] := hcallback
      simp only [State.changeStatus, hlist]
      refine h.proceed hfree rfl rfl rfl ?_ h.callbacks rfl ?_
      · refine flag_update h.flags ?_ ?_
        · exact fun v hv => (Option.some.inj hv).symm
        · intro f hf v hv
          cases f <;> simp_all [Phase.flag]
      · exact fun i => (h.ok i).write (hfree i) fun op reads hsuffix hreads =>
          Pc.read_started (h.flags .starting true rfl) hsuffix hreads
  | halfway =>
      refine ⟨.running, ?_, .run⟩
      have hlist : s.callback = [(.starting, false)] := hcallback
      simp only [State.changeStatus, hlist]
      refine h.proceed hfree rfl rfl rfl ?_ h.callbacks rfl ?_
      · refine flag_update h.flags ?_ ?_
        · exact fun v hv => (Option.some.inj hv).symm
        · intro f hf v hv
          cases f <;> simp_all [Phase.flag]
      · exact fun i => (h.ok i).write (hfree i) fun op reads _ _ read hmem _ hflag =>
          Pc.read_starting read hmem hflag
  | _ => exact absurd hne (by simp [h.callbacks, hcallback, Phase.callbacks, Phase.callback])

theorem mayRaise_cases {cfg : Config} (h : s.mayRaise cfg i = true) :
    (∃ step steps, s.pc i = .setup (step :: steps)) ∨
      (∃ op step steps, s.pc i = .release op (step :: steps)) ∨ s.pc i = .closeLoop := by
  unfold State.mayRaise at h
  split at h
  · rename_i hpc
    exact Or.inl ⟨_, _, hpc⟩
  · rename_i hpc
    exact Or.inl ⟨_, _, hpc⟩
  · rename_i hpc
    exact Or.inl ⟨_, _, hpc⟩
  · rename_i hpc
    exact Or.inl ⟨_, _, hpc⟩
  · rename_i hpc
    exact Or.inr (Or.inl ⟨_, _, _, hpc⟩)
  · rename_i hpc
    exact Or.inr (Or.inl ⟨_, _, _, hpc⟩)
  · rename_i hpc
    exact Or.inr (Or.inl ⟨_, _, _, hpc⟩)
  · rename_i hpc
    exact Or.inr (Or.inl ⟨_, _, _, hpc⟩)
  · rename_i hpc
    exact Or.inr (Or.inr hpc)
  · cases h

/-! ## What a step keeps -/

variable [DecidableEq τ]

/-- A call goes on, and the server does not. -/
theorem stay (h : Inv s ph) (hpc : t.pc = Function.update s.pc i p) (hflags : t.flags = s.flags)
    (hcallbacks : t.callbacks = s.callbacks) (hcallback : t.callback = s.callback)
    (hmutex : Mutex Pc.Locked t.lock t.pc) (hclaims : ∀ ph', p.claim i = some ph' → ph' = ph)
    (howner : ph.owner = some i → p.claim i = some ph) (hok : p.Ok s.flags) : Inv t ph where
  flags := by
    rw [hflags]
    exact h.flags
  callbacks := hcallbacks.trans h.callbacks
  callback := hcallback.trans h.callback
  mutex := hmutex
  claims := by
    intro j ph' hj
    rw [hpc] at hj
    by_cases hji : j = i
    · subst hji
      rw [Function.update_self] at hj
      exact hclaims ph' hj
    · rw [Function.update_of_ne hji] at hj
      exact h.claims j ph' hj
  owner := by
    intro j hj
    rw [hpc]
    by_cases hji : j = i
    · subst hji
      rw [Function.update_self]
      exact howner hj
    · rw [Function.update_of_ne hji]
      exact h.owner j hj
  ok := by
    intro j
    rw [hpc, hflags]
    by_cases hji : j = i
    · subst hji
      rw [Function.update_self]
      exact hok
    · rw [Function.update_of_ne hji]
      exact h.ok j

/-- The call that knows the phase takes the server to another one. -/
theorem advance (h : Inv s ph) (hknows : (s.pc i).claim i = some ph)
    (hpc : t.pc = Function.update s.pc i p)
    (hflags : ∀ f v, ph'.flag f = some v → t.flags f = v) (hcallbacks : t.callbacks = ph'.callbacks)
    (hcallback : t.callback = ph'.callback) (hmutex : Mutex Pc.Locked t.lock t.pc)
    (hclaim : p.claim i = some ph' ∨ p.claim i = none ∧ ph'.owner = none) (hok : p.Ok t.flags)
    (hwrites : t.flags = s.flags ∨ (s.pc i).Locked) : Inv t ph' where
  flags := hflags
  callbacks := hcallbacks
  callback := hcallback
  mutex := hmutex
  claims := by
    intro j ph'' hj
    rw [hpc] at hj
    by_cases hji : j = i
    · subst hji
      rw [Function.update_self] at hj
      rcases hclaim with hsome | ⟨hnone, _⟩
      · exact Option.some.inj (hj.symm.trans hsome)
      · rw [hnone] at hj
        cases hj
    · rw [Function.update_of_ne hji, h.others hknows hji] at hj
      cases hj
  owner := by
    intro j hj
    rw [hpc]
    rcases hclaim with hsome | ⟨_, hnone⟩
    · rcases Pc.claim_owner hsome with howner | ⟨hnone, _⟩
      · rw [howner] at hj
        cases hj
        rw [Function.update_self]
        exact hsome
      · rw [hnone] at hj
        cases hj
    · rw [hnone] at hj
      cases hj
  ok := by
    intro j
    rw [hpc]
    by_cases hji : j = i
    · subst hji
      rw [Function.update_self]
      exact hok
    · rw [Function.update_of_ne hji]
      rcases hwrites with hsame | hlocked
      · rw [hsame]
        exact h.ok j
      · have hout : ¬ (s.pc j).Locked := fun hin => hji (h.mutex.unique hin hlocked)
        exact (h.ok j).of_not_locked hout

/-- A call goes on, with as much knowledge and on the same side of the lock. -/
theorem goto {q : Pc} (h : Inv s ph) (hpc : s.pc i = q) (hlocked : p.Locked ↔ q.Locked)
    (hclaim : p.claim i = q.claim i) (hok : p.Ok s.flags) : Inv (s.goto i p) ph := by
  rw [← hpc] at hlocked hclaim
  refine h.stay rfl rfl rfl rfl (h.mutex.move hlocked) ?_ ?_ hok
  · intro ph' hp
    rw [hclaim] at hp
    exact h.claims i ph' hp
  · intro howner
    rw [hclaim]
    exact h.owner i howner

/-- A write under the lock, by the call that knows the phase. -/
theorem write {q : Pc} {w : Flag × Bool} (h : Inv s ph) (hpc : s.pc i = q)
    (hknows : q.claim i = some ph) (hin : q.Locked) (hp : p.Locked) (hclaim : p.claim i = some ph')
    (hok : p.Ok (s.set w).flags) (hw : ∀ v, ph'.flag w.1 = some v → v = w.2)
    (hrest : ∀ f ≠ w.1, ∀ v, ph'.flag f = some v → ph.flag f = some v)
    (hcallbacks : ph'.callbacks = ph.callbacks) (hcallback : ph'.callback = ph.callback) :
    Inv ((s.set w).goto i p) ph' := by
  rw [← hpc] at hknows hin
  exact h.advance hknows rfl (flag_update h.flags hw hrest) (h.callbacks.trans hcallbacks.symm)
    (h.callback.trans hcallback.symm) (h.mutex.move (iff_of_true hp hin)) (Or.inl hclaim) hok
    (Or.inr hin)

/-- A write of what is known. -/
theorem rewrite {q : Pc} {w : Flag × Bool} (h : Inv s ph) (hpc : s.pc i = q)
    (hknows : q.claim i = some ph) (hin : q.Locked) (hp : p.Locked) (hclaim : p.claim i = some ph)
    (hok : p.Ok (s.set w).flags) (hw : ∀ v, ph.flag w.1 = some v → v = w.2) :
    Inv ((s.set w).goto i p) ph :=
  h.write hpc hknows hin hp hclaim hok hw (fun _ _ _ hv => hv) rfl rfl

end Inv

end Lifecycle

end SummerRpc
