import Mathlib.Logic.Basic
import Mathlib.Data.Nat.Notation

/-! # Guarded transition systems

A system is an initial-state predicate together with labelled steps, each split
into a *guard* (when the step may fire) and an *update* (the state it leads to).
The split keeps every step executable and gives one inversion principle for all
systems: a step with label `l` is its guard plus the equation `s' = update l s`.

* `invariant` / `invariant_with`: inductive invariants over all reachable states;
* `restrict`: the runs whose steps all meet a side condition;
* `exec`: finite label sequences as executable runs; `play` runs them with a test in
  place of the guards, and `drive` under a deterministic scheduler;
* `startingAt`: the runs from a given state;
* `withHistory`: the same runs, with a record of them kept beside the state;
* `Projection`: a component of a composed system behaves like a system of its own;
* `Simulation`: a step of one system is finitely many steps of another one.
-/

namespace Lts

universe u v u' v'

/-- A guarded system with states `σ` and step labels `ℓ`. -/
structure Spec (σ : Type u) (ℓ : Type v) where
  init : σ → Prop
  guard : ℓ → σ → Prop
  update : ℓ → σ → σ

namespace Spec

variable {σ : Type u} {ℓ : Type v}

/-- The states of the runs of `S`, taken over every interleaving of its steps. -/
inductive Reachable (S : Spec σ ℓ) : σ → Prop where
  | init {s : σ} : S.init s → Reachable S s
  | step {s : σ} (l : ℓ) : Reachable S s → S.guard l s → Reachable S (S.update l s)

/-! ## Invariants -/

/-- Inductive invariance: what holds initially and is preserved by every step
holds in every reachable state. -/
theorem invariant (S : Spec σ ℓ) (inv : σ → Prop)
    (hinit : ∀ s, S.init s → inv s)
    (hstep : ∀ l s, S.guard l s → inv s → inv (S.update l s)) :
    ∀ s, S.Reachable s → inv s := by
  intro s hr
  induction hr with
  | init h => exact hinit _ h
  | step l _ hg ih => exact hstep l _ hg ih

/-- Inductive invariance relative to a fact already known of reachable states.
The step case may use it on both sides of the step. -/
theorem invariant_with (S : Spec σ ℓ) (known inv : σ → Prop)
    (hknown : ∀ s, S.Reachable s → known s)
    (hinit : ∀ s, S.init s → inv s)
    (hstep : ∀ l s, S.guard l s → known s → known (S.update l s) → inv s →
      inv (S.update l s)) :
    ∀ s, S.Reachable s → inv s := by
  intro s hr
  induction hr with
  | init h => exact hinit _ h
  | step l hs hg ih =>
      exact hstep l _ hg (hknown _ hs) (hknown _ (Reachable.step l hs hg)) ih

/-! ## Restricted runs -/

/-- The runs of `S` whose steps all meet the side condition `C`, a condition on
the label and on the state before the step. -/
def restrict (S : Spec σ ℓ) (C : ℓ → σ → Prop) : Spec σ ℓ where
  init := S.init
  guard := fun l s => S.guard l s ∧ C l s
  update := S.update

@[simp] theorem restrict_init (S : Spec σ ℓ) (C : ℓ → σ → Prop) :
    (S.restrict C).init = S.init := rfl

@[simp] theorem restrict_update (S : Spec σ ℓ) (C : ℓ → σ → Prop) :
    (S.restrict C).update = S.update := rfl

@[simp] theorem restrict_guard (S : Spec σ ℓ) (C : ℓ → σ → Prop) (l : ℓ) (s : σ) :
    (S.restrict C).guard l s ↔ S.guard l s ∧ C l s := Iff.rfl

/-- A restricted run is a run. -/
theorem Reachable.of_restrict {S : Spec σ ℓ} {C : ℓ → σ → Prop} {s : σ}
    (h : (S.restrict C).Reachable s) : S.Reachable s := by
  induction h with
  | init h => exact Reachable.init h
  | step l _ hg ih => exact Reachable.step l ih hg.1

instance (S : Spec σ ℓ) (C : ℓ → σ → Prop) [∀ l s, Decidable (S.guard l s)]
    [∀ l s, Decidable (C l s)] (l : ℓ) (s : σ) : Decidable ((S.restrict C).guard l s) :=
  inferInstanceAs (Decidable (_ ∧ _))

/-! ## Executable runs -/

section Exec

variable (S : Spec σ ℓ) [∀ l s, Decidable (S.guard l s)]

/-- Fire the labels in order; `none` as soon as one of them is not enabled. -/
def exec : List ℓ → σ → Option σ
  | [], s => some s
  | l :: ls, s => if S.guard l s then exec ls (S.update l s) else none

@[simp] theorem exec_nil (s : σ) : S.exec [] s = some s := rfl

theorem exec_cons (l : ℓ) (ls : List ℓ) (s : σ) :
    S.exec (l :: ls) s = if S.guard l s then S.exec ls (S.update l s) else none := rfl

variable {S}

/-- An executable run from a reachable state ends in a reachable state. -/
theorem Reachable.exec {s s' : σ} {ls : List ℓ} (hr : S.Reachable s)
    (h : S.exec ls s = some s') : S.Reachable s' := by
  induction ls generalizing s with
  | nil =>
      rw [exec_nil] at h
      cases h
      exact hr
  | cons l ls ih =>
      rw [exec_cons] at h
      split at h
      · rename_i hg
        exact ih (Reachable.step l hr hg) h
      · cases h

/-- Where a list of labels leads: the end of the run, or its start if some label
is not enabled. -/
def run (S : Spec σ ℓ) [∀ l s, Decidable (S.guard l s)] (ls : List ℓ) (s : σ) : σ :=
  (S.exec ls s).getD s

theorem Reachable.run {s : σ} (hr : S.Reachable s) (ls : List ℓ) : S.Reachable (S.run ls s) := by
  unfold Spec.run
  cases h : S.exec ls s with
  | none => exact hr
  | some s' => exact hr.exec h

/-- Fire the labels a scheduler names, until it names none; `none` when it names one
that is not enabled, or when the rounds are used up. -/
def drive (S : Spec σ ℓ) [∀ l s, Decidable (S.guard l s)] (next : ℕ → σ → Option ℓ) :
    ℕ → σ → Option σ
  | 0, _ => none
  | rounds + 1, s =>
    match next rounds s with
    | none => some s
    | some l => if S.guard l s then drive S next rounds (S.update l s) else none

theorem drive_stop {next : ℕ → σ → Option ℓ} {rounds : ℕ} {s : σ}
    (h : next rounds s = none) : S.drive next (rounds + 1) s = some s := by
  rw [drive, h]

theorem drive_step {next : ℕ → σ → Option ℓ} {rounds : ℕ} {s : σ} {l : ℓ}
    (h : next rounds s = some l) (hg : S.guard l s) :
    S.drive next (rounds + 1) s = S.drive next rounds (S.update l s) := by
  rw [drive, h]
  exact if_pos hg

end Exec

/-- Fire the labels in order, as long as a test lets them. A test that is enough for
the guards stands in for deciding them. -/
def play (S : Spec σ ℓ) (fires : ℓ → σ → Bool) : List ℓ → σ → σ
  | [], s => s
  | l :: ls, s => if fires l s then play S fires ls (S.update l s) else s

theorem Reachable.play {S : Spec σ ℓ} {fires : ℓ → σ → Bool}
    (hfires : ∀ l s, fires l s = true → S.guard l s) {s : σ} (hr : S.Reachable s) (ls : List ℓ) :
    S.Reachable (S.play fires ls s) := by
  induction ls generalizing s with
  | nil => exact hr
  | cons l ls ih =>
      unfold Spec.play
      split
      · rename_i h
        exact ih (Reachable.step l hr (hfires l s h))
      · exact hr

/-! ## Runs from a given state -/

/-- The runs of `S` that start in `s`. -/
def startingAt (S : Spec σ ℓ) (s : σ) : Spec σ ℓ where
  init := fun t => t = s
  guard := S.guard
  update := S.update

theorem reachable_self (S : Spec σ ℓ) (s : σ) : (S.startingAt s).Reachable s :=
  Reachable.init rfl

/-- One step from `s`. -/
theorem reachable_update {S : Spec σ ℓ} {l : ℓ} {s : σ} (hg : S.guard l s) :
    (S.startingAt s).Reachable (S.update l s) :=
  Reachable.step (S := S.startingAt s) l (S.reachable_self s) hg

/-- A run goes on where another one has ended. -/
theorem Reachable.trans {S : Spec σ ℓ} {s t u : σ} (hst : (S.startingAt s).Reachable t)
    (htu : (S.startingAt t).Reachable u) : (S.startingAt s).Reachable u := by
  induction htu with
  | init h =>
      rw [show _ = t from h]
      exact hst
  | step l _ hg ih => exact Reachable.step (S := S.startingAt s) l ih hg

theorem Reachable.continue {S : Spec σ ℓ} {s t : σ} (hs : S.Reachable s)
    (hst : (S.startingAt s).Reachable t) : S.Reachable t := by
  induction hst with
  | init h =>
      rw [show _ = s from h]
      exact hs
  | step l _ hg ih => exact Reachable.step l ih hg

/-! ## History variables -/

/-- The runs of `S`, with a record kept beside the state that no step reads. -/
def withHistory {η : Type u'} (S : Spec σ ℓ) (record : ℓ → σ → η → η) (start : η) :
    Spec (σ × η) ℓ where
  init := fun p => S.init p.1 ∧ p.2 = start
  guard := fun l p => S.guard l p.1
  update := fun l p => (S.update l p.1, record l p.1 p.2)

section History

variable {η : Type u'} {S : Spec σ ℓ} {record : ℓ → σ → η → η} {start : η}

instance [∀ l s, Decidable (S.guard l s)] (l : ℓ) (p : σ × η) :
    Decidable ((S.withHistory record start).guard l p) :=
  inferInstanceAs (Decidable (S.guard l p.1))

/-- Every run has its record. -/
theorem Reachable.withHistory (record : ℓ → σ → η → η) (start : η) {s : σ} (hr : S.Reachable s) :
    ∃ h, (S.withHistory record start).Reachable (s, h) := by
  induction hr with
  | init hi => exact ⟨start, Reachable.init ⟨hi, rfl⟩⟩
  | step l _ hg ih =>
      obtain ⟨h, ih⟩ := ih
      exact ⟨_, Reachable.step (S := S.withHistory record start) l ih hg⟩

/-- The record does not change what can be reached. -/
theorem Reachable.of_history {p : σ × η} (hr : (S.withHistory record start).Reachable p) :
    S.Reachable p.1 := by
  induction hr with
  | init hi => exact Reachable.init hi.1
  | step l _ hg ih => exact Reachable.step l ih hg

end History

/-! ## Components of a composed system -/

/-- `f` projects the system `S` onto its component system `T`: every reachable
step of `S` either leaves the component alone or is a step of `T`. -/
structure Projection {τ : Type u'} {κ : Type v'} (S : Spec σ ℓ) (T : Spec τ κ)
    (f : σ → τ) : Prop where
  init : ∀ s, S.init s → T.init (f s)
  step : ∀ l s, S.Reachable s → S.guard l s →
    f (S.update l s) = f s ∨ ∃ m, T.guard m (f s) ∧ f (S.update l s) = T.update m (f s)

/-- The component of a reachable state is reachable in the component system, so
every invariant of the component transfers to the composition. -/
theorem Projection.reachable {τ : Type u'} {κ : Type v'} {S : Spec σ ℓ} {T : Spec τ κ}
    {f : σ → τ} (P : Projection S T f) {s : σ} (hr : S.Reachable s) :
    T.Reachable (f s) := by
  induction hr with
  | init h => exact Reachable.init (P.init _ h)
  | step l hs hg ih =>
      rcases P.step l _ hs hg with hstay | ⟨m, hm, heq⟩
      · rw [hstay]
        exact ih
      · rw [heq]
        exact Reachable.step m ih hm

/-- `f` maps the runs of `S` to runs of `T`: a step of `S` becomes finitely many steps
of `T`. -/
structure Simulation {τ : Type u'} {κ : Type v'} (S : Spec σ ℓ) (T : Spec τ κ)
    (f : σ → τ) : Prop where
  init : ∀ s, S.init s → T.init (f s)
  step : ∀ l s, S.Reachable s → S.guard l s → (T.startingAt (f s)).Reachable (f (S.update l s))

namespace Simulation

variable {τ : Type u'} {κ : Type v'} {S : Spec σ ℓ} {T : Spec τ κ} {f : σ → τ}

theorem of_projection (P : Projection S T f) : Simulation S T f where
  init := P.init
  step := by
    intro l s hr hg
    rcases P.step l s hr hg with hstay | ⟨m, hm, heq⟩
    · rw [hstay]
      exact T.reachable_self (f s)
    · rw [heq]
      exact reachable_update hm

/-- What `S` does from a reachable state, `T` does from its image. -/
theorem from_state (h : Simulation S T f) {s t : σ} (hs : S.Reachable s)
    (ht : (S.startingAt s).Reachable t) : (T.startingAt (f s)).Reachable (f t) := by
  induction ht with
  | init heq =>
      rw [show _ = s from heq]
      exact T.reachable_self (f s)
  | step l ht hg ih => exact ih.trans (h.step l _ (hs.continue ht) hg)

theorem reachable (h : Simulation S T f) {s : σ} (hr : S.Reachable s) : T.Reachable (f s) := by
  induction hr with
  | init hi => exact Reachable.init (h.init _ hi)
  | step l hs hg ih => exact ih.continue (h.step l _ hs hg)

end Simulation

end Spec

end Lts
