import Mathlib.Data.List.Basic

/-! # Incremental consumers

A consumer that is fed its input piece by piece and makes steps on what it has been fed
so far, until it needs more or fails. When a step that it can make stays the same step
after more input has been fed (`step_feed`), it does not matter how the input is cut
into pieces.

* `Consumer`: the steps, how input is added, and the laws;
* `Drains`: making steps until none can be made;
* `Drains.feed`, `Drains.feed_inv`: more input before or after draining;
* `Chunked`, `Chunked.drains`: feeding pieces and draining after each is feeding all of
  them at once and draining.
-/

namespace Incremental

universe u v w

/-- A consumer of input `α` with configurations `σ`, input not yet consumed included.
A step succeeds or fails with an error; there is none when more input is needed. -/
structure Consumer (σ : Type u) (α : Type v) (ε : Type w) where
  step : σ → Option (Except ε Unit × σ)
  feed : σ → List α → σ
  feed_nil : ∀ c, feed c [] = c
  feed_append : ∀ c xs ys, feed (feed c xs) ys = feed c (xs ++ ys)
  step_feed : ∀ c r c' xs, step c = some (r, c') → step (feed c xs) = some (r, feed c' xs)

namespace Consumer

variable {σ : Type u} {α : Type v} {ε : Type w} {M : Consumer σ α ε}

/-- From `c` the consumer makes steps until there is none, or one fails, and ends in
`c'`. -/
inductive Drains (M : Consumer σ α ε) : σ → Except ε Unit → σ → Prop where
  | stop {c : σ} : M.step c = none → Drains M c (.ok ()) c
  | fail {c c' : σ} {e : ε} : M.step c = some (.error e, c') → Drains M c (.error e) c'
  | step {c c' c'' : σ} {r : Except ε Unit} :
      M.step c = some (.ok (), c') → Drains M c' r c'' → Drains M c r c''

/-- Draining has one outcome. -/
theorem Drains.unique {c c₁ c₂ : σ} {r₁ r₂ : Except ε Unit} (h₁ : M.Drains c r₁ c₁)
    (h₂ : M.Drains c r₂ c₂) : r₁ = r₂ ∧ c₁ = c₂ := by
  induction h₁ with
  | stop hstop =>
      cases h₂ with
      | stop _ => exact ⟨rfl, rfl⟩
      | fail hfail => simp [hstop] at hfail
      | step hstep _ => simp [hstop] at hstep
  | fail hfail =>
      cases h₂ with
      | stop hstop => simp [hstop] at hfail
      | fail hfail' =>
          rw [hfail] at hfail'
          cases hfail'
          exact ⟨rfl, rfl⟩
      | step hstep _ => simp [hstep] at hfail
  | step hstep _ ih =>
      cases h₂ with
      | stop hstop => simp [hstop] at hstep
      | fail hfail => simp [hfail] at hstep
      | step hstep' hrest =>
          rw [hstep] at hstep'
          cases hstep'
          exact ih hrest

/-- A drained consumer can make no step. -/
theorem Drains.drained {c c' : σ} {r : Except ε Unit} (h : M.Drains c r c') (hr : r = .ok ()) :
    M.step c' = none := by
  induction h with
  | stop hstop => exact hstop
  | fail _ => cases hr
  | step _ _ ih => exact ih hr

/-- What fails on some input fails on more input. -/
theorem Drains.feed_error {c c' : σ} {r : Except ε Unit} {e : ε} (h : M.Drains c r c')
    (hr : r = .error e) (xs : List α) : M.Drains (M.feed c xs) (.error e) (M.feed c' xs) := by
  induction h with
  | stop _ => cases hr
  | fail hfail =>
      cases hr
      exact Drains.fail (M.step_feed _ _ _ xs hfail)
  | step hstep _ ih => exact Drains.step (M.step_feed _ _ _ xs hstep) (ih hr)

/-- Draining first and going on with more input is draining with all of it. -/
theorem Drains.feed {c c' d : σ} {r r' : Except ε Unit} {xs : List α} (h : M.Drains c r c')
    (hr : r = .ok ()) (hrest : M.Drains (M.feed c' xs) r' d) : M.Drains (M.feed c xs) r' d := by
  induction h with
  | stop _ => exact hrest
  | fail _ => cases hr
  | step hstep _ ih => exact Drains.step (M.step_feed _ _ _ xs hstep) (ih hr hrest)

/-- The same read backwards: what draining with all of the input does, draining with the
first part does up to some point. -/
theorem Drains.feed_inv {c c' d : σ} {r : Except ε Unit} {xs : List α} (h : M.Drains c (.ok ()) c')
    (hall : M.Drains (M.feed c xs) r d) : M.Drains (M.feed c' xs) r d := by
  generalize hok : (.ok () : Except ε Unit) = r₀ at h
  induction h with
  | stop _ => exact hall
  | fail _ => cases hok
  | step hstep _ ih =>
      have hstep' := M.step_feed _ _ _ xs hstep
      refine ih ?_ hok
      cases hall with
      | stop hstop => simp [hstop] at hstep'
      | fail hfail => simp [hfail] at hstep'
      | step hnext hrest =>
          rw [hstep'] at hnext
          cases hnext
          exact hrest

/-- What every step keeps, draining keeps. -/
theorem Drains.invariant {P : σ → Prop}
    (hstep : ∀ c r c', M.step c = some (r, c') → P c → P c') {c c' : σ} {r : Except ε Unit}
    (h : M.Drains c r c') (hc : P c) : P c' := by
  induction h with
  | stop _ => exact hc
  | fail hfail => exact hstep _ _ _ hfail hc
  | step hnext _ ih => exact ih (hstep _ _ _ hnext hc)

/-! ## Pieces of input -/

/-- The pieces are fed one by one, with draining after each, up to the first failure. -/
inductive Chunked (M : Consumer σ α ε) : σ → List (List α) → Except ε Unit → σ → Prop where
  | nil {c : σ} : Chunked M c [] (.ok ()) c
  | fail {c c' : σ} {xs : List α} {chunks : List (List α)} {e : ε} :
      M.Drains (M.feed c xs) (.error e) c' → Chunked M c (xs :: chunks) (.error e) c'
  | cons {c c' c'' : σ} {xs : List α} {chunks : List (List α)} {r : Except ε Unit} :
      M.Drains (M.feed c xs) (.ok ()) c' → Chunked M c' chunks r c'' →
      Chunked M c (xs :: chunks) r c''

/-- Feeding the pieces is feeding all of them at once, from any consumer that needs
input. After a failure the rest of the input has not been fed. -/
theorem Chunked.drains {c c' : σ} {chunks : List (List α)} {r : Except ε Unit}
    (h : M.Chunked c chunks r c') (hc : M.step c = none) :
    ∃ rest, M.Drains (M.feed c chunks.flatten) r (M.feed c' rest) ∧ (r = .ok () → rest = []) := by
  induction h with
  | nil =>
      refine ⟨[], ?_, fun _ => rfl⟩
      rw [List.flatten_nil, M.feed_nil]
      exact Drains.stop hc
  | @fail c c' xs chunks e hfail =>
      refine ⟨chunks.flatten, ?_, nofun⟩
      rw [List.flatten_cons, ← M.feed_append]
      exact hfail.feed_error rfl _
  | @cons c c' c'' xs chunks r hdrains _ ih =>
      obtain ⟨rest, hrest, hnil⟩ := ih (hdrains.drained rfl)
      refine ⟨rest, ?_, hnil⟩
      rw [List.flatten_cons, ← M.feed_append]
      exact hdrains.feed rfl hrest

end Consumer

end Incremental
