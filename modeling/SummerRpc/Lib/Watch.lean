import SummerRpc.Lib.Transition

/-! # Watches that fire once

A follower of a value that others change, over a connection that may break. The follower is
told to read when it is connected, and each reading sets a watch, which tells it of the next
change and is gone. A reading may fail, but only with the connection.

* `Watch.system`: the value, the watches, what the follower has been told and has read;
* `Watch.Follows`: the follower is told, is reading, or has a copy that is watched;
* `Watch.at_rest`: a follower that is connected and has nothing to do has the value.
-/

universe u

namespace Watch

/-- A value and its follower. -/
structure State (δ : Type u) where
  value : δ
  /-- the number of watches on the value -/
  armed : ℕ
  connected : Bool
  /-- how often the follower has been told to read, and has not looked yet -/
  pending : ℕ
  /-- it is about to read -/
  reading : Bool
  /-- what it has read last -/
  copy : Option δ

inductive Label (δ : Type u) where
  /-- the value is changed -/
  | change (value : δ)
  | connect
  | disconnect
  /-- the follower is going to read, because it has been told -/
  | look
  | read
  /-- its reading fails: it is not connected, or has been connected again meanwhile -/
  | fail
  /-- it starts anew -/
  | forget (value : δ)

variable {δ : Type u}

/-- A follower that has not been connected. -/
def State.fresh (value : δ) : State δ where
  value := value
  armed := 0
  connected := false
  pending := 0
  reading := false
  copy := none

def guard (l : Label δ) (s : State δ) : Prop :=
  match l with
  | .change _ | .connect | .disconnect | .forget _ => True
  | .look => 0 < s.pending ∧ s.reading = false
  | .read => s.reading = true
  | .fail => s.reading = true ∧ (s.connected = false ∨ 0 < s.pending)

def update (l : Label δ) (s : State δ) : State δ :=
  match l with
  | .change value => { s with value := value, armed := 0, pending := s.pending + s.armed }
  | .connect => { s with connected := true, pending := s.pending + 1 }
  | .disconnect => { s with connected := false }
  | .look => { s with pending := s.pending - 1, reading := true }
  | .read => { s with armed := s.armed + 1, reading := false, copy := some s.value }
  | .fail => { s with reading := false }
  | .forget value => State.fresh value

/-- The value is changed and the connection breaks in any order. -/
def system (δ : Type u) : Lts.Spec (State δ) (Label δ) where
  init := fun s => ∃ value, s = State.fresh value
  guard := guard
  update := update

/-- A connected follower will read, or its copy is the value and is watched. -/
def Follows (s : State δ) : Prop :=
  s.connected = true → 0 < s.pending ∨ s.reading = true ∨ (0 < s.armed ∧ s.copy = some s.value)

theorem follows_step (l : Label δ) (s : State δ) (hg : guard l s) (h : Follows s) :
    Follows (update l s) := by
  cases l with
  | change value =>
      intro hconnected
      rcases h hconnected with hpending | hreading | ⟨harmed, _⟩
      · left
        show 0 < s.pending + s.armed
        omega
      · exact Or.inr (Or.inl hreading)
      · -- the watches fire
        left
        show 0 < s.pending + s.armed
        omega
  | connect => exact fun _ => Or.inl (Nat.succ_pos _)
  | disconnect =>
      intro hconnected
      cases hconnected
  | look => exact fun _ => Or.inr (Or.inl rfl)
  | read => exact fun _ => Or.inr (Or.inr ⟨Nat.succ_pos _, rfl⟩)
  | fail =>
      intro hconnected
      -- a read fails with the connection, or with one that has come back, of which it is still to
      -- be told
      rcases hg.2 with hbroken | hpending
      · rw [show s.connected = true from hconnected] at hbroken
        cases hbroken
      · exact Or.inl hpending
  | forget value =>
      intro hconnected
      cases hconnected

theorem follows_reachable (s : State δ) (hr : (system δ).Reachable s) : Follows s := by
  refine (system δ).invariant Follows ?_ follows_step s hr
  rintro s ⟨value, rfl⟩ hconnected
  cases hconnected

/-- A follower that is connected, has not been told to read and is not reading has the
value. -/
theorem at_rest {s : State δ} (hr : (system δ).Reachable s) (hconnected : s.connected = true)
    (hpending : s.pending = 0) (hreading : s.reading = false) : s.copy = some s.value := by
  rcases follows_reachable s hr hconnected with h | h | ⟨_, h⟩
  · omega
  · rw [hreading] at h
    cases h
  · exact h

end Watch
