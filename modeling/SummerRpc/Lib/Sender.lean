import SummerRpc.Lib.Framing
import SummerRpc.Lib.Transition

/-! # Senders of frames

A sender puts the frames of messages on a stream, one after the other and each in
pieces of any size. It may stop at any moment, and does not go on after that.

* `Intact`: what a reader of the stream relies on: whole frames and at most a part of
  one more, which is the last thing sent unless the sender is still busy with it;
* `Sender.intact`: a sender keeps its stream intact;
* `Intact.of_simulation`: so does every system whose steps are those of a sender.
-/

namespace Framing

universe u v w x

section Stream

variable {α : Type u} {β : Type v} {σ : Type w} {ℓ : Type x}

/-- From `s` on nothing is put on the stream any more. -/
def Silent (S : Lts.Spec σ ℓ) (out : σ → List β) (s : σ) : Prop :=
  ∀ t, (S.startingAt s).Reachable t → out t = out s

/-- A frame that has been begun and not finished. -/
def Truncated (c : Code α β) (P : α → Prop) (part : List β) : Prop :=
  ∃ a, P a ∧ part <+: c.enc a ∧ part ≠ c.enc a

/-- The stream is frames sent in full and at most a part of one more. That part is the
beginning of the frame in hand, of which `rest` is still to come, or a truncated frame
and the last thing ever sent. -/
def Intact (S : Lts.Spec σ ℓ) (c : Code α β) (P : α → Prop) (out rest : σ → List β)
    (s : σ) : Prop :=
  ∃ as part, (∀ a ∈ as, P a) ∧ out s = c.encAll as ++ part ∧
    (part = [] ∨ (rest s ≠ [] ∧ ∃ a, P a ∧ part ++ rest s = c.enc a) ∨
      (Truncated c P part ∧ Silent S out s))

end Stream

/-- A sender: the stream, the symbols of the frame in hand that are not on the stream,
and whether it has stopped. -/
structure Sender (β : Type v) where
  out : List β
  rest : List β
  stopped : Bool

namespace Sender

variable {α : Type u} {β : Type v}

inductive Label (α : Type u) where
  /-- take the frame of the next message in hand -/
  | start (a : α)
  /-- put some symbols of the frame in hand on the stream -/
  | send (k : ℕ)
  | stop

def guard (P : α → Prop) (l : Label α) (s : Sender β) : Prop :=
  match l with
  | .start a => s.stopped = false ∧ s.rest = [] ∧ P a
  | .send _ => True
  | .stop => True

def update (c : Code α β) (l : Label α) (s : Sender β) : Sender β :=
  match l with
  | .start a => { s with rest := c.enc a }
  | .send k => { s with out := s.out ++ s.rest.take k, rest := s.rest.drop k }
  | .stop => { s with rest := [], stopped := true }

/-- The senders of the messages that satisfy `P`. -/
def system (c : Code α β) (P : α → Prop) : Lts.Spec (Sender β) (Label α) where
  init := fun s => s = ⟨[], [], false⟩
  guard := guard P
  update := update c

/-- The stream is whole frames, and what is in hand completes the part after them. -/
structure Ok (c : Code α β) (P : α → Prop) (s : Sender β) : Prop where
  idle : s.stopped = true → s.rest = []
  frames : ∃ as part, (∀ a ∈ as, P a) ∧ s.out = c.encAll as ++ part ∧
    ((part = [] ∧ s.rest = []) ∨
      ∃ a, P a ∧ part <+: c.enc a ∧ (s.stopped = false → part ++ s.rest = c.enc a))

variable {c : Code α β} {P : α → Prop} {s : Sender β}

/-- With nothing in hand a sender that has not stopped has sent whole frames. -/
theorem Ok.whole (h : Ok c P s) (hrun : s.stopped = false) (hrest : s.rest = []) :
    ∃ as, (∀ a ∈ as, P a) ∧ s.out = c.encAll as := by
  rcases h.frames with ⟨as, part, has, hout, ⟨rfl, _⟩ | ⟨a, ha, _, hpart⟩⟩
  · exact ⟨as, has, by rw [hout, List.append_nil]⟩
  · have heq := hpart hrun
    rw [hrest, List.append_nil] at heq
    refine ⟨as ++ [a], ?_, by rw [hout, heq, Code.encAll_concat]⟩
    exact List.forall_mem_append.mpr ⟨has, List.forall_mem_singleton.mpr ha⟩

theorem ok_step {l : Label α} (hg : guard P l s) (h : Ok c P s) : Ok c P (update c l s) := by
  cases l with
  | start a =>
      -- only a sender with nothing in hand begins the next frame
      obtain ⟨hrun, hrest, ha⟩ := hg
      obtain ⟨as, has, hout⟩ := h.whole hrun hrest
      constructor
      · intro hstop
        rw [show s.stopped = true from hstop] at hrun
        cases hrun
      · refine ⟨as, [], has, ?_, Or.inr ⟨a, ha, List.nil_prefix, fun _ => rfl⟩⟩
        rw [List.append_nil]
        exact hout
  | send k =>
      constructor
      · intro hstop
        show s.rest.drop k = []
        rw [h.idle hstop, List.drop_nil]
      · rcases h.frames with ⟨as, part, has, hout, ⟨rfl, hrest⟩ | ⟨a, ha, hpre, hpart⟩⟩
        · -- nothing is in hand
          refine ⟨as, [], has, ?_, Or.inl ⟨rfl, ?_⟩⟩
          · show s.out ++ s.rest.take k = _
            rw [hrest, List.take_nil, List.append_nil]
            exact hout
          · show s.rest.drop k = []
            rw [hrest, List.drop_nil]
        · -- more of the frame in hand
          refine ⟨as, part ++ s.rest.take k, has, ?_, Or.inr ⟨a, ha, ?_, ?_⟩⟩
          · show s.out ++ s.rest.take k = _
            rw [hout, List.append_assoc]
          · cases hstop : s.stopped with
            | true =>
                rw [h.idle hstop, List.take_nil, List.append_nil]
                exact hpre
            | false =>
                rw [← hpart hstop]
                exact (List.prefix_append_right_inj _).mpr (List.take_prefix _ _)
          · intro hrun
            show (part ++ s.rest.take k) ++ s.rest.drop k = c.enc a
            rw [List.append_assoc, List.take_append_drop]
            exact hpart hrun
  | stop =>
      constructor
      · intro _
        rfl
      · rcases h.frames with ⟨as, part, has, hout, ⟨rfl, _⟩ | ⟨a, ha, hpre, _⟩⟩
        · exact ⟨as, [], has, hout, Or.inl ⟨rfl, rfl⟩⟩
        · -- the frame in hand stays cut off
          exact ⟨as, part, has, hout, Or.inr ⟨a, ha, hpre, nofun⟩⟩

theorem ok_reachable (c : Code α β) (P : α → Prop) : ∀ s, (system c P).Reachable s → Ok c P s := by
  apply Lts.Spec.invariant
  · rintro s rfl
    exact ⟨fun _ => rfl, [], [], fun _ ha => absurd ha List.not_mem_nil, rfl, Or.inl ⟨rfl, rfl⟩⟩
  · intro l s hg h
    exact ok_step hg h

/-- A sender that has stopped is silent. -/
theorem silent_of_stopped (h : Ok c P s) (hstop : s.stopped = true) :
    Silent (system c P) Sender.out s := by
  have hinv : ∀ t, ((system c P).startingAt s).Reachable t →
      t.out = s.out ∧ t.rest = [] ∧ t.stopped = true := by
    apply Lts.Spec.invariant
    · rintro t rfl
      exact ⟨rfl, h.idle hstop, hstop⟩
    · rintro l t hg ⟨hout, hrest, hstopped⟩
      cases l with
      | start a =>
          rw [show t.stopped = false from hg.1] at hstopped
          cases hstopped
      | send k =>
          refine ⟨?_, ?_, hstopped⟩
          · show t.out ++ t.rest.take k = s.out
            rw [hrest, List.take_nil, List.append_nil, hout]
          · show t.rest.drop k = []
            rw [hrest, List.drop_nil]
      | stop => exact ⟨hout, rfl, rfl⟩
  intro t ht
  exact (hinv t ht).1

/-- A sender keeps its stream intact. -/
theorem intact (hr : (system c P).Reachable s) :
    Intact (system c P) c P Sender.out Sender.rest s := by
  have h := ok_reachable c P s hr
  cases hstop : s.stopped with
  | false =>
      by_cases hrest : s.rest = []
      · obtain ⟨as, has, hout⟩ := h.whole hstop hrest
        exact ⟨as, [], has, by rw [hout, List.append_nil], Or.inl rfl⟩
      · rcases h.frames with ⟨as, part, has, hout, ⟨rfl, hnil⟩ | ⟨a, ha, _, hpart⟩⟩
        · exact absurd hnil hrest
        · exact ⟨as, part, has, hout, Or.inr (Or.inl ⟨hrest, a, ha, hpart hstop⟩)⟩
  | true =>
      have hsilent := silent_of_stopped h hstop
      rcases h.frames with ⟨as, part, has, hout, ⟨rfl, _⟩ | ⟨a, ha, hpre, _⟩⟩
      · exact ⟨as, [], has, hout, Or.inl rfl⟩
      · by_cases hfull : part = c.enc a
        · -- the last frame was sent in full
          refine ⟨as ++ [a], [], ?_, ?_, Or.inl rfl⟩
          · exact List.forall_mem_append.mpr ⟨has, List.forall_mem_singleton.mpr ha⟩
          · rw [hout, hfull, Code.encAll_concat, List.append_nil]
        · exact ⟨as, part, has, hout, Or.inr (Or.inr ⟨⟨a, ha, hpre, hfull⟩, hsilent⟩)⟩

end Sender

/-- A system whose steps are those of a sender keeps its stream intact. -/
theorem Intact.of_simulation {α : Type u} {β : Type v} {σ : Type w} {ℓ : Type x}
    {S : Lts.Spec σ ℓ} {c : Code α β} {P : α → Prop} {f : σ → Sender β}
    (h : Lts.Spec.Simulation S (Sender.system c P) f) {s : σ} (hr : S.Reachable s) :
    Intact S c P (fun s => (f s).out) (fun s => (f s).rest) s := by
  obtain ⟨as, part, has, hout, hpart⟩ := Sender.intact (h.reachable hr)
  refine ⟨as, part, has, hout, ?_⟩
  rcases hpart with hnil | hbusy | ⟨htrunc, hsilent⟩
  · exact Or.inl hnil
  · exact Or.inr (Or.inl hbusy)
  · exact Or.inr (Or.inr ⟨htrunc, fun t ht => hsilent _ (h.from_state hr ht)⟩)

end Framing
