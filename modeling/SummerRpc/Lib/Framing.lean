import Mathlib.Data.List.Infix

/-! # Self-delimiting frames

A frame code turns a message into a string of symbols from which a reader can
tell where the message ends. The two laws of `Framing.Lawful` are all that is
needed to talk about streams:

* `dec_enc`: a frame decodes to its message, whatever follows it;
* `dec_append`: what has been decoded does not change when more symbols arrive.

From them: concatenated frames decode to exactly the messages, in order
(`takeFrames_encAll`), no proper prefix of a frame decodes (`dec_proper_prefix`),
and every proper prefix of a stream of frames is some complete frames followed by
a proper prefix of the next one (`proper_prefix_split`).

`Exact` codes decode nothing but frames. Then a reader that decodes one message
after the other from what has arrived of a stream (`ReadOff`) has read the first
messages of the stream, in order (`ReadOff.isPrefix`).
-/

namespace Framing

universe u v

/-- A frame code over symbols `β` for messages `α`. `dec` returns the first
message of the stream and what follows it, or `none` when the stream does not
yet hold a whole frame. -/
structure Code (α : Type u) (β : Type v) where
  enc : α → List β
  dec : List β → Option (α × List β)

/-- The laws of a self-delimiting code on the messages that satisfy `P`. -/
structure Lawful {α : Type u} {β : Type v} (c : Code α β) (P : α → Prop) : Prop where
  dec_enc : ∀ a, P a → ∀ rest, c.dec (c.enc a ++ rest) = some (a, rest)
  dec_append : ∀ xs ys a rest, c.dec xs = some (a, rest) →
    c.dec (xs ++ ys) = some (a, rest ++ ys)

namespace Code

variable {α : Type u} {β : Type v} (c : Code α β)

/-- The stream made of the frames of `as`. -/
def encAll (as : List α) : List β := as.flatMap c.enc

@[simp] theorem encAll_nil : c.encAll [] = [] := rfl

@[simp] theorem encAll_cons (a : α) (as : List α) :
    c.encAll (a :: as) = c.enc a ++ c.encAll as := rfl

@[simp] theorem encAll_append (as bs : List α) :
    c.encAll (as ++ bs) = c.encAll as ++ c.encAll bs := by
  simp [encAll]

/-- The frame of one more message. -/
theorem encAll_concat (as : List α) (a : α) : c.encAll (as ++ [a]) = c.encAll as ++ c.enc a := by
  rw [encAll_append, encAll_cons, encAll_nil, List.append_nil]

/-- Decode at most `n` frames, stopping at the first one that is not complete. -/
def takeFrames : ℕ → List β → List α × List β
  | 0, s => ([], s)
  | n + 1, s =>
    match c.dec s with
    | none => ([], s)
    | some (a, rest) => (a :: (takeFrames n rest).1, (takeFrames n rest).2)

end Code

namespace Lawful

variable {α : Type u} {β : Type v} {c : Code α β} {P : α → Prop}

/-- The decoded message does not depend on how much of the stream has arrived:
if a part `xs` of a stream that starts with the frame of `a` decodes at all, it
decodes to `a` and leaves what follows that frame. -/
theorem dec_arrived (hc : Lawful c P) {a b : α} {xs ys rest zs : List β} (ha : P a)
    (hs : xs ++ ys = c.enc a ++ rest) (hd : c.dec xs = some (b, zs)) :
    b = a ∧ zs ++ ys = rest := by
  have hlong : c.dec (xs ++ ys) = some (b, zs ++ ys) := hc.dec_append xs ys b zs hd
  rw [hs, hc.dec_enc a ha rest] at hlong
  simp only [Option.some.injEq, Prod.mk.injEq] at hlong
  exact ⟨hlong.1.symm, hlong.2.symm⟩

/-- A proper prefix of a frame does not decode. -/
theorem dec_proper_prefix (hc : Lawful c P) {a : α} {part : List β} (ha : P a)
    (hp : part <+: c.enc a) (hne : part ≠ c.enc a) : c.dec part = none := by
  cases hd : c.dec part with
  | none => rfl
  | some r =>
      obtain ⟨b, zs⟩ := r
      obtain ⟨tl, htl⟩ := hp
      have hs : part ++ tl = c.enc a ++ [] := by rw [htl, List.append_nil]
      have hnil := (hc.dec_arrived ha hs hd).2
      have htl0 : tl = [] := (List.append_eq_nil_iff.mp hnil).2
      rw [htl0, List.append_nil] at htl
      exact absurd htl hne

/-- Successive decodes of a stream of frames return the messages in order. -/
theorem takeFrames_encAll (hc : Lawful c P) {as : List α} (ha : ∀ a ∈ as, P a)
    (tail : List β) : c.takeFrames as.length (c.encAll as ++ tail) = (as, tail) := by
  induction as with
  | nil => rfl
  | cons a as ih =>
      have hhead : c.dec (c.encAll (a :: as) ++ tail) = some (a, c.encAll as ++ tail) := by
        rw [Code.encAll_cons, List.append_assoc]
        exact hc.dec_enc a (ha a List.mem_cons_self) _
      have htail := ih (fun b hb => ha b (List.mem_cons_of_mem _ hb))
      rw [List.length_cons, Code.takeFrames, hhead]
      simp only [htail]

end Lawful

/-- A self-delimiting code that decodes nothing but its frames, which are not empty. -/
structure Exact {α : Type u} {β : Type v} (c : Code α β) (P : α → Prop) : Prop
    extends Lawful c P where
  enc_ne_nil : ∀ a, P a → c.enc a ≠ []
  dec_sound : ∀ xs a rest, c.dec xs = some (a, rest) → P a ∧ xs = c.enc a ++ rest

/-- A reader has decoded the messages `as` from what has arrived, and `rest` is what
it has left. -/
structure ReadOff {α : Type u} {β : Type v} (c : Code α β) (P : α → Prop)
    (arrived : List β) (as : List α) (rest : List β) : Prop where
  valid : ∀ a ∈ as, P a
  eq : arrived = c.encAll as ++ rest

namespace ReadOff

variable {α : Type u} {β : Type v} {c : Code α β} {P : α → Prop} {arrived rest : List β}
  {as : List α}

theorem nil (c : Code α β) (P : α → Prop) : ReadOff c P [] [] [] :=
  ⟨fun _ ha => absurd ha List.not_mem_nil, rfl⟩

/-- More symbols arrive. -/
theorem arrive (h : ReadOff c P arrived as rest) (ys : List β) :
    ReadOff c P (arrived ++ ys) as (rest ++ ys) :=
  ⟨h.valid, by rw [h.eq, List.append_assoc]⟩

/-- The reader decodes the next message. -/
theorem next (hc : Exact c P) (h : ReadOff c P arrived as rest) {a : α} {rest' : List β}
    (hd : c.dec rest = some (a, rest')) : ReadOff c P arrived (as ++ [a]) rest' := by
  obtain ⟨ha, hrest⟩ := hc.dec_sound rest a rest' hd
  constructor
  · exact List.forall_mem_append.mpr ⟨h.valid, List.forall_mem_singleton.mpr ha⟩
  · rw [h.eq, hrest, Code.encAll_concat, List.append_assoc]

/-- The messages read from a part of a stream of frames are its first messages. -/
theorem isPrefix (hc : Exact c P) {bs : List α} (hbs : ∀ b ∈ bs, P b)
    (h : ReadOff c P arrived as rest) (hp : arrived <+: c.encAll bs) : as <+: bs := by
  induction as generalizing bs arrived with
  | nil => exact List.nil_prefix
  | cons a as ih =>
      have ha : P a := h.valid a List.mem_cons_self
      obtain ⟨tl, htl⟩ := hp
      rw [h.eq, Code.encAll_cons, List.append_assoc, List.append_assoc] at htl
      cases bs with
      | nil =>
          -- the stream is empty, the frame of `a` is not
          rw [Code.encAll_nil, List.append_eq_nil_iff] at htl
          exact absurd htl.1 (hc.enc_ne_nil a ha)
      | cons b bs =>
          -- both streams start with a frame, which decodes to one message
          have hda := hc.dec_enc a ha (c.encAll as ++ (rest ++ tl))
          rw [htl, Code.encAll_cons, hc.dec_enc b (hbs b List.mem_cons_self)] at hda
          simp only [Option.some.injEq, Prod.mk.injEq] at hda
          obtain ⟨rfl, htail⟩ := hda
          have hrec : ReadOff c P (c.encAll as ++ rest) as rest :=
            ⟨fun d hd => h.valid d (List.mem_cons_of_mem _ hd), rfl⟩
          have hpre := ih (fun d hd => hbs d (List.mem_cons_of_mem _ hd)) hrec
            ⟨tl, by rw [htail, List.append_assoc]⟩
          exact List.cons_prefix_cons.mpr ⟨rfl, hpre⟩

end ReadOff

/-- Every proper prefix of a stream of frames consists of its complete frames,
say the first `k`, and a proper prefix of the frame after them. -/
theorem proper_prefix_split {α : Type u} {β : Type v} (c : Code α β) {as : List α}
    {bs : List β} (hp : bs <+: c.encAll as) (hne : bs ≠ c.encAll as) :
    ∃ (k : ℕ) (hk : k < as.length) (part : List β),
      bs = c.encAll (as.take k) ++ part ∧ part <+: c.enc as[k] ∧ part ≠ c.enc as[k] := by
  induction as generalizing bs with
  | nil =>
      rw [Code.encAll_nil, List.prefix_nil] at hp
      exact absurd hp hne
  | cons a as ih =>
      rw [Code.encAll_cons] at hp hne
      rcases Nat.lt_or_ge bs.length (c.enc a).length with hlt | hge
      · -- the stream is cut inside the first frame
        have hpart : bs <+: c.enc a :=
          List.prefix_of_prefix_length_le hp (List.prefix_append _ _) (Nat.le_of_lt hlt)
        refine ⟨0, by simp, bs, by simp, hpart, ?_⟩
        intro heq
        rw [heq] at hlt
        exact Nat.lt_irrefl _ hlt
      · -- the first frame is whole: the cut is in the rest
        have hwhole : c.enc a <+: bs :=
          List.prefix_of_prefix_length_le (List.prefix_append _ _) hp hge
        obtain ⟨cs, rfl⟩ := hwhole
        have hcs : cs <+: c.encAll as := (List.prefix_append_right_inj _).mp hp
        have hcne : cs ≠ c.encAll as := fun heq => hne (by rw [heq])
        obtain ⟨k, hk, part, heq, hpre, hpne⟩ := ih hcs hcne
        refine ⟨k + 1, by simpa using hk, part, ?_, ?_, ?_⟩
        · rw [List.take_succ_cons, Code.encAll_cons, List.append_assoc, heq]
        · simpa using hpre
        · simpa using hpne

end Framing
