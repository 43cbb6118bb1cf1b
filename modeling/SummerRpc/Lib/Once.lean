import SummerRpc.Lib.Transition
import SummerRpc.Lib.Mutex
import Mathlib.Data.List.Basic

/-! # Double-checked locking

Threads ask for the value of a key. A thread looks whether there is one, and if there is none
it takes the lock, looks again, makes one and publishes it. To make one may fail, and then
nothing is published.

* `system`: any number of threads and keys, and one lock for all of them;
* `Sound`: the invariant, `Fits` what it says of one thread;
* `MadeOnce`: what is made is made once, and every thread that is given a value is given that one.
-/

namespace Once

universe u v w x

variable {ι : Type u} {κ : Type v} {α : Type w} {ε : Type x}

/-! ## The model -/

/-- What a thread is given. -/
inductive Given (α : Type w) (ε : Type x) where
  | value (a : α)
  | raised (e : ε)
  /-- the value that it has seen is gone -/
  | missing
deriving DecidableEq

/-- Where a thread is. -/
inductive Pc (κ : Type v) (α : Type w) (ε : Type x) where
  | idle
  /-- about to look, without the lock -/
  | looking (k : κ)
  /-- it has seen that there is a value -/
  | seen (k : κ)
  | waiting (k : κ)
  /-- about to look again, with the lock -/
  | lookingAgain (k : κ)
  | seenAgain (k : κ)
  | making (k : κ)
  | storing (k : κ) (a : α)
  /-- about to give back the lock -/
  | leaving (k : κ) (given : Given α ε)
deriving DecidableEq

/-- The threads that have the lock. -/
def Inside : Pc κ α ε → Prop
  | .idle | .looking _ | .seen _ | .waiting _ => False
  | .lookingAgain _ | .seenAgain _ | .making _ | .storing _ _ | .leaving _ _ => True

/-- The values published, the lock and the threads, with a record of what has been tried and of
what the threads have been given. -/
structure State (ι : Type u) (κ : Type v) (α : Type w) (ε : Type x) where
  published : κ → Option α
  holder : Option ι
  pc : ι → Pc κ α ε
  tried : κ → List (Except ε α)
  given : List (κ × Given α ε)

/-- The steps of a thread. -/
inductive Label (ι : Type u) (κ : Type v) (α : Type w) (ε : Type x) where
  | ask (i : ι) (k : κ)
  | look (i : ι) (k : κ)
  /-- the value seen is read, without the lock -/
  | read (i : ι) (k : κ)
  | acquire (i : ι) (k : κ)
  | lookAgain (i : ι) (k : κ)
  | readAgain (i : ι) (k : κ)
  | make (i : ι) (k : κ) (result : Except ε α)
  | store (i : ι) (k : κ) (a : α)
  | release (i : ι) (k : κ) (given : Given α ε)

/-- When a step may happen. -/
def guard (l : Label ι κ α ε) (s : State ι κ α ε) : Prop :=
  match l with
  | .ask i _ => s.pc i = .idle
  | .look i k => s.pc i = .looking k
  | .read i k => s.pc i = .seen k
  | .acquire i k => s.pc i = .waiting k ∧ s.holder = none
  | .lookAgain i k => s.pc i = .lookingAgain k
  | .readAgain i k => s.pc i = .seenAgain k
  | .make i k _ => s.pc i = .making k
  | .store i k a => s.pc i = .storing k a
  | .release i k given => s.pc i = .leaving k given

instance [DecidableEq κ] [DecidableEq α] [DecidableEq ε] [DecidableEq ι] (l : Label ι κ α ε)
    (s : State ι κ α ε) : Decidable (guard l s) := by
  cases l <;> (simp only [guard]; infer_instance)

/-- What reading gives. -/
def readValue (published : κ → Option α) (k : κ) : Given α ε :=
  match published k with
  | some a => .value a
  | none => .missing

/-- Where a thread is when it has tried to make a value. -/
def afterMake (k : κ) : Except ε α → Pc κ α ε
  | .ok a => .storing k a
  | .error e => .leaving k (.raised e)

variable [DecidableEq ι] [DecidableEq κ]

/-- Thread `i` goes on. -/
def State.goTo (s : State ι κ α ε) (i : ι) (p : Pc κ α ε) : State ι κ α ε :=
  { s with pc := Function.update s.pc i p }

/-- The state a step leads to. -/
def update (l : Label ι κ α ε) (s : State ι κ α ε) : State ι κ α ε :=
  match l with
  | .ask i k => s.goTo i (.looking k)
  | .look i k => s.goTo i (if (s.published k).isSome then .seen k else .waiting k)
  | .read i k => { s.goTo i .idle with given := s.given ++ [(k, readValue s.published k)] }
  | .acquire i k => { s.goTo i (.lookingAgain k) with holder := some i }
  | .lookAgain i k => s.goTo i (if (s.published k).isSome then .seenAgain k else .making k)
  | .readAgain i k => s.goTo i (.leaving k (readValue s.published k))
  | .make i k result =>
      { s.goTo i (afterMake k result) with
        tried := Function.update s.tried k (s.tried k ++ [result]) }
  | .store i k a =>
      { s.goTo i (.leaving k (.value a)) with
        published := Function.update s.published k (some a) }
  | .release i k given =>
      { s.goTo i .idle with holder := none, given := s.given ++ [(k, given)] }

/-- Nothing is published, and no thread has asked yet. -/
def system : Lts.Spec (State ι κ α ε) (Label ι κ α ε) where
  init := fun s => (∀ k, s.published k = none) ∧ s.holder = none ∧ (∀ i, s.pc i = .idle) ∧
    (∀ k, s.tried k = []) ∧ s.given = []
  guard := guard
  update := update

/-! ## The invariant -/

/-- Everything tried has failed. -/
def Failed (tried : List (Except ε α)) : Prop := ∀ result ∈ tried, ∃ e, result = .error e

/-- The last try has made the value, and all before have failed. -/
def Made (tried : List (Except ε α)) (a : α) : Prop :=
  ∃ failed, Failed failed ∧ tried = failed ++ [.ok a]

/-- What is known where a thread is. -/
def Fits (published : κ → Option α) (tried : κ → List (Except ε α)) : Pc κ α ε → Prop
  | .idle | .looking _ | .waiting _ | .lookingAgain _ => True
  | .seen k | .seenAgain k => (published k).isSome = true
  | .making k => published k = none ∧ Failed (tried k)
  | .storing k a => published k = none ∧ Made (tried k) a
  | .leaving k (.value a) => published k = some a
  | .leaving _ (.raised _) => True
  | .leaving _ .missing => False

/-- What a thread is given is what has been published, if it is given a value. -/
def Agrees (published : κ → Option α) : κ × Given α ε → Prop
  | (k, .value a) => published k = some a
  | (_, .raised _) => True
  | (_, .missing) => False

structure Sound (s : State ι κ α ε) : Prop where
  mutex : Mutex Inside s.holder s.pc
  fits : ∀ i, Fits s.published s.tried (s.pc i)
  /-- the value published is the only one made -/
  published : ∀ k a, s.published k = some a → Made (s.tried k) a
  /-- what is not published is about to be, or it has not been made -/
  unpublished : ∀ k, s.published k = none → (∃ i a, s.pc i = .storing k a) ∨ Failed (s.tried k)
  agrees : ∀ g ∈ s.given, Agrees s.published g

variable {s : State ι κ α ε} {i : ι} {k : κ}

omit [DecidableEq κ] in
/-- A thread goes on with nothing published and nothing tried. -/
theorem Sound.goTo (h : Sound s) (p : Pc κ α ε) {holder : Option ι}
    (hmutex : Mutex Inside holder (Function.update s.pc i p)) (hp : Fits s.published s.tried p)
    (hstoring : ∀ k a, s.pc i ≠ .storing k a) (given : List (κ × Given α ε))
    (hgiven : ∀ g ∈ given, Agrees s.published g) :
    Sound { s.goTo i p with holder := holder, given := s.given ++ given } where
  mutex := hmutex
  fits := by
    intro j
    show Fits s.published s.tried (Function.update s.pc i p j)
    by_cases hj : j = i
    · rw [hj, Function.update_self]
      exact hp
    · rw [Function.update_of_ne hj]
      exact h.fits j
  published := h.published
  unpublished := by
    intro k hk
    rcases h.unpublished k hk with ⟨j, a, hj⟩ | hmade
    · refine Or.inl ⟨j, a, ?_⟩
      have hne : j ≠ i := by
        rintro rfl
        exact hstoring k a hj
      exact (Function.update_of_ne hne _ _).trans hj
    · exact Or.inr hmade
  agrees := by
    intro g hg
    rcases List.mem_append.mp hg with hold | hnew
    · exact h.agrees g hold
    · exact hgiven g hnew

omit [DecidableEq κ] in
/-- The same, when the thread is given nothing and stays on its side of the lock. -/
theorem Sound.move (h : Sound s) {p q : Pc κ α ε} (hi : s.pc i = q) (hinside : Inside p ↔ Inside q)
    (hp : Fits s.published s.tried p) (hstoring : ∀ k a, q ≠ .storing k a) :
    Sound (s.goTo i p) := by
  have hmove := h.mutex.move (i := i) (p := p) (by rw [hi]; exact hinside)
  have hgo := h.goTo p hmove hp (fun k a => by rw [hi]; exact hstoring k a) []
    fun g hg => absurd hg List.not_mem_nil
  rw [List.append_nil] at hgo
  exact hgo

omit [DecidableEq ι] [DecidableEq κ] in
theorem readValue_of_isSome {published : κ → Option α} (h : (published k).isSome = true) :
    ∃ a, published k = some a ∧ readValue (ε := ε) published k = .value a := by
  rcases Option.isSome_iff_exists.mp h with ⟨a, ha⟩
  refine ⟨a, ha, ?_⟩
  unfold readValue
  rw [ha]

omit [DecidableEq ι] [DecidableEq κ] in
/-- The threads without the lock do not care what is tried, and what is published stays. -/
theorem fits_outside {published published' : κ → Option α} {tried tried' : κ → List (Except ε α)}
    {p : Pc κ α ε} (h : Fits published tried p) (hout : ¬ Inside p)
    (hkept : ∀ k a, published k = some a → published' k = some a) : Fits published' tried' p := by
  cases p with
  | idle | looking | waiting => trivial
  | seen k =>
      rcases Option.isSome_iff_exists.mp h with ⟨a, ha⟩
      exact Option.isSome_iff_exists.mpr ⟨a, hkept k a ha⟩
  | lookingAgain | seenAgain | making | storing | leaving => exact absurd trivial hout

/-- A thread that has the lock tries to make a value: nobody else is about to publish one. -/
theorem sound_make (h : Sound s) (hi : s.pc i = .making k) (result : Except ε α) :
    Sound (update (.make i k result) s) := by
  have hfits := h.fits i
  rw [hi] at hfits
  rcases hfits with ⟨hnone, hfailed⟩
  have hholder : Inside (s.pc i) := by
    rw [hi]
    trivial
  have hself : Function.update s.tried k (s.tried k ++ [result]) k = s.tried k ++ [result] :=
    Function.update_self ..
  constructor
  -- whatever the try gives, the thread keeps the lock
  · refine h.mutex.move ?_
    rw [hi]
    cases result <;> exact Iff.rfl
  · intro j
    show Fits s.published _ (Function.update s.pc i (afterMake k result) j)
    by_cases hj : j = i
    · rw [hj, Function.update_self]
      cases result with
      | ok a => exact ⟨hnone, s.tried k, hfailed, hself⟩
      | error e => trivial
    · rw [Function.update_of_ne hj]
      -- all others are outside, and what they have seen does not depend on what is tried
      exact fits_outside (h.fits j) (fun hin => hj (h.mutex.unique hin hholder)) fun _ _ => id
  -- a key that has its value is not the one tried
  · intro k' a' hk'
    have hne : k' ≠ k := by
      rintro rfl
      rw [show s.published k' = some a' from hk'] at hnone
      cases hnone
    show Made (Function.update s.tried k _ k') a'
    rw [Function.update_of_ne hne]
    exact h.published k' a' hk'
  · intro k' hk'
    by_cases hkk : k' = k
    · subst hkk
      cases result with
      -- the thread itself is the one about to publish, or has failed like all before it
      | ok a => exact Or.inl ⟨i, a, Function.update_self ..⟩
      | error e =>
          refine Or.inr fun r hr => ?_
          change r ∈ Function.update s.tried k' _ k' at hr
          rw [hself] at hr
          rcases List.mem_append.mp hr with hold | hnew
          · exact hfailed r hold
          · exact ⟨e, List.mem_singleton.mp hnew⟩
    · show _ ∨ Failed (Function.update s.tried k _ k')
      rw [Function.update_of_ne hkk]
      rcases h.unpublished k' hk' with ⟨j, a', hj⟩ | hfailed'
      · have hne : j ≠ i := by
          rintro rfl
          rw [hi] at hj
          cases hj
        exact Or.inl ⟨j, a', (Function.update_of_ne hne _ _).trans hj⟩
      · exact Or.inr hfailed'
  · exact h.agrees

/-- What is published stays published. -/
theorem sound_store (h : Sound s) {a : α} (hi : s.pc i = .storing k a) :
    Sound (update (.store i k a) s) := by
  have hfits := h.fits i
  rw [hi] at hfits
  rcases hfits with ⟨hnone, hmade⟩
  have hholder : Inside (s.pc i) := by
    rw [hi]
    trivial
  -- nothing was published under this key
  have hkept : ∀ k' a', s.published k' = some a' →
      Function.update s.published k (some a) k' = some a' := by
    intro k' a' hk'
    have hne : k' ≠ k := by
      rintro rfl
      rw [hk'] at hnone
      cases hnone
    rw [Function.update_of_ne hne]
    exact hk'
  constructor
  · exact h.mutex.move (by rw [hi]; exact Iff.rfl)
  · intro j
    show Fits (Function.update s.published k (some a)) s.tried
      (Function.update s.pc i (.leaving k (.value a)) j)
    by_cases hj : j = i
    · rw [hj, Function.update_self]
      exact Function.update_self ..
    · rw [Function.update_of_ne hj]
      exact fits_outside (h.fits j) (fun hin => hj (h.mutex.unique hin hholder)) hkept
  · intro k' a' hk'
    by_cases hkk : k' = k
    · subst hkk
      have hself : Function.update s.published k' (some a) k' = some a' := hk'
      rw [Function.update_self] at hself
      cases hself
      -- the value published is the one this thread has made
      exact hmade
    · exact h.published k' a' ((Function.update_of_ne hkk _ _).symm.trans hk')
  · intro k' hk'
    have hkk : k' ≠ k := by
      rintro rfl
      cases (Function.update_self ..).symm.trans hk'
    rcases h.unpublished k' ((Function.update_of_ne hkk _ _).symm.trans hk') with
      ⟨j, a', hj⟩ | hmade'
    -- who was about to publish another key still is
    · have hne : j ≠ i := by
        rintro rfl
        rw [hi] at hj
        cases hj
        exact hkk rfl
      exact Or.inl ⟨j, a', (Function.update_of_ne hne _ _).trans hj⟩
    · exact Or.inr hmade'
  · rintro ⟨k', given⟩ hg
    have hold := h.agrees _ hg
    cases given with
    | value a' => exact hkept k' a' hold
    | raised e => trivial
    | missing => exact hold

theorem sound_step {l : Label ι κ α ε} (hg : guard l s) (h : Sound s) : Sound (update l s) := by
  cases l with
  | ask i k => exact h.move hg Iff.rfl trivial (by rintro _ _ ⟨⟩)
  | look i k =>
      unfold update
      simp only
      split
      · rename_i hseen
        exact h.move hg Iff.rfl hseen (by rintro _ _ ⟨⟩)
      · exact h.move hg Iff.rfl trivial (by rintro _ _ ⟨⟩)
  | read i k =>
      -- the look without the lock: what it has seen is still there
      have hi : s.pc i = .seen k := hg
      have hfits := h.fits i
      rw [hi] at hfits
      rcases readValue_of_isSome (ε := ε) hfits with ⟨a, ha, hread⟩
      refine h.goTo .idle (h.mutex.move (by rw [hi]; exact Iff.rfl)) trivial
        (fun _ _ => by rw [hi]; rintro ⟨⟩) [(k, readValue s.published k)] fun g hg => ?_
      rw [List.mem_singleton.mp hg, hread]
      exact ha
  | acquire i k =>
      rcases hg with ⟨hi, hfree⟩
      have hmutex := h.mutex
      rw [hfree] at hmutex
      have hgo := h.goTo (.lookingAgain k) (hmutex.acquire (i := i) trivial) trivial
        (fun _ _ => by rw [hi]; rintro ⟨⟩) [] fun g hg => absurd hg List.not_mem_nil
      rw [List.append_nil] at hgo
      exact hgo
  | lookAgain i k =>
      have hi : s.pc i = .lookingAgain k := hg
      unfold update
      simp only
      split
      · rename_i hseen
        exact h.move hi Iff.rfl hseen (by rintro _ _ ⟨⟩)
      · rename_i hnone
        have hnone : s.published k = none := Option.not_isSome_iff_eq_none.mp hnone
        refine h.move hi Iff.rfl ⟨hnone, ?_⟩ (by rintro _ _ ⟨⟩)
        -- who is about to publish a value has the lock
        rcases h.unpublished k hnone with ⟨j, a, hj⟩ | hmade
        · have hji : j = i := h.mutex.unique (by rw [hj]; trivial) (by rw [hi]; trivial)
          rw [hji, hi] at hj
          cases hj
        · exact hmade
  | readAgain i k =>
      have hi : s.pc i = .seenAgain k := hg
      have hfits := h.fits i
      rw [hi] at hfits
      rcases readValue_of_isSome (ε := ε) hfits with ⟨a, ha, hread⟩
      refine h.move hi Iff.rfl ?_ (by rintro _ _ ⟨⟩)
      rw [hread]
      exact ha
  | make i k result => exact sound_make h hg result
  | store i k a => exact sound_store h hg
  | release i k given =>
      -- the value given was published before the lock is released
      have hi : s.pc i = .leaving k given := hg
      have hfits := h.fits i
      rw [hi] at hfits
      refine h.goTo .idle (h.mutex.release (i := i) (by rw [hi]; trivial) id) trivial
        (fun _ _ => by rw [hi]; rintro ⟨⟩) [(k, given)] fun g hg => ?_
      rw [List.mem_singleton.mp hg]
      cases given with
      | value a => exact hfits
      | raised e => trivial
      | missing => exact hfits

theorem sound_reachable : ∀ s : State ι κ α ε, system.Reachable s → Sound s := by
  refine Lts.Spec.invariant system Sound ?_ fun _ _ hg h => sound_step hg h
  rintro s ⟨hpublished, hholder, hpc, htried, hgiven⟩
  constructor
  · intro i
    rw [hholder, hpc]
    constructor
    · intro hin
      exact hin.elim
    · intro hsome
      cases hsome
  · intro i
    rw [hpc]
    trivial
  · intro k a hk
    cases (hpublished k).symm.trans hk
  · refine fun k _ => Or.inr fun result hresult => ?_
    rw [htried] at hresult
    exact absurd hresult List.not_mem_nil
  · intro g hg
    rw [hgiven] at hg
    exact absurd hg List.not_mem_nil

/-! ## Once -/

/-- A value is made once, and every thread that is given a value is given that one. -/
structure MadeOnce (s : State ι κ α ε) : Prop where
  /-- nothing is tried again once a value has been made -/
  once : ∀ k, (s.tried k).Pairwise fun result _ => ∃ e, result = .error e
  /-- no value is made while another one is -/
  one_maker : ∀ i j k l, s.pc i = .making k → s.pc j = .making l → i = j
  /-- what a thread is given is the one value made -/
  given : ∀ k a, (k, Given.value a) ∈ s.given → Made (s.tried k) a ∧ s.published k = some a
  /-- a value seen is not gone -/
  never_missing : ∀ k, (k, Given.missing) ∉ s.given
  /-- the lock is free when nobody is on the way -/
  free : (∀ i, ¬ Inside (s.pc i)) → s.holder = none

theorem Failed.pairwise {tried : List (Except ε α)} (h : Failed tried) :
    tried.Pairwise fun result _ => ∃ e, result = .error e :=
  List.pairwise_of_forall_mem_list fun result hresult _ _ => h result hresult

theorem Made.mem {tried : List (Except ε α)} {a : α} (h : Made tried a) : .ok a ∈ tried := by
  rcases h with ⟨failed, _, rfl⟩
  exact List.mem_append_right _ List.mem_cons_self

theorem Made.pairwise {tried : List (Except ε α)} {a : α} (h : Made tried a) :
    tried.Pairwise fun result _ => ∃ e, result = .error e := by
  rcases h with ⟨failed, hfailed, rfl⟩
  refine List.pairwise_append.mpr ⟨hfailed.pairwise, List.pairwise_singleton _ _, ?_⟩
  exact fun result hresult _ _ => hfailed result hresult

theorem madeOnce_reachable (hr : system.Reachable s) : MadeOnce s := by
  have h := sound_reachable s hr
  refine ⟨fun k => ?_, fun i j k l hi hj => ?_, fun k a hg => ?_, fun k hg => ?_, fun hout => ?_⟩
  · cases hpublished : s.published k with
    | some a => exact (h.published k a hpublished).pairwise
    | none =>
        -- not published: made by the thread that is about to publish it, or never
        rcases h.unpublished k hpublished with ⟨j, a, hj⟩ | hfailed
        · have hfits := h.fits j
          rw [hj] at hfits
          exact hfits.2.pairwise
        · exact hfailed.pairwise
  · exact h.mutex.unique (by rw [hi]; trivial) (by rw [hj]; trivial)
  · have hpublished : s.published k = some a := h.agrees _ hg
    exact ⟨h.published k a hpublished, hpublished⟩
  · exact h.agrees _ hg
  · cases hholder : s.holder with
    | none => rfl
    | some i => exact absurd ((h.mutex i).mpr hholder) (hout i)

end Once
