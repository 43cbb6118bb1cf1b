import SummerRpc.Pool.Numbers

/-! # No container holds too much

The account of a container: the connections in it, those in the hands of calls that
work on it, those with callers that were chosen from it, and those still to be made
for it. It is at most `connections_per_key` as long as nobody puts into a container
what does not belong there.

* `Loan`, `lend`: which container each connection with a caller was chosen from, as a
  record of the run;
* `Room`, `room_step`: the bound on every account, and the two kinds of steps that can
  break it;
* `queues_bounded`: the queues of a dedicated pool;
* `shared_bounded`: the iterators of a shared pool.
-/

namespace SummerRpc

namespace LRUConnectionPool

/-- A connection with a caller, and the container it was chosen from. -/
structure Loan (κ : Type) where
  key : κ
  container : ℕ
  connection : ℕ
deriving DecidableEq, Repr

variable {κ γ : Type} [PyHash κ]

/-! ## The account of a container -/

/-- What a call counts for on the account of the container `c`. -/
def Call.load (P : ContainerClass γ) (c : ℕ) : Call κ → ℕ
  | .inspect _ _ d _ => if d = c then P.weight else 0
  | .replace _ _ d => if d = c then 1 else 0
  | .put _ d _ => if d = c then P.weight else 0
  | _ => 0

/-- The connections still to be made for the container `c`. -/
def filling (lock : Option (Creating κ)) (c : ℕ) : ℕ :=
  match lock with
  | some k => if k.container = c then k.left else 0
  | none => 0

/-- The connections with callers that were chosen from the container `c`. -/
def lent (loans : List (Loan κ)) (c : ℕ) : ℕ := loans.countP fun loan => loan.container = c

/-- The account of the container `c`. -/
def account (P : ContainerClass γ) (s : LRUConnectionPool κ γ) (loans : List (Loan κ)) (c : ℕ) :
    ℕ :=
  (P.connections (s.containers c)).length + total (Call.load P c) s.calls +
    P.weight * lent loans c + filling s.lock c

/-- Nothing is on any account but what there is room for. -/
structure Room (P : ContainerClass γ) (n : ℕ) (valid : γ → Prop) (s : LRUConnectionPool κ γ)
    (loans : List (Loan κ)) : Prop where
  valid : ∀ c, valid (s.containers c)
  numbers : ∀ loan ∈ loans, loan.container < s.containerCount
  room : ∀ c, account P s loans c ≤ n

/-- The record of the loans: a connection returned is lent, and a release ends a loan. -/
def lend [DecidableEq κ] (l : Label κ) (s : LRUConnectionPool κ γ) (loans : List (Loan κ)) :
    List (Loan κ) :=
  match l with
  | .inspect key _ c x => if s.dead x then loans else ⟨key, c, x⟩ :: loans
  | .release key x =>
    if s.closed then loans.eraseP fun loan => loan.key = key ∧ loan.connection = x
    else
      match s.pool.getItem key with
      | some found => loans.erase ⟨key, found.1, x⟩
      | none => loans.eraseP fun loan => loan.key = key ∧ loan.connection = x
  | _ => loans

/-! ## Small facts -/

omit [PyHash κ] in
theorem load_of_none (P : ContainerClass γ) {call : Call κ} (h : call.place = none) (c : ℕ) :
    call.load P c = 0 := by
  cases call with
  | get | release => rfl
  | choose | inspect | replace | put => cases h

omit [PyHash κ] in
/-- A call is on the account of its own container only. -/
theorem load_of_place (P : ContainerClass γ) {call : Call κ} {key : κ} {c d : ℕ}
    (h : call.place = some (key, c)) (hd : d ≠ c) : call.load P d = 0 := by
  have hne : c ≠ d := fun heq => hd heq.symm
  cases call with
  | get | release => cases h
  | choose | inspect | replace | put =>
      cases h
      simp [Call.load, hne]

omit [PyHash κ] in
theorem lent_cons (loan : Loan κ) (loans : List (Loan κ)) (c : ℕ) :
    lent (loan :: loans) c = lent loans c + if loan.container = c then 1 else 0 := by
  simp [lent, List.countP_cons]

omit [PyHash κ] in
/-- A loan that ends comes off the account of its container. -/
theorem lent_erase [DecidableEq κ] {loan : Loan κ} {loans : List (Loan κ)} (h : loan ∈ loans)
    (c : ℕ) : lent loans c =
      lent (loans.erase loan) c + if loan.container = c then 1 else 0 := by
  rw [← lent_cons]
  exact (List.perm_cons_erase h).countP_eq _

omit [PyHash κ] in
theorem lent_sublist {loans loans' : List (Loan κ)} (h : loans'.Sublist loans) (c : ℕ) :
    lent loans' c ≤ lent loans c := h.countP_le

/-! ## One step -/

section Step

variable {P : ContainerClass γ} {n : ℕ} {valid : γ → Prop} {s t : LRUConnectionPool κ γ}
  {loans loans' : List (Loan κ)}

/-- A step that puts nothing on any account. -/
theorem Room.change (h : Room P n valid s loans) (hvalid : ∀ c, valid (t.containers c))
    (hcount : s.containerCount ≤ t.containerCount) (hloans : ∀ loan ∈ loans', loan ∈ loans)
    (haccount : ∀ c, account P t loans' c ≤ account P s loans c) : Room P n valid t loans' where
  valid := hvalid
  numbers := fun loan hloan => Nat.lt_of_lt_of_le (h.numbers loan (hloans loan hloan)) hcount
  room := fun c => Nat.le_trans (haccount c) (h.room c)

/-- A step that may empty containers, and begins or ends calls that are on no account. -/
theorem Room.idle (h : Room P n valid s loans) (hvalid : ∀ c, valid (t.containers c))
    (hcontainers : ∀ c, t.containers c = s.containers c ∨ P.connections (t.containers c) = [])
    (hcount : t.containerCount = s.containerCount) (hloans : loans'.Sublist loans)
    (hcalls : ∀ c, total (Call.load P c) t.calls ≤ total (Call.load P c) s.calls)
    (hlock : ∀ c, filling t.lock c ≤ filling s.lock c) : Room P n valid t loans' := by
  refine h.change hvalid (Nat.le_of_eq hcount.symm) (fun loan hloan => hloans.subset hloan) ?_
  intro c
  have hlength : (P.connections (t.containers c)).length ≤
      (P.connections (s.containers c)).length := by
    rcases hcontainers c with heq | hnil
    · exact Nat.le_of_eq (by rw [heq])
    · rw [hnil]
      exact Nat.zero_le _
  have hlent := Nat.mul_le_mul_left P.weight (lent_sublist hloans c)
  have hcall := hcalls c
  have hfill := hlock c
  unfold account
  omega

variable [DecidableEq κ]

omit [PyHash κ] in
/-- Of a call that is on no account nothing is missed. -/
theorem total_erase_of_none {call : Call κ} {calls : List (Call κ)} (hcall : call ∈ calls)
    (hnone : call.place = none) (c : ℕ) :
    total (Call.load P c) (calls.erase call) = total (Call.load P c) calls := by
  rw [total_erase _ hcall, load_of_none P hnone, Nat.zero_add]

/-- A call that goes on at its place, or leaves, with what it has done to the
container of its place and to the loans. -/
theorem Room.work (h : Room P n valid s loans) {call : Call κ} {key : κ} {c : ℕ} {y : γ}
    (nexts : List (Call κ)) (hcall : call ∈ s.calls) (hplace : call.place = some (key, c))
    (hy : valid y) (hcontainers : t.containers = Function.update s.containers c y)
    (hcount : t.containerCount = s.containerCount) (hlock : t.lock = s.lock)
    (hcalls : t.calls = nexts ++ s.calls.erase call)
    (hnexts : ∀ next ∈ nexts, next.place = some (key, c))
    (hloans : ∀ loan ∈ loans', loan ∈ loans ∨ loan.container = c)
    (hothers : ∀ d, d ≠ c → lent loans' d ≤ lent loans d) (hc : c < s.containerCount)
    (hsame : (P.connections y).length + total (Call.load P c) nexts + P.weight * lent loans' c ≤
      (P.connections (s.containers c)).length + call.load P c + P.weight * lent loans c) :
    Room P n valid t loans' := by
  constructor
  · rw [hcontainers]
    exact valid_update _ hy h.valid
  · intro loan hloan
    rw [hcount]
    rcases hloans loan hloan with hold | heq
    · exact h.numbers loan hold
    · rw [heq]
      exact hc
  · intro d
    refine Nat.le_trans ?_ (h.room d)
    have htotal := total_replace (Call.load P d) hcall hcalls
    unfold account
    rw [hlock, hcontainers]
    by_cases hd : d = c
    · subst hd
      rw [Function.update_self]
      omega
    · -- the accounts of the other containers
      have hnone : total (Call.load P d) nexts = 0 :=
        total_eq_zero _ fun next hnext => load_of_place P (hnexts next hnext) hd
      have hlent := Nat.mul_le_mul_left P.weight (hothers d hd)
      rw [Function.update_of_ne hd]
      omega

theorem room_lookup (hP : Lawful P valid) (hnum : Numbered s) (h : Room P n valid s loans)
    {key : κ} {wait : Wait} (hcall : Call.get key wait ∈ s.calls) :
    Room P n valid (s.doLookup P n key wait) loans := by
  have herase := total_erase_of_none (P := P) hcall rfl
  unfold doLookup
  split
  · exact h.idle h.valid (fun _ => Or.inl rfl) rfl (List.Sublist.refl _)
      (fun c => Nat.le_of_eq (herase c)) (fun _ => Nat.le_refl _)
  · split
    · rename_i c pool hget
      refine h.idle h.valid (fun _ => Or.inl rfl) rfl (List.Sublist.refl _) ?_
        (fun _ => Nat.le_refl _)
      intro d
      show total (Call.load P d) (_ :: s.calls.erase _) ≤ _
      rw [total_cons, herase]
      exact Nat.le_of_eq (Nat.zero_add _)
    · -- a container of a new number is on nobody's account
      constructor
      · exact valid_update _ hP.valid_get h.valid
      · intro loan hloan
        exact Nat.lt_succ_of_lt (h.numbers loan hloan)
      · intro c
        show (P.connections
          (Function.update s.containers s.containerCount P.getConnectionContainer c)).length +
          total (Call.load P c) (s.calls.erase (.get key wait)) + P.weight * lent loans c +
          (if s.containerCount = c then n else 0) ≤ n
        rw [herase]
        by_cases hc : c = s.containerCount
        · have hnobody : total (Call.load P c) s.calls = 0 :=
            hnum.nobody (Nat.le_of_eq hc.symm) (fun _ hnone => load_of_none P hnone c)
              (fun _ _ _ hplace hne => load_of_place P hplace hne)
          have hunlent : lent loans c = 0 := by
            refine List.countP_eq_zero.mpr fun loan hloan => ?_
            have hlt := h.numbers loan hloan
            simp only [decide_eq_true_eq]
            omega
          rw [hnobody, hunlent, hc, Function.update_self, hP.get, if_pos rfl]
          simp
        · have hroom := h.room c
          have hne : s.containerCount ≠ c := fun heq => hc heq.symm
          unfold account at hroom
          rw [Function.update_of_ne hc, if_neg hne]
          omega

omit [DecidableEq κ] in
theorem room_create (hP : Lawful P valid) (h : Room P n valid s loans) {k : Creating κ}
    {made : Except Exc ℕ} (hlock : s.lock = some k) (hleft : 0 < k.left) :
    Room P n valid (s.doCreate P k made) loans := by
  cases made with
  | error ex =>
      exact h.idle h.valid (fun _ => Or.inl rfl) rfl (List.Sublist.refl _)
        (fun _ => Nat.le_refl _) (fun _ => Nat.zero_le _)
  | ok x =>
      refine h.change ?_ (Nat.le_refl _) (fun _ hloan => hloan) ?_
      · exact valid_update _ (hP.valid_add _ x (h.valid _)) h.valid
      · intro c
        show (P.connections (Function.update s.containers k.container _ c)).length +
          total (Call.load P c) s.calls + _ + (if k.container = c then k.left - 1 else 0) ≤
          _ + _ + _ + filling s.lock c
        rw [hlock]
        show _ ≤ _ + _ + _ + (if k.container = c then k.left else 0)
        by_cases hc : c = k.container
        · -- one of those still to be made is in the container now
          rw [hc, Function.update_self, length_add hP, if_pos rfl, if_pos rfl]
          omega
        · have hne : k.container ≠ c := fun heq => hc heq.symm
          simp only [Function.update_of_ne hc, if_neg hne, Nat.le_refl]

omit [DecidableEq κ] in
theorem room_register (hP : Closes P valid) (h : Room P n valid s loans) (k : Creating κ) :
    Room P n valid (s.doRegister P k) loans := by
  have hclosed := closeKickedOut_closed hP s
  refine h.idle (hclosed.valid h.valid) hclosed.connections ?_ (List.Sublist.refl _) ?_
    (fun _ => Nat.zero_le _)
  · show (s.closeKickedOut P).containerCount = _
    rw [hclosed.frame]
    rfl
  · intro c
    show total (Call.load P c) (_ :: s.calls) ≤ _
    rw [total_cons]
    exact Nat.le_of_eq (Nat.zero_add _)

theorem room_choose (hP : Lawful P valid) (hnum : Numbered s) (h : Room P n valid s loans)
    {key : κ} {wait : Wait} {c : ℕ} (hcall : Call.choose key wait c ∈ s.calls) :
    Room P n valid (s.doChoose P key wait c) loans := by
  have hc := hnum.calls _ hcall key c rfl
  unfold doChoose
  split
  · rename_i x y hgot
    have hperm := (hP.choice_got _ x y (h.valid c) hgot).length_eq
    refine h.work [.inspect key wait c x] hcall rfl
      (hP.valid_choice _ x y (h.valid c) hgot) rfl rfl rfl rfl ?_ (fun _ hloan => Or.inl hloan)
      (fun _ _ => Nat.le_refl _) hc ?_
    · exact List.forall_mem_singleton.mpr rfl
    · -- what the container loses is in the hands of the call
      rw [hperm, total_cons, total_nil]
      simp only [Call.load, ContainerClass.weight, if_true]
      split
      · simp only [List.length_cons]
        omega
      · omega
  · exact h
  · refine h.work [] hcall rfl (h.valid c) (Function.update_eq_self c _).symm rfl rfl
      rfl (List.forall_mem_nil _) (fun _ hloan => Or.inl hloan) (fun _ _ => Nat.le_refl _) hc ?_
    exact Nat.le_refl _

theorem room_giveUp (hnum : Numbered s) (h : Room P n valid s loans) {key : κ} {wait : Wait}
    {c : ℕ} (ex : Exc) (hcall : Call.choose key wait c ∈ s.calls) :
    Room P n valid (s.raise (.choose key wait c) key ex) loans := by
  refine h.work [] hcall rfl (h.valid c) (Function.update_eq_self c _).symm rfl rfl
    rfl (List.forall_mem_nil _) (fun _ hloan => Or.inl hloan) (fun _ _ => Nat.le_refl _)
    (hnum.calls _ hcall key c rfl) ?_
  exact Nat.le_refl _

theorem room_inspect (hP : Lawful P valid) (hnum : Numbered s) (h : Room P n valid s loans)
    {key : κ} {wait : Wait} {c x : ℕ} (hcall : Call.inspect key wait c x ∈ s.calls)
    (hin : P.exclusive = false → s.dead x = true → x ∈ P.connections (s.containers c)) :
    Room P n valid (s.doInspect P key wait c x) (lend (.inspect key wait c x) s loans) := by
  have hc := hnum.calls _ hcall key c rfl
  have hlend : lend (.inspect key wait c x) s loans =
      if s.dead x then loans else ⟨key, c, x⟩ :: loans := rfl
  by_cases hdead : s.dead x = true
  · rw [doInspect, if_pos hdead, hlend, if_pos hdead]
    have hperm := (hP.remove (s.containers c) x).length_eq
    refine h.work [.replace key wait c] hcall rfl (hP.valid_remove _ x (h.valid c)) rfl rfl rfl
      rfl ?_ (fun _ hloan => Or.inl hloan) (fun _ _ => Nat.le_refl _) hc ?_
    · exact List.forall_mem_singleton.mpr rfl
    · rw [hperm, total_cons, total_nil]
      simp only [Call.load, ContainerClass.weight, if_true]
      cases hexcl : P.exclusive with
      | true =>
          -- a dedicated container has lost the connection already
          simp only [if_true]
          omega
      | false =>
          have hmem := hin hexcl hdead
          have hpos := List.length_pos_of_mem hmem
          simp only [Bool.false_eq_true, if_false]
          rw [List.length_erase_of_mem hmem]
          omega
  · rw [doInspect, if_neg hdead, hlend, if_neg hdead]
    refine h.work [] hcall rfl (h.valid c) (Function.update_eq_self c _).symm rfl rfl rfl
      (List.forall_mem_nil _) ?_ ?_ hc ?_
    · intro loan hloan
      rcases List.mem_cons.mp hloan with rfl | hold
      · exact Or.inr rfl
      · exact Or.inl hold
    · intro d hd
      have hne : c ≠ d := fun heq => hd heq.symm
      rw [lent_cons, if_neg hne]
      exact Nat.le_refl _
    · rw [lent_cons, if_pos rfl, Nat.mul_succ]
      simp only [Call.load, if_true, total_nil]
      omega

theorem room_replace (hP : Lawful P valid) (hnum : Numbered s) (h : Room P n valid s loans)
    {key : κ} {wait : Wait} {c : ℕ} (made : Except Exc ℕ)
    (hcall : Call.replace key wait c ∈ s.calls) :
    Room P n valid (s.doReplace P key wait c made) loans := by
  have hc := hnum.calls _ hcall key c rfl
  cases made with
  | error ex =>
      refine h.work [] hcall rfl (h.valid c) (Function.update_eq_self c _).symm rfl rfl rfl
        (List.forall_mem_nil _) (fun _ hloan => Or.inl hloan) (fun _ _ => Nat.le_refl _) hc ?_
      simp only [total_nil]
      omega
  | ok x =>
      refine h.work [.choose key wait c] hcall rfl (hP.valid_add _ x (h.valid c)) rfl rfl rfl rfl
        ?_ (fun _ hloan => Or.inl hloan) (fun _ _ => Nat.le_refl _) hc ?_
      · exact List.forall_mem_singleton.mpr rfl
      · rw [length_add hP, total_cons, total_nil]
        simp only [Call.load, if_true]
        omega

/-- A release that finds no entry ends a loan and touches no account. -/
theorem room_drop (h : Room P n valid s loans) {call : Call κ} {held : List (κ × ℕ)}
    {p : Loan κ → Bool} (hcall : call ∈ s.calls) (hnone : call.place = none) :
    Room P n valid ({ s with held := held }.leave call) (loans.eraseP p) :=
  h.idle h.valid (fun _ => Or.inl rfl) rfl List.eraseP_sublist
    (fun c => Nat.le_of_eq (total_erase_of_none hcall hnone c)) (fun _ => Nat.le_refl _)

theorem room_release (h : Room P n valid s loans) {key : κ} {x : ℕ}
    (hcall : Call.release key x ∈ s.calls)
    (hhome : P.exclusive = true → s.closed = false → ∀ found, s.pool.getItem key = some found →
      ⟨key, found.1, x⟩ ∈ loans) :
    Room P n valid (s.doRelease key x) (lend (.release key x) s loans) := by
  unfold doRelease lend
  split
  · exact room_drop h hcall rfl
  · rename_i hclosed
    split
    · rename_i c pool hget
      simp only [hget]
      refine h.change h.valid (Nat.le_refl _) (fun _ hloan => List.mem_of_mem_erase hloan) ?_
      intro d
      show (P.connections (s.containers d)).length +
          total (Call.load P d) (.put key c x :: s.calls.erase (.release key x)) +
          P.weight * lent (loans.erase ⟨key, c, x⟩) d + filling s.lock d ≤
        (P.connections (s.containers d)).length + total (Call.load P d) s.calls +
          P.weight * lent loans d + filling s.lock d
      rw [total_cons, total_erase_of_none hcall rfl]
      simp only [Call.load, ContainerClass.weight]
      cases hexcl : P.exclusive with
      | true =>
          -- what was lent is on its way home
          have hloan := hhome hexcl (by simpa using hclosed) (c, pool) hget
          have hlent := lent_erase hloan d
          simp only [if_true] at hlent ⊢
          omega
      | false =>
          simp only [Bool.false_eq_true, if_false, ite_self]
          omega
    · rename_i hget
      simp only [hget]
      exact room_drop h hcall rfl

theorem room_put (hP : Lawful P valid) (hnum : Numbered s) (h : Room P n valid s loans) {key : κ}
    {c x : ℕ} (hcall : Call.put key c x ∈ s.calls) : Room P n valid (s.doPut P key c x) loans := by
  have hperm := (hP.release (s.containers c) x).length_eq
  refine h.work [] hcall rfl (hP.valid_release _ x (h.valid c)) rfl rfl rfl rfl
    (List.forall_mem_nil _) (fun _ hloan => Or.inl hloan) (fun _ _ => Nat.le_refl _)
    (hnum.calls _ hcall key c rfl) ?_
  rw [hperm]
  simp only [Call.load, ContainerClass.weight, if_true, total_nil]
  split
  · simp only [List.length_cons]
    omega
  · omega

omit [DecidableEq κ] in
theorem room_close (hP : Closes P valid) (h : Room P n valid s loans) :
    Room P n valid (s.doClose P) loans := by
  cases hopen : s.closed with
  | true =>
      rw [doClose_of_closed hopen]
      exact h
  | false =>
      obtain ⟨u, heq, hall⟩ := doClose_closed hP hopen
      rw [heq]
      refine h.idle (hall.valid h.valid) hall.connections ?_ (List.Sublist.refl _) ?_ ?_
      · rw [hall.frame]
        rfl
      · rw [hall.frame]
        exact fun _ => Nat.le_refl _
      · rw [hall.frame]
        exact fun _ => Nat.le_refl _

/-- The two steps that can put too much on an account: a shared connection found closed
that is in the container no more, and a connection released to a container that it was
not chosen from. -/
theorem room_step (hP : Lawful P valid) (hC : Closes P valid) {l : Label κ} (hg : guard P l s)
    (hin : ∀ key wait c x, l = .inspect key wait c x → P.exclusive = false → s.dead x = true →
      x ∈ P.connections (s.containers c))
    (hhome : ∀ key x, l = .release key x → P.exclusive = true → s.closed = false →
      ∀ found, s.pool.getItem key = some found → ⟨key, found.1, x⟩ ∈ loans)
    (hnum : Numbered s) (h : Room P n valid s loans) :
    Room P n valid (update P n l s) (lend l s loans) := by
  -- a call that only begins is on no account
  have hbegin : ∀ call : Call κ, call.place = none →
      Room P n valid { s with calls := call :: s.calls } loans := by
    intro call hplace
    refine h.idle h.valid (fun _ => Or.inl rfl) rfl (List.Sublist.refl _) ?_
      (fun _ => Nat.le_refl _)
    intro c
    show total (Call.load P c) (call :: s.calls) ≤ _
    rw [total_cons, load_of_none P hplace]
    omega
  cases l with
  | getStart key wait => exact hbegin _ rfl
  | lookup key wait => exact room_lookup hP hnum h hg.1
  | create k made => exact room_create hP h hg.1 hg.2
  | register k => exact room_register hC h k
  | choose key wait c => exact room_choose hP hnum h hg.1
  | giveUp key wait c => exact room_giveUp hnum h _ hg.1
  | inspect key wait c x => exact room_inspect hP hnum h hg (hin key wait c x rfl)
  | replace key wait c made => exact room_replace hP hnum h made hg
  | releaseStart key x => exact hbegin _ rfl
  | release key x => exact room_release h hg.1 (hhome key x rfl)
  | put key c x => exact room_put hP hnum h hg
  | close => exact room_close hC h
  | die x => exact h.change h.valid (Nat.le_refl _) (fun _ hloan => hloan) (fun _ => Nat.le_refl _)

omit [DecidableEq κ] in
/-- Nothing is on any account at the start. -/
theorem room_new (hP : Lawful P valid) (size : Option ℕ) (dead : ℕ → Bool) :
    Room P n valid (new P size dead : LRUConnectionPool κ γ) [] where
  valid := fun _ => hP.valid_get
  numbers := nofun
  room := by
    intro c
    show (P.connections P.getConnectionContainer).length + 0 + P.weight * 0 + 0 ≤ n
    rw [hP.get]
    exact Nat.zero_le _

omit [DecidableEq κ] in
/-- The account of a container bounds what is in it. -/
theorem Room.length_le (h : Room P n valid s loans) (c : ℕ) :
    (P.connections (s.containers c)).length ≤ n := by
  have hroom := h.room c
  unfold account at hroom
  omega

end Step

/-! ## The queues of a dedicated pool -/

section Queues

variable [DecidableEq κ]

/-- The container registered for the key of a release is the one the connection was
chosen from, unless the key is not in the pool or the pool is closed. -/
def returnsHome (l : Label κ) (p : LRUConnectionPool κ (List ℕ) × List (Loan κ)) : Bool :=
  match l with
  | .release key x => p.1.closed ||
    match p.1.pool.getItem key with
    | some found => ⟨key, found.1, x⟩ ∈ p.2
    | none => true
  | _ => true

/-- The runs of a dedicated pool in which every connection goes back to the queue it
was taken from. -/
abbrev returning (size : Option ℕ) (n : ℕ) :
    Lts.Spec (LRUConnectionPool κ (List ℕ) × List (Loan κ)) (Label κ) :=
  ((system dedicate size n).withHistory lend []).restrict fun l p => returnsHome l p

theorem room_returning (size : Option ℕ) (n : ℕ) :
    ∀ p : LRUConnectionPool κ (List ℕ) × List (Loan κ), (returning size n).Reachable p →
      Room dedicate n (fun _ => True) p.1 p.2 := by
  apply Lts.Spec.invariant_with (returning size n) (fun p => Numbered p.1)
  · intro p hr
    exact numbered_reachable dedicate_closes size n p.1 hr.of_restrict.of_history
  · rintro ⟨s, loans⟩ ⟨⟨dead, hs⟩, hloans⟩
    cases hs
    cases hloans
    exact room_new dedicate_lawful size dead
  · intro l p hg hnum _ h
    refine room_step dedicate_lawful dedicate_closes hg.1 nofun ?_ hnum h
    rintro key x rfl _ hopen found hget
    simpa [returnsHome, hopen, hget] using hg.2

/-- In every run that meets the condition, whatever keys are kicked out and however the
calls interleave, no queue holds more than `connections_per_key` connections. -/
theorem queue_bounded (size : Option ℕ) (n : ℕ)
    (p : LRUConnectionPool κ (List ℕ) × List (Loan κ)) (hr : (returning size n).Reachable p) :
    ∀ e ∈ p.1.pool.entries, (p.1.containers e.value).length ≤ n :=
  fun e _ => (room_returning size n p hr).length_le e.value

/-- Calls of `get_connection` and `release_connection` made one at a time; each
connection obtained is released at most once. -/
def getAndRelease (l : Label κ) (s : LRUConnectionPool κ γ) : Bool :=
  oneAtATime l s &&
    match l with
    | .releaseStart key x => s.isHeld key x
    | .close => false
    | _ => true

/-- A call of `get_connection` for a new key, up to its return. -/
def getNew (key c x : ℕ) : List (Label ℕ) :=
  let wait : Wait := ⟨true, none⟩
  [.getStart key wait, .lookup key wait, .create ⟨key, wait, c, 1⟩ (.ok x),
    .register ⟨key, wait, c, 0⟩, .choose key wait c, .inspect key wait c x]

/-- A call of `release_connection` that finds the container. -/
def giveBack (key c x : ℕ) : List (Label ℕ) :=
  [.releaseStart key x, .release key x, .put key c x]

theorem queue_bounded_returned :
    let p := (returning (some 1) 1).run (getNew 4 0 10 ++ giveBack 4 0 10)
      (new dedicate (some 1) fun _ => false, [])
    p.1.containers 0 = [10] ∧
      ∀ e ∈ p.1.pool.entries, (p.1.containers e.value).length ≤ 1 :=
  ⟨by decide, queue_bounded (some 1) 1 _ (reachable_history _ _ _ _ _ _ _)⟩

/-- One key at a time fits into the pool. Key 4 is kicked out by key 5 while its
connection is checked out and comes back with another one: both are released to
the queue of the second. -/
theorem queue_overflows :
    ¬ ∀ s : LRUConnectionPool ℕ (List ℕ),
      ((system dedicate (some 1) 1).restrict fun l s => getAndRelease l s).Reachable s →
      ∀ e ∈ s.pool.entries, (s.containers e.value).length ≤ 1 := by
  intro h
  have hboth := h _ (reachable_run dedicate (some 1) 1 _
    (getNew 4 0 10 ++ getNew 5 1 11 ++ getNew 4 2 12 ++ giveBack 4 2 10 ++ giveBack 4 2 12))
  exact absurd (hboth ⟨4, 2⟩ (by decide)) (by decide)

end Queues

end LRUConnectionPool

end SummerRpc
