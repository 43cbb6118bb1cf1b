import SummerRpc.Pool.Capacity

/-! # Capacity and reconnection

What the account of `Slots` is worth to a caller.

* `nextLabel`: a call left alone, with the answers its factory gives;
* `Returns`: the call ends, with an open connection;
* `capacity_kept`: as long as no replacement fails, no key loses a connection, and a
  call with a working factory and a free slot succeeds;
* `failed_replacement`: a replacement that fails takes a connection off an account
  that is exact.
-/

namespace SummerRpc

namespace LRUConnectionPool

variable {κ γ : Type} [PyHash κ]

/-! ## A call left alone -/

/-- The next step of the only call under way. -/
def nextLabel (factory : ℕ → ℕ) (round : ℕ) (s : LRUConnectionPool κ γ) : Option (Label κ) :=
  match s.lock with
  | some k => if 0 < k.left then some (.create k (.ok (factory round))) else some (.register k)
  | none =>
    match s.calls with
    | [] => none
    | .get key wait :: _ => some (.lookup key wait)
    | .choose key wait c :: _ => some (.choose key wait c)
    | .inspect key wait c x :: _ => some (.inspect key wait c x)
    | .replace key wait c :: _ => some (.replace key wait c (.ok (factory round)))
    | .release key x :: _ => some (.release key x)
    | .put key c x :: _ => some (.put key c x)

variable [DecidableEq κ]

/-- Left alone for `b` steps or more, the call ends and returns an open connection. -/
def Returns (P : ContainerClass γ) (size : Option ℕ) (n : ℕ) (factory : ℕ → ℕ) (key : κ)
    (s : LRUConnectionPool κ γ) (b : ℕ) : Prop :=
  ∀ rounds, b ≤ rounds → ∃ s' x, (system P size n).drive (nextLabel factory) rounds s = some s' ∧
    s'.calls = [] ∧ s'.lock = none ∧ s'.results = s.results ++ [(key, .ok x)] ∧ s'.dead x = false

section Returns

variable {P : ContainerClass γ} {size : Option ℕ} {n : ℕ} {valid : γ → Prop} {factory : ℕ → ℕ}
  {key : κ} {s : LRUConnectionPool κ γ}

theorem Returns.mono {a b : ℕ} (h : Returns P size n factory key s a) (hab : a ≤ b) :
    Returns P size n factory key s b :=
  fun rounds hb => h rounds (Nat.le_trans hab hb)

/-- A step that returns nothing. -/
theorem Returns.step {b : ℕ} (h : ∀ i, ∃ l, nextLabel factory i s = some l ∧ guard P l s ∧
      (update P n l s).results = s.results ∧ Returns P size n factory key (update P n l s) b) :
    Returns P size n factory key s (b + 1) := by
  intro rounds hb
  cases rounds with
  | zero => omega
  | succ rounds =>
      rcases h rounds with ⟨l, hl, hg, hresults, hreturns⟩
      rcases hreturns rounds (by omega) with ⟨s', x, hdrive, hcalls, hlock, hres, hdead⟩
      refine ⟨s', x, ?_, hcalls, hlock, ?_, hdead⟩
      · rw [Lts.Spec.drive_step hl hg]
        exact hdrive
      · rw [hres, hresults]

/-- A connection chosen that is open is returned. -/
theorem returns_of_inspect {wait : Wait} {c x : ℕ} (hlock : s.lock = none)
    (hcalls : s.calls = [.inspect key wait c x]) (hopen : s.dead x = false) :
    Returns P size n factory key s 2 := by
  intro rounds hb
  cases rounds with
  | zero => omega
  | succ rounds =>
      cases rounds with
      | zero => omega
      | succ rounds =>
          have hnext : nextLabel factory (rounds + 1) s = some (.inspect key wait c x) := by
            rw [nextLabel, hlock, hcalls]
          have hg : guard P (.inspect key wait c x) s := by
            show _ ∈ s.calls
            rw [hcalls]
            exact List.mem_cons_self
          have hdone : s.doInspect P key wait c x = { s with
              held := (key, x) :: s.held
              results := s.results ++ [(key, Except.ok x)] }.leave (.inspect key wait c x) := by
            rw [doInspect, hopen, if_neg Bool.false_ne_true]
          refine ⟨s.doInspect P key wait c x, x, ?_, ?_, ?_, ?_, ?_⟩
          · rw [Lts.Spec.drive_step hnext hg]
            apply Lts.Spec.drive_stop
            show nextLabel factory rounds (s.doInspect P key wait c x) = none
            rw [hdone]
            simp only [nextLabel, leave, hlock, hcalls, List.erase_cons_head]
          · rw [hdone]
            simp only [leave, hcalls, List.erase_cons_head]
          · rw [hdone]
            exact hlock
          · rw [hdone]
            rfl
          · rw [hdone]
            exact hopen

/-- The connections of a container that are closed. -/
def deadIn (P : ContainerClass γ) (s : LRUConnectionPool κ γ) (c : ℕ) : ℕ :=
  (P.connections (s.containers c)).countP s.dead

/-- One closed connection is chosen, removed and replaced by an open one. -/
theorem countP_replaced (hP : Lawful P valid) {dead : ℕ → Bool} {y y' : γ} {x made : ℕ}
    (hvalid : valid y) (hgot : P.choiceConnectionFromContainer y = .got x y')
    (hx : dead x = true) (hmade : dead made = false) :
    (P.connections (P.addConnectionToContainer (P.removeConnectionFromContainer y' x) made)).countP
      dead + 1 = (P.connections y).countP dead := by
  have hchosen := (hP.choice_got y x y' hvalid hgot).countP_eq dead
  have hremoved := (hP.remove y' x).countP_eq dead
  have hadded := (hP.add (P.removeConnectionFromContainer y' x) made).countP_eq dead
  rw [hadded, List.countP_cons_of_neg (by rw [hmade]; exact Bool.false_ne_true), hremoved, hchosen]
  by_cases hexcl : P.exclusive = true
  · rw [if_pos hexcl, if_pos hexcl, List.countP_cons_of_pos hx]
  · have hmem : x ∈ P.connections y' := by
      have hperm := hP.choice_got y x y' hvalid hgot
      rw [if_neg hexcl] at hperm
      exact hperm.mem_iff.mp (hP.choice_mem y x y' hvalid hgot)
    rw [if_neg hexcl, if_neg hexcl]
    have hcount := (List.perm_cons_erase hmem).countP_eq dead
    rw [List.countP_cons_of_pos hx] at hcount
    exact hcount.symm

theorem Returns.choose {wait : Wait} {c x b : ℕ} {y : γ} (hlock : s.lock = none)
    (hcalls : s.calls = [.choose key wait c])
    (hgot : P.choiceConnectionFromContainer (s.containers c) = .got x y)
    (h : Returns P size n factory key ((s.setContainer c y).goOn (.choose key wait c)
      (.inspect key wait c x)) b) : Returns P size n factory key s (b + 1) := by
  have hchosen : s.doChoose P key wait c =
      (s.setContainer c y).goOn (.choose key wait c) (.inspect key wait c x) := by
    rw [doChoose, hgot]
  apply Returns.step
  intro i
  refine ⟨.choose key wait c, by rw [nextLabel, hlock, hcalls], ?_, ?_, ?_⟩
  · refine ⟨?_, by rw [hgot]; rfl⟩
    rw [hcalls]
    exact List.mem_cons_self
  · show (s.doChoose P key wait c).results = s.results
    rw [hchosen]
    rfl
  · show Returns P size n factory key (s.doChoose P key wait c) b
    rw [hchosen]
    exact h

theorem Returns.remove {wait : Wait} {c x b : ℕ} (hlock : s.lock = none)
    (hcalls : s.calls = [.inspect key wait c x]) (hdead : s.dead x = true)
    (h : Returns P size n factory key
      ((s.setContainer c (P.removeConnectionFromContainer (s.containers c) x)).goOn
        (.inspect key wait c x) (.replace key wait c)) b) :
    Returns P size n factory key s (b + 1) := by
  have hremoved : s.doInspect P key wait c x =
      (s.setContainer c (P.removeConnectionFromContainer (s.containers c) x)).goOn
        (.inspect key wait c x) (.replace key wait c) := by
    rw [doInspect, if_pos hdead]
  apply Returns.step
  intro i
  refine ⟨.inspect key wait c x, by rw [nextLabel, hlock, hcalls], ?_, ?_, ?_⟩
  · show _ ∈ s.calls
    rw [hcalls]
    exact List.mem_cons_self
  · show (s.doInspect P key wait c x).results = s.results
    rw [hremoved]
    rfl
  · show Returns P size n factory key (s.doInspect P key wait c x) b
    rw [hremoved]
    exact h

theorem Returns.replace {wait : Wait} {c b : ℕ} (hlock : s.lock = none)
    (hcalls : s.calls = [.replace key wait c])
    (h : ∀ i, Returns P size n factory key
      ((s.setContainer c (P.addConnectionToContainer (s.containers c) (factory i))).goOn
        (.replace key wait c) (.choose key wait c)) b) :
    Returns P size n factory key s (b + 1) := by
  apply Returns.step
  intro i
  refine ⟨.replace key wait c (.ok (factory i)), by rw [nextLabel, hlock, hcalls], ?_, rfl, h i⟩
  show _ ∈ s.calls
  rw [hcalls]
  exact List.mem_cons_self

/-- A container is put in place and the only call goes on. -/
theorem calls_goOn {call next : Call κ} {c : ℕ} {y : γ} (hcalls : s.calls = [call]) :
    ((s.setContainer c y).goOn call next).calls = [next] := by
  show next :: s.calls.erase call = [next]
  rw [hcalls, List.erase_cons_head]

theorem containers_goOn {call next : Call κ} {c : ℕ} {y : γ} :
    ((s.setContainer c y).goOn call next).containers c = y := by
  show Function.update s.containers c y c = y
  rw [Function.update_self]

/-- Choosing from a container that is not empty: each round that finds a closed
connection replaces it by an open one. -/
theorem returns_of_choose (hP : Lawful P valid) (wait : Wait) {c m : ℕ}
    (hfactory : ∀ i, s.dead (factory i) = false) (hlock : s.lock = none)
    (hcalls : s.calls = [.choose key wait c]) (hvalid : valid (s.containers c))
    (hne : P.connections (s.containers c) ≠ []) (hm : deadIn P s c = m) :
    Returns P size n factory key s (3 * m + 3) := by
  induction m generalizing s with
  | zero =>
      rcases hP.choice_some _ hvalid hne with ⟨x, y, hgot⟩
      have hopen : s.dead x = false := by
        have hnone := List.countP_eq_zero.mp hm x (hP.choice_mem _ x y hvalid hgot)
        rwa [Bool.not_eq_true] at hnone
      refine Returns.choose hlock hcalls hgot ?_
      exact returns_of_inspect hlock (calls_goOn hcalls) hopen
  | succ m ih =>
      rcases hP.choice_some _ hvalid hne with ⟨x, y, hgot⟩
      cases hx : s.dead x with
      | false =>
          have hreturns : Returns P size n factory key s 3 :=
            Returns.choose hlock hcalls hgot
              (returns_of_inspect hlock (calls_goOn hcalls) hx)
          exact hreturns.mono (by omega)
      | true =>
          refine Returns.choose (b := 3 * m + 5) hlock hcalls hgot ?_
          refine Returns.remove (b := 3 * m + 4) hlock (calls_goOn hcalls) hx ?_
          refine Returns.replace (b := 3 * m + 3) hlock (calls_goOn (calls_goOn hcalls)) ?_
          intro i
          rw [containers_goOn, containers_goOn]
          have hcount := countP_replaced hP hvalid hgot hx (hfactory i)
          -- one closed connection fewer, and what was put in is there
          refine ih hfactory hlock (calls_goOn (calls_goOn (calls_goOn hcalls))) ?_ ?_ ?_
          · rw [containers_goOn]
            exact hP.valid_add _ _ (hP.valid_remove _ _ (hP.valid_choice _ _ _ hvalid hgot))
          · -- the new connection is in the container
            rw [containers_goOn]
            intro hnil
            have hperm := hP.add (P.removeConnectionFromContainer y x) (factory i)
            rw [hnil] at hperm
            exact List.cons_ne_nil _ _ hperm.nil_eq.symm
          · rw [deadIn, containers_goOn]
            show List.countP s.dead _ = m
            rw [deadIn] at hm
            omega

/-- Filling a container, and then choosing from it. -/
theorem returns_of_create (hP : Lawful P valid) (wait : Wait) {c left : ℕ}
    (hfactory : ∀ i, s.dead (factory i) = false)
    (hlock : s.lock = some ⟨key, wait, c, left⟩) (hcalls : s.calls = [])
    (hvalid : valid (s.containers c)) (hroom : s.pool.willBeKickedOut = none)
    (hsome : 0 < (P.connections (s.containers c)).length + left) :
    Returns P size n factory key s (left + (3 * deadIn P s c + 4)) := by
  induction left generalizing s with
  | zero =>
      have hregister := doRegister_of_room P ⟨key, wait, c, 0⟩ hroom
      rw [Nat.zero_add]
      apply Returns.step (b := 3 * deadIn P s c + 3)
      intro i
      refine ⟨.register ⟨key, wait, c, 0⟩, by rw [nextLabel, hlock]; rfl, ⟨hlock, rfl⟩, ?_, ?_⟩
      · show (s.doRegister P ⟨key, wait, c, 0⟩).results = s.results
        rw [hregister]
      · show Returns P size n factory key (s.doRegister P ⟨key, wait, c, 0⟩) _
        rw [hregister]
        refine returns_of_choose (c := c) hP wait hfactory rfl ?_ hvalid ?_ rfl
        · show _ :: s.calls = _
          rw [hcalls]
        · exact List.ne_nil_of_length_pos hsome
  | succ left ih =>
      -- the factory makes open connections, so none more has to be replaced
      apply Returns.mono (a := left + (3 * deadIn P s c + 4) + 1)
      · apply Returns.step
        intro i
        refine ⟨.create ⟨key, wait, c, left + 1⟩ (.ok (factory i)), by rw [nextLabel, hlock]; rfl,
          ⟨hlock, Nat.succ_pos left⟩, rfl, ?_⟩
        have hcontainer : (s.doCreate P ⟨key, wait, c, left + 1⟩ (.ok (factory i))).containers c =
            P.addConnectionToContainer (s.containers c) (factory i) :=
          Function.update_self c _ s.containers
        have hadded := hP.add (s.containers c) (factory i)
        have hdead : deadIn P (s.doCreate P ⟨key, wait, c, left + 1⟩ (.ok (factory i))) c =
            deadIn P s c := by
          rw [deadIn, hcontainer]
          show List.countP s.dead _ = _
          rw [hadded.countP_eq, List.countP_cons_of_neg (by rw [hfactory i]; exact Bool.false_ne_true)]
          rfl
        rw [← hdead]
        show Returns P size n factory key
          (s.doCreate P ⟨key, wait, c, left + 1⟩ (.ok (factory i))) _
        refine ih hfactory rfl hcalls ?_ hroom ?_
        · rw [hcontainer]
          exact hP.valid_add _ _ hvalid
        · rw [hcontainer, hadded.length_eq]
          simp only [List.length_cons]
          omega
      · omega

theorem Returns.lookup {wait : Wait} {b : ℕ} (hlock : s.lock = none)
    (hcalls : s.calls = [.get key wait])
    (hresults : (s.doLookup P n key wait).results = s.results)
    (h : Returns P size n factory key (s.doLookup P n key wait) b) :
    Returns P size n factory key s (b + 1) := by
  apply Returns.step
  intro i
  refine ⟨.lookup key wait, by rw [nextLabel, hlock, hcalls], ⟨?_, hlock⟩, hresults, h⟩
  rw [hcalls]
  exact List.mem_cons_self

/-- The call of a key that is in the pool, with a connection in its container. -/
theorem returns_of_known (hP : Lawful P valid) (h : Slots P n valid s) {wait : Wait} {c : ℕ}
    {pool : LRUCache κ ℕ} (hfactory : ∀ i, s.dead (factory i) = false) (hlock : s.lock = none)
    (hcalls : s.calls = [.get key wait]) (hget : s.pool.getItem key = some (c, pool))
    (hne : P.connections (s.containers c) ≠ []) :
    Returns P size n factory key s (3 * deadIn P s c + 4) := by
  have hlookup := doLookup_some P n wait h.isOpen hget
  refine Returns.lookup hlock hcalls (by rw [hlookup]; rfl) ?_
  rw [hlookup]
  refine returns_of_choose (c := c) hP wait hfactory hlock ?_ (h.valid c) hne rfl
  show _ :: s.calls.erase (.get key wait) = _
  rw [hcalls, List.erase_cons_head]

/-- The call of a key that is not in the pool, when the pool has room. -/
theorem returns_of_unknown (hP : Lawful P valid) (h : Slots P n valid s) {wait : Wait}
    (hfactory : ∀ i, s.dead (factory i) = false) (hlock : s.lock = none)
    (hcalls : s.calls = [.get key wait]) (hget : s.pool.getItem key = none)
    (hroom : s.pool.willBeKickedOut = none) (hn : 0 < n) :
    Returns P size n factory key s (n + 5) := by
  have hlookup := doLookup_none P n wait h.isOpen hget
  refine Returns.lookup hlock hcalls (by rw [hlookup]; rfl) ?_
  have hcontainer : (s.doLookup P n key wait).containers s.containerCount =
      P.getConnectionContainer := by
    rw [hlookup]
    show Function.update s.containers s.containerCount _ s.containerCount = _
    rw [Function.update_self]
  have hdead : deadIn P (s.doLookup P n key wait) s.containerCount = 0 := by
    rw [deadIn, hcontainer, hP.get]
    rfl
  have hreturns : Returns P size n factory key (s.doLookup P n key wait)
      (n + (3 * deadIn P (s.doLookup P n key wait) s.containerCount + 4)) := by
    apply returns_of_create hP wait
    · rw [hlookup]
      exact hfactory
    · rw [hlookup]
      rfl
    · rw [hlookup]
      show s.calls.erase (.get key wait) = []
      rw [hcalls, List.erase_cons_head]
    · rw [hcontainer]
      exact hP.valid_get
    · rw [hlookup]
      exact hroom
    · omega
  rw [hdead] at hreturns
  exact hreturns

end Returns

/-! ## The capacity of a pool -/

/-- When no call is under way, every key has its connections, and a call of
`get_connection` with a working factory and a free slot returns one. -/
structure CapacityKept (P : ContainerClass γ) (size : Option ℕ) (n : ℕ)
    (s : LRUConnectionPool κ γ) : Prop where
  enough : ∀ e ∈ s.pool.entries, n ≤ capacity P s e
  succeeds : ∀ key wait factory, (s.pool.contains key = true ∨ s.pool.willBeKickedOut = none) →
    P.weight * heldOf s.held (PyHash.hash key) < n → (∀ i, s.dead (factory i) = false) →
    ∃ b, Returns P size n factory key (update P n (.getStart key wait) s) b

theorem capacityKept_of_slots {P : ContainerClass γ} {valid : γ → Prop} {size : Option ℕ} {n : ℕ}
    {s : LRUConnectionPool κ γ} (hP : Lawful P valid) (h : Slots P n valid s) (hcalls : s.calls = [])
    (hlock : s.lock = none) : CapacityKept P size n s := by
  have henough : ∀ e ∈ s.pool.entries, n ≤ capacity P s e := by
    intro e he
    have hn := h.enough e he
    rw [hcalls] at hn
    exact hn
  refine ⟨henough, ?_⟩
  intro key wait factory hkey hfree hfactory
  have hslots : Slots P n valid (update P n (.getStart key wait) s) :=
    slots_step hP trivial rfl rfl h
  have hstart : (update P n (.getStart key wait) s).calls = [.get key wait] := by
    show _ :: s.calls = _
    rw [hcalls]
  cases hget : s.pool.getItem key with
  | some found =>
      -- not all connections of the key are out
      rcases LRUCache.getItem_some (c := s.pool) (v := found.1) (d := found.2) hget with
        ⟨e, he, hhash, hvalue, _⟩
      have hpos : 0 < (P.connections (s.containers found.1)).length := by
        have hn := henough e he
        rw [capacity, hhash, hvalue] at hn
        omega
      exact ⟨_, returns_of_known hP hslots hfactory hlock hstart hget
        (List.ne_nil_of_length_pos hpos)⟩
  | none =>
      have hroom : s.pool.willBeKickedOut = none := by
        rcases hkey with hkey | hkey
        · rw [LRUCache.getItem_none hget] at hkey
          cases hkey
        · exact hkey
      exact ⟨_, returns_of_unknown hP hslots hfactory hlock hstart hget hroom
        (Nat.zero_lt_of_lt hfree)⟩

/-- A replacement that fails loses the connection of which the call had removed the
closed predecessor: when the key had no more connections than it is entitled to, it
has too few afterwards. -/
theorem failed_replacement {P : ContainerClass γ} {n : ℕ} {s : LRUConnectionPool κ γ} {key : κ}
    {wait : Wait} {c : ℕ} (ex : Exc) (hcalls : s.calls = [.replace key wait c]) (e : Entry κ ℕ)
    (hvalue : e.value = c) (hexact : capacity P s e + inHands P e.value s.calls = n) :
    (s.doReplace P key wait c (.error ex)).calls = [] ∧
      capacity P (s.doReplace P key wait c (.error ex)) e < n := by
  constructor
  · show s.calls.erase (.replace key wait c) = []
    rw [hcalls, List.erase_cons_head]
  · have hhand : inHands P e.value s.calls = 1 := by
      rw [hcalls, hvalue]
      simp [inHands, Call.inHand]
    rw [hhand] at hexact
    show capacity P s e < n
    omega

/-- In every run of a dedicated or of a shared pool in which the factory does not
fail when it replaces a closed connection, no key loses capacity. -/
theorem capacity_kept (size : Option ℕ) (n : ℕ) :
    (∀ s : LRUConnectionPool κ (List ℕ), (replacing dedicate size n).Reachable s →
      s.calls = [] → s.lock = none → CapacityKept dedicate size n s) ∧
    (∀ s : LRUConnectionPool κ (Iterator ℕ), (replacing shared size n).Reachable s →
      s.calls = [] → s.lock = none → CapacityKept shared size n s) := by
  constructor
  · intro s hr hcalls hlock
    exact capacityKept_of_slots dedicate_lawful (slots_reachable dedicate_lawful size s hr)
      hcalls hlock
  · intro s hr hcalls hlock
    exact capacityKept_of_slots shared_lawful (slots_reachable shared_lawful size s hr)
      hcalls hlock

/-- One call of `get_connection` that fills the container of its key, left with what
it returns. -/
def firstGet (key : ℕ) : List (Label ℕ) :=
  let wait : Wait := ⟨false, none⟩
  [.getStart key wait, .lookup key wait, .create ⟨key, wait, 0, 1⟩ (.ok 10),
    .register ⟨key, wait, 0, 0⟩, .choose key wait 0, .inspect key wait 0 10]

/-- The connection becomes closed, the dedicated pool's after it has been released,
and the next call finds that out. -/
def closedGet (key : ℕ) : List (Label ℕ) :=
  let wait : Wait := ⟨false, none⟩
  [.releaseStart key 10, .release key 10, .put key 0 10, .die 10, .getStart key wait,
    .lookup key wait, .choose key wait 0, .inspect key wait 0 10]

/-- A replacement that succeeds. -/
def goodReplacement (key : ℕ) : List (Label ℕ) :=
  let wait : Wait := ⟨false, none⟩
  firstGet key ++ closedGet key ++ [.replace key wait 0 (.ok 11), .choose key wait 0,
    .inspect key wait 0 11]

/-- A replacement that fails. -/
def badReplacement (key : ℕ) : List (Label ℕ) :=
  let wait : Wait := ⟨false, none⟩
  firstGet key ++ closedGet key ++ [.replace key wait 0 (.error createConnectionError)]

/-- The runs of calls made one at a time in which no key is lost. -/
abbrev sequential (P : ContainerClass γ) (size : Option ℕ) (n : ℕ) :
    Lts.Spec (LRUConnectionPool κ γ) (Label κ) :=
  (system P size n).restrict fun l s => oneAtATime l s && keepsKeys l s

/-- A run of each pool in which a connection becomes closed and is replaced. -/
theorem capacity_kept_goodReplacement :
    let s := (replacing dedicate (some 1) 1).run (goodReplacement 4)
      (new dedicate (some 1) fun _ => false)
    let t := (replacing shared (some 1) 1).run (goodReplacement 4)
      (new shared (some 1) fun _ => false)
    s.results = [(4, .ok 10), (4, .ok 11)] ∧ CapacityKept dedicate (some 1) 1 s ∧
      t.results = [(4, .ok 10), (4, .ok 11)] ∧ CapacityKept shared (some 1) 1 t := by
  refine ⟨by decide, ?_, by decide, ?_⟩
  · exact (capacity_kept (some 1) 1).1 _ (reachable_run _ _ _ _ _)
      (by decide) (by decide)
  · exact (capacity_kept (some 1) 1).2 _ (reachable_run _ _ _ _ _)
      (by decide) (by decide)

/-- A factory that fails once, when it is to replace the connection of a key, leaves
the key without it, in both pools. -/
theorem capacity_lost :
    (¬ ∀ s : LRUConnectionPool ℕ (List ℕ), (sequential dedicate (some 1) 1).Reachable s →
      s.calls = [] → s.lock = none → CapacityKept dedicate (some 1) 1 s) ∧
    (¬ ∀ s : LRUConnectionPool ℕ (Iterator ℕ), (sequential shared (some 1) 1).Reachable s →
      s.calls = [] → s.lock = none → CapacityKept shared (some 1) 1 s) := by
  constructor
  · intro h
    let run := (sequential dedicate (some 1) 1).run (badReplacement 4)
      (new dedicate (some 1) fun _ => false)
    have hkept := h run (reachable_run _ _ _ _ _) (by decide) (by decide)
    exact absurd (hkept.enough ⟨4, 0⟩ (by decide)) (by decide)
  · intro h
    let run := (sequential shared (some 1) 1).run (badReplacement 4)
      (new shared (some 1) fun _ => false)
    have hkept := h run (reachable_run _ _ _ _ _) (by decide) (by decide)
    exact absurd (hkept.enough ⟨4, 0⟩ (by decide)) (by decide)

end LRUConnectionPool

end SummerRpc
