import SummerRpc.Lib.Once

/-! # Closing a socket

`BaseSocket.close` of `helper/socket_util.py`, called by any number of threads, `__del__` among
them.

* `BaseSocket`, `system`: the calls of `close`, statement by statement;
* `closes_once`: they lock twice over `_closed`;
* `closed_once`: so the socket under them is closed once.
-/

namespace SummerRpc

/-- Where a thread is in `close`. -/
inductive ClosePc (ε : Type) where
  | idle
  /-- about to test `self._initialized` -/
  | entering
  /-- about to test `self._closed`, without the lock -/
  | testing
  | waiting
  /-- about to test `self._closed` again, with the lock -/
  | testingAgain
  /-- about to call `self.socket.close()` -/
  | closing
  /-- about to set `self._closed` -/
  | setting
  /-- about to give back the lock -/
  | leaving (result : Except ε Unit)
deriving DecidableEq

/-- A socket, and the threads that close it. -/
structure BaseSocket (ι ε : Type) where
  initialized : Bool
  closed : Bool
  closeLock : Option ι
  pc : ι → ClosePc ε
  /-- history: what `self.socket.close()` has returned or raised -/
  closes : List (Except ε Unit)
  /-- history: what `close` has returned or raised -/
  ended : List (Except ε Unit)

namespace BaseSocket

variable {ι ε : Type}

/-- The steps of a thread. -/
inductive Label (ι ε : Type) where
  | call (i : ι)
  | enter (i : ι)
  | test (i : ι)
  | acquire (i : ι)
  | testAgain (i : ι)
  | closeSocket (i : ι) (result : Except ε Unit)
  | setClosed (i : ι)
  | release (i : ι) (result : Except ε Unit)

/-- When a step may happen. -/
def guard (l : Label ι ε) (s : BaseSocket ι ε) : Prop :=
  match l with
  | .call i => s.pc i = .idle
  | .enter i => s.pc i = .entering
  | .test i => s.pc i = .testing
  | .acquire i => s.pc i = .waiting ∧ s.closeLock = none
  | .testAgain i => s.pc i = .testingAgain
  | .closeSocket i _ => s.pc i = .closing
  | .setClosed i => s.pc i = .setting
  | .release i result => s.pc i = .leaving result

instance [DecidableEq ι] [DecidableEq ε] (l : Label ι ε) (s : BaseSocket ι ε) :
    Decidable (guard l s) := by
  cases l <;> (simp only [guard]; infer_instance)

/-- `except IOError: pass` -/
def swallow (isIOError : ε → Bool) : Except ε Unit → Except ε Unit
  | .ok _ => .ok ()
  | .error e => if isIOError e then .ok () else .error e

/-- Where a thread is after `self.socket.close()`. -/
def afterClose (isIOError : ε → Bool) (result : Except ε Unit) : ClosePc ε :=
  match swallow isIOError result with
  | .ok _ => .setting
  | .error e => .leaving (.error e)

variable [DecidableEq ι]

/-- Thread `i` goes on. -/
def goTo (s : BaseSocket ι ε) (i : ι) (p : ClosePc ε) : BaseSocket ι ε :=
  { s with pc := Function.update s.pc i p }

/-- A call of thread `i` ends. -/
def finish (s : BaseSocket ι ε) (i : ι) (result : Except ε Unit) : BaseSocket ι ε :=
  { s.goTo i .idle with ended := s.ended ++ [result] }

/-- The state a step leads to. -/
def update (isIOError : ε → Bool) (l : Label ι ε) (s : BaseSocket ι ε) : BaseSocket ι ε :=
  match l with
  | .call i => s.goTo i .entering
  | .enter i => if s.initialized then s.goTo i .testing else s.finish i (.ok ())
  | .test i => if s.closed then s.finish i (.ok ()) else s.goTo i .waiting
  | .acquire i => { s.goTo i .testingAgain with closeLock := some i }
  | .testAgain i => s.goTo i (if s.closed then .leaving (.ok ()) else .closing)
  | .closeSocket i result =>
      { s.goTo i (afterClose isIOError result) with closes := s.closes ++ [result] }
  | .setClosed i => { s.goTo i (.leaving (.ok ())) with closed := true }
  | .release i result => { s.finish i result with closeLock := none }

/-- A socket after `__init__`, which has raised or not. -/
def system (isIOError : ε → Bool) : Lts.Spec (BaseSocket ι ε) (Label ι ε) where
  init := fun s => s.closed = false ∧ s.closeLock = none ∧ (∀ i, s.pc i = .idle) ∧
    s.closes = [] ∧ s.ended = []
  guard := guard
  update := update isIOError

/-! ## Closing is done once -/

/-- What a thread is about to do, as one that asks for the value of `_closed`. -/
def asks : ClosePc ε → Once.Pc Unit Unit ε
  | .idle | .entering => .idle
  | .testing => .looking ()
  | .waiting => .waiting ()
  | .testingAgain => .lookingAgain ()
  | .closing => .making ()
  | .setting => .storing () ()
  | .leaving (.ok _) => .leaving () (.value ())
  | .leaving (.error e) => .leaving () (.raised e)

/-- What a call of `close` has got. -/
def got : Except ε Unit → Unit × Once.Given Unit ε
  | .ok _ => ((), .value ())
  | .error e => ((), .raised e)

/-- The socket as one value that is made once. -/
def asking (isIOError : ε → Bool) (s : BaseSocket ι ε) : Once.State ι Unit Unit ε where
  published := fun _ => if s.closed then some () else none
  holder := s.closeLock
  pc := fun i => asks (s.pc i)
  tried := fun _ => s.closes.map (swallow isIOError)
  given := s.ended.map got

/-- The runs of a socket that has been initialized. -/
def initializedRuns (isIOError : ε → Bool) : Lts.Spec (BaseSocket ι ε) (Label ι ε) :=
  (system isIOError).restrict fun _ s => s.initialized = true

variable {isIOError : ε → Bool} {s : BaseSocket ι ε} {i : ι}

theorem asks_update (s : BaseSocket ι ε) (i : ι) (p : ClosePc ε) :
    (fun j => asks (Function.update s.pc i p j)) =
      Function.update (fun j => asks (s.pc j)) i (asks p) :=
  Function.comp_update asks s.pc i p

theorem asking_goTo (s : BaseSocket ι ε) (i : ι) (p : ClosePc ε) :
    asking isIOError (s.goTo i p) = (asking isIOError s).goTo i (asks p) := by
  unfold asking goTo Once.State.goTo
  simp only [asks_update]

/-- A step that is one of a thread that asks. -/
theorem asking_step {l : Once.Label ι Unit Unit ε} {t : BaseSocket ι ε}
    (hg : Once.guard l (asking isIOError s))
    (heq : asking isIOError t = Once.update l (asking isIOError s)) :
    (Once.system.startingAt (asking isIOError s)).Reachable (asking isIOError t) := by
  rw [heq]
  exact Lts.Spec.reachable_update (S := Once.system) hg

omit [DecidableEq ι] in
/-- Where the thread is about to do something, it asks. -/
theorem asks_of (s : BaseSocket ι ε) {p : ClosePc ε} (hi : s.pc i = p) :
    (asking isIOError s).pc i = asks p :=
  congrArg asks hi

theorem goTo_goTo (t : Once.State ι Unit Unit ε) (i : ι) (p q : Once.Pc Unit Unit ε) :
    (t.goTo i p).goTo i q = t.goTo i q := by
  unfold Once.State.goTo
  simp only [Function.update_idem]

omit [DecidableEq ι] in
/-- Who sees that the socket is closed sees the value. -/
theorem sees_iff : ((asking isIOError s).published ()).isSome = true ↔ s.closed = true := by
  show (if s.closed then some () else none).isSome = true ↔ _
  cases s.closed <;> simp

omit [DecidableEq ι] in
theorem readValue_asking (hclosed : s.closed = true) :
    Once.readValue (ε := ε) (asking isIOError s).published () = .value () := by
  unfold Once.readValue
  rw [show (asking isIOError s).published () = some () from if_pos hclosed]

theorem asking_finish (s : BaseSocket ι ε) (i : ι) (result : Except ε Unit) :
    asking isIOError (s.finish i result) =
      { (asking isIOError s).goTo i .idle with
        given := (asking isIOError s).given ++ [got result] } := by
  have hgo : asking isIOError (s.goTo i .idle) = (asking isIOError s).goTo i .idle :=
    asking_goTo s i .idle
  unfold asking goTo at hgo
  unfold finish asking goTo
  simp only [List.map_append, List.map_singleton]
  exact congrArg (fun t : Once.State ι Unit Unit ε =>
    { t with given := s.ended.map got ++ [got result] }) hgo

/-- A step of `close` is made by steps of a thread that asks. -/
def Simulated (isIOError : ε → Bool) (l : Label ι ε) (s : BaseSocket ι ε) : Prop :=
  (Once.system.startingAt (asking isIOError s)).Reachable
    (asking isIOError (update isIOError l s))

/-- The test of `_initialized` comes before anything is asked. -/
theorem simulated_call (hi : s.pc i = .idle) : Simulated isIOError (.call i) s := by
  have hsame : asking isIOError (s.goTo i .entering) = asking isIOError s := by
    rw [asking_goTo]
    show Once.State.goTo _ i .idle = _
    unfold Once.State.goTo
    rw [show Once.Pc.idle = (asking isIOError s).pc i from (asks_of s hi).symm,
      Function.update_eq_self]
  show Lts.Spec.Reachable _ (asking isIOError (s.goTo i .entering))
  rw [hsame]
  exact Once.system.reachable_self _

theorem simulated_enter (hi : s.pc i = .entering) (hinit : s.initialized = true) :
    Simulated isIOError (.enter i) s := by
  refine asking_step (l := .ask i ()) (asks_of s hi) ?_
  show asking isIOError (if _ then _ else _) = _
  rw [if_pos hinit, asking_goTo]
  rfl

/-- A thread that finds the socket closed, without the lock, is given the value it sees. -/
theorem simulated_test (hi : s.pc i = .testing) : Simulated isIOError (.test i) s := by
  have hpc : (asking isIOError s).pc i = .looking () := asks_of s hi
  show Lts.Spec.Reachable _ (asking isIOError (if _ then _ else _))
  by_cases hclosed : s.closed = true
  · rw [if_pos hclosed]
    have hlook : Once.update (.look i ()) (asking isIOError s) =
        (asking isIOError s).goTo i (.seen ()) :=
      congrArg ((asking isIOError s).goTo i) (if_pos (sees_iff.mpr hclosed))
    have hread : asking isIOError (s.finish i (.ok ())) =
        Once.update (.read i ()) ((asking isIOError s).goTo i (.seen ())) := by
      show _ = { ((asking isIOError s).goTo i (.seen ())).goTo i .idle with
        given := (asking isIOError s).given ++
          [((), Once.readValue (asking isIOError s).published ())] }
      rw [asking_finish, goTo_goTo, readValue_asking hclosed]
      rfl
    rw [hread]
    refine Lts.Spec.Reachable.step (S := Once.system.startingAt _) (.read i ()) ?_
      (Function.update_self ..)
    rw [← hlook]
    exact Lts.Spec.reachable_update (S := Once.system) (l := .look i ()) hpc
  -- it goes to wait for the lock
  · rw [if_neg hclosed]
    refine asking_step (l := .look i ()) hpc ?_
    rw [asking_goTo]
    exact congrArg ((asking isIOError s).goTo i) (if_neg (sees_iff.not.mpr hclosed)).symm

theorem simulated_acquire (hi : s.pc i = .waiting) (hfree : s.closeLock = none) :
    Simulated isIOError (.acquire i) s := by
  refine asking_step (l := .acquire i ()) ⟨asks_of s hi, hfree⟩ ?_
  exact congrArg (fun t : Once.State ι Unit Unit ε => { t with holder := some i })
    (asking_goTo s i .testingAgain)

theorem simulated_testAgain (hi : s.pc i = .testingAgain) :
    Simulated isIOError (.testAgain i) s := by
  have hpc : (asking isIOError s).pc i = .lookingAgain () := asks_of s hi
  show Lts.Spec.Reachable _ (asking isIOError (s.goTo i (if _ then _ else _)))
  rw [asking_goTo]
  by_cases hclosed : s.closed = true
  · rw [if_pos hclosed]
    -- another thread has closed it meanwhile, and there is nothing to do
    have hlook : Once.update (.lookAgain i ()) (asking isIOError s) =
        (asking isIOError s).goTo i (.seenAgain ()) :=
      congrArg ((asking isIOError s).goTo i) (if_pos (sees_iff.mpr hclosed))
    have hread : (asking isIOError s).goTo i (.leaving () (.value ())) =
        Once.update (.readAgain i ()) ((asking isIOError s).goTo i (.seenAgain ())) := by
      show _ = ((asking isIOError s).goTo i (.seenAgain ())).goTo i
        (.leaving () (Once.readValue (asking isIOError s).published ()))
      rw [goTo_goTo, readValue_asking hclosed]
    show Lts.Spec.Reachable _ ((asking isIOError s).goTo i (.leaving () (.value ())))
    rw [hread]
    refine Lts.Spec.Reachable.step (S := Once.system.startingAt _) (.readAgain i ()) ?_
      (Function.update_self ..)
    rw [← hlook]
    exact Lts.Spec.reachable_update (S := Once.system) (l := .lookAgain i ()) hpc
  · rw [if_neg hclosed]
    have hlook : Once.update (.lookAgain i ()) (asking isIOError s) =
        (asking isIOError s).goTo i (asks .closing) :=
      congrArg ((asking isIOError s).goTo i) (if_neg (sees_iff.not.mpr hclosed))
    rw [← hlook]
    exact Lts.Spec.reachable_update (S := Once.system) (l := .lookAgain i ()) hpc

/-- An `IOError` counts as closed, and the exceptions that are raised are failed tries. -/
theorem simulated_closeSocket (hi : s.pc i = .closing) (result : Except ε Unit) :
    Simulated isIOError (.closeSocket i result) s := by
  refine asking_step (l := .make i () (swallow isIOError result)) (asks_of s hi) ?_
  show { asking isIOError (s.goTo i (afterClose isIOError result)) with
    tried := fun _ => (s.closes ++ [result]).map (swallow isIOError) } = _
  have hafter : asks (afterClose isIOError result) =
      Once.afterMake () (swallow isIOError result) := by
    unfold afterClose
    cases swallow isIOError result <;> rfl
  have htried : (fun _ : Unit => (s.closes ++ [result]).map (swallow isIOError)) =
      Function.update (asking isIOError s).tried ()
        ((asking isIOError s).tried () ++ [swallow isIOError result]) := by
    funext _
    rw [Function.update_self, List.map_append]
    rfl
  rw [asking_goTo, hafter, htried]
  rfl

theorem simulated_setClosed (hi : s.pc i = .setting) : Simulated isIOError (.setClosed i) s := by
  refine asking_step (l := .store i () ()) (asks_of s hi) ?_
  show { asking isIOError (s.goTo i (.leaving (.ok ()))) with
    published := fun _ => some () } = _
  have hpublished : (fun _ : Unit => some ()) =
      Function.update (asking isIOError s).published () (some ()) := by
    funext _
    rw [Function.update_self]
  rw [asking_goTo, hpublished]
  rfl

theorem simulated_release {result : Except ε Unit} (hi : s.pc i = .leaving result) :
    Simulated isIOError (.release i result) s := by
  refine asking_step (l := .release i () (got result).2) ?_ ?_
  · have hpc : (asking isIOError s).pc i = asks (.leaving result) := asks_of s hi
    cases result with
    | ok u => exact hpc
    | error e => exact hpc
  · show { asking isIOError (s.finish i result) with holder := none } = _
    rw [asking_finish]
    cases result <;> rfl

/-- The threads that close an initialized socket ask for one value, which is made by
`self.socket.close()`. -/
theorem closes_once :
    Lts.Spec.Simulation (initializedRuns (ι := ι) isIOError) Once.system (asking isIOError) where
  init := by
    rintro s ⟨hclosed, hlock, hpc, hcloses, hended⟩
    refine ⟨fun _ => ?_, hlock, fun i => ?_, fun _ => ?_, ?_⟩
    · exact if_neg (by rw [hclosed]; exact Bool.false_ne_true)
    · exact congrArg asks (hpc i)
    · exact congrArg _ hcloses
    · exact congrArg _ hended
  step := by
    rintro l s - ⟨hg, hinit⟩
    cases l with
    | call i => exact simulated_call hg
    | enter i => exact simulated_enter hg hinit
    | test i => exact simulated_test hg
    | acquire i => exact simulated_acquire hg.1 hg.2
    | testAgain i => exact simulated_testAgain hg
    | closeSocket i result => exact simulated_closeSocket hg result
    | setClosed i => exact simulated_setClosed hg
    | release i result => exact simulated_release hg

/-! ## Closed once -/

/-- What `self.socket.close()` has done at most once. -/
def Closes (isIOError : ε → Bool) (result : Except ε Unit) : Prop :=
  swallow isIOError result = .ok ()

/-- The socket under a `BaseSocket` is closed once, whichever threads call `close`. -/
structure ClosedOnce (isIOError : ε → Bool) (s : BaseSocket ι ε) : Prop where
  /-- it is called again only where it has raised another exception than `IOError` -/
  once : s.closes.Pairwise fun result _ => ¬ Closes isIOError result
  /-- no two threads are closing it -/
  one_closer : ∀ i j, s.pc i = .closing → s.pc j = .closing → i = j
  /-- where it is said to be closed it is, and the last call has done it -/
  closed : s.closed = true → ∃ result ∈ s.closes.getLast?, Closes isIOError result
  /-- a call of `close` that has returned has found it closed, or closed it -/
  returned : s.initialized = true → .ok () ∈ s.ended → s.closed = true
  /-- a socket whose `__init__` has raised is left alone -/
  uninitialized : s.initialized = false → s.closes = [] ∧ ∀ result ∈ s.ended, result = .ok ()

theorem update_initialized (l : Label ι ε) (s : BaseSocket ι ε) :
    (update isIOError l s).initialized = s.initialized := by
  cases l with
  | enter i => unfold update; simp only; split <;> rfl
  | test i => unfold update; simp only; split <;> rfl
  | _ => rfl

/-- A run of an initialized socket. -/
theorem reachable_initialized (hr : (system isIOError).Reachable s) (hinit : s.initialized = true) :
    (initializedRuns isIOError).Reachable s := by
  induction hr with
  | init h => exact Lts.Spec.Reachable.init h
  | step l _ hg ih =>
      -- whether it is initialized is never changed
      have hbefore := (update_initialized l _).symm.trans hinit
      exact Lts.Spec.Reachable.step (S := initializedRuns isIOError) l (ih hbefore) ⟨hg, hbefore⟩

/-- No call gets past the first test. -/
structure LeftAlone (s : BaseSocket ι ε) : Prop where
  outside : ∀ i, s.pc i = .idle ∨ s.pc i = .entering
  open_ : s.closed = false
  closes : s.closes = []
  ended : ∀ result ∈ s.ended, result = .ok ()

theorem leftAlone_reachable : ∀ s, (system (ι := ι) isIOError).Reachable s →
    s.initialized = false → LeftAlone s := by
  apply Lts.Spec.invariant
  · rintro s ⟨hclosed, _, hpc, hcloses, hended⟩ _
    refine ⟨fun i => Or.inl (hpc i), hclosed, hcloses, fun result hresult => ?_⟩
    rw [hended] at hresult
    exact absurd hresult List.not_mem_nil
  · intro l s hg h hinit
    have hbefore := (update_initialized l s).symm.trans hinit
    have hleft := h hbefore
    -- a thread that is past the first test
    have hnot : ∀ i p, s.pc i = p → p ≠ .idle → p ≠ .entering → False := by
      rintro i p rfl hidle hentering
      rcases hleft.outside i with hpc | hpc
      · exact hidle hpc
      · exact hentering hpc
    have hmove : ∀ i p, (p = .idle ∨ p = .entering) → ∀ j,
        Function.update s.pc i p j = .idle ∨ Function.update s.pc i p j = .entering := by
      intro i p hp j
      by_cases hj : j = i
      · rw [hj, Function.update_self]
        exact hp
      · rw [Function.update_of_ne hj]
        exact hleft.outside j
    cases l with
    | call i =>
        exact ⟨hmove i .entering (Or.inr rfl), hleft.open_, hleft.closes, hleft.ended⟩
    | enter i =>
        -- the call returns at once
        show LeftAlone (if _ then _ else _)
        rw [if_neg (by rw [hbefore]; exact Bool.false_ne_true)]
        refine ⟨hmove i .idle (Or.inl rfl), hleft.open_, hleft.closes, ?_⟩
        exact List.forall_mem_append.mpr ⟨hleft.ended, List.forall_mem_singleton.mpr rfl⟩
    | acquire i => exact (hnot i _ hg.1 (by rintro ⟨⟩) (by rintro ⟨⟩)).elim
    | test i | testAgain i | closeSocket i result | setClosed i | release i result =>
        exact (hnot i _ hg (by rintro ⟨⟩) (by rintro ⟨⟩)).elim

/-- Whatever threads call `close` at once, and whatever `self.socket.close()` raises. -/
theorem closed_once (hr : (system isIOError).Reachable s) : ClosedOnce isIOError s := by
  cases hinit : s.initialized with
  | false =>
      have hleft := leftAlone_reachable s hr hinit
      refine ⟨?_, fun i j hi _ => ?_, fun hclosed => ?_, fun h => ?_, fun _ => ?_⟩
      · rw [hleft.closes]
        exact List.Pairwise.nil
      · rcases hleft.outside i with hpc | hpc <;> cases hi.symm.trans hpc
      · cases hleft.open_.symm.trans hclosed
      · cases hinit.symm.trans h
      · exact ⟨hleft.closes, hleft.ended⟩
  | true =>
      have hasking := closes_once.reachable (reachable_initialized hr hinit)
      have hsound := Once.sound_reachable _ hasking
      have honce := Once.madeOnce_reachable hasking
      refine ⟨?_, fun i j hi hj => ?_, fun hclosed => ?_, fun _ hended => ?_, fun h => ?_⟩
      · refine (List.pairwise_map.mp (honce.once ())).imp ?_
        rintro result _ ⟨e, he⟩ hcloses
        cases he.symm.trans hcloses
      · exact honce.one_maker i j () () (asks_of s hi) (asks_of s hj)
      -- the value published is the last one tried
      · rcases hsound.published () () (if_pos hclosed) with ⟨failed, _, heq⟩
        have hlast := congrArg List.getLast? heq
        rw [List.getLast?_concat] at hlast
        have hlast' : (s.closes.map (swallow isIOError)).getLast? = some (.ok ()) := hlast
        rw [List.getLast?_map, Option.map_eq_some_iff] at hlast'
        exact hlast'
      · have hgiven := hsound.agrees _ (List.mem_map.mpr ⟨_, hended, rfl⟩)
        exact sees_iff.mp (Option.isSome_iff_exists.mpr ⟨(), hgiven⟩)
      · cases hinit.symm.trans h

/-- Two threads close a socket at once. `self.socket.close()` raises, an `IOError` at the
second try. -/
def closedTwice : List (Label ℕ ℕ) :=
  [.call 0, .call 1, .enter 0, .enter 1, .test 0, .test 1, .acquire 0, .testAgain 0,
    .closeSocket 0 (.error 1), .release 0 (.error 1), .acquire 1, .testAgain 1,
    .closeSocket 1 (.error 0), .call 0, .enter 0, .test 0, .setClosed 1, .release 1 (.ok ()),
    .acquire 0, .testAgain 0, .release 0 (.ok ())]

/-- A socket that nobody has closed yet. -/
def justMade : BaseSocket ℕ ℕ := ⟨true, false, none, fun _ => .idle, [], []⟩

theorem closed_once_twice :
    let s := (system (· == 0)).play (fun l s => decide (guard l s)) closedTwice justMade
    s.closes = [.error 1, .error 0] ∧ s.ended = [.error 1, .ok (), .ok ()] ∧
      ClosedOnce (· == 0) s := by
  refine ⟨by decide +kernel, by decide +kernel, closed_once ?_⟩
  have hinit : (system (· == 0)).init justMade := ⟨rfl, rfl, fun _ => rfl, rfl, rfl⟩
  refine (Lts.Spec.Reachable.init hinit).play (fun l s h => ?_) closedTwice
  rw [decide_eq_true_eq] at h
  exact h

end BaseSocket

end SummerRpc
