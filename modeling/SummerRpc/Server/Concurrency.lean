import Mathlib.Data.List.Count
import SummerRpc.Server.Answered

/-! # The concurrency of a connection

`_invoke` counts a request, `_send_response` takes it off the count when it is done, and
`_run` sleeps on `read_condition` while the count is at its limit.

* `started`: the requests `_invoke` counts, kept as a history of the run;
* `Counted`: while the connection is not known to be closed, the counter is what has
  started less what has ended;
* `Controlled`: the counter is right and within its limit, and whoever sleeps has a
  response to wait for.

A request without `_meta` is counted and then raises: no `_send_response` is ever made
for it, so it never ends, and `_run` ends with the exception.
-/

namespace SummerRpc

/-- `_send_response` has finished. -/
def Invocation.ended (inv : Invocation) : Bool :=
  match inv.pc with
  | .finished | .dropped => true
  | _ => false

namespace Runner

variable {cfg : RunnerConfig} {s t : Runner} {n : ℕ}

/-- `_invoke`, up to the counter: the request is invoked. -/
def start (cfg : RunnerConfig) (refused : Option Exc) (request : Request) :
    Except Exc (Option PyVal) := do
  let className ← getattr request.className
  let methodName ← getattr request.methodName
  let args ← getattr request.args
  let kwargs ← getattr request.kwargs
  startMethod cfg refused className methodName args kwargs

/-- The request that the end of a read hands to `_invoke`, if it is one. -/
def requestRead (cfg : RunnerConfig) (s : Runner) : Option Request :=
  match cfg.transport.read s.incoming with
  | .ok (_, buff) _ =>
    match cfg.serializer.loads buff with
    | .ok (.request request) => some request
    | _ => none
  | _ => none

/-- The requests a step invokes. -/
def started (cfg : RunnerConfig) (l : Label) (s : Runner) : ℕ :=
  match l with
  | .readDone refused _ =>
    match requestRead cfg s with
    | some request => if (start cfg refused request).isOk then 1 else 0
    | none => 0
  | _ => 0

/-- How many `_send_response` have finished. -/
def ended (s : Runner) : ℕ := s.invocations.countP Invocation.ended

/-- The connection, with the number of requests invoked so far. -/
def counting (cfg : RunnerConfig) : Lts.Spec (Runner × ℕ) Label :=
  (system cfg).withHistory (fun l s n => n + started cfg l s) 0

/-! ## The counter -/

/-- The counter while the flag is unset, and its limit. -/
structure Counted (cfg : RunnerConfig) (s : Runner) (n : ℕ) : Prop where
  count : s.streamClosed = false → s.currentConcurrency + s.ended = n
  le_limit : s.currentConcurrency ≤ cfg.concurrentRequestPerConnection
  length_le : s.invocations.length ≤ n

/-- The counter and where `_run` is. -/
structure Numbers (cfg : RunnerConfig) (s : Runner) (n : ℕ) : Prop extends Counted cfg s n where
  length : s.pc ≠ .terminated → s.invocations.length = n
  reading : s.pc = .reading → s.currentConcurrency < cfg.concurrentRequestPerConnection
  waiting : s.pc = .waiting → s.streamClosed = false ∧
    cfg.concurrentRequestPerConnection ≤ s.currentConcurrency

/-- A `_run` that has ended asks for nothing. -/
theorem Counted.terminated (h : Counted cfg s n) (hpc : s.pc = .terminated) : Numbers cfg s n where
  toCounted := h
  length := fun hne => absurd hpc hne
  reading := fun heq => by rw [hpc] at heq; cases heq
  waiting := fun heq => by rw [hpc] at heq; cases heq

/-- The loop goes to sleep at the limit and reads below it. -/
theorem Counted.loop (h : Counted cfg s n) (hlen : s.invocations.length = n) (now : ℤ) :
    Numbers cfg (s.loop cfg now) n := by
  unfold Runner.loop
  split
  · exact Counted.terminated ⟨h.count, h.le_limit, h.length_le⟩ rfl
  · rename_i hopen
    split
    · rename_i hfull
      refine ⟨⟨h.count, h.le_limit, h.length_le⟩, fun _ => hlen, fun hpc => (by cases hpc),
        fun _ => ⟨?_, hfull⟩⟩
      rw [Bool.or_eq_true, not_or] at hopen
      exact Bool.not_eq_true _ ▸ hopen.1
    · rename_i hroom
      exact ⟨⟨h.count, h.le_limit, h.length_le⟩, fun _ => hlen, fun _ => Nat.lt_of_not_le hroom,
        fun hpc => (by cases hpc)⟩

/-- The `except` clauses end `_run`. -/
theorem Counted.handle (h : Counted cfg s n) (ex : Exc) (now : ℤ) :
    Numbers cfg (s.handle ex now) n := by
  unfold Runner.handle
  split
  · exact Counted.terminated ⟨h.count, h.le_limit, h.length_le⟩ rfl
  · split
    · exact Counted.terminated ⟨h.count, h.le_limit, h.length_le⟩ rfl
    · split
      · exact Counted.terminated ⟨h.count, h.le_limit, h.length_le⟩ rfl
      · exact Counted.terminated ⟨h.count, h.le_limit, h.length_le⟩ rfl

/-- Waking the reader, if it sleeps. -/
theorem Numbers.notifyAll (h : Counted cfg s n)
    (hlen : s.pc ≠ .terminated → s.invocations.length = n)
    (hreading : s.pc = .reading → s.currentConcurrency < cfg.concurrentRequestPerConnection) :
    Numbers cfg s.notifyAll n := by
  unfold Runner.notifyAll
  split
  · rename_i hpc
    refine ⟨⟨h.count, h.le_limit, h.length_le⟩, fun _ => hlen ?_, fun heq => (by cases heq),
      fun heq => (by cases heq)⟩
    rw [hpc]
    intro heq
    cases heq
  · rename_i hpc
    exact ⟨h, hlen, hreading, fun heq => absurd heq hpc⟩

/-! ## One step -/

/-- What `_invoke` does with a request. -/
theorem invoke_cases (cfg : RunnerConfig) (refused : Option Exc) (request : Request)
    (transactionId : ℕ) (s : Runner) :
    ((start cfg refused request).isOk = false ∧
      ∃ ex, invoke cfg refused request transactionId s = (.error ex, s)) ∨
    ((start cfg refused request).isOk = true ∧ ∃ ex,
      invoke cfg refused request transactionId s =
        (.error ex, { s with currentConcurrency := s.currentConcurrency + 1 })) ∨
    ((start cfg refused request).isOk = true ∧ ∃ inv, inv.pc = .running ∧
      invoke cfg refused request transactionId s =
        (.ok (), { s with
          currentConcurrency := s.currentConcurrency + 1
          invocations := s.invocations ++ [inv] })) := by
  unfold invoke
  simp only
  split
  · rename_i ex hstarted
    have hstart : start cfg refused request = .error ex := hstarted
    rw [hstart]
    exact Or.inl ⟨rfl, ex, rfl⟩
  · rename_i failed hstarted
    have hstart : start cfg refused request = .ok failed := hstarted
    rw [hstart]
    split
    · rename_i ex _
      exact Or.inr (Or.inl ⟨rfl, ex, rfl⟩)
    · exact Or.inr (Or.inr ⟨rfl, _, rfl, rfl⟩)

/-- One request more is counted. -/
theorem Counted.invoke (h : Counted cfg s n)
    (hlt : s.currentConcurrency < cfg.concurrentRequestPerConnection)
    (hstream : t.streamClosed = s.streamClosed)
    (hcount : t.currentConcurrency = s.currentConcurrency + 1) (hended : t.ended = s.ended)
    (hlen : t.invocations.length ≤ s.invocations.length + 1) : Counted cfg t (n + 1) := by
  have hle := h.length_le
  refine ⟨?_, by omega, by omega⟩
  intro hopen
  have hold := h.count (hstream.symm.trans hopen)
  omega

theorem numbers_handOver (h : Numbers cfg s n) (hpc : s.pc = .reading) (refused : Option Exc)
    (request : Request) (transactionId : ℕ) (now : ℤ) (incoming : List UInt8) :
    Numbers cfg
      ({ s with incoming := incoming }.handOver cfg refused request transactionId now)
      (n + if (start cfg refused request).isOk then 1 else 0) := by
  have hlt := h.reading hpc
  have hlen : s.invocations.length = n := h.length (by rw [hpc]; intro heq; cases heq)
  unfold handOver
  rcases invoke_cases cfg refused request transactionId
      { s with incoming := incoming, timestamp := now } with
    ⟨hstart, ex, hinvoke⟩ | ⟨hstart, ex, hinvoke⟩ | ⟨hstart, inv, hinv, hinvoke⟩
  · rw [hinvoke, hstart]
    exact Counted.terminated ⟨h.count, h.le_limit, h.length_le⟩ rfl
  · -- counted, and nothing will ever take it off
    rw [hinvoke, hstart]
    exact Counted.terminated (h.toCounted.invoke hlt rfl rfl rfl (Nat.le_succ _)) rfl
  · rw [hinvoke, hstart]
    have hended : (s.invocations ++ [inv]).countP Invocation.ended = s.ended := by
      have hrunning : Invocation.ended inv = false := by
        unfold Invocation.ended
        rw [hinv]
      rw [List.countP_append, List.countP_singleton, hrunning]
      rfl
    have hlen' : (s.invocations ++ [inv]).length = s.invocations.length + 1 := List.length_append
    have hcounted : Counted cfg
        { s with
          incoming := incoming
          timestamp := now
          currentConcurrency := s.currentConcurrency + 1
          invocations := s.invocations ++ [inv] } (n + 1) :=
      h.toCounted.invoke hlt rfl rfl hended (Nat.le_of_eq hlen')
    exact hcounted.loop (by rw [hlen', hlen]) now

theorem numbers_readDone (h : Numbers cfg s n) (hpc : s.pc = .reading) (refused : Option Exc)
    (now : ℤ) :
    Numbers cfg (s.readDone cfg refused now) (n + started cfg (.readDone refused now) s) := by
  unfold readDone started requestRead
  cases hread : cfg.transport.read s.incoming with
  | needMore => exact h
  | raised ex =>
      have hcounted : Counted cfg { s with closed := s.closed || ex.cls.isA .streamClosedError } n :=
        ⟨h.count, h.le_limit, h.length_le⟩
      exact hcounted.handle ex now
  | ok packet rest =>
      obtain ⟨transactionId, buff⟩ := packet
      have hcounted : Counted cfg { s with incoming := rest } n :=
        ⟨h.count, h.le_limit, h.length_le⟩
      simp only
      unfold received
      cases hloads : cfg.serializer.loads buff with
      | error ex => exact hcounted.handle ex now
      | ok message =>
          cases message with
          | request request => exact numbers_handOver h hpc refused request transactionId now rest
          | _ => exact Counted.terminated ⟨h.count, h.le_limit, h.length_le⟩ rfl

/-- Request `i`, which had not ended, goes on to another stage. -/
theorem ended_set {i : ℕ} {old : Invocation} (hold : s.invocations[i]? = some old)
    (hrunning : old.ended = false) (inv : Invocation) :
    (s.invocations.set i inv).countP Invocation.ended = s.ended + if inv.ended then 1 else 0 := by
  obtain ⟨hlt, hget⟩ := List.getElem?_eq_some_iff.mp hold
  rw [List.countP_set hlt, hget, hrunning]
  rfl

/-- Not all have ended. -/
theorem ended_lt_length {i : ℕ} {old : Invocation} (hold : s.invocations[i]? = some old)
    (hrunning : old.ended = false) : s.ended < s.invocations.length := by
  apply List.countP_lt_length_iff.mpr
  exact ⟨old, List.mem_of_getElem? hold, by simp [hrunning]⟩

/-- `finally`: one request less, and the reader is woken. -/
theorem numbers_finish (h : Numbers cfg s n) {i : ℕ} {old : Invocation}
    (hold : s.invocations[i]? = some old) (hrunning : old.ended = false) (inv : Invocation)
    (now : ℤ) :
    Numbers cfg (s.finish i inv now) n := by
  have hle := h.le_limit
  have hlen := h.length_le
  have hlt := ended_lt_length hold hrunning
  have hset : (s.invocations.set i { inv with pc := .finished }).countP Invocation.ended =
      s.ended + 1 := ended_set hold hrunning _
  have hcounted : Counted cfg { s with
      currentConcurrency := s.currentConcurrency - 1
      timestamp := now
      invocations := s.invocations.set i { inv with pc := .finished } } n := by
    constructor
    · intro hopen
      have hcount := h.count hopen
      show s.currentConcurrency - 1 +
        (s.invocations.set i { inv with pc := .finished }).countP Invocation.ended = n
      omega
    · exact Nat.le_trans (Nat.sub_le _ _) hle
    · exact Nat.le_trans (Nat.le_of_eq List.length_set) hlen
  apply Numbers.notifyAll hcounted
  · intro hpc
    exact List.length_set.trans (h.length hpc)
  · intro hpc
    exact Nat.lt_of_le_of_lt (Nat.sub_le _ _) (h.reading hpc)

/-- Request `i` goes on without the counter. -/
theorem numbers_set (h : Numbers cfg s n) {i : ℕ} {old inv : Invocation} {timestamp : ℤ}
    {written : List (ℕ × List UInt8)} (hold : s.invocations[i]? = some old)
    (hrunning : old.ended = false) (hinv : s.streamClosed = false → inv.ended = false) :
    Numbers cfg { s with
      timestamp := timestamp
      written := written
      invocations := s.invocations.set i inv } n := by
  refine ⟨⟨?_, h.le_limit, Nat.le_trans (Nat.le_of_eq List.length_set) h.length_le⟩, ?_, h.reading,
    h.waiting⟩
  · intro hopen
    show s.currentConcurrency + (s.invocations.set i inv).countP Invocation.ended = n
    rw [ended_set hold hrunning inv, hinv hopen]
    exact h.count hopen
  · intro hpc
    exact List.length_set.trans (h.length hpc)

theorem numbers_respond (h : Numbers cfg s n) {i : ℕ} {old : Invocation}
    (hold : s.invocations[i]? = some old) (hrunning : old.pc = .running) (inv : Invocation)
    (outcome : Except PyVal PyVal) (now : ℤ) :
    Numbers cfg (s.respond cfg i inv outcome now) n := by
  have hnot : old.ended = false := by
    unfold Invocation.ended
    rw [hrunning]
  unfold respond
  split
  · -- dropped: the counter is left as it is, but the flag is set
    rename_i hclosed
    apply numbers_set h hold hnot
    intro hopen
    rw [hclosed] at hopen
    cases hopen
  · split
    · exact numbers_finish h hold hnot inv now
    · split
      · exact numbers_finish h hold hnot inv now
      · exact numbers_set h hold hnot fun _ => rfl

theorem numbers_step {l : Label} (h : Numbers cfg s n) (hg : guard cfg l s) :
    Numbers cfg (update cfg l s) (n + started cfg l s) := by
  have hcounted : Counted cfg s n := h.toCounted
  cases l with
  | arrive bs => exact ⟨⟨h.count, h.le_limit, h.length_le⟩, h.length, h.reading, h.waiting⟩
  | peerClose => exact ⟨⟨h.count, h.le_limit, h.length_le⟩, h.length, h.reading, h.waiting⟩
  | readDone refused now => exact numbers_readDone h hg.1 refused now
  | readFail ex now => exact hcounted.handle ex now
  | wake now =>
      have hwoken : s.pc = .woken := hg
      exact hcounted.loop (h.length (by rw [hwoken]; intro heq; cases heq)) now
  | respond i outcome now =>
      rcases hg with ⟨inv, hinv, hpc, _⟩
      show Numbers cfg (s.resolve cfg i outcome now) n
      unfold resolve
      rw [hinv]
      exact numbers_respond h hinv hpc _ outcome now
  | flushed i now =>
      rcases hg with ⟨inv, hinv, hpc⟩
      show Numbers cfg (s.flush i now) n
      unfold flush
      rw [hinv]
      refine numbers_finish h hinv ?_ inv now
      unfold Invocation.ended
      rw [hpc]
  | onConnectionClose =>
      -- the flag and the notification come together
      have hset : Counted cfg { s with streamClosed := true } n :=
        ⟨fun heq => (by cases heq), h.le_limit, h.length_le⟩
      exact Numbers.notifyAll hset h.length h.reading
  | closeInactive =>
      have hset : Counted cfg { s with closed := true } n := ⟨h.count, h.le_limit, h.length_le⟩
      exact Numbers.notifyAll hset h.length h.reading

theorem numbers_reachable (cfg : RunnerConfig) :
    ∀ p, (counting cfg).Reachable p → Numbers cfg p.1 p.2 := by
  apply Lts.Spec.invariant
  · rintro ⟨s, n⟩ ⟨⟨now, hs⟩, hn⟩
    simp only at hs hn
    subst hs hn
    have haccepted : Counted cfg (accepted now) 0 := ⟨fun _ => rfl, Nat.zero_le _, Nat.le_refl _⟩
    exact haccepted.loop rfl now
  · intro l p hg h
    exact numbers_step h hg

/-! ## The reader -/

/-- The `_send_response` of request `i` has not finished. -/
def Outstanding (s : Runner) (i : ℕ) : Prop :=
  ∃ inv, s.invocations[i]? = some inv ∧ inv.ended = false

/-- Whichever step it is that ends request `i`, it notifies the reader. -/
def WillNotify (cfg : RunnerConfig) (s : Runner) (i : ℕ) : Prop :=
  ∀ l, guard cfg l s → ¬ Outstanding (update cfg l s) i → (update cfg l s).pc = .woken

/-- `finally` wakes a reader that sleeps. -/
theorem woken_finish (hwaiting : s.pc = .waiting) (i : ℕ) (inv : Invocation) (now : ℤ) :
    (s.finish i inv now).pc = .woken := by
  unfold finish Runner.notifyAll
  simp only [hwaiting]

/-- Where a request goes on that has not ended, none ends. -/
theorem outstanding_set {i j : ℕ} {inv : Invocation} (h : Outstanding s i)
    (hinv : inv.ended = false) (ht : t.invocations = s.invocations.set j inv) :
    Outstanding t i := by
  rcases h with ⟨old, hold, hrunning⟩
  unfold Outstanding
  rw [ht]
  by_cases hij : j = i
  · rw [hij, List.getElem?_set_self (List.getElem?_eq_some_iff.mp hold).1]
    exact ⟨inv, rfl, hinv⟩
  · rw [List.getElem?_set_ne hij]
    exact ⟨old, hold, hrunning⟩

/-- A response that is outstanding while the reader sleeps will notify it. -/
theorem willNotify_of_waiting (hwaiting : s.pc = .waiting) (hopen : s.streamClosed = false)
    {i : ℕ} (hout : Outstanding s i) : WillNotify cfg s i := by
  intro l hg hended
  cases l with
  | arrive bs => exact absurd hout hended
  | peerClose => exact absurd hout hended
  | readDone refused now =>
      have hreading : s.pc = .reading := hg.1
      rw [hwaiting] at hreading
      cases hreading
  | readFail ex now =>
      have hreading : s.pc = .reading := hg.1
      rw [hwaiting] at hreading
      cases hreading
  | wake now =>
      have hwoken : s.pc = .woken := hg
      rw [hwaiting] at hwoken
      cases hwoken
  | respond j outcome now =>
      rcases hg with ⟨inv, hinv, _⟩
      revert hended
      show ¬ Outstanding (s.resolve cfg j outcome now) i →
        (s.resolve cfg j outcome now).pc = .woken
      unfold resolve respond
      simp only [hinv, hopen, Bool.false_eq_true, if_false]
      split
      · exact fun _ => woken_finish hwaiting j _ now
      · split
        · exact fun _ => woken_finish hwaiting j _ now
        · -- now in `transport.write`
          intro hended
          exact absurd (outstanding_set hout rfl rfl) hended
  | flushed j now =>
      rcases hg with ⟨inv, hinv, _⟩
      show (s.flush j now).pc = .woken
      unfold flush
      rw [hinv]
      exact woken_finish hwaiting j inv now
  | onConnectionClose =>
      show ({ s with streamClosed := true } : Runner).notifyAll.pc = .woken
      unfold Runner.notifyAll
      simp only [hwaiting]
  | closeInactive =>
      show ({ s with closed := true } : Runner).notifyAll.pc = .woken
      unfold Runner.notifyAll
      simp only [hwaiting]

/-- Of `n` requests invoked, the counter gives those that have not ended, it keeps to
its limit, and a reader that sleeps is owed a notification. -/
structure Controlled (cfg : RunnerConfig) (s : Runner) (n : ℕ) : Prop where
  count : s.streamClosed = false → s.ended ≤ n ∧ s.currentConcurrency = n - s.ended
  le_limit : s.streamClosed = false → s.currentConcurrency ≤ cfg.concurrentRequestPerConnection
  waiting : s.pc = .waiting → s.streamClosed = false ∧
    (∃ i, Outstanding s i) ∧ ∀ i, Outstanding s i → WillNotify cfg s i

/-- In every run of a connection with a limit the builder accepts. -/
theorem concurrency_controlled (cfg : RunnerConfig) (hlimit : 0 < cfg.concurrentRequestPerConnection) :
    ∀ s n, (counting cfg).Reachable (s, n) → Controlled cfg s n := by
  intro s n hr
  have h : Numbers cfg s n := numbers_reachable cfg (s, n) hr
  refine ⟨?_, fun _ => h.le_limit, ?_⟩
  · intro hopen
    have hcount := h.count hopen
    exact ⟨by omega, by omega⟩
  · intro hpc
    rcases h.waiting hpc with ⟨hopen, hfull⟩
    refine ⟨hopen, ?_, fun i hi => willNotify_of_waiting hpc hopen hi⟩
    -- the limit is not 0, so some request has not ended
    have hcount := h.count hopen
    have hlen := h.length (by rw [hpc]; intro heq; cases heq)
    have hlt : s.ended < s.invocations.length := by omega
    rcases List.countP_lt_length_iff.mp hlt with ⟨inv, hmem, hrunning⟩
    rcases List.mem_iff_getElem?.mp hmem with ⟨i, hi⟩
    exact ⟨i, inv, hi, by simpa using hrunning⟩

/-- A connection that takes one request at a time. -/
def oneAtATime : RunnerConfig :=
  { (heartbeatKind (.pickle heartbeatPickle)).config with concurrentRequestPerConnection := 1 }

/-- Once it has read a request its reader waits for the response. -/
theorem concurrency_controlled_one :
    ∃ n, Controlled oneAtATime (afterRead oneAtATime heartbeatPacket) n ∧
      (afterRead oneAtATime heartbeatPacket).pc = .waiting := by
  have hr := (reachable_afterRead oneAtATime (fun _ _ => true) heartbeatPacket
    ⟨by decide +kernel, rfl⟩ ⟨by decide +kernel, by decide +kernel⟩ rfl).of_restrict
  obtain ⟨n, hn⟩ := hr.withHistory (fun l s n => n + started oneAtATime l s) 0
  exact ⟨n, concurrency_controlled oneAtATime Nat.one_pos _ n hn, by decide +kernel⟩

end Runner

end SummerRpc
