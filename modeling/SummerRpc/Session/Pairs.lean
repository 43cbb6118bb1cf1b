import SummerRpc.Pool.Invocations
import SummerRpc.Connection.Simple

/-! # Calls of proxies over simple connections

"write-read must appear in pairs", says `SimpleBlockingConnection.read` of `connection.py` when
it has read the response to another request. It does not see to it: whoever calls it has to.
`RpcInvoker.invoke` of `invoker.py` does, over a `DedicateLRUConnectionPool`, in any
interleaving of any number of threads.

* `Exchange`: how far a call of a proxy is with its connection;
* `SimpleCalls`: the calls, their pool and its connections, as one system;
* `InPairs`: a read follows the write it belongs to, and nothing comes in between;
* `in_pairs`: so it is on every connection;
* `own_response`: with a peer that answers in order, every call gets its own response.
-/

namespace SummerRpc

open BaseRecordTransport Framing

namespace Outcome

/-- The request a call of `write` has sent, with its id. -/
def wrote : Outcome → Option Packet
  | write buff (.ok (transactionId, .ok _)) => some (transactionId, buff)
  | _ => none

/-- The id a call of `read` asks for. -/
def asked : Outcome → Option ℕ
  | read transactionId _ => some transactionId
  | _ => none

end Outcome

namespace SimpleBlockingConnection

/-- The requests sent, oldest first. -/
def sent (log : List Outcome) : List Packet := log.filterMap Outcome.wrote

/-- The id of a request whose response has not been read yet. -/
def pending (log : List Outcome) : Option ℕ := (log.getLast?.bind Outcome.wrote).map Prod.fst

/-- A call of `read` asks for the request that the call before it has sent, and a request that
has been sent is read before anything else is done. -/
def InPairs (log : List Outcome) : Prop :=
  ∀ before o after, log = before ++ o :: after → o.asked = pending before

/-- The exception of a response to another request. -/
def inconsistent : Exc := { cls := .runtimeError, msg := "read and write is inconsistent" }

end SimpleBlockingConnection

/-- How far a call is with its connection. -/
inductive Exchange where
  | unwritten
  /-- `connection.write` has returned, and its future has its result -/
  | written (connection : ℕ) (buff : Body) (transactionId : ℕ)
  /-- `connection.write` or `write_future.result` raises -/
  | failed
  /-- `connection.read` has returned, or raises -/
  | read (connection : ℕ) (buff : Body) (transactionId : ℕ) (result : Except Exc (Except Exc Body))

/-- Calls of proxies over simple connections. -/
structure SimpleCalls (κ : Type) [PyHash κ] where
  /-- the calls and their pool, and the connections that the factory has made -/
  calls : Invocations κ (List ℕ) × List ℕ
  connections : ℕ → SimpleBlockingConnection
  exchanges : ℕ → Exchange

namespace SimpleCalls

open LRUConnectionPool Invocations

variable {κ : Type} [PyHash κ]

/-- The steps. -/
inductive Label (κ : Type) where
  /-- a step outside of the blocks, or into one or out of one -/
  | calls (l : Invocations.Label κ)
  | write (i : ℕ) (key : κ) (connection : ℕ) (buff : Body)
  | read (i connection : ℕ) (buff : Body) (transactionId : ℕ)

/-- A call may leave the block: `connection.read` has returned its future, or something has
raised. -/
def Over (raised : Bool) : Exchange → Prop
  | .unwritten | .written _ _ _ => False
  | .failed => raised = true
  | .read _ _ _ (.ok _) => raised = false
  | .read _ _ _ (.error _) => raised = true

/-- Where a call is after `connection.write` and `write_future.result`. -/
def afterWrite (connection : ℕ) (buff : Body) : Except Exc (ℕ × Except Exc ℕ) → Exchange
  | .ok (transactionId, .ok _) => .written connection buff transactionId
  | _ => .failed

variable [DecidableEq κ]

/-- When a step may happen. -/
def guard (size : Option ℕ) (n : ℕ) (l : Label κ) (s : SimpleCalls κ) : Prop :=
  match l with
  | .calls l => (dedicatedCalls size n).guard l s.calls ∧
      ∀ i key x raised, l = .leave i key x raised → Over raised (s.exchanges i)
  | .write i key x _ => s.calls.1.pcs[i]? = some (.inside key x) ∧ s.exchanges i = .unwritten
  | .read i x buff transactionId => s.exchanges i = .written x buff transactionId

/-- The pool sees that the connection is closed. -/
def seen (size : Option ℕ) (n : ℕ) (x : ℕ) (c : SimpleBlockingConnection)
    (calls : Invocations κ (List ℕ) × List ℕ) : Invocations κ (List ℕ) × List ℕ :=
  if c.closing || c.closed then (dedicatedCalls size n).update (.pool (.die x) 0) calls else calls

/-- The state a step leads to. -/
def update (size : Option ℕ) (n : ℕ) (l : Label κ) (s : SimpleCalls κ) : SimpleCalls κ :=
  match l with
  | .calls l =>
    let calls := (dedicatedCalls size n).update l s.calls
    { s with
      calls := calls
      connections := fun x =>
        -- the pool has closed it
        if calls.1.pool.dead x then (s.connections x).close else s.connections x }
  | .write i _ x buff =>
    let c := (s.connections x).update (.write buff)
    { calls := seen size n x c s.calls
      connections := Function.update s.connections x c
      exchanges :=
        Function.update s.exchanges i (afterWrite x buff ((s.connections x).write buff).1) }
  | .read i x buff transactionId =>
    let c := (s.connections x).update (.read transactionId)
    { calls := seen size n x c s.calls
      connections := Function.update s.connections x c
      exchanges := Function.update s.exchanges i
        (.read x buff transactionId ((s.connections x).read transactionId).1) }

/-- A pool without keys, no calls yet, and the sockets that the factory is going to make. -/
def system (size : Option ℕ) (n : ℕ) (socks : ℕ → Sock) : Lts.Spec (SimpleCalls κ) (Label κ) where
  init := fun s => s.calls = (⟨new dedicate size fun _ => false, []⟩, []) ∧
    s.connections = (fun x => SimpleBlockingConnection.new (socks x)) ∧
    s.exchanges = fun _ => .unwritten
  guard := guard size n
  update := update size n

end SimpleCalls

namespace SimpleBlockingConnection

/-! ## Pairs -/

theorem InPairs.nil : InPairs [] := by
  intro before o after heq
  have hlen := congrArg List.length heq
  rw [List.length_append, List.length_cons] at hlen
  cases hlen

theorem InPairs.concat {log : List Outcome} {o : Outcome} (h : InPairs log)
    (ho : o.asked = pending log) : InPairs (log ++ [o]) := by
  intro before o' after heq
  -- the outcome in question is the new one, or one of before
  rcases List.eq_nil_or_concat after with rfl | ⟨after, last, rfl⟩
  · rcases List.append_inj' heq rfl with ⟨rfl, hlast⟩
    cases hlast
    exact ho
  · have hlog : log ++ [o] = (before ++ o' :: after) ++ [last] := by
      rw [heq]
      simp
    exact h before o' after (List.append_inj' hlog rfl).1

theorem InPairs.before {before : List Outcome} (after : List Outcome)
    (h : InPairs (before ++ after)) : InPairs before := by
  intro l o l' heq
  refine h l o (l' ++ after) ?_
  rw [heq, List.append_assoc, List.cons_append]

theorem pending_concat (log : List Outcome) (o : Outcome) :
    pending (log ++ [o]) = o.wrote.map Prod.fst := by
  unfold pending
  rw [List.getLast?_concat]
  rfl

theorem sent_append (log log' : List Outcome) : sent (log ++ log') = sent log ++ sent log' :=
  List.filterMap_append

/-- As long as nothing has failed, a response has been read for every request but the one whose
response has not been read yet. -/
theorem InPairs.ids {log : List Outcome} (h : InPairs log)
    (hfine : ∀ o ∈ log, o.failed = false) :
    (sent log).map Prod.fst =
      (log.filterMap Outcome.delivered).map Prod.fst ++ (pending log).toList := by
  induction log using List.reverseRecOn with
  | nil => rfl
  | append_singleton log o ih =>
      have hlog := ih (h.before [o]) fun o' ho' => hfine o' (List.mem_append_left _ ho')
      have hasked : o.asked = pending log := h log o [] rfl
      have hnot : o.failed = false := hfine o (List.mem_append_right _ List.mem_cons_self)
      rw [sent_append, List.filterMap_append, List.map_append, List.map_append, hlog,
        pending_concat, ← hasked]
      cases o with
      | write buff result =>
          -- `write` raises, its future has an exception, or the request is sent
          rcases result with ex | ⟨tid, ex | _⟩
          · simp [sent, Outcome.asked, List.filterMap_cons, Outcome.wrote, Outcome.delivered]
          · cases hnot
          · simp [sent, Outcome.wrote, Outcome.asked, Outcome.delivered]
      | read tid result =>
          -- only a response that has been read is no failure
          rcases result with ex | ex | buff
          · cases hnot
          · cases hnot
          · simp [sent, Outcome.wrote, Outcome.asked, Outcome.delivered]

/-! ## What a read finds -/

/-- What has been read are packets, also where it is the response to another request. -/
structure Reading (stream : List UInt8) (c : SimpleBlockingConnection) : Prop where
  valid : ∀ p ∈ c.delivered, Encodable p
  mismatched : ∀ before tid after,
    c.log = before ++ .read tid (.ok (.error inconsistent)) :: after →
    ∃ p rest, p.1 ≠ tid ∧ Encodable p ∧ (∀ o ∈ before, o.failed = false) ∧
      stream = packetCode.encAll (before.filterMap Outcome.delivered ++ [p]) ++ rest

theorem read_delivers {c : SimpleBlockingConnection} {tid : ℕ} {buff : Body}
    (h : (c.read tid).1 = .ok (.ok buff)) : Encodable (tid, buff) := by
  have hreads := BlockingRecordTransport.read_reads c.fd false
  rcases hreads.consumed with ⟨got, _, hpacket⟩
  unfold read at h
  simp only at h
  split at h
  · rename_i readTid body hres
    split at h
    · cases h
    · rename_i heq
      cases h
      have hid : readTid = tid := by simpa using heq
      rw [← hid]
      exact (hpacket _ hres).1
  · split at h
    · cases h
    · split at h <;> cases h

theorem read_inconsistent {c : SimpleBlockingConnection} {tid : ℕ}
    (h : (c.read tid).1 = .ok (.error inconsistent)) :
    c.socketClosed = false ∧ ∃ p rest, p.1 ≠ tid ∧ Encodable p ∧
      c.sock.incoming = packetCode.enc p ++ rest := by
  have hreads := BlockingRecordTransport.read_reads c.fd false
  rcases hreads.consumed with ⟨got, hgot, hpacket⟩
  rw [c.fd_incoming] at hgot
  unfold read at h
  simp only at h
  split at h
  · rename_i readTid body hres
    split at h
    · rename_i hne
      constructor
      · cases hclosed : c.socketClosed with
        | false => rfl
        | true =>
            rw [read_fd_of_closed hclosed] at hres
            cases hres
      · rcases hpacket _ hres with ⟨hvalid, rfl⟩
        exact ⟨(readTid, body), _, hne, hvalid, hgot⟩
    · cases h
  · -- the exceptions of the two clauses are others
    split at h
    · cases h
    · split at h <;> cases h

theorem reading_step {stream : List UInt8} {c : SimpleBlockingConnection} (l : Label)
    (hs : Settled c) (hlog : LogInv stream c) (h : Reading stream c) :
    Reading stream (update l c) := by
  -- one more outcome
  have hconcat : ∀ (o : Outcome) (c' : SimpleBlockingConnection), c'.log = c.log ++ [o] →
      (∀ p, o.delivered = some p → Encodable p) →
      (∀ tid, o = .read tid (.ok (.error inconsistent)) →
        ∃ p rest, p.1 ≠ tid ∧ Encodable p ∧ (∀ o ∈ c.log, o.failed = false) ∧
          stream = packetCode.encAll (c.log.filterMap Outcome.delivered ++ [p]) ++ rest) →
      Reading stream c' := by
    intro o c' hc' hvalid hmismatched
    refine ⟨fun p hp => ?_, fun before tid after heq => ?_⟩
    · unfold delivered at hp
      rw [hc', List.filterMap_append, List.mem_append] at hp
      rcases hp with hold | hnew
      · exact h.valid p hold
      · rcases List.mem_filterMap.mp hnew with ⟨o', ho', hp⟩
        cases List.mem_singleton.mp ho'
        exact hvalid p hp
    · rw [hc'] at heq
      rcases List.eq_nil_or_concat after with rfl | ⟨after, last, rfl⟩
      · rcases List.append_inj' heq rfl with ⟨rfl, hlast⟩
        cases hlast
        exact hmismatched tid rfl
      · have hold : c.log ++ [o] =
            (before ++ .read tid (.ok (.error inconsistent)) :: after) ++ [last] := by
          rw [heq]
          simp
        exact h.mismatched before tid after (List.append_inj' hold rfl).1
  cases l with
  | close =>
      show Reading stream c.close
      -- `close` closes the socket and reads nothing
      rw [hs.close]
      exact ⟨h.valid, h.mismatched⟩
  | write buff =>
      refine hconcat (.write buff (c.write buff).1) _ rfl ?_ ?_
      · rintro p ⟨⟩
      · rintro tid ⟨⟩
  | read tid =>
      refine hconcat (.read tid (c.read tid).1) _ rfl ?_ ?_
      · intro p hp
        cases hres : (c.read tid).1 with
        | error ex =>
            rw [hres] at hp
            cases hp
        | ok r =>
            cases r with
            | error ex =>
                rw [hres] at hp
                cases hp
            | ok buff =>
                rw [hres] at hp
                cases hp
                exact read_delivers hres
      · intro tid' heq
        have hres : (c.read tid).1 = .ok (.error inconsistent) := by
          injection heq
        have htid : tid = tid' := by
          injection heq
        subst htid
        -- the socket is still open, so nothing has failed and nothing has been lost
        rcases read_inconsistent hres with ⟨hopen, p, rest, hne, hvalid, hin⟩
        refine ⟨p, rest, hne, hvalid, fun o ho => ?_, ?_⟩
        · cases hfailed : o.failed with
          | false => rfl
          | true =>
              rw [hlog.failed o ho hfailed] at hopen
              cases hopen
        · rcases hlog.stream with ⟨lost, heq, hlost⟩
          rw [Code.encAll_concat, heq, hlost hopen, hin]
          simp only [List.append_nil, List.append_assoc]
          rfl

theorem reading_reachable (sock : Sock) :
    ∀ c, (system sock).Reachable c → Reading sock.incoming c := by
  apply Lts.Spec.invariant_with (system sock) (fun c => Settled c ∧ LogInv sock.incoming c)
    (Reading sock.incoming)
  · exact fun c hr => ⟨settled_reachable sock c hr, logInv_reachable sock c hr⟩
  · rintro c rfl
    refine ⟨fun _ hp => absurd hp List.not_mem_nil, fun before tid after heq => ?_⟩
    exact absurd heq.symm (List.append_ne_nil_of_right_ne_nil _ (List.cons_ne_nil _ _))
  · exact fun l c _ hknown _ h => reading_step l hknown.1 hknown.2 h

end SimpleBlockingConnection

namespace SimpleCalls

open LRUConnectionPool Invocations SimpleBlockingConnection

variable {κ : Type} [PyHash κ] [DecidableEq κ] {size : Option ℕ} {n : ℕ} {socks : ℕ → Sock}

/-! ## The parts of the system -/

/-- What the pool sees is a step of the pool. -/
theorem seen_step (x : ℕ) (c : SimpleBlockingConnection)
    (calls : Invocations κ (List ℕ) × List ℕ) :
    seen size n x c calls = calls ∨ ∃ m, (dedicatedCalls size n).guard m calls ∧
      seen size n x c calls = (dedicatedCalls size n).update m calls := by
  unfold seen
  split
  · exact Or.inr ⟨.pool (.die x) 0, ⟨⟨rfl, trivial, by rintro f ⟨⟩⟩, rfl⟩, rfl⟩
  · exact Or.inl rfl

theorem seen_pcs (x : ℕ) (c : SimpleBlockingConnection)
    (calls : Invocations κ (List ℕ) × List ℕ) : (seen size n x c calls).1.pcs = calls.1.pcs := by
  unfold seen
  split <;> rfl

/-- The calls and their pool do what they do over any connections. -/
theorem calls_projection :
    Lts.Spec.Projection (system (κ := κ) size n socks) (dedicatedCalls size n)
      fun s => s.calls where
  init := by
    rintro s ⟨hcalls, _, _⟩
    rw [hcalls]
    exact ⟨⟨⟨_, rfl⟩, rfl⟩, rfl⟩
  step := by
    intro l s _ hg
    cases l with
    | calls l => exact Or.inr ⟨l, hg.1, rfl⟩
    | write i key x buff => exact seen_step x _ s.calls
    | read i x buff tid => exact seen_step x _ s.calls

/-- A connection does what it does for any caller. -/
theorem connection_projection (x : ℕ) :
    Lts.Spec.Projection (system (κ := κ) size n socks) (SimpleBlockingConnection.system (socks x))
      fun s => s.connections x where
  init := by
    rintro s ⟨_, hconnections, _⟩
    show s.connections x = _
    rw [hconnections]
  step := by
    intro l s _ _
    -- a call of another connection leaves this one alone
    have hmove : ∀ (y : ℕ) (m : SimpleBlockingConnection.Label),
        Function.update s.connections y ((s.connections y).update m) x = s.connections x ∨
          ∃ m', True ∧ Function.update s.connections y ((s.connections y).update m) x =
            (s.connections x).update m' := by
      intro y m
      by_cases hxy : x = y
      · subst hxy
        exact Or.inr ⟨m, trivial, Function.update_self ..⟩
      · exact Or.inl (Function.update_of_ne hxy _ _)
    cases l with
    | calls l =>
        show (if _ then _ else _) = _ ∨ _
        split
        · rename_i hdead
          -- the pool has closed it, perhaps before
          refine Or.inr ⟨.close, trivial, ?_⟩
          exact if_pos hdead
        · exact Or.inl rfl
    | write i key y buff => exact hmove y (.write buff)
    | read i y buff tid => exact hmove y (.read tid)

/-! ## Pairs on every connection -/

/-- Where the calls are, and what the connections have sent and read for them. -/
structure Paired (s : SimpleCalls κ) : Prop where
  pairs : ∀ x, InPairs (s.connections x).log
  /-- a call that has written is in the block, and nothing has come after its request -/
  writing : ∀ i x buff tid, s.exchanges i = .written x buff tid →
    (∃ key, s.calls.1.pcs[i]? = some (.inside key x)) ∧
      ∃ before stamp, (s.connections x).log = before ++ [.write buff (.ok (tid, .ok stamp))]
  /-- a request that has been sent and not been read is that of a call in the block -/
  pending : ∀ x tid, pending (s.connections x).log = some tid →
    ∃ i buff, s.exchanges i = .written x buff tid
  /-- a response has been read for the request that the connection has sent before -/
  reading : ∀ i x buff tid result, s.exchanges i = .read x buff tid result →
    ∃ before stamp after, (s.connections x).log =
      before ++ .write buff (.ok (tid, .ok stamp)) :: .read tid result :: after

theorem close_log (c : SimpleBlockingConnection) : c.close.log = c.log := by
  unfold SimpleBlockingConnection.close
  split <;> rfl

theorem paired_calls {l : Invocations.Label κ} {s : SimpleCalls κ}
    (hg : guard size n (.calls l) s) (h : Paired s) : Paired (update size n (.calls l) s) := by
  rcases hg with ⟨hguard, hover⟩
  -- the pool may close connections, but it sends and reads nothing
  have hlog : ∀ x, ((update size n (.calls l) s).connections x).log = (s.connections x).log := by
    intro x
    show (if _ then _ else _ : SimpleBlockingConnection).log = _
    split
    · exact close_log _
    · rfl
  constructor
  · intro x
    rw [hlog]
    exact h.pairs x
  · intro i x buff tid hwritten
    rcases h.writing i x buff tid hwritten with ⟨⟨key, hinside⟩, hlast⟩
    rw [hlog]
    refine ⟨⟨key, inside_stays hguard.1 hinside ?_⟩, hlast⟩
    -- it may not leave before it has read
    intro raised heq
    have hleft := hover i key x raised heq
    rw [show s.exchanges i = _ from hwritten] at hleft
    exact hleft
  · intro x tid
    rw [hlog]
    exact h.pending x tid
  · intro i x buff tid result hread
    rw [hlog]
    exact h.reading i x buff tid result hread

/-- No call but `i` has written on a connection that `i` has in its block. -/
theorem alone {s : SimpleCalls κ} (hr : (system size n socks).Reachable s) (h : Paired s)
    {i j : ℕ} {key : κ} {x : ℕ} (hi : s.calls.1.pcs[i]? = some (.inside key x)) {buff : Body}
    {tid : ℕ} (hj : s.exchanges j = .written x buff tid) : j = i := by
  rcases h.writing j x buff tid hj with ⟨⟨key', hinside⟩, _⟩
  exact same_call (calls_projection.reachable hr) hinside hi rfl rfl

/-- A call of `write` has sent its request, or the call of the proxy raises. -/
theorem afterWrite_cases (x : ℕ) (buff : Body) (r : Except Exc (ℕ × Except Exc ℕ)) :
    (∃ tid stamp, r = .ok (tid, .ok stamp)) ∨
      (afterWrite x buff r = .failed ∧ (Outcome.write buff r).wrote = none) := by
  rcases r with ex | ⟨tid, ex | stamp⟩
  · exact Or.inr ⟨rfl, rfl⟩
  · exact Or.inr ⟨rfl, rfl⟩
  · exact Or.inl ⟨tid, stamp, rfl⟩

theorem paired_write {s : SimpleCalls κ} (hr : (system size n socks).Reachable s)
    {i : ℕ} {key : κ} {x : ℕ} {buff : Body} (hg : guard size n (.write i key x buff) s)
    (h : Paired s) : Paired (update size n (.write i key x buff) s) := by
  rcases hg with ⟨hinside, hunwritten⟩
  set s' := update size n (.write i key x buff) s with hs'
  have hresult := afterWrite_cases x buff ((s.connections x).write buff).1
  have hlog : (s'.connections x).log =
      (s.connections x).log ++ [.write buff ((s.connections x).write buff).1] := by
    show (Function.update s.connections x _ x).log = _
    rw [Function.update_self]
    rfl
  have hother : ∀ y, y ≠ x → s'.connections y = s.connections y :=
    fun y hy => Function.update_of_ne hy _ _
  have hself : s'.exchanges i = afterWrite x buff ((s.connections x).write buff).1 :=
    Function.update_self ..
  have hothers : ∀ j, j ≠ i → s'.exchanges j = s.exchanges j :=
    fun j hj => Function.update_of_ne hj _ _
  -- every request on this connection has been read
  have hnone : SimpleBlockingConnection.pending (s.connections x).log = none := by
    cases hpending : SimpleBlockingConnection.pending (s.connections x).log with
    | none => rfl
    | some tid =>
        rcases h.pending x tid hpending with ⟨j, buff', hj⟩
        have hji := alone hr h hinside hj
        rw [hji, hunwritten] at hj
        cases hj
  constructor
  · intro y
    by_cases hy : y = x
    · subst hy
      rw [hlog]
      exact (h.pairs y).concat hnone.symm
    · rw [hother y hy]
      exact h.pairs y
  · intro j y buff' tid hwritten
    show (∃ key, (seen size n x _ s.calls).1.pcs[j]? = _) ∧ _
    rw [seen_pcs]
    by_cases hj : j = i
    · subst hj
      rw [hself] at hwritten
      -- it is sent and the call goes on, or nothing is sent
      rcases hresult with ⟨id, stamp, hres⟩ | ⟨hfailed, _⟩
      · rw [hres] at hwritten
        cases hwritten
        refine ⟨⟨key, hinside⟩, (s.connections x).log, stamp, ?_⟩
        rw [hlog, hres]
      · rw [hfailed] at hwritten
        cases hwritten
    · rw [hothers j hj] at hwritten
      rcases h.writing j y buff' tid hwritten with ⟨hin, hlast⟩
      -- another call that has written has another connection
      have hy : y ≠ x := by
        rintro rfl
        exact hj (alone hr h hinside hwritten)
      rw [hother y hy]
      exact ⟨hin, hlast⟩
  · intro y tid hpending
    by_cases hy : y = x
    · subst hy
      rw [hlog, pending_concat] at hpending
      rcases hresult with ⟨id, stamp, hres⟩ | ⟨_, hnothing⟩
      · rw [hres] at hpending
        cases hpending
        refine ⟨i, buff, ?_⟩
        rw [hself, hres]
        rfl
      · rw [hnothing] at hpending
        cases hpending
    · rw [hother y hy] at hpending
      rcases h.pending y tid hpending with ⟨j, buff', hj⟩
      have hji : j ≠ i := by
        rintro rfl
        rw [hunwritten] at hj
        cases hj
      exact ⟨j, buff', (hothers j hji).trans hj⟩
  · intro j y buff' tid result hread
    have hji : j ≠ i := by
      rintro rfl
      rw [hself] at hread
      rcases hresult with ⟨id, stamp, hres⟩ | ⟨hfailed, _⟩
      · rw [hres] at hread
        cases hread
      · rw [hfailed] at hread
        cases hread
    rw [hothers j hji] at hread
    rcases h.reading j y buff' tid result hread with ⟨before, stamp, after, heq⟩
    by_cases hy : y = x
    · subst hy
      refine ⟨before, stamp, after ++ [.write buff ((s.connections y).write buff).1], ?_⟩
      rw [hlog, heq]
      simp
    · rw [hother y hy]
      exact ⟨before, stamp, after, heq⟩

theorem paired_read {s : SimpleCalls κ} (hr : (system size n socks).Reachable s)
    {i x : ℕ} {buff : Body} {tid : ℕ} (hg : guard size n (.read i x buff tid) s)
    (h : Paired s) : Paired (update size n (.read i x buff tid) s) := by
  have hwritten : s.exchanges i = .written x buff tid := hg
  rcases h.writing i x buff tid hwritten with ⟨⟨key, hinside⟩, before, stamp, hlast⟩
  set s' := update size n (.read i x buff tid) s with hs'
  have hlog : (s'.connections x).log =
      (s.connections x).log ++ [.read tid ((s.connections x).read tid).1] := by
    show (Function.update s.connections x _ x).log = _
    rw [Function.update_self]
    rfl
  have hother : ∀ y, y ≠ x → s'.connections y = s.connections y :=
    fun y hy => Function.update_of_ne hy _ _
  have hself : s'.exchanges i = .read x buff tid ((s.connections x).read tid).1 :=
    Function.update_self ..
  have hothers : ∀ j, j ≠ i → s'.exchanges j = s.exchanges j :=
    fun j hj => Function.update_of_ne hj _ _
  -- the request of this call is the one to be read
  have hpending : SimpleBlockingConnection.pending (s.connections x).log = some tid := by
    rw [hlast, pending_concat]
    rfl
  constructor
  · intro y
    by_cases hy : y = x
    · subst hy
      rw [hlog]
      exact (h.pairs y).concat hpending.symm
    · rw [hother y hy]
      exact h.pairs y
  · intro j y buff' tid' hw
    have hji : j ≠ i := by
      rintro rfl
      rw [hself] at hw
      cases hw
    rw [hothers j hji] at hw
    rcases h.writing j y buff' tid' hw with ⟨hin, hwrote⟩
    -- two calls that have written are on two connections
    have hy : y ≠ x := by
      rintro rfl
      exact hji (alone hr h hinside hw)
    show (∃ key, (seen size n x _ s.calls).1.pcs[j]? = _) ∧ _
    rw [seen_pcs, hother y hy]
    exact ⟨hin, hwrote⟩
  · intro y tid' hp
    by_cases hy : y = x
    · subst hy
      rw [hlog, pending_concat] at hp
      cases hp
    · rw [hother y hy] at hp
      rcases h.pending y tid' hp with ⟨j, buff', hj⟩
      have hji : j ≠ i := by
        rintro rfl
        cases hwritten.symm.trans hj
        exact hy rfl
      exact ⟨j, buff', (hothers j hji).trans hj⟩
  · intro j y buff' tid' result hread
    by_cases hji : j = i
    · subst hji
      rw [hself] at hread
      cases hread
      -- the read comes right after the write
      refine ⟨before, stamp, [], ?_⟩
      rw [hlog, hlast]
      simp
    · rw [hothers j hji] at hread
      rcases h.reading j y buff' tid' result hread with ⟨before', stamp', after, heq⟩
      by_cases hy : y = x
      · subst hy
        refine ⟨before', stamp', after ++ [.read tid ((s.connections y).read tid).1], ?_⟩
        rw [hlog, heq]
        simp
      · rw [hother y hy]
        exact ⟨before', stamp', after, heq⟩

theorem paired_reachable : ∀ s : SimpleCalls κ, (system size n socks).Reachable s → Paired s := by
  intro s hr
  induction hr with
  | @init s hinit =>
      rcases hinit with ⟨hcalls, hconnections, hexchanges⟩
      have hempty : ∀ x, (s.connections x).log = [] := by
        intro x
        rw [hconnections]
        rfl
      have hunwritten : ∀ i, s.exchanges i = .unwritten := fun i => by rw [hexchanges]
      constructor
      · intro x
        rw [hempty]
        exact .nil
      · intro i x buff tid hw
        cases (hunwritten i).symm.trans hw
      · intro x tid hp
        rw [hempty] at hp
        cases hp
      · intro i x buff tid result hread
        cases (hunwritten i).symm.trans hread
  | step l hr hg ih =>
      cases l with
      | calls l => exact paired_calls hg ih
      | write i key x buff => exact paired_write hr hg ih
      | read i x buff tid => exact paired_read hr hg ih

/-- Whatever is raised and in whatever order the calls come, and whichever connections are
closed: on every connection each call of `read` asks for the request that the call before it
has sent, and nothing is done between them. -/
theorem in_pairs {s : SimpleCalls κ} (hr : (system size n socks).Reachable s) (x : ℕ) :
    InPairs (s.connections x).log :=
  (paired_reachable s hr).pairs x

/-- A test of `Over`. -/
def isOver (raised : Bool) : Exchange → Bool
  | .unwritten | .written _ _ _ => false
  | .failed => raised
  | .read _ _ _ (.ok _) => !raised
  | .read _ _ _ (.error _) => raised

/-- A test of the guard. -/
def fires (l : Label κ) (s : SimpleCalls κ) : Bool :=
  match l with
  | .calls l => firesFresh l s.calls &&
      match l with
      | .leave i _ _ raised => isOver raised (s.exchanges i)
      | _ => true
  | .write i key x _ =>
      decide (s.calls.1.pcs[i]? = some (.inside key x)) &&
        match s.exchanges i with
        | .unwritten => true
        | _ => false
  | .read i x buff tid =>
    match s.exchanges i with
    | .written y buff' tid' => decide ((y, buff', tid') = (x, buff, tid))
    | _ => false

theorem over_of_isOver {raised : Bool} {e : Exchange} (h : isOver raised e = true) :
    Over raised e := by
  cases e with
  | unwritten | written x buff tid => cases h
  | failed => exact h
  | read x buff tid result =>
      cases result with
      | ok future => exact (Bool.not_eq_true' raised).mp h
      | error ex => exact h

theorem fires_guard {l : Label κ} {s : SimpleCalls κ} (h : fires l s = true) :
    guard size n l s := by
  cases l with
  | calls l =>
      simp only [fires, Bool.and_eq_true] at h
      refine ⟨firesFresh_guard h.1, ?_⟩
      rintro i key x raised rfl
      exact over_of_isOver h.2
  | write i key x buff =>
      simp only [fires, Bool.and_eq_true, decide_eq_true_eq] at h
      refine ⟨h.1, ?_⟩
      have hunwritten := h.2
      split at hunwritten
      · assumption
      · cases hunwritten
  | read i x buff tid =>
      simp only [fires] at h
      split at h
      · rename_i y buff' tid' hwritten
        cases of_decide_eq_true h
        exact hwritten
      · cases h

/-- What a list of labels leads to. -/
def played (size : Option ℕ) (n : ℕ) (socks : ℕ → Sock) (ls : List (Label κ)) : SimpleCalls κ :=
  (system size n socks).play fires ls
    ⟨(⟨new dedicate size fun _ => false, []⟩, []),
      fun x => SimpleBlockingConnection.new (socks x), fun _ => .unwritten⟩

theorem played_reachable (size : Option ℕ) (n : ℕ) (socks : ℕ → Sock) (ls : List (Label κ)) :
    (system size n socks).Reachable (played size n socks ls) :=
  Lts.Spec.Reachable.play (fun _ _ => fires_guard)
    (Lts.Spec.Reachable.init (S := system size n socks) ⟨rfl, rfl, rfl⟩) ls

/-- Two responses. -/
def twoResponses : Sock where
  incoming := [0, 0, 0, 1, 0, 0, 0, 1, 7, 0, 0, 0, 1, 0, 0, 0, 2, 8]
  outgoing := []
  script := []

/-- Two calls of proxies at once; the second one waits for the connection. -/
def twoCalls : List (Label ℕ) :=
  [.calls (.call 4), .calls (.enter 0 4), .calls (.pool (.lookup 4 defaultWait) 0),
    .calls (.pool (.create ⟨4, defaultWait, 0, 1⟩ (.ok 10)) 0),
    .calls (.pool (.register ⟨4, defaultWait, 0, 0⟩) 0),
    .calls (.pool (.choose 4 defaultWait 0) 0), .calls (.pool (.inspect 4 defaultWait 0 10) 0),
    .write 0 4 10 [5], .calls (.call 4), .calls (.enter 1 4),
    .calls (.pool (.lookup 4 defaultWait) 1), .read 0 10 [5] 1, .calls (.leave 0 4 10 false),
    .calls (.pool (.release 4 10) 0), .calls (.pool (.put 4 0 10) 0),
    .calls (.pool (.choose 4 defaultWait 0) 1), .calls (.pool (.inspect 4 defaultWait 0 10) 1),
    .write 1 4 10 [6], .read 1 10 [6] 2]

theorem in_pairs_two :
    let s := played (some 1) 1 (fun _ => twoResponses) twoCalls
    (s.connections 10).log.length = 4 ∧ InPairs (s.connections 10).log :=
  ⟨by decide +kernel, in_pairs (played_reachable (some 1) 1 _ twoCalls) 10⟩

/-! ## Every call has its own response -/

/-- The peer answers the requests in the order in which it receives them. -/
def InOrder (requests answers : List Packet) : Prop :=
  ∀ (k : ℕ) (request answer : Packet), requests[k]? = some request →
    answers[k]? = some answer → answer.1 = request.1

/-- What has been read are the first answers. -/
theorem delivered_prefix {s : SimpleCalls κ} (hr : (system size n socks).Reachable s) (x : ℕ)
    {answers : List Packet} (hvalid : ∀ a ∈ answers, Encodable a)
    (harrives : (socks x).incoming <+: packetCode.encAll answers) :
    (s.connections x).delivered <+: answers := by
  have hconnection := (connection_projection x).reachable hr
  rcases (logInv_reachable _ _ hconnection).stream with ⟨lost, heq, _⟩
  rw [List.append_assoc] at heq
  -- packets can be told apart, so those read off the stream are the first ones
  exact ReadOff.isPrefix packetCode_exact hvalid
    ⟨(reading_reachable _ _ hconnection).valid, heq⟩ harrives

theorem getElem?_of_ids {requests : List Packet} {k tid : ℕ}
    (h : (requests.map Prod.fst)[k]? = some tid) : ∃ buff, requests[k]? = some (tid, buff) := by
  rw [List.getElem?_map, Option.map_eq_some_iff] at h
  rcases h with ⟨⟨_, buff⟩, hk, rfl⟩
  exact ⟨buff, hk⟩

/-- No response is one to another request. -/
theorem never_inconsistent {s : SimpleCalls κ} (hr : (system size n socks).Reachable s) (x : ℕ)
    {answers : List Packet} (hvalid : ∀ a ∈ answers, Encodable a)
    (harrives : (socks x).incoming <+: packetCode.encAll answers)
    (horder : InOrder (sent (s.connections x).log) answers) (tid : ℕ) :
    .read tid (.ok (.error inconsistent)) ∉ (s.connections x).log := by
  intro hmem
  have hpairs := (paired_reachable s hr).pairs x
  rcases List.append_of_mem hmem with ⟨before, after, hlog⟩
  have hreading := reading_reachable _ _ ((connection_projection x).reachable hr)
  rcases hreading.mismatched before tid after hlog with ⟨p, rest, hne, hp, hfine, hstream⟩
  have hpending : some tid = pending before := hpairs before _ after hlog
  rw [hlog] at hpairs
  -- the request is the first one that has no response yet, and `p` is the next answer
  have hids := (hpairs.before _).ids hfine
  rw [← hpending] at hids
  obtain ⟨buff, hrequest⟩ : ∃ buff,
      (sent before)[(before.filterMap Outcome.delivered).length]? = some (tid, buff) := by
    refine getElem?_of_ids ?_
    rw [hids, List.getElem?_append_right (Nat.le_of_eq (List.length_map _)), List.length_map,
      Nat.sub_self]
    rfl
  have hread : ∀ q ∈ before.filterMap Outcome.delivered ++ [p], Encodable q := by
    refine List.forall_mem_append.mpr ⟨fun q hq => hreading.valid q ?_,
      List.forall_mem_singleton.mpr hp⟩
    unfold delivered
    rw [hlog, List.filterMap_append]
    exact List.mem_append_left _ hq
  rcases ReadOff.isPrefix packetCode_exact hvalid ⟨hread, hstream⟩ harrives with ⟨more, rfl⟩
  refine hne (horder (before.filterMap Outcome.delivered).length (tid, buff) p ?_ ?_)
  · rw [hlog, sent_append, List.getElem?_append_left]
    · exact hrequest
    · exact (List.getElem?_eq_some_iff.mp hrequest).1
  · rw [List.append_assoc, List.getElem?_append_right (Nat.le_refl _), Nat.sub_self]
    rfl

/-- With a peer that answers in order, over any stream, also one that is cut off or times out
anywhere: no call of `read` finds the response to another request, and every call of a proxy
that has a response has the answer to its own request. -/
theorem own_response {s : SimpleCalls κ} (hr : (system size n socks).Reachable s) (x : ℕ)
    {answers : List Packet} (hvalid : ∀ a ∈ answers, Encodable a)
    (harrives : (socks x).incoming <+: packetCode.encAll answers)
    (horder : InOrder (sent (s.connections x).log) answers) :
    (∀ tid, .read tid (.ok (.error inconsistent)) ∉ (s.connections x).log) ∧
      ∀ i buff tid response, s.exchanges i = .read x buff tid (.ok (.ok response)) →
        ∃ k : ℕ, (sent (s.connections x).log)[k]? = some (tid, buff) ∧
          answers[k]? = some (tid, response) := by
  refine ⟨never_inconsistent hr x hvalid harrives horder, ?_⟩
  intro i buff tid response hread
  have hpairs := (paired_reachable s hr).pairs x
  rcases (paired_reachable s hr).reading i x buff tid _ hread with ⟨before, stamp, after, hlog⟩
  have hdead := (logInv_reachable _ _ ((connection_projection x).reachable hr)).dead
  have hpending : none = pending before := hpairs before _ _ hlog
  -- nothing has failed before a response that has been read
  have hfine : ∀ o ∈ before, o.failed = false := by
    intro o ho
    cases hfailed : o.failed with
    | false => rfl
    | true =>
        unfold DeadAfterFailure at hdead
        rw [hlog] at hdead
        -- after a failure no read delivers anything
        have hnone := (List.pairwise_append.mp hdead).2.2 o ho (.read tid (.ok (.ok response)))
          (by simp) hfailed
        cases hnone
  have hprefix := delivered_prefix hr x hvalid harrives
  unfold delivered at hprefix
  rw [hlog] at hpairs hprefix ⊢
  have hids := (hpairs.before _).ids hfine
  rw [← hpending, Option.toList_none, List.append_nil] at hids
  have hlen := congrArg List.length hids
  rw [List.length_map, List.length_map] at hlen
  refine ⟨(sent before).length, ?_, ?_⟩
  · rw [sent_append, List.getElem?_append_right (Nat.le_refl _), Nat.sub_self]
    rfl
  · rcases hprefix with ⟨more, rfl⟩
    rw [List.filterMap_append, List.append_assoc,
      List.getElem?_append_right (Nat.le_of_eq hlen.symm), hlen, Nat.sub_self]
    rfl

theorem own_response_two :
    let s := played (some 1) 1 (fun _ => twoResponses) twoCalls
    (s.connections 10).delivered = [(1, [7]), (2, [8])] ∧
      (∀ tid, .read tid (.ok (.error inconsistent)) ∉ (s.connections 10).log) ∧
      ∀ i buff tid response, s.exchanges i = .read 10 buff tid (.ok (.ok response)) →
        ∃ k : ℕ, (sent (s.connections 10).log)[k]? = some (tid, buff) ∧
          [(1, [7]), (2, [8])][k]? = some (tid, response) := by
  refine ⟨by decide +kernel, ?_⟩
  refine own_response (played_reachable (some 1) 1 _ twoCalls) 10 (by decide) ?_ ?_
  · exact ⟨[], by decide⟩
  · have hsent : sent ((played (some 1) 1 (fun _ => twoResponses) twoCalls).connections 10).log =
        [(1, [5]), (2, [6])] := by decide +kernel
    rw [hsent]
    rintro (_ | _ | k) request answer hrequest hanswer
    · cases hrequest
      cases hanswer
      rfl
    · cases hrequest
      cases hanswer
      rfl
    · cases hrequest

end SimpleCalls

end SummerRpc
