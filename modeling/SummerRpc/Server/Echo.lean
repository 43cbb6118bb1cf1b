import SummerRpc.Server.Answered
import Mathlib.Data.List.Forall2

/-! # Requests in, responses out

A `Runner` over the record transport, seen from its socket: the requests it invokes
are those of the packets that have arrived, and the packets it writes answer them
under their transaction ids.

* `Consumed`: the packets read, and those whose requests were invoked;
* `Responded`: the packets written, and the invocations they answer;
* `output_eq`: the bytes written are the packets of results.
-/

namespace SummerRpc

open BaseRecordTransport Framing

/-- The coroutine of the record transport decodes the packet at the front. -/
theorem recordTransport_read (input : List UInt8) :
    recordTransport.read input =
      match packetCode.dec input with
      | some ((transactionId, body), rest) => .ok (transactionId, some body) rest
      | none => .needMore := by
  simp only [recordTransport, StreamRead.bind_apply, RecordTransport.read_eq,
    StreamRead.pure_apply]
  cases packetCode.dec input with
  | none => rfl
  | some item => rfl

namespace Runner

/-! ## What a step does to requests and responses -/

/-- No request is invoked, and nothing is read or written. -/
structure Kept (s t : Runner) : Prop where
  incoming : t.incoming = s.incoming
  invocations : t.invocations = s.invocations
  written : t.written = s.written

theorem kept_loop (cfg : RunnerConfig) (now : ℤ) (s : Runner) : Kept s (s.loop cfg now) := by
  unfold loop
  split
  · exact ⟨rfl, rfl, rfl⟩
  · split <;> exact ⟨rfl, rfl, rfl⟩

theorem kept_handle (ex : Exc) (now : ℤ) (s : Runner) : Kept s (s.handle ex now) := by
  unfold handle
  split
  · exact ⟨rfl, rfl, rfl⟩
  · split
    · exact ⟨rfl, rfl, rfl⟩
    · split <;> exact ⟨rfl, rfl, rfl⟩

theorem kept_notifyAll (s : Runner) : Kept s s.notifyAll := by
  unfold notifyAll
  split <;> exact ⟨rfl, rfl, rfl⟩

/-- A request is invoked. -/
structure Invoked (s t : Runner) (request : Request) (transactionId : ℕ) : Prop where
  incoming : t.incoming = s.incoming
  invocations : ∃ inv, inv.request = request ∧ inv.transactionId = transactionId ∧
    t.invocations = s.invocations ++ [inv]
  written : t.written = s.written

/-- What has been read leads to nothing, or to an invocation of its request. -/
theorem handOver_invokes (cfg : RunnerConfig) (refused : Option Exc) (request : Request)
    (transactionId : ℕ) (now : ℤ) (s : Runner) :
    Kept s (s.handOver cfg refused request transactionId now) ∨
      Invoked s (s.handOver cfg refused request transactionId now) request transactionId := by
  have hinvoke : Kept s (invoke cfg refused request transactionId { s with timestamp := now }).2 ∨
      Invoked s (invoke cfg refused request transactionId { s with timestamp := now }).2
        request transactionId := by
    unfold invoke
    simp only
    split
    · exact Or.inl ⟨rfl, rfl, rfl⟩
    · split
      · exact Or.inl ⟨rfl, rfl, rfl⟩
      · exact Or.inr ⟨rfl, ⟨_, rfl, rfl, rfl⟩, rfl⟩
  unfold handOver
  split
  · rename_i t heq
    rw [heq] at hinvoke
    have hloop := kept_loop cfg now t
    rcases hinvoke with h | h
    · exact Or.inl ⟨hloop.incoming.trans h.incoming, hloop.invocations.trans h.invocations,
        hloop.written.trans h.written⟩
    · refine Or.inr ⟨hloop.incoming.trans h.incoming, ?_, hloop.written.trans h.written⟩
      rw [hloop.invocations]
      exact h.invocations
  · rename_i t heq
    rw [heq] at hinvoke
    rcases hinvoke with h | h
    · exact Or.inl ⟨h.incoming, h.invocations, h.written⟩
    · exact Or.inr ⟨h.incoming, h.invocations, h.written⟩

/-- The read coroutine takes the packet at the front of the bytes. -/
theorem readDone_takes {cfg : RunnerConfig} (hrecord : cfg.transport = recordTransport)
    (refused : Option Exc) (now : ℤ) (s : Runner) :
    Kept s (s.readDone cfg refused now) ∨
      ∃ p rest, packetCode.dec s.incoming = some (p, rest) ∧
        (Kept { s with incoming := rest } (s.readDone cfg refused now) ∨
          ∃ request, cfg.serializer.loads (some p.2) = .ok (.request request) ∧
            Invoked { s with incoming := rest } (s.readDone cfg refused now) request p.1) := by
  unfold readDone
  rw [hrecord, recordTransport_read]
  cases hdec : packetCode.dec s.incoming with
  | none => exact Or.inl ⟨rfl, rfl, rfl⟩
  | some item =>
      rcases item with ⟨⟨transactionId, body⟩, rest⟩
      refine Or.inr ⟨(transactionId, body), rest, rfl, ?_⟩
      simp only [received]
      cases hloads : cfg.serializer.loads (some body) with
      | error ex => exact Or.inl (kept_handle ex now _)
      | ok message =>
          cases message with
          | request request =>
              rcases handOver_invokes cfg refused request transactionId now
                { s with incoming := rest } with h | h
              · exact Or.inl h
              · exact Or.inr ⟨request, rfl, h⟩
          | result result => exact Or.inl ⟨rfl, rfl, rfl⟩
          | other value => exact Or.inl ⟨rfl, rfl, rfl⟩

/-- Nothing is read, and a request goes on to another stage. -/
structure Proceeds (s t : Runner) (i : ℕ) (old inv : Invocation) : Prop where
  found : s.invocations[i]? = some old
  request : inv.request = old.request
  transactionId : inv.transactionId = old.transactionId
  incoming : t.incoming = s.incoming
  invocations : t.invocations = s.invocations.set i inv

theorem proceeds_finish {s : Runner} {i : ℕ} {old inv : Invocation} (now : ℤ)
    (hold : s.invocations[i]? = some old) (hrequest : inv.request = old.request)
    (hid : inv.transactionId = old.transactionId) :
    Proceeds s (s.finish i inv now) i old { inv with pc := .finished } := by
  have hkept := kept_notifyAll
    { s with
      currentConcurrency := s.currentConcurrency - 1
      timestamp := now
      invocations := s.invocations.set i { inv with pc := .finished } }
  exact ⟨hold, hrequest, hid, hkept.incoming, hkept.invocations⟩

/-- A response is written for a request that was running, if at all. -/
theorem respond_proceeds (cfg : RunnerConfig) {s : Runner} {i : ℕ} {old : Invocation}
    (outcome : Except PyVal PyVal) (now : ℤ) (hold : s.invocations[i]? = some old) :
    ∃ inv, Proceeds s (s.resolve cfg i outcome now) i old inv ∧ inv.meta = old.meta ∧
      inv.outcome = some outcome ∧ inv.pc ≠ .running ∧
      ((s.resolve cfg i outcome now).written = s.written ∨
        ∃ data, response cfg inv.meta inv.transactionId outcome = .ok data ∧
          (s.resolve cfg i outcome now).written = s.written ++ [(i, data)]) := by
  have hfinish := finish_frame i { old with outcome := some outcome } now s
  have hproceeds : Proceeds s (s.finish i { old with outcome := some outcome } now) i old
      { old with pc := .finished, outcome := some outcome } :=
    proceeds_finish now hold rfl rfl
  unfold resolve
  rw [hold]
  simp only [respond]
  split
  · exact ⟨{ old with pc := .dropped, outcome := some outcome },
      ⟨hold, rfl, rfl, rfl, rfl⟩, rfl, rfl, nofun, Or.inl rfl⟩
  · split
    · exact ⟨{ old with pc := .finished, outcome := some outcome }, hproceeds, rfl, rfl,
        nofun, Or.inl hfinish.2.2.1⟩
    · rename_i data hresponse
      split
      · exact ⟨{ old with pc := .finished, outcome := some outcome }, hproceeds, rfl, rfl,
          nofun, Or.inl hfinish.2.2.1⟩
      · exact ⟨{ old with pc := .writing, outcome := some outcome },
          ⟨hold, rfl, rfl, rfl, rfl⟩, rfl, rfl, nofun, Or.inr ⟨data, hresponse, rfl⟩⟩

/-! ## Requests -/

/-- The packet holds the request of the invocation. -/
structure Carries (cfg : RunnerConfig) (inv : Invocation) (p : ℕ × List UInt8) : Prop where
  transactionId : inv.transactionId = p.1
  request : cfg.serializer.loads (some p.2) = .ok (.request inv.request)

/-- The packets `ps` have been read from what has arrived, and `qs` are those whose
requests were invoked. -/
structure Consumed (cfg : RunnerConfig) (s : Runner) (arrived : List UInt8)
    (ps qs : List (ℕ × List UInt8)) : Prop where
  readOff : ReadOff packetCode Encodable arrived ps s.incoming
  sublist : qs.Sublist ps
  carried : List.Forall₂ (Carries cfg) s.invocations qs

namespace Consumed

variable {cfg : RunnerConfig} {s t : Runner} {arrived : List UInt8}
  {ps qs : List (ℕ × List UInt8)}

theorem kept (h : Consumed cfg s arrived ps qs) (hkept : Kept s t) :
    Consumed cfg t arrived ps qs where
  readOff := by
    rw [hkept.incoming]
    exact h.readOff
  sublist := h.sublist
  carried := by
    rw [hkept.invocations]
    exact h.carried

/-- The stages of a request do not matter. -/
theorem proceeds (h : Consumed cfg s arrived ps qs) {i : ℕ} {old inv : Invocation}
    (hp : Proceeds s t i old inv) : Consumed cfg t arrived ps qs where
  readOff := by
    rw [hp.incoming]
    exact h.readOff
  sublist := h.sublist
  carried := by
    rw [hp.invocations, List.forall₂_iff_get]
    have hall := List.forall₂_iff_get.mp h.carried
    refine ⟨by rw [List.length_set]; exact hall.1, ?_⟩
    intro j hj hq
    rw [List.length_set] at hj
    have hold := hall.2 j hj hq
    by_cases hij : i = j
    · subst hij
      have hget : s.invocations[i] = old :=
        Option.some.inj ((List.getElem?_eq_getElem hj).symm.trans hp.found)
      simp only [List.get_eq_getElem, List.getElem_set_self] at hold ⊢
      rw [hget] at hold
      exact ⟨hp.transactionId.trans hold.transactionId, by rw [hp.request]; exact hold.request⟩
    · simpa only [List.get_eq_getElem, List.getElem_set_ne hij] using hold

/-- The packet at the front is read, and its request invoked or not. -/
theorem read (hrecord : cfg.transport = recordTransport) (h : Consumed cfg s arrived ps qs)
    (refused : Option Exc) (now : ℤ) :
    ∃ ps' qs', Consumed cfg (s.readDone cfg refused now) arrived ps' qs' := by
  rcases readDone_takes hrecord refused now s with hkept | ⟨p, rest, hdec, htaken⟩
  · exact ⟨ps, qs, h.kept hkept⟩
  · have hnext := h.readOff.next packetCode_exact hdec
    rcases htaken with hkept | ⟨request, hloads, hinvoked⟩
    · have hread : Consumed cfg { s with incoming := rest } arrived (ps ++ [p]) qs :=
        ⟨hnext, h.sublist.trans (List.sublist_append_left _ _), h.carried⟩
      exact ⟨_, _, hread.kept hkept⟩
    · refine ⟨ps ++ [p], qs ++ [p], ?_, h.sublist.append (List.Sublist.refl _), ?_⟩
      · rw [hinvoked.incoming]
        exact hnext
      · rcases hinvoked.invocations with ⟨inv, rfl, hid, heq⟩
        rw [heq]
        exact List.rel_append h.carried (List.Forall₂.cons ⟨hid, hloads⟩ List.Forall₂.nil)

/-- The invocations have the ids of their packets. -/
theorem ids (h : Consumed cfg s arrived ps qs) :
    s.invocations.map Invocation.transactionId = qs.map Prod.fst := by
  have hall : ∀ (invs : List Invocation) (qs : List (ℕ × List UInt8)),
      List.Forall₂ (Carries cfg) invs qs →
      invs.map Invocation.transactionId = qs.map Prod.fst := by
    intro invs qs hinvs
    induction hinvs with
    | nil => rfl
    | cons hc _ ih => rw [List.map_cons, List.map_cons, hc.transactionId, ih]
  exact hall _ _ h.carried

/-- The packet of an invocation has been read. -/
theorem packet_of (h : Consumed cfg s arrived ps qs) {j : ℕ} {inv : Invocation}
    (hinv : s.invocations[j]? = some inv) : ∃ q ∈ ps, Carries cfg inv q := by
  have hall := List.forall₂_iff_get.mp h.carried
  obtain ⟨hj, rfl⟩ := List.getElem?_eq_some_iff.mp hinv
  have hq : j < qs.length := hall.1 ▸ hj
  exact ⟨qs.get ⟨j, hq⟩, h.sublist.subset (List.get_mem qs ⟨j, hq⟩), hall.2 j hj hq⟩

end Consumed

/-- A connection that has just been accepted has read nothing. -/
theorem consumed_new (cfg : RunnerConfig) (now : ℤ) : Consumed cfg (new cfg now) [] [] [] := by
  have haccepted : Consumed cfg (accepted now) [] [] [] :=
    ⟨ReadOff.nil _ _, List.Sublist.refl _, List.Forall₂.nil⟩
  exact haccepted.kept (kept_loop cfg now _)

/-- The bytes a step brings in. -/
def Label.arrived : Label → List UInt8
  | .arrive bs => bs
  | _ => []

/-- The requests invoked are those of the packets that arrive, in order. -/
theorem consumed_step {cfg : RunnerConfig} (hrecord : cfg.transport = recordTransport) {l : Label}
    {s : Runner} {arrived : List UInt8} {ps qs : List (ℕ × List UInt8)} (hg : guard cfg l s)
    (h : Consumed cfg s arrived ps qs) :
    ∃ ps' qs', Consumed cfg (update cfg l s) (arrived ++ l.arrived) ps' qs' := by
  -- all steps but one bring no bytes in
  have hsame : (∃ ps' qs', Consumed cfg (update cfg l s) arrived ps' qs') → l.arrived = [] →
      ∃ ps' qs', Consumed cfg (update cfg l s) (arrived ++ l.arrived) ps' qs' := by
    intro hc hnil
    rw [hnil, List.append_nil]
    exact hc
  cases l with
  | arrive bs => exact ⟨ps, qs, h.readOff.arrive bs, h.sublist, h.carried⟩
  | peerClose => exact hsame ⟨ps, qs, h.kept ⟨rfl, rfl, rfl⟩⟩ rfl
  | readDone refused now => exact hsame (h.read hrecord refused now) rfl
  | readFail ex now => exact hsame ⟨ps, qs, h.kept (kept_handle ex now s)⟩ rfl
  | wake now => exact hsame ⟨ps, qs, h.kept (kept_loop cfg now s)⟩ rfl
  | respond i outcome now =>
      rcases hg with ⟨old, hold, _⟩
      rcases respond_proceeds cfg outcome now hold with ⟨inv, hp, _⟩
      exact hsame ⟨ps, qs, h.proceeds hp⟩ rfl
  | flushed i now =>
      rcases hg with ⟨old, hold, _⟩
      have hp := proceeds_finish now hold rfl rfl
      refine hsame ⟨ps, qs, ?_⟩ rfl
      show Consumed cfg (s.flush i now) arrived ps qs
      unfold flush
      rw [hold]
      exact h.proceeds hp
  | onConnectionClose =>
      have hkept := kept_notifyAll { s with streamClosed := true }
      exact hsame ⟨ps, qs, h.kept ⟨hkept.incoming, hkept.invocations, hkept.written⟩⟩ rfl
  | closeInactive =>
      have hkept := kept_notifyAll { s with closed := true }
      exact hsame ⟨ps, qs, h.kept ⟨hkept.incoming, hkept.invocations, hkept.written⟩⟩ rfl

/-! ## Responses -/

/-- The packet answers request `i` with what its future was resolved with. -/
def Answers (cfg : RunnerConfig) (s : Runner) (i : ℕ) (data : List UInt8) : Prop :=
  ∃ inv outcome, s.invocations[i]? = some inv ∧ inv.pc ≠ .running ∧
    inv.outcome = some outcome ∧
    response cfg inv.meta inv.transactionId outcome = .ok data

/-- Every packet written answers the request it is written for. -/
def Responded (cfg : RunnerConfig) (s : Runner) : Prop :=
  ∀ i data, (i, data) ∈ s.written → Answers cfg s i data

theorem Responded.congr {cfg : RunnerConfig} {s t : Runner} (h : Responded cfg s)
    (hwritten : t.written = s.written) (hinv : t.invocations = s.invocations) :
    Responded cfg t := by
  intro i data hmem
  rw [hwritten] at hmem
  rcases h i data hmem with ⟨inv, outcome, hi, hrest⟩
  exact ⟨inv, outcome, by rw [hinv]; exact hi, hrest⟩

theorem Responded.read {cfg : RunnerConfig} {s t : Runner} (h : Responded cfg s)
    (hframe : ReadFrame s t) : Responded cfg t := by
  intro i data hmem
  rw [hframe.written] at hmem
  rcases h i data hmem with ⟨inv, outcome, hi, hrest⟩
  refine ⟨inv, outcome, ?_, hrest⟩
  rcases hframe.invocations with heq | ⟨new, _, heq⟩
  · rw [heq]
    exact hi
  · rw [heq, List.getElem?_append_left (List.getElem?_eq_some_iff.mp hi).1]
    exact hi

/-- A request that is not answered yet goes on. -/
theorem Answers.other {cfg : RunnerConfig} {s t : Runner} {i j : ℕ} {data : List UInt8}
    {old inv : Invocation} (h : Answers cfg s j data) (hp : Proceeds s t i old inv)
    (hne : j ≠ i) : Answers cfg t j data := by
  rcases h with ⟨inv', outcome, hj, hrest⟩
  refine ⟨inv', outcome, ?_, hrest⟩
  rw [hp.invocations, List.getElem?_set_ne (Ne.symm hne)]
  exact hj

theorem responded_respond {cfg : RunnerConfig} {s : Runner} (h : Responded cfg s) {i : ℕ}
    {old : Invocation} (outcome : Except PyVal PyVal) (now : ℤ)
    (hold : s.invocations[i]? = some old) (hpc : old.pc = .running) :
    Responded cfg (s.resolve cfg i outcome now) := by
  rcases respond_proceeds cfg outcome now hold with ⟨inv, hp, _, hout, hrun, hwritten⟩
  -- a request that was running has no packet yet
  have hother : ∀ j data, (j, data) ∈ s.written →
      Answers cfg (s.resolve cfg i outcome now) j data := by
    intro j data hmem
    apply (h j data hmem).other hp
    rintro rfl
    rcases h j data hmem with ⟨inv', _, hj, hnot, _⟩
    rw [hold] at hj
    cases hj
    exact hnot hpc
  intro j data hmem
  rcases hwritten with heq | ⟨new, hresponse, heq⟩
  · rw [heq] at hmem
    exact hother j data hmem
  · rw [heq] at hmem
    rcases List.mem_append.mp hmem with hmem | hnew
    · exact hother j data hmem
    · cases List.mem_singleton.mp hnew
      refine ⟨inv, outcome, ?_, hrun, hout, hresponse⟩
      rw [hp.invocations, List.getElem?_set_self (List.getElem?_eq_some_iff.mp hold).1]

theorem responded_flush {cfg : RunnerConfig} {s : Runner} (h : Responded cfg s) {i : ℕ}
    {old : Invocation} (now : ℤ) (hold : s.invocations[i]? = some old) :
    Responded cfg (s.flush i now) := by
  have hwritten := (finish_frame i old now s).2.2.1
  have hp := proceeds_finish now hold rfl rfl
  unfold flush
  rw [hold]
  intro j data hmem
  rw [show (s.finish i old now).written = s.written from hwritten] at hmem
  by_cases hji : j = i
  · subst hji
    rcases h j data hmem with ⟨inv, outcome, hj, _, hout, hresponse⟩
    rw [hold] at hj
    cases hj
    refine ⟨{ old with pc := .finished }, outcome, ?_, nofun, hout, hresponse⟩
    rw [hp.invocations, List.getElem?_set_self (List.getElem?_eq_some_iff.mp hold).1]
  · exact (h j data hmem).other hp hji

theorem responded_step {cfg : RunnerConfig} {l : Label} {s : Runner} (hg : guard cfg l s)
    (h : Responded cfg s) : Responded cfg (update cfg l s) := by
  cases l with
  | arrive bs => exact h
  | peerClose => exact h
  | readDone refused now => exact h.read (readDone_frame cfg refused now s)
  | readFail ex now => exact h.read (handle_frame ex now (ReadFrame.refl s))
  | wake now => exact h.read (loop_frame cfg now (ReadFrame.refl s))
  | respond i outcome now =>
      rcases hg with ⟨inv, hinv, hpc, _⟩
      exact responded_respond h outcome now hinv hpc
  | flushed i now =>
      rcases hg with ⟨inv, hinv, _⟩
      exact responded_flush h now hinv
  | onConnectionClose =>
      have hkept := kept_notifyAll { s with streamClosed := true }
      exact h.congr hkept.written hkept.invocations
  | closeInactive =>
      have hkept := kept_notifyAll { s with closed := true }
      exact h.congr hkept.written hkept.invocations

theorem responded_reachable (cfg : RunnerConfig) :
    ∀ s, (system cfg).Reachable s → Responded cfg s := by
  apply Lts.Spec.invariant
  · rintro s ⟨now, rfl⟩
    have haccepted : Responded cfg (accepted now) := by
      intro i data hmem
      cases hmem
    exact haccepted.read (loop_frame cfg now (ReadFrame.refl _))
  · intro l s hg h
    exact responded_step hg h

/-! ## The bytes written -/

/-- What has been handed to the stream. -/
def output (s : Runner) : List UInt8 := s.written.flatMap Prod.snd

/-- Packets are written one after the other. -/
theorem written_update {cfg : RunnerConfig} {l : Label} {s : Runner} (hg : guard cfg l s) :
    s.written <+: (update cfg l s).written := by
  have hsame : ∀ t : Runner, t.written = s.written → s.written <+: t.written := by
    intro t heq
    rw [heq]
  cases l with
  | arrive bs => exact hsame _ rfl
  | peerClose => exact hsame _ rfl
  | readDone refused now => exact hsame _ (readDone_frame cfg refused now s).written
  | readFail ex now => exact hsame _ (kept_handle ex now s).written
  | wake now => exact hsame _ (kept_loop cfg now s).written
  | respond i outcome now =>
      rcases hg with ⟨old, hold, _⟩
      rcases respond_proceeds cfg outcome now hold with ⟨_, _, _, _, _, heq | ⟨data, _, heq⟩⟩
      · exact hsame _ heq
      · show _ <+: (s.resolve cfg i outcome now).written
        rw [heq]
        exact List.prefix_append _ _
  | flushed i now =>
      rcases hg with ⟨old, hold, _⟩
      apply hsame
      show (s.flush i now).written = _
      unfold flush
      rw [hold]
      exact (finish_frame i old now s).2.2.1
  | onConnectionClose => exact hsame _ (kept_notifyAll { s with streamClosed := true }).written
  | closeInactive => exact hsame _ (kept_notifyAll { s with closed := true }).written

theorem output_update {cfg : RunnerConfig} {l : Label} {s : Runner} (hg : guard cfg l s) :
    s.output <+: (update cfg l s).output := by
  obtain ⟨new, heq⟩ := written_update hg
  unfold output
  rw [← heq, List.flatMap_append]
  exact List.prefix_append _ _

/-- The packet carries the result of invocation `j` under its transaction id. -/
structure ResponseOf (cfg : RunnerConfig) (s : Runner) (p : ℕ × List UInt8) (j : ℕ)
    (inv : Invocation) (outcome : Except PyVal PyVal) : Prop where
  found : s.invocations[j]? = some inv
  transactionId : inv.transactionId = p.1
  resolved : inv.outcome = some outcome
  dumps : cfg.serializer.dumps (.result (toResult inv.meta outcome)) = .ok p.2

/-- The bytes written are the packets of results, one after the other. -/
theorem output_eq {cfg : RunnerConfig} (hrecord : cfg.transport = recordTransport) {s : Runner}
    (h : Responded cfg s) :
    ∃ rs, s.output = packetCode.encAll rs ∧ (∀ p ∈ rs, Encodable p) ∧
      ∀ p ∈ rs, ∃ j inv outcome, ResponseOf cfg s p j inv outcome := by
  -- the first packets, for any of them
  have hall : ∀ l : List (ℕ × List UInt8), (∀ i data, (i, data) ∈ l → Answers cfg s i data) →
      ∃ rs, l.flatMap Prod.snd = packetCode.encAll rs ∧ (∀ p ∈ rs, Encodable p) ∧
        ∀ p ∈ rs, ∃ j inv outcome, ResponseOf cfg s p j inv outcome := by
    intro l
    induction l with
    | nil =>
        intro _
        exact ⟨[], rfl, fun _ hp => absurd hp List.not_mem_nil,
          fun _ hp => absurd hp List.not_mem_nil⟩
    | cons item l ih =>
        intro hl
        obtain ⟨i, data⟩ := item
        obtain ⟨rs, heq, henc, hres⟩ := ih fun j d hmem => hl j d (List.mem_cons_of_mem _ hmem)
        rcases hl i data List.mem_cons_self with ⟨inv, outcome, hi, _, hout, hresponse⟩
        rcases response_eq_ok.mp hresponse with ⟨buff, hdumps, hdata⟩
        rw [hrecord] at hdata
        obtain ⟨hfits, rfl⟩ := generatePacket_eq_enc.mp hdata
        refine ⟨(inv.transactionId, buff) :: rs, ?_, ?_, ?_⟩
        · rw [List.flatMap_cons, heq, Code.encAll_cons]
        · intro p hp
          rcases List.mem_cons.mp hp with rfl | hold
          · exact hfits
          · exact henc p hold
        · intro p hp
          rcases List.mem_cons.mp hp with rfl | hold
          · exact ⟨i, inv, outcome, hi, rfl, hout, hdumps⟩
          · exact hres p hold
  exact hall s.written h

end Runner

end SummerRpc
