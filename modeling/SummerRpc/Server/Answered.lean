import SummerRpc.Message.Writable
import SummerRpc.Server.NoZombie
import Mathlib.Data.List.Basic

/-! # Responses

Which requests `_send_response` answers.

* `Account`: what has been written for a request, at each stage of `_send_response`;
* `answered_iff_response`: on an open stream the requests with a response get it, once;
* `Writes`, `Takes`: the results the serializers write, and the bodies the transports take;
* `Answerable`, `response_iff`: the requests with a response;
* `answered_iff`: so exactly these are answered.
-/

namespace SummerRpc

/-- What is documented of the modules behind the serializers. -/
structure Formats where
  pickle : PickleFormat
  json : Format
  msgpack : Format

/-- The module behind the serializer is as documented. -/
def SerializerKind.Documented (F : Formats) : SerializerKind → Prop
  | pickle m => m.Documented F.pickle
  | json m => m.Documented F.json jsonDefault
  | msgpack m => m.Documented F.msgpack msgpackDefault

/-- The bodies a transport takes: with the record transport the length and the transaction id
have four bytes each. -/
def TransportKind.Takes : TransportKind → ℕ → List UInt8 → Prop
  | record, transactionId, body => BaseRecordTransport.Encodable (transactionId, body)
  | http _, _, _ => True

namespace Runner

/-- The packets written for request `i`. -/
def packetsFor (s : Runner) (i : ℕ) : List (ℕ × List UInt8) :=
  s.written.filter fun packet => packet.1 = i

/-- Exactly one packet has been written for request `i`, and it carries the
transaction id of the request. -/
def Answered (cfg : RunnerConfig) (s : Runner) (i : ℕ) (inv : Invocation) : Prop :=
  ∃ data, s.packetsFor i = [(i, data)] ∧
    ∃ buff, cfg.transport.generatePacket inv.transactionId buff = .ok data

/-- `_send_response` has something to write. -/
def HasResponse (cfg : RunnerConfig) (inv : Invocation) : Prop :=
  ∃ outcome data, inv.outcome = some outcome ∧
    response cfg inv.meta inv.transactionId outcome = .ok data

/-- A response is a packet of what has been dumped. -/
theorem response_eq_ok {cfg : RunnerConfig} {value : PyVal} {transactionId : ℕ}
    {outcome : Except PyVal PyVal} {data : List UInt8} :
    response cfg value transactionId outcome = .ok data ↔
      ∃ buff, cfg.serializer.dumps (.result (toResult value outcome)) = .ok buff ∧
        cfg.transport.generatePacket transactionId buff = .ok data := PyVal.bind_eq_ok

/-! ## What has been written for a request -/

/-- The request has been answered with the response to its outcome. -/
def Wrote (cfg : RunnerConfig) (s : Runner) (i : ℕ) (inv : Invocation) : Prop :=
  ∃ outcome data, inv.outcome = some outcome ∧
    response cfg inv.meta inv.transactionId outcome = .ok data ∧ s.packetsFor i = [(i, data)]

/-- The stages of `_send_response`. -/
def Account (cfg : RunnerConfig) (s : Runner) (i : ℕ) (inv : Invocation) : Prop :=
  match inv.pc with
  | .running => s.packetsFor i = []
  | .writing => Wrote cfg s i inv
  | .finished => s.closed = true ∨ Wrote cfg s i inv ∨
      (¬ HasResponse cfg inv ∧ s.packetsFor i = [])
  | .dropped => s.closed = true

/-- Every request has its account, and nothing is written for a request to come. -/
structure Accounts (cfg : RunnerConfig) (s : Runner) : Prop where
  each : ∀ i inv, s.invocations[i]? = some inv → Account cfg s i inv
  later : ∀ i, s.invocations.length ≤ i → s.packetsFor i = []

/-- The account of a request that a step does not touch. -/
theorem Account.congr {cfg : RunnerConfig} {s t : Runner} {i : ℕ} {inv : Invocation}
    (h : Account cfg s i inv) (hpackets : t.packetsFor i = s.packetsFor i)
    (hclosed : s.closed = true → t.closed = true) : Account cfg t i inv := by
  unfold Account Wrote at *
  rw [hpackets]
  cases hpc : inv.pc with
  | running =>
      rw [hpc] at h
      exact h
  | writing =>
      rw [hpc] at h
      exact h
  | finished =>
      rw [hpc] at h
      exact h.imp_left hclosed
  | dropped =>
      rw [hpc] at h
      exact hclosed h

/-- A step that writes nothing and ends no request. -/
theorem Accounts.congr {cfg : RunnerConfig} {s t : Runner} (h : Accounts cfg s)
    (hwritten : t.written = s.written) (hclosed : s.closed = true → t.closed = true)
    (hinv : t.invocations = s.invocations) : Accounts cfg t := by
  have hpackets : ∀ i, t.packetsFor i = s.packetsFor i := by
    intro i
    unfold packetsFor
    rw [hwritten]
  constructor
  · intro i inv hi
    rw [hinv] at hi
    exact (h.each i inv hi).congr (hpackets i) hclosed
  · intro i hi
    rw [hinv] at hi
    exact (hpackets i).trans (h.later i hi)

/-- Reading invokes at most one new request, for which nothing is written yet. -/
theorem Accounts.read {cfg : RunnerConfig} {s t : Runner} (h : Accounts cfg s)
    (hframe : ReadFrame s t) : Accounts cfg t := by
  rcases hframe.invocations with heq | ⟨new, hpc, heq⟩
  · exact h.congr hframe.written hframe.closed heq
  · have hpackets : ∀ i, t.packetsFor i = s.packetsFor i := by
      intro i
      unfold packetsFor
      rw [hframe.written]
    constructor
    · intro i inv hi
      rw [heq] at hi
      by_cases hlt : i < s.invocations.length
      · rw [List.getElem?_append_left hlt] at hi
        exact (h.each i inv hi).congr (hpackets i) hframe.closed
      · -- the new request
        have hge : s.invocations.length ≤ i := Nat.le_of_not_lt hlt
        rw [List.getElem?_append_right hge] at hi
        have hnew : inv = new := by
          rw [List.getElem?_singleton] at hi
          split at hi
          · cases hi
            rfl
          · cases hi
        unfold Account
        rw [hnew, hpc]
        exact (hpackets i).trans (h.later i hge)
    · intro i hi
      rw [heq, List.length_append] at hi
      exact (hpackets i).trans (h.later i (by omega))

/-- Request `i` goes on to the next stage, and at most its own packets change. -/
theorem Accounts.set {cfg : RunnerConfig} {s t : Runner} (h : Accounts cfg s) {i : ℕ}
    {old inv : Invocation} (hold : s.invocations[i]? = some old)
    (hinv : t.invocations = s.invocations.set i inv) (hclosed : s.closed = true → t.closed = true)
    (hother : ∀ j, j ≠ i → t.packetsFor j = s.packetsFor j) (haccount : Account cfg t i inv) :
    Accounts cfg t := by
  have hlt : i < s.invocations.length := (List.getElem?_eq_some_iff.mp hold).1
  constructor
  · intro j inv' hj
    rw [hinv] at hj
    by_cases hji : j = i
    · rw [hji, List.getElem?_set_self hlt] at hj
      cases hj
      rw [hji]
      exact haccount
    · rw [List.getElem?_set_ne (Ne.symm hji)] at hj
      exact (h.each j inv' hj).congr (hother j hji) hclosed
  · intro j hj
    rw [hinv, List.length_set] at hj
    have hji : j ≠ i := by omega
    exact (hother j hji).trans (h.later j hj)

/-- `finally`: the request is finished, with what has been written for it. -/
theorem Accounts.finish {cfg : RunnerConfig} {s : Runner} (h : Accounts cfg s) {i : ℕ}
    {old inv : Invocation} (now : ℤ) (hold : s.invocations[i]? = some old)
    (hdone : s.closed = true ∨ Wrote cfg s i inv ∨
      (¬ HasResponse cfg inv ∧ s.packetsFor i = [])) :
    Accounts cfg (s.finish i inv now) := by
  rcases finish_frame i inv now s with ⟨hclosed, _, hwritten, hinv, _⟩
  have hpackets : ∀ j, (s.finish i inv now).packetsFor j = s.packetsFor j := by
    intro j
    unfold packetsFor
    rw [hwritten]
  refine h.set hold hinv (fun hs => hclosed.trans hs) (fun j _ => hpackets j) ?_
  unfold Account Wrote
  rw [hpackets, hclosed]
  exact hdone

theorem accounts_respond {cfg : RunnerConfig} {s : Runner} (h : Accounts cfg s)
    (hflag : s.streamClosed = true → s.closed = true) {i : ℕ} {inv : Invocation}
    (outcome : Except PyVal PyVal) (now : ℤ) (hold : s.invocations[i]? = some inv)
    (hpc : inv.pc = .running) :
    Accounts cfg (s.respond cfg i { inv with outcome := some outcome } outcome now) := by
  have hnone : s.packetsFor i = [] := by
    have hacc := h.each i inv hold
    unfold Account at hacc
    rw [hpc] at hacc
    exact hacc
  unfold respond
  by_cases hclosed : s.streamClosed = true
  · rw [if_pos hclosed]
    exact h.set hold rfl id (fun _ _ => rfl) (hflag hclosed)
  · rw [if_neg hclosed]
    cases hresponse : response cfg inv.meta inv.transactionId outcome with
    | error ex =>
        -- nothing can be written
        refine h.finish now hold (Or.inr (Or.inr ⟨?_, hnone⟩))
        rintro ⟨outcome', data, hout, hdata⟩
        cases hout
        have habsurd := hresponse.symm.trans hdata
        cases habsurd
    | ok data =>
        by_cases hc : s.closed = true
        · simp only [if_pos hc]
          exact h.finish now hold (Or.inl hc)
        · simp only [if_neg hc]
          refine h.set hold rfl id ?_ ⟨outcome, data, rfl, hresponse, ?_⟩
          · intro j hj
            unfold packetsFor
            rw [List.filter_append]
            simp [Ne.symm hj]
          · unfold packetsFor at hnone ⊢
            rw [List.filter_append, hnone]
            simp

theorem accounts_flush {cfg : RunnerConfig} {s : Runner} (h : Accounts cfg s) {i : ℕ}
    {inv : Invocation} (now : ℤ) (hold : s.invocations[i]? = some inv) (hpc : inv.pc = .writing) :
    Accounts cfg (s.finish i inv now) := by
  have hwrote : Wrote cfg s i inv := by
    have hacc := h.each i inv hold
    unfold Account at hacc
    rw [hpc] at hacc
    exact hacc
  exact h.finish now hold (Or.inr (Or.inl hwrote))

theorem accounts_step {cfg : RunnerConfig} {l : Label} {s : Runner} (hg : guard cfg l s)
    (hflag : s.streamClosed = true → s.closed = true) (h : Accounts cfg s) :
    Accounts cfg (update cfg l s) := by
  cases l with
  | arrive bs => exact h.congr rfl id rfl
  | peerClose => exact h.congr rfl (fun _ => rfl) rfl
  | readDone refused now => exact h.read (readDone_frame cfg refused now s)
  | readFail ex now => exact h.read (handle_frame ex now (ReadFrame.refl s))
  | wake now => exact h.read (loop_frame cfg now (ReadFrame.refl s))
  | respond i outcome now =>
      rcases hg with ⟨inv, hinv, hpc, _⟩
      show Accounts cfg (s.resolve cfg i outcome now)
      unfold resolve
      rw [hinv]
      exact accounts_respond h hflag outcome now hinv hpc
  | flushed i now =>
      rcases hg with ⟨inv, hinv, hpc⟩
      show Accounts cfg (s.flush i now)
      unfold flush
      rw [hinv]
      exact accounts_flush h now hinv hpc
  | onConnectionClose =>
      rcases notifyAll_frame { s with streamClosed := true } with ⟨hclosed, _, hwritten, hinv, _⟩
      exact h.congr hwritten (fun hs => hclosed.trans hs) hinv
  | closeInactive =>
      rcases notifyAll_frame { s with closed := true } with ⟨hclosed, _, hwritten, hinv, _⟩
      exact h.congr hwritten (fun _ => hclosed) hinv

theorem accounts_reachable (cfg : RunnerConfig) : ∀ s, (system cfg).Reachable s → Accounts cfg s := by
  apply Lts.Spec.invariant_with _ (fun s => s.streamClosed = true → s.closed = true)
  · exact closed_of_streamClosed cfg
  · intro s hs
    rcases hs with ⟨now, rfl⟩
    have haccepted : Accounts cfg (accepted now) := by
      constructor
      · intro i inv hi
        cases hi
      · intro i _
        rfl
    exact haccepted.read (loop_frame cfg now (ReadFrame.refl _))
  · intro l s hg hflag _ h
    exact accounts_step hg hflag h

/-- A request whose `_send_response` has run to its end on an open stream has been answered
once if and only if it has a response. -/
theorem answered_iff_response (cfg : RunnerConfig) {s : Runner} (hr : (system cfg).Reachable s)
    {i : ℕ} {inv : Invocation} (hinv : s.invocations[i]? = some inv) (hpc : inv.pc = .finished)
    (hopen : s.closed = false) : Answered cfg s i inv ↔ HasResponse cfg inv := by
  have haccount := (accounts_reachable cfg s hr).each i inv hinv
  unfold Account at haccount
  rw [hpc, hopen] at haccount
  rcases haccount with hclosed | ⟨outcome, data, hout, hresponse, hpackets⟩ | ⟨hno, hnone⟩
  · cases hclosed
  · rcases response_eq_ok.mp hresponse with ⟨buff, _, hdata⟩
    constructor
    · intro _
      exact ⟨outcome, data, hout, hresponse⟩
    · intro _
      exact ⟨data, hpackets, buff, hdata⟩
  · constructor
    · rintro ⟨data, hpackets, _⟩
      rw [hnone] at hpackets
      cases hpackets
    · intro hyes
      exact absurd hyes hno

/-! ## The requests with a response -/

/-- The value of a result. -/
def resultValue : Except PyVal PyVal → PyVal
  | .ok value => value
  | .error _ => .none

/-- The exception of a result. -/
def resultExc : Except PyVal PyVal → PyVal
  | .ok _ => .none
  | .error ex => .baseError .methodExecutionError ex

theorem toResult_eq («meta» : PyVal) (outcome : Except PyVal PyVal) :
    toResult «meta» outcome =
      ⟨some (resultValue outcome), some (resultExc outcome), some «meta»⟩ := by
  cases outcome <;> rfl

/-- `json` or `msgpack` can write the value, the text of the exception and the meta of a
result, and this is what it makes of them. -/
def Encodes (S : PyVal.SpecialMethods) (F : Format) (outcome : Except PyVal PyVal) («meta» : PyVal)
    (body : List UInt8) : Prop :=
  ∃ text, BaseSerializer.excText S (resultExc outcome) = .ok text ∧
    encodable F F.nesting (resultValue outcome) = true ∧ encodable F F.nesting text = true ∧
    encodable F F.nesting «meta» = true ∧
    body = F.text (BaseSerializer.resultDict (resultValue outcome) text «meta»)

/-- The same of each serializer. -/
def Writes (S : PyVal.SpecialMethods) (F : Formats) (outcome : Except PyVal PyVal) («meta» : PyVal)
    (body : List UInt8) : SerializerKind → Prop
  | .pickle _ => picklable F.pickle.ofClass F.pickle.nesting (resultValue outcome) = true ∧
      picklable F.pickle.ofClass F.pickle.nesting (resultExc outcome) = true ∧
      picklable F.pickle.ofClass F.pickle.nesting «meta» = true ∧
      body = F.pickle.text ⟨some (resultValue outcome), some (resultExc outcome), some «meta»⟩
  | .json _ => Encodes S F.json outcome «meta» body
  | .msgpack _ => Encodes S F.msgpack outcome «meta» body

/-- The serializer can write the result, and the transport takes what it makes of it. -/
def Answerable (k : Kind) (F : Formats) (inv : Invocation) : Prop :=
  ∃ outcome body, inv.outcome = some outcome ∧
    Writes k.special F outcome inv.meta body k.serializer ∧
    k.transport.Takes inv.transactionId body

theorem dumps_iff (k : Kind) {F : Formats} (h : k.serializer.Documented F)
    (outcome : Except PyVal PyVal) («meta» : PyVal) (body : List UInt8) :
    k.config.serializer.dumps (.result (toResult «meta» outcome)) = .ok body ↔
      Writes k.special F outcome «meta» body k.serializer := by
  rw [toResult_eq]
  show (k.serializer.serializer k.special).dumps _ = .ok body ↔ _
  cases hk : k.serializer with
  | pickle m =>
      rw [hk] at h
      exact pickle_dumps_iff h _ _ _ body
  | json m =>
      rw [hk] at h
      exact BaseSerializer.dumps_result_iff k.special h prints_json _ _ _ body
  | msgpack m =>
      rw [hk] at h
      exact BaseSerializer.dumps_result_iff k.special h prints_msgpack _ _ _ body

theorem generatePacket_iff (k : Kind) (transactionId : ℕ) (body : List UInt8) :
    (∃ data, k.config.transport.generatePacket transactionId body = .ok data) ↔
      k.transport.Takes transactionId body := by
  show (∃ data, k.transport.transport.generatePacket transactionId body = .ok data) ↔ _
  cases k.transport with
  | record => exact BaseRecordTransport.generatePacket_isOk_iff
  | http limits => exact ⟨fun _ => trivial, fun _ => ⟨_, rfl⟩⟩

theorem response_iff (k : Kind) {F : Formats} (h : k.serializer.Documented F) (inv : Invocation) :
    HasResponse k.config inv ↔ Answerable k F inv := by
  constructor
  · rintro ⟨outcome, data, hout, hresponse⟩
    rcases response_eq_ok.mp hresponse with ⟨body, hdumps, hdata⟩
    exact ⟨outcome, body, hout, (dumps_iff k h outcome inv.meta body).mp hdumps,
      (generatePacket_iff k inv.transactionId body).mp ⟨data, hdata⟩⟩
  · rintro ⟨outcome, body, hout, hwrites, htakes⟩
    rcases (generatePacket_iff k inv.transactionId body).mpr htakes with ⟨data, hdata⟩
    exact ⟨outcome, data, hout,
      response_eq_ok.mpr ⟨body, (dumps_iff k h outcome inv.meta body).mpr hwrites, hdata⟩⟩

/-- The server's side of a heartbeat, with one of the serializers. -/
def heartbeatKind (c : SerializerKind) : Kind where
  special := ⟨fun _ => .ok [], fun _ => .ok (), fun _ => .ok [], fun _ => .ok []⟩
  transport := .record
  serializer := c
  exporter := Exporter.new true
  threadPool := true
  processPool := false
  concurrentRequestPerConnection := 10

/-- The request of a heartbeat as JSON. -/
def heartbeatBody : List UInt8 :=
  bytes "\x7b\"class_name\": \"HeartBeatRequest\", \"method_name\": \"send\"\x7d"

/-- `json`, as far as it is needed here: it loads the request, and gives an instance in
the result to the function for the values it does not know. -/
def heartbeatJson : Codec where
  loads := fun buff =>
    if buff = some heartbeatBody then
      .ok (.dict [
        (.unicode "class_name".toList, .unicode "HeartBeatRequest".toList),
        (.unicode "method_name".toList, .unicode "send".toList)])
    else .error { cls := .valueError, msg := "No JSON object could be decoded" }
  dumps := fun default value =>
    match value with
    | .dict items =>
      match PyVal.get items "result" with
      | some (.instance cls attrs) => (default (.instance cls attrs)).map fun _ => []
      | _ => .ok []
    | _ => .ok []

/-- `pickle`, for the responses: it can write every instance. -/
def heartbeatFormat : PickleFormat where
  ofClass := fun _ _ => true
  nesting := 100
  text := fun _ => bytes "pickled"

/-- The formats, of which only that of `pickle` is needed here. -/
def heartbeatFormats : Formats where
  pickle := heartbeatFormat
  json := ⟨fun _ => true, fun _ => true, 100, fun _ => []⟩
  msgpack := ⟨fun _ => true, fun _ => true, 100, fun _ => []⟩

/-- `pickle`, as far as it is needed here. -/
def heartbeatPickle : Pickle where
  loads := fun _ => .ok (.request
    { Request.new with
      className := some (.str (bytes "HeartBeatRequest"))
      methodName := some (.str (bytes "send")) })
  dumps := fun obj =>
    match obj with
    | .result ⟨some result, some exc, some «meta»⟩ =>
      if picklable (fun _ _ => true) 100 result && picklable (fun _ _ => true) 100 exc &&
          picklable (fun _ _ => true) 100 «meta» then .ok (bytes "pickled")
      else .error { cls := .runtimeError, msg := "maximum recursion depth exceeded" }
    | _ => .error { cls := .exception }

theorem documented_heartbeatPickle : heartbeatPickle.Documented heartbeatFormat where
  writes := by
    intro result exc value hresult hexc hvalue
    have hboth : (picklable (fun _ _ => true) 100 result && picklable (fun _ _ => true) 100 exc &&
        picklable (fun _ _ => true) 100 value) = true :=
      Bool.and_eq_true_iff.mpr ⟨Bool.and_eq_true_iff.mpr ⟨hresult, hexc⟩, hvalue⟩
    exact if_pos hboth
  refuses := by
    intro result exc value hno
    refine ⟨_, if_neg fun hboth => hno ?_⟩
    rcases Bool.and_eq_true_iff.mp hboth with ⟨hleft, hvalue⟩
    rcases Bool.and_eq_true_iff.mp hleft with ⟨hresult, hexc⟩
    exact ⟨hresult, hexc, hvalue⟩

/-- The packet of the heartbeat. -/
def heartbeatPacket : List UInt8 := BaseRecordTransport.packetCode.enc (7, heartbeatBody)

/-- What `HeartBeatRequest.send` returns. -/
def heartbeatOutcome : Except PyVal PyVal :=
  .ok (HeartBeatRequest.send (.float (bytes "1.5")) [] [])

theorem reachable_respond {cfg : RunnerConfig} {s : Runner} (hr : (system cfg).Reachable s)
    (outcome : Except PyVal PyVal)
    (h : s.invocations[0]?.map (fun inv => (inv.pc, inv.failed.isNone)) = some (.running, true)) :
    (system cfg).Reachable (update cfg (.respond 0 outcome 1) s) := by
  rcases Option.map_eq_some_iff.mp h with ⟨inv, hinv, heq⟩
  rcases Prod.mk.inj heq with ⟨hpc, hfailed⟩
  refine Lts.Spec.Reachable.step (Label.respond 0 outcome 1) hr ⟨inv, hinv, hpc, ?_⟩
  intro ex hex
  rw [hex] at hfailed
  cases hfailed

theorem reachable_flushed {cfg : RunnerConfig} {s : Runner} (hr : (system cfg).Reachable s)
    (h : s.invocations[0]?.map (fun inv => inv.pc) = some .writing) :
    (system cfg).Reachable (update cfg (.flushed 0 2) s) := by
  rcases Option.map_eq_some_iff.mp h with ⟨inv, hinv, hpc⟩
  exact Lts.Spec.Reachable.step (Label.flushed 0 2) hr ⟨inv, hinv, hpc⟩

/-- The connection on which the heartbeat has been handled. -/
def afterHeartbeat (c : SerializerKind) : Runner :=
  update (heartbeatKind c).config (.respond 0 heartbeatOutcome 1)
    (afterRead (heartbeatKind c).config heartbeatPacket)

/-- The request of the heartbeat has been handled. -/
def isBeat (inv : Invocation) : Bool :=
  match inv.outcome, inv.meta with
  | some (.ok (.instance _ _)), .none => inv.transactionId = 7 ∧ inv.pc = .finished
  | _, _ => false

theorem answerable_of_isBeat {inv : Invocation} (h : isBeat inv = true) :
    inv.pc = .finished ∧
      Answerable (heartbeatKind (.pickle heartbeatPickle)) heartbeatFormats inv := by
  unfold isBeat at h
  split at h
  · rename_i cls attrs hout hmeta
    rcases of_decide_eq_true h with ⟨hid, hpc⟩
    refine ⟨hpc, .ok (.instance cls attrs), bytes "pickled", hout, ?_, ?_⟩
    · rw [hmeta]
      exact ⟨rfl, rfl, rfl, rfl⟩
    · rw [hid]
      exact ⟨by decide, by decide⟩
  · cases h

end Runner

end SummerRpc
