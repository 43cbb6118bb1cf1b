import SummerRpc.Server.Runner

/-! # How `_run` ends

A connection whose `Runner` has stopped reading must be closed, or it stays counted
and open for nothing.

* `TransportKind`, `SerializerKind`: the transports and serializers of the server;
* `invokable`, `invoke_isOk`: the requests that `_invoke` can hand over;
* `contained`: what is read raises nothing but what `_run` catches;
* `stream_closed_of_terminated`: as long as that is so, a connection that is not read
  from any more is closed;
* `readDone_zombie`: and only then.
-/

namespace SummerRpc

/-- The transports of the server. -/
inductive TransportKind where
  | record
  | http (limits : HTTPTransport.Limits)

/-- The serializers. -/
inductive SerializerKind where
  | pickle (pickle : Pickle)
  | json (json : Codec)
  | msgpack (msgpack : Codec)

def TransportKind.transport : TransportKind → ServerTransport
  | record => recordTransport
  | http limits => httpTransport limits

def SerializerKind.serializer (S : PyVal.SpecialMethods) : SerializerKind → Serializer
  | pickle m => PickleSerializer m
  | json m => JsonSerializer S m
  | msgpack m => MsgpackSerializer S m

namespace Runner

/-- A server with one of the transports and one of the serializers. -/
structure Kind where
  special : PyVal.SpecialMethods
  transport : TransportKind
  serializer : SerializerKind
  exporter : Exporter
  threadPool : Bool
  processPool : Bool
  concurrentRequestPerConnection : ℕ

def Kind.config (k : Kind) : RunnerConfig where
  special := k.special
  transport := k.transport.transport
  serializer := k.serializer.serializer k.special
  exporter := k.exporter
  threadPool := k.threadPool
  processPool := k.processPool
  concurrentRequestPerConnection := k.concurrentRequestPerConnection

/-! ## What `_invoke` can hand over -/

/-- The two names can be put into one message. -/
def formats (S : PyVal.SpecialMethods) (value other : PyVal) : Bool :=
  if value.isUnicode || other.isUnicode then (value.toUnicode S).isOk && (other.toUnicode S).isOk
  else (value.toStr S).isOk && (other.toStr S).isOk

/-- `method(*args, **kwargs)` is a call. -/
def callable (S : PyVal.SpecialMethods) (args kwargs : PyVal) : Bool :=
  (args.star S).isOk && (kwargs.starStar S).isOk

/-- The names can be looked up, and the method found can be called or submitted; a
process pool may refuse it. -/
def startable (cfg : RunnerConfig) (refused : Option Exc)
    (className methodName args kwargs : PyVal) : Bool :=
  (className.hash cfg.special).isOk && (methodName.hash cfg.special).isOk &&
    match Exporter.lookup ((Exporter.lookup cfg.exporter.exported className).getD [])
        methodName with
    | none => formats cfg.special className methodName
    | some method =>
        if method.isCoroutine then callable cfg.special args kwargs
        else if method.runInSubprocess = some true ∧ cfg.processPool then true
        else if cfg.threadPool then callable cfg.special args kwargs && refused.isNone
        else true

/-- The attributes are there, and the method can be started. -/
def invokable (cfg : RunnerConfig) (refused : Option Exc) (request : Request) : Bool :=
  match request.className, request.methodName, request.args, request.kwargs with
  | some className, some methodName, some args, some kwargs =>
      request.meta.isSome && startable cfg refused className methodName args kwargs
  | _, _, _, _ => false

theorem format_isOk (S : PyVal.SpecialMethods) (start between stop : String)
    (value other : PyVal) :
    (PyVal.format S start between stop value other).isOk = formats S value other := by
  unfold PyVal.format formats
  by_cases hu : (value.isUnicode || other.isUnicode) = true
  · rw [if_pos hu, if_pos hu]
    cases value.toUnicode S <;> cases other.toUnicode S <;> rfl
  · rw [if_neg hu, if_neg hu]
    cases value.toStr S <;> cases other.toStr S <;> rfl

theorem call_isOk (S : PyVal.SpecialMethods) (args kwargs : PyVal) :
    (call S args kwargs).isOk = callable S args kwargs := by
  unfold call callable
  cases args.star S <;> cases kwargs.starStar S <;> rfl

theorem submit_isOk (S : PyVal.SpecialMethods) (refused : Option Exc) (args kwargs : PyVal) :
    (submit S refused args kwargs).isOk = (callable S args kwargs && refused.isNone) := by
  rw [← call_isOk]
  unfold submit
  cases call S args kwargs <;> cases refused <;> rfl

theorem isOk_map {α β : Type} (f : α → β) (x : Except Exc α) : (x.map f).isOk = x.isOk := by
  cases x <;> rfl

theorem startMissing_isOk (cfg : RunnerConfig) (className methodName : PyVal) :
    (startMissing cfg className methodName).isOk = formats cfg.special className methodName := by
  rw [← format_isOk cfg.special "the requested method:(" ", " ") is not exported"]
  exact isOk_map _ _

theorem startFound_isOk (cfg : RunnerConfig) (refused : Option Exc) (method : Method)
    (args kwargs : PyVal) :
    (startFound cfg refused method args kwargs).isOk =
      (if method.isCoroutine then callable cfg.special args kwargs
      else if method.runInSubprocess = some true ∧ cfg.processPool then true
      else if cfg.threadPool then callable cfg.special args kwargs && refused.isNone
      else true) := by
  unfold startFound
  split
  · rw [isOk_map, call_isOk]
  · split
    · cases submit cfg.special refused args kwargs <;> rfl
    · split
      · rw [isOk_map, submit_isOk]
      · rfl

theorem startMethod_isOk (cfg : RunnerConfig) (refused : Option Exc)
    (className methodName args kwargs : PyVal) :
    (startMethod cfg refused className methodName args kwargs).isOk =
      startable cfg refused className methodName args kwargs := by
  unfold startMethod startable Exporter.getMethod
  cases className.hash cfg.special with
  | error ex => rfl
  | ok _ =>
    cases methodName.hash cfg.special with
    | error ex => rfl
    | ok _ =>
      simp only [bind, Except.bind, pure, Except.pure]
      cases Exporter.lookup ((Exporter.lookup cfg.exporter.exported className).getD [])
          methodName with
      | none => exact startMissing_isOk cfg className methodName
      | some method => exact startFound_isOk cfg refused method args kwargs

theorem invoke_isOk (cfg : RunnerConfig) (refused : Option Exc) (request : Request)
    (transactionId : ℕ) (s : Runner) :
    (invoke cfg refused request transactionId s).1.isOk = invokable cfg refused request := by
  unfold invoke invokable
  cases request.className with
  | none => rfl
  | some className =>
    cases request.methodName with
    | none => rfl
    | some methodName =>
      cases request.args with
      | none => rfl
      | some args =>
        cases request.kwargs with
        | none => rfl
        | some kwargs =>
          have hstart := startMethod_isOk cfg refused className methodName args kwargs
          simp only [bind, Except.bind, getattr]
          cases hmethod : startMethod cfg refused className methodName args kwargs with
          | error ex =>
              rw [hmethod] at hstart
              rw [← hstart]
              exact (Bool.and_false _).symm
          | ok failed =>
              rw [hmethod] at hstart
              rw [← hstart]
              cases request.meta with
              | none => rfl
              | some value => rfl

/-! ## What is read -/

/-- The numbers in the header of an HTTP request are digits as soon as they are
alphanumeric. -/
def headerOk (t : TransportKind) (input : List UInt8) : Bool :=
  match t with
  | .record => true
  | .http limits =>
    match HTTPTransport.readHead limits .unbounded input with
    | .ok headers _ => HTTPTransport.numbersOk headers
    | _ => true

/-- `json` and `msgpack` raise nothing but `TypeError` and `ValueError` on the body. -/
def decodes (c : SerializerKind) (buff : Option (List UInt8)) : Bool :=
  match c with
  | .pickle _ => true
  | .json m | .msgpack m =>
    match m.loads buff with
    | .ok _ => true
    | .error ex => ex.cls.isA .typeError || ex.cls.isA .valueError

theorem read_expected {t : TransportKind} {input : List UInt8} {ex : Exc}
    (hok : headerOk t input = true) (h : t.transport.read input = .raised ex) :
    HTTPTransport.Expected ex := by
  cases t with
  | record =>
      -- reading bytes raises nothing
      rcases HTTPTransport.bind_raised h with hread | ⟨value, rest, _, hrest⟩
      · rw [RecordTransport.read_eq] at hread
        split at hread
        · cases hread
        · cases hread
      · cases hrest
  | http limits =>
      have hread : HTTPTransport.read limits .unbounded input = .raised ex := h
      rcases HTTPTransport.bind_raised hread with hhead | ⟨headers, rest, hhead, _⟩
      · exact HTTPTransport.readHead_expected limits hhead
      · have hof := HTTPTransport.read_of_head limits hhead
        simp only [headerOk, hhead] at hok
        rw [if_pos hok] at hof
        exact hof ex h

/-- A bad number makes the read raise a `ValueError`. -/
theorem read_unexpected {t : TransportKind} {input : List UInt8} (hno : headerOk t input = false) :
    ∃ ex, t.transport.read input = .raised ex ∧ ex.cls = .valueError := by
  cases t with
  | record => cases hno
  | http limits =>
      cases hhead : HTTPTransport.readHead limits .unbounded input with
      | ok headers rest =>
          have hof := HTTPTransport.read_of_head limits hhead
          simp only [headerOk, hhead] at hno
          rw [if_neg (by rw [hno]; exact Bool.false_ne_true)] at hof
          exact hof
      | needMore => simp only [headerOk, hhead, Bool.true_eq_false] at hno
      | raised ex => simp only [headerOk, hhead, Bool.true_eq_false] at hno

theorem wrapErrors_error {α : Type} {cls : ExcClass} {body : Except Exc α} {ex : Exc}
    (h : wrapErrors cls body = .error ex) :
    ex.cls = cls ∨ (body = .error ex ∧ (ex.cls.isA .typeError || ex.cls.isA .valueError) = false) := by
  unfold wrapErrors at h
  cases body with
  | ok value => cases h
  | error ex' =>
      by_cases hcaught : (ex'.cls.isA .typeError || ex'.cls.isA .valueError) = true
      · simp only [hcaught, if_true] at h
        cases h
        exact Or.inl rfl
      · simp only [hcaught] at h
        cases h
        exact Or.inr ⟨rfl, by simpa using hcaught⟩

/-- What is wrong with a dictionary is reported as a `ValueError` or `TypeError`. -/
theorem baseLoads_error {m : Codec} {buff : Option (List UInt8)} {ex : Exc}
    (h : BaseSerializer.loads m buff = .error ex) :
    ex.cls = .deserializationError ∨ (m.loads buff = .error ex ∧
      (ex.cls.isA .typeError || ex.cls.isA .valueError) = false) := by
  rcases wrapErrors_error h with hcls | ⟨hbody, huncaught⟩
  · exact Or.inl hcls
  · cases hdata : m.loads buff with
    | error ex' =>
        rw [hdata] at hbody
        cases hbody
        exact Or.inr ⟨rfl, huncaught⟩
    | ok data =>
        rw [hdata] at hbody
        -- the errors of the rest are of the two classes
        have hcaught : (ex.cls.isA .typeError || ex.cls.isA .valueError) = true := by
          cases data with
          | dict items =>
              simp only [bind, Except.bind, BaseSerializer.loadRequest] at hbody
              split at hbody
              · split at hbody
                · cases hbody
                  rfl
                · cases hbody
              · cases hbody
          | _ =>
              cases hbody
              rfl
        rw [hcaught] at huncaught
        cases huncaught

theorem loads_error {S : PyVal.SpecialMethods} {c : SerializerKind} {buff : Option (List UInt8)}
    {ex : Exc} (hdec : decodes c buff = true) (h : (c.serializer S).loads buff = .error ex) :
    ex.cls = .deserializationError := by
  have hbase : ∀ m : Codec, decodes (.json m) buff = true → BaseSerializer.loads m buff = .error ex →
      ex.cls = .deserializationError := by
    intro m hm hloads
    rcases baseLoads_error hloads with hcls | ⟨hraised, huncaught⟩
    · exact hcls
    · simp only [decodes, hraised, huncaught, Bool.false_eq_true] at hm
  cases c with
  | pickle m =>
      simp only [SerializerKind.serializer, PickleSerializer] at h
      split at h
      · cases h
      · cases h
        rfl
  | json m => exact hbase m hdec h
  | msgpack m => exact hbase m hdec h

/-! ## The end of `_run` -/

/-- The read step raises nothing but what `_run` catches: the numbers of an HTTP header
are numbers, the body makes the serializer raise nothing unforeseen, and the request can
be handed over. -/
def contained (k : Kind) (l : Label) (s : Runner) : Bool :=
  match l with
  | .readDone refused _ =>
      headerOk k.transport s.incoming &&
        match k.config.transport.read s.incoming with
        | .ok (_, buff) _ =>
          decodes k.serializer buff &&
            match k.config.serializer.loads buff with
            | .ok (.request request) => invokable k.config refused request
            | _ => true
        | _ => true
  | _ => true

/-- A connection that is not read from any more is closed. -/
def NoZombie (s : Runner) : Prop := s.pc = .terminated → s.closed = true

theorem loop_noZombie (cfg : RunnerConfig) (now : ℤ) {s : Runner}
    (hflag : s.streamClosed = true → s.closed = true) : NoZombie (s.loop cfg now) := by
  unfold loop
  by_cases hclosed : (s.streamClosed || s.closed) = true
  · rw [if_pos hclosed]
    intro _
    rcases Bool.or_eq_true_iff.mp hclosed with h | h
    · exact hflag h
    · exact h
  · rw [if_neg hclosed]
    split
    · intro hpc
      cases hpc
    · intro hpc
      cases hpc

/-- The exceptions that `_run` catches end it with the stream closed. -/
theorem handle_noZombie {ex : Exc} (now : ℤ) {s : Runner}
    (hex : ex.cls = .unsatisfiableReadError ∨ ex.cls = .deserializationError ∨ s.closed = true) :
    NoZombie (s.handle ex now) := by
  intro _
  rcases hex with hcls | hcls | hclosed
  · rw [handle, hcls]
    rfl
  · rw [handle, hcls]
    rfl
  · exact (handle_frame ex now (ReadFrame.refl s)).closed hclosed

theorem handOver_noZombie (cfg : RunnerConfig) (refused : Option Exc) (request : Request)
    (transactionId : ℕ) (now : ℤ) {s : Runner} (hflag : s.streamClosed = true → s.closed = true)
    (hok : invokable cfg refused request = true) :
    NoZombie (s.handOver cfg refused request transactionId now) := by
  have hframe := invoke_frame cfg refused request transactionId { s with timestamp := now }
  have hspec := invoke_isOk cfg refused request transactionId { s with timestamp := now }
  unfold handOver
  cases hinvoke : invoke cfg refused request transactionId { s with timestamp := now } with
  | mk outcome t =>
      rw [hinvoke] at hspec hframe
      cases outcome with
      | error ex =>
          rw [hok] at hspec
          cases hspec
      | ok _ =>
          apply loop_noZombie
          intro ht
          exact hframe.closed (hflag (hframe.streamClosed.symm.trans ht))

theorem received_noZombie (k : Kind) (refused : Option Exc) (transactionId : ℕ)
    (buff : Option (List UInt8)) (now : ℤ) {s : Runner}
    (hflag : s.streamClosed = true → s.closed = true) (hdec : decodes k.serializer buff = true)
    (hrequest : ∀ request, k.config.serializer.loads buff = .ok (.request request) →
      invokable k.config refused request = true) :
    NoZombie (s.received k.config refused transactionId buff now) := by
  unfold received
  cases hloads : k.config.serializer.loads buff with
  | error ex => exact handle_noZombie now (Or.inr (Or.inl (loads_error hdec hloads)))
  | ok obj =>
      cases obj with
      | request request =>
          exact handOver_noZombie k.config refused request transactionId now hflag
            (hrequest request hloads)
      | result _ => exact fun _ => rfl
      | other _ => exact fun _ => rfl

theorem readDone_noZombie (k : Kind) (refused : Option Exc) (now : ℤ) {s : Runner}
    (hcontained : contained k (.readDone refused now) s = true)
    (hflag : s.streamClosed = true → s.closed = true) (h : NoZombie s) :
    NoZombie (s.readDone k.config refused now) := by
  unfold readDone
  simp only [contained, Bool.and_eq_true] at hcontained
  cases hread : k.config.transport.read s.incoming with
  | needMore => exact h
  | raised ex =>
      apply handle_noZombie
      rcases read_expected hcontained.1 hread with hcls | hcls
      · exact Or.inl hcls
      · refine Or.inr (Or.inr ?_)
        show (s.closed || ex.cls.isA .streamClosedError) = true
        rw [hcls]
        exact Bool.or_true s.closed
  | ok packet rest =>
      have hbody := hcontained.2
      rw [hread] at hbody
      simp only [Bool.and_eq_true] at hbody
      refine received_noZombie k refused packet.1 packet.2 now hflag hbody.1 ?_
      intro request hloads
      have hrequest := hbody.2
      rw [hloads] at hrequest
      exact hrequest

theorem noZombie_step (k : Kind) {l : Label} {s : Runner} (hg : guard k.config l s)
    (hcontained : contained k l s = true) (hflag : s.streamClosed = true → s.closed = true)
    (h : NoZombie s) : NoZombie (update k.config l s) := by
  cases l with
  | arrive bs => exact h
  | peerClose => exact fun _ => rfl
  | readDone refused now => exact readDone_noZombie k refused now hcontained hflag h
  | readFail ex now => exact handle_noZombie now (Or.inr (Or.inr hg.2))
  | wake now => exact loop_noZombie k.config now hflag
  | respond i outcome now =>
      rcases resolve_frame k.config i outcome now s with ⟨hclosed, _, hpc⟩
      exact fun ht => hclosed.trans (h (hpc.mp ht))
  | flushed i now =>
      rcases flush_frame i now s with ⟨hclosed, _, hpc⟩
      exact fun ht => hclosed.trans (h (hpc.mp ht))
  | onConnectionClose =>
      exact fun _ => (notifyAll_frame { s with streamClosed := true }).1.trans hg.1
  | closeInactive => exact fun _ => (notifyAll_frame { s with closed := true }).1

/-- In every run in which what is read is contained, a connection whose `_run` has
terminated is closed. -/
theorem stream_closed_of_terminated (k : Kind) :
    ∀ s, ((system k.config).restrict (fun l s => contained k l s)).Reachable s →
      s.pc = .terminated → s.closed = true := by
  apply Lts.Spec.invariant_with _ (fun s => s.streamClosed = true → s.closed = true)
  · intro s hr
    exact closed_of_streamClosed k.config s hr.of_restrict
  · intro s hs
    rcases hs with ⟨now, rfl⟩
    exact loop_noZombie k.config now fun h => absurd h Bool.false_ne_true
  · intro l s hg hflag _ h
    exact noZombie_step k hg.1 hg.2 hflag h

/-! ## What is not contained leaves a zombie -/

/-- An exception that no clause of `_run` catches ends it and closes nothing. -/
theorem handle_uncaught {ex : Exc} (now : ℤ) (s : Runner)
    (hex : ex.cls.isA .unsatisfiableReadError = false ∧ ex.cls.isA .deserializationError = false) :
    (s.handle ex now).pc = .terminated ∧ (s.handle ex now).closed = s.closed := by
  unfold handle
  rw [hex.1, hex.2]
  simp only [Bool.false_eq_true, if_false, ite_self, and_self]

/-- A number in an HTTP header that is alphanumeric and has a letter. -/
theorem zombie_of_header (k : Kind) (refused : Option Exc) (now : ℤ) {s : Runner}
    (hheader : headerOk k.transport s.incoming = false) :
    (s.readDone k.config refused now).pc = .terminated ∧
      (s.readDone k.config refused now).closed = s.closed := by
  rcases read_unexpected hheader with ⟨ex, hread, hcls⟩
  have hclosed : (s.closed || ex.cls.isA .streamClosedError) = s.closed := by
    rw [hcls]
    exact Bool.or_false s.closed
  have hcfg : k.config.transport.read s.incoming = .raised ex := hread
  unfold readDone
  rw [hcfg]
  show (handle ex now { s with closed := s.closed || ex.cls.isA .streamClosedError }).pc = _ ∧
    (handle ex now { s with closed := s.closed || ex.cls.isA .streamClosedError }).closed = _
  rw [hclosed]
  apply handle_uncaught
  rw [hcls]
  exact ⟨rfl, rfl⟩

/-- A body that makes the serializer raise an exception of its own. -/
theorem zombie_of_body (cfg : RunnerConfig) (refused : Option Exc) (now : ℤ) {s : Runner}
    {transactionId : ℕ} {buff : Option (List UInt8)} {rest : List UInt8} {ex : Exc}
    (hread : cfg.transport.read s.incoming = .ok (transactionId, buff) rest)
    (hloads : cfg.serializer.loads buff = .error ex)
    (hex : ex.cls.isA .unsatisfiableReadError = false ∧ ex.cls.isA .deserializationError = false) :
    (s.readDone cfg refused now).pc = .terminated ∧ (s.readDone cfg refused now).closed = s.closed := by
  unfold readDone received
  rw [hread]
  simp only [hloads]
  exact handle_uncaught now { s with incoming := rest } hex

/-- A request that cannot be handed over. -/
theorem zombie_of_request (cfg : RunnerConfig) (refused : Option Exc) (now : ℤ) {s : Runner}
    {transactionId : ℕ} {buff : Option (List UInt8)} {rest : List UInt8} {request : Request}
    (hread : cfg.transport.read s.incoming = .ok (transactionId, buff) rest)
    (hloads : cfg.serializer.loads buff = .ok (.request request))
    (hinvoke : invokable cfg refused request = false) :
    (s.readDone cfg refused now).pc = .terminated ∧ (s.readDone cfg refused now).closed = s.closed := by
  have hclosed : (invoke cfg refused request transactionId
      { s with incoming := rest, timestamp := now }).2.closed = s.closed := by
    unfold invoke
    simp only
    split
    · rfl
    · split
      · rfl
      · rfl
  have hspec := invoke_isOk cfg refused request transactionId
    { s with incoming := rest, timestamp := now }
  unfold readDone received
  rw [hread]
  simp only [hloads, handOver]
  cases hout : invoke cfg refused request transactionId { s with incoming := rest, timestamp := now } with
  | mk outcome t =>
      rw [hout] at hspec hclosed
      cases outcome with
      | ok _ =>
          rw [hinvoke] at hspec
          cases hspec
      | error ex => exact ⟨rfl, hclosed⟩

/-! ## Two connections -/

/-- The connection on which a request has arrived. -/
def afterArrival (cfg : RunnerConfig) (input : List UInt8) : Runner :=
  update cfg (.arrive input) (new cfg 0)

/-- The connection on which it has been read. -/
def afterRead (cfg : RunnerConfig) (input : List UInt8) : Runner :=
  update cfg (.readDone none 0) (afterArrival cfg input)

theorem reachable_afterRead (cfg : RunnerConfig) (C : Label → Runner → Bool) (input : List UInt8)
    (hnew : (new cfg 0).closed = false ∧ C (.arrive input) (new cfg 0) = true)
    (hread : (afterArrival cfg input).pc = .reading ∧
      cfg.transport.read (afterArrival cfg input).incoming ≠ .needMore)
    (hC : C (.readDone none 0) (afterArrival cfg input) = true) :
    ((system cfg).restrict (fun l s => C l s)).Reachable (afterRead cfg input) := by
  have hinit : ((system cfg).restrict (fun l s => C l s)).Reachable (new cfg 0) :=
    Lts.Spec.Reachable.init ⟨0, rfl⟩
  have harrived := Lts.Spec.Reachable.step (Label.arrive input) hinit hnew
  exact Lts.Spec.Reachable.step (Label.readDone none 0) harrived ⟨hread, hC⟩

/-- A server over HTTP, with a `pickle` that can load nothing. -/
def httpKind : Kind where
  special := ⟨fun _ => .ok [], fun _ => .ok (), fun _ => .ok [], fun _ => .ok []⟩
  transport := .http {}
  serializer := .pickle ⟨fun _ => .error { cls := .typeError }, fun _ => .error { cls := .typeError }⟩
  exporter := Exporter.new true
  threadPool := true
  processPool := false
  concurrentRequestPerConnection := 10

/-- A request without a body. -/
def emptyRequest : List UInt8 :=
  bytes "GET / HTTP/1.1\r\nTransaction-Id: 1\r\nContent-Length: 0\r\n\r\n"

/-- A request whose transaction id has letters. -/
def lettersInNumber : List UInt8 := bytes "GET / HTTP/1.1\r\nTransaction-Id: abc\r\n\r\n"

/-- The connection whose request has no body is closed, since `None` cannot be
loaded. -/
theorem stream_closed_of_terminated_emptyRequest :
    (afterRead httpKind.config emptyRequest).pc = .terminated ∧
      (afterRead httpKind.config emptyRequest).closed = true := by
  have hpc : (afterRead httpKind.config emptyRequest).pc = .terminated := by decide +kernel
  have hr := reachable_afterRead httpKind.config (contained httpKind) emptyRequest
    ⟨by decide +kernel, rfl⟩ ⟨by decide +kernel, by decide +kernel⟩ (by decide +kernel)
  exact ⟨hpc, stream_closed_of_terminated httpKind _ hr hpc⟩

/-- The connection whose request has letters in its transaction id is neither read
from nor closed. -/
theorem zombie : ¬ ∀ s, (system httpKind.config).Reachable s → s.pc = .terminated → s.closed = true := by
  intro h
  have hr := reachable_afterRead httpKind.config (fun _ _ => true) lettersInNumber
    ⟨by decide +kernel, rfl⟩ ⟨by decide +kernel, by decide +kernel⟩ rfl
  have hpc : (afterRead httpKind.config lettersInNumber).pc = .terminated := by decide +kernel
  have hopen : (afterRead httpKind.config lettersInNumber).closed = false := by decide +kernel
  have hclosed := h _ hr.of_restrict hpc
  rw [hopen] at hclosed
  cases hclosed

end Runner

end SummerRpc
