import SummerRpc.Connection.Shared

/-! # `SimpleBlockingConnection`

`connection.py`: one caller writes a request and reads its response on the socket,
with no thread in between. A call is one step, and the future it returns is resolved
by then, so it is given by what it was resolved with.

* `fd`: the socket as a call finds it; on a closed one every `recv` and `send` raises;
* `write`, `read`, `close`, and `system`: any sequence of calls, over any socket;
* `never_shifted`: a response handed over is the next packet of the stream, and once
  a read or a send has failed no read hands over anything.
-/

namespace SummerRpc

open BaseRecordTransport Framing

/-- What a call of `write` or `read` returned or raised, with the call's arguments. -/
inductive Outcome where
  | write (buff : Body) (result : Except Exc (ℕ × Except Exc ℕ))
  | read (transactionId : ℕ) (result : Except Exc (Except Exc Body))
deriving Repr

namespace Outcome

/-- A send that failed, or a read that handed over nothing. -/
def failed : Outcome → Bool
  | write _ (.ok (_, .error _)) => true
  | write _ _ => false
  | read _ (.ok (.ok _)) => false
  | read _ _ => true

/-- The response a read handed over, with the id it was asked for. -/
def delivered : Outcome → Option Packet
  | read transactionId (.ok (.ok buff)) => some (transactionId, buff)
  | _ => none

end Outcome

/-- The state of a connection. -/
structure SimpleBlockingConnection where
  sock : Sock
  /-- `_socket.close()` has been called -/
  socketClosed : Bool
  idGenerator : AtomicInteger
  closing : Bool
  closed : Bool
  /-- history: the calls of `write` and `read` -/
  log : List Outcome

namespace SimpleBlockingConnection

/-- `__init__` -/
def new (sock : Sock) : SimpleBlockingConnection where
  sock := sock
  socketClosed := false
  idGenerator := AtomicInteger.new 0 sysMaxint
  closing := false
  closed := false
  log := []

/-- The socket as the next `recv` or `send` finds it. -/
def fd (c : SimpleBlockingConnection) : Sock :=
  if c.socketClosed then { c.sock with script := [.error EBADF] } else c.sock

/-- `close` -/
def close (c : SimpleBlockingConnection) : SimpleBlockingConnection :=
  if c.closed || c.closing then c
  else { c with socketClosed := true, closed := true, closing := false }

/-- `write`: the id and the future, or an exception that the two `except` clauses do
not catch. -/
def write (c : SimpleBlockingConnection) (buff : Body) :
    Except Exc (ℕ × Except Exc ℕ) × SimpleBlockingConnection :=
  let id := c.idGenerator.increase 1
  let r := BlockingRecordTransport.write c.fd id.1 buff
  let c' := { c with idGenerator := id.2, sock := r.2 }
  match r.1 with
  | .ok _ => (.ok (id.1, .ok id.1), c')
  | .error ex =>
    if ex.cls.isA .socketTimeout then
      (.ok (id.1, .error { cls := .connectionWriteTimeout, msg := "write timeout" }), c'.close)
    else if ex.cls.isA .socketError then (.ok (id.1, .error writeAbort), c'.close)
    else (.error ex, c')

/-- `read`: the future, or an exception that the two `except` clauses do not catch. -/
def read (c : SimpleBlockingConnection) (transactionId : ℕ) :
    Except Exc (Except Exc Body) × SimpleBlockingConnection :=
  let r := BlockingRecordTransport.read c.fd false
  let c' := { c with sock := r.2 }
  match r.1 with
  | .ok (readTransactionId, buff) =>
    if readTransactionId ≠ transactionId then
      (.ok (.error { cls := .runtimeError, msg := "read and write is inconsistent" }), c'.close)
    else (.ok (.ok buff), c')
  | .error ex =>
    if ex.cls.isA .socketTimeout then
      (.ok (.error { cls := .connectionReadTimeout, msg := "read timeout" }), c'.close)
    else if ex.cls.isA .transportError || ex.cls.isA .socketError then
      (.ok (.error readAbort), c'.close)
    else (.error ex, c')

/-! ## Sequences of calls -/

inductive Label where
  | write (buff : Body)
  | read (transactionId : ℕ)
  | close
deriving DecidableEq, Repr

def update (l : Label) (c : SimpleBlockingConnection) : SimpleBlockingConnection :=
  match l with
  | .write buff => { (c.write buff).2 with log := c.log ++ [.write buff (c.write buff).1] }
  | .read transactionId =>
      { (c.read transactionId).2 with
        log := c.log ++ [.read transactionId (c.read transactionId).1] }
  | .close => c.close

/-- Any sequence of calls on a connection over the socket. -/
def system (sock : Sock) : Lts.Spec SimpleBlockingConnection Label where
  init := fun c => c = new sock
  guard := fun _ _ => True
  update := update

/-- The responses handed over, oldest first. -/
def delivered (c : SimpleBlockingConnection) : List Packet := c.log.filterMap Outcome.delivered

/-! ## A closed connection -/

/-- The connection is closed exactly when its socket is, and nobody is closing it
between two calls. -/
structure Settled (c : SimpleBlockingConnection) : Prop where
  closing : c.closing = false
  closed : c.closed = c.socketClosed

theorem Settled.close {c : SimpleBlockingConnection} (h : Settled c) :
    c.close = { c with socketClosed := true, closed := true, closing := false } := by
  unfold SimpleBlockingConnection.close
  cases hclosed : c.closed with
  | false => rw [h.closing]; rfl
  | true =>
      have hsock : c.socketClosed = true := by rw [← h.closed, hclosed]
      have hclosing := h.closing
      cases c
      simp only at *
      subst hclosed hsock hclosing
      rfl

/-- On a closed socket `send` raises before it takes a byte. -/
theorem write_fd_of_closed {c : SimpleBlockingConnection} (h : c.socketClosed = true) (tid : ℕ)
    (buff : Body) :
    (BlockingRecordTransport.write c.fd tid buff).2.outgoing = c.sock.outgoing := by
  unfold BlockingRecordTransport.write fd
  rw [if_pos h]
  split
  · rfl
  · rename_i data hdata
    obtain ⟨_, rfl⟩ := generatePacket_eq_enc.mp hdata
    have hlen := packetCode_length (tid, buff)
    unfold BlockingSocketUtility.writeData
    rw [BlockingSocketUtility.writeDataLoop_error (by omega) rfl]
    rfl

/-- On a closed socket `recv` raises before it moves a byte. -/
theorem read_fd_of_closed {c : SimpleBlockingConnection} (h : c.socketClosed = true) :
    BlockingRecordTransport.read c.fd false =
      (.error BlockingSocketUtility.alreadyClosed, { c.sock with script := [] }) := by
  have hhead : BlockingSocketUtility.readBytes c.fd headLength false =
      (.error BlockingSocketUtility.alreadyClosed, { c.sock with script := [] }) := by
    unfold BlockingSocketUtility.readBytes fd
    rw [if_pos h, BlockingSocketUtility.readBytesLoop_error (by decide) rfl]
    rfl
  unfold BlockingRecordTransport.read
  rw [hhead]

/-! ## What a call does -/

@[simp] theorem fd_outgoing (c : SimpleBlockingConnection) : c.fd.outgoing = c.sock.outgoing := by
  unfold fd
  split <;> rfl

@[simp] theorem fd_incoming (c : SimpleBlockingConnection) : c.fd.incoming = c.sock.incoming := by
  unfold fd
  split <;> rfl

/-- What a call of `write` does to the socket: nothing, a whole packet, or the first
part of one, and then the socket is closed. -/
inductive Wrote (c c' : SimpleBlockingConnection) : Prop where
  | nothing (hout : c'.sock.outgoing = c.sock.outgoing)
      (hclosed : c'.socketClosed = c.socketClosed)
  | packet (p : Packet) (henc : Encodable p) (hopen : c.socketClosed = false)
      (hout : c'.sock.outgoing = c.sock.outgoing ++ packetCode.enc p)
      (hclosed : c'.socketClosed = false)
  | part (p : Packet) (k : ℕ) (henc : Encodable p) (hopen : c.socketClosed = false)
      (hout : c'.sock.outgoing = c.sock.outgoing ++ (packetCode.enc p).take k)
      (hclosed : c'.socketClosed = true)

/-- The rest of a call of `write`: it reads nothing, and fails only with the connection
closed. -/
structure WriteFrame (c : SimpleBlockingConnection) (buff : Body)
    (r : Except Exc (ℕ × Except Exc ℕ) × SimpleBlockingConnection) : Prop where
  settled : Settled r.2
  log : r.2.log = c.log
  incoming : r.2.sock.incoming = c.sock.incoming
  stays : c.socketClosed = true → r.2.socketClosed = true
  failed : (Outcome.write buff r.1).failed = true → r.2.socketClosed = true

/-- The exceptions of `transport.write`: of the packet, or of the socket. -/
theorem write_frame {c : SimpleBlockingConnection} (h : Settled c) (buff : Body) :
    WriteFrame c buff (c.write buff) := by
  have hin : (BlockingRecordTransport.write c.fd (c.idGenerator.increase 1).1 buff).2.incoming =
      c.sock.incoming := by
    unfold BlockingRecordTransport.write
    split
    · exact c.fd_incoming
    · rename_i data hdata
      exact (BlockingSocketUtility.writeData_writes _ data).incoming.trans c.fd_incoming
  -- closing, in either `except` clause
  have hclose := Settled.close (c := { c with
    idGenerator := (c.idGenerator.increase 1).2
    sock := (BlockingRecordTransport.write c.fd (c.idGenerator.increase 1).1 buff).2 })
    ⟨h.closing, h.closed⟩
  unfold write
  simp only
  split
  · exact ⟨⟨h.closing, h.closed⟩, rfl, hin, id, nofun⟩
  · split
    · rw [hclose]
      exact ⟨⟨rfl, rfl⟩, rfl, hin, fun _ => rfl, fun _ => rfl⟩
    · split
      · rw [hclose]
        exact ⟨⟨rfl, rfl⟩, rfl, hin, fun _ => rfl, fun _ => rfl⟩
      · exact ⟨⟨h.closing, h.closed⟩, rfl, hin, id, nofun⟩

theorem write_wrote {c : SimpleBlockingConnection} (h : Settled c) (buff : Body) :
    Wrote c (c.write buff).2 := by
  have hsock : (c.write buff).2.sock =
      (BlockingRecordTransport.write c.fd (c.idGenerator.increase 1).1 buff).2 := by
    unfold write
    simp only
    split
    · rfl
    · split
      · unfold close
        split <;> rfl
      · split
        · unfold close
          split <;> rfl
        · rfl
  cases hclosed : c.socketClosed with
  | true =>
      refine .nothing ?_ ?_
      · rw [hsock]
        exact write_fd_of_closed hclosed _ _
      · rw [hclosed]
        exact (write_frame h buff).stays hclosed
  | false =>
      have hfd : c.fd = c.sock := by
        unfold fd
        rw [hclosed]
        rfl
      rw [hfd] at hsock
      cases hgen : generatePacket (c.idGenerator.increase 1).1 buff with
      | error ex =>
          -- `struct.error` is raised before the socket is touched
          have hstruct : ex.cls = .structError := by
            rw [generatePacket_eq] at hgen
            split at hgen
            · cases hgen
            · cases hgen
              rfl
          have hw : BlockingRecordTransport.write c.sock (c.idGenerator.increase 1).1 buff =
              (.error ex, c.sock) := by
            unfold BlockingRecordTransport.write
            rw [hgen]
          refine .nothing ?_ ?_
          · rw [hsock, hw]
          · unfold write
            simp only [hfd, hw, hstruct]
            rfl
      | ok data =>
          obtain ⟨henc, rfl⟩ := generatePacket_eq_enc.mp hgen
          have hw : BlockingRecordTransport.write c.sock (c.idGenerator.increase 1).1 buff =
              BlockingSocketUtility.writeData c.sock
                (packetCode.enc ((c.idGenerator.increase 1).1, buff)) := by
            unfold BlockingRecordTransport.write
            rw [hgen]
          have hwrites := BlockingSocketUtility.writeData_writes c.sock
            (packetCode.enc ((c.idGenerator.increase 1).1, buff))
          cases hres : (BlockingSocketUtility.writeData c.sock
            (packetCode.enc ((c.idGenerator.increase 1).1, buff))).1 with
          | ok _ =>
              refine .packet _ henc hclosed ?_ ?_
              · rw [hsock, hw]
                exact hwrites.returned hres
              · unfold write
                simp only [hfd, hw, hres]
                exact hclosed
          | error ex =>
              obtain ⟨k, hk⟩ := hwrites.sent
              refine .part _ k henc hclosed ?_ ?_
              · rw [hsock, hw]
                exact hk
              · have hclose := Settled.close (c := { c with
                  idGenerator := (c.idGenerator.increase 1).2
                  sock := (BlockingSocketUtility.writeData c.sock
                    (packetCode.enc ((c.idGenerator.increase 1).1, buff))).2 })
                  ⟨h.closing, h.closed⟩
                unfold write
                simp only [hfd, hw, hres, hwrites.raised ex hres, if_true, hclose]
                split <;> rfl

/-- What a call of `read` does: it hands over the packet it consumed, or closes the
connection. -/
structure ReadFrame (c : SimpleBlockingConnection) (tid : ℕ)
    (r : Except Exc (Except Exc Body) × SimpleBlockingConnection) : Prop where
  settled : Settled r.2
  log : r.2.log = c.log
  outgoing : r.2.sock.outgoing = c.sock.outgoing
  consumed : ∃ got, c.sock.incoming = got ++ r.2.sock.incoming ∧
    ((∃ buff, r.1 = .ok (.ok buff) ∧ got = packetCode.enc (tid, buff) ∧
        c.socketClosed = false ∧ r.2.socketClosed = false) ∨
      ((∃ ex, r.1 = .ok (.error ex)) ∧ r.2.socketClosed = true))

theorem read_frame {c : SimpleBlockingConnection} (h : Settled c) (tid : ℕ) :
    ReadFrame c tid (c.read tid) := by
  have hreads := BlockingRecordTransport.read_reads c.fd false
  obtain ⟨got, hgot, hpacket⟩ := hreads.consumed
  have hout := hreads.outgoing.trans c.fd_outgoing
  rw [c.fd_incoming] at hgot
  have hclose := Settled.close (c := { c with
    sock := (BlockingRecordTransport.read c.fd false).2 }) ⟨h.closing, h.closed⟩
  -- a read that fails closes the connection
  have hfail : ∀ ex, ReadFrame c tid (.ok (.error ex), { c with
      sock := (BlockingRecordTransport.read c.fd false).2
      socketClosed := true, closed := true, closing := false }) := fun ex =>
    ⟨⟨rfl, rfl⟩, rfl, hout, got, hgot, Or.inr ⟨⟨ex, rfl⟩, rfl⟩⟩
  unfold read
  simp only
  split
  · rename_i readTid buff hres
    split
    · rw [hclose]
      exact hfail _
    · rename_i heq
      have hid : readTid = tid := by simpa using heq
      have hopen : c.socketClosed = false := by
        cases hclosed : c.socketClosed with
        | false => rfl
        | true =>
            rw [read_fd_of_closed hclosed] at hres
            cases hres
      refine ⟨⟨h.closing, h.closed⟩, rfl, hout, got, hgot, Or.inl ⟨buff, rfl, ?_, hopen, hopen⟩⟩
      rw [← hid]
      exact (hpacket _ hres).2
  · rename_i ex hres
    split
    · rw [hclose]
      exact hfail _
    · split
      · rw [hclose]
        exact hfail _
      · -- the two clauses name every exception of `transport.read`
        rename_i hno
        rcases hreads.raised ex hres with hex | hex
        · rw [hex] at hno
          exact absurd rfl hno
        · rw [hex, Bool.or_true] at hno
          exact absurd rfl hno

/-! ## Sequences of calls -/

theorem settled_update (l : Label) {c : SimpleBlockingConnection} (h : Settled c) :
    Settled (update l c) := by
  cases l with
  | write buff => exact ⟨(write_frame h buff).settled.closing, (write_frame h buff).settled.closed⟩
  | read tid => exact ⟨(read_frame h tid).settled.closing, (read_frame h tid).settled.closed⟩
  | close =>
      show Settled c.close
      rw [h.close]
      exact ⟨rfl, rfl⟩

theorem settled_reachable (sock : Sock) : ∀ c, (system sock).Reachable c → Settled c := by
  apply Lts.Spec.invariant
  · rintro c rfl
    exact ⟨rfl, rfl⟩
  · intro l c _ h
    exact settled_update l h

/-- After an outcome `o` that failed no later one hands over a response. -/
def DeadAfterFailure (log : List Outcome) : Prop :=
  log.Pairwise fun o o' => o.failed = true → o'.delivered = none

/-- What the log says of the stream and of the connection. -/
structure LogInv (stream : List UInt8) (c : SimpleBlockingConnection) : Prop where
  stream : ∃ lost, stream = packetCode.encAll c.delivered ++ lost ++ c.sock.incoming ∧
    (c.socketClosed = false → lost = [])
  failed : ∀ o ∈ c.log, o.failed = true → c.socketClosed = true
  dead : DeadAfterFailure c.log

/-- One more outcome. A response is handed over only on a connection that is open. -/
theorem LogInv.concat {stream : List UInt8} {c c' : SimpleBlockingConnection} {o : Outcome}
    (h : LogInv stream c) (hlog : c'.log = c.log ++ [o])
    (hstays : c.socketClosed = true → c'.socketClosed = true)
    (hfailed : o.failed = true → c'.socketClosed = true)
    (hopen : c.socketClosed = true → o.delivered = none)
    (hstream : ∀ lost, stream = packetCode.encAll c.delivered ++ lost ++ c.sock.incoming →
      (c.socketClosed = false → lost = []) →
      ∃ lost', stream = packetCode.encAll c'.delivered ++ lost' ++ c'.sock.incoming ∧
        (c'.socketClosed = false → lost' = [])) : LogInv stream c' := by
  constructor
  · obtain ⟨lost, heq, hlost⟩ := h.stream
    exact hstream lost heq hlost
  · intro o' ho' hf
    rw [hlog] at ho'
    rcases List.mem_append.mp ho' with hold | hnew
    · exact hstays (h.failed o' hold hf)
    · rw [List.mem_singleton.mp hnew] at hf
      exact hfailed hf
  · rw [hlog]
    refine List.pairwise_append.mpr ⟨h.dead, List.pairwise_singleton _ _, ?_⟩
    intro o₁ ho₁ o₂ ho₂ hf
    rw [List.mem_singleton.mp ho₂]
    exact hopen (h.failed o₁ ho₁ hf)

theorem logInv_write {stream : List UInt8} {c : SimpleBlockingConnection} (hs : Settled c)
    (h : LogInv stream c) (buff : Body) : LogInv stream (update (.write buff) c) := by
  have hw := write_frame hs buff
  have hdelivered : (update (.write buff) c).delivered = c.delivered := by
    simp [delivered, update, Outcome.delivered]
  refine h.concat (o := .write buff (c.write buff).1) rfl hw.stays hw.failed (fun _ => rfl) ?_
  intro lost heq hlost
  refine ⟨lost, ?_, ?_⟩
  · rw [hdelivered, show (update (.write buff) c).sock.incoming = _ from hw.incoming]
    exact heq
  · intro hopen
    apply hlost
    by_contra hclosed
    rw [show (update (.write buff) c).socketClosed = true from
      hw.stays (Bool.eq_true_of_not_eq_false hclosed)] at hopen
    cases hopen

theorem logInv_read {stream : List UInt8} {c : SimpleBlockingConnection} (hs : Settled c)
    (h : LogInv stream c) (tid : ℕ) : LogInv stream (update (.read tid) c) := by
  have hr := read_frame hs tid
  obtain ⟨got, hgot, ⟨buff, hres, rfl, hopen, hopen'⟩ | ⟨⟨ex, hres⟩, hclosed⟩⟩ := hr.consumed
  · -- the next packet of the stream is handed over
    have hdelivered : (update (.read tid) c).delivered = c.delivered ++ [(tid, buff)] := by
      simp [delivered, update, Outcome.delivered, hres]
    refine h.concat (o := .read tid (c.read tid).1) rfl ?_ ?_ ?_ ?_
    · intro hc
      rw [hopen] at hc
      cases hc
    · rw [hres]
      intro hf
      cases hf
    · intro hc
      rw [hopen] at hc
      cases hc
    · intro lost heq hlost
      refine ⟨[], ?_, fun _ => rfl⟩
      rw [hdelivered, Code.encAll_concat, heq, hlost hopen, hgot]
      show _ = _ ++ (c.read tid).2.sock.incoming
      simp only [List.append_assoc, List.nil_append]
  · -- the connection is closed, wherever the read stopped
    have hdelivered : (update (.read tid) c).delivered = c.delivered := by
      simp [delivered, update, Outcome.delivered, hres]
    refine h.concat (o := .read tid (c.read tid).1) rfl (fun _ => hclosed) (fun _ => hclosed) ?_ ?_
    · intro _
      rw [hres]
      rfl
    · intro lost heq _
      refine ⟨lost ++ got, ?_, ?_⟩
      · rw [hdelivered, heq, hgot]
        show _ = _ ++ (c.read tid).2.sock.incoming
        simp only [List.append_assoc]
      · intro ho
        rw [show (update (.read tid) c).socketClosed = true from hclosed] at ho
        cases ho

theorem logInv_step {stream : List UInt8} {c : SimpleBlockingConnection} (l : Label)
    (hs : Settled c) (h : LogInv stream c) : LogInv stream (update l c) := by
  cases l with
  | write buff => exact logInv_write hs h buff
  | read tid => exact logInv_read hs h tid
  | close =>
      show LogInv stream c.close
      rw [hs.close]
      obtain ⟨lost, heq, _⟩ := h.stream
      exact ⟨⟨lost, heq, nofun⟩, fun _ _ _ => rfl, h.dead⟩

theorem logInv_reachable (sock : Sock) :
    ∀ c, (system sock).Reachable c → LogInv sock.incoming c := by
  apply Lts.Spec.invariant_with (system sock) Settled (LogInv sock.incoming)
    (settled_reachable sock)
  · rintro c rfl
    exact ⟨⟨[], rfl, fun _ => rfl⟩, fun _ ho => absurd ho List.not_mem_nil, List.Pairwise.nil⟩
  · intro l c _ hs _ h
    exact logInv_step l hs h

/-! ## No wrong and no shifted response -/

/-- Responses are handed over as the stream brings them. -/
structure NeverShifted (stream : List UInt8) (c : SimpleBlockingConnection) : Prop where
  /-- a read hands over the packet it consumes, with the id it was asked for -/
  consumes : ∀ tid buff, (c.read tid).1 = .ok (.ok buff) →
    c.sock.incoming = packetCode.enc (tid, buff) ++ (c.read tid).2.sock.incoming
  /-- the packets handed over are the first ones of the stream; on an open connection
  nothing else has been consumed -/
  consecutive : ∃ lost, stream = packetCode.encAll c.delivered ++ lost ++ c.sock.incoming ∧
    (c.closed = false → lost = [])
  /-- after a failed or mismatched read or a failed send the connection is closed ... -/
  closed : ∀ o ∈ c.log, o.failed = true → c.closed = true
  /-- ... and no later read hands over anything -/
  dead : DeadAfterFailure c.log

/-- On any stream, with timeouts and socket errors anywhere, and for any sequence of
calls. -/
theorem never_shifted (sock : Sock) :
    ∀ c, (system sock).Reachable c → NeverShifted sock.incoming c := by
  intro c hr
  have hs := settled_reachable sock c hr
  have h := logInv_reachable sock c hr
  constructor
  · intro tid buff hres
    obtain ⟨got, hgot, ⟨b, hb, rfl, _⟩ | ⟨⟨ex, hex⟩, _⟩⟩ := (read_frame hs tid).consumed
    · rw [hres] at hb
      cases hb
      exact hgot
    · rw [hres] at hex
      cases hex
  · rw [hs.closed]
    exact h.stream
  · rw [hs.closed]
    exact h.failed
  · exact h.dead

/-- Two responses, of which the second one is cut short: the peer closes inside its
body. -/
def cutShort : Sock where
  incoming := [0, 0, 0, 1, 0, 0, 0, 1, 7, 0, 0, 0, 2, 0, 0, 0, 2, 8]
  outgoing := []
  script := [.moved 3, .moved 8, .error EINTR]

/-- The first response is handed over, the second one is not, and nothing after it. -/
theorem never_shifted_cutShort :
    let c := (system cutShort).play (fun _ _ => true)
      [.write [5], .read 1, .write [6], .read 2, .write [9], .read 3] (new cutShort)
    c.delivered = [(1, [7])] ∧ c.closed = true ∧ NeverShifted cutShort.incoming c := by
  refine ⟨by decide +kernel, by decide +kernel, ?_⟩
  exact never_shifted cutShort _ ((Lts.Spec.Reachable.init rfl).play (fun _ _ _ => trivial) _)

end SimpleBlockingConnection

end SummerRpc
