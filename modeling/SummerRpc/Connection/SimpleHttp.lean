import SummerRpc.Connection.Simple
import SummerRpc.Transport.FirstResponse

/-! # `SimpleBlockingConnection` over HTTP

`SimpleBlockingConnection.read` with `SimpleBlockingHTTPTransport` as its transport.

* `afterRead`: the `except` clauses, for whatever the transport returned or raised, and
  `read_eq_afterRead`: the model over records has the same;
* `readHttp`: `read` over the HTTP transport;
* `BadId`: a response whose `Transaction-Id` is not the literal of an integer;
* `readHttp_handled_iff`: every other stream is handled.
-/

namespace SummerRpc

namespace SimpleBlockingConnection

open HTTPResponseParser

/-- `read` after its call of `transport.read`. -/
def afterRead (c : SimpleBlockingConnection) (transactionId : ℕ) :
    Except Exc (ℤ × Body) → Except Exc (Except Exc Body) × SimpleBlockingConnection
  | .ok (readTransactionId, buff) =>
    if readTransactionId ≠ transactionId then
      (.ok (.error { cls := .runtimeError, msg := "read and write is inconsistent" }), c.close)
    else (.ok (.ok buff), c)
  | .error ex =>
    if ex.cls.isA .socketTimeout then
      (.ok (.error { cls := .connectionReadTimeout, msg := "read timeout" }), c.close)
    else if ex.cls.isA .transportError || ex.cls.isA .socketError then
      (.ok (.error readAbort), c.close)
    else (.error ex, c)

/-- `read` over the record transport. -/
theorem read_eq_afterRead (c : SimpleBlockingConnection) (transactionId : ℕ) :
    c.read transactionId =
      afterRead { c with sock := (BlockingRecordTransport.read c.fd false).2 } transactionId
        ((BlockingRecordTransport.read c.fd false).1.map fun packet => (packet.1, packet.2)) := by
  unfold read
  obtain ⟨outcome, sock'⟩ := BlockingRecordTransport.read c.fd false
  cases outcome with
  | error ex => rfl
  | ok packet => simp only [Except.map, afterRead, ne_eq, Nat.cast_inj]

/-- `read` over the HTTP transport. There is no outcome when `rounds` rounds of the
transport are not enough. -/
def readHttp (chunkSize rounds : ℕ) (c : SimpleBlockingConnection) (transactionId : ℕ) :
    Option (Except Exc (Except Exc Body) × SimpleBlockingConnection) :=
  (SimpleBlockingHTTPTransport.read chunkSize rounds c.fd).map fun r =>
    afterRead { c with sock := r.2 } transactionId r.1

/-- The future holds the body of the response to the request, or an exception, and then the
connection is closed. -/
def Handled (stream : List UInt8) (transactionId : ℕ)
    (r : Except Exc (Except Exc Body) × SimpleBlockingConnection) : Prop :=
  (∃ body headers rest id, r.1 = .ok (.ok body) ∧
      IsResponse stream headers (some body) rest ∧
      headers.lookup (bytes "Transaction-Id") = some id ∧ intLiteral id = .ok transactionId) ∨
    ∃ ex, r.1 = .ok (.error ex) ∧ r.2.closed = true

/-- The stream starts with a response with content whose `Transaction-Id` is not the literal
of an integer. -/
def BadId (stream : List UInt8) : Prop :=
  ∃ headers content rest id ex, IsResponse stream headers (some content) rest ∧
    headers.lookup (bytes "Transaction-Id") = some id ∧ intLiteral id = .error ex

/-- `int` raises `ValueError` and nothing else. -/
theorem valueError_of_intLiteral {s : List UInt8} {ex : Exc} (h : intLiteral s = .error ex) :
    ex = invalidLiteral := by
  unfold intLiteral at h
  simp only at h
  repeat' split at h
  all_goals cases h
  all_goals rfl

theorem close_closed {c : SimpleBlockingConnection} (hc : c.closing = false) :
    c.close.closed = true := by
  unfold close
  cases hclosed : c.closed with
  | false =>
      rw [hc]
      rfl
  | true => exact hclosed

/-- An exception of the transport or of the socket makes the future hold one. -/
theorem afterRead_error {c : SimpleBlockingConnection} (hc : c.closing = false)
    (transactionId : ℕ) {ex : Exc}
    (hex : (ex.cls.isA .transportError || ex.cls.isA .socketError) = true) :
    ∃ ex', (c.afterRead transactionId (.error ex)).1 = .ok (.error ex') ∧
      (c.afterRead transactionId (.error ex)).2.closed = true := by
  cases htimeout : ex.cls.isA .socketTimeout with
  | true =>
      simp only [afterRead, htimeout, if_true]
      exact ⟨_, rfl, close_closed hc⟩
  | false =>
      simp only [afterRead, htimeout, hex, if_true, Bool.false_eq_true, if_false]
      exact ⟨_, rfl, close_closed hc⟩

/-- So does a response to another request. -/
theorem afterRead_other {c : SimpleBlockingConnection} (hc : c.closing = false)
    {transactionId : ℕ} {number : ℤ} {body : Body} (hne : number ≠ transactionId) :
    ∃ ex', (c.afterRead transactionId (.ok (number, body))).1 = .ok (.error ex') ∧
      (c.afterRead transactionId (.ok (number, body))).2.closed = true := by
  simp only [afterRead, if_pos hne]
  exact ⟨_, rfl, close_closed hc⟩

/-- A response is handled if and only if its id, when it has content and an id, is the literal
of an integer. -/
theorem handled_of_response {c : SimpleBlockingConnection} (hc : c.closing = false)
    (transactionId : ℕ) {stream rest : List UInt8} {p : HTTPResponseParser}
    (h : IsResponse stream p.headers p.content rest) :
    Handled stream transactionId
        (c.afterRead transactionId (SimpleBlockingHTTPTransport.result p)) ↔ ¬ BadId stream := by
  have hbad : BadId stream ↔ ∃ content id ex, p.content = some content ∧
      p.headers.lookup (bytes "Transaction-Id") = some id ∧ intLiteral id = .error ex := by
    constructor
    · rintro ⟨headers, content, rest', id, ex, hresponse, hlookup, hliteral⟩
      obtain ⟨hheaders, hcontent⟩ := h.unique hresponse
      exact ⟨content, id, ex, hcontent, hheaders ▸ hlookup, hliteral⟩
    · rintro ⟨content, id, ex, hcontent, hlookup, hliteral⟩
      exact ⟨p.headers, content, rest, id, ex, hcontent ▸ h, hlookup, hliteral⟩
  cases hlookup : p.headers.lookup (bytes "Transaction-Id") with
  | none =>
      have hresult : SimpleBlockingHTTPTransport.result p =
          .error (invalidPacket "invalid transaction_id or content") := by
        simp only [SimpleBlockingHTTPTransport.result, hlookup]
      rw [hresult, hbad]
      refine iff_of_true (Or.inr (afterRead_error hc transactionId rfl)) ?_
      rintro ⟨_, _, _, _, hid, _⟩
      cases hlookup.symm.trans hid
  | some id =>
      cases hcontent : p.content with
      | none =>
          have hresult : SimpleBlockingHTTPTransport.result p =
              .error (invalidPacket "invalid transaction_id or content") := by
            simp only [SimpleBlockingHTTPTransport.result, hlookup, hcontent]
          rw [hresult, hbad, hcontent]
          refine iff_of_true (Or.inr (afterRead_error hc transactionId rfl)) ?_
          rintro ⟨_, _, _, hcontent', _⟩
          cases hcontent'
      | some content =>
          cases hliteral : intLiteral id with
          | error ex =>
              -- `ValueError` passes both `except` clauses
              have hresult : SimpleBlockingHTTPTransport.result p = .error invalidLiteral := by
                simp only [SimpleBlockingHTTPTransport.result, hlookup, hcontent, hliteral,
                  valueError_of_intLiteral hliteral]
              rw [hresult, hbad]
              refine iff_of_false ?_ (not_not.mpr ⟨content, id, ex, hcontent, hlookup, hliteral⟩)
              rintro (⟨_, _, _, _, hreturned, _⟩ | ⟨_, hreturned, _⟩)
              · cases hreturned
              · cases hreturned
          | ok number =>
              have hresult : SimpleBlockingHTTPTransport.result p = .ok (number, content) := by
                simp only [SimpleBlockingHTTPTransport.result, hlookup, hcontent, hliteral]
              rw [hresult, hbad]
              refine iff_of_true ?_ ?_
              · by_cases hnumber : number = transactionId
                · have hreturned : afterRead c transactionId (.ok (number, content)) =
                      (.ok (.ok content), c) := by
                    simp only [afterRead, hnumber, ne_eq, not_true, if_false]
                  rw [hreturned]
                  exact Or.inl ⟨content, p.headers, rest, id, rfl, hcontent ▸ h, hlookup,
                    hnumber ▸ hliteral⟩
                · exact Or.inr (afterRead_other hc hnumber)
              · rintro ⟨_, id', ex, _, hlookup', hraises⟩
                cases hlookup.symm.trans hlookup'
                cases hliteral.symm.trans hraises

/-- On a closed socket the first `recv` raises. -/
theorem httpRead_fd_of_closed {chunkSize rounds : ℕ} {c : SimpleBlockingConnection}
    {outcome : Except Exc (ℤ × List UInt8)} {sock' : Sock} (h : c.socketClosed = true)
    (hread : SimpleBlockingHTTPTransport.read chunkSize rounds c.fd = some (outcome, sock')) :
    outcome = .error (SockEvent.errorExc EBADF) := by
  rw [fd, if_pos h] at hread
  cases rounds with
  | zero => cases hread
  | succ rounds =>
      cases hread
      rfl

/-- A `read` that returns from the transport is handled if and only if the connection has
been closed before or the stream does not start with a response whose `Transaction-Id` is no
integer: then `ValueError` escapes. -/
theorem readHttp_handled_iff {chunkSize rounds transactionId : ℕ} {c : SimpleBlockingConnection}
    {r : Except Exc (Except Exc Body) × SimpleBlockingConnection} (hchunk : 0 < chunkSize)
    (hc : Settled c) (hsock : c.sock.Fragmented)
    (h : c.readHttp chunkSize rounds transactionId = some r) :
    Handled c.sock.incoming transactionId r ↔ c.closed = true ∨ ¬ BadId c.sock.incoming := by
  obtain ⟨⟨outcome, sock'⟩, hread, rfl⟩ := Option.map_eq_some_iff.mp h
  have hclosing : ({ c with sock := sock' }).closing = false := hc.closing
  by_cases hclosed : c.closed = true
  · obtain rfl := httpRead_fd_of_closed (hc.closed ▸ hclosed) hread
    have hex : ((SockEvent.errorExc EBADF).cls.isA .transportError ||
        (SockEvent.errorExc EBADF).cls.isA .socketError) = true := rfl
    exact iff_of_true (Or.inr (afterRead_error hclosing transactionId hex)) (Or.inl hclosed)
  · have hfd : c.fd = c.sock := by
      rw [fd, ← hc.closed, if_neg hclosed]
    rw [hfd] at hread
    rw [or_iff_right hclosed]
    rcases SimpleBlockingHTTPTransport.read_outcome hchunk hsock hread with
      ⟨ex, rfl, hclass, hmalformed⟩ | ⟨p, rest, hresponse, rfl⟩
    · have hex : (ex.cls.isA .transportError || ex.cls.isA .socketError) = true := by
        rw [hclass]
        rfl
      refine iff_of_true (Or.inr (afterRead_error hclosing transactionId hex)) ?_
      rintro ⟨_, _, _, _, _, hresponse, _⟩
      exact hmalformed.not_response hresponse
    · exact handled_of_response hclosing transactionId hresponse

/-- The response to another request, in two fragments. -/
theorem readHttp_handled_iff_other :
    ∃ (c : SimpleBlockingConnection) (r : Except Exc (Except Exc Body) × SimpleBlockingConnection),
      c.readHttp 1024 2 8 = some r ∧
        (Handled c.sock.incoming 8 r ↔ c.closed = true ∨ ¬ BadId c.sock.incoming) := by
  have hread : SimpleBlockingHTTPTransport.read 1024 2
      { incoming := bytes "HTTP/1.1 200 OK\r\nTransaction-Id: 7\r\nContent-Length: 1\r\n\r\na",
        outgoing := [], script := [.moved 20] } =
      some (.ok (7, bytes "a"), { incoming := [], outgoing := [], script := [] }) := by
    decide +kernel
  have hreadHttp := congrArg (Option.map fun r => afterRead
    { new { incoming := bytes
              "HTTP/1.1 200 OK\r\nTransaction-Id: 7\r\nContent-Length: 1\r\n\r\na",
            outgoing := [], script := [.moved 20] } with sock := r.2 } 8 r.1) hread
  refine ⟨_, _, hreadHttp, readHttp_handled_iff (show 0 < 1024 by decide) ⟨rfl, rfl⟩ ?_
    hreadHttp⟩
  simp only [Sock.Fragmented, new, List.mem_cons, List.not_mem_nil, or_false]
  rintro ev rfl
  exact ⟨20, rfl⟩

/-- A response with the `Transaction-Id` `x`: `ValueError`, and the connection is left open. -/
theorem bad_id_escapes :
    ¬ ∀ (chunkSize rounds transactionId : ℕ) (c : SimpleBlockingConnection)
        (r : Except Exc (Except Exc Body) × SimpleBlockingConnection), 0 < chunkSize → Settled c →
      c.sock.Fragmented → c.readHttp chunkSize rounds transactionId = some r →
      Handled c.sock.incoming transactionId r := by
  intro h
  have hhandled := h 1024 1 1
    (new { incoming := bytes "HTTP/1.1 200 OK\r\nTransaction-Id: x\r\nContent-Length: 0\r\n\r\n",
           outgoing := [], script := [] })
    (.error invalidLiteral, new { incoming := [], outgoing := [], script := [] })
    (by decide) ⟨rfl, rfl⟩ (List.forall_mem_nil _) ?_
  · rcases hhandled with ⟨_, _, _, _, hreturned, _⟩ | ⟨_, hreturned, _⟩
    · cases hreturned
    · cases hreturned
  · have hread : SimpleBlockingHTTPTransport.read 1024 1
        { incoming := bytes "HTTP/1.1 200 OK\r\nTransaction-Id: x\r\nContent-Length: 0\r\n\r\n",
          outgoing := [], script := [] } =
        some (.error invalidLiteral, { incoming := [], outgoing := [], script := [] }) := by
      decide +kernel
    rw [readHttp, fd, new, if_neg Bool.false_ne_true, hread]
    rfl

end SimpleBlockingConnection

end SummerRpc
