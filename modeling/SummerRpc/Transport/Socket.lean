import SummerRpc.Exception
import Mathlib.Tactic.Ring

/-! # Blocking sockets and `BlockingSocketUtility`

A blocking socket as its user sees it: the bytes the peer sends before it closes,
the bytes handed to the kernel so far, and a *script* of what the next `recv` and
`send` calls do. A call may move fewer bytes than asked for, time out, or fail
with an errno. A call that finds the script exhausted moves everything it can, so
every finite pattern of interruptions and fragments is a script.
-/

namespace SummerRpc

/-- What one `recv` or `send` call does. -/
inductive SockEvent where
  | moved (limit : ℕ)     -- at most `limit + 1` bytes move
  | timeout               -- `socket.timeout`
  | error (errno : ℕ)     -- `socket.error` with this errno
deriving DecidableEq, Repr

/-- A blocking socket. Once `incoming` is empty the peer has closed: `recv`
returns the empty string. -/
structure Sock where
  incoming : List UInt8
  outgoing : List UInt8
  script : List SockEvent
deriving DecidableEq, Repr

namespace SockEvent

/-- `socket.timeout`, a subclass of `socket.error` without an errno. -/
def timeoutExc : Exc := { cls := .socketTimeout, msg := "timed out" }

def errorExc (errno : ℕ) : Exc := { cls := .socketError, errno := some errno }

/-- The outcomes a loop of `BlockingSocketUtility` recovers from: bytes moved,
`EINTR`, and a timeout when timeouts are ignored. -/
def Harmless (ignoreTimeout : Bool) : SockEvent → Prop
  | moved _ => True
  | timeout => ignoreTimeout = true
  | error e => e = EINTR

instance (ignoreTimeout : Bool) : ∀ ev, Decidable (Harmless ignoreTimeout ev)
  | moved _ => inferInstanceAs (Decidable True)
  | timeout => inferInstanceAs (Decidable (ignoreTimeout = true))
  | error e => inferInstanceAs (Decidable (e = EINTR))

end SockEvent

namespace Sock

/-- `sock.recv(num)` -/
def recv (sock : Sock) (num : ℕ) : Except Exc (List UInt8) × Sock :=
  match sock.script with
  | [] => (.ok (sock.incoming.take num), { sock with incoming := sock.incoming.drop num })
  | .moved limit :: evs =>
      (.ok (sock.incoming.take (min num (limit + 1))),
        { sock with incoming := sock.incoming.drop (min num (limit + 1)), script := evs })
  | .timeout :: evs => (.error SockEvent.timeoutExc, { sock with script := evs })
  | .error e :: evs => (.error (SockEvent.errorExc e), { sock with script := evs })

/-- `sock.send(data)`: the number of bytes the kernel took. -/
def send (sock : Sock) (data : List UInt8) : Except Exc ℕ × Sock :=
  match sock.script with
  | [] => (.ok data.length, { sock with outgoing := sock.outgoing ++ data })
  | .moved limit :: evs =>
      (.ok (min data.length (limit + 1)),
        { sock with
          outgoing := sock.outgoing ++ data.take (min data.length (limit + 1))
          script := evs })
  | .timeout :: evs => (.error SockEvent.timeoutExc, { sock with script := evs })
  | .error e :: evs => (.error (SockEvent.errorExc e), { sock with script := evs })

/-- A `recv` that raises has used up one outcome of the script. -/
theorem recv_error {sock sock' : Sock} {num : ℕ} {ex : Exc}
    (h : sock.recv num = (.error ex, sock')) :
    ∃ ev, sock.script = ev :: sock'.script ∧ sock'.incoming = sock.incoming ∧
      sock'.outgoing = sock.outgoing ∧
      (ev = .timeout ∧ ex = SockEvent.timeoutExc ∨
        ∃ e, ev = .error e ∧ ex = SockEvent.errorExc e) := by
  unfold recv at h
  split at h <;> cases h
  · exact ⟨.timeout, by assumption, rfl, rfl, Or.inl ⟨rfl, rfl⟩⟩
  · rename_i e _ hs
    exact ⟨.error e, hs, rfl, rfl, Or.inr ⟨e, rfl, rfl⟩⟩

/-- A `recv` that returns has moved a prefix of the incoming bytes: nothing only
at the end of the stream, and never more than asked for. -/
theorem recv_ok {sock sock' : Sock} {num : ℕ} {bs : List UInt8} (hnum : 0 < num)
    (h : sock.recv num = (.ok bs, sock')) :
    sock'.script <:+ sock.script ∧ sock'.outgoing = sock.outgoing ∧
      sock.incoming = bs ++ sock'.incoming ∧ bs.length ≤ num ∧
      (bs = [] → sock.incoming = []) := by
  have key : ∀ k, 0 < k → sock.incoming.take k = [] → sock.incoming = [] := by
    intro k hk h0
    rcases List.take_eq_nil_iff.mp h0 with h0 | h0
    · omega
    · exact h0
  unfold recv at h
  split at h <;> cases h
  · refine ⟨by simp [*], rfl, (List.take_append_drop _ _).symm, List.length_take_le _ _, ?_⟩
    exact key num hnum
  · rename_i limit evs hs
    refine ⟨by simp [hs], rfl, (List.take_append_drop _ _).symm, ?_, ?_⟩
    · exact (List.length_take_le _ _).trans (Nat.min_le_left _ _)
    · exact key _ (by omega)

/-- A `send` that raises has moved nothing and used up one outcome. -/
theorem send_error {sock sock' : Sock} {data : List UInt8} {ex : Exc}
    (h : sock.send data = (.error ex, sock')) :
    ∃ ev, sock.script = ev :: sock'.script ∧ sock'.incoming = sock.incoming ∧
      sock'.outgoing = sock.outgoing ∧
      (ev = .timeout ∧ ex = SockEvent.timeoutExc ∨
        ∃ e, ev = .error e ∧ ex = SockEvent.errorExc e) := by
  unfold send at h
  split at h <;> cases h
  · exact ⟨.timeout, by assumption, rfl, rfl, Or.inl ⟨rfl, rfl⟩⟩
  · rename_i e _ hs
    exact ⟨.error e, hs, rfl, rfl, Or.inr ⟨e, rfl, rfl⟩⟩

/-- A `send` that returns has moved that many bytes off the front of the data. -/
theorem send_ok {sock sock' : Sock} {data : List UInt8} {n : ℕ}
    (h : sock.send data = (.ok n, sock')) :
    sock'.script <:+ sock.script ∧ sock'.incoming = sock.incoming ∧
      sock'.outgoing = sock.outgoing ++ data.take n ∧ n ≤ data.length ∧
      (data ≠ [] → 0 < n) := by
  unfold send at h
  split at h <;> cases h
  · refine ⟨by simp [*], rfl, by simp, le_refl _, fun hd => List.length_pos_iff.mpr hd⟩
  · rename_i limit evs hs
    refine ⟨by simp [hs], rfl, rfl, Nat.min_le_left _ _, fun hd => ?_⟩
    have := List.length_pos_iff.mpr hd
    omega

end Sock

namespace BlockingSocketUtility

/-- `raise SocketAlreadyClosedError` -/
def alreadyClosed : Exc := { cls := .socketAlreadyClosedError }

/-- The loop of `read_bytes`. `buff` holds the first `current_num` bytes. -/
def readBytesLoop (sock : Sock) (num : ℕ) (ignoreTimeout : Bool) (buff : List UInt8) :
    Except Exc (List UInt8) × Sock :=
  if _hlt : buff.length < num then
    match _hrecv : sock.recv (num - buff.length) with
    | (.error ex, sock') =>
      if ex.cls.isA .socketTimeout then
        if ignoreTimeout then readBytesLoop sock' num ignoreTimeout buff
        else (.error ex, sock')
      else if ex.errno = some EINTR then readBytesLoop sock' num ignoreTimeout buff
      else if ex.errno = some EBADF then (.error alreadyClosed, sock')
      else (.error ex, sock')
    | (.ok incoming, sock') =>
      -- zero bytes from a blocking socket: the peer has closed
      if incoming = [] then (.error alreadyClosed, sock')
      else readBytesLoop sock' num ignoreTimeout (buff ++ incoming)
  else (.ok buff, sock)
termination_by sock.script.length + (num - buff.length)
decreasing_by
  · obtain ⟨ev, hev, -⟩ := Sock.recv_error _hrecv
    rw [hev, List.length_cons]
    omega
  · obtain ⟨ev, hev, -⟩ := Sock.recv_error _hrecv
    rw [hev, List.length_cons]
    omega
  · rename_i hne
    obtain ⟨hsuf, -, -, hle, -⟩ := Sock.recv_ok (by omega) _hrecv
    have h1 := hsuf.length_le
    have h2 := List.length_pos_iff.mpr hne
    rw [List.length_append]
    omega

/-- `read_bytes`: exactly `num` bytes, or an exception. -/
def readBytes (sock : Sock) (num : ℕ) (ignoreTimeout : Bool) :
    Except Exc (List UInt8) × Sock :=
  readBytesLoop sock num ignoreTimeout []

theorem readBytesLoop_error {sock sock' : Sock} {num : ℕ} {ignoreTimeout : Bool}
    {buff : List UInt8} {ex : Exc} (hlt : buff.length < num)
    (hrecv : sock.recv (num - buff.length) = (.error ex, sock')) :
    readBytesLoop sock num ignoreTimeout buff =
      if ex.cls.isA .socketTimeout then
        if ignoreTimeout then readBytesLoop sock' num ignoreTimeout buff
        else (.error ex, sock')
      else if ex.errno = some EINTR then readBytesLoop sock' num ignoreTimeout buff
      else if ex.errno = some EBADF then (.error alreadyClosed, sock')
      else (.error ex, sock') := by
  rw [readBytesLoop, dif_pos hlt]
  split
  · rename_i h
    rw [hrecv] at h
    cases h
    rfl
  · rename_i h
    rw [hrecv] at h
    cases h

theorem readBytesLoop_ok {sock sock' : Sock} {num : ℕ} {ignoreTimeout : Bool}
    {buff incoming : List UInt8} (hlt : buff.length < num)
    (hrecv : sock.recv (num - buff.length) = (.ok incoming, sock')) :
    readBytesLoop sock num ignoreTimeout buff =
      if incoming = [] then (.error alreadyClosed, sock')
      else readBytesLoop sock' num ignoreTimeout (buff ++ incoming) := by
  rw [readBytesLoop, dif_pos hlt]
  split
  · rename_i h
    rw [hrecv] at h
    cases h
  · rename_i h
    rw [hrecv] at h
    cases h
    rfl

theorem readBytesLoop_done {sock : Sock} {num : ℕ} {ignoreTimeout : Bool}
    {buff : List UInt8} (h : ¬ buff.length < num) :
    readBytesLoop sock num ignoreTimeout buff = (.ok buff, sock) := by
  rw [readBytesLoop, dif_neg h]

/-- The loop of `write_data`; `sendBytes` bytes of `data` have been sent. -/
def writeDataLoop (sock : Sock) (data : List UInt8) (sendBytes : ℕ) :
    Except Exc Unit × Sock :=
  if _hlt : sendBytes < data.length then
    match _hsend : sock.send (data.drop sendBytes) with
    | (.error ex, sock') =>
      if ex.errno = some EINTR then writeDataLoop sock' data sendBytes
      else (.error ex, sock')
    | (.ok length, sock') => writeDataLoop sock' data (sendBytes + length)
  else (.ok (), sock)
termination_by sock.script.length + (data.length - sendBytes)
decreasing_by
  · obtain ⟨ev, hev, -⟩ := Sock.send_error _hsend
    rw [hev, List.length_cons]
    omega
  · obtain ⟨hsuf, -, -, -, hpos⟩ := Sock.send_ok _hsend
    have h1 := hsuf.length_le
    have h2 : 0 < length := hpos (by rw [ne_eq, List.drop_eq_nil_iff]; omega)
    omega

/-- `write_data` -/
def writeData (sock : Sock) (data : List UInt8) : Except Exc Unit × Sock :=
  writeDataLoop sock data 0

theorem writeDataLoop_error {sock sock' : Sock} {data : List UInt8} {sendBytes : ℕ} {ex : Exc}
    (hlt : sendBytes < data.length)
    (hsend : sock.send (data.drop sendBytes) = (.error ex, sock')) :
    writeDataLoop sock data sendBytes =
      if ex.errno = some EINTR then writeDataLoop sock' data sendBytes
      else (.error ex, sock') := by
  rw [writeDataLoop, dif_pos hlt]
  split
  · rename_i h
    rw [hsend] at h
    cases h
    rfl
  · rename_i h
    rw [hsend] at h
    cases h

theorem writeDataLoop_ok {sock sock' : Sock} {data : List UInt8} {sendBytes length : ℕ}
    (hlt : sendBytes < data.length)
    (hsend : sock.send (data.drop sendBytes) = (.ok length, sock')) :
    writeDataLoop sock data sendBytes = writeDataLoop sock' data (sendBytes + length) := by
  rw [writeDataLoop, dif_pos hlt]
  split
  · rename_i h
    rw [hsend] at h
    cases h
  · rename_i h
    rw [hsend] at h
    cases h
    rfl

theorem writeDataLoop_done {sock : Sock} {data : List UInt8} {sendBytes : ℕ}
    (h : ¬ sendBytes < data.length) :
    writeDataLoop sock data sendBytes = (.ok (), sock) := by
  rw [writeDataLoop, dif_neg h]

end BlockingSocketUtility

end SummerRpc
