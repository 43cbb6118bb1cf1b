import SummerRpc.Lib.BigEndian
import SummerRpc.Lib.Framing
import SummerRpc.Transport.Socket
import SummerRpc.Transport.Stream

/-! # The record transport

`BaseRecordTransport` of `transport.py`: four bytes of body length, four bytes of
transaction id, the body. `RecordTransport` reads from an `IOStream` on the
server, `BlockingRecordTransport` from a blocking socket on the client.

* `packetCode`, `packetCode_lawful`: the packets are a self-delimiting code on
  the packets whose id and body length fit their fields;
* `readBytes_spec`, `writeData_spec`: what the two byte loops do, under any
  harmless script;
* `readBytes_reads`, `writeData_writes`: what they have done under any script at all;
* `read_spec`, `read_eq`: both readers decode that code; `read_reads`: under any script
  the blocking one consumes exactly the packet it returns.
-/

namespace SummerRpc

open BigEndian Framing

namespace BaseRecordTransport

/-- `HEAD_LENGTH = struct.calcsize("!I")` -/
def headLength : ℕ := 4

/-- `TRANSACTION_ID_LENGTH = struct.calcsize("!I")` -/
def transactionIdLength : ℕ := 4

/-- `struct.pack("!I", n)` -/
def packI (n : ℕ) : Except Exc (List UInt8) :=
  if n < 2 ^ 32 then .ok (encodeBE 4 n)
  else .error { cls := .structError, msg := "integer out of range for 'I' format code" }

/-- `struct.unpack("!I", buff)[0]` -/
def unpackI (buff : List UInt8) : ℕ := decodeBE buff

/-- `generate_packet`. Packing the body with `"%ds"` of its own length is the body. -/
def generatePacket (transactionId : ℕ) (bodyBuff : List UInt8) : Except Exc (List UInt8) := do
  let headBuff ← packI bodyBuff.length
  let transactionIdBuff ← packI transactionId
  return headBuff ++ transactionIdBuff ++ bodyBuff

/-- The packets whose id and body length fit their 32-bit fields. -/
def Encodable (p : ℕ × List UInt8) : Prop := p.1 < 2 ^ 32 ∧ p.2.length < 2 ^ 32

instance : DecidablePred Encodable := fun _ => inferInstanceAs (Decidable (_ ∧ _))

/-- `generate_packet` succeeds exactly on the packets that fit, and raises
`struct.error` on all others. -/
theorem generatePacket_eq (tid : ℕ) (body : List UInt8) :
    generatePacket tid body =
      if Encodable (tid, body) then
        .ok (encodeBE 4 body.length ++ encodeBE 4 tid ++ body)
      else .error { cls := .structError, msg := "integer out of range for 'I' format code" } := by
  by_cases hlen : body.length < 2 ^ 32
  · by_cases htid : tid < 2 ^ 32
    · have h : Encodable (tid, body) := ⟨htid, hlen⟩
      rw [if_pos h, generatePacket, packI, packI, if_pos hlen, if_pos htid]
      rfl
    · have h : ¬ Encodable (tid, body) := fun h => htid h.1
      rw [if_neg h, generatePacket, packI, packI, if_pos hlen, if_neg htid]
      rfl
  · have h : ¬ Encodable (tid, body) := fun h => hlen h.2
    rw [if_neg h, generatePacket, packI, if_neg hlen]
    rfl

theorem generatePacket_ok {tid : ℕ} {body : List UInt8} (h : Encodable (tid, body)) :
    generatePacket tid body = .ok (encodeBE 4 body.length ++ encodeBE 4 tid ++ body) := by
  rw [generatePacket_eq, if_pos h]

theorem generatePacket_isOk_iff {tid : ℕ} {body : List UInt8} :
    (∃ data, generatePacket tid body = .ok data) ↔ Encodable (tid, body) := by
  rw [generatePacket_eq]
  constructor
  · rintro ⟨data, h⟩
    by_contra hn
    rw [if_neg hn] at h
    cases h
  · intro h
    exact ⟨_, if_pos h⟩

/-! ## The packets as a frame code -/

/-- The bytes of a packet, and reading one packet off the front of a stream. -/
def packetCode : Code (ℕ × List UInt8) UInt8 where
  enc := fun p => encodeBE 4 p.2.length ++ encodeBE 4 p.1 ++ p.2
  dec := fun s =>
    if 8 ≤ s.length ∧ unpackI (s.take 4) ≤ (s.drop 8).length then
      some ((unpackI ((s.drop 4).take 4), (s.drop 8).take (unpackI (s.take 4))),
        (s.drop 8).drop (unpackI (s.take 4)))
    else none

theorem packetCode_enc (tid : ℕ) (body : List UInt8) :
    packetCode.enc (tid, body) = encodeBE 4 body.length ++ encodeBE 4 tid ++ body := rfl

theorem packetCode_length (p : ℕ × List UInt8) :
    (packetCode.enc p).length = 8 + p.2.length := by
  simp only [packetCode, List.length_append, length_encodeBE]

/-- What `generate_packet` returns is the frame of the packet. -/
theorem generatePacket_eq_enc {tid : ℕ} {body data : List UInt8} :
    generatePacket tid body = .ok data ↔
      Encodable (tid, body) ∧ data = packetCode.enc (tid, body) := by
  rw [generatePacket_eq, packetCode_enc]
  by_cases h : Encodable (tid, body)
  · simp [h, eq_comm]
  · simp [h]

/-- Packets that fit their fields are self-delimiting. -/
theorem packetCode_lawful : Lawful packetCode Encodable where
  dec_enc := by
    rintro ⟨tid, body⟩ ⟨htid, hlen⟩ rest
    have hhead : unpackI (encodeBE 4 body.length) = body.length :=
      decodeBE_encodeBE (by simpa using hlen)
    have hid : unpackI (encodeBE 4 tid) = tid := decodeBE_encodeBE (by simpa using htid)
    have h4 : (packetCode.enc (tid, body) ++ rest).take 4 = encodeBE 4 body.length := by
      rw [packetCode_enc, List.append_assoc, List.append_assoc]
      exact List.take_left' (length_encodeBE 4 _)
    have h48 : ((packetCode.enc (tid, body) ++ rest).drop 4).take 4 = encodeBE 4 tid := by
      rw [packetCode_enc, List.append_assoc, List.append_assoc,
        List.drop_left' (length_encodeBE 4 _)]
      exact List.take_left' (length_encodeBE 4 _)
    have h8 : (packetCode.enc (tid, body) ++ rest).drop 8 = body ++ rest := by
      rw [packetCode_enc, List.append_assoc]
      exact List.drop_left' (by simp)
    -- so both tests of `dec` on the length are met
    have hlong : 8 ≤ (packetCode.enc (tid, body) ++ rest).length := by
      rw [List.length_append, packetCode_length]
      omega
    show (if _ then _ else _) = _
    rw [h4, h48, h8, hhead, hid, if_pos ⟨hlong, by simp⟩, List.take_left, List.drop_left]
  dec_append := by
    rintro xs ys ⟨tid, body⟩ rest h
    simp only [packetCode] at h ⊢
    split at h
    · rename_i hc
      obtain ⟨h8, hn⟩ := hc
      -- the packet ends inside `xs`, so no part of it is cut from `ys`
      have h4 : (xs ++ ys).take 4 = xs.take 4 := List.take_append_of_le_length (by omega)
      have h48 : ((xs ++ ys).drop 4).take 4 = (xs.drop 4).take 4 := by
        rw [List.drop_append_of_le_length (by omega)]
        exact List.take_append_of_le_length (by rw [List.length_drop]; omega)
      have hd8 : (xs ++ ys).drop 8 = xs.drop 8 ++ ys :=
        List.drop_append_of_le_length h8
      simp only [Option.some.injEq, Prod.mk.injEq] at h
      obtain ⟨⟨htid, hbody⟩, hrest⟩ := h
      rw [h4, h48, hd8, if_pos ⟨by rw [List.length_append]; omega,
        by rw [List.length_append]; omega⟩]
      rw [List.take_append_of_le_length hn, List.drop_append_of_le_length hn, htid, hbody, hrest]
    · cases h

/-- A decoded id fits its field. -/
theorem packetCode_dec_lt {s rest body : List UInt8} {tid : ℕ}
    (h : packetCode.dec s = some ((tid, body), rest)) : tid < 2 ^ 32 := by
  simp only [packetCode] at h
  split at h
  · rename_i hc
    simp only [Option.some.injEq, Prod.mk.injEq] at h
    have hlt := decodeBE_lt ((s.drop 4).take 4)
    have hlen : ((s.drop 4).take 4).length = 4 := by
      rw [List.length_take, List.length_drop]
      omega
    rw [hlen] at hlt
    rw [← h.1.1]
    exact hlt
  · cases h

/-- Nothing but packets decodes. -/
theorem packetCode_exact : Exact packetCode Encodable where
  toLawful := packetCode_lawful
  enc_ne_nil := by
    intro p _ hnil
    have hlen := packetCode_length p
    rw [hnil, List.length_nil] at hlen
    omega
  dec_sound := by
    rintro xs ⟨tid, body⟩ rest h
    have htid : tid < 2 ^ 32 := packetCode_dec_lt h
    simp only [packetCode] at h
    split at h
    · rename_i hc
      obtain ⟨h8, hn⟩ := hc
      simp only [Option.some.injEq, Prod.mk.injEq] at h
      obtain ⟨⟨hid, hbody⟩, hrest⟩ := h
      -- the two fields are what four bytes encode
      have hhead4 : (xs.take 4).length = 4 := by
        rw [List.length_take]
        omega
      have hid4 : ((xs.drop 4).take 4).length = 4 := by
        rw [List.length_take, List.length_drop]
        omega
      have hlen : body.length = unpackI (xs.take 4) := by
        rw [← hbody, List.length_take]
        omega
      have hlt := decodeBE_lt (xs.take 4)
      rw [hhead4] at hlt
      have hhead : encodeBE 4 body.length = xs.take 4 := by
        rw [hlen]
        exact encodeBE_decodeBE hhead4
      have hidbytes : encodeBE 4 tid = (xs.drop 4).take 4 := by
        rw [← hid]
        exact encodeBE_decodeBE hid4
      refine ⟨⟨htid, ?_⟩, ?_⟩
      · rw [hlen]
        exact hlt
      · have hdrop : xs.drop 8 = (xs.drop 4).drop 4 := by rw [List.drop_drop]
        rw [packetCode_enc, hhead, hidbytes, List.append_assoc, List.append_assoc, ← hbody,
          ← hrest, List.take_append_drop, hdrop, List.take_append_drop, List.take_append_drop]
    · cases h

end BaseRecordTransport

/-! ## The byte loops -/

namespace BlockingSocketUtility

open SockEvent

/-- A harmless exception is retried: `read_bytes` does not let it through. -/
theorem recv_harmless_error {ev : SockEvent} {ignoreTimeout : Bool} {ex : Exc}
    (hh : ev.Harmless ignoreTimeout)
    (he : ev = .timeout ∧ ex = timeoutExc ∨ ∃ e, ev = .error e ∧ ex = errorExc e) :
    (ex.cls.isA .socketTimeout = true ∧ ignoreTimeout = true) ∨
      (ex.cls.isA .socketTimeout = false ∧ ex.errno = some EINTR) := by
  rcases he with ⟨rfl, rfl⟩ | ⟨e, rfl, rfl⟩
  · exact Or.inl ⟨rfl, hh⟩
  · have he : e = EINTR := hh
    rw [he]
    exact Or.inr ⟨rfl, rfl⟩

/-- After an exception of `recv` or `send` the rest of the script is harmless too. -/
theorem harmless_raised {sock sock' : Sock} {ignoreTimeout : Bool} {ex : Exc}
    (hs : ∀ ev ∈ sock.script, ev.Harmless ignoreTimeout)
    (h : ∃ ev, sock.script = ev :: sock'.script ∧ sock'.incoming = sock.incoming ∧
      sock'.outgoing = sock.outgoing ∧
      (ev = .timeout ∧ ex = timeoutExc ∨ ∃ e, ev = .error e ∧ ex = errorExc e)) :
    ∃ ev, sock.script = ev :: sock'.script ∧ sock'.incoming = sock.incoming ∧
      sock'.outgoing = sock.outgoing ∧ (∀ e ∈ sock'.script, e.Harmless ignoreTimeout) ∧
      ((ex.cls.isA .socketTimeout = true ∧ ignoreTimeout = true) ∨
        (ex.cls.isA .socketTimeout = false ∧ ex.errno = some EINTR)) := by
  obtain ⟨ev, hev, hin, hout, hex⟩ := h
  rw [hev, List.forall_mem_cons] at hs
  exact ⟨ev, hev, hin, hout, hs.2, recv_harmless_error hs.1 hex⟩

/-- What is left of `read_bytes` with `buff` already read: with enough bytes to
come it returns exactly the missing ones, otherwise it finds the end of the stream. -/
def ReadsRest (num : ℕ) (ignoreTimeout : Bool) (sock : Sock) (buff : List UInt8) : Prop :=
  (num - buff.length ≤ sock.incoming.length →
    ∃ script', script' <:+ sock.script ∧
      readBytesLoop sock num ignoreTimeout buff =
        (.ok (buff ++ sock.incoming.take (num - buff.length)),
          { sock with
            incoming := sock.incoming.drop (num - buff.length), script := script' })) ∧
  (sock.incoming.length < num - buff.length →
    ∃ sock', readBytesLoop sock num ignoreTimeout buff = (.error alreadyClosed, sock'))

/-- A retried call changes nothing but the script. -/
theorem ReadsRest.of_retry {num : ℕ} {ignoreTimeout : Bool} {sock sock' : Sock}
    {buff : List UInt8} {ev : SockEvent} (hev : sock.script = ev :: sock'.script)
    (hin : sock'.incoming = sock.incoming) (hout : sock'.outgoing = sock.outgoing)
    (hstep : readBytesLoop sock num ignoreTimeout buff =
      readBytesLoop sock' num ignoreTimeout buff)
    (h : ReadsRest num ignoreTimeout sock' buff) : ReadsRest num ignoreTimeout sock buff := by
  constructor
  · intro hle
    rw [← hin] at hle
    obtain ⟨script', hsuf, heq⟩ := h.1 hle
    refine ⟨script', hsuf.trans (by rw [hev]; exact List.suffix_cons _ _), ?_⟩
    rw [hstep, heq, hin, hout]
  · intro hlt
    rw [← hin] at hlt
    rw [hstep]
    exact h.2 hlt

/-- Bytes that arrived are the next ones of the stream. -/
theorem ReadsRest.of_arrived {num : ℕ} {ignoreTimeout : Bool} {sock sock' : Sock}
    {buff incoming : List UInt8} (hsuf : sock'.script <:+ sock.script)
    (hout : sock'.outgoing = sock.outgoing) (hin : sock.incoming = incoming ++ sock'.incoming)
    (hle : incoming.length ≤ num - buff.length)
    (hstep : readBytesLoop sock num ignoreTimeout buff =
      readBytesLoop sock' num ignoreTimeout (buff ++ incoming))
    (h : ReadsRest num ignoreTimeout sock' (buff ++ incoming)) :
    ReadsRest num ignoreTimeout sock buff := by
  have hrem : num - (buff ++ incoming).length = num - buff.length - incoming.length := by
    rw [List.length_append]
    omega
  have hlen : sock.incoming.length = incoming.length + sock'.incoming.length := by
    rw [hin, List.length_append]
  constructor
  · intro hle'
    obtain ⟨script', hsuf', heq⟩ := h.1 (by omega)
    have htake : incoming ++ sock'.incoming.take (num - buff.length - incoming.length) =
        sock.incoming.take (num - buff.length) := by
      rw [hin, List.take_append, List.take_of_length_le hle]
    have hdrop : sock'.incoming.drop (num - buff.length - incoming.length) =
        sock.incoming.drop (num - buff.length) := by
      rw [hin, List.drop_append, List.drop_of_length_le hle, List.nil_append]
    refine ⟨script', hsuf'.trans hsuf, ?_⟩
    rw [hstep, heq, hrem, List.append_assoc, htake, hdrop, hout]
  · intro hlt
    rw [hstep]
    exact h.2 (by omega)

/-- The loop of `read_bytes` under a harmless script. -/
theorem readBytesLoop_spec (num : ℕ) (ignoreTimeout : Bool) (sock : Sock) (buff : List UInt8)
    (hs : ∀ ev ∈ sock.script, ev.Harmless ignoreTimeout) (hb : buff.length ≤ num) :
    ReadsRest num ignoreTimeout sock buff := by
  induction sock, buff using readBytesLoop.induct num ignoreTimeout with
  | case1 sock buff hlt ex sock' hrecv hto hig ih =>
      -- a timeout that is ignored
      rcases harmless_raised hs (Sock.recv_error hrecv) with ⟨ev, hev, hin, hout, hsub, -⟩
      refine ReadsRest.of_retry hev hin hout ?_ (ih hsub hb)
      rw [readBytesLoop_error hlt hrecv, if_pos hto, if_pos hig]
  | case2 sock buff hlt ex sock' hrecv hto hig =>
      -- a timeout that is not ignored is not harmless
      rcases harmless_raised hs (Sock.recv_error hrecv) with ⟨-, -, -, -, -, ⟨-, h⟩ | ⟨h, -⟩⟩
      · exact absurd h hig
      · rw [hto] at h
        cases h
  | case3 sock buff hlt ex sock' hrecv hto hint ih =>
      -- the call was interrupted by a signal
      rcases harmless_raised hs (Sock.recv_error hrecv) with ⟨ev, hev, hin, hout, hsub, -⟩
      refine ReadsRest.of_retry hev hin hout ?_ (ih hsub hb)
      rw [readBytesLoop_error hlt hrecv, if_neg hto, if_pos hint]
  | case4 sock buff hlt ex sock' hrecv hto hint hbad =>
      rcases harmless_raised hs (Sock.recv_error hrecv) with ⟨-, -, -, -, -, ⟨h, -⟩ | ⟨-, h⟩⟩
      · exact absurd h hto
      · exact absurd h hint
  | case5 sock buff hlt ex sock' hrecv hto hint hbad =>
      rcases harmless_raised hs (Sock.recv_error hrecv) with ⟨-, -, -, -, -, ⟨h, -⟩ | ⟨-, h⟩⟩
      · exact absurd h hto
      · exact absurd h hint
  | case6 sock buff hlt sock' hrecv =>
      -- zero bytes: the stream has ended
      rcases Sock.recv_ok (by omega) hrecv with ⟨-, -, -, -, hnil⟩
      have h0 := hnil rfl
      constructor
      · intro hle
        rw [h0, List.length_nil] at hle
        omega
      · intro _
        exact ⟨sock', by rw [readBytesLoop_ok hlt hrecv, if_pos rfl]⟩
  | case7 sock buff hlt incoming sock' hrecv hne ih =>
      rcases Sock.recv_ok (by omega) hrecv with ⟨hsuf, hout, hin, hle, -⟩
      have hb' : (buff ++ incoming).length ≤ num := by
        rw [List.length_append]
        omega
      refine ReadsRest.of_arrived hsuf hout hin hle ?_
        (ih (fun e he => hs e (hsuf.subset he)) hb')
      rw [readBytesLoop_ok hlt hrecv, if_neg hne]
  | case8 sock buff hge =>
      -- all bytes are there
      have h0 : num - buff.length = 0 := by omega
      constructor
      · intro _
        refine ⟨sock.script, List.suffix_refl _, ?_⟩
        rw [readBytesLoop_done hge, h0, List.take_zero, List.append_nil, List.drop_zero]
      · intro hlt
        omega

/-- `read_bytes` under a harmless script: the next `num` bytes of the stream, or
`SocketAlreadyClosedError` when the stream ends before. -/
theorem readBytes_spec {sock : Sock} (num : ℕ) {ignoreTimeout : Bool}
    (hs : ∀ ev ∈ sock.script, ev.Harmless ignoreTimeout) :
    (num ≤ sock.incoming.length →
      ∃ script', script' <:+ sock.script ∧
        readBytes sock num ignoreTimeout =
          (.ok (sock.incoming.take num),
            { sock with incoming := sock.incoming.drop num, script := script' })) ∧
    (sock.incoming.length < num →
      ∃ sock', readBytes sock num ignoreTimeout = (.error alreadyClosed, sock')) :=
  readBytesLoop_spec num ignoreTimeout sock [] hs (Nat.zero_le _)

/-- `write_data` under a script of short sends and interruptions hands the kernel
exactly the data. -/
theorem writeDataLoop_spec (data : List UInt8) (sock : Sock) (sendBytes : ℕ)
    (hs : ∀ ev ∈ sock.script, ev.Harmless false) (hb : sendBytes ≤ data.length) :
    ∃ script', script' <:+ sock.script ∧
      writeDataLoop sock data sendBytes =
        (.ok (), { sock with
          outgoing := sock.outgoing ++ data.drop sendBytes, script := script' }) := by
  induction sock, sendBytes using writeDataLoop.induct data with
  | case1 sock sendBytes hlt ex sock' hsend hint ih =>
      -- an interrupted `send` is repeated with the same data
      rcases harmless_raised hs (Sock.send_error hsend) with ⟨ev, hev, hin, hout, hsub, -⟩
      obtain ⟨script', hsuf, heq⟩ := ih hsub hb
      refine ⟨script', hsuf.trans (by rw [hev]; exact List.suffix_cons _ _), ?_⟩
      rw [writeDataLoop_error hlt hsend, if_pos hint, heq, hin, hout]
  | case2 sock sendBytes hlt ex sock' hsend hint =>
      rcases harmless_raised hs (Sock.send_error hsend) with ⟨-, -, -, -, -, ⟨-, h⟩ | ⟨-, h⟩⟩
      · cases h
      · exact absurd h hint
  | case3 sock sendBytes hlt length sock' hsend ih =>
      rcases Sock.send_ok hsend with ⟨hsuf, hin, hout, hle, -⟩
      rw [List.length_drop] at hle
      -- the kernel never takes more than is left, so the count stays in the data
      obtain ⟨script', hsuf', heq⟩ := ih (fun e he => hs e (hsuf.subset he)) (by omega)
      refine ⟨script', hsuf'.trans hsuf, ?_⟩
      have hdata : (data.drop sendBytes).take length ++ data.drop (sendBytes + length) =
          data.drop sendBytes := by
        rw [← List.drop_drop]
        exact List.take_append_drop _ _
      rw [writeDataLoop_ok hlt hsend, heq, hin, hout, List.append_assoc, hdata]
  | case4 sock sendBytes hge =>
      have h0 : data.drop sendBytes = [] := List.drop_eq_nil_iff.mpr (by omega)
      refine ⟨sock.script, List.suffix_refl _, ?_⟩
      rw [writeDataLoop_done hge, h0, List.append_nil]

theorem writeData_spec {sock : Sock} (data : List UInt8)
    (hs : ∀ ev ∈ sock.script, ev.Harmless false) :
    ∃ script', script' <:+ sock.script ∧
      writeData sock data =
        (.ok (), { sock with outgoing := sock.outgoing ++ data, script := script' }) :=
  writeDataLoop_spec data sock 0 hs (Nat.zero_le _)

/-! ### Any script -/

/-- What `read_bytes` has done when it returns or raises, whatever the socket did: it
has consumed the bytes it read, and has raised only what its callers expect. -/
structure Reads (num : ℕ) (sock : Sock) (buff : List UInt8)
    (r : Except Exc (List UInt8) × Sock) : Prop where
  outgoing : r.2.outgoing = sock.outgoing
  consumed : ∃ got, sock.incoming = got ++ r.2.incoming ∧
    ∀ bs, r.1 = .ok bs → bs = buff ++ got ∧ bs.length = num
  raised : ∀ ex, r.1 = .error ex →
    ex.cls.isA .transportError = true ∨ ex.cls.isA .socketError = true

/-- An exception of `recv` or `send` is a `socket.error`. -/
theorem isA_socketError {ev : SockEvent} {ex : Exc}
    (h : ev = .timeout ∧ ex = timeoutExc ∨ ∃ e, ev = .error e ∧ ex = errorExc e) :
    ex.cls.isA .socketError = true := by
  rcases h with ⟨_, rfl⟩ | ⟨e, _, rfl⟩ <;> rfl

theorem Reads.of_retry {num : ℕ} {sock sock' : Sock} {buff : List UInt8}
    {r : Except Exc (List UInt8) × Sock} (hin : sock'.incoming = sock.incoming)
    (hout : sock'.outgoing = sock.outgoing) (h : Reads num sock' buff r) :
    Reads num sock buff r :=
  ⟨h.outgoing.trans hout, by rw [← hin]; exact h.consumed, h.raised⟩

theorem Reads.of_raise {num : ℕ} {sock sock' : Sock} {buff : List UInt8} {ex : Exc}
    (hin : sock'.incoming = sock.incoming) (hout : sock'.outgoing = sock.outgoing)
    (hex : ex.cls.isA .transportError = true ∨ ex.cls.isA .socketError = true) :
    Reads num sock buff (.error ex, sock') := by
  refine ⟨hout, ⟨[], hin.symm, nofun⟩, ?_⟩
  rintro _ ⟨rfl⟩
  exact hex

theorem readBytesLoop_reads (num : ℕ) (ignoreTimeout : Bool) (sock : Sock) (buff : List UInt8)
    (hb : buff.length ≤ num) :
    Reads num sock buff (readBytesLoop sock num ignoreTimeout buff) := by
  induction sock, buff using readBytesLoop.induct num ignoreTimeout with
  | case1 sock buff hlt ex sock' hrecv hto hig ih =>
      rcases Sock.recv_error hrecv with ⟨ev, _, hin, hout, _⟩
      rw [readBytesLoop_error hlt hrecv, if_pos hto, if_pos hig]
      exact (ih hb).of_retry hin hout
  | case2 sock buff hlt ex sock' hrecv hto hig =>
      rcases Sock.recv_error hrecv with ⟨ev, _, hin, hout, hex⟩
      rw [readBytesLoop_error hlt hrecv, if_pos hto, if_neg hig]
      exact Reads.of_raise hin hout (Or.inr (isA_socketError hex))
  | case3 sock buff hlt ex sock' hrecv hto hint ih =>
      rcases Sock.recv_error hrecv with ⟨ev, _, hin, hout, _⟩
      rw [readBytesLoop_error hlt hrecv, if_neg hto, if_pos hint]
      exact (ih hb).of_retry hin hout
  | case4 sock buff hlt ex sock' hrecv hto hint hbad =>
      rcases Sock.recv_error hrecv with ⟨ev, _, hin, hout, _⟩
      rw [readBytesLoop_error hlt hrecv, if_neg hto, if_neg hint, if_pos hbad]
      exact Reads.of_raise hin hout (Or.inl rfl)
  | case5 sock buff hlt ex sock' hrecv hto hint hbad =>
      rcases Sock.recv_error hrecv with ⟨ev, _, hin, hout, hex⟩
      rw [readBytesLoop_error hlt hrecv, if_neg hto, if_neg hint, if_neg hbad]
      exact Reads.of_raise hin hout (Or.inr (isA_socketError hex))
  | case6 sock buff hlt sock' hrecv =>
      -- the peer has closed
      rcases Sock.recv_ok (by omega) hrecv with ⟨_, hout, hin, _, _⟩
      rw [readBytesLoop_ok hlt hrecv, if_pos rfl]
      exact Reads.of_raise hin.symm hout (Or.inl rfl)
  | case7 sock buff hlt incoming sock' hrecv hne ih =>
      rcases Sock.recv_ok (by omega) hrecv with ⟨_, hout, hin, hle, _⟩
      rw [readBytesLoop_ok hlt hrecv, if_neg hne]
      have hrest := ih (by rw [List.length_append]; omega)
      rcases hrest.consumed with ⟨got, hgot, hok⟩
      refine ⟨hrest.outgoing.trans hout, ⟨incoming ++ got, ?_, ?_⟩, hrest.raised⟩
      · rw [hin, hgot, List.append_assoc]
      · intro bs hbs
        rw [← List.append_assoc]
        exact hok bs hbs
  | case8 sock buff hge =>
      rw [readBytesLoop_done hge]
      refine ⟨rfl, ⟨[], rfl, ?_⟩, nofun⟩
      rintro _ ⟨rfl⟩
      exact ⟨(List.append_nil _).symm, by omega⟩

theorem readBytes_reads (sock : Sock) (num : ℕ) (ignoreTimeout : Bool) :
    Reads num sock [] (readBytes sock num ignoreTimeout) :=
  readBytesLoop_reads num ignoreTimeout sock [] (Nat.zero_le _)

/-- What `write_data` has done when it returns or raises, whatever the socket did: it
has put a first part of the data on the socket, all of it when it returns. -/
structure Writes (sock : Sock) (data : List UInt8) (r : Except Exc Unit × Sock) : Prop where
  incoming : r.2.incoming = sock.incoming
  sent : ∃ k, r.2.outgoing = sock.outgoing ++ data.take k
  returned : r.1 = .ok () → r.2.outgoing = sock.outgoing ++ data
  raised : ∀ ex, r.1 = .error ex → ex.cls.isA .socketError = true

theorem writeDataLoop_writes (data : List UInt8) (sock : Sock) (sendBytes : ℕ) :
    Writes sock (data.drop sendBytes) (writeDataLoop sock data sendBytes) := by
  induction sock, sendBytes using writeDataLoop.induct data with
  | case1 sock sendBytes hlt ex sock' hsend hint ih =>
      rcases Sock.send_error hsend with ⟨ev, _, hin, hout, _⟩
      rw [writeDataLoop_error hlt hsend, if_pos hint]
      exact ⟨ih.incoming.trans hin, by rw [← hout]; exact ih.sent,
        by rw [← hout]; exact ih.returned, ih.raised⟩
  | case2 sock sendBytes hlt ex sock' hsend hint =>
      rcases Sock.send_error hsend with ⟨ev, _, hin, hout, hex⟩
      rw [writeDataLoop_error hlt hsend, if_neg hint]
      refine ⟨hin, ⟨0, ?_⟩, nofun, ?_⟩
      · rw [List.take_zero, List.append_nil]
        exact hout
      · rintro _ ⟨rfl⟩
        exact isA_socketError hex
  | case3 sock sendBytes hlt length sock' hsend ih =>
      rcases Sock.send_ok hsend with ⟨_, hin, hout, hle, _⟩
      rw [writeDataLoop_ok hlt hsend]
      rw [← List.drop_drop] at ih
      rcases ih.sent with ⟨k, hk⟩
      refine ⟨ih.incoming.trans hin, ⟨length + k, ?_⟩, ?_, ih.raised⟩
      · rw [hk, hout, List.append_assoc, List.take_add]
      · intro hok
        rw [ih.returned hok, hout, List.append_assoc, List.take_append_drop]
  | case4 sock sendBytes hge =>
      rw [writeDataLoop_done hge, List.drop_eq_nil_iff.mpr (by omega)]
      exact ⟨rfl, ⟨0, (List.append_nil _).symm⟩, fun _ => (List.append_nil _).symm, nofun⟩

theorem writeData_writes (sock : Sock) (data : List UInt8) :
    Writes sock data (writeData sock data) :=
  writeDataLoop_writes data sock 0

end BlockingSocketUtility

/-! ## The two readers and the writer -/

open BaseRecordTransport

namespace BlockingRecordTransport

/-- `BlockingRecordTransport.read` -/
def read (sock : Sock) (ignoreTimeout : Bool) : Except Exc (ℕ × List UInt8) × Sock :=
  match BlockingSocketUtility.readBytes sock headLength ignoreTimeout with
  | (.error ex, sock) => (.error ex, sock)
  | (.ok headBuff, sock) =>
    let headInfo := unpackI headBuff
    match BlockingSocketUtility.readBytes sock transactionIdLength ignoreTimeout with
    | (.error ex, sock) => (.error ex, sock)
    | (.ok transactionIdBuff, sock) =>
      let transactionId := unpackI transactionIdBuff
      let bodyLength := headInfo
      match BlockingSocketUtility.readBytes sock bodyLength ignoreTimeout with
      | (.error ex, sock) => (.error ex, sock)
      | (.ok body, sock) => (.ok (transactionId, body), sock)

/-- `BlockingRecordTransport.write` -/
def write (sock : Sock) (transactionId : ℕ) (buff : List UInt8) : Except Exc Unit × Sock :=
  match generatePacket transactionId buff with
  | .error ex => (.error ex, sock)
  | .ok data => BlockingSocketUtility.writeData sock data

/-- Under a harmless script `read` decodes the packet at the front of the stream, or
raises `SocketAlreadyClosedError` when the stream ends inside it. -/
theorem read_spec {sock : Sock} {ignoreTimeout : Bool}
    (hs : ∀ ev ∈ sock.script, ev.Harmless ignoreTimeout) :
    (∀ p rest, packetCode.dec sock.incoming = some (p, rest) →
      ∃ script', script' <:+ sock.script ∧
        read sock ignoreTimeout = (.ok p, { sock with incoming := rest, script := script' })) ∧
    (packetCode.dec sock.incoming = none →
      ∃ sock', read sock ignoreTimeout = (.error BlockingSocketUtility.alreadyClosed, sock')) := by
  have hhead := BlockingSocketUtility.readBytes_spec headLength hs
  by_cases h4 : 4 ≤ sock.incoming.length
  swap
  · -- the stream ends in the length field
    obtain ⟨sock', hr⟩ := hhead.2 (by simpa [headLength] using h4)
    have hnone : packetCode.dec sock.incoming = none := by
      simp only [packetCode]
      exact if_neg (by omega)
    refine ⟨fun p rest h => ?_, fun _ => ⟨sock', by rw [read, hr]⟩⟩
    rw [hnone] at h
    cases h
  obtain ⟨script₁, hsuf₁, hr₁⟩ := hhead.1 h4
  have hid := @BlockingSocketUtility.readBytes_spec
    { sock with incoming := sock.incoming.drop 4, script := script₁ }
    transactionIdLength ignoreTimeout (fun ev he => hs ev (hsuf₁.subset he))
  by_cases h8 : 8 ≤ sock.incoming.length
  swap
  · -- the stream ends in the transaction id
    obtain ⟨sock', hr⟩ := hid.2 (by rw [List.length_drop, transactionIdLength]; omega)
    have hnone : packetCode.dec sock.incoming = none := by
      simp only [packetCode]
      exact if_neg (by omega)
    refine ⟨fun p rest h => ?_, fun _ => ⟨sock', ?_⟩⟩
    · rw [hnone] at h
      cases h
    · rw [read, hr₁]
      simp only [headLength, hr]
  obtain ⟨script₂, hsuf₂, hr₂⟩ :=
    hid.1 (by rw [List.length_drop, transactionIdLength]; omega)
  have hdrop : (sock.incoming.drop 4).drop 4 = sock.incoming.drop 8 := by rw [List.drop_drop]
  have hbody := @BlockingSocketUtility.readBytes_spec
    { sock with incoming := sock.incoming.drop 8, script := script₂ }
    (unpackI (sock.incoming.take 4)) ignoreTimeout
    (fun ev he => hs ev ((hsuf₂.trans hsuf₁).subset he))
  simp only [transactionIdLength, hdrop] at hr₂
  by_cases hn : unpackI (sock.incoming.take 4) ≤ (sock.incoming.drop 8).length
  · -- the packet is whole
    obtain ⟨script₃, hsuf₃, hr₃⟩ := hbody.1 hn
    have hread : read sock ignoreTimeout =
        (.ok (unpackI ((sock.incoming.drop 4).take 4),
            (sock.incoming.drop 8).take (unpackI (sock.incoming.take 4))),
          { sock with
            incoming := (sock.incoming.drop 8).drop (unpackI (sock.incoming.take 4))
            script := script₃ }) := by
      rw [read, hr₁]
      simp only [headLength, transactionIdLength, hr₂, hr₃]
    have hdec : packetCode.dec sock.incoming =
        some ((unpackI ((sock.incoming.drop 4).take 4),
            (sock.incoming.drop 8).take (unpackI (sock.incoming.take 4))),
          (sock.incoming.drop 8).drop (unpackI (sock.incoming.take 4))) := by
      simp only [packetCode]
      exact if_pos ⟨h8, hn⟩
    refine ⟨fun p rest h => ⟨script₃, hsuf₃.trans (hsuf₂.trans hsuf₁), ?_⟩, fun h => ?_⟩
    · rw [hdec] at h
      cases h
      exact hread
    · rw [hdec] at h
      cases h
  · -- the stream ends in the body
    obtain ⟨sock', hr₃⟩ := hbody.2 (by simpa using hn)
    have hnone : packetCode.dec sock.incoming = none := by
      simp only [packetCode]
      exact if_neg (fun h => hn h.2)
    refine ⟨fun p rest h => ?_, fun _ => ⟨sock', ?_⟩⟩
    · rw [hnone] at h
      cases h
    · rw [read, hr₁]
      simp only [headLength, transactionIdLength, hr₂, hr₃]

/-- `write` of a packet that fits its fields puts exactly its frame on the socket. -/
theorem write_spec {sock : Sock} {tid : ℕ} {body : List UInt8} (hp : Encodable (tid, body))
    (hs : ∀ ev ∈ sock.script, ev.Harmless false) :
    ∃ script', script' <:+ sock.script ∧
      write sock tid body =
        (.ok (), { sock with
          outgoing := sock.outgoing ++ packetCode.enc (tid, body), script := script' }) := by
  have hgen : generatePacket tid body = .ok (packetCode.enc (tid, body)) :=
    generatePacket_eq_enc.mpr ⟨hp, rfl⟩
  rw [write, hgen]
  exact BlockingSocketUtility.writeData_spec _ hs

/-- What `read` has done when it returns or raises, whatever the socket did: it has
consumed exactly the packet it returns. -/
structure ReadsPacket (sock : Sock) (r : Except Exc (ℕ × List UInt8) × Sock) : Prop where
  outgoing : r.2.outgoing = sock.outgoing
  consumed : ∃ got, sock.incoming = got ++ r.2.incoming ∧
    ∀ p, r.1 = .ok p → Encodable p ∧ got = packetCode.enc p
  raised : ∀ ex, r.1 = .error ex →
    ex.cls.isA .transportError = true ∨ ex.cls.isA .socketError = true

theorem ReadsPacket.of_raise {sock sock' : Sock} (got : List UInt8) {ex : Exc}
    (hout : sock'.outgoing = sock.outgoing) (hin : sock.incoming = got ++ sock'.incoming)
    (hex : ex.cls.isA .transportError = true ∨ ex.cls.isA .socketError = true) :
    ReadsPacket sock (.error ex, sock') := by
  refine ⟨hout, ⟨got, hin, nofun⟩, ?_⟩
  rintro _ ⟨rfl⟩
  exact hex

theorem read_reads (sock : Sock) (ignoreTimeout : Bool) :
    ReadsPacket sock (read sock ignoreTimeout) := by
  unfold read
  have hhead := BlockingSocketUtility.readBytes_reads sock headLength ignoreTimeout
  split
  · rename_i ex sock₁ heq
    rw [heq] at hhead
    obtain ⟨got, hgot, _⟩ := hhead.consumed
    exact ReadsPacket.of_raise got hhead.outgoing hgot (hhead.raised ex rfl)
  rename_i headBuff sock₁ heq₁
  rw [heq₁] at hhead
  obtain ⟨got₁, hin₁, hok₁⟩ := hhead.consumed
  obtain ⟨rfl, hlen₁⟩ := hok₁ _ rfl
  have hid := BlockingSocketUtility.readBytes_reads sock₁ transactionIdLength ignoreTimeout
  simp only
  split
  · rename_i ex sock₂ heq
    rw [heq] at hid
    obtain ⟨got, hgot, _⟩ := hid.consumed
    refine ReadsPacket.of_raise (headBuff ++ got) (hid.outgoing.trans hhead.outgoing) ?_
      (hid.raised ex rfl)
    rw [hin₁, hgot, List.append_assoc]
  rename_i idBuff sock₂ heq₂
  rw [heq₂] at hid
  obtain ⟨got₂, hin₂, hok₂⟩ := hid.consumed
  obtain ⟨rfl, hlen₂⟩ := hok₂ _ rfl
  have hbody := BlockingSocketUtility.readBytes_reads sock₂ (unpackI headBuff) ignoreTimeout
  have hout := hbody.outgoing.trans (hid.outgoing.trans hhead.outgoing)
  split
  · rename_i ex sock₃ heq
    rw [heq] at hbody hout
    obtain ⟨got, hgot, _⟩ := hbody.consumed
    refine ReadsPacket.of_raise (headBuff ++ idBuff ++ got) hout ?_ (hbody.raised ex rfl)
    rw [hin₁, hin₂, hgot, List.append_assoc, List.append_assoc]
  · rename_i body sock₃ heq₃
    rw [heq₃] at hbody hout
    obtain ⟨got₃, hin₃, hok₃⟩ := hbody.consumed
    obtain ⟨rfl, hlen₃⟩ := hok₃ _ rfl
    refine ⟨hout, ⟨headBuff ++ idBuff ++ body, ?_, ?_⟩, nofun⟩
    · rw [hin₁, hin₂, hin₃, List.append_assoc, List.append_assoc]
    · rintro _ ⟨rfl⟩
      -- the two fields are what four bytes encode
      have hlt₁ := decodeBE_lt headBuff
      have hlt₂ := decodeBE_lt idBuff
      rw [hlen₁] at hlt₁
      rw [hlen₂] at hlt₂
      refine ⟨⟨hlt₂, ?_⟩, ?_⟩
      · rw [hlen₃]
        exact hlt₁
      · have hhead4 : encodeBE 4 (unpackI headBuff) = headBuff := encodeBE_decodeBE hlen₁
        have hid4 : encodeBE 4 (unpackI idBuff) = idBuff := encodeBE_decodeBE hlen₂
        rw [packetCode_enc, hlen₃, hhead4, hid4]

end BlockingRecordTransport

namespace RecordTransport

/-- `RecordTransport.read` -/
def read (stream : IOStream) : StreamRead (ℕ × List UInt8) := do
  let headBuff ← stream.readBytes headLength
  let headInfo := unpackI headBuff
  let transactionIdBuff ← stream.readBytes transactionIdLength
  let transactionId := unpackI transactionIdBuff
  let bodyLength := headInfo
  let body ← stream.readBytes bodyLength
  return (transactionId, body)

/-- `read` decodes the packet at the front of a stream that has room, as soon as it is
complete. -/
theorem read_eq (input : List UInt8) :
    read .unbounded input =
      match packetCode.dec input with
      | some (p, rest) => .ok p rest
      | none => .needMore := by
  simp only [read, StreamRead.bind_apply, StreamRead.pure_apply, IOStream.unbounded_readBytes,
    IOStream.takeBytes, headLength,
    transactionIdLength, packetCode]
  by_cases h4 : 4 ≤ input.length
  · by_cases h8 : 8 ≤ input.length
    · have hd : 4 ≤ (input.drop 4).length := by
        rw [List.length_drop]
        omega
      have hdrop : (input.drop 4).drop 4 = input.drop 8 := by rw [List.drop_drop]
      rw [if_pos h4]
      simp only [if_pos hd, hdrop]
      by_cases hn : unpackI (input.take 4) ≤ (input.drop 8).length
      · rw [if_pos hn, if_pos ⟨h8, hn⟩]
      · rw [if_neg hn, if_neg (fun h => hn h.2)]
    · have hd : ¬ 4 ≤ (input.drop 4).length := by
        rw [List.length_drop]
        omega
      rw [if_pos h4]
      simp only [if_neg hd]
      rw [if_neg (fun h => h8 h.1)]
  · rw [if_neg h4, if_neg (by omega)]

end RecordTransport

end SummerRpc
