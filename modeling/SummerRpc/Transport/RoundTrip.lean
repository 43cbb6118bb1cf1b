import SummerRpc.Helper.AtomicInteger
import SummerRpc.Transport.Record

/-! # Round trips of the record transport

* `record_framing_roundtrip`: a list of packets written to a socket, under any
  pattern of short sends and interruptions, is read back as the same list, under
  any pattern of fragments, interruptions and ignored timeouts; on a truncated
  stream the reads return the complete packets and then raise
  `SocketAlreadyClosedError`.
* `id_travels_iff`: which ids of a connection's id generator fit into a packet.
-/

namespace SummerRpc

open BigEndian Framing BaseRecordTransport

namespace BlockingRecordTransport

/-- Write the packets one after the other, up to the first exception. -/
def writeAll (sock : Sock) : List (ℕ × List UInt8) → Except Exc Unit × Sock
  | [] => (.ok (), sock)
  | (tid, body) :: ps =>
    match write sock tid body with
    | (.error ex, sock') => (.error ex, sock')
    | (.ok (), sock') => writeAll sock' ps

/-- `n` successive reads: the packets returned before the first exception, and
that exception if there was one. -/
def readAll (sock : Sock) (ignoreTimeout : Bool) :
    ℕ → List (ℕ × List UInt8) × Option Exc × Sock
  | 0 => ([], none, sock)
  | n + 1 =>
    match read sock ignoreTimeout with
    | (.error ex, sock') => ([], some ex, sock')
    | (.ok p, sock') =>
      let (ps, ex, sock'') := readAll sock' ignoreTimeout n
      (p :: ps, ex, sock'')

/-- The successive packets of `generate_packet`, all of which must succeed. -/
def generatePackets (ps : List (ℕ × List UInt8)) : Except Exc (List (List UInt8)) :=
  ps.mapM fun p => generatePacket p.1 p.2

theorem generatePackets_ok {ps : List (ℕ × List UInt8)} (hp : ∀ p ∈ ps, Encodable p) :
    generatePackets ps = .ok (ps.map packetCode.enc) := by
  induction ps with
  | nil => rfl
  | cons p ps ih =>
      have hhead : generatePacket p.1 p.2 = .ok (packetCode.enc p) :=
        generatePacket_eq_enc.mpr ⟨hp p List.mem_cons_self, rfl⟩
      have htail := ih (fun q hq => hp q (List.mem_cons_of_mem _ hq))
      simp only [generatePackets] at htail ⊢
      rw [List.mapM_cons, hhead, htail]
      rfl

/-- Writing packets that fit their fields appends their frames to the stream. -/
theorem writeAll_spec {ps : List (ℕ × List UInt8)} (hp : ∀ p ∈ ps, Encodable p) {sock : Sock}
    (hs : ∀ ev ∈ sock.script, ev.Harmless false) :
    ∃ sock', writeAll sock ps = (.ok (), sock') ∧
      sock'.outgoing = sock.outgoing ++ packetCode.encAll ps := by
  induction ps generalizing sock with
  | nil => exact ⟨sock, rfl, by simp⟩
  | cons p ps ih =>
      obtain ⟨script', hsuf, hw⟩ := write_spec (hp p List.mem_cons_self) hs
      obtain ⟨sock', hrest, hout⟩ := @ih (fun q hq => hp q (List.mem_cons_of_mem _ hq))
        { sock with outgoing := sock.outgoing ++ packetCode.enc p, script := script' }
        (fun ev he => hs ev (hsuf.subset he))
      refine ⟨sock', ?_, ?_⟩
      · rw [writeAll, hw]
        exact hrest
      · rw [hout, Code.encAll_cons, List.append_assoc]

/-- Reading a stream that starts with the frames of `ps` returns `ps` in order
and consumes exactly their bytes. -/
theorem readAll_encAll {ps : List (ℕ × List UInt8)} (hp : ∀ p ∈ ps, Encodable p)
    {ignoreTimeout : Bool} {sock : Sock} {tail : List UInt8}
    (hs : ∀ ev ∈ sock.script, ev.Harmless ignoreTimeout)
    (hin : sock.incoming = packetCode.encAll ps ++ tail) :
    ∃ script', script' <:+ sock.script ∧
      readAll sock ignoreTimeout ps.length =
        (ps, none, { sock with incoming := tail, script := script' }) := by
  induction ps generalizing sock with
  | nil =>
      refine ⟨sock.script, List.suffix_refl _, ?_⟩
      rw [Code.encAll_nil, List.nil_append] at hin
      rw [← hin]
      rfl
  | cons p ps ih =>
      rw [Code.encAll_cons, List.append_assoc] at hin
      have hdec : packetCode.dec sock.incoming = some (p, packetCode.encAll ps ++ tail) := by
        rw [hin]
        exact packetCode_lawful.dec_enc p (hp p List.mem_cons_self) _
      obtain ⟨script₁, hsuf₁, hr⟩ := (read_spec hs).1 p _ hdec
      obtain ⟨script', hsuf', hrest⟩ := @ih (fun q hq => hp q (List.mem_cons_of_mem _ hq))
        { sock with incoming := packetCode.encAll ps ++ tail, script := script₁ }
        (fun ev he => hs ev (hsuf₁.subset he)) rfl
      refine ⟨script', hsuf'.trans hsuf₁, ?_⟩
      rw [List.length_cons, readAll, hr]
      simp only [hrest]

/-- `m + n` reads are `m` reads followed by `n` reads, if the first `m` succeed. -/
theorem readAll_add {ignoreTimeout : Bool} {sock sock' : Sock}
    {ps : List (ℕ × List UInt8)} {m : ℕ} (n : ℕ)
    (h : readAll sock ignoreTimeout m = (ps, none, sock')) :
    readAll sock ignoreTimeout (m + n) =
      (ps ++ (readAll sock' ignoreTimeout n).1, (readAll sock' ignoreTimeout n).2) := by
  induction m generalizing sock ps with
  | zero =>
      rw [readAll] at h
      cases h
      simp
  | succ m ih =>
      rw [readAll] at h
      rw [Nat.succ_add, readAll]
      split at h
      · cases h
      · rename_i p sock₁ hr
        simp only [Prod.mk.injEq] at h
        obtain ⟨hps, hex, hsock⟩ := h
        have hm : readAll sock₁ ignoreTimeout m =
            ((readAll sock₁ ignoreTimeout m).1, none, sock') := by
          rw [← hex, ← hsock]
        simp only [ih hm]
        rw [← hps, List.cons_append]

/-- On complete frames followed by a proper prefix of one more, reading returns
the complete packets and then raises `SocketAlreadyClosedError`. -/
theorem readAll_truncated {ps : List (ℕ × List UInt8)} {p : ℕ × List UInt8}
    (hps : ∀ q ∈ ps, Encodable q) (hp : Encodable p) {ignoreTimeout : Bool} {sock : Sock}
    {part : List UInt8} (hs : ∀ ev ∈ sock.script, ev.Harmless ignoreTimeout)
    (hpart : part <+: packetCode.enc p) (hne : part ≠ packetCode.enc p)
    (hin : sock.incoming = packetCode.encAll ps ++ part) :
    ∃ sock', readAll sock ignoreTimeout (ps.length + 1) =
      (ps, some BlockingSocketUtility.alreadyClosed, sock') := by
  obtain ⟨script', hsuf, hr⟩ := readAll_encAll hps hs hin
  have hnone : packetCode.dec part = none :=
    packetCode_lawful.dec_proper_prefix hp hpart hne
  obtain ⟨sock', hlast⟩ := (@read_spec { sock with incoming := part, script := script' }
    ignoreTimeout (fun ev he => hs ev (hsuf.subset he))).2 hnone
  refine ⟨sock', ?_⟩
  rw [readAll_add 1 hr, readAll, hlast]
  simp

/-- **Record framing round trip.** The bytes sent for a list of packets are the
concatenation of `generate_packet`, whatever short sends and interruptions occur.
Reading that stream, under any fragments, interruptions and ignored timeouts,
returns exactly the listed packets and leaves what follows them. On a proper
prefix of the stream the reads return exactly its complete packets and then raise
`SocketAlreadyClosedError`. -/
theorem record_framing_roundtrip (ps : List (ℕ × List UInt8))
    (hp : ∀ p ∈ ps, p.1 < 2 ^ 32 ∧ p.2.length < 2 ^ 32) :
    ∃ packets, generatePackets ps = .ok packets ∧
      (∀ out : Sock, (∀ ev ∈ out.script, ev.Harmless false) →
        ∃ out', writeAll out ps = (.ok (), out') ∧
          out'.outgoing = out.outgoing ++ packets.flatten) ∧
      (∀ (ignoreTimeout : Bool) (inn : Sock) (tail : List UInt8),
        (∀ ev ∈ inn.script, ev.Harmless ignoreTimeout) →
        inn.incoming = packets.flatten ++ tail →
        ∃ inn', readAll inn ignoreTimeout ps.length = (ps, none, inn') ∧
          inn'.incoming = tail) ∧
      (∀ (ignoreTimeout : Bool) (inn : Sock),
        (∀ ev ∈ inn.script, ev.Harmless ignoreTimeout) →
        inn.incoming <+: packets.flatten → inn.incoming ≠ packets.flatten →
        ∃ k < ps.length, (packets.take k).flatten <+: inn.incoming ∧
          ¬ (packets.take (k + 1)).flatten <+: inn.incoming ∧
          ∃ inn', readAll inn ignoreTimeout (k + 1) =
            (ps.take k, some BlockingSocketUtility.alreadyClosed, inn')) := by
  have hflat : ∀ qs : List (ℕ × List UInt8),
      (qs.map packetCode.enc).flatten = packetCode.encAll qs := by
    intro qs
    rw [Code.encAll, List.flatMap_def]
  refine ⟨ps.map packetCode.enc, generatePackets_ok hp, ?_, ?_, ?_⟩
  · intro out hs
    obtain ⟨out', hw, hout⟩ := writeAll_spec hp hs
    exact ⟨out', hw, by rw [hout, hflat]⟩
  · intro ignoreTimeout inn tail hs hin
    rw [hflat] at hin
    obtain ⟨script', -, hr⟩ := readAll_encAll hp hs hin
    exact ⟨_, hr, rfl⟩
  · intro ignoreTimeout inn hs hpre hne
    rw [hflat] at hpre hne
    obtain ⟨k, hk, part, hin, hpart, hpne⟩ := proper_prefix_split packetCode hpre hne
    refine ⟨k, hk, ?_, ?_, ?_⟩
    · rw [← List.map_take, hflat, hin]
      exact List.prefix_append _ _
    · -- the next packet is not complete in the prefix
      intro hcomplete
      rw [← List.map_take, hflat, List.take_succ_eq_append_getElem hk, Code.encAll_append, hin,
        List.prefix_append_right_inj, Code.encAll_cons, Code.encAll_nil, List.append_nil]
        at hcomplete
      exact hpne (List.IsPrefix.eq_of_length hpart
        (Nat.le_antisymm hpart.length_le hcomplete.length_le))
    · have hlen : (ps.take k).length = k := List.length_take_of_le (Nat.le_of_lt hk)
      have htake : ∀ q ∈ ps.take k, Encodable q := fun q hq => hp q (List.mem_of_mem_take hq)
      obtain ⟨inn', hr⟩ :=
        readAll_truncated htake (hp ps[k] (List.getElem_mem hk)) hs hpart hpne hin
      rw [hlen] at hr
      exact ⟨inn', hr⟩

/-- Two packets, one of them empty, through interrupted and fragmented calls. -/
theorem record_framing_roundtrip_pair :
    (∀ p ∈ [((7 : ℕ), ([1, 2, 3] : List UInt8)), (8, [])],
      p.1 < 2 ^ 32 ∧ p.2.length < 2 ^ 32) ∧
    ∃ packets, generatePackets [(7, [1, 2, 3]), (8, [])] = .ok packets ∧
      ∃ inn', readAll
          { incoming := packets.flatten ++ [9], outgoing := [],
            script := [.moved 0, .error EINTR, .timeout, .moved 2] } true 2 =
        ([(7, [1, 2, 3]), (8, [])], none, inn') ∧ inn'.incoming = [9] := by
  have hp : ∀ p ∈ [((7 : ℕ), ([1, 2, 3] : List UInt8)), (8, [])],
      p.1 < 2 ^ 32 ∧ p.2.length < 2 ^ 32 := by decide
  have hs : ∀ ev ∈ [SockEvent.moved 0, .error EINTR, .timeout, .moved 2],
      ev.Harmless true := by decide
  obtain ⟨packets, hgen, -, hread, -⟩ := record_framing_roundtrip [(7, [1, 2, 3]), (8, [])] hp
  exact ⟨hp, packets, hgen, hread true
    { incoming := packets.flatten ++ [9], outgoing := [],
      script := [.moved 0, .error EINTR, .timeout, .moved 2] } [9] hs rfl⟩

end BlockingRecordTransport

/-! ## Ids on the wire -/

/-- The `n`-th id of a connection's generator `AtomicInteger(0).increase` can
travel: `generate_packet` accepts it with every body that fits, and both readers
decode it from the packet, whatever follows the packet; the one of the server where its
stream has room. -/
def IdTravels (maxint n : ℕ) : Prop :=
  ∀ body : List UInt8, body.length < 2 ^ 32 →
    ∃ data, generatePacket ((AtomicInteger.new 0 maxint).nth n) body = .ok data ∧
      (∀ (ignoreTimeout : Bool) (sock : Sock) (tail : List UInt8),
        (∀ ev ∈ sock.script, ev.Harmless ignoreTimeout) → sock.incoming = data ++ tail →
        ∃ sock', BlockingRecordTransport.read sock ignoreTimeout =
          (.ok ((AtomicInteger.new 0 maxint).nth n, body), sock')) ∧
      (∀ tail, RecordTransport.read .unbounded (data ++ tail) =
        .ok ((AtomicInteger.new 0 maxint).nth n, body) tail)

/-- An id travels exactly when it fits the 32-bit field of the packet. -/
theorem idTravels_iff_lt (maxint n : ℕ) :
    IdTravels maxint n ↔ (AtomicInteger.new 0 maxint).nth n < 2 ^ 32 := by
  constructor
  · intro h
    obtain ⟨data, hgen, -⟩ := h [] (by norm_num)
    exact (generatePacket_eq_enc.mp hgen).1.1
  · intro hlt body hbody
    have hp : Encodable ((AtomicInteger.new 0 maxint).nth n, body) := ⟨hlt, hbody⟩
    refine ⟨_, generatePacket_eq_enc.mpr ⟨hp, rfl⟩, ?_, ?_⟩
    · intro ignoreTimeout sock tail hs hin
      have hdec := packetCode_lawful.dec_enc _ hp tail
      rw [← hin] at hdec
      obtain ⟨script', -, hr⟩ := (BlockingRecordTransport.read_spec hs).1 _ _ hdec
      exact ⟨_, hr⟩
    · intro tail
      rw [RecordTransport.read_eq, packetCode_lawful.dec_enc _ hp tail]

/-- **Which ids can travel.** The generator counts up to `sys.maxint`, the packet
has 32 bits for the id: the `n`-th id travels if and only if `n`, counted from
the last wrap-around of the generator, is below `2 ^ 32`. -/
theorem id_travels_iff (maxint n : ℕ) (hn : 0 < n) :
    IdTravels maxint n ↔ n % (maxint + 1) < 2 ^ 32 := by
  rw [idTravels_iff_lt, AtomicInteger.nth_new_zero maxint hn]

/-- On a 64-bit build the largest id that travels is that of call `2 ^ 32 - 1`. -/
theorem id_travels_iff_last :
    IdTravels sysMaxint (2 ^ 32 - 1) ↔ (2 ^ 32 - 1) % (sysMaxint + 1) < 2 ^ 32 :=
  id_travels_iff sysMaxint (2 ^ 32 - 1) (by norm_num)

/-- On a 64-bit build call `2 ^ 32` of the generator, long before it wraps around,
returns an id that no packet can carry. -/
theorem id_overflows_packet :
    2 ^ 32 ≤ sysMaxint ∧ ¬ IdTravels sysMaxint (2 ^ 32) := by
  refine ⟨by norm_num [sysMaxint], ?_⟩
  rw [idTravels_iff_lt, AtomicInteger.nth_new_zero _ (by norm_num)]
  norm_num [sysMaxint]

end SummerRpc
