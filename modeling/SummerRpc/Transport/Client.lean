import SummerRpc.Transport.Offsets
import SummerRpc.Transport.Socket

/-! # The blocking HTTP client

`SimpleBlockingHTTPTransport.read` of `extension/http_transport.py`. Each call has a
parser of its own, which receives in chunks until it is finished and is then dropped,
with what the last chunk has brought after the response.

* `readLoop`, `read`: the loop over `recv`, and the response it returns;
* `readLoop_packet`: a packet at the front of the stream is returned, after the first
  `recv` that completes it;
* `not_returned`: a stream without its first byte is not;
* `responses_received`: all packets are returned just when each but the last one ends
  where a `recv` ends.
-/

namespace SummerRpc

namespace Sock

/-- The bytes arrive in fragments, and nothing else happens. -/
def Fragmented (sock : Sock) : Prop := ∀ ev ∈ sock.script, ∃ limit, ev = .moved limit

/-- The socket after some calls of `sock.recv(num)`. -/
def recvTimes (sock : Sock) (num : ℕ) : ℕ → Sock
  | 0 => sock
  | count + 1 => recvTimes (sock.recv num).2 num count

/-- A `recv` from such a socket returns. -/
theorem Fragmented.recv {sock : Sock} (h : sock.Fragmented) {num : ℕ} (hnum : 0 < num) :
    ∃ data, sock.recv num = (.ok data, (sock.recv num).2) ∧
      sock.incoming = data ++ (sock.recv num).2.incoming ∧ (data = [] → sock.incoming = []) ∧
      (sock.recv num).2.Fragmented := by
  cases hrecv : sock.recv num with
  | mk outcome sock' =>
      cases outcome with
      | error ex =>
          obtain ⟨ev, hscript, _, _, hev⟩ := recv_error hrecv
          obtain ⟨limit, rfl⟩ := h ev (by rw [hscript]; exact List.mem_cons_self)
          rcases hev with ⟨hev, _⟩ | ⟨e, hev, _⟩ <;> cases hev
      | ok data =>
          obtain ⟨hsuffix, _, hsplit, _, hnil⟩ := recv_ok hnum hrecv
          exact ⟨data, rfl, hsplit, hnil, fun ev hev => h ev (hsuffix.subset hev)⟩

theorem recv_suffix (sock : Sock) (num : ℕ) : (sock.recv num).2.incoming <:+ sock.incoming := by
  unfold recv
  split
  · exact List.drop_suffix _ _
  · exact List.drop_suffix _ _
  · exact List.suffix_refl _
  · exact List.suffix_refl _

theorem recvTimes_suffix (sock : Sock) (num count : ℕ) :
    (sock.recvTimes num count).incoming <:+ sock.incoming := by
  induction count generalizing sock with
  | zero => exact List.suffix_refl _
  | succ count ih => exact (ih _).trans (recv_suffix sock num)

theorem Fragmented.recvTimes {sock : Sock} (h : sock.Fragmented) {num : ℕ} (hnum : 0 < num)
    (count : ℕ) : (sock.recvTimes num count).Fragmented := by
  induction count generalizing sock with
  | zero => exact h
  | succ count ih =>
      obtain ⟨_, _, _, _, hnext⟩ := h.recv hnum
      exact ih hnext

theorem recvTimes_add (sock : Sock) (num m k : ℕ) :
    sock.recvTimes num (m + k) = (sock.recvTimes num m).recvTimes num k := by
  induction m generalizing sock with
  | zero => rw [Nat.zero_add, recvTimes]
  | succ m ih => rw [Nat.succ_add, recvTimes, recvTimes, ih]

end Sock

namespace SimpleBlockingHTTPTransport

open HTTPResponseParser HTTPTransport Incremental.Consumer

/-! ## `read` -/

/-- The loop of `read`: `recv`, `feed` and `auto_get` until the parser is finished. There
is no outcome when `rounds` rounds are not enough: the loop goes on, also after the peer
has closed. -/
def readLoop (chunkSize : ℕ) :
    ℕ → HTTPResponseParser → Sock → Option (Except Exc HTTPResponseParser × Sock)
  | 0, p, sock => if p.isFinished then some (.ok p, sock) else none
  | rounds + 1, p, sock =>
    if p.isFinished then some (.ok p, sock)
    else
      match sock.recv chunkSize with
      | (.error ex, sock') => some (.error ex, sock')
      | (.ok data, sock') =>
        match (p.feed data).autoGet with
        | (.error ex, _) => some (.error ex, sock')
        | (.ok (), p') => readLoop chunkSize rounds p' sock'

/-- What `read` returns when the parser is finished. -/
def result (p : HTTPResponseParser) : Except Exc (ℤ × List UInt8) :=
  match p.headers.lookup (bytes "Transaction-Id"), p.content with
  | some transactionId, some content =>
    match intLiteral transactionId with
    | .ok number => .ok (number, content)
    | .error ex => .error ex
  | _, _ => .error (invalidPacket "invalid transaction_id or content")

/-- `read`, in at most `rounds` rounds. -/
def read (chunkSize rounds : ℕ) (sock : Sock) : Option (Except Exc (ℤ × List UInt8) × Sock) :=
  (readLoop chunkSize rounds new sock).map fun outcome => (outcome.1.bind result, outcome.2)

theorem readLoop_finished {p : HTTPResponseParser} (h : p.isFinished = true)
    (chunkSize rounds : ℕ) (sock : Sock) :
    readLoop chunkSize rounds p sock = some (.ok p, sock) := by
  cases rounds <;> exact if_pos h

theorem readLoop_recv {p p' : HTTPResponseParser} {chunkSize : ℕ} {sock sock' : Sock}
    {data : List UInt8} {r : Except Exc Unit} (h : ¬ p.isFinished = true)
    (hrecv : sock.recv chunkSize = (.ok data, sock')) (hget : (p.feed data).autoGet = (r, p'))
    (rounds : ℕ) :
    readLoop chunkSize (rounds + 1) p sock =
      match r with
      | .error ex => some (.error ex, sock')
      | .ok () => readLoop chunkSize rounds p' sock' := by
  rw [readLoop, if_neg h, hrecv]
  simp only [hget]
  cases r <;> rfl

/-- With more rounds the outcome is the same. -/
theorem readLoop_succ {chunkSize rounds : ℕ} {p : HTTPResponseParser} {sock : Sock}
    {outcome : Except Exc HTTPResponseParser × Sock}
    (h : readLoop chunkSize rounds p sock = some outcome) :
    readLoop chunkSize (rounds + 1) p sock = some outcome := by
  induction rounds generalizing p sock with
  | zero =>
      unfold readLoop at h
      split at h
      · rename_i hfinished
        rw [readLoop_finished hfinished, h]
      · cases h
  | succ rounds ih =>
      unfold readLoop at h ⊢
      split at h
      · rename_i hfinished
        rw [if_pos hfinished, h]
      · rename_i hfinished
        rw [if_neg hfinished]
        split at h
        · exact h
        · split at h
          · exact h
          · exact ih h

/-- The outcome of the loop does not depend on the bound on its rounds. -/
theorem readLoop_unique {chunkSize m n : ℕ} {p : HTTPResponseParser} {sock : Sock}
    {outcome outcome' : Except Exc HTTPResponseParser × Sock}
    (h : readLoop chunkSize m p sock = some outcome)
    (h' : readLoop chunkSize n p sock = some outcome') : outcome = outcome' := by
  have hmore : ∀ k i outcome, readLoop chunkSize i p sock = some outcome →
      readLoop chunkSize (i + k) p sock = some outcome := by
    intro k i outcome hi
    induction k with
    | zero => exact hi
    | succ k ih => exact readLoop_succ ih
  have hm := hmore n m _ h
  have hn := hmore m n _ h'
  rw [Nat.add_comm, hn] at hm
  exact (Option.some.inj hm).symm

theorem read_unique {chunkSize m n : ℕ} {sock : Sock}
    {outcome outcome' : Except Exc (ℤ × List UInt8) × Sock}
    (h : read chunkSize m sock = some outcome) (h' : read chunkSize n sock = some outcome') :
    outcome = outcome' := by
  obtain ⟨_, hloop, rfl⟩ := Option.map_eq_some_iff.mp h
  obtain ⟨_, hloop', rfl⟩ := Option.map_eq_some_iff.mp h'
  rw [readLoop_unique hloop hloop']

/-! ## What a returned response has taken -/

/-- A loop that ends well has parsed what it has received. -/
theorem readLoop_ok {chunkSize rounds : ℕ} (hchunk : 0 < chunkSize) {p p' : HTTPResponseParser}
    {sock sock' : Sock} {s : List UInt8} (hsock : sock.Fragmented)
    (hp : responses.Drains (new.feed s) (.ok ()) p)
    (h : readLoop chunkSize rounds p sock = some (.ok p', sock')) :
    ∃ data, sock.incoming = data ++ sock'.incoming ∧ sock'.Fragmented ∧
      responses.Drains (new.feed (s ++ data)) (.ok ()) p' ∧ p'.isFinished = true := by
  induction rounds generalizing p sock s with
  | zero =>
      unfold readLoop at h
      split at h
      · rename_i hfinished
        cases h
        exact ⟨[], rfl, hsock, by rwa [List.append_nil], hfinished⟩
      · cases h
  | succ rounds ih =>
      by_cases hfinished : p.isFinished = true
      · rw [readLoop_finished hfinished] at h
        cases h
        exact ⟨[], rfl, hsock, by rwa [List.append_nil], hfinished⟩
      · -- one `recv`, and the parser has everything received so far
        obtain ⟨data, hrecv, hsplit, _, hnext⟩ := hsock.recv hchunk
        cases hget : (p.feed data).autoGet with
        | mk r q =>
            rw [readLoop_recv hfinished hrecv hget] at h
            cases r with
            | error ex => cases h
            | ok _ =>
                have hdrains := autoGet_drains (p.feed data)
                rw [hget] at hdrains
                have hq := hp.feed rfl hdrains
                rw [feed_feed] at hq
                obtain ⟨more, hmore, hrest⟩ := ih hnext hq h
                refine ⟨data ++ more, ?_, ?_⟩
                · rw [hsplit, hmore, List.append_assoc]
                · rwa [← List.append_assoc]

/-- The same for `read`, and its result is in the parser. -/
theorem read_ok {chunkSize rounds : ℕ} (hchunk : 0 < chunkSize) {sock sock' : Sock}
    {number : ℤ} {content : List UInt8} (hsock : sock.Fragmented)
    (h : read chunkSize rounds sock = some (.ok (number, content), sock')) :
    ∃ data p, sock.incoming = data ++ sock'.incoming ∧ sock'.Fragmented ∧
      responses.Drains (new.feed data) (.ok ()) p ∧ p.isFinished = true ∧
      p.content = some content := by
  obtain ⟨⟨outcome, sock''⟩, hloop, heq⟩ := Option.map_eq_some_iff.mp h
  cases outcome with
  | error ex => cases heq
  | ok p =>
      obtain ⟨hresult, hsame⟩ := Prod.ext_iff.mp heq
      cases hsame
      obtain ⟨data, hsplit, hnext, hdrains, hfinished⟩ :=
        readLoop_ok (s := []) hchunk hsock (Drains.stop rfl) hloop
      refine ⟨data, p, hsplit, hnext, hdrains, hfinished, ?_⟩
      change result p = _ at hresult
      unfold result at hresult
      split at hresult
      · rename_i hcontent
        split at hresult <;> cases hresult
        exact hcontent
      · cases hresult

/-! ## A packet at the front of the stream -/

section Packet

variable {chunkSize transactionId : ℕ} {buff rest : List UInt8}

/-- The loop ends with the first `recv` that completes the packet. What this `recv` has
brought of the next packet is in the parser's buffer. -/
theorem readLoop_packet (hchunk : 0 < chunkSize) {p : HTTPResponseParser} {sock : Sock}
    {s : List UInt8} (hsock : sock.Fragmented)
    (hparts : s ++ sock.incoming = generatePacket transactionId buff ++ rest)
    (hp : responses.Drains (new.feed s) (.ok ()) p) :
    ∃ rounds k more, readLoop chunkSize rounds p sock =
        some (.ok (finishedWith transactionId buff more), sock.recvTimes chunkSize k) ∧
      (∀ m < k, rest.length < (sock.recvTimes chunkSize m).incoming.length) ∧
      (sock.recvTimes chunkSize k).incoming.length ≤ rest.length := by
  -- induction on the bytes that are still to be received
  generalize hn : sock.incoming.length = n
  induction n using Nat.strong_induction_on generalizing p sock s with
  | _ n ih =>
      have hlength := congrArg List.length hparts
      rw [List.length_append, List.length_append] at hlength
      rcases Nat.lt_or_ge s.length (generatePacket transactionId buff).length with hlt | hge
      · -- there is more of the packet to come, so the parser is not finished
        obtain ⟨t, hpacket⟩ := List.prefix_of_prefix_length_le
          (hparts ▸ List.prefix_append s sock.incoming)
          (List.prefix_append (generatePacket transactionId buff) rest) (Nat.le_of_lt hlt)
        have ht : t ≠ [] := by
          rintro rfl
          rw [← hpacket, List.append_nil] at hlt
          exact absurd hlt (Nat.lt_irrefl _)
        have hunfinished := unfinished_of_prefix hpacket ht hp
        obtain ⟨data, hrecv, hsplit, hnil, hnext⟩ := hsock.recv hchunk
        have hdata : data ≠ [] := by
          intro h
          rw [hnil h, List.length_nil] at hlength
          omega
        have hparts' : s ++ data ++ (sock.recv chunkSize).2.incoming =
            generatePacket transactionId buff ++ rest := by
          rw [List.append_assoc, ← hsplit, hparts]
        cases hget : (p.feed data).autoGet with
        | mk r q =>
            have hdrains := autoGet_drains (p.feed data)
            rw [hget] at hdrains
            have hq := hp.feed rfl hdrains
            rw [feed_feed] at hq
            have hr : r = .ok () := ok_of_prefix hparts' hq
            rw [hr] at hq hget
            have hless : (sock.recv chunkSize).2.incoming.length < n := by
              have hpos := List.length_pos_iff.mpr hdata
              rw [← hn, hsplit, List.length_append]
              omega
            obtain ⟨rounds, k, more, hloop, hbefore, hafter⟩ :=
              ih _ hless hnext hparts' hq rfl
            refine ⟨rounds + 1, k + 1, more, ?_, ?_, hafter⟩
            · rw [readLoop_recv hunfinished hrecv hget]
              exact hloop
            · intro m hm
              cases m with
              | zero =>
                  show rest.length < sock.incoming.length
                  omega
              | succ m => exact hbefore m (Nat.lt_of_succ_lt_succ hm)
      · obtain ⟨more, hwhole⟩ := List.prefix_of_prefix_length_le
          (List.prefix_append (generatePacket transactionId buff) rest)
          (hparts ▸ List.prefix_append s sock.incoming) hge
        have hfinal := eq_of_whole hwhole.symm hp
        refine ⟨0, 0, more, ?_, fun m hm => absurd hm (Nat.not_lt_zero m), ?_⟩
        · rw [hfinal]
          exact readLoop_finished rfl _ _ _
        · show sock.incoming.length ≤ rest.length
          omega

/-- `read` returns what the packet was made of. -/
theorem read_packet (hchunk : 0 < chunkSize) {sock : Sock} (hsock : sock.Fragmented)
    (hstream : sock.incoming = generatePacket transactionId buff ++ rest) :
    ∃ rounds k, read chunkSize rounds sock =
        some (.ok (transactionId, buff), sock.recvTimes chunkSize k) ∧
      (∀ m < k, rest.length < (sock.recvTimes chunkSize m).incoming.length) ∧
      (sock.recvTimes chunkSize k).incoming.length ≤ rest.length := by
  obtain ⟨rounds, k, more, hloop, hbounds⟩ :=
    readLoop_packet (p := new) (s := []) hchunk hsock hstream (Drains.stop rfl)
  refine ⟨rounds, k, ?_, hbounds⟩
  have hresult : result (finishedWith transactionId buff more) = .ok (transactionId, buff) := by
    have hlookup : (finishedWith transactionId buff more).headers.lookup (bytes "Transaction-Id") =
        some (decimal transactionId) := rfl
    have hcontent : (finishedWith transactionId buff more).content = some buff := rfl
    simp only [result, hlookup, hcontent, intLiteral_decimal]
  rw [read, hloop, ← hresult]
  rfl

end Packet

/-! ## Packet after packet -/

/-- Successive calls of `read` return these pairs. -/
def Returned (chunkSize : ℕ) : List (ℕ × List UInt8) → Sock → Prop
  | [], _ => True
  | pair :: pairs, sock =>
    ∃ rounds sock', read chunkSize rounds sock = some (.ok (pair.1, pair.2), sock') ∧
      Returned chunkSize pairs sock'

/-- Every packet but the last one ends where a `recv` ends. -/
def Aligned (chunkSize : ℕ) (pairs : List (ℕ × List UInt8)) (sock : Sock) : Prop :=
  ∀ i < pairs.length, ∃ k, (sock.recvTimes chunkSize k).incoming = packets (pairs.drop i)

theorem packets_cons (pair : ℕ × List UInt8) (pairs : List (ℕ × List UInt8)) :
    packets (pair :: pairs) = generatePacket pair.1 pair.2 ++ packets pairs :=
  List.flatMap_cons

theorem packets_drop_length (pairs : List (ℕ × List UInt8)) (i : ℕ) :
    (packets (pairs.drop i)).length ≤ (packets pairs).length := by
  have hsplit : packets pairs = packets (pairs.take i) ++ packets (pairs.drop i) := by
    rw [packets, packets, packets, ← List.flatMap_append, List.take_append_drop]
  rw [hsplit, List.length_append]
  omega

/-- A `read` that starts in the middle of a packet and yet returns its body has taken it,
or bytes that look like it, together with bytes of what comes after the packet. -/
theorem read_middle {chunkSize rounds transactionId j : ℕ} (hchunk : 0 < chunkSize)
    {sock sock' : Sock} {number : ℤ} {buff rest : List UInt8} (hsock : sock.Fragmented)
    (hj : 0 < j) (hstream : sock.incoming = (generatePacket transactionId buff ++ rest).drop j)
    (hread : read chunkSize rounds sock = some (.ok (number, buff), sock')) :
    ∃ i, 0 < i ∧ i ≤ rest.length ∧ sock'.incoming = rest.drop i ∧ sock'.Fragmented := by
  obtain ⟨data, p, hsplit, hnext, hdrains, hfinished, hcontent⟩ := read_ok hchunk hsock hread
  have hneeded := content_length hdrains hfinished hcontent
  rcases Nat.lt_or_ge (generatePacket transactionId buff).length (j + buff.length + 2) with
    hlt | hle
  · have htaken := congrArg List.length (hsplit.symm.trans hstream)
    rw [List.length_append, List.length_drop, List.length_append] at htaken
    refine ⟨j + data.length - (generatePacket transactionId buff).length, by omega, by omega, ?_,
      hnext⟩
    have hleft : sock'.incoming = sock.incoming.drop data.length := by
      rw [hsplit, List.drop_left]
    rw [hleft, hstream, List.drop_drop, List.drop_append, List.drop_eq_nil_of_le (by omega),
      List.nil_append]
  · -- inside the head the parser raises on what it is fed, but it has finished on some of it
    obtain ⟨ex, q, hraises⟩ := inside_raises rest hj hle
    rw [← hstream, hsplit, ← feed_feed] at hraises
    cases ((drains_of_finished hfinished sock'.incoming).unique (hdrains.feed_inv hraises)).1

/-- Once a `read` has started in the middle of a packet, the packets are not returned. -/
theorem not_returned {chunkSize : ℕ} (hchunk : 0 < chunkSize)
    (pairs : List (ℕ × List UInt8)) {pair : ℕ × List UInt8} {sock : Sock} {j : ℕ}
    (hsock : sock.Fragmented) (hj : 0 < j)
    (hstream : sock.incoming = (packets (pair :: pairs)).drop j) :
    ¬ Returned chunkSize (pair :: pairs) sock := by
  induction pairs generalizing pair sock j with
  | nil =>
      rintro ⟨rounds, sock', hread, _⟩
      rw [packets_cons] at hstream
      obtain ⟨i, hi, hle, _⟩ := read_middle hchunk hsock hj hstream hread
      exact absurd hle (Nat.not_le.mpr hi)
  | cons next pairs ih =>
      rintro ⟨rounds, sock', hread, hrest⟩
      rw [packets_cons] at hstream
      obtain ⟨i, hi, _, hleft, hnext⟩ := read_middle hchunk hsock hj hstream hread
      exact ih hnext hi hleft hrest

/-- After the first packet the others are returned if they are at all. -/
theorem returned_cons {chunkSize rounds : ℕ} {pair : ℕ × List UInt8}
    {pairs : List (ℕ × List UInt8)} {sock sock' : Sock}
    (hread : read chunkSize rounds sock = some (.ok (pair.1, pair.2), sock')) :
    Returned chunkSize (pair :: pairs) sock ↔ Returned chunkSize pairs sock' := by
  constructor
  · rintro ⟨rounds', sock'', hread', hrest⟩
    cases read_unique hread hread'
    exact hrest
  · intro hrest
    exact ⟨rounds, sock', hread, hrest⟩

/-- When the first packet is complete after `k` calls of `recv`, it is aligned if these
have brought nothing else, and then the others have to be. -/
theorem aligned_cons {chunkSize k : ℕ} {pair : ℕ × List UInt8} {pairs : List (ℕ × List UInt8)}
    {sock : Sock} (hstream : sock.incoming = packets (pair :: pairs))
    (hbefore : ∀ m < k, (packets pairs).length < (sock.recvTimes chunkSize m).incoming.length) :
    Aligned chunkSize (pair :: pairs) sock ↔
      Aligned chunkSize pairs (sock.recvTimes chunkSize k) := by
  constructor
  · intro h i hi
    obtain ⟨m, hm⟩ := h (i + 1) (Nat.succ_lt_succ hi)
    rw [List.drop_succ_cons] at hm
    have hle := packets_drop_length pairs i
    have hkm : k ≤ m := by
      by_contra hlt
      have hlong := hbefore m (Nat.not_le.mp hlt)
      rw [hm] at hlong
      omega
    refine ⟨m - k, ?_⟩
    rw [← Sock.recvTimes_add, Nat.add_sub_cancel' hkm, hm]
  · intro h i hi
    cases i with
    | zero => exact ⟨0, hstream⟩
    | succ i =>
        obtain ⟨m, hm⟩ := h i (Nat.lt_of_succ_lt_succ hi)
        refine ⟨k + m, ?_⟩
        rw [Sock.recvTimes_add, hm, List.drop_succ_cons]

/-- A socket with less on it than the packets is not aligned with them. -/
theorem not_aligned {chunkSize : ℕ} {pair : ℕ × List UInt8} {pairs : List (ℕ × List UInt8)}
    {sock : Sock} (hless : sock.incoming.length < (packets (pair :: pairs)).length) :
    ¬ Aligned chunkSize (pair :: pairs) sock := by
  intro h
  obtain ⟨k, hk⟩ := h 0 (Nat.succ_pos _)
  have hle := (sock.recvTimes_suffix chunkSize k).length_le
  rw [hk, List.drop_zero] at hle
  omega

/-- The packets on a socket are returned, in order, if and only if every packet but the
last one ends where a `recv` ends. -/
theorem responses_received {chunkSize : ℕ} {pairs : List (ℕ × List UInt8)} {sock : Sock}
    (hchunk : 0 < chunkSize) (hsock : sock.Fragmented) (hstream : sock.incoming = packets pairs) :
    Returned chunkSize pairs sock ↔ Aligned chunkSize pairs sock := by
  induction pairs generalizing sock with
  | nil => exact ⟨fun _ i hi => absurd hi (Nat.not_lt_zero i), fun _ => trivial⟩
  | cons pair pairs ih =>
      have hfirst := hstream.trans (packets_cons pair pairs)
      obtain ⟨rounds, k, hread, hbefore, hafter⟩ := read_packet hchunk hsock hfirst
      rw [returned_cons hread, aligned_cons hstream hbefore]
      have hnext := hsock.recvTimes hchunk k
      have hsuffix : (sock.recvTimes chunkSize k).incoming <:+ packets pairs :=
        List.suffix_of_suffix_length_le (sock.recvTimes_suffix chunkSize k)
          (hfirst ▸ List.suffix_append _ _) hafter
      rcases Nat.eq_or_lt_of_le hafter with hsame | hless
      · exact ih hnext (hsuffix.eq_of_length hsame)
      · -- the last `recv` has brought bytes of the next packet, and they are lost
        cases pairs with
        | nil => exact absurd hless (Nat.not_lt_zero _)
        | cons next pairs =>
            have hdrop := List.suffix_iff_eq_drop.mp hsuffix
            have hlost := not_returned hchunk pairs hnext (Nat.sub_pos_of_lt hless) hdrop
            exact iff_of_false hlost (not_aligned hless)

/-- Two packets, the first one in two fragments. -/
theorem responses_received_two :
    Returned 1024 [(7, bytes "a"), (8, [])]
      { incoming := packets [(7, bytes "a"), (8, [])], outgoing := [],
        script := [.moved 9, .moved 47] } := by
  refine (responses_received (by decide) ?_ rfl).mpr ?_
  · simp only [Sock.Fragmented, List.mem_cons, List.not_mem_nil, or_false]
    rintro ev (rfl | rfl)
    · exact ⟨9, rfl⟩
    · exact ⟨47, rfl⟩
  · intro i hi
    cases i with
    | zero => exact ⟨0, rfl⟩
    | succ i =>
        have hzero : i = 0 := by
          simp only [List.length_cons, List.length_nil] at hi
          omega
        exact ⟨2, by rw [hzero]; decide⟩

/-- Two packets that one `recv` brings together: the second one is lost, and the call of
`read` for it goes on for ever. -/
theorem second_response_lost :
    ¬ ∀ (chunkSize : ℕ) (pairs : List (ℕ × List UInt8)) (sock : Sock), 0 < chunkSize →
      sock.Fragmented → sock.incoming = packets pairs → Returned chunkSize pairs sock := by
  intro h
  have hreturned := h 1024 [(1, bytes "a"), (2, bytes "b")]
    { incoming := packets [(1, bytes "a"), (2, bytes "b")], outgoing := [], script := [] }
    (by decide) (List.forall_mem_nil _) rfl
  have hread : read 1024 1
      { incoming := packets [(1, bytes "a"), (2, bytes "b")], outgoing := [], script := [] } =
        some (.ok (1, bytes "a"), { incoming := [], outgoing := [], script := [] }) := by
    decide +kernel
  have hrest : Returned 1024 [(2, bytes "b")] _ := (returned_cons hread).mp hreturned
  have hsock : Sock.Fragmented { incoming := [], outgoing := [], script := [] } :=
    List.forall_mem_nil _
  exact not_returned (j := 1000) (by decide) [] hsock (by decide) (by decide) hrest

end SimpleBlockingHTTPTransport

end SummerRpc
