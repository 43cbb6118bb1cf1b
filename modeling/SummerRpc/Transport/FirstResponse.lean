import SummerRpc.Transport.Client
import SummerRpc.Transport.Head

/-! # The first response on a stream

How far `HTTPResponseParser` gets on any bytes a server may send, told by the lines they
start with, and what this means for the loop of `SimpleBlockingHTTPTransport.read`, which
goes on until its parser has raised or is finished.

* `IsResponse`, `Malformed`, `Incomplete`: what the bytes start with;
* `drains_of_response`, `drains_of_malformed`, `drains_of_incomplete`: the parser returns
  it, raises, or waits for more;
* `judged`: there is nothing else;
* `read_terminates_iff`: `read` ends just when the bytes are not incomplete.
-/

namespace SummerRpc

namespace HTTPResponseParser

open HTTPTransport (IsLine fields fields_cons_append isLine_crlf)
open Incremental.Consumer

/-! ## What a stream starts with -/

/-- The response line, and the header lines before the blank line. -/
structure IsResponseHead (responseLine : List UInt8) (lines : List (List UInt8)) : Prop where
  isLine : IsLine responseLine
  parsed : (HTTPUtility.parseResponseLine responseLine).isSome = true
  lines : ∀ line ∈ lines, IsLine line ∧ line ≠ crlf ∧
    (HTTPUtility.parseHeader line).isSome = true

/-- A whole response, with the bytes after it. Without a `Content-Length` it has no
content. -/
inductive IsResponse (stream : List UInt8) :
    List (List UInt8 × List UInt8) → Option (List UInt8) → List UInt8 → Prop where
  | bare {responseLine rest : List UInt8} {lines : List (List UInt8)}
      (head : IsResponseHead responseLine lines)
      (lookup : (fields lines).lookup (bytes "Content-Length") = none)
      (parts : stream = responseLine ++ (lines.flatten ++ (crlf ++ rest))) :
      IsResponse stream (fields lines) none rest
  | content {responseLine length content rest : List UInt8} {lines : List (List UInt8)}
      (head : IsResponseHead responseLine lines)
      (lookup : (fields lines).lookup (bytes "Content-Length") = some length)
      (digits : isdigit length = true) (size : content.length = digitsValue length)
      (parts : stream = responseLine ++ (lines.flatten ++ (crlf ++ (content ++ rest)))) :
      IsResponse stream (fields lines) (some content) rest

/-- The first line that is not as it should be. -/
inductive Malformed (stream : List UInt8) : Prop where
  | responseLine {line rest : List UInt8} (isLine : IsLine line)
      (parsed : HTTPUtility.parseResponseLine line = none) (parts : stream = line ++ rest)
  | header {responseLine line rest : List UInt8} {lines : List (List UInt8)}
      (head : IsResponseHead responseLine lines) (isLine : IsLine line) (ne_blank : line ≠ crlf)
      (parsed : HTTPUtility.parseHeader line = none)
      (parts : stream = responseLine ++ (lines.flatten ++ (line ++ rest)))
  | contentLength {responseLine length rest : List UInt8} {lines : List (List UInt8)}
      (head : IsResponseHead responseLine lines)
      (lookup : (fields lines).lookup (bytes "Content-Length") = some length)
      (digits : isdigit length = false)
      (parts : stream = responseLine ++ (lines.flatten ++ (crlf ++ rest)))

/-- The stream ends inside the first response, and nothing is wrong with it so far. -/
inductive Incomplete (stream : List UInt8) : Prop where
  | responseLine (missing : IOStream.splitAfter crlf stream = none)
  | header {responseLine rest : List UInt8} {lines : List (List UInt8)}
      (head : IsResponseHead responseLine lines)
      (missing : IOStream.splitAfter crlf rest = none)
      (parts : stream = responseLine ++ (lines.flatten ++ rest))
  | content {responseLine length rest : List UInt8} {lines : List (List UInt8)}
      (head : IsResponseHead responseLine lines)
      (lookup : (fields lines).lookup (bytes "Content-Length") = some length)
      (digits : isdigit length = true) (short : rest.length < digitsValue length)
      (parts : stream = responseLine ++ (lines.flatten ++ (crlf ++ rest)))

/-- Header lines, up to the first line that is none or is not there yet. -/
theorem lines_of_buffer (buffer : List UInt8) :
    ∃ (lines : List (List UInt8)) (rest : List UInt8), buffer = lines.flatten ++ rest ∧
      (∀ line ∈ lines, IsLine line ∧ line ≠ crlf ∧
        (HTTPUtility.parseHeader line).isSome = true) ∧
      (IOStream.splitAfter crlf rest = none ∨
        ∃ line rest', rest = line ++ rest' ∧ IsLine line ∧
          (line = crlf ∨ (line ≠ crlf ∧ HTTPUtility.parseHeader line = none))) := by
  -- induction on the bytes that are left
  generalize hn : buffer.length = n
  induction n using Nat.strong_induction_on generalizing buffer with
  | _ n ih =>
      cases hfound : IOStream.splitAfter crlf buffer with
      | none => exact ⟨[], buffer, rfl, fun _ h => absurd h List.not_mem_nil, Or.inl hfound⟩
      | some found =>
          obtain ⟨line, rest⟩ := found
          have hline : IsLine line := IOStream.splitAfter_self hfound
          obtain ⟨hparts, hle⟩ := IOStream.splitAfter_some hfound
          by_cases hgood : line ≠ crlf ∧ (HTTPUtility.parseHeader line).isSome = true
          · have hless : rest.length < n := by
              have hlength := congrArg List.length hparts
              have htwo : crlf.length = 2 := rfl
              rw [List.length_append] at hlength
              omega
            obtain ⟨lines, rest', hrest, hlines, hend⟩ := ih _ hless rest rfl
            refine ⟨line :: lines, rest', ?_, ?_, hend⟩
            · rw [hparts, hrest, List.flatten_cons, List.append_assoc]
            · exact List.forall_mem_cons.mpr ⟨⟨hline, hgood⟩, hlines⟩
          · refine ⟨[], buffer, rfl, fun _ h => absurd h List.not_mem_nil, Or.inr ?_⟩
            refine ⟨line, rest, hparts, hline, ?_⟩
            by_cases hblank : line = crlf
            · exact Or.inl hblank
            · exact Or.inr ⟨hblank, by simpa [hblank] using hgood⟩

/-- Every stream starts with a response, with something malformed, or with a part of a
response. -/
theorem judged (stream : List UInt8) :
    (∃ headers content rest, IsResponse stream headers content rest) ∨ Malformed stream ∨
      Incomplete stream := by
  cases hfound : IOStream.splitAfter crlf stream with
  | none => exact Or.inr (Or.inr (.responseLine hfound))
  | some found =>
      obtain ⟨responseLine, buffer⟩ := found
      have hline : IsLine responseLine := IOStream.splitAfter_self hfound
      obtain ⟨hparts, _⟩ := IOStream.splitAfter_some hfound
      cases hparsed : HTTPUtility.parseResponseLine responseLine with
      | none => exact Or.inr (Or.inl (.responseLine hline hparsed hparts))
      | some parsed =>
          obtain ⟨lines, rest, hbuffer, hlines, hend⟩ := lines_of_buffer buffer
          have hhead : IsResponseHead responseLine lines :=
            ⟨hline, by rw [hparsed]; rfl, hlines⟩
          rw [hbuffer] at hparts
          rcases hend with hmissing | ⟨line, rest', rfl, hline', hblank | ⟨hblank, hnone⟩⟩
          · exact Or.inr (Or.inr (.header hhead hmissing hparts))
          · -- after the blank line the length of the content decides
            subst hblank
            cases hlookup : (fields lines).lookup (bytes "Content-Length") with
            | none => exact Or.inl ⟨_, _, _, .bare hhead hlookup hparts⟩
            | some length =>
                cases hdigits : isdigit length with
                | false => exact Or.inr (Or.inl (.contentLength hhead hlookup hdigits hparts))
                | true =>
                    rcases Nat.lt_or_ge rest'.length (digitsValue length) with hlt | hge
                    · exact Or.inr (Or.inr (.content hhead hlookup hdigits hlt hparts))
                    · refine Or.inl ⟨_, _, rest'.drop (digitsValue length),
                        .content hhead hlookup hdigits (List.length_take_of_le hge) ?_⟩
                      rw [List.take_append_drop]
                      exact hparts
          · exact Or.inr (Or.inl (.header hhead hline' hblank hnone hparts))

/-! ## What the parser makes of it -/

/-- A line at the front of the buffer is consumed. -/
theorem consume_isLine {p : HTTPResponseParser} {line rest : List UInt8} (h : IsLine line)
    (hbuffer : p.buffer = line ++ rest) :
    p.consumeByDelimiter crlf = some (line, { p with buffer := rest }) := by
  rw [consumeByDelimiter, hbuffer, h.splitAfter_append]
  rfl

/-- The header lines are taken off the buffer. -/
theorem drains_of_lines {lines : List (List UInt8)}
    (hlines : ∀ line ∈ lines, IsLine line ∧ line ≠ crlf ∧
      (HTTPUtility.parseHeader line).isSome = true)
    {p q : HTTPResponseParser} {r : Except Exc Unit} {rest : List UInt8}
    (hs : p.stage = .parseHeaders) (hbuffer : p.buffer = lines.flatten ++ rest)
    (h : responses.Drains { p with headers := fields lines ++ p.headers, buffer := rest } r q) :
    responses.Drains p r q := by
  induction lines generalizing p with
  | nil =>
      have hp : { p with headers := fields [] ++ p.headers, buffer := rest } = p := by
        cases p
        cases hbuffer
        rfl
      rw [hp] at h
      exact h
  | cons line lines ih =>
      obtain ⟨hline, hne, hsome⟩ := hlines line List.mem_cons_self
      obtain ⟨pair, hpair⟩ := Option.isSome_iff_exists.mp hsome
      rw [List.flatten_cons, List.append_assoc] at hbuffer
      have hget := get_of_header hs (consume_isLine hline hbuffer)
      rw [onHeader, if_neg hne, hpair] at hget
      refine Drains.step (step_of_get hget (by rw [hs]; decide)) ?_
      rw [fields_cons_append, hpair] at h
      exact ih (fun l hl => hlines l (List.mem_cons_of_mem _ hl))
        (p := { p with buffer := lines.flatten ++ rest, headers := pair :: p.headers }) hs rfl h

/-- A new parser is not finished, whatever it is fed. -/
theorem unfinished_new {data : List UInt8} : (new.feed data).stage ≠ .finished :=
  show Stage.parseResponseLine ≠ .finished by decide

/-- The parser after the head of a response. -/
theorem drains_of_head {responseLine : List UInt8} {lines : List (List UInt8)}
    (h : IsResponseHead responseLine lines) (rest : List UInt8) :
    ∃ p : HTTPResponseParser, p.stage = .parseHeaders ∧ p.headers = fields lines ∧
      p.buffer = rest ∧ p.content = none ∧ ∀ r q, responses.Drains p r q →
        responses.Drains (new.feed (responseLine ++ (lines.flatten ++ rest))) r q := by
  obtain ⟨⟨protocol, version, status, message⟩, hparsed⟩ := Option.isSome_iff_exists.mp h.parsed
  have hget := get_of_responseLine (p := new.feed (responseLine ++ (lines.flatten ++ rest))) rfl
    (consume_isLine h.isLine rfl)
  rw [onResponseLine, hparsed] at hget
  refine ⟨_, ?_, ?_, ?_, ?_, fun r q hdrains =>
    Drains.step (step_of_get hget unfinished_new) (drains_of_lines h.lines rfl rfl hdrains)⟩
  · rfl
  · exact List.append_nil _
  · rfl
  · rfl

/-- A finished parser makes no step. -/
theorem drains_finished {p : HTTPResponseParser} (h : p.isFinished = true) :
    responses.Drains p (.ok ()) p :=
  Drains.stop (step_of_finished (of_decide_eq_true h))

/-- A response is finished, with its headers and its content. -/
theorem drains_of_response {stream rest : List UInt8} {headers : List (List UInt8 × List UInt8)}
    {content : Option (List UInt8)} (h : IsResponse stream headers content rest) :
    ∃ p, responses.Drains (new.feed stream) (.ok ()) p ∧ p.isFinished = true ∧
      p.headers = headers ∧ p.content = content := by
  cases h with
  | @bare _ _ lines head lookup parts =>
      obtain ⟨p, hs, hheaders, hbuffer, hcontent, hdrains⟩ := drains_of_head head (crlf ++ rest)
      have hget := get_of_header hs (consume_isLine isLine_crlf hbuffer)
      rw [onHeader, if_pos rfl] at hget
      simp only [hheaders, lookup] at hget
      have hstop := drains_finished
        (p := { p with buffer := rest, headers := fields lines, stage := .finished }) rfl
      subst parts
      exact ⟨_, hdrains _ _ (Drains.step (step_of_get hget (by rw [hs]; decide)) hstop), rfl, rfl,
        hcontent⟩
  | @content responseLine length content _ lines head lookup digits size parts =>
      obtain ⟨p, hs, hheaders, hbuffer, hcontent, hdrains⟩ :=
        drains_of_head head (crlf ++ (content ++ rest))
      have hget := get_of_header hs (consume_isLine isLine_crlf hbuffer)
      rw [onHeader, if_pos rfl] at hget
      simp only [hheaders, lookup, digits, if_true, ← size] at hget
      have hbody := get_of_content
        (p := { p with buffer := content ++ rest, headers := fields lines,
                       contentLength := content.length, stage := .parseContent }) rfl
        (by simp)
      simp only [List.take_left, List.drop_left] at hbody
      have hstop := drains_finished
        (p := { p with buffer := rest, headers := fields lines, contentLength := content.length,
                       stage := .finished, content := some content }) rfl
      subst parts
      exact ⟨_, hdrains _ _ (Drains.step (step_of_get hget (by rw [hs]; decide))
        (Drains.step (step_of_get hbody (show Stage.parseContent ≠ .finished by decide)) hstop)),
        rfl, rfl, rfl⟩

/-- Something malformed makes the parser raise. -/
theorem drains_of_malformed {stream : List UInt8} (h : Malformed stream) :
    ∃ ex p, responses.Drains (new.feed stream) (.error ex) p := by
  cases h with
  | responseLine isLine parsed parts =>
      have hget := get_of_responseLine (p := new.feed stream) rfl (consume_isLine isLine parts)
      rw [onResponseLine, parsed] at hget
      exact ⟨_, _, Drains.fail (step_of_get hget unfinished_new)⟩
  | @header responseLine line rest lines head isLine ne_blank parsed parts =>
      obtain ⟨p, hs, _, hbuffer, _, hdrains⟩ := drains_of_head head (line ++ rest)
      have hget := get_of_header hs (consume_isLine isLine hbuffer)
      rw [onHeader, if_neg ne_blank, parsed] at hget
      subst parts
      exact ⟨_, _, hdrains _ _ (Drains.fail (step_of_get hget (by rw [hs]; decide)))⟩
  | @contentLength responseLine length rest lines head lookup digits parts =>
      obtain ⟨p, hs, hheaders, hbuffer, _, hdrains⟩ := drains_of_head head (crlf ++ rest)
      have hget := get_of_header hs (consume_isLine isLine_crlf hbuffer)
      rw [onHeader, if_pos rfl] at hget
      simp only [hheaders, lookup, digits, Bool.false_eq_true, if_false] at hget
      subst parts
      exact ⟨_, _, hdrains _ _ (Drains.fail (step_of_get hget (by rw [hs]; decide)))⟩

/-- A phase that needs more input ends the draining. -/
theorem drains_of_needMore {p : HTTPResponseParser} (h : p.get = (.ok none, p)) :
    responses.Drains p (.ok ()) p ∧ ¬ p.isFinished = true := by
  have hs := unfinished_of_get h nofun
  exact ⟨Drains.stop (step_of_get h hs), fun hfinished => hs (of_decide_eq_true hfinished)⟩

/-- With a part of a response the parser waits. -/
theorem drains_of_incomplete {stream : List UInt8} (h : Incomplete stream) :
    ∃ p, responses.Drains (new.feed stream) (.ok ()) p ∧ ¬ p.isFinished = true := by
  have hconsume : ∀ p : HTTPResponseParser, IOStream.splitAfter crlf p.buffer = none →
      p.consumeByDelimiter crlf = none := by
    intro p hmissing
    rw [consumeByDelimiter, hmissing]
    rfl
  cases h with
  | responseLine missing =>
      exact ⟨_, drains_of_needMore
        (get_of_needMore (Or.inl ⟨rfl, hconsume (new.feed stream) missing⟩))⟩
  | @header responseLine rest lines head missing parts =>
      obtain ⟨p, hs, _, hbuffer, _, hdrains⟩ := drains_of_head head rest
      rw [← hbuffer] at missing
      obtain ⟨hstop, hunfinished⟩ :=
        drains_of_needMore (get_of_needMore (Or.inr (Or.inl ⟨hs, hconsume p missing⟩)))
      subst parts
      exact ⟨p, hdrains _ _ hstop, hunfinished⟩
  | @content responseLine length rest lines head lookup digits short parts =>
      obtain ⟨p, hs, hheaders, hbuffer, _, hdrains⟩ := drains_of_head head (crlf ++ rest)
      have hget := get_of_header hs (consume_isLine isLine_crlf hbuffer)
      rw [onHeader, if_pos rfl] at hget
      simp only [hheaders, lookup, digits, if_true] at hget
      obtain ⟨hstop, hunfinished⟩ := drains_of_needMore
        (p := { p with buffer := rest, headers := fields lines,
                       contentLength := digitsValue length, stage := .parseContent })
        (get_of_needMore (Or.inr (Or.inr ⟨rfl, short⟩)))
      subst parts
      exact ⟨_, hdrains _ _ (Drains.step (step_of_get hget (by rw [hs]; decide)) hstop),
        hunfinished⟩

/-- A stream starts with one response. -/
theorem IsResponse.unique {stream rest rest' : List UInt8}
    {headers headers' : List (List UInt8 × List UInt8)} {content content' : Option (List UInt8)}
    (h : IsResponse stream headers content rest) (h' : IsResponse stream headers' content' rest') :
    headers = headers' ∧ content = content' := by
  obtain ⟨p, hdrains, _, rfl, rfl⟩ := drains_of_response h
  obtain ⟨p', hdrains', _, rfl, rfl⟩ := drains_of_response h'
  obtain ⟨_, rfl⟩ := hdrains.unique hdrains'
  exact ⟨rfl, rfl⟩

/-- What starts with something malformed does not start with a response. -/
theorem Malformed.not_response {stream rest : List UInt8}
    {headers : List (List UInt8 × List UInt8)} {content : Option (List UInt8)}
    (h : Malformed stream) : ¬ IsResponse stream headers content rest := by
  intro hresponse
  obtain ⟨ex, p, hraises⟩ := drains_of_malformed h
  obtain ⟨p', hdrains, _⟩ := drains_of_response hresponse
  cases (hraises.unique hdrains).1

/-- The parser raises nothing but `InvalidPacketError`. -/
theorem invalidPacket_of_drains {p q : HTTPResponseParser} {ex : Exc}
    (h : responses.Drains p (.error ex) q) : ex.cls = .invalidPacketError := by
  refine invalidPacket_of_autoGet (p := p) ?_
  rw [autoGet_of_drains h]

end HTTPResponseParser

namespace SimpleBlockingHTTPTransport

open HTTPResponseParser HTTPTransport Incremental.Consumer

/-! ## How `read` ends -/

section Loop

variable {chunkSize rounds : ℕ} {p : HTTPResponseParser} {sock sock' : Sock} {s : List UInt8}

/-- A loop that raises has got the error from its parser. -/
theorem readLoop_error {ex : Exc} (hchunk : 0 < chunkSize) (hsock : sock.Fragmented)
    (hp : responses.Drains (new.feed s) (.ok ()) p)
    (h : readLoop chunkSize rounds p sock = some (.error ex, sock')) :
    ∃ data rest p', sock.incoming = data ++ rest ∧
      responses.Drains (new.feed (s ++ data)) (.error ex) p' := by
  induction rounds generalizing p sock s with
  | zero =>
      unfold readLoop at h
      split at h <;> cases h
  | succ rounds ih =>
      by_cases hfinished : p.isFinished = true
      · rw [readLoop_finished hfinished] at h
        cases h
      · obtain ⟨data, hrecv, hsplit, _, hnext⟩ := hsock.recv hchunk
        cases hget : (p.feed data).autoGet with
        | mk r q =>
            have hdrains := autoGet_drains (p.feed data)
            rw [hget] at hdrains
            have hq := hp.feed rfl hdrains
            rw [feed_feed] at hq
            rw [readLoop_recv hfinished hrecv hget] at h
            cases r with
            | error ex' =>
                cases h
                exact ⟨data, _, q, hsplit, hq⟩
            | ok _ =>
                obtain ⟨more, rest, p', hmore, hraises⟩ := ih hnext hq h
                refine ⟨data ++ more, rest, p', ?_, ?_⟩
                · rw [hsplit, hmore, List.append_assoc]
                · rwa [← List.append_assoc]

/-- The loop ends when its parser does not wait for more than there is. -/
theorem readLoop_ends {r : Except Exc Unit} {q : HTTPResponseParser} (hchunk : 0 < chunkSize)
    (hsock : sock.Fragmented) (hp : responses.Drains (new.feed s) (.ok ()) p)
    (hall : responses.Drains (new.feed (s ++ sock.incoming)) r q)
    (hends : r = .ok () → q.isFinished = true) :
    ∃ rounds outcome, readLoop chunkSize rounds p sock = some outcome := by
  -- induction on the bytes that are still to be received
  generalize hn : sock.incoming.length = n
  induction n using Nat.strong_induction_on generalizing p sock s with
  | _ n ih =>
      by_cases hfinished : p.isFinished = true
      · exact ⟨0, _, readLoop_finished hfinished _ _ _⟩
      · obtain ⟨data, hrecv, hsplit, hnil, hnext⟩ := hsock.recv hchunk
        have hdata : data ≠ [] := by
          -- at the end of the stream the parser would have been finished
          intro hempty
          rw [hnil hempty, List.append_nil] at hall
          obtain ⟨hr, hq⟩ := hp.unique hall
          exact hfinished (hq ▸ hends hr.symm)
        cases hget : (p.feed data).autoGet with
        | mk r' q' =>
            have hdrains := autoGet_drains (p.feed data)
            rw [hget] at hdrains
            have hq := hp.feed rfl hdrains
            rw [feed_feed] at hq
            cases r' with
            | error ex => exact ⟨1, _, readLoop_recv hfinished hrecv hget 0⟩
            | ok _ =>
                have hless : (sock.recv chunkSize).2.incoming.length < n := by
                  have hpos := List.length_pos_iff.mpr hdata
                  rw [← hn, hsplit, List.length_append]
                  omega
                rw [hsplit, ← List.append_assoc] at hall
                obtain ⟨rounds, outcome, hloop⟩ := ih _ hless hnext hq hall rfl
                exact ⟨rounds + 1, outcome, (readLoop_recv hfinished hrecv hget rounds).trans hloop⟩

/-- A loop that has ended well has finished its parser, and more input changes nothing. -/
theorem drains_of_readLoop_ok {p' : HTTPResponseParser} (hchunk : 0 < chunkSize)
    (hsock : sock.Fragmented) (h : readLoop chunkSize rounds new sock = some (.ok p', sock')) :
    p'.isFinished = true ∧
      responses.Drains (new.feed sock.incoming) (.ok ()) (p'.feed sock'.incoming) := by
  obtain ⟨data, hsplit, _, hdrains, hfinished⟩ :=
    readLoop_ok (s := []) hchunk hsock (Drains.stop rfl) h
  have hmore := hdrains.feed rfl (drains_of_finished hfinished sock'.incoming)
  rw [feed_feed, List.nil_append, ← hsplit] at hmore
  exact ⟨hfinished, hmore⟩

/-- A loop that has raised raises on all of the input. -/
theorem drains_of_readLoop_error {ex : Exc} (hchunk : 0 < chunkSize) (hsock : sock.Fragmented)
    (h : readLoop chunkSize rounds new sock = some (.error ex, sock')) :
    ∃ q, responses.Drains (new.feed sock.incoming) (.error ex) q := by
  obtain ⟨data, rest, p', hsplit, hdrains⟩ :=
    readLoop_error (s := []) hchunk hsock (Drains.stop rfl) h
  have hmore := hdrains.feed_error rfl rest
  rw [feed_feed, List.nil_append, ← hsplit] at hmore
  exact ⟨_, hmore⟩

/-- When `read` ends it raises `InvalidPacketError` because of something malformed, or goes
by the headers and the content of the response. -/
theorem read_outcome {outcome : Except Exc (ℤ × List UInt8)} (hchunk : 0 < chunkSize)
    (hsock : sock.Fragmented) (h : read chunkSize rounds sock = some (outcome, sock')) :
    (∃ ex, outcome = .error ex ∧ ex.cls = .invalidPacketError ∧ Malformed sock.incoming) ∨
      ∃ p rest, IsResponse sock.incoming p.headers p.content rest ∧ outcome = result p := by
  obtain ⟨⟨loopOutcome, sock''⟩, hloop, heq⟩ := Option.map_eq_some_iff.mp h
  obtain ⟨hresult, _⟩ := Prod.ext_iff.mp heq
  change loopOutcome.bind result = outcome at hresult
  cases loopOutcome with
  | error ex =>
      obtain ⟨_, hdrains⟩ := drains_of_readLoop_error hchunk hsock hloop
      refine Or.inl ⟨ex, hresult.symm, invalidPacket_of_drains hdrains, ?_⟩
      rcases judged sock.incoming with ⟨_, _, _, hresponse⟩ | hmalformed | hincomplete
      · obtain ⟨_, hall, _⟩ := drains_of_response hresponse
        cases (hall.unique hdrains).1
      · exact hmalformed
      · obtain ⟨_, hall, _⟩ := drains_of_incomplete hincomplete
        cases (hall.unique hdrains).1
  | ok p =>
      obtain ⟨hfinished, hdrains⟩ := drains_of_readLoop_ok hchunk hsock hloop
      refine Or.inr ⟨p, ?_⟩
      rcases judged sock.incoming with ⟨_, _, rest, hresponse⟩ | hmalformed | hincomplete
      · obtain ⟨_, hall, _, rfl, rfl⟩ := drains_of_response hresponse
        obtain ⟨_, rfl⟩ := hall.unique hdrains
        exact ⟨rest, hresponse, hresult.symm⟩
      · obtain ⟨_, _, hall⟩ := drains_of_malformed hmalformed
        cases (hall.unique hdrains).1
      · obtain ⟨_, hall, hunfinished⟩ := drains_of_incomplete hincomplete
        obtain ⟨_, rfl⟩ := hall.unique hdrains
        exact absurd hfinished hunfinished

end Loop

/-- `read` ends if and only if the bytes sent start with a whole response or with something
malformed. After a part of a response it calls `recv` for ever. -/
theorem read_terminates_iff {chunkSize : ℕ} {sock : Sock} (hchunk : 0 < chunkSize)
    (hsock : sock.Fragmented) :
    (∃ rounds outcome, read chunkSize rounds sock = some outcome) ↔
      Malformed sock.incoming ∨
        ∃ headers content rest, IsResponse sock.incoming headers content rest := by
  have hstart : responses.Drains (new.feed []) (.ok ()) new := Drains.stop rfl
  constructor
  · rintro ⟨rounds, ⟨outcome, sock'⟩, hread⟩
    rcases read_outcome hchunk hsock hread with
      ⟨_, _, _, hmalformed⟩ | ⟨_, _, hresponse, _⟩
    · exact Or.inl hmalformed
    · exact Or.inr ⟨_, _, _, hresponse⟩
  · intro hstarts
    have hall : ∃ r q, responses.Drains (new.feed ([] ++ sock.incoming)) r q ∧
        (r = .ok () → q.isFinished = true) := by
      rcases hstarts with hmalformed | ⟨headers, content, rest, hresponse⟩
      · obtain ⟨ex, q, hdrains⟩ := drains_of_malformed hmalformed
        exact ⟨_, q, hdrains, nofun⟩
      · obtain ⟨q, hdrains, hfinished, _⟩ := drains_of_response hresponse
        exact ⟨_, q, hdrains, fun _ => hfinished⟩
    obtain ⟨r, q, hdrains, hends⟩ := hall
    obtain ⟨rounds, outcome, hloop⟩ := readLoop_ends hchunk hsock hstart hdrains hends
    exact ⟨rounds, _, congrArg (Option.map _) hloop⟩

/-- A response without content, with a part of the next one, in fragments. -/
theorem read_terminates_iff_bare :
    0 < 1024 ∧ ∃ rounds outcome, read 1024 rounds
      { incoming := bytes "HTTP/1.1 204 Empty\r\nTransaction-Id: 7\r\n\r\nHTTP",
        outgoing := [], script := [.moved 9, .moved 20] } = some outcome := by
  refine ⟨by decide, (read_terminates_iff (by decide) ?_).mpr (Or.inr ⟨_, _, bytes "HTTP",
    @IsResponse.bare _ (bytes "HTTP/1.1 204 Empty\r\n") _ [bytes "Transaction-Id: 7\r\n"]
      ⟨?_, ?_, ?_⟩ ?_ ?_⟩)⟩
  · simp only [Sock.Fragmented, List.mem_cons, List.not_mem_nil, or_false]
    rintro ev (rfl | rfl)
    · exact ⟨9, rfl⟩
    · exact ⟨20, rfl⟩
  all_goals decide +kernel

/-- A peer that closes without a response keeps the reader in its loop. -/
theorem read_never_ends :
    ¬ ∀ (chunkSize : ℕ) (sock : Sock), 0 < chunkSize → sock.Fragmented →
      ∃ rounds outcome, read chunkSize rounds sock = some outcome := by
  intro h
  obtain ⟨rounds, outcome, hread⟩ := h 1024 { incoming := [], outgoing := [], script := [] }
    (by decide) (List.forall_mem_nil _)
  have hrecv : Sock.recv { incoming := [], outgoing := [], script := [] } 1024 =
      (.ok [], { incoming := [], outgoing := [], script := [] }) := rfl
  have hnone : ∀ rounds, readLoop 1024 rounds new { incoming := [], outgoing := [], script := [] } =
      none := by
    intro rounds
    induction rounds with
    | zero => rfl
    | succ rounds ih =>
        rw [readLoop_recv (by decide) hrecv
          (show (new.feed []).autoGet = (.ok (), new) by decide +kernel)]
        exact ih
  rw [read, hnone rounds] at hread
  cases hread

end SimpleBlockingHTTPTransport

end SummerRpc
