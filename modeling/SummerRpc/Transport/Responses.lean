import SummerRpc.Transport.Parser
import SummerRpc.Transport.Strings

/-! # Packets as responses

What `HTTPResponseParser` makes of the packets of `HTTPTransport.generate_packet`.

* `packet_drains`: a packet is one response, and what follows it stays in the buffer;
* `takeResponses`, `feedResponses`: response after response, with `reset_states` after
  each;
* `messages`: the same as an incremental consumer;
* `parser_chunking`: it makes no difference how the input is cut into chunks.
-/

namespace SummerRpc

namespace HTTPResponseParser

open HTTPTransport Incremental.Consumer

/-! ## One packet -/

/-- A header field as `generate_packet` writes it. -/
def field (name value : List UInt8) : List UInt8 := name ++ 58 :: 32 :: value

/-- The header fields of a packet, the last one first. -/
def packetHeaders (transactionId : ℕ) (buff : List UInt8) : List (List UInt8 × List UInt8) :=
  [(bytes "Content-Length", decimal buff.length), (bytes "Transaction-Id", decimal transactionId)]

/-- A packet is a response line, two fields, a blank line and the body. -/
theorem generatePacket_append (transactionId : ℕ) (buff rest : List UInt8) :
    generatePacket transactionId buff ++ rest =
      bytes "HTTP/1.1 200 OK" ++ (crlf ++
        (field (bytes "Transaction-Id") (decimal transactionId) ++ (crlf ++
          (field (bytes "Content-Length") (decimal buff.length) ++ (crlf ++
            (crlf ++ (buff ++ rest))))))) := by
  have hline : bytes "HTTP/1.1 200 OK\r\n" = bytes "HTTP/1.1 200 OK" ++ crlf := by decide
  have hid : bytes "Transaction-Id: " = bytes "Transaction-Id" ++ [58, 32] := by decide
  have hlen : bytes "Content-Length: " = bytes "Content-Length" ++ [58, 32] := by decide
  rw [generatePacket, hline, hid, hlen]
  simp only [field, List.append_assoc, List.cons_append, List.nil_append]

/-- Neither a field's name nor its value breaks the line. -/
theorem notMem_field {name value : List UInt8} (hname : 13 ∉ name)
    (hvalue : ∀ b ∈ value, isSpace b = false) : 13 ∉ field name value := by
  simp only [field, List.mem_append, List.mem_cons, not_or]
  refine ⟨hname, by decide, by decide, ?_⟩
  intro hmem
  exact absurd (hvalue 13 hmem) (by decide)

/-- The line of a field is not the blank line. -/
theorem field_ne_blank (name value : List UInt8) : field name value ++ crlf ≠ crlf := by
  intro heq
  have hlength := congrArg List.length heq
  simp only [field, List.length_append, List.length_cons] at hlength
  omega

/-- A line at the front of the buffer is consumed. -/
theorem consume_line {p : HTTPResponseParser} {line rest : List UInt8}
    (hbuffer : p.buffer = line ++ (crlf ++ rest)) (hline : 13 ∉ line) :
    p.consumeByDelimiter crlf = some (line ++ crlf, { p with buffer := rest }) := by
  rw [consumeByDelimiter, hbuffer, splitAfter_crlf hline]
  rfl

/-- The parser among the headers of a packet. -/
def atHeaders (headers : List (List UInt8 × List UInt8)) (buffer : List UInt8) :
    HTTPResponseParser where
  buffer := buffer
  stage := .parseHeaders
  protocol := some (bytes "HTTP")
  version := some (bytes "1.1")
  status := some 200
  message := some (bytes "OK")
  headers := headers

/-- The parser when it has finished a packet. -/
def finishedWith (transactionId : ℕ) (buff buffer : List UInt8) : HTTPResponseParser where
  buffer := buffer
  stage := .finished
  protocol := some (bytes "HTTP")
  version := some (bytes "1.1")
  status := some 200
  message := some (bytes "OK")
  headers := packetHeaders transactionId buff
  contentLength := buff.length
  content := some buff

theorem get_responseLine (rest : List UInt8) :
    (new.feed (bytes "HTTP/1.1 200 OK" ++ (crlf ++ rest))).get =
      (.ok (some .parseHeaders), atHeaders [] rest) := by
  have hparsed : HTTPUtility.parseResponseLine (bytes "HTTP/1.1 200 OK" ++ crlf) =
      some (bytes "HTTP", bytes "1.1", 200, bytes "OK") := by decide
  rw [get_of_responseLine rfl (consume_line rfl (by decide)), onResponseLine, hparsed]
  rfl

theorem get_field {name value : List UInt8} (headers : List (List UInt8 × List UInt8))
    (rest : List UInt8) (hname : ∀ b ∈ name, isSpace b = false) (hcolon : 58 ∉ name)
    (hvalue : ∀ b ∈ value, isSpace b = false) :
    (atHeaders headers (field name value ++ (crlf ++ rest))).get =
      (.ok (some .parseHeaders), atHeaders ((name, value) :: headers) rest) := by
  have hline : 13 ∉ field name value :=
    notMem_field (fun hmem => absurd (hname 13 hmem) (by decide)) hvalue
  have hparsed : HTTPUtility.parseHeader (field name value ++ crlf) = some (name, value) :=
    parseHeader_field hname hcolon hvalue
  rw [get_of_header rfl (consume_line rfl hline), onHeader, if_neg (field_ne_blank name value),
    hparsed]
  rfl

theorem get_blank {headers : List (List UInt8 × List UInt8)} {n : ℕ}
    (hlookup : headers.lookup (bytes "Content-Length") = some (decimal n)) (rest : List UInt8) :
    (atHeaders headers (crlf ++ rest)).get =
      (.ok (some .parseContent),
        { atHeaders headers rest with contentLength := n, stage := .parseContent }) := by
  have hline : (atHeaders headers (crlf ++ rest)).consumeByDelimiter crlf =
      some (crlf, atHeaders headers rest) := @consume_line _ [] rest rfl List.not_mem_nil
  have hlength : (atHeaders headers rest).headers.lookup (bytes "Content-Length") =
      some (decimal n) := hlookup
  rw [get_of_header rfl hline, onHeader, if_pos rfl]
  simp only [hlength, isdigit_decimal, if_true, digitsValue_decimal]

theorem get_content (transactionId : ℕ) (buff rest : List UInt8) :
    ({ atHeaders (packetHeaders transactionId buff) (buff ++ rest) with
        contentLength := buff.length, stage := .parseContent } : HTTPResponseParser).get =
      (.ok (some .finished), finishedWith transactionId buff rest) := by
  have hle : buff.length ≤ (buff ++ rest).length := by
    rw [List.length_append]
    omega
  rw [get_of_content rfl hle]
  show (_, ({ finishedWith transactionId buff ((buff ++ rest).drop buff.length) with
    content := some ((buff ++ rest).take buff.length) } : HTTPResponseParser)) = _
  rw [List.drop_left, List.take_left]
  rfl

/-- From its first stage on the parser takes one packet off its buffer, and finishes. -/
theorem packet_drains (transactionId : ℕ) (buff rest : List UInt8) :
    responses.Drains (new.feed (generatePacket transactionId buff ++ rest)) (.ok ())
      (finishedWith transactionId buff rest) := by
  rw [generatePacket_append]
  refine Drains.step (step_of_get (get_responseLine _) nofun) ?_
  refine Drains.step (step_of_get (get_field [] _ (noSpace_of_all (by decide)) (by decide)
    (noSpace_decimal _)) nofun) ?_
  refine Drains.step (step_of_get (get_field _ _ (noSpace_of_all (by decide)) (by decide)
    (noSpace_decimal _)) nofun) ?_
  refine Drains.step (step_of_get (get_blank rfl _) nofun) ?_
  refine Drains.step (step_of_get (get_content transactionId buff rest) nofun) ?_
  exact Drains.stop (step_of_finished (p := finishedWith transactionId buff rest) rfl)

/-! ## Response after response -/

/-- What a parser has made of a response. -/
structure Response where
  protocol : Option (List UInt8)
  version : Option (List UInt8)
  status : Option ℕ
  message : Option (List UInt8)
  headers : List (List UInt8 × List UInt8)
  content : Option (List UInt8)
deriving DecidableEq, Repr

/-- The fields a user reads when the parser is finished. -/
def response (p : HTTPResponseParser) : Response where
  protocol := p.protocol
  version := p.version
  status := p.status
  message := p.message
  headers := p.headers
  content := p.content

/-- `auto_get` makes no bytes. -/
theorem weight_autoGet (p : HTTPResponseParser) : p.autoGet.2.weight ≤ p.weight :=
  (autoGet_drains p).invariant (P := fun q => q.weight ≤ p.weight)
    (fun _ _ _ hstep hle => Nat.le_trans (weight_step hstep) hle) (Nat.le_refl _)

theorem weight_of_finished {p : HTTPResponseParser} (h : p.isFinished = true) :
    p.weight = p.buffer.length + (p.content.getD []).length + 2 := by
  have hstage : p.stage ≠ .parseResponseLine := by
    intro hs
    rw [isFinished, hs] at h
    cases h
  rw [weight, if_neg hstage]

/-- With a response the parser gives away at least a line break. -/
theorem weight_resetStates {p : HTTPResponseParser} (h : p.isFinished = true) :
    p.resetStates.weight < p.weight := by
  have hreset : p.resetStates.weight = p.buffer.length := rfl
  rw [hreset, weight_of_finished h]
  omega

/-- `auto_get`, and as long as it finishes a response, that response, `reset_states` and
`auto_get` again. -/
def takeResponses (p : HTTPResponseParser) : Except Exc Unit × List Response × HTTPResponseParser :=
  match _hget : p.autoGet with
  | (.error ex, p') => (.error ex, [], p')
  | (.ok (), p') =>
    if _hfinished : p'.isFinished = true then
      let (r, out, p'') := takeResponses p'.resetStates
      (r, p'.response :: out, p'')
    else (.ok (), [], p')
termination_by p.weight
decreasing_by
  have hle := weight_autoGet p
  rw [_hget] at hle
  exact Nat.lt_of_lt_of_le (weight_resetStates _hfinished) hle

/-- The chunks are fed one by one, and after each the responses are taken, up to the
first exception. -/
def feedResponses (p : HTTPResponseParser) :
    List (List UInt8) → Except Exc Unit × List Response × HTTPResponseParser
  | [] => (.ok (), [], p)
  | data :: chunks =>
    match (p.feed data).takeResponses with
    | (.error ex, out, p') => (.error ex, out, p')
    | (.ok (), out, p') =>
      let (r, more, p'') := feedResponses p' chunks
      (r, out ++ more, p'')

/-- The parser and the responses taken from it so far, fed with bytes. -/
def messages : Incremental.Consumer (HTTPResponseParser × List Response) UInt8 Exc where
  step c :=
    if c.1.isFinished = true then some (.ok (), (c.1.resetStates, c.2 ++ [c.1.response]))
    else (c.1.step).map fun outcome => (outcome.1, (outcome.2, c.2))
  feed c data := (c.1.feed data, c.2)
  feed_nil := by
    intro c
    exact Prod.ext (responses.feed_nil c.1) rfl
  feed_append := by
    intro c xs ys
    exact Prod.ext (responses.feed_append c.1 xs ys) rfl
  step_feed := by
    intro c r c' data h
    have hsame : (c.1.feed data).isFinished = c.1.isFinished := rfl
    rw [hsame]
    split at h
    · rename_i hfinished
      cases h
      rw [if_pos hfinished]
      rfl
    · rename_i hfinished
      rw [if_neg hfinished]
      obtain ⟨⟨r', p'⟩, hstep, heq⟩ := Option.map_eq_some_iff.mp h
      cases heq
      rw [show (c.1.feed data).step = _ from responses.step_feed _ _ _ data hstep]
      rfl

theorem messages_step_finished {p : HTTPResponseParser} (h : p.isFinished = true)
    (out : List Response) :
    messages.step (p, out) = some (.ok (), (p.resetStates, out ++ [p.response])) := if_pos h

/-- A parser that makes a step has no response yet. -/
theorem messages_step {p p' : HTTPResponseParser} {r : Except Exc Unit}
    (h : p.step = some (r, p')) (out : List Response) :
    messages.step (p, out) = some (r, (p', out)) := by
  have hfinished : ¬ p.isFinished = true := by
    intro hf
    rw [step_of_finished (of_decide_eq_true hf)] at h
    cases h
  show (if p.isFinished = true then _ else _) = _
  rw [if_neg hfinished, h]
  rfl

/-- What drains the parser without an exception comes first when responses are taken. -/
theorem messages_drains {p p' : HTTPResponseParser} {r : Except Exc Unit}
    {out : List Response} {c : HTTPResponseParser × List Response}
    (h : responses.Drains p (.ok ()) p') (hrest : messages.Drains (p', out) r c) :
    messages.Drains (p, out) r c := by
  generalize hok : (.ok () : Except Exc Unit) = r₀ at h
  induction h with
  | stop _ => exact hrest
  | fail _ => cases hok
  | step hstep _ ih => exact Drains.step (messages_step hstep out) (ih hrest hok)

theorem messages_drains_error {p p' : HTTPResponseParser} {ex : Exc} (out : List Response)
    (h : responses.Drains p (.error ex) p') :
    messages.Drains (p, out) (.error ex) (p', out) := by
  generalize herror : (.error ex : Except Exc Unit) = r₀ at h
  induction h with
  | stop _ => cases herror
  | fail hfail =>
      cases herror
      exact Drains.fail (messages_step hfail out)
  | step hstep _ ih => exact Drains.step (messages_step hstep out) (ih herror)

/-- Taking responses makes steps until there is none. -/
theorem takeResponses_drains (p : HTTPResponseParser) (out : List Response) :
    messages.Drains (p, out) p.takeResponses.1
      (p.takeResponses.2.2, out ++ p.takeResponses.2.1) := by
  fun_induction takeResponses p generalizing out with
  | case1 p ex p' hget =>
      have hdrains := autoGet_drains p
      rw [hget] at hdrains
      rw [List.append_nil]
      exact messages_drains_error out hdrains
  | case2 p p' hget hfinished r more p'' hrest ih =>
      have hdrains := autoGet_drains p
      rw [hget] at hdrains
      have hnext := ih (out ++ [p'.response])
      rw [hrest, List.append_assoc] at hnext
      exact messages_drains hdrains (Drains.step (messages_step_finished hfinished out) hnext)
  | case3 p p' hget hfinished =>
      have hdrains := autoGet_drains p
      rw [hget] at hdrains
      rw [List.append_nil]
      refine messages_drains hdrains (Drains.stop ?_)
      show (if p'.isFinished = true then _ else (p'.step).map _) = none
      rw [if_neg hfinished, show p'.step = none from hdrains.drained rfl]
      rfl

theorem feedResponses_chunked (p : HTTPResponseParser) (chunks : List (List UInt8))
    (out : List Response) :
    messages.Chunked (p, out) chunks (p.feedResponses chunks).1
      ((p.feedResponses chunks).2.2, out ++ (p.feedResponses chunks).2.1) := by
  induction chunks generalizing p out with
  | nil =>
      rw [feedResponses, List.append_nil]
      exact Chunked.nil
  | cons data chunks ih =>
      have hdrains := takeResponses_drains (p.feed data) out
      unfold feedResponses
      cases htake : (p.feed data).takeResponses with
      | mk r taken =>
          rw [htake] at hdrains
          cases r with
          | error ex => exact Chunked.fail hdrains
          | ok _ =>
              have hrest := ih taken.2 (out ++ taken.1)
              rw [List.append_assoc] at hrest
              exact Chunked.cons hdrains hrest

/-! ## Packet after packet -/

/-- What a packet reads as. -/
def packetResponse (transactionId : ℕ) (buff : List UInt8) : Response where
  protocol := some (bytes "HTTP")
  version := some (bytes "1.1")
  status := some 200
  message := some (bytes "OK")
  headers := packetHeaders transactionId buff
  content := some buff

/-- Packets one after another. -/
def packets (pairs : List (ℕ × List UInt8)) : List UInt8 :=
  pairs.flatMap fun pair => generatePacket pair.1 pair.2

/-- The packets are taken off the buffer one by one. -/
theorem packets_drain (pairs : List (ℕ × List UInt8)) (out : List Response) :
    messages.Drains (new.feed (packets pairs), out) (.ok ())
      (new, out ++ pairs.map fun pair => packetResponse pair.1 pair.2) := by
  induction pairs generalizing out with
  | nil =>
      rw [List.map_nil, List.append_nil]
      exact Drains.stop rfl
  | cons pair pairs ih =>
      have hrest := ih (out ++ [packetResponse pair.1 pair.2])
      rw [List.append_assoc] at hrest
      refine messages_drains (packet_drains pair.1 pair.2 (packets pairs)) ?_
      exact Drains.step (messages_step_finished rfl out) hrest

/-- The transaction id and the body a response carries. -/
def Response.pair (r : Response) : Option (ℕ × List UInt8) := do
  let transactionId ← r.headers.lookup (bytes "Transaction-Id")
  let content ← r.content
  if isdigit transactionId then some (digitsValue transactionId, content) else none

theorem pair_packetResponse (transactionId : ℕ) (buff : List UInt8) :
    (packetResponse transactionId buff).pair = some (transactionId, buff) := by
  show (if isdigit (decimal transactionId) = true then _ else _) = _
  rw [if_pos (isdigit_decimal transactionId), digitsValue_decimal]

/-- Packets in any chunks are parsed into themselves. -/
theorem feedResponses_packets {pairs : List (ℕ × List UInt8)} {chunks : List (List UInt8)}
    (h : chunks.flatten = packets pairs) :
    new.feedResponses chunks =
      (.ok (), pairs.map fun pair => packetResponse pair.1 pair.2, new) := by
  obtain ⟨rest, hdrains, hnil⟩ := (feedResponses_chunked new chunks []).drains rfl
  rw [h] at hdrains
  obtain ⟨hr, hc⟩ := hdrains.unique (packets_drain pairs [])
  rw [hnil hr, messages.feed_nil, List.nil_append, List.nil_append] at hc
  obtain ⟨hp, hout⟩ := Prod.ext_iff.mp hc
  exact Prod.ext hr (Prod.ext hout hp)

/-- The parser does not notice how its input is cut into chunks. Fed chunk by chunk,
with `auto_get` after each, it raises the `InvalidPacketError` that it raises when it is
fed all at once, and without one it ends as the same parser. With `reset_states` after
each response the chunks of some packets are parsed into these packets, and nothing is
left over. -/
theorem parser_chunking :
    (∀ chunks : List (List UInt8),
      (new.feed chunks.flatten).autoGet.1 = (new.feedChunks chunks).1 ∧
        (∀ ex, (new.feedChunks chunks).1 = .error ex → ex.cls = .invalidPacketError) ∧
        ((new.feedChunks chunks).1 = .ok () →
          (new.feed chunks.flatten).autoGet.2 = (new.feedChunks chunks).2)) ∧
    ∀ (pairs : List (ℕ × List UInt8)) (chunks : List (List UInt8)),
      chunks.flatten = packets pairs →
        new.feedResponses chunks =
            (.ok (), pairs.map fun pair => packetResponse pair.1 pair.2, new) ∧
          (new.feedResponses chunks).2.1.map Response.pair = pairs.map some := by
  refine ⟨?_, ?_⟩
  · intro chunks
    obtain ⟨hr, hp⟩ := feedChunks_eq (p := new) rfl chunks
    refine ⟨hr, ?_, hp⟩
    intro ex hex
    exact invalidPacket_of_autoGet (hr.trans hex)
  · intro pairs chunks hchunks
    have hfed := feedResponses_packets hchunks
    refine ⟨hfed, ?_⟩
    rw [hfed, List.map_map]
    exact List.map_congr_left fun pair _ => pair_packetResponse pair.1 pair.2

/-- Two packets, the first chunk border between `'\r'` and `'\n'` and the second one in
the body. -/
theorem parser_chunking_two :
    new.feedResponses [(packets [(7, bytes "a\r\n"), (8, [])]).take 16,
        ((packets [(7, bytes "a\r\n"), (8, [])]).take 59).drop 16,
        (packets [(7, bytes "a\r\n"), (8, [])]).drop 59] =
      (.ok (), [packetResponse 7 (bytes "a\r\n"), packetResponse 8 []], new) :=
  (parser_chunking.2 [(7, bytes "a\r\n"), (8, [])] _ (by decide)).1

end HTTPResponseParser

end SummerRpc
