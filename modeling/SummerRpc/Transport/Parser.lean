import SummerRpc.Lib.Incremental
import SummerRpc.Transport.Http

/-! # The parser of HTTP responses

`HTTPResponseParser` of `extension/http_transport.py`: the client feeds it what it has
received, and it goes through its stages as far as the buffer lets it.

* `HTTPUtility.parseResponseLine`;
* `HTTPResponseParser.get`, `autoGet`: one phase, and as many as there are;
* `responses`, `autoGet_drains`: the parser as an incremental consumer.
-/

namespace SummerRpc

/-- Bytes in the text of an exception. -/
def text (s : List UInt8) : String := String.ofList (s.map fun b => Char.ofNat b.toNat)

/-- `s.upper()` of a byte. -/
def toUpper (b : UInt8) : UInt8 := if 97 ≤ b && b ≤ 122 then b - 32 else b

/-- `s.split()`: the words between white space. -/
def words (s : List UInt8) : List (List UInt8) :=
  (s.splitOnP isSpace).filter fun word => !word.isEmpty

/-- `parse_response_line`: protocol, version, status and message, the version as it is
written. -/
def HTTPUtility.parseResponseLine (responseLine : List UInt8) :
    Option (List UInt8 × List UInt8 × ℕ × List UInt8) :=
  match words (withoutCrlf responseLine) with
  | [protocolAndVersion, status, message] =>
    match protocolAndVersion.splitOn 47 with
    | [protocol, version] =>
      if protocol.map toUpper ≠ bytes "HTTP" then none
      else if !versions.contains version then none
      else if !isdigit status then none
      else some (protocol, version, digitsValue status, message)
    | _ => none
  | _ => none

/-- The stages of `Stage`; `get` returns no stage for `UNCOMPLETE_PHRASE`. -/
inductive Stage where
  | parseResponseLine
  | parseHeaders
  | parseContent
  | finished
deriving DecidableEq, Repr

/-- `HTTPResponseParser`; of the headers the last one added comes first. -/
structure HTTPResponseParser where
  buffer : List UInt8
  stage : Stage := .parseResponseLine
  protocol : Option (List UInt8) := none
  version : Option (List UInt8) := none
  status : Option ℕ := none
  message : Option (List UInt8) := none
  headers : List (List UInt8 × List UInt8) := []
  contentLength : ℕ := 0
  content : Option (List UInt8) := none
deriving DecidableEq, Repr

namespace HTTPResponseParser

/-- `HTTPResponseParser()` -/
def new : HTTPResponseParser := { buffer := [] }

/-- `feed` -/
def feed (p : HTTPResponseParser) (data : List UInt8) : HTTPResponseParser :=
  { p with buffer := p.buffer ++ data }

/-- `consume_by_delimiter` for one delimiter, `none` when the buffer has none. -/
def consumeByDelimiter (delimiter : List UInt8) (p : HTTPResponseParser) :
    Option (List UInt8 × HTTPResponseParser) :=
  (IOStream.splitAfter delimiter p.buffer).map fun found => (found.1, { p with buffer := found.2 })

/-- `consume` -/
def consume (num : ℕ) (p : HTTPResponseParser) : List UInt8 × HTTPResponseParser :=
  (p.buffer.take num, { p with buffer := p.buffer.drop num })

/-- `InvalidPacketError` -/
def invalidPacket (msg : String) : Exc := { cls := .invalidPacketError, msg := msg }

/-- `get` in the first stage, after it has consumed the response line. -/
def onResponseLine (p : HTTPResponseParser) (responseLine : List UInt8) :
    Except Exc (Option Stage) × HTTPResponseParser :=
  match HTTPUtility.parseResponseLine responseLine with
  | none => (.error (invalidPacket ("response line: " ++ text responseLine)), p)
  | some (protocol, version, status, message) =>
    (.ok (some .parseHeaders),
      { p with
        protocol := some protocol
        version := some version
        status := some status
        message := some message
        stage := .parseHeaders })

/-- `get` among the headers, after it has consumed one of them or the blank line. -/
def onHeader (p : HTTPResponseParser) (headerString : List UInt8) :
    Except Exc (Option Stage) × HTTPResponseParser :=
  if headerString = crlf then
    match p.headers.lookup (bytes "Content-Length") with
    | none => (.ok (some .finished), { p with stage := .finished })
    | some contentLengthString =>
      if isdigit contentLengthString then
        (.ok (some .parseContent),
          { p with contentLength := digitsValue contentLengthString, stage := .parseContent })
      else (.error (invalidPacket "invalid content length"), p)
  else
    match HTTPUtility.parseHeader headerString with
    | none => (.error (invalidPacket ("header string: " ++ text headerString)), p)
    | some pair => (.ok (some .parseHeaders), { p with headers := pair :: p.headers })

/-- `get`: the stage reached, `none` for `UNCOMPLETE_PHRASE`. -/
def get (p : HTTPResponseParser) : Except Exc (Option Stage) × HTTPResponseParser :=
  match p.stage with
  | .parseResponseLine =>
    match p.consumeByDelimiter crlf with
    | none => (.ok none, p)
    | some (responseLine, p) => p.onResponseLine responseLine
  | .parseHeaders =>
    match p.consumeByDelimiter crlf with
    | none => (.ok none, p)
    | some (headerString, p) => p.onHeader headerString
  | .parseContent =>
    if p.buffer.length < p.contentLength then (.ok none, p)
    else
      (.ok (some .finished),
        { (p.consume p.contentLength).2 with
          content := some (p.consume p.contentLength).1
          stage := .finished })
  | .finished => (.ok (some .finished), p)

/-- `is_finished` -/
def isFinished (p : HTTPResponseParser) : Bool := p.stage = .finished

/-- `reset_states`: the buffer stays. -/
def resetStates (p : HTTPResponseParser) : HTTPResponseParser := { buffer := p.buffer }

/-! ## What one phase does -/

@[simp] theorem feed_stage (p : HTTPResponseParser) (data : List UInt8) :
    (p.feed data).stage = p.stage := rfl

@[simp] theorem feed_buffer (p : HTTPResponseParser) (data : List UInt8) :
    (p.feed data).buffer = p.buffer ++ data := rfl

@[simp] theorem feed_contentLength (p : HTTPResponseParser) (data : List UInt8) :
    (p.feed data).contentLength = p.contentLength := rfl

/-- The response line is parsed without a look at the buffer. -/
theorem onResponseLine_feed (p : HTTPResponseParser) (line data : List UInt8) :
    (p.feed data).onResponseLine line =
      ((p.onResponseLine line).1, (p.onResponseLine line).2.feed data) := by
  unfold onResponseLine
  split <;> rfl

theorem onHeader_feed (p : HTTPResponseParser) (line data : List UInt8) :
    (p.feed data).onHeader line = ((p.onHeader line).1, (p.onHeader line).2.feed data) := by
  unfold onHeader
  split
  · show (match p.headers.lookup (bytes "Content-Length") with
      | none => _
      | some _ => _) = _
    split
    · rfl
    · split <;> rfl
  · split <;> rfl

/-- A delimiter that is in the buffer is there after more has been fed. -/
theorem consumeByDelimiter_feed {delimiter line : List UInt8} {p p' : HTTPResponseParser}
    (hd : delimiter ≠ []) (h : p.consumeByDelimiter delimiter = some (line, p'))
    (data : List UInt8) :
    (p.feed data).consumeByDelimiter delimiter = some (line, p'.feed data) := by
  obtain ⟨⟨l, rest⟩, hfound, heq⟩ := Option.map_eq_some_iff.mp h
  cases heq
  rw [consumeByDelimiter, feed_buffer, IOStream.splitAfter_append hd hfound]
  rfl

theorem crlf_ne_nil : crlf ≠ [] := by decide

theorem get_of_responseLine {p p' : HTTPResponseParser} {line : List UInt8}
    (hs : p.stage = .parseResponseLine) (h : p.consumeByDelimiter crlf = some (line, p')) :
    p.get = p'.onResponseLine line := by
  simp only [get, hs, h]

theorem get_of_header {p p' : HTTPResponseParser} {line : List UInt8}
    (hs : p.stage = .parseHeaders) (h : p.consumeByDelimiter crlf = some (line, p')) :
    p.get = p'.onHeader line := by
  simp only [get, hs, h]

theorem get_of_content {p : HTTPResponseParser} (hs : p.stage = .parseContent)
    (h : p.contentLength ≤ p.buffer.length) :
    p.get = (.ok (some .finished),
      { p with
        buffer := p.buffer.drop p.contentLength
        content := some (p.buffer.take p.contentLength)
        stage := .finished }) := by
  simp only [get, hs, if_neg (Nat.not_lt.mpr h)]
  rfl

/-- There is no line, or not all of the content. -/
theorem get_of_needMore {p : HTTPResponseParser}
    (h : p.stage = .parseResponseLine ∧ p.consumeByDelimiter crlf = none ∨
      p.stage = .parseHeaders ∧ p.consumeByDelimiter crlf = none ∨
      p.stage = .parseContent ∧ p.buffer.length < p.contentLength) : p.get = (.ok none, p) := by
  rcases h with ⟨hs, hnone⟩ | ⟨hs, hnone⟩ | ⟨hs, hlt⟩
  · simp only [get, hs, hnone]
  · simp only [get, hs, hnone]
  · simp only [get, hs, if_pos hlt]

/-- All that a phase can do before the response is finished. -/
theorem get_cases (p : HTTPResponseParser) (hstage : p.stage ≠ .finished) :
    p.get = (.ok none, p) ∨
    (∃ line p', p.consumeByDelimiter crlf = some (line, p') ∧
      (p.stage = .parseResponseLine ∧ p.get = p'.onResponseLine line ∨
        p.stage = .parseHeaders ∧ p.get = p'.onHeader line)) ∨
    (p.stage = .parseContent ∧ p.contentLength ≤ p.buffer.length) := by
  cases hs : p.stage with
  | parseResponseLine =>
      cases hline : p.consumeByDelimiter crlf with
      | none => exact Or.inl (get_of_needMore (Or.inl ⟨hs, hline⟩))
      | some found =>
          exact Or.inr (Or.inl ⟨found.1, found.2, rfl, Or.inl ⟨rfl, get_of_responseLine hs hline⟩⟩)
  | parseHeaders =>
      cases hline : p.consumeByDelimiter crlf with
      | none => exact Or.inl (get_of_needMore (Or.inr (Or.inl ⟨hs, hline⟩)))
      | some found =>
          exact Or.inr (Or.inl ⟨found.1, found.2, rfl, Or.inr ⟨rfl, get_of_header hs hline⟩⟩)
  | parseContent =>
      rcases Nat.lt_or_ge p.buffer.length p.contentLength with hlt | hle
      · exact Or.inl (get_of_needMore (Or.inr (Or.inr ⟨hs, hlt⟩)))
      · exact Or.inr (Or.inr ⟨rfl, hle⟩)
  | finished => exact absurd hs hstage

/-- A phase that has ended, or failed, has done so whatever is fed afterwards. -/
theorem get_feed {p p' : HTTPResponseParser} {r : Except Exc (Option Stage)} (h : p.get = (r, p'))
    (hr : r ≠ .ok none) (hstage : p.stage ≠ .finished) (data : List UInt8) :
    (p.feed data).get = (r, p'.feed data) := by
  rcases get_cases p hstage with hmore | ⟨line, q, hline, ⟨hs, hget⟩ | ⟨hs, hget⟩⟩ | ⟨hs, hle⟩
  · rw [h] at hmore
    cases hmore
    exact absurd rfl hr
  · rw [get_of_responseLine (p := p.feed data) hs (consumeByDelimiter_feed crlf_ne_nil hline data),
      onResponseLine_feed, ← hget, h]
  · rw [get_of_header (p := p.feed data) hs (consumeByDelimiter_feed crlf_ne_nil hline data),
      onHeader_feed, ← hget, h]
  · have hle' : (p.feed data).contentLength ≤ (p.feed data).buffer.length := by
      rw [feed_contentLength, feed_buffer, List.length_append]
      omega
    rw [get_of_content hs hle] at h
    cases h
    rw [get_of_content (p := p.feed data) hs hle', feed_buffer, feed_contentLength,
      List.drop_append_of_le_length hle, List.take_append_of_le_length hle]
    rfl

/-! ## What a phase leads to -/

/-- After a line the parser has raised, or it is in the stage that it reports. The rest of
the buffer is still there. -/
def LineOutcome (p : HTTPResponseParser)
    (phase : Except Exc (Option Stage) × HTTPResponseParser) : Prop :=
  (∃ msg, phase = (.error (invalidPacket msg), p)) ∨
    ∃ stage q, phase = (.ok (some stage), q) ∧ q.stage = stage ∧ q.buffer = p.buffer ∧
      q.content = p.content

theorem onResponseLine_outcome (p : HTTPResponseParser) (line : List UInt8) :
    LineOutcome p (p.onResponseLine line) := by
  unfold onResponseLine
  split
  · exact Or.inl ⟨_, rfl⟩
  · exact Or.inr ⟨_, _, rfl, rfl, rfl, rfl⟩

theorem onHeader_outcome {p : HTTPResponseParser} (hs : p.stage = .parseHeaders)
    (line : List UInt8) : LineOutcome p (p.onHeader line) := by
  unfold onHeader
  split
  · -- the blank line
    split
    · exact Or.inr ⟨_, _, rfl, rfl, rfl, rfl⟩
    · split
      · exact Or.inr ⟨_, _, rfl, rfl, rfl, rfl⟩
      · exact Or.inl ⟨_, rfl⟩
  · split
    · exact Or.inl ⟨_, rfl⟩
    · exact Or.inr ⟨_, _, rfl, hs, rfl, rfl⟩

/-- All that a phase can lead to before the response is finished. -/
theorem get_outcomes (p : HTTPResponseParser) (hstage : p.stage ≠ .finished) :
    p.get = (.ok none, p) ∨
    (∃ line q, p.consumeByDelimiter crlf = some (line, q) ∧ LineOutcome q p.get) ∨
    (p.stage = .parseContent ∧ p.contentLength ≤ p.buffer.length) := by
  rcases get_cases p hstage with hmore | ⟨line, q, hline, ⟨_, hget⟩ | ⟨hs, hget⟩⟩ | hcontent
  · exact Or.inl hmore
  · refine Or.inr (Or.inl ⟨line, q, hline, ?_⟩)
    rw [hget]
    exact onResponseLine_outcome q line
  · refine Or.inr (Or.inl ⟨line, q, hline, ?_⟩)
    have hq : q.stage = .parseHeaders := by
      obtain ⟨found, _, heq⟩ := Option.map_eq_some_iff.mp hline
      cases heq
      exact hs
    rw [hget]
    exact onHeader_outcome hq line
  · exact Or.inr (Or.inr hcontent)

theorem get_of_finished {p : HTTPResponseParser} (hs : p.stage = .finished) :
    p.get = (.ok (some .finished), p) := by
  simp only [get, hs]

/-- A phase that raises, or needs more input, is not that of a finished parser. -/
theorem unfinished_of_get {p p' : HTTPResponseParser} {r : Except Exc (Option Stage)}
    (h : p.get = (r, p')) (hr : r ≠ .ok (some .finished)) : p.stage ≠ .finished := by
  intro hs
  rw [get_of_finished hs] at h
  cases h
  exact hr rfl

/-- The stage a phase reports is the one it leaves the parser in. -/
theorem stage_of_get {p p' : HTTPResponseParser} {stage : Stage}
    (h : p.get = (.ok (some stage), p')) : p'.stage = stage := by
  by_cases hstage : p.stage = .finished
  · rw [get_of_finished hstage] at h
    cases h
    exact hstage
  · rcases get_outcomes p hstage with
      hmore | ⟨line, q, _, ⟨msg, hget⟩ | ⟨next, q', hget, hnext, _⟩⟩ | ⟨hs, hle⟩
    · rw [h] at hmore
      cases hmore
    · rw [h] at hget
      cases hget
    · rw [h] at hget
      cases hget
      exact hnext
    · rw [get_of_content hs hle] at h
      cases h
      rfl

/-- A phase that needs more input has changed nothing. -/
theorem eq_of_get_none {p p' : HTTPResponseParser} (h : p.get = (.ok none, p')) : p' = p := by
  rcases get_outcomes p (unfinished_of_get h nofun) with
    hmore | ⟨line, q, _, ⟨msg, hget⟩ | ⟨next, q', hget, _⟩⟩ | ⟨hs, hle⟩
  · rw [h] at hmore
    cases hmore
    rfl
  · rw [h] at hget
    cases hget
  · rw [h] at hget
    cases hget
  · rw [get_of_content hs hle] at h
    cases h

/-- A phase raises nothing but `InvalidPacketError`. -/
theorem invalidPacket_of_get {p p' : HTTPResponseParser} {ex : Exc}
    (h : p.get = (.error ex, p')) : ex.cls = .invalidPacketError := by
  rcases get_outcomes p (unfinished_of_get h nofun) with
    hmore | ⟨line, q, _, ⟨msg, hget⟩ | ⟨next, q', hget, _⟩⟩ | ⟨hs, hle⟩
  · rw [h] at hmore
    cases hmore
  · rw [h] at hget
    cases hget
    rfl
  · rw [h] at hget
    cases hget
  · rw [get_of_content hs hle] at h
    cases h

/-- A line is at least its delimiter. -/
theorem consumeByDelimiter_length {line : List UInt8} {p p' : HTTPResponseParser}
    (h : p.consumeByDelimiter crlf = some (line, p')) : p'.buffer.length + 2 ≤ p.buffer.length := by
  obtain ⟨⟨l, rest⟩, hfound, heq⟩ := Option.map_eq_some_iff.mp h
  cases heq
  obtain ⟨hsplit, hle⟩ := IOStream.splitAfter_some hfound
  have htwo : crlf.length = 2 := rfl
  rw [hsplit, List.length_append]
  show rest.length + 2 ≤ _
  omega

theorem consumeByDelimiter_content {line : List UInt8} {p p' : HTTPResponseParser}
    (h : p.consumeByDelimiter crlf = some (line, p')) : p'.content = p.content := by
  obtain ⟨found, _, heq⟩ := Option.map_eq_some_iff.mp h
  cases heq
  rfl

/-- A phase that leads to another one takes a line off the buffer. -/
theorem get_length {p p' : HTTPResponseParser} {stage : Stage}
    (h : p.get = (.ok (some stage), p')) (hstage : stage ≠ .finished) :
    p'.buffer.length < p.buffer.length := by
  have hbefore : p.stage ≠ .finished := unfinished_of_get h fun heq => by
    cases heq
    exact hstage rfl
  rcases get_outcomes p hbefore with
    hmore | ⟨line, q, hline, ⟨msg, hget⟩ | ⟨next, q', hget, _, hbuffer, _⟩⟩ | ⟨hs, hle⟩
  · rw [h] at hmore
    cases hmore
  · rw [h] at hget
    cases hget
  · rw [h] at hget
    cases hget
    have hlength := consumeByDelimiter_length hline
    rw [hbuffer]
    omega
  · rw [get_of_content hs hle] at h
    cases h
    exact absurd rfl hstage

/-- `auto_get`: phase after phase, until more input is needed or the response is
finished. -/
def autoGet (p : HTTPResponseParser) : Except Exc Unit × HTTPResponseParser :=
  match _h : p.get with
  | (.error ex, p') => (.error ex, p')
  | (.ok none, p') => (.ok (), p')
  | (.ok (some status), p') => if _hs : status = .finished then (.ok (), p') else autoGet p'
termination_by p.buffer.length
decreasing_by exact get_length _h _hs

/-- Neither does `auto_get`. -/
theorem invalidPacket_of_autoGet {p : HTTPResponseParser} {ex : Exc}
    (h : p.autoGet.1 = .error ex) : ex.cls = .invalidPacketError := by
  fun_induction autoGet p with
  | case1 p ex' p' hget =>
      cases h
      exact invalidPacket_of_get hget
  | case2 p p' hget => cases h
  | case3 p p' hget => cases h
  | case4 p status p' hget hstatus ih => exact ih h

/-! ## The parser as a consumer of bytes -/

/-- Whether a phase has ended or failed. -/
def phaseStep :
    Except Exc (Option Stage) × HTTPResponseParser → Option (Except Exc Unit × HTTPResponseParser)
  | (.error ex, p) => some (.error ex, p)
  | (.ok none, _) => none
  | (.ok (some _), p) => some (.ok (), p)

/-- A phase of a response that is not finished. -/
def step (p : HTTPResponseParser) : Option (Except Exc Unit × HTTPResponseParser) :=
  if p.stage = .finished then none else phaseStep p.get

/-- The parser, fed with bytes. -/
def responses : Incremental.Consumer HTTPResponseParser UInt8 Exc where
  step := step
  feed := feed
  feed_nil := by
    intro p
    simp [feed]
  feed_append := by
    intro p xs ys
    simp [feed]
  step_feed := by
    intro p r p' data h
    unfold step at h ⊢
    rw [feed_stage]
    split at h
    · cases h
    · rename_i hstage
      rw [if_neg hstage]
      cases hget : p.get with
      | mk outcome q =>
          rw [hget] at h
          rcases outcome with ex | _ | status
          · cases h
            rw [get_feed hget nofun hstage]
            rfl
          · cases h
          · cases h
            rw [get_feed hget nofun hstage]
            rfl

theorem feed_feed (p : HTTPResponseParser) (xs ys : List UInt8) :
    responses.feed (p.feed xs) ys = p.feed (xs ++ ys) := responses.feed_append p xs ys

theorem step_of_finished {p : HTTPResponseParser} (hs : p.stage = .finished) : p.step = none :=
  if_pos hs

theorem step_of_get {p p' : HTTPResponseParser} {r : Except Exc (Option Stage)}
    (h : p.get = (r, p')) (hs : p.stage ≠ .finished) : p.step = phaseStep (r, p') := by
  rw [step, if_neg hs, h]

/-- `auto_get` makes steps until there is none. -/
theorem autoGet_drains (p : HTTPResponseParser) : responses.Drains p p.autoGet.1 p.autoGet.2 := by
  fun_induction autoGet p with
  | case1 p ex p' hget =>
      exact Incremental.Consumer.Drains.fail (step_of_get hget (unfinished_of_get hget nofun))
  | case2 p p' hget =>
      have hstep := step_of_get hget (unfinished_of_get hget nofun)
      rw [eq_of_get_none hget]
      exact Incremental.Consumer.Drains.stop hstep
  | case3 p p' hget =>
      by_cases hs : p.stage = .finished
      · rw [get_of_finished hs] at hget
        cases hget
        exact Incremental.Consumer.Drains.stop (step_of_finished hs)
      · exact Incremental.Consumer.Drains.step (step_of_get hget hs)
          (Incremental.Consumer.Drains.stop (step_of_finished (stage_of_get hget)))
  | case4 p status p' hget hstatus ih =>
      have hs : p.stage ≠ .finished := unfinished_of_get hget fun heq => by
        cases heq
        exact hstatus rfl
      exact Incremental.Consumer.Drains.step (step_of_get hget hs) ih

/-- Whatever drains the parser is what `auto_get` does. -/
theorem autoGet_of_drains {p p' : HTTPResponseParser} {r : Except Exc Unit}
    (h : responses.Drains p r p') : p.autoGet = (r, p') := by
  obtain ⟨hr, hp⟩ := (autoGet_drains p).unique h
  exact Prod.ext hr hp

/-! ## What a response is made of -/

/-- The bytes a parser has: those of its buffer, those of the content, and at least a
line break once it has left its first stage. -/
def weight (p : HTTPResponseParser) : ℕ :=
  p.buffer.length + (p.content.getD []).length + if p.stage = .parseResponseLine then 0 else 2

theorem weight_le (p : HTTPResponseParser) :
    p.weight ≤ p.buffer.length + (p.content.getD []).length + 2 := by
  unfold weight
  split <;> omega

/-- No phase makes bytes. -/
theorem weight_step {p p' : HTTPResponseParser} {r : Except Exc Unit}
    (h : p.step = some (r, p')) : p'.weight ≤ p.weight := by
  have hstage : p.stage ≠ .finished := by
    intro hs
    rw [step_of_finished hs] at h
    cases h
  -- the parser after the step is the one `get` leaves
  have hafter : ∀ phase, p.get = phase → p' = phase.2 := by
    rintro ⟨outcome, q⟩ hget
    rw [step_of_get hget hstage] at h
    rcases outcome with ex | _ | status
    · cases h
      rfl
    · cases h
    · cases h
      rfl
  have hle := weight_le p'
  rcases get_outcomes p hstage with hmore | ⟨line, q, hline, houtcome⟩ | ⟨hs, hlength⟩
  · rw [hafter _ hmore]
  · -- the line pays for having left the first stage
    have hlength := consumeByDelimiter_length hline
    have hcontent := consumeByDelimiter_content hline
    have hsame : p'.buffer = q.buffer ∧ p'.content = q.content := by
      rcases houtcome with ⟨msg, hget⟩ | ⟨next, q', hget, _, hbuffer, hcontent'⟩
      · rw [hafter _ hget]
        exact ⟨rfl, rfl⟩
      · rw [hafter _ hget]
        exact ⟨hbuffer, hcontent'⟩
    rw [hsame.1, hsame.2, hcontent] at hle
    unfold weight at hle ⊢
    omega
  · -- what leaves the buffer is the content
    rw [hafter _ (get_of_content hs hlength)]
    simp only [weight, hs, List.length_drop, List.length_take, Option.getD_some]
    simp only [reduceCtorEq, if_false]
    omega

/-! ## Chunks -/

/-- The chunks are fed one by one, with `auto_get` after each, up to the first
exception. -/
def feedChunks (p : HTTPResponseParser) : List (List UInt8) → Except Exc Unit × HTTPResponseParser
  | [] => (.ok (), p)
  | data :: chunks =>
    match (p.feed data).autoGet with
    | (.error ex, p') => (.error ex, p')
    | (.ok (), p') => feedChunks p' chunks

theorem feedChunks_chunked (p : HTTPResponseParser) (chunks : List (List UInt8)) :
    responses.Chunked p chunks (p.feedChunks chunks).1 (p.feedChunks chunks).2 := by
  induction chunks generalizing p with
  | nil => exact Incremental.Consumer.Chunked.nil
  | cons data chunks ih =>
      have hdrains := autoGet_drains (p.feed data)
      unfold feedChunks
      cases hget : (p.feed data).autoGet with
      | mk r p' =>
          rw [hget] at hdrains
          cases r with
          | error ex => exact Incremental.Consumer.Chunked.fail hdrains
          | ok _ => exact Incremental.Consumer.Chunked.cons hdrains (ih p')

/-- Chunks or one feed, from a parser that needs input: the same exception, if any, and
otherwise the same parser. -/
theorem feedChunks_eq {p : HTTPResponseParser} (hp : p.step = none) (chunks : List (List UInt8)) :
    (p.feed chunks.flatten).autoGet.1 = (p.feedChunks chunks).1 ∧
      ((p.feedChunks chunks).1 = .ok () →
        (p.feed chunks.flatten).autoGet.2 = (p.feedChunks chunks).2) := by
  obtain ⟨rest, hdrains, hnil⟩ := (feedChunks_chunked p chunks).drains hp
  have hget := autoGet_of_drains hdrains
  refine ⟨(Prod.ext_iff.mp hget).1, ?_⟩
  intro hok
  rw [hnil hok, responses.feed_nil] at hget
  exact (Prod.ext_iff.mp hget).2

end HTTPResponseParser

end SummerRpc
