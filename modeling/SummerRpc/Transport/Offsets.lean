import SummerRpc.Transport.Responses

/-! # Parts of packets

What a new parser makes of a packet of which the last bytes are still to come, and of
packets of which it is not fed the first bytes.

* `ok_of_prefix`, `unfinished_of_prefix`, `eq_of_whole`: it neither raises nor finishes
  before it has the whole packet;
* `NoResponse`: lines no part of which is a response line, and `packet_lines`: the head of
  a packet consists of such lines as soon as its first byte is gone;
* `inside_raises`: from inside the head the parser raises;
* `content_length`: from anywhere else it takes the bytes of a body and more.
-/

namespace SummerRpc

/-! ## Words -/

/-- White space before the words makes no difference. -/
theorem words_cons {b : UInt8} (hb : isSpace b = true) (s : List UInt8) :
    words (b :: s) = words s := by
  rw [words, List.splitOnP_cons_eq_if_modifyHead, if_pos hb]
  exact List.filter_cons_of_neg (by simp)

theorem splitOnP_length (s : List UInt8) : (s.splitOnP isSpace).length = s.countP isSpace + 1 := by
  induction s with
  | nil => rfl
  | cons b s ih =>
      rw [List.splitOnP_cons_eq_if_modifyHead]
      by_cases hb : isSpace b = true
      · rw [if_pos hb, List.length_cons, ih, List.countP_cons_of_pos hb]
      · rw [if_neg hb, List.length_modifyHead, ih, List.countP_cons_of_neg hb]

/-- There is at most one word more than white space. -/
theorem words_length (s : List UInt8) : (words s).length ≤ s.countP isSpace + 1 := by
  rw [← splitOnP_length]
  exact List.length_filter_le _ _

/-- A response line has three words. -/
theorem parseResponseLine_none {line : List UInt8} (h : line.countP isSpace ≤ 1) :
    HTTPUtility.parseResponseLine (line ++ crlf) = none := by
  have hlength := words_length line
  unfold HTTPUtility.parseResponseLine
  rw [withoutCrlf_crlf]
  split
  · rename_i hwords
    rw [hwords] at hlength
    simp only [List.length_cons, List.length_nil] at hlength
    omega
  · rfl

theorem parseResponseLine_cons {b : UInt8} (hb : isSpace b = true) (line : List UInt8) :
    HTTPUtility.parseResponseLine (b :: line ++ crlf) =
      HTTPUtility.parseResponseLine (line ++ crlf) := by
  unfold HTTPUtility.parseResponseLine
  rw [withoutCrlf_crlf, withoutCrlf_crlf, words_cons hb]

namespace HTTPResponseParser

open HTTPTransport Incremental.Consumer

/-! ## Lines that are no response lines -/

/-- A line that is no response line, whatever is missing of its front. -/
def NoResponse (line : List UInt8) : Prop :=
  13 ∉ line ∧ ∀ j, HTTPUtility.parseResponseLine (line.drop j ++ crlf) = none

theorem noResponse_field {name value : List UInt8} (hname : ∀ b ∈ name, isSpace b = false)
    (hvalue : ∀ b ∈ value, isSpace b = false) : NoResponse (field name value) := by
  refine ⟨notMem_field (fun hmem => absurd (hname 13 hmem) (by decide)) hvalue, ?_⟩
  intro j
  have hzero : ∀ s : List UInt8, (∀ b ∈ s, isSpace b = false) → s.countP isSpace = 0 := by
    intro s hs
    exact List.countP_eq_zero.mpr fun b hb => by simp [hs b hb]
  have hcount : (field name value).countP isSpace = 1 := by
    rw [field, List.countP_append, List.countP_cons_of_neg (by decide),
      List.countP_cons_of_pos (by decide), hzero name hname, hzero value hvalue]
  have hdrop : ((field name value).drop j).countP isSpace ≤ _ :=
    (List.drop_sublist j (field name value)).countP_le
  exact parseResponseLine_none (by omega)

theorem noResponse_nil : NoResponse [] := by
  refine ⟨List.not_mem_nil, ?_⟩
  intro j
  rw [List.drop_nil]
  decide

/-- The response line of a packet without its first byte. -/
theorem noResponse_protocol : NoResponse (bytes "TTP/1.1 200 OK") := by
  have hshort : ∀ j < 14,
      HTTPUtility.parseResponseLine ((bytes "TTP/1.1 200 OK").drop j ++ crlf) = none := by decide
  refine ⟨by decide, ?_⟩
  intro j
  rcases Nat.lt_or_ge j 14 with hlt | hge
  · exact hshort j hlt
  · rw [List.drop_eq_nil_of_le hge]
    decide

/-- The first line is no response line. -/
def StartsBadly (s : List UInt8) : Prop :=
  ∃ line rest, s = line ++ (crlf ++ rest) ∧ 13 ∉ line ∧
    HTTPUtility.parseResponseLine (line ++ crlf) = none

/-- A new parser raises then. -/
theorem StartsBadly.raises {s : List UInt8} (h : StartsBadly s) :
    ∃ ex p, responses.Drains (new.feed s) (.error ex) p := by
  obtain ⟨line, rest, rfl, hline, hparsed⟩ := h
  have hget := get_of_responseLine (p := new.feed (line ++ (crlf ++ rest))) rfl
    (consume_line rfl hline)
  rw [onResponseLine, hparsed] at hget
  refine ⟨_, _, Drains.fail (step_of_get hget ?_)⟩
  intro hstage
  cases hstage

/-- From inside of lines that are no response lines, up to the front of the last line
break. -/
theorem startsBadly_drop (tail : List UInt8) :
    ∀ (lines : List (List UInt8)) (j : ℕ), (∀ line ∈ lines, NoResponse line) →
      j + 2 ≤ (lines.flatMap (· ++ crlf)).length →
        StartsBadly ((lines.flatMap (· ++ crlf) ++ tail).drop j) := by
  intro lines
  induction lines with
  | nil =>
      intro j _ hj
      rw [List.flatMap_nil, List.length_nil] at hj
      omega
  | cons line lines ih =>
      intro j hlines hj
      obtain ⟨hbreak, hparsed⟩ := hlines line List.mem_cons_self
      have hstream : (line :: lines).flatMap (· ++ crlf) ++ tail =
          line ++ (crlf ++ (lines.flatMap (· ++ crlf) ++ tail)) := by
        simp only [List.flatMap_cons, List.append_assoc]
      have hlength : ((line :: lines).flatMap (· ++ crlf)).length =
          line.length + 2 + (lines.flatMap (· ++ crlf)).length := by
        rw [List.flatMap_cons, List.length_append, List.length_append]
        rfl
      rw [hlength] at hj
      rw [hstream]
      rcases Nat.lt_or_ge line.length j with hlt | hle
      · rw [List.drop_append, List.drop_eq_nil_of_le (Nat.le_of_lt hlt), List.nil_append]
        obtain ⟨i, hi⟩ := Nat.exists_eq_add_of_lt hlt
        have hsub : j - line.length = i + 1 := by omega
        rw [hsub]
        cases i with
        | zero =>
            -- only the '\n' of the line break is left; it is white space before the next line
            cases lines with
            | nil =>
                rw [List.flatMap_nil, List.length_nil] at hj
                omega
            | cons next lines =>
                obtain ⟨hbreak', hparsed'⟩ :=
                  hlines next (List.mem_cons_of_mem _ List.mem_cons_self)
                refine ⟨10 :: next, lines.flatMap (· ++ crlf) ++ tail, ?_, ?_, ?_⟩
                · simp only [List.flatMap_cons, List.append_assoc]
                  rfl
                · rw [List.mem_cons, not_or]
                  exact ⟨by decide, hbreak'⟩
                · rw [parseResponseLine_cons (by decide)]
                  exact hparsed' 0
        | succ i =>
            have hdrop : (crlf ++ (lines.flatMap (· ++ crlf) ++ tail)).drop (i + 1 + 1) =
                (lines.flatMap (· ++ crlf) ++ tail).drop i := rfl
            rw [hdrop]
            exact ih i (fun l hl => hlines l (List.mem_cons_of_mem _ hl)) (by omega)
      · rw [List.drop_append_of_le_length hle]
        exact ⟨line.drop j, _, rfl, fun hmem => hbreak (List.mem_of_mem_drop hmem), hparsed j⟩

/-! ## The front of a packet -/

section Front

variable {transactionId : ℕ} {buff s t : List UInt8} {p : HTTPResponseParser}

/-- As long as it has not been fed more than packets, the parser raises nothing. -/
theorem ok_of_prefix {rest : List UInt8} {r : Except Exc Unit}
    (hparts : s ++ t = generatePacket transactionId buff ++ rest)
    (h : responses.Drains (new.feed s) r p) : r = .ok () := by
  cases r with
  | ok _ => rfl
  | error ex =>
      have hall := h.feed_error rfl t
      rw [feed_feed, hparts] at hall
      cases (hall.unique (packet_drains transactionId buff rest)).1

/-- A finished parser makes no step, whatever it is fed. -/
theorem drains_of_finished (hfinished : p.isFinished = true) (data : List UInt8) :
    responses.Drains (p.feed data) (.ok ()) (p.feed data) :=
  Drains.stop (step_of_finished (p := p.feed data) (of_decide_eq_true hfinished))

/-- It is not finished before the last byte has come. -/
theorem unfinished_of_prefix (hparts : s ++ t = generatePacket transactionId buff) (ht : t ≠ [])
    (h : responses.Drains (new.feed s) (.ok ()) p) : ¬ p.isFinished = true := by
  intro hfinished
  have hall := packet_drains transactionId buff []
  rw [List.append_nil, ← hparts, ← feed_feed] at hall
  -- the bytes to come are still in the buffer, but those of a packet are all used up
  have hbuffer := congrArg buffer ((drains_of_finished hfinished t).unique (h.feed_inv hall)).2
  exact ht (List.append_eq_nil_iff.mp hbuffer).2

/-- With the whole packet it is, and what has come after it is in the buffer. -/
theorem eq_of_whole (hparts : s = generatePacket transactionId buff ++ t)
    (h : responses.Drains (new.feed s) (.ok ()) p) : p = finishedWith transactionId buff t := by
  rw [hparts] at h
  exact (h.unique (packet_drains transactionId buff t)).2

end Front

/-! ## A packet without its front -/

/-- The lines of the head of a packet without its first byte. -/
def headLines (transactionId : ℕ) (buff : List UInt8) : List (List UInt8) :=
  [bytes "TTP/1.1 200 OK", field (bytes "Transaction-Id") (decimal transactionId),
    field (bytes "Content-Length") (decimal buff.length), []]

theorem noResponse_headLines (transactionId : ℕ) (buff : List UInt8) :
    ∀ line ∈ headLines transactionId buff, NoResponse line := by
  simp only [headLines, List.mem_cons, List.not_mem_nil, or_false]
  rintro line (rfl | rfl | rfl | rfl)
  · exact noResponse_protocol
  · exact noResponse_field (noSpace_of_all (by decide)) (noSpace_decimal _)
  · exact noResponse_field (noSpace_of_all (by decide)) (noSpace_decimal _)
  · exact noResponse_nil

/-- A packet is one byte, those lines and the body. -/
theorem packet_lines (transactionId : ℕ) (buff rest : List UInt8) :
    generatePacket transactionId buff ++ rest =
      72 :: ((headLines transactionId buff).flatMap (· ++ crlf) ++ (buff ++ rest)) := by
  have hfirst : bytes "HTTP/1.1 200 OK" = 72 :: bytes "TTP/1.1 200 OK" := by decide
  rw [generatePacket_append, hfirst]
  simp only [headLines, List.flatMap_cons, List.flatMap_nil, List.append_assoc, List.nil_append,
    List.append_nil, List.cons_append]

theorem packet_length (transactionId : ℕ) (buff : List UInt8) :
    (generatePacket transactionId buff).length =
      1 + ((headLines transactionId buff).flatMap (· ++ crlf)).length + buff.length := by
  have hpacket := congrArg List.length (packet_lines transactionId buff [])
  simp only [List.append_nil, List.length_cons, List.length_append] at hpacket
  omega

/-- From inside the head of a packet a new parser raises. The body and the last byte of
the head are not inside. -/
theorem inside_raises {transactionId j : ℕ} {buff : List UInt8} (rest : List UInt8) (hj : 0 < j)
    (hle : j + buff.length + 2 ≤ (generatePacket transactionId buff).length) :
    ∃ ex p, responses.Drains (new.feed ((generatePacket transactionId buff ++ rest).drop j))
      (.error ex) p := by
  obtain ⟨i, rfl⟩ := Nat.exists_eq_add_of_lt hj
  rw [packet_length] at hle
  rw [packet_lines, Nat.zero_add, List.drop_succ_cons]
  exact (startsBadly_drop _ _ i (noResponse_headLines transactionId buff) (by omega)).raises

/-- A response that is finished has taken its content and two bytes at least. -/
theorem content_length {s content : List UInt8} {p : HTTPResponseParser} {r : Except Exc Unit}
    (h : responses.Drains (new.feed s) r p) (hfinished : p.isFinished = true)
    (hcontent : p.content = some content) : p.buffer.length + content.length + 2 ≤ s.length := by
  have hle : p.weight ≤ (new.feed s).weight :=
    h.invariant (P := fun q => q.weight ≤ (new.feed s).weight)
      (fun _ _ _ hstep hle => Nat.le_trans (weight_step hstep) hle) (Nat.le_refl _)
  have hnew : (new.feed s).weight = s.length := rfl
  rw [hnew, weight_of_finished hfinished, hcontent] at hle
  exact hle

end HTTPResponseParser

end SummerRpc
