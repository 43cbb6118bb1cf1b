import SummerRpc.Transport.Strings

/-! # The head of a request

What `HTTPTransport.read` takes off the stream before the body, line by line.

* `IsLine`, `fields`: the lines of a head, and the headers they make;
* `readHead_of_head`, `head_of_readHead`: the head is read just when it is there, is within
  the limits, and has fewer header lines than `max_header_count`.
-/

namespace SummerRpc

/-! ## Lines -/

/-- What is found ends with the first delimiter in it. -/
theorem IOStream.splitAfter_self {delimiter input line rest : List UInt8}
    (h : splitAfter delimiter input = some (line, rest)) :
    splitAfter delimiter line = some (line, []) := by
  induction input generalizing line with
  | nil =>
      unfold splitAfter at h
      split at h
      · rename_i hnil
        cases h
        rw [splitAfter, if_pos hnil]
      · cases h
  | cons b bs ih =>
      unfold splitAfter at h
      split at h
      · rename_i hpre
        cases h
        rw [← List.prefix_iff_eq_take.mp (List.isPrefixOf_iff_prefix.mp hpre)]
        cases delimiter with
        | nil => rfl
        | cons d ds =>
            have hself : (d :: ds).isPrefixOf (d :: ds) = true :=
              List.isPrefixOf_iff_prefix.mpr (List.prefix_refl _)
            rw [splitAfter, if_pos hself, List.take_length, List.drop_length]
      · rename_i hpre
        obtain ⟨⟨l, r⟩, hfound, heq⟩ := Option.map_eq_some_iff.mp h
        cases heq
        obtain ⟨hsplit, _⟩ := splitAfter_some hfound
        have hfront : ¬ delimiter.isPrefixOf (b :: l) = true := by
          intro hshort
          apply hpre
          rw [hsplit, ← List.cons_append]
          exact List.isPrefixOf_iff_prefix.mpr
            ((List.isPrefixOf_iff_prefix.mp hshort).trans (List.prefix_append _ _))
        rw [splitAfter, if_neg hfront, ih hfound]
        rfl

namespace HTTPTransport

/-- A line, with its line break and no other one before it. -/
def IsLine (line : List UInt8) : Prop := IOStream.splitAfter crlf line = some (line, [])

instance (line : List UInt8) : Decidable (IsLine line) :=
  inferInstanceAs (Decidable (_ = _))

theorem isLine_crlf : IsLine crlf := by decide

theorem isLine_concat {line : List UInt8} (h : 13 ∉ line) : IsLine (line ++ crlf) := by
  have hfound := splitAfter_crlf h []
  rwa [List.append_nil] at hfound

/-- A line at the front of the stream is what is found there. -/
theorem IsLine.splitAfter_append {line : List UInt8} (h : IsLine line) (rest : List UInt8) :
    IOStream.splitAfter crlf (line ++ rest) = some (line, rest) :=
  IOStream.splitAfter_append (by decide) h rest

theorem IsLine.takeUntil {line : List UInt8} (h : IsLine line) {maxBytes : ℕ}
    (hlength : line.length ≤ maxBytes) (rest : List UInt8) :
    IOStream.takeUntil crlf maxBytes (line ++ rest) = .ok line rest := by
  rw [IOStream.takeUntil, h.splitAfter_append]
  exact if_pos hlength

theorem takeUntil_ok {input line rest : List UInt8} {maxBytes : ℕ}
    (h : IOStream.takeUntil crlf maxBytes input = .ok line rest) :
    IsLine line ∧ line.length ≤ maxBytes ∧ input = line ++ rest := by
  unfold IOStream.takeUntil at h
  split at h
  · rename_i hfound
    split at h
    · rename_i hle
      cases h
      exact ⟨IOStream.splitAfter_self hfound, hle, (IOStream.splitAfter_some hfound).1⟩
    · cases h
  · split at h <;> cases h

/-! ## The head -/

/-- The headers that some lines make, the last one first. A line that is no header makes
none. -/
def fields (lines : List (List UInt8)) : List (List UInt8 × List UInt8) :=
  (lines.filterMap HTTPUtility.parseHeader).reverse

theorem fields_cons_append (line : List UInt8) (lines : List (List UInt8))
    (headers : List (List UInt8 × List UInt8)) :
    fields (line :: lines) ++ headers =
      fields lines ++ ((HTTPUtility.parseHeader line).toList ++ headers) := by
  unfold fields
  cases h : HTTPUtility.parseHeader line with
  | none => rw [List.filterMap_cons_none h, Option.toList_none, List.nil_append]
  | some pair =>
      rw [List.filterMap_cons_some h, List.reverse_cons, List.append_assoc, Option.toList_some]

/-- A header line: it is within the limit, and not blank. -/
structure IsHeaderLine (limits : Limits) (line : List UInt8) : Prop where
  isLine : IsLine line
  ne_blank : line ≠ crlf
  length_le : line.length ≤ limits.maxHeaderLength

/-- The request line, and the header lines before the blank line. -/
structure IsHead (limits : Limits) (requestLine : List UInt8) (lines : List (List UInt8)) :
    Prop where
  isLine : IsLine requestLine
  length_le : requestLine.length ≤ limits.maxRequestLineLength
  parsed : (HTTPUtility.parseRequestLine requestLine).isSome = true
  lines : ∀ line ∈ lines, IsHeaderLine limits line
  blank : crlf.length ≤ limits.maxHeaderLength

section Head

variable {limits : Limits} {requestLine rest : List UInt8} {lines : List (List UInt8)}

/-- A round of the loop that reads a header. -/
theorem readHeaders_line {line : List UInt8} (h : IsHeaderLine limits line) (count : ℕ)
    (headers : List (List UInt8 × List UInt8)) (rest : List UInt8) :
    readHeaders limits .unbounded (count + 1) headers (line ++ rest) =
      readHeaders limits .unbounded count ((HTTPUtility.parseHeader line).toList ++ headers)
        rest := by
  rw [readHeaders, StreamRead.bind_apply, IOStream.unbounded_readUntil,
    h.isLine.takeUntil h.length_le]
  simp only [if_neg h.ne_blank]
  cases HTTPUtility.parseHeader line with
  | none => rfl
  | some pair => rfl

/-- A round that reads the blank line. -/
theorem readHeaders_end (hblank : crlf.length ≤ limits.maxHeaderLength) (count : ℕ)
    (headers : List (List UInt8 × List UInt8)) (rest : List UInt8) :
    readHeaders limits .unbounded (count + 1) headers (crlf ++ rest) = .ok headers rest := by
  rw [readHeaders, StreamRead.bind_apply, IOStream.unbounded_readUntil,
    isLine_crlf.takeUntil hblank]
  simp only [if_true]
  rfl

/-- The loop needs a round for each header line and one for the blank line. -/
theorem readHeaders_lines (hblank : crlf.length ≤ limits.maxHeaderLength)
    (hlines : ∀ line ∈ lines, IsHeaderLine limits line) (count : ℕ)
    (headers : List (List UInt8 × List UInt8)) (rest : List UInt8) :
    readHeaders limits .unbounded count headers (lines.flatten ++ (crlf ++ rest)) =
      if lines.length < count then .ok (fields lines ++ headers) rest
      else .raised unsatisfiable := by
  induction lines generalizing count headers with
  | nil =>
      cases count with
      | zero => rfl
      | succ count =>
          exact (readHeaders_end hblank count headers rest).trans (if_pos (Nat.succ_pos count)).symm
  | cons line lines ih =>
      cases count with
      | zero =>
          rw [if_neg (Nat.not_lt_zero _)]
          rfl
      | succ count =>
          rw [List.flatten_cons, List.append_assoc, readHeaders_line (hlines line List.mem_cons_self),
            ih (fun l hl => hlines l (List.mem_cons_of_mem _ hl)), fields_cons_append]
          simp only [List.length_cons, Nat.succ_lt_succ_iff]

/-- Whatever the loop has returned from, it has read such lines. -/
theorem lines_of_readHeaders {count : ℕ} {headers result : List (List UInt8 × List UInt8)}
    {input : List UInt8} (h : readHeaders limits .unbounded count headers input = .ok result rest) :
    ∃ lines, (∀ line ∈ lines, IsHeaderLine limits line) ∧ lines.length < count ∧
      crlf.length ≤ limits.maxHeaderLength ∧ input = lines.flatten ++ (crlf ++ rest) ∧
      result = fields lines ++ headers := by
  induction count generalizing headers input with
  | zero => cases h
  | succ count ih =>
      rw [readHeaders, StreamRead.bind_apply, IOStream.unbounded_readUntil] at h
      cases hread : IOStream.takeUntil crlf limits.maxHeaderLength input with
      | needMore =>
          rw [hread] at h
          cases h
      | raised ex =>
          rw [hread] at h
          cases h
      | ok line input' =>
          obtain ⟨hline, hlength, hinput⟩ := takeUntil_ok hread
          rw [hread] at h
          by_cases hblank : line = crlf
          · simp only [if_pos hblank] at h
            cases h
            subst hblank
            exact ⟨[], fun _ hmem => absurd hmem List.not_mem_nil, Nat.succ_pos _, hlength,
              hinput, rfl⟩
          · have hheader : IsHeaderLine limits line := ⟨hline, hblank, hlength⟩
            have hnext : readHeaders limits .unbounded count
                ((HTTPUtility.parseHeader line).toList ++ headers) input' = .ok result rest := by
              rw [← h, ← readHeaders_line hheader, ← hinput, readHeaders, StreamRead.bind_apply,
                IOStream.unbounded_readUntil, hread]
            obtain ⟨lines, hlines, hcount, hlimit, hrest, hresult⟩ := ih hnext
            refine ⟨line :: lines, ?_, Nat.succ_lt_succ hcount, hlimit, ?_, ?_⟩
            · exact List.forall_mem_cons.mpr ⟨hheader, hlines⟩
            · rw [hinput, hrest, List.flatten_cons, List.append_assoc]
            · rw [hresult, fields_cons_append]

/-- A head is read, unless it has too many lines. -/
theorem readHead_of_head (h : IsHead limits requestLine lines) (rest : List UInt8) :
    readHead limits .unbounded (requestLine ++ (lines.flatten ++ (crlf ++ rest))) =
      if lines.length < limits.maxHeaderCount then .ok (fields lines) rest
      else .raised unsatisfiable := by
  obtain ⟨parsed, hparsed⟩ := Option.isSome_iff_exists.mp h.parsed
  have hheaders := readHeaders_lines h.blank h.lines limits.maxHeaderCount [] rest
  rw [List.append_nil] at hheaders
  rw [readHead, StreamRead.bind_apply, IOStream.unbounded_readUntil, h.isLine.takeUntil h.length_le]
  simp only [hparsed]
  exact hheaders

/-- What has been read was a head. -/
theorem head_of_readHead {input : List UInt8} {headers : List (List UInt8 × List UInt8)}
    (h : readHead limits .unbounded input = .ok headers rest) :
    ∃ requestLine lines, IsHead limits requestLine lines ∧
      lines.length < limits.maxHeaderCount ∧
      input = requestLine ++ (lines.flatten ++ (crlf ++ rest)) ∧ headers = fields lines := by
  rw [readHead, StreamRead.bind_apply, IOStream.unbounded_readUntil] at h
  cases hread : IOStream.takeUntil crlf limits.maxRequestLineLength input with
  | needMore =>
      rw [hread] at h
      cases h
  | raised ex =>
      rw [hread] at h
      cases h
  | ok requestLine input' =>
      obtain ⟨hline, hlength, hinput⟩ := takeUntil_ok hread
      rw [hread] at h
      cases hparsed : HTTPUtility.parseRequestLine requestLine with
      | none =>
          simp only [hparsed] at h
          cases h
      | some parsed =>
          simp only [hparsed] at h
          obtain ⟨lines, hlines, hcount, hlimit, hrest, hheaders⟩ := lines_of_readHeaders h
          refine ⟨requestLine, lines, ⟨hline, hlength, ?_, hlines, hlimit⟩, hcount, ?_, ?_⟩
          · rw [hparsed]
            rfl
          · rw [hinput, hrest]
          · rw [hheaders, List.append_nil]

end Head

end HTTPTransport

end SummerRpc
