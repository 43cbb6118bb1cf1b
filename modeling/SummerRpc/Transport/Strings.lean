import SummerRpc.Transport.Http

/-! # Lines, header fields and numbers

What the string functions of the HTTP transports make of the strings that the
transports themselves write.

* `splitAfter_crlf`, `withoutCrlf_crlf`: lines;
* `parseHeader_field`: header fields;
* `isdigit_decimal`, `digitsValue_decimal`, `intLiteral_decimal`: numbers in decimal.
-/

namespace SummerRpc

/-! ## Lines and fields -/

/-- A line without `'\r'` in it ends at the first `"\r\n"`. -/
theorem splitAfter_crlf {line : List UInt8} (h : 13 ∉ line) (rest : List UInt8) :
    IOStream.splitAfter crlf (line ++ (crlf ++ rest)) = some (line ++ crlf, rest) := by
  induction line with
  | nil => rfl
  | cons b line ih =>
      rw [List.mem_cons, not_or] at h
      have hpre : ¬ crlf.isPrefixOf (b :: (line ++ (crlf ++ rest))) = true := by
        intro hfront
        obtain ⟨more, heq⟩ := List.isPrefixOf_iff_prefix.mp hfront
        exact h.1 (List.cons.inj heq).1
      rw [List.cons_append, IOStream.splitAfter, if_neg hpre, ih h.2]
      rfl

theorem withoutCrlf_crlf (line : List UInt8) : withoutCrlf (line ++ crlf) = line := by
  have hsuffix : crlf.isSuffixOf (line ++ crlf) = true :=
    List.isSuffixOf_iff_suffix.mpr (List.suffix_append line crlf)
  have hlength : (line ++ crlf).length - 2 = line.length := by
    rw [List.length_append]
    rfl
  rw [withoutCrlf, if_pos hsuffix, hlength, List.take_left]

theorem splitOnce_cons {separator : UInt8} {name : List UInt8} (h : separator ∉ name)
    (rest : List UInt8) : splitOnce separator (name ++ separator :: rest) = some (name, rest) := by
  induction name with
  | nil => exact if_pos rfl
  | cons b name ih =>
      rw [List.mem_cons, not_or] at h
      rw [List.cons_append, splitOnce, if_neg (fun heq => h.1 heq.symm), ih h.2]
      rfl

/-- White space is stripped off the front. -/
theorem strip_cons {b : UInt8} (hb : isSpace b = true) (s : List UInt8) :
    strip (b :: s) = strip s := by
  rw [strip, List.dropWhile_cons_of_pos hb, strip]

theorem noSpace_of_all {s : List UInt8} (h : s.all (fun b => !isSpace b) = true) :
    ∀ b ∈ s, isSpace b = false := by
  intro b hb
  simpa using List.all_eq_true.mp h b hb

/-- There is nothing to strip where there is no white space. -/
theorem strip_of_noSpace {s : List UInt8} (h : ∀ b ∈ s, isSpace b = false) : strip s = s := by
  have hdrop : ∀ t : List UInt8, (∀ b ∈ t, isSpace b = false) → t.dropWhile isSpace = t := by
    intro t ht
    cases t with
    | nil => rfl
    | cons b t => exact List.dropWhile_cons_of_neg (by simp [ht b List.mem_cons_self])
  rw [strip, hdrop s h, hdrop s.reverse fun b hb => h b (List.mem_reverse.mp hb),
    List.reverse_reverse]

/-- A header field, with one space before the value. -/
theorem parseHeader_field {name value : List UInt8} (hname : ∀ b ∈ name, isSpace b = false)
    (hcolon : 58 ∉ name) (hvalue : ∀ b ∈ value, isSpace b = false) :
    HTTPUtility.parseHeader (name ++ 58 :: 32 :: value ++ crlf) = some (name, value) := by
  unfold HTTPUtility.parseHeader
  rw [withoutCrlf_crlf, splitOnce_cons hcolon]
  show some (strip name, strip (32 :: value)) = _
  rw [strip_of_noSpace hname, strip_cons (by decide), strip_of_noSpace hvalue]

/-! ## Decimals -/

/-- The byte of a digit is the digit. -/
theorem toNat_digit {c : Char} (h : c.isDigit = true) :
    48 ≤ c.toNat ∧ c.toNat ≤ 57 ∧ (UInt8.ofNat c.toNat).toNat = c.toNat := by
  simp only [Char.isDigit, Bool.and_eq_true, decide_eq_true_eq] at h
  have hlow : 48 ≤ c.toNat := h.1
  have hhigh : c.toNat ≤ 57 := h.2
  refine ⟨hlow, hhigh, ?_⟩
  rw [UInt8.toNat_ofNat']
  exact Nat.mod_eq_of_lt (by omega)

theorem isDigit_of_mem_decimal {n : ℕ} {b : UInt8} (h : b ∈ decimal n) : isDigit b = true := by
  obtain ⟨c, hc, rfl⟩ := List.mem_map.mp h
  obtain ⟨hlow, hhigh, hval⟩ :=
    toNat_digit (Nat.isDigit_of_mem_toDigits (by decide) (by decide) hc)
  simp only [isDigit, Bool.and_eq_true, decide_eq_true_eq, UInt8.le_iff_toNat_le, hval]
  exact ⟨hlow, hhigh⟩

theorem isdigit_decimal (n : ℕ) : isdigit (decimal n) = true := by
  have hne : (decimal n).isEmpty = false := by
    rw [List.isEmpty_eq_false_iff, decimal, Ne, List.map_eq_nil_iff]
    exact Nat.toDigits_ne_nil
  rw [isdigit, hne]
  exact List.all_eq_true.mpr fun b hb => isDigit_of_mem_decimal hb

/-- Reading a number back. -/
theorem digitsValue_decimal (n : ℕ) : digitsValue (decimal n) = n := by
  have hfold : ∀ (cs : List Char) (m : ℕ), (∀ c ∈ cs, c.isDigit = true) →
      (cs.map fun c => UInt8.ofNat c.toNat).foldl (fun n b => 10 * n + (b.toNat - 48)) m =
        Nat.ofDigitChars 10 cs m := by
    intro cs
    induction cs with
    | nil =>
        intro m _
        rw [Nat.ofDigitChars_nil]
        rfl
    | cons c cs ih =>
        intro m hcs
        have hval := (toNat_digit (hcs c List.mem_cons_self)).2.2
        rw [List.map_cons, List.foldl_cons, hval, Nat.ofDigitChars_cons]
        exact ih _ fun d hd => hcs d (List.mem_cons_of_mem _ hd)
  rw [digitsValue, decimal, hfold _ _ fun c hc =>
    Nat.isDigit_of_mem_toDigits (by decide) (by decide) hc]
  exact Nat.ofDigitChars_ten_toDigits

theorem isSpace_of_isDigit {b : UInt8} (h : isDigit b = true) : isSpace b = false := by
  simp only [isDigit, Bool.and_eq_true, decide_eq_true_eq, UInt8.le_iff_toNat_le] at h
  have hlow : 48 ≤ b.toNat := h.1
  simp only [isSpace, Bool.or_eq_false_iff, Bool.and_eq_false_iff, decide_eq_false_iff_not,
    UInt8.le_iff_toNat_le]
  refine ⟨?_, Or.inr ?_⟩
  · rintro rfl
    exact absurd hlow (by decide)
  · show ¬ b.toNat ≤ 13
    omega

theorem noSpace_decimal (n : ℕ) : ∀ b ∈ decimal n, isSpace b = false :=
  fun _ hb => isSpace_of_isDigit (isDigit_of_mem_decimal hb)

/-- `int(s)` of a string: digits, with a sign before them or none, and white space around
them. -/
def intLiteral (s : List UInt8) : Except Exc ℤ :=
  let literal := strip s
  if isdigit literal then .ok (digitsValue literal)
  else
    match literal with
    | [] => .error invalidLiteral
    | sign :: digits =>
      if !isdigit digits then .error invalidLiteral
      else if sign = 43 then .ok (digitsValue digits)
      else if sign = 45 then .ok (-digitsValue digits)
      else .error invalidLiteral

/-- Digits are the literal of a number. -/
theorem intLiteral_isdigit {s : List UInt8} (h : isdigit s = true) :
    intLiteral s = .ok (digitsValue s : ℤ) := by
  have hspace : ∀ b ∈ s, isSpace b = false := by
    simp only [isdigit, Bool.and_eq_true, List.all_eq_true] at h
    exact fun b hb => isSpace_of_isDigit (h.2 b hb)
  unfold intLiteral
  simp only [strip_of_noSpace hspace, h, if_true]

theorem intLiteral_decimal (n : ℕ) : intLiteral (decimal n) = .ok (n : ℤ) := by
  rw [intLiteral_isdigit (isdigit_decimal n), digitsValue_decimal]

end SummerRpc
