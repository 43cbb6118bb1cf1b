import Mathlib.Data.Nat.Notation
import Mathlib.Data.List.Basic

/-! # Percent-encoding

The bytes of a string that are not safe are written as a percent sign and two
hexadecimal digits; a percent sign that two such digits do not follow stands for itself.

* `unquote_quote`: what is written is read back, unless a percent sign counts as safe;
* `notMem_quote`: the bytes that are not safe do not occur in what is written.
-/

namespace Percent

/-- A hexadecimal digit, in upper case. -/
def hexDigit (n : ℕ) : UInt8 := UInt8.ofNat (if n < 10 then 48 + n else 55 + n)

/-- The value of a hexadecimal digit, in either case. -/
def hexValue (b : UInt8) : Option ℕ :=
  if 48 ≤ b && b ≤ 57 then some (b.toNat - 48)
  else if 65 ≤ b && b ≤ 70 then some (b.toNat - 55)
  else if 97 ≤ b && b ≤ 102 then some (b.toNat - 87)
  else none

def quoteByte (safe : UInt8 → Bool) (b : UInt8) : List UInt8 :=
  if safe b then [b] else [37, hexDigit (b.toNat / 16), hexDigit (b.toNat % 16)]

def quote (safe : UInt8 → Bool) (s : List UInt8) : List UInt8 := s.flatMap (quoteByte safe)

/-- The byte two hexadecimal digits stand for. -/
def hexByte (high low : UInt8) : Option UInt8 := do
  let h ← hexValue high
  let l ← hexValue low
  return UInt8.ofNat (16 * h + l)

def unquote : List UInt8 → List UInt8
  | b :: high :: low :: more =>
    match (if b = 37 then hexByte high low else none) with
    | some byte => byte :: unquote more
    | none => b :: unquote (high :: low :: more)
  | b :: short => b :: unquote short
  | [] => []

variable {safe : UInt8 → Bool}

theorem quote_cons (b : UInt8) (s : List UInt8) :
    quote safe (b :: s) = quoteByte safe b ++ quote safe s := rfl

theorem hexValue_hexDigit : ∀ n < 16, hexValue (hexDigit n) = some n := by
  decide

/-- A byte other than the percent sign stands for itself. -/
theorem unquote_cons {b : UInt8} (hb : b ≠ 37) (s : List UInt8) :
    unquote (b :: s) = b :: unquote s := by
  match s with
  | [] => rfl
  | [_] => rfl
  | _ :: _ :: _ => rw [unquote, if_neg hb]

theorem unquote_hex {n m : ℕ} (hn : n < 16) (hm : m < 16) (s : List UInt8) :
    unquote (37 :: hexDigit n :: hexDigit m :: s) = UInt8.ofNat (16 * n + m) :: unquote s := by
  rw [unquote, if_pos rfl, hexByte, hexValue_hexDigit n hn, hexValue_hexDigit m hm]
  rfl

/-- What is written is read back. -/
theorem unquote_quote (hpercent : safe 37 = false) (s : List UInt8) :
    unquote (quote safe s) = s := by
  induction s with
  | nil => rfl
  | cons b s ih =>
      rw [quote_cons, quoteByte]
      split
      · next hsafe =>
          have hb : b ≠ 37 := by
            rintro rfl
            rw [hpercent] at hsafe
            cases hsafe
          rw [List.singleton_append, unquote_cons hb, ih]
      · have hlt : b.toNat < 256 := b.toNat_lt
        have hvalue : 16 * (b.toNat / 16) + b.toNat % 16 = b.toNat := Nat.div_add_mod _ _
        have hhex := unquote_hex (by omega : b.toNat / 16 < 16) (by omega : b.toNat % 16 < 16)
          (quote safe s)
        rw [hvalue, UInt8.ofNat_toNat, ih] at hhex
        exact hhex

/-- The bytes that are not safe do not occur, but for the percent signs and the digits. -/
theorem notMem_quote {b : UInt8} (hsafe : safe b = false) (hpercent : b ≠ 37)
    (hhex : hexValue b = none) (s : List UInt8) : b ∉ quote safe s := by
  intro hmem
  obtain ⟨c, _, hc⟩ := List.mem_flatMap.mp hmem
  have hdigit : ∀ n < 16, b ≠ hexDigit n := by
    rintro n hn rfl
    rw [hexValue_hexDigit n hn] at hhex
    cases hhex
  have hlt : c.toNat < 256 := c.toNat_lt
  unfold quoteByte at hc
  split at hc
  · next hsafe' =>
      rw [List.mem_singleton.mp hc, hsafe'] at hsafe
      cases hsafe
  · simp only [List.mem_cons, List.not_mem_nil, or_false] at hc
    rcases hc with hc | hc | hc
    · exact hpercent hc
    · exact hdigit _ (by omega) hc
    · exact hdigit _ (by omega) hc

end Percent
