import Mathlib.Data.List.Induction
import Mathlib.Tactic.Ring
import Mathlib.Tactic.NormNum

/-! # Big-endian naturals

A natural number as exactly `w` bytes, most significant byte first, and back.
`decodeBE_encodeBE` and `encodeBE_decodeBE` say that the two are inverse between
the numbers below `256 ^ w` and the byte strings of length `w`.
-/

namespace BigEndian

/-- The `w` big-endian bytes of `n`. -/
def encodeBE : ℕ → ℕ → List UInt8
  | 0, _ => []
  | w + 1, n => encodeBE w (n / 256) ++ [UInt8.ofNat (n % 256)]

/-- The natural number with the given big-endian bytes. -/
def decodeBE (bs : List UInt8) : ℕ :=
  bs.foldl (fun acc b => acc * 256 + b.toNat) 0

@[simp] theorem encodeBE_zero (n : ℕ) : encodeBE 0 n = [] := rfl

theorem encodeBE_succ (w n : ℕ) :
    encodeBE (w + 1) n = encodeBE w (n / 256) ++ [UInt8.ofNat (n % 256)] := rfl

@[simp] theorem decodeBE_nil : decodeBE [] = 0 := rfl

@[simp] theorem decodeBE_concat (bs : List UInt8) (b : UInt8) :
    decodeBE (bs ++ [b]) = decodeBE bs * 256 + b.toNat := by
  simp [decodeBE, List.foldl_append]

@[simp] theorem length_encodeBE (w n : ℕ) : (encodeBE w n).length = w := by
  induction w generalizing n with
  | zero => rfl
  | succ w ih => simp [encodeBE_succ, ih]

/-- Decoding inverts encoding on the numbers that fit. -/
theorem decodeBE_encodeBE {w n : ℕ} (h : n < 256 ^ w) : decodeBE (encodeBE w n) = n := by
  induction w generalizing n with
  | zero =>
      have hn : n = 0 := by simpa using h
      rw [hn]
      rfl
  | succ w ih =>
      have hq : n / 256 < 256 ^ w := by
        rw [pow_succ] at h
        exact Nat.div_lt_of_lt_mul (by rwa [Nat.mul_comm] at h)
      have hb : (UInt8.ofNat (n % 256)).toNat = n % 256 := by
        rw [UInt8.toNat_ofNat']
        exact Nat.mod_eq_of_lt (Nat.mod_lt _ (by norm_num))
      rw [encodeBE_succ, decodeBE_concat, ih hq, hb, Nat.mul_comm]
      exact Nat.div_add_mod n 256

/-- `w` bytes hold a number below `256 ^ w`. -/
theorem decodeBE_lt (bs : List UInt8) : decodeBE bs < 256 ^ bs.length := by
  induction bs using List.reverseRecOn with
  | nil => simp
  | append_singleton bs b ih =>
      have hb : b.toNat < 256 := b.toNat_lt
      rw [decodeBE_concat, List.length_append, List.length_singleton, pow_succ]
      omega

/-- Encoding inverts decoding on the byte strings of the width. -/
theorem encodeBE_decodeBE {w : ℕ} {bs : List UInt8} (h : bs.length = w) :
    encodeBE w (decodeBE bs) = bs := by
  induction bs using List.reverseRecOn generalizing w with
  | nil =>
      rw [← h]
      rfl
  | append_singleton bs b ih =>
      rw [List.length_append, List.length_singleton] at h
      have hb : b.toNat < 256 := b.toNat_lt
      have hdiv : (decodeBE bs * 256 + b.toNat) / 256 = decodeBE bs := by omega
      have hmod : (decodeBE bs * 256 + b.toNat) % 256 = b.toNat := by omega
      rw [← h, decodeBE_concat, encodeBE_succ, hdiv, hmod, ih rfl, UInt8.ofNat_toNat]

end BigEndian
