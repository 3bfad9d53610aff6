import Mathlib.Algebra.Order.Ring.Int
import Mathlib.Data.Nat.Digits.Defs
import Mathlib.Data.List.Basic

/-! Decimal numerals as the library functions print them. -/

namespace NetPrograms

def digits (n : Nat) : List UInt8 := (Nat.toDigits 10 n).map fun c => UInt8.ofNat c.toNat

theorem digits_length {n width : Nat} (positive : 0 < width) (small : n < 10 ^ width) : (digits n).length ≤ width := by
  rw [digits, List.length_map]
  exact (Nat.length_toDigits_le_iff (by decide) positive).mpr small

/-- A digit is a byte between `0` and `9`. -/
theorem digits_range {n : Nat} {byte : UInt8} (member : byte ∈ digits n) : 48 ≤ byte.toNat ∧ byte.toNat ≤ 57 := by
  obtain ⟨c, digit, rfl⟩ := List.mem_map.mp member
  have range := Nat.isDigit_of_mem_toDigits (by decide) (by decide) digit
  simp only [Char.isDigit, Bool.and_eq_true, decide_eq_true_eq] at range
  obtain ⟨low, high⟩ := range
  have low : 48 ≤ c.toNat := low
  have high : c.toNat ≤ 57 := high
  simp only [UInt8.toNat_ofNat']
  omega

end NetPrograms
