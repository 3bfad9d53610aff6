import Mathlib.Algebra.Order.Ring.Int
import Mathlib.Data.List.Basic
import Mathlib.Data.List.Induction

/-! Numbers as fixed-width byte strings, most significant byte first (network
order) or last (the order of an x86 structure). -/

namespace NetPrograms

def bigEndian : Nat → Nat → List UInt8
  | 0, _ => []
  | width + 1, n => bigEndian width (n / 256) ++ [UInt8.ofNat n]

def ofBigEndian (bytes : List UInt8) : Nat :=
  bytes.foldl (fun n byte => n * 256 + byte.toNat) 0

def littleEndian (width n : Nat) : List UInt8 := (bigEndian width n).reverse

def ofLittleEndian (bytes : List UInt8) : Nat := ofBigEndian bytes.reverse

@[simp] theorem bigEndian_length (width n : Nat) : (bigEndian width n).length = width := by
  induction width generalizing n with
  | zero => rfl
  | succ width ih => simp [bigEndian, ih]

@[simp] theorem littleEndian_length (width n : Nat) : (littleEndian width n).length = width := by
  simp [littleEndian]

theorem ofBigEndian_bigEndian {width n : Nat} (fits : n < 256 ^ width) :
    ofBigEndian (bigEndian width n) = n := by
  induction width generalizing n with
  | zero => simp_all [bigEndian, ofBigEndian]
  | succ width ih =>
    have high : n / 256 < 256 ^ width := Nat.div_lt_of_lt_mul (by rwa [Nat.pow_succ'] at fits)
    have step : ofBigEndian (bigEndian (width + 1) n) =
        ofBigEndian (bigEndian width (n / 256)) * 256 + n % 256 := by
      simp [bigEndian, ofBigEndian, List.foldl_append]
    rw [step, ih high]
    omega

theorem ofBigEndian_snoc (bytes : List UInt8) (byte : UInt8) :
    ofBigEndian (bytes ++ [byte]) = ofBigEndian bytes * 256 + byte.toNat := by
  simp [ofBigEndian]

theorem bigEndian_ofBigEndian (bytes : List UInt8) : bigEndian bytes.length (ofBigEndian bytes) = bytes := by
  induction bytes using List.reverseRecOn with
  | nil => rfl
  | append_singleton bytes byte ih =>
    have small := byte.toNat_lt
    have high : (ofBigEndian bytes * 256 + byte.toNat) / 256 = ofBigEndian bytes := by omega
    rw [List.length_append, List.length_singleton, bigEndian, ofBigEndian_snoc, high, ih]
    congr 2
    apply UInt8.toNat_inj.1
    rw [UInt8.toNat_ofNat']
    omega

theorem ofBigEndian_lt (bytes : List UInt8) : ofBigEndian bytes < 256 ^ bytes.length := by
  induction bytes using List.reverseRecOn with
  | nil => simp [ofBigEndian]
  | append_singleton bytes byte ih =>
    have small := byte.toNat_lt
    rw [ofBigEndian_snoc, List.length_append, List.length_singleton, Nat.pow_succ]
    omega

theorem ofLittleEndian_littleEndian {width n : Nat} (fits : n < 256 ^ width) :
    ofLittleEndian (littleEndian width n) = n := by
  rw [ofLittleEndian, littleEndian, List.reverse_reverse, ofBigEndian_bigEndian fits]

theorem littleEndian_ofLittleEndian (bytes : List UInt8) : littleEndian bytes.length (ofLittleEndian bytes) = bytes := by
  have back := bigEndian_ofBigEndian bytes.reverse
  rw [List.length_reverse] at back
  rw [littleEndian, ofLittleEndian, back, List.reverse_reverse]

theorem ofLittleEndian_lt (bytes : List UInt8) : ofLittleEndian bytes < 256 ^ bytes.length := by
  rw [ofLittleEndian, ← List.length_reverse]
  exact ofBigEndian_lt bytes.reverse

theorem ofBigEndian_eq_zero {bytes : List UInt8} : ofBigEndian bytes = 0 ↔ ∀ byte ∈ bytes, byte = 0 := by
  have general : ∀ n, bytes.foldl (fun n byte => n * 256 + byte.toNat) n = 0 ↔ n = 0 ∧ ∀ byte ∈ bytes, byte = 0 := by
    induction bytes with
    | nil => simp
    | cons byte bytes ih =>
      intro n
      have zero : byte.toNat = 0 ↔ byte = 0 := by
        rw [← UInt8.toNat_inj]
        rfl
      have digit : n * 256 + byte.toNat = 0 ↔ n = 0 ∧ byte.toNat = 0 := by omega
      rw [List.foldl_cons, ih, List.forall_mem_cons, digit, zero, and_assoc]
  simp [ofBigEndian, general]

theorem ofLittleEndian_eq_zero {bytes : List UInt8} : ofLittleEndian bytes = 0 ↔ ∀ byte ∈ bytes, byte = 0 := by
  simp [ofLittleEndian, ofBigEndian_eq_zero]

end NetPrograms
