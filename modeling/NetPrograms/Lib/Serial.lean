import Mathlib.Algebra.Order.Ring.Int
import Mathlib.Data.List.Basic

/-! Serial numbers of 32 bits, which go on at 0 after the last one. Two of them
are compared by the sign of their difference. It tells how the numbers they stand
for compare as long as these are less than 2^31 apart. -/

namespace NetPrograms.Serial

/-- The same bits as a signed number. -/
theorem toInt_toInt32 (x : UInt32) : x.toInt32.toInt = if x.toNat < 2 ^ 31 then (x.toNat : Int) else x.toNat - 2 ^ 32 := by
  have signed : x.toInt32.toInt = Int.bmod x.toNat (2 ^ 32) := BitVec.toInt_eq_toNat_bmod x.toBitVec
  have bound := x.toNat_lt
  rw [signed, Int.bmod_def]
  split <;> split <;> omega

theorem toInt_toInt32_of_lt {x : UInt32} (small : x.toNat < 2 ^ 31) : x.toInt32.toInt = x.toNat := by
  rw [toInt_toInt32, if_pos small]

theorem toNat_toUInt32 {x : Int32} (positive : 0 ≤ x.toInt) : (x.toUInt32.toNat : Int) = x.toInt := by
  have signed : x.toInt = if x.toUInt32.toNat < 2 ^ 31 then (x.toUInt32.toNat : Int) else x.toUInt32.toNat - 2 ^ 32 :=
    toInt_toInt32 x.toUInt32
  have bound := x.toUInt32.toNat_lt
  split at signed <;> omega

/-- The difference as a signed number of 32 bits. -/
def diff (later earlier : UInt32) : Int := (later - earlier).toInt32.toInt

/-- The steps from `base` up to `serial`. -/
def ahead (serial base : UInt32) : Nat := (serial - base).toNat

theorem ahead_eq (serial base : UInt32) : ahead serial base = (2 ^ 32 - base.toNat + serial.toNat) % 2 ^ 32 :=
  UInt32.toNat_sub serial base

theorem ahead_lt (serial base : UInt32) : ahead serial base < 2 ^ 32 := UInt32.toNat_lt _

theorem diff_eq_ahead (later earlier : UInt32) :
    diff later earlier = if ahead later earlier < 2 ^ 31 then (ahead later earlier : Int)
      else ahead later earlier - 2 ^ 32 := by
  exact toInt_toInt32 (later - earlier)

theorem diff_eq_bmod (later earlier : UInt32) :
    diff later earlier = Int.bmod (later.toNat - earlier.toNat) (2 ^ 32) := by
  have first := later.toNat_lt
  have second := earlier.toNat_lt
  rw [diff_eq_ahead, ahead_eq, Int.bmod_def]
  split <;> split <;> omega

theorem diff_nonneg_iff {later earlier : UInt32} : 0 ≤ diff later earlier ↔ ahead later earlier < 2 ^ 31 := by
  have bound := ahead_lt later earlier
  rw [diff_eq_ahead]
  split <;> omega

/-- Numbers from the half that begins at a base compare as their distances from it. -/
theorem diff_of_ahead {later earlier base : UInt32} (first : ahead later base < 2 ^ 31)
    (second : ahead earlier base < 2 ^ 31) :
    diff later earlier = (ahead later base : Int) - ahead earlier base := by
  have := later.toNat_lt
  have := earlier.toNat_lt
  have := base.toNat_lt
  rw [ahead_eq] at first second
  rw [diff_eq_bmod, ahead_eq, ahead_eq, Int.bmod_def]
  split <;> omega

/-- The sign turns round with the order, unless the numbers are opposite. -/
theorem diff_swap {later earlier : UInt32} (near : diff later earlier ≠ -2 ^ 31) :
    diff earlier later = -diff later earlier := by
  have := later.toNat_lt
  have := earlier.toNat_lt
  rw [diff_eq_ahead, ahead_eq] at near ⊢
  rw [diff_eq_ahead, ahead_eq]
  split at near <;> split <;> omega

@[simp] theorem diff_self (serial : UInt32) : diff serial serial = 0 := by
  simp [diff]

theorem ahead_of_diff_nonneg {later earlier : UInt32} (order : 0 ≤ diff later earlier) :
    (ahead later earlier : Int) = diff later earlier := by
  rw [diff_eq_ahead] at order ⊢
  have bound := ahead_lt later earlier
  split at order
  next small => rw [if_pos small]
  next => omega

/-- Numbers that have not wrapped compare as they are. -/
theorem diff_of_lt {later earlier : UInt32} (first : later.toNat < 2 ^ 31) (second : earlier.toNat < 2 ^ 31) :
    diff later earlier = (later.toNat : Int) - earlier.toNat := by
  rw [diff_eq_bmod, Int.bmod_def]
  split <;> omega

theorem ahead_inj {first second base : UInt32} : ahead first base = ahead second base ↔ first = second := by
  constructor
  · intro same
    have := congrArg (· + base) (UInt32.toNat_inj.1 same)
    simpa using this
  · rintro rfl
    rfl

@[simp] theorem ahead_self (base : UInt32) : ahead base base = 0 := by
  simp [ahead]

theorem ahead_eq_zero {serial base : UInt32} : ahead serial base = 0 ↔ serial = base := by
  rw [← ahead_self base, ahead_inj]

theorem ahead_add_one {serial base : UInt32} (behind : ahead serial base + 1 < 2 ^ 32) :
    ahead (serial + 1) base = ahead serial base + 1 := by
  have one := UInt32.toNat_add serial 1
  rw [show UInt32.toNat 1 = 1 from rfl] at one
  have := serial.toNat_lt
  have := base.toNat_lt
  rw [ahead_eq] at behind
  rw [ahead_eq, ahead_eq]
  omega

/-- The window moves on by one. -/
theorem ahead_base_add_one {serial base : UInt32} (other : serial ≠ base) :
    ahead serial (base + 1) + 1 = ahead serial base := by
  have positive : ahead serial base ≠ 0 := fun zero => other (ahead_eq_zero.1 zero)
  have one := UInt32.toNat_add base 1
  rw [show UInt32.toNat 1 = 1 from rfl] at one
  have := serial.toNat_lt
  have := base.toNat_lt
  rw [ahead_eq] at positive
  rw [ahead_eq, ahead_eq]
  omega

/-- Distances from a base that has moved on by some steps. -/
theorem ahead_of_base_le {serial base next : UInt32} (le : ahead next base ≤ ahead serial base) :
    ahead serial next + ahead next base = ahead serial base := by
  have := serial.toNat_lt
  have := base.toNat_lt
  have := next.toNat_lt
  rw [ahead_eq, ahead_eq] at le
  rw [ahead_eq, ahead_eq, ahead_eq]
  omega

theorem ahead_add (base steps : UInt32) : ahead (base + steps) base = steps.toNat := by
  have back : base + steps - base = steps := by grind
  rw [ahead, back]

end NetPrograms.Serial
