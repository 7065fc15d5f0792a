import Mathlib.Algebra.Group.Int.Defs

/-!
# Guarded counters

A counter of fixed width does not wrap around when it is moved by one towards a value
that lies on that side of it. An integer wraps around when it is converted to one.
-/

namespace Counter

/-- Counting up below a bound does not wrap. -/
theorem UInt8.succ_toNat {a b : UInt8} (h : a < b) : (a + 1).toNat = a.toNat + 1 := by
  have hlt := UInt8.lt_iff_toNat_lt.mp h
  have hmax := b.toNat_lt
  rw [UInt8.toNat_add, UInt8.toNat_one]
  omega

/-- Counting down above a bound does not wrap. -/
theorem UInt8.pred_toNat {a b : UInt8} (h : b < a) : (a - 1).toNat + 1 = a.toNat := by
  have hlt := UInt8.lt_iff_toNat_lt.mp h
  have hmax := a.toNat_lt
  rw [UInt8.toNat_sub, UInt8.toNat_one]
  omega

/-- Counting up below a bound does not wrap. -/
theorem UInt32.succ_toNat {a b : UInt32} (h : a < b) : (a + 1).toNat = a.toNat + 1 := by
  have hlt := UInt32.lt_iff_toNat_lt.mp h
  have hmax := b.toNat_lt
  rw [UInt32.toNat_add, UInt32.toNat_one]
  omega

/-- Counting down above a bound does not wrap. -/
theorem UInt32.pred_toNat {a b : UInt32} (h : b < a) : (a - 1).toNat + 1 = a.toNat := by
  have hlt := UInt32.lt_iff_toNat_lt.mp h
  have hmax := a.toNat_lt
  rw [UInt32.toNat_sub, UInt32.toNat_one]
  omega

/-- The conversion from a signed count wraps. -/
theorem UInt32.ofInt_toNat (i : Int) : ((UInt32.ofInt i).toNat : Int) = i % 2 ^ 32 := by
  have hnonneg : 0 ≤ i % 2 ^ 32 := Int.emod_nonneg i (by decide)
  have hlt : i % 2 ^ 32 < 2 ^ 32 := Int.emod_lt_of_pos i (by decide)
  rw [UInt32.ofInt, UInt32.toNat_ofNat']
  omega

end Counter
