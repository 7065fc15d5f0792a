import Mathlib.Algebra.Order.Field.Basic
import Mathlib.Data.Rat.Cast.Order
import Mathlib.Tactic.Linarith
import Mathlib.Tactic.FieldSimp

/-!
# Durations counted in whole quanta

A duration in small ticks is truncated to whole quanta of `q` ticks. The
truncated count is short by less than one quantum, and cutting a duration in
two loses a further quantum exactly when the two remainders fill one.
-/

namespace Truncation

/-- On a duration that does not run backwards, truncation is the quotient. -/
theorem tdiv_eq_ediv {d : ℤ} (hd : 0 ≤ d) (q : ℤ) : d.tdiv q = d / q :=
  Int.tdiv_eq_ediv_of_nonneg hd

/-- Truncation keeps the sign. -/
theorem tdiv_nonneg {d q : ℤ} (hd : 0 ≤ d) (hq : 0 < q) : 0 ≤ d.tdiv q :=
  Int.tdiv_nonneg hd hq.le

/-- Nothing is counted exactly for durations shorter than one quantum. -/
theorem tdiv_eq_zero_iff {d q : ℤ} (hd : 0 ≤ d) (hq : 0 < q) : d.tdiv q = 0 ↔ d < q := by
  rw [tdiv_eq_ediv hd]
  constructor
  · intro h
    by_contra hge
    have hle : 1 ≤ d / q := (Int.le_ediv_iff_mul_le hq).mpr (by omega)
    omega
  · exact Int.ediv_eq_zero_of_lt hd

/-- A cut is free exactly when the two remainders do not make up a quantum. -/
theorem tdiv_add_iff {a b q : ℤ} (ha : 0 ≤ a) (hb : 0 ≤ b) (hq : 0 < q) :
    (a + b).tdiv q = a.tdiv q + b.tdiv q ↔ a % q + b % q < q := by
  rw [tdiv_eq_ediv ha, tdiv_eq_ediv hb, tdiv_eq_ediv (add_nonneg ha hb)]
  have hsplit : a + b = (a % q + b % q) + q * (a / q + b / q) := by
    have h1 := Int.emod_add_mul_ediv a q
    have h2 := Int.emod_add_mul_ediv b q
    linarith
  have hquot : (a + b) / q = (a % q + b % q) / q + (a / q + b / q) := by
    rw [hsplit, Int.add_mul_ediv_left _ _ hq.ne']
  have hrest : 0 ≤ a % q + b % q :=
    add_nonneg (Int.emod_nonneg a hq.ne') (Int.emod_nonneg b hq.ne')
  rw [hquot, ← tdiv_eq_zero_iff hrest hq, tdiv_eq_ediv hrest]
  omega

section Fraction

variable {K : Type*} [Field K] [LinearOrder K] [IsStrictOrderedRing K]

/-- The whole quanta never exceed the duration. -/
theorem tdiv_le_div {d q : ℤ} (hd : 0 ≤ d) (hq : 0 < q) :
    ((d.tdiv q : ℤ) : K) ≤ (d : K) / (q : K) := by
  rw [tdiv_eq_ediv hd, le_div_iff₀ (Int.cast_pos.mpr hq)]
  exact_mod_cast Int.ediv_mul_le d hq.ne'

/-- The duration exceeds its whole quanta by less than one. -/
theorem div_lt_tdiv_add_one {d q : ℤ} (hd : 0 ≤ d) (hq : 0 < q) :
    (d : K) / (q : K) < ((d.tdiv q : ℤ) : K) + 1 := by
  rw [tdiv_eq_ediv hd, div_lt_iff₀ (Int.cast_pos.mpr hq)]
  exact_mod_cast Int.lt_ediv_add_one_mul_self d hq

end Fraction

end Truncation
