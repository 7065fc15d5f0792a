import Mathlib.Algebra.BigOperators.Intervals
import Mathlib.Data.Int.Interval
import Mathlib.Algebra.Order.Field.Basic

/-!
# Sums over clock ticks

A rate observed at every tick of an integer clock accumulates to a finite sum over
the ticks from one instant up to another. The sum can be cut at any tick, and where
the rate is constant it is the rate times the number of ticks.
-/

namespace TickSum

variable {M : Type*}

/-- The rates at all ticks from `a` on and before `b`, added up. -/
def ticks [AddCommMonoid M] (f : ℤ → M) (a b : ℤ) : M :=
  ∑ i ∈ Finset.range (b - a).toNat, f (a + i)

/-- The sum over no time. -/
@[simp] theorem ticks_self [AddCommMonoid M] (f : ℤ → M) (a : ℤ) : ticks f a a = 0 := by
  simp [ticks]

/-- Only the rates at the ticks themselves count. -/
theorem ticks_congr [AddCommMonoid M] {f g : ℤ → M} {a b : ℤ}
    (h : ∀ τ, a ≤ τ → τ < b → f τ = g τ) : ticks f a b = ticks g a b := by
  apply Finset.sum_congr rfl
  intro i hi
  have hlt := Finset.mem_range.mp hi
  exact h (a + i) (by omega) (by omega)

/-- Accumulation over consecutive stretches adds up. -/
theorem ticks_consecutive [AddCommMonoid M] (f : ℤ → M) {a b c : ℤ} (hab : a ≤ b)
    (hbc : b ≤ c) : ticks f a b + ticks f b c = ticks f a c := by
  have hlength : (c - a).toNat = (b - a).toNat + (c - b).toNat := by omega
  have hshift : ticks f b c =
      ∑ i ∈ Finset.range (c - b).toNat, f (a + ((b - a).toNat + i : ℕ)) := by
    apply Finset.sum_congr rfl
    intro i _
    congr 1
    omega
  rw [hshift, ticks, ticks, hlength, Finset.sum_range_add]

/-- A constant rate accumulates in proportion to the number of ticks. -/
theorem ticks_const [Ring M] {f : ℤ → M} {v : M} {b c : ℤ} (hbc : b ≤ c)
    (hf : ∀ τ, b ≤ τ → τ < c → f τ = v) : ticks f b c = ((c - b : ℤ) : M) * v := by
  have hcount : (((c - b).toNat : ℕ) : ℤ) = c - b := Int.toNat_of_nonneg (by omega)
  rw [ticks_congr hf, ticks, Finset.sum_const, Finset.card_range, nsmul_eq_mul,
    ← Int.cast_natCast, hcount]

end TickSum
