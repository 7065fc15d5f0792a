import BikeComputer.Core.Run
import Mathlib.Algebra.BigOperators.Group.List.Basic
import Mathlib.Algebra.Order.Ring.Nat
import Mathlib.Data.List.Count

/-!
# Machines that drain

Some labels of a machine post work and some do it. A rank counts the steps that the
pending work takes at most: a working step uses it up, and only a posting step adds to
it. If pending work always leaves some working step enabled, the machine can neither
work for ever nor get stuck before all work is done.
-/

namespace Transition

variable {σ α : Type*} {step : σ → α → Option σ} {works : α → Bool} {posts : α → ℕ}
variable {s t : σ} {as : List α}

/-- A rank of the pending work, on the states that satisfy an invariant. -/
structure Draining (step : σ → α → Option σ) (works : α → Bool) (posts : α → ℕ) where
  Inv : σ → Prop
  rank : σ → ℕ
  of_step : ∀ {s a t}, Inv s → step s a = some t →
    Inv t ∧ (if works a then 1 else 0) + rank t ≤ rank s + posts a
  exists_step : ∀ {s}, Inv s → rank s ≠ 0 → ∃ a t, works a ∧ step s a = some t
  posts_of_works : ∀ {a}, works a → posts a = 0

namespace Draining

/-- A run works no more than has been posted. -/
theorem countP_add_rank_le (d : Draining step works posts) (hs : d.Inv s)
    (hrun : run step s as = some t) :
    as.countP works + d.rank t ≤ d.rank s + (as.map posts).sum := by
  induction as generalizing s with
  | nil =>
    obtain rfl := Option.some.inj hrun
    simp
  | cons a as ih =>
    obtain ⟨m, hm, ht⟩ := run_cons_eq_some.mp hrun
    obtain ⟨hinv, hpaid⟩ := d.of_step hs hm
    have hrest := ih hinv ht
    rw [List.countP_cons, List.map_cons, List.sum_cons]
    omega

/-- A state in which no working step is enabled has no work left. -/
theorem rank_eq_zero_of_stuck (d : Draining step works posts) (hs : d.Inv s)
    (hstuck : ∀ a, works a → step s a = none) : d.rank s = 0 := by
  by_contra hrank
  obtain ⟨a, t, ha, ht⟩ := d.exists_step hs hrank
  exact absurd (ht.symm.trans (hstuck a ha)) (by simp)

/-- From every state, working steps alone lead to one without work. -/
theorem exists_drained (d : Draining step works posts) (hs : d.Inv s) :
    ∃ as t, (∀ a ∈ as, works a) ∧ run step s as = some t ∧ d.rank t = 0 := by
  induction hn : d.rank s using Nat.strongRecOn generalizing s with
  | ind n ih =>
    by_cases hrank : n = 0
    · exact ⟨[], s, by simp, rfl, hn.trans hrank⟩
    · obtain ⟨a, m, ha, hm⟩ := d.exists_step hs (hn ▸ hrank)
      obtain ⟨hinv, hpaid⟩ := d.of_step hs hm
      rw [if_pos ha, d.posts_of_works ha] at hpaid
      obtain ⟨as, t, has, ht, hzero⟩ := ih (d.rank m) (by omega) hinv rfl
      exact ⟨a :: as, t, List.forall_mem_cons.mpr ⟨ha, has⟩, run_cons_eq_some.mpr ⟨m, hm, ht⟩,
        hzero⟩

end Draining

end Transition
