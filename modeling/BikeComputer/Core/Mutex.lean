import Mathlib.Logic.Basic

/-!
# A mutex between threads

Whatever the threads compute, a mutex protects their critical sections if each access of a
thread either leaves the mutex alone and does not enter or leave the section, or takes the
free mutex to enter it, or leaves it and frees the mutex.
-/

namespace Mutex

variable {ι : Type*} {i j : ι} {holder holder' : Option ι} {inside inside' : ι → Prop}

/-- The thread that holds the mutex is the one inside its critical section. -/
def Held (holder : Option ι) (inside : ι → Prop) : Prop := ∀ i, holder = some i ↔ inside i

/-- What an access of a thread can do to the mutex and to its place. -/
inductive Access (i : ι) : Option ι → Prop → Option ι → Prop → Prop where
  | stays {holder : Option ι} {inside inside' : Prop} (h : inside ↔ inside') :
      Access i holder inside holder inside'
  | locks {inside inside' : Prop} (h : ¬ inside) (h' : inside') :
      Access i none inside (some i) inside'
  | unlocks {holder : Option ι} {inside inside' : Prop} (h : inside) (h' : ¬ inside') :
      Access i holder inside none inside'

/-- Two threads that are inside are the same. -/
theorem Held.exclusive (h : Held holder inside) (hi : inside i) (hj : inside j) : i = j :=
  Option.some.inj (((h i).mpr hi).symm.trans ((h j).mpr hj))

/-- An access of one thread, while the others stay where they are, keeps the holder. -/
theorem Held.step (h : Held holder inside) (hother : ∀ j, j ≠ i → (inside' j ↔ inside j))
    (haccess : Access i holder (inside i) holder' (inside' i)) : Held holder' inside' := by
  intro j
  by_cases hj : j = i
  · subst hj
    cases haccess with
    | stays hsame => exact (h j).trans hsame
    | locks _ hin => exact iff_of_true rfl hin
    | unlocks _ hout => exact iff_of_false (by simp) hout
  · rw [hother j hj]
    cases haccess with
    | stays _ => exact h j
    | locks _ _ =>
      have hne : some i ≠ some j := fun he => hj (Option.some.inj he).symm
      exact iff_of_false hne fun hin => absurd ((h j).mpr hin) (by simp)
    | unlocks hin _ => exact iff_of_false (by simp) fun hin' => hj (h.exclusive hin' hin)

/-- A thread that finds the mutex taken waits for one that is inside. -/
theorem Held.exists_inside (h : Held holder inside) (htaken : holder ≠ none) :
    ∃ j, inside j := by
  obtain ⟨j, hj⟩ := Option.ne_none_iff_exists'.mp htaken
  exact ⟨j, (h j).mp hj⟩

end Mutex
