import BikeComputer.StaticScheduling.ResetWindow
import Mathlib.Algebra.Order.Archimedean.Basic
import Mathlib.Tactic.Linarith
import Mathlib.Tactic.Positivity
import Mathlib.Tactic.Ring

/-!
# The slowest windows of the polled reset

A window is slow if it takes just its computation time, reads the button at its start and
then only once in every gap, counted back from its end. The last read comes at a gap before
the end. No paced window stops reading earlier, so slow windows show how long a press can be
missed.
-/

namespace BikeComputer.StaticScheduling

/-- The end of the computation time of a window, seen from its start. -/
def windowTime (T : Type*) [Ring T] : T := ((ResetDevice.kTaskRunTime : ℤ) : T)

/-- A timer that counts whole microseconds. -/
structure MicrosecondTimer (T : Type*) [Ring T] [LinearOrder T] where
  read : T → ℤ
  read_le : ∀ x, (read x : T) ≤ x
  lt_read : ∀ x, x < (read x : T) + 1

/-- A gap between two reads, and how many passes the window has room for behind its first
read. -/
structure Pace (T : Type*) [Ring T] [LinearOrder T] where
  gap : T
  passes : ℕ
  one_le : 1 ≤ gap
  fits : (passes + 1) * gap ≤ windowTime T
  full : windowTime T < (passes + 2) * gap

section SlowPasses

variable {T : Type*} [Ring T] [LinearOrder T]
variable (timer : MicrosecondTimer T) (pace : Pace T) (start : T)

/-- The pass that is `j + 1` gaps before the end of the window; the timer is read just
before the next pass. -/
def slowPass (j : ℕ) : BusyWait.Pass T :=
  ⟨start + (windowTime T - (j + 1) * pace.gap), timer.read (windowTime T - j * pace.gap)⟩

/-- The last `m + 1` passes of the window. -/
def slowPasses : ℕ → List (BusyWait.Pass T)
  | 0 => [slowPass timer pace start 0]
  | m + 1 => slowPass timer pace start (m + 1) :: slowPasses m

/-- The earliest of the passes comes first. -/
theorem exists_slowPasses_eq (m : ℕ) :
    ∃ ps, slowPasses timer pace start m = slowPass timer pace start m :: ps := by
  cases m <;> exact ⟨_, rfl⟩

end SlowPasses

section Passes

variable {T : Type*} [Ring T] [LinearOrder T]
variable {timer : MicrosecondTimer T} {pace : Pace T} {start : T}

/-- The passes are the slow passes from a number on down to the last one. -/
theorem mem_slowPasses {m : ℕ} {p : BusyWait.Pass T} :
    p ∈ slowPasses timer pace start m ↔ ∃ j ≤ m, p = slowPass timer pace start j := by
  induction m with
  | zero => simp [slowPasses]
  | succ m ih =>
    rw [slowPasses, List.mem_cons, ih]
    constructor
    · rintro (rfl | ⟨j, hj, rfl⟩)
      · exact ⟨m + 1, le_rfl, rfl⟩
      · exact ⟨j, by omega, rfl⟩
    · rintro ⟨j, hj, rfl⟩
      rcases Nat.lt_or_eq_of_le hj with hlt | rfl
      · exact Or.inr ⟨j, by omega, rfl⟩
      · exact Or.inl rfl

/-- There is at least one pass. -/
theorem slowPasses_ne_nil (m : ℕ) : slowPasses timer pace start m ≠ [] := by
  cases m <;> exact List.cons_ne_nil _ _

/-- The last pass is the one at a gap before the end. -/
theorem getLast?_slowPasses (m : ℕ) :
    (slowPasses timer pace start m).getLast? = some (slowPass timer pace start 0) := by
  induction m with
  | zero => rfl
  | succ m ih => rw [slowPasses, List.getLast?_cons, ih, Option.getD_some]

/-- The other passes come earlier. -/
theorem mem_dropLast_slowPasses {m : ℕ} {p : BusyWait.Pass T}
    (h : p ∈ (slowPasses timer pace start m).dropLast) :
    ∃ j, 1 ≤ j ∧ p = slowPass timer pace start j := by
  induction m with
  | zero => simp [slowPasses] at h
  | succ m ih =>
    rw [slowPasses, List.dropLast_cons_of_ne_nil (slowPasses_ne_nil m), List.mem_cons] at h
    rcases h with rfl | h
    · exact ⟨m + 1, by omega, rfl⟩
    · exact ih h

end Passes

section Windows

variable {T : Type*} [CommRing T] [LinearOrder T] [IsStrictOrderedRing T]
variable (timer : MicrosecondTimer T) (pace : Pace T)

/-- The timer ends the window exactly at the end of its computation time. -/
theorem elapsed_slowPass_zero (start : T) :
    (slowPass timer pace start 0).elapsed = ResetDevice.kTaskRunTime := by
  have hupper := Int.cast_le.mp (timer.read_le (windowTime T))
  have hlower : ResetDevice.kTaskRunTime < timer.read (windowTime T) + 1 :=
    Int.cast_lt.mp ((timer.lt_read (windowTime T)).trans_eq
      (by rw [Int.cast_add, Int.cast_one]))
  rw [slowPass, Nat.cast_zero, zero_mul, sub_zero]
  exact le_antisymm hupper (Int.lt_add_one_iff.mp hlower)

/-- Before the last pass the timer has not reached the end. -/
theorem elapsed_slowPass_lt (start : T) {j : ℕ} (hj : 1 ≤ j) :
    (slowPass timer pace start j).elapsed < ResetDevice.kTaskRunTime := by
  have hearlier : (1 : T) ≤ j * pace.gap := by
    calc (1 : T) ≤ pace.gap := pace.one_le
      _ = (1 : ℕ) * pace.gap := by rw [Nat.cast_one, one_mul]
      _ ≤ j * pace.gap :=
        mul_le_mul_of_nonneg_right (Nat.cast_le.mpr hj) (zero_le_one.trans pace.one_le)
  have hlt : ((timer.read (windowTime T - j * pace.gap) : ℤ) : T) <
      ((ResetDevice.kTaskRunTime : ℤ) : T) := by
    have hle := timer.read_le (windowTime T - j * pace.gap)
    rw [windowTime] at hle ⊢
    linarith
  exact Int.cast_lt.mp hlt

/-- Every pass reads the button inside the window, before the timer. -/
theorem slowPass_inside (start : T) {j : ℕ} (hj : j ≤ pace.passes) :
    start ≤ (slowPass timer pace start j).sample ∧ (slowPass timer pace start j).sample ≤
      start + ((slowPass timer pace start j).elapsed : T) := by
  have hbefore : ((j : T) + 1) * pace.gap ≤ (pace.passes + 1) * pace.gap := by
    have hcast : (j : T) + 1 ≤ pace.passes + 1 := by exact_mod_cast Nat.succ_le_succ hj
    exact mul_le_mul_of_nonneg_right hcast (zero_le_one.trans pace.one_le)
  have hfits := pace.fits
  have hgap := pace.one_le
  have hread := timer.lt_read (windowTime T - j * pace.gap)
  simp only [slowPass]
  constructor <;> linarith

/-- In every pass the timer is read between two reads of the button. -/
theorem isChain_slowPasses (start : T) (m : ℕ) :
    (slowPasses timer pace start m).IsChain fun p q =>
      start + (p.elapsed : T) ≤ q.sample ∧ q.sample ≤ p.sample + pace.gap := by
  have hpair (j : ℕ) : start + ((slowPass timer pace start (j + 1)).elapsed : T) ≤
      (slowPass timer pace start j).sample ∧ (slowPass timer pace start j).sample ≤
        (slowPass timer pace start (j + 1)).sample + pace.gap := by
    have hread := timer.read_le (windowTime T - (j + 1 : ℕ) * pace.gap)
    simp only [slowPass]
    push_cast at hread ⊢
    constructor <;> linarith
  induction m with
  | zero => exact List.IsChain.singleton _
  | succ m ih =>
    rw [slowPasses]
    obtain ⟨ps, hps⟩ := exists_slowPasses_eq timer pace start m
    rw [hps] at ih ⊢
    exact List.isChain_cons_cons.mpr ⟨hpair m, ih⟩

/-- The window that begins with a read of the button and then makes the slow passes. -/
def slowWindow (start : T) : ResetWindow T where
  start := start
  reads :=
    { passes := ⟨start, 0⟩ :: slowPasses timer pace start pace.passes
      nonempty := List.cons_ne_nil _ _
      running := by
        intro p hp
        rw [List.dropLast_cons_of_ne_nil (slowPasses_ne_nil _), List.mem_cons] at hp
        rcases hp with rfl | hp
        · exact (by decide : (0 : ℤ) < ResetDevice.kTaskRunTime)
        · obtain ⟨j, hj, rfl⟩ := mem_dropLast_slowPasses hp
          exact elapsed_slowPass_lt timer pace start hj
      finished := by
        intro p hp
        rw [List.getLast?_cons, getLast?_slowPasses, Option.getD_some, Option.mem_some_iff] at hp
        rw [← hp, elapsed_slowPass_zero] }
  inside := by
    intro p hp
    rcases List.mem_cons.mp hp with rfl | hp
    · simp
    · obtain ⟨j, hj, rfl⟩ := mem_slowPasses.mp hp
      exact slowPass_inside timer pace start hj

/-- The window ends with the pass at a gap before its end. -/
theorem getLast_slowWindow (start : T) : (slowWindow timer pace start).reads.passes.getLast
    (slowWindow timer pace start).reads.nonempty = slowPass timer pace start 0 := by
  have hlast := List.getLast?_eq_some_getLast (slowWindow timer pace start).reads.nonempty
  have hslow : (slowWindow timer pace start).reads.passes.getLast? =
      some (slowPass timer pace start 0) := by
    simp only [slowWindow, List.getLast?_cons, getLast?_slowPasses, Option.getD_some]
  exact Option.some.inj (hlast.symm.trans hslow)

/-- The window takes its computation time. -/
theorem finish_slowWindow (start : T) :
    (slowWindow timer pace start).finish = start + windowTime T := by
  rw [ResetWindow.finish, BusyWait.Window.duration, getLast_slowWindow, elapsed_slowPass_zero]
  rfl

/-- The reads of the window are at most the gap apart. -/
theorem paced_slowWindow (start : T) : (slowWindow timer pace start).Paced pace.gap := by
  have hfits := pace.fits
  have hfull := pace.full
  constructor
  · have hfirst : start + ((0 : ℤ) : T) ≤ (slowPass timer pace start pace.passes).sample ∧
        (slowPass timer pace start pace.passes).sample ≤ start + pace.gap := by
      simp only [slowPass, Int.cast_zero]
      constructor <;> linarith
    have hrest := isChain_slowPasses timer pace start pace.passes
    obtain ⟨ps, hps⟩ := exists_slowPasses_eq timer pace start pace.passes
    have hchain : (⟨start, 0⟩ :: slowPasses timer pace start pace.passes :
        List (BusyWait.Pass T)).IsChain fun p q =>
          start + (p.elapsed : T) ≤ q.sample ∧ q.sample ≤ p.sample + pace.gap := by
      rw [hps] at hrest ⊢
      exact List.isChain_cons_cons.mpr ⟨hfirst, hrest⟩
    exact hchain
  · rw [finish_slowWindow, ResetWindow.lastRead, getLast_slowWindow]
    simp only [slowPass, Nat.cast_zero]
    linarith

/-- The last read comes at a gap before the end. -/
theorem sample_slowWindow_le {start t : T}
    (ht : t ∈ (slowWindow timer pace start).reads.samples) :
    t ≤ start + (windowTime T - pace.gap) := by
  have hpos (j : ℕ) : (0 : T) ≤ j * pace.gap :=
    mul_nonneg (Nat.cast_nonneg j) (zero_le_one.trans pace.one_le)
  obtain ⟨p, hp, rfl⟩ := List.mem_map.mp ht
  rcases List.mem_cons.mp hp with rfl | hp
  · have hfits := pace.fits
    have hbefore := hpos pace.passes
    change start ≤ start + (windowTime T - pace.gap)
    linarith
  · obtain ⟨j, -, rfl⟩ := mem_slowPasses.mp hp
    have hbefore := hpos j
    simp only [slowPass]
    linarith

end Windows

section Existence

variable {T : Type*} [CommRing T] [LinearOrder T] [IsStrictOrderedRing T] [Archimedean T]

/-- There is a timer on every scale. -/
theorem nonempty_timer : Nonempty (MicrosecondTimer T) := by
  have hread (x : T) : ∃ z : ℤ, (z : T) ≤ x ∧ x < (z : T) + 1 := by
    obtain ⟨z, hz⟩ := exists_floor x
    refine ⟨z, (hz z).mp le_rfl, ?_⟩
    by_contra hle
    have hnext := (hz (z + 1)).mpr (by push_cast; exact not_lt.mp hle)
    omega
  choose read hread using hread
  exact ⟨⟨read, fun x => (hread x).1, fun x => (hread x).2⟩⟩

/-- Every gap between a microsecond and the length of the window is that of a pace. -/
theorem exists_pace {gap : T} (hgap : 1 ≤ gap) (hlong : gap ≤ windowTime T) :
    ∃ pace : Pace T, pace.gap = gap := by
  classical
  have hmany : ∃ n : ℕ, windowTime T < (n + 1) * gap := by
    obtain ⟨n, hn⟩ := exists_nat_gt (windowTime T)
    have hle : ((n : T) + 1) * 1 ≤ (n + 1) * gap :=
      mul_le_mul_of_nonneg_left hgap (by positivity)
    exact ⟨n, by linarith⟩
  have hfull := Nat.find_spec hmany
  cases hn : Nat.find hmany with
  | zero =>
    rw [hn] at hfull
    exact absurd hlong (not_le.mpr (by simpa using hfull))
  | succ m =>
    have hfits : ((m : T) + 1) * gap ≤ windowTime T :=
      not_lt.mp (Nat.find_min hmany (hn ▸ Nat.lt_succ_self m))
    rw [hn] at hfull
    push_cast at hfull
    exact ⟨⟨gap, m, hgap, hfits, by linarith⟩, rfl⟩

end Existence

end BikeComputer.StaticScheduling
