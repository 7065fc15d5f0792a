import BikeComputer.Correctness.Schedule
import BikeComputer.StaticScheduling.BikeSystem
import BikeComputer.StaticScheduling.ResetWindow
import Mathlib.Algebra.Order.Archimedean.Basic
import Mathlib.Tactic.Linarith
import Mathlib.Tactic.NormNum

/-!
# Presses found by the polled reset

In the super-loop with nominal computation times the reset task runs every reset period,
so a press that is held for one period is in force when some window starts. The window
ends with the reset, one computation time later.
-/

namespace BikeComputer.StaticScheduling

open PeriodicQueue

/-- A run of the super-loop in which every task takes its computation time. Instants are
in microseconds; the window of a call is used if the call is one of `resetTask`. -/
structure NominalRun (T : Type*) [Ring T] [LinearOrder T] (read : T → ℤ) where
  state : ℕ → BikeSystem
  label : ℕ → BikeSystem.Label
  window : ℕ → ResetWindow T
  step_eq : ∀ n, (state n).step (label n) = some (state (n + 1))
  task_eq : ∀ n, (label n).task = start n
  reset_eq : ∀ n, start n = .resetTask →
    label n = .resetTask ((window n).reads.map read).passes (1000 * slot ℤ (n + 1))
  window_start : ∀ n, (window n).start = 1000 * slot T n
  /-- The button is read at the start of the window. -/
  first_read : ∀ n, (window n).start ∈ (window n).reads.samples
  window_duration : ∀ n, (window n).reads.duration = 1000 * kResetTaskComputationTime

section Existence

variable {T : Type*} [Ring T] [LinearOrder T] [IsOrderedRing T]

/-- A window that reads the button once. -/
def singleRead (start : T) : ResetWindow T where
  start := start
  reads := ⟨[⟨start, ResetDevice.kTaskRunTime⟩], by simp, by simp, by simp⟩
  inside := by
    simp [ResetDevice.kTaskRunTime]

/-- Calls in the order of the super-loop, with an idle joystick. -/
def idleLabel (read : T → ℤ) (n : ℕ) : BikeSystem.Label :=
  match start n with
  | .gearTask => .gearTask [⟨.other, GearDevice.kTaskRunTime⟩]
  | .speedDistanceTask =>
    .speedDistanceTask [⟨.other, PedalDevice.kTaskRunTime⟩] (1000 * slot ℤ (n + 1))
      (1000 * slot ℤ (n + 1)) (1000 * slot ℤ (n + 1))
  | .temperatureTask => .temperatureTask 0
  | .resetTask =>
    .resetTask ((singleRead (1000 * slot T n)).reads.map read).passes (1000 * slot ℤ (n + 1))
  | .displayTask1 => .displayTask1
  | .displayTask2 => .displayTask2

/-- Each of these calls can be made in every state. -/
theorem exists_step (read : T → ℤ) (n : ℕ) (s : BikeSystem) :
    ∃ t, s.step (idleLabel read n) = some t := by
  unfold idleLabel
  cases start n with
  | gearTask | speedDistanceTask | temperatureTask | displayTask1 | displayTask2 =>
    exact ⟨_, rfl⟩
  | resetTask =>
    exact ⟨_, BikeSystem.resetTask_eq_some.mpr
      ⟨_, (singleRead (1000 * slot T n)).checkReset_eq read, rfl⟩⟩

/-- Whatever the button does, the super-loop has such a run. -/
theorem exists_nominalRun (read : T → ℤ) : Nonempty (NominalRun T read) := by
  let next (n : ℕ) (s : BikeSystem) : BikeSystem := (s.step (idleLabel read n)).getD s
  let state (n : ℕ) : BikeSystem := Nat.rec (BikeSystem.new 0) next n
  refine ⟨⟨state, idleLabel read, fun n => singleRead (1000 * slot T n), ?_, ?_, ?_, ?_, ?_, ?_⟩⟩
  · intro n
    obtain ⟨t, ht⟩ := exists_step read n (state n)
    have hnext : state (n + 1) = t := by
      change (BikeSystem.step (state n) (idleLabel read n)).getD (state n) = t
      rw [ht, Option.getD_some]
    rw [ht, hnext]
  · intro n
    unfold idleLabel
    cases start n <;> rfl
  · intro n hn
    simp only [idleLabel, hn]
  · intro n
    rfl
  · intro n
    exact List.mem_singleton_self _
  · intro n
    rfl

end Existence

/-- The call of the super-loop that is the `k`-th one of `resetTask`. -/
def resetCall (k : ℕ) : ℕ := superLoop.length * (k / 2) + if k % 2 = 0 then 4 else 10

/-- The calls repeat after every cycle. -/
theorem start_add_cycles (m n : ℕ) : start (superLoop.length * m + n) = start n := by
  simp only [start, Nat.mul_add_mod]

/-- These calls are calls of `resetTask`. -/
theorem start_resetCall (k : ℕ) : start (resetCall k) = .resetTask := by
  rw [resetCall, start_add_cycles]
  split <;> rfl

section Slots

variable (T : Type*) [Ring T]

/-- The next slot begins one computation time later. -/
theorem slot_succ (n : ℕ) :
    slot T (n + 1) = slot T n + ((timing.computationTime (start n) : ℤ) : T) := rfl

/-- The beginnings of the slots are whole milliseconds. -/
theorem slot_cast (n : ℕ) : slot T n = ((slot ℤ n : ℤ) : T) := by
  induction n with
  | zero => exact Int.cast_zero.symm
  | succ n ih => rw [slot_succ, slot_succ, ih, Int.cast_add, Int.cast_id]

/-- A cycle takes 1600 ms. -/
theorem slot_add_cycles (m n : ℕ) : slot ℤ (superLoop.length * m + n) = slot ℤ n + 1600 * m := by
  have hcycle : slot ℤ superLoop.length = 1600 := by decide
  induction m with
  | zero => simp
  | succ m ih =>
    have hshift : superLoop.length * (m + 1) + n = superLoop.length * m + n + superLoop.length := by
      ring
    have hslot : slot ℤ (superLoop.length * m + n + superLoop.length) =
        slot ℤ (superLoop.length * m + n) + slot ℤ superLoop.length :=
      slotStart_add_cycle start_add_length _
    rw [hshift, hslot, ih, hcycle]
    push_cast
    ring

/-- The reset task runs once in every reset period, from its delay on. -/
theorem slot_resetCall (k : ℕ) :
    slot T (resetCall k) = ((kResetTaskDelay + kResetTaskPeriod * k : ℤ) : T) := by
  have hfirst : slot ℤ 4 = 700 := by decide
  have hsecond : slot ℤ 10 = 1500 := by decide
  rw [slot_cast, resetCall, slot_add_cycles, kResetTaskDelay, kResetTaskPeriod]
  congr 1
  split
  · rw [hfirst]
    omega
  · rw [hsecond]
    omega

end Slots

section Detection

variable {T : Type*} [CommRing T] [LinearOrder T] {read : T → ℤ}

/-- The `n`-th call is one of `resetTask`, finds the button pressed and resets the
speedometer. -/
structure NominalRun.Resets (r : NominalRun T read) (n : ℕ) : Prop where
  call : start n = .resetTask
  detected : (r.window n).checkReset read = some true
  reset : r.state (n + 1) = { r.state n with
    speedometer := (r.state n).speedometer.reset (1000 * slot ℤ (n + 1)) }

/-- What a call of `resetTask` does is decided by the reads of its window. -/
theorem NominalRun.resetTask_cases (r : NominalRun T read) {n : ℕ} (hn : start n = .resetTask) :
    (r.Resets n ∧ ∃ t ∈ (r.window n).reads.samples, read t = kPolarityPressed) ∨
      ((r.window n).checkReset read = some false ∧ r.state (n + 1) = r.state n) := by
  have hstep := r.step_eq n
  rw [r.reset_eq n hn] at hstep
  obtain ⟨pressed, hpressed, hstate⟩ := BikeSystem.resetTask_eq_some.mp hstep
  cases pressed with
  | true => exact Or.inl ⟨⟨hn, hpressed, hstate⟩, ResetWindow.checkReset_eq_true.mp hpressed⟩
  | false => exact Or.inr ⟨hpressed, hstate⟩

/-- A window ends one computation time after its slot has begun. -/
theorem NominalRun.finish_eq (r : NominalRun T read) (n : ℕ) :
    (r.window n).finish = 1000 * slot T n + 1000 * kResetTaskComputationTime := by
  rw [ResetWindow.finish, r.window_start, r.window_duration]
  push_cast
  rfl

variable [IsStrictOrderedRing T] [Archimedean T]

/-- Some call of `resetTask` begins within a period of every instant. -/
theorem exists_resetCall {a : T} (ha : 0 ≤ a) :
    ∃ k : ℕ, a ≤ 1000 * slot T (resetCall k) ∧
      1000 * slot T (resetCall k) < a + 1000 * kResetTaskPeriod := by
  have hperiod : (0 : T) < 1000 * kResetTaskPeriod := by
    rw [kResetTaskPeriod]
    norm_num
  obtain ⟨m, ⟨hle, hlt⟩, -⟩ :=
    existsUnique_add_zsmul_mem_Ico hperiod (1000 * (kResetTaskDelay : T)) a
  have hm : 0 ≤ m := by
    by_contra hneg
    have hcast : (m : T) ≤ -1 := by exact_mod_cast (by omega : m ≤ -1)
    have hmul := mul_le_mul_of_nonneg_right hcast hperiod.le
    rw [← zsmul_eq_mul, kResetTaskPeriod] at hmul
    rw [kResetTaskPeriod, kResetTaskDelay] at hle
    push_cast at hle hmul
    linarith
  obtain ⟨k, rfl⟩ := Int.eq_ofNat_of_zero_le hm
  have hslot : 1000 * slot T (resetCall k) =
      1000 * (kResetTaskDelay : T) + (k : ℤ) • (1000 * (kResetTaskPeriod : T)) := by
    rw [slot_resetCall]
    push_cast
    rw [natCast_zsmul, nsmul_eq_mul]
    ring
  exact ⟨k, hslot ▸ hle, hslot ▸ hlt⟩

/-- Every press that begins at some time and is held for a reset period is found by a call
of `resetTask`, which resets the speedometer after the beginning of the press and before
the period and the computation time of the task have passed. A call resets it only if a
read inside its window has found the button pressed. -/
theorem held_press_resets (r : NominalRun T read) :
    (∀ a : T, 0 ≤ a →
      (∀ t, a ≤ t → t < a + 1000 * kResetTaskPeriod → read t = kPolarityPressed) →
      ∃ n, r.Resets n ∧ a < (r.window n).finish ∧
        (r.window n).finish < a + 1000 * (kResetTaskPeriod + kResetTaskComputationTime)) ∧
    ∀ n, start n = .resetTask →
      (∃ t ∈ (r.window n).reads.samples, (r.window n).start ≤ t ∧ t ≤ (r.window n).finish ∧
        read t = kPolarityPressed) ∨
      ((r.window n).checkReset read = some false ∧ r.state (n + 1) = r.state n) := by
  constructor
  · intro a ha hheld
    obtain ⟨k, hle, hlt⟩ := exists_resetCall ha
    have hstart := r.window_start (resetCall k)
    -- the first read of this window lies in the press
    have hread : read (r.window (resetCall k)).start = kPolarityPressed :=
      hheld _ (hstart ▸ hle) (hstart ▸ hlt)
    have hfound := ResetWindow.checkReset_eq_true.mpr ⟨_, r.first_read (resetCall k), hread⟩
    have hcomputation : (0 : T) < 1000 * kResetTaskComputationTime := by
      rw [kResetTaskComputationTime]
      norm_num
    refine ⟨resetCall k, ?_, ?_, ?_⟩
    · rcases r.resetTask_cases (start_resetCall k) with ⟨hresets, -⟩ | ⟨hnone, -⟩
      · exact hresets
      · exact absurd (hfound.symm.trans hnone) (by simp)
    · rw [r.finish_eq]
      exact lt_add_of_le_of_pos hle hcomputation
    · rw [r.finish_eq, mul_add, ← add_assoc]
      exact add_lt_add_left hlt _
  · intro n hn
    rcases r.resetTask_cases hn with ⟨-, t, ht, hread⟩ | hnone
    · exact Or.inl ⟨t, ht, ((r.window n).le_finish ht).1, ((r.window n).le_finish ht).2, hread⟩
    · exact Or.inr hnone

end Detection

/-- Of a button that is pressed for just one reset period, some call of `resetTask` resets
the speedometer in time. -/
theorem held_press_resets_first :
    ∃ (r : NominalRun ℤ fun t => if 0 ≤ t ∧ t < 800000 then kPolarityPressed else 0) (n : ℕ),
      r.Resets n ∧ 0 < (r.window n).finish ∧ (r.window n).finish < 900000 := by
  obtain ⟨r⟩ := exists_nominalRun fun t : ℤ =>
    if 0 ≤ t ∧ t < 800000 then kPolarityPressed else 0
  obtain ⟨n, hresets, hafter, hbefore⟩ :=
    (held_press_resets r).1 0 le_rfl fun t hle hlt =>
      if_pos ⟨hle, by simpa [kResetTaskPeriod] using hlt⟩
  exact ⟨r, n, hresets, hafter,
    by simpa [kResetTaskPeriod, kResetTaskComputationTime] using hbefore⟩

end BikeComputer.StaticScheduling
