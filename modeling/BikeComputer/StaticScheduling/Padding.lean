import BikeComputer.StaticScheduling.Schedule
import BikeComputer.Common.Constants
import BikeComputer.Core.Truncation
import BikeComputer.Core.Counter

/-!
# Tasks padded to their computation time

Three tasks read the time their own work has taken and sleep for the rest of their
computation time. The rest is a signed difference, but the sleeping time is an unsigned
one, so a task that is late by a whole millisecond sleeps for almost fifty days.
-/

namespace BikeComputer.StaticScheduling

/-- The milliseconds handed to `sleep_for`, which takes them as a `uint32_t`. -/
def sleepTime (computationTime workTime : ℤ) : UInt32 :=
  UInt32.ofInt (computationTime - toMilliseconds workTime)

/-- The duration, in microseconds, of a task that is padded after its own work. -/
def paddedDuration (computationTime workTime : ℤ) : ℤ :=
  workTime + 1000 * ((sleepTime computationTime workTime).toNat : ℤ)

/-- How long the temperature task takes if its own work takes the given time. -/
def temperatureTaskDuration (workTime : ℤ) : ℤ :=
  paddedDuration kTemperatureTaskComputationTime workTime

/-- How long the first display task takes. -/
def displayTask1Duration (workTime : ℤ) : ℤ :=
  paddedDuration kDisplayTask1ComputationTime workTime

/-- How long the second display task takes. -/
def displayTask2Duration (workTime : ℤ) : ℤ :=
  paddedDuration kDisplayTask2ComputationTime workTime

/-- What padding is for: the difference handed to `sleep_for` is not negative, and the
task takes the longer of its computation time and its own work, or less than a
millisecond more. -/
structure Padded (computationTime workTime duration : ℤ) : Prop where
  sleeps : 0 ≤ computationTime - toMilliseconds workTime
  long_enough : max (1000 * computationTime) workTime ≤ duration
  no_overshoot : duration < max (1000 * computationTime) workTime + 1000

/-- A difference that is not negative is slept exactly. -/
theorem sleepTime_toNat {computationTime workTime : ℤ} (hcomputation : computationTime < 2 ^ 32)
    (hwork : 0 ≤ workTime) (h : toMilliseconds workTime ≤ computationTime) :
    ((sleepTime computationTime workTime).toNat : ℤ) =
      computationTime - toMilliseconds workTime := by
  have hnonneg : 0 ≤ toMilliseconds workTime := Truncation.tdiv_nonneg hwork (by decide)
  rw [sleepTime, Counter.UInt32.ofInt_toNat]
  omega

/-- Padding works for every task that is late by less than a millisecond, and for no
other one. -/
theorem padded_iff {computationTime workTime : ℤ} (hcomputation : computationTime < 2 ^ 32)
    (hwork : 0 ≤ workTime) :
    Padded computationTime workTime (paddedDuration computationTime workTime) ↔
      workTime < 1000 * computationTime + 1000 := by
  have hdiv : toMilliseconds workTime = workTime / 1000 := Truncation.tdiv_eq_ediv hwork 1000
  constructor
  · rintro ⟨hsleeps, -, -⟩
    omega
  · intro hlate
    have hsleep := sleepTime_toNat hcomputation hwork (by omega)
    constructor
    · omega
    · rw [paddedDuration, hsleep]
      omega
    · rw [paddedDuration, hsleep]
      omega

/-- Each of the three tasks is padded to its computation time exactly when its own work
is late by less than a millisecond. -/
theorem tasks_padded_iff (workTime : ℤ) (hwork : 0 ≤ workTime) :
    (Padded kTemperatureTaskComputationTime workTime (temperatureTaskDuration workTime) ↔
      workTime < 1000 * kTemperatureTaskComputationTime + 1000) ∧
    (Padded kDisplayTask1ComputationTime workTime (displayTask1Duration workTime) ↔
      workTime < 1000 * kDisplayTask1ComputationTime + 1000) ∧
    (Padded kDisplayTask2ComputationTime workTime (displayTask2Duration workTime) ↔
      workTime < 1000 * kDisplayTask2ComputationTime + 1000) :=
  ⟨padded_iff (by decide) hwork, padded_iff (by decide) hwork, padded_iff (by decide) hwork⟩

/-- A task that has worked for a quarter of its computation time sleeps for the rest. -/
theorem tasks_padded_early :
    Padded kTemperatureTaskComputationTime 25500 (temperatureTaskDuration 25500) ∧
      temperatureTaskDuration 25500 = 100500 :=
  ⟨(tasks_padded_iff 25500 (by decide)).1.mpr (by decide), by decide⟩

/-- A temperature task that is late by one millisecond sleeps for `2 ^ 32 - 1` of them. -/
theorem temperatureTask_late :
    temperatureTaskDuration 101000 = 101000 + 1000 * (2 ^ 32 - 1) ∧
      ¬ ∀ workTime : ℤ, 0 ≤ workTime →
        Padded kTemperatureTaskComputationTime workTime (temperatureTaskDuration workTime) ∧
        Padded kDisplayTask1ComputationTime workTime (displayTask1Duration workTime) ∧
        Padded kDisplayTask2ComputationTime workTime (displayTask2Duration workTime) := by
  refine ⟨by decide, fun h => ?_⟩
  obtain ⟨hpadded, -, -⟩ := h 101000 (by decide)
  exact absurd hpadded.no_overshoot (by decide)

end BikeComputer.StaticScheduling
