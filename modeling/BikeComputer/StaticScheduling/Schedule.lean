import BikeComputer.Common.EventLoop
import Mathlib.Algebra.Ring.Defs

/-!
# The schedules of the polling bike system

The super-loop repeats its calls for ever; the event queue is posted every task once.
The event of the processor statistics is left out, as in test mode.
-/

namespace BikeComputer.StaticScheduling

def kGearTaskPeriod : ℤ := 800
def kGearTaskDelay : ℤ := 0
def kGearTaskComputationTime : ℤ := 100
def kSpeedDistanceTaskPeriod : ℤ := 400
def kSpeedDistanceTaskDelay : ℤ := 0
def kSpeedDistanceTaskComputationTime : ℤ := 200
def kDisplayTask1Period : ℤ := 1600
def kDisplayTask1Delay : ℤ := 300
def kDisplayTask1ComputationTime : ℤ := 200
def kResetTaskPeriod : ℤ := 800
def kResetTaskDelay : ℤ := 700
def kResetTaskComputationTime : ℤ := 100
def kTemperatureTaskPeriod : ℤ := 1600
def kTemperatureTaskDelay : ℤ := 1100
def kTemperatureTaskComputationTime : ℤ := 100
def kDisplayTask2Period : ℤ := 1600
def kDisplayTask2Delay : ℤ := 1200
def kDisplayTask2ComputationTime : ℤ := 100

/-- The constants of the tasks. -/
def timing : PeriodicQueue.Timing Task ℤ where
  delay
    | .gearTask => kGearTaskDelay
    | .speedDistanceTask => kSpeedDistanceTaskDelay
    | .temperatureTask => kTemperatureTaskDelay
    | .resetTask => kResetTaskDelay
    | .displayTask1 => kDisplayTask1Delay
    | .displayTask2 => kDisplayTask2Delay
  period
    | .gearTask => kGearTaskPeriod
    | .speedDistanceTask => kSpeedDistanceTaskPeriod
    | .temperatureTask => kTemperatureTaskPeriod
    | .resetTask => kResetTaskPeriod
    | .displayTask1 => kDisplayTask1Period
    | .displayTask2 => kDisplayTask2Period
  computationTime
    | .gearTask => kGearTaskComputationTime
    | .speedDistanceTask => kSpeedDistanceTaskComputationTime
    | .temperatureTask => kTemperatureTaskComputationTime
    | .resetTask => kResetTaskComputationTime
    | .displayTask1 => kDisplayTask1ComputationTime
    | .displayTask2 => kDisplayTask2ComputationTime

/-- The calls of one pass of the super-loop in `start`. -/
def superLoop : List Task :=
  [.gearTask, .speedDistanceTask, .displayTask1, .speedDistanceTask, .resetTask, .gearTask,
    .speedDistanceTask, .temperatureTask, .displayTask2, .speedDistanceTask, .resetTask]

/-- The `n`-th call of the super-loop. -/
def start (n : ℕ) : Task :=
  superLoop.get ⟨n % superLoop.length, Nat.mod_lt n (by decide)⟩

/-- The tasks are the first calls of the super-loop. -/
def InOrder (tasks : List Task) : Prop := tasks = (List.range tasks.length).map start

/-- The events `startWithEventQueue` posts, in order. -/
def events : List Task :=
  [.gearTask, .speedDistanceTask, .temperatureTask, .resetTask, .displayTask1, .displayTask2]

/-- `startWithEventQueue`, when the jobs take the given times. -/
def startWithEventQueue {T : Type*} [Ring T] [LinearOrder T] (times : List T) :
    Option (PeriodicQueue.State Task T) :=
  PeriodicQueue.dispatchForever (timing.map Int.cast) events times

/-- The calls repeat after every cycle. -/
theorem start_add_length (n : ℕ) : start (n + superLoop.length) = start n := by
  simp only [start, Nat.add_mod_right]

/-- Only the place in the pass matters. -/
theorem start_mod (n : ℕ) : start n = start (n % superLoop.length) := by
  simp only [start, Nat.mod_mod]

/-- Calls are in order if the last one is the next one after those before. -/
theorem inOrder_snoc {tasks : List Task} {task : Task} :
    InOrder (tasks ++ [task]) ↔ InOrder tasks ∧ task = start tasks.length := by
  unfold InOrder
  rw [List.length_append, List.length_singleton, List.range_succ, List.map_append]
  constructor
  · intro h
    obtain ⟨htasks, htask⟩ := List.append_inj' h rfl
    exact ⟨htasks, List.singleton_inj.mp htask⟩
  · rintro ⟨htasks, rfl⟩
    rw [← htasks]
    rfl

/-- The beginning of calls in order is in order. -/
theorem InOrder.of_append {tasks rest : List Task} (h : InOrder (tasks ++ rest)) :
    InOrder tasks := by
  unfold InOrder at h
  rw [List.length_append, List.range_add, List.map_append] at h
  exact (List.append_inj h (by simp)).1

/-- After whole passes come the calls of another one. -/
theorem InOrder.append_superLoop {tasks : List Task} (h : InOrder tasks)
    (hwhole : tasks.length % superLoop.length = 0) : InOrder (tasks ++ superLoop) := by
  have hpass : superLoop = (List.range superLoop.length).map fun i => start (tasks.length + i) := by
    have hstart (i : ℕ) : start (tasks.length + i) = start i := by
      rw [start_mod, Nat.add_mod, hwhole, Nat.zero_add, Nat.mod_mod, ← start_mod]
    simp only [hstart]
    decide
  unfold InOrder
  rw [List.length_append, List.range_add, List.map_append, ← h, List.map_map]
  exact congrArg (tasks ++ ·) hpass

/-- The speed is settled right before it is displayed. -/
theorem start_displayTask1 {n : ℕ} (h : start n = .displayTask1) :
    ∃ m, n = m + 1 ∧ start m = .speedDistanceTask := by
  have hslot : ∀ r < superLoop.length, start r = .displayTask1 → r = 2 := by decide
  have hn : n % 11 = 2 := by
    rw [start_mod] at h
    exact hslot _ (Nat.mod_lt n (by decide)) h
  refine ⟨n - 1, by omega, ?_⟩
  rw [start_mod, show (n - 1) % superLoop.length = 1 by change (n - 1) % 11 = 1; omega]
  rfl

/-- The first display task is called behind a speed task. -/
theorem InOrder.getLast?_of_displayTask1 {tasks : List Task}
    (h : InOrder (tasks ++ [.displayTask1])) : tasks.getLast? = some .speedDistanceTask := by
  obtain ⟨htasks, hstart⟩ := inOrder_snoc.mp h
  obtain ⟨m, hm, hspeed⟩ := start_displayTask1 hstart.symm
  rw [htasks, hm, List.range_succ, List.map_append, List.map_singleton, List.getLast?_concat,
    hspeed]

/-- The first call is the one of the gear task. -/
theorem InOrder.ne_nil {tasks : List Task} {task : Task} (h : InOrder (tasks ++ [task]))
    (htask : task ≠ .gearTask) : tasks ≠ [] := by
  rintro rfl
  exact htask (inOrder_snoc.mp h).2

end BikeComputer.StaticScheduling
