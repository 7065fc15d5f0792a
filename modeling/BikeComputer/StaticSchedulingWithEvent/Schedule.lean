import BikeComputer.Common.EventLoop
import Mathlib.Algebra.Ring.Defs

/-!
# The schedule of the bike system with interrupts

Every task is posted to the event queue once. The event of the processor statistics is
left out, as in test mode.
-/

namespace BikeComputer.StaticSchedulingWithEvent

def kGearTaskPeriod : ℤ := 800
def kGearTaskDelay : ℤ := 0
def kGearTaskComputationTime : ℤ := 100
def kSpeedDistanceTaskPeriod : ℤ := 400
def kSpeedDistanceTaskDelay : ℤ := 0
def kSpeedDistanceTaskComputationTime : ℤ := 200
def kDisplayTask1Period : ℤ := 1600
def kDisplayTask1Delay : ℤ := 300
def kDisplayTask1ComputationTime : ℤ := 200
def kResetTaskPeriod : ℤ := 800
def kResetTaskDelay : ℤ := 700
def kResetTaskComputationTime : ℤ := 100
def kTemperatureTaskPeriod : ℤ := 1600
def kTemperatureTaskDelay : ℤ := 1100
def kTemperatureTaskComputationTime : ℤ := 100
def kDisplayTask2Period : ℤ := 1600
def kDisplayTask2Delay : ℤ := 1200
def kDisplayTask2ComputationTime : ℤ := 100

/-- The constants of the tasks. -/
def timing : PeriodicQueue.Timing Task ℤ where
  delay
    | .gearTask => kGearTaskDelay
    | .speedDistanceTask => kSpeedDistanceTaskDelay
    | .temperatureTask => kTemperatureTaskDelay
    | .resetTask => kResetTaskDelay
    | .displayTask1 => kDisplayTask1Delay
    | .displayTask2 => kDisplayTask2Delay
  period
    | .gearTask => kGearTaskPeriod
    | .speedDistanceTask => kSpeedDistanceTaskPeriod
    | .temperatureTask => kTemperatureTaskPeriod
    | .resetTask => kResetTaskPeriod
    | .displayTask1 => kDisplayTask1Period
    | .displayTask2 => kDisplayTask2Period
  computationTime
    | .gearTask => kGearTaskComputationTime
    | .speedDistanceTask => kSpeedDistanceTaskComputationTime
    | .temperatureTask => kTemperatureTaskComputationTime
    | .resetTask => kResetTaskComputationTime
    | .displayTask1 => kDisplayTask1ComputationTime
    | .displayTask2 => kDisplayTask2ComputationTime

/-- The events `start` posts, in order. -/
def events : List Task :=
  [.gearTask, .speedDistanceTask, .temperatureTask, .resetTask, .displayTask1, .displayTask2]

/-- `start`, when the jobs take the given times. -/
def start {T : Type*} [Ring T] [LinearOrder T] (times : List T) :
    Option (PeriodicQueue.State Task T) :=
  PeriodicQueue.dispatchForever (timing.map Int.cast) events times

end BikeComputer.StaticSchedulingWithEvent
