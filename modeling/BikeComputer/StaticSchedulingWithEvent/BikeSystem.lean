import BikeComputer.StaticSchedulingWithEvent.Devices
import BikeComputer.Common.EventLoop
import BikeComputer.Common.Speedometer
import BikeComputer.Core.Run

/-!
# The bike system with interrupts

The tasks still run one after the other on a single thread, but the joystick and the
reset button interrupt them. A task is run one access at a time, an access being the
load or store of a variable shared with an interrupt, or an operation on data that no
interrupt touches. Interrupt handlers run to completion between two accesses.
-/

namespace BikeComputer.StaticSchedulingWithEvent

/-- The next access of the task being run, with the local variables it has set. -/
inductive Pc where
  | idle
  | loadGear
  | loadGearSize
  | loadRotationTime
  | setCurrentRotationTime (pedalRotationTime : ℤ)
  | setGearSize
  | getCurrentSpeed
  | getDistance
  | loadResetFlag
  | clearResetFlag
  | reset
  deriving DecidableEq, Repr

/-- The devices, the speedometer, the flag of the reset and the fields that are shown. -/
structure BikeSystem where
  timer : ℤ
  gearDevice : GearDevice := {}
  currentGear : UInt8 := kMinGear
  currentGearSize : UInt8 := kMinGearSize
  pedalDevice : PedalDevice := {}
  currentSpeed : ℚ := 0
  traveledDistance : ℚ := 0
  speedometer : Speedometer
  currentTemperature : ℚ := 0
  resetFlag : Bool := false
  pc : Pc := .idle
  deriving DecidableEq, Repr

namespace BikeSystem

/-- The system is constructed at the first gear. -/
def new (elapsedTime : ℤ) : BikeSystem where
  timer := elapsedTime
  speedometer := Speedometer.new elapsedTime

/-- What can happen next. An idle thread starts a task; an access is named by the
program counter it is made at. -/
inductive Label where
  | gearTask
  | speedDistanceTask
  | temperatureTask (temperature : ℚ)
  | resetTask
  | displayTask1
  | displayTask2
  | access (pc : Pc)
  | joystick (state : Joystick.State)
  | onReset
  | tick (d : ℕ)
  deriving DecidableEq, Repr

/-- The task a label starts. -/
def Label.task? : Label → Option Task
  | .gearTask => some .gearTask
  | .speedDistanceTask => some .speedDistanceTask
  | .temperatureTask _ => some .temperatureTask
  | .resetTask => some .resetTask
  | .displayTask1 => some .displayTask1
  | .displayTask2 => some .displayTask2
  | _ => none

/-- The access at the program counter. -/
def access (s : BikeSystem) : Option BikeSystem :=
  match s.pc with
  | .idle => none
  | .loadGear =>
    some { s with currentGear := s.gearDevice.getCurrentGear, pc := .loadGearSize }
  | .loadGearSize =>
    some { s with currentGearSize := s.gearDevice.getCurrentGearSize, pc := .idle }
  | .loadRotationTime =>
    some { s with pc := .setCurrentRotationTime s.pedalDevice.getCurrentRotationTime }
  | .setCurrentRotationTime pedalRotationTime =>
    some { s with
      speedometer := s.speedometer.setCurrentRotationTime s.timer pedalRotationTime
      pc := .setGearSize }
  | .setGearSize =>
    some { s with
      speedometer := s.speedometer.setGearSize s.timer s.currentGearSize
      pc := .getCurrentSpeed }
  | .getCurrentSpeed =>
    some { s with currentSpeed := s.speedometer.getCurrentSpeed, pc := .getDistance }
  | .getDistance =>
    some { s with
      speedometer := (s.speedometer.getDistance s.timer).1
      traveledDistance := (s.speedometer.getDistance s.timer).2
      pc := .idle }
  | .loadResetFlag => some { s with pc := if s.resetFlag then .clearResetFlag else .idle }
  | .clearResetFlag => some { s with resetFlag := false, pc := .reset }
  | .reset => some { s with speedometer := s.speedometer.reset s.timer, pc := .idle }

/-- The task that starts at `pc`, if the thread is idle. -/
def start (s : BikeSystem) (pc : Pc) : Option BikeSystem :=
  if s.pc = .idle then some { s with pc := pc } else none

/-- One interrupt, the start of a task, one access of it, or a tick. -/
def step (s : BikeSystem) : Label → Option BikeSystem
  | .gearTask => s.start .loadGear
  | .speedDistanceTask => s.start .loadRotationTime
  | .temperatureTask temperature =>
    (s.start .idle).map fun s' => { s' with currentTemperature := temperature }
  | .resetTask => s.start .loadResetFlag
  | .displayTask1 | .displayTask2 => s.start .idle
  | .access pc => if s.pc = pc then s.access else none
  | .joystick state =>
    some { s with
      gearDevice := s.gearDevice.onJoystick state
      pedalDevice := s.pedalDevice.onJoystick state }
  | .onReset => some { s with resetFlag := true }
  | .tick d => some { s with timer := s.timer + d }

/-- The setter of the speedometer the next access calls, if it calls one. -/
def setters (s : BikeSystem) : List Setter :=
  match s.pc with
  | .setCurrentRotationTime pedalRotationTime => [.rotationTime pedalRotationTime]
  | .setGearSize => [.gearSize s.currentGearSize]
  | _ => []

/-- A task starts when no other one is running. -/
theorem start_eq_some {s t : BikeSystem} {pc : Pc} :
    s.start pc = some t ↔ s.pc = .idle ∧ t = { s with pc := pc } := by
  by_cases h : s.pc = .idle <;> simp [start, h, eq_comm]

/-- An access is the one the running task makes next. -/
theorem step_access {s t : BikeSystem} {pc : Pc} :
    s.step (.access pc) = some t ↔ s.pc = pc ∧ s.access = some t := by
  by_cases h : s.pc = pc <;> simp [step, h]

end BikeSystem

end BikeComputer.StaticSchedulingWithEvent
