import BikeComputer.StaticScheduling.Devices
import BikeComputer.Common.EventLoop
import BikeComputer.Common.Speedometer
import BikeComputer.Core.Run

/-!
# The polling bike system

The tasks run one after the other on a single thread, and the devices are only
sampled inside them. A label is the execution of one task with what it samples and
the timer readings it makes; it is refused if the samples do not fill the window.
-/

namespace BikeComputer.StaticScheduling

/-- The devices, the speedometer and the fields that are shown. -/
structure BikeSystem where
  gearDevice : GearDevice := {}
  currentGear : UInt8 := kMinGear
  currentGearSize : UInt8 := kMinGearSize
  pedalDevice : PedalDevice := {}
  currentSpeed : ℚ := 0
  traveledDistance : ℚ := 0
  speedometer : Speedometer
  currentTemperature : ℚ := 0
  deriving DecidableEq, Repr

namespace BikeSystem

/-- The system is constructed at the first gear. -/
def new (elapsedTime : ℤ) : BikeSystem where
  speedometer := Speedometer.new elapsedTime

/-- The joystick is sampled, and both values of the gear are loaded. -/
def gearTask (s : BikeSystem) (passes : List (BusyWait.Pass Joystick.State)) :
    Option BikeSystem := do
  let (gearDevice, currentGear) ← s.gearDevice.getCurrentGear passes
  return { s with
    gearDevice := gearDevice
    currentGear := currentGear
    currentGearSize := gearDevice.getCurrentGearSize }

/-- The readings are those of the two setters and of the distance. -/
def speedDistanceTask (s : BikeSystem) (passes : List (BusyWait.Pass Joystick.State))
    (t₁ t₂ t₃ : ℤ) : Option BikeSystem := do
  let (pedalDevice, pedalRotationTime) ← s.pedalDevice.getCurrentRotationTime passes
  let speedometer := s.speedometer.setCurrentRotationTime t₁ pedalRotationTime
  let speedometer := speedometer.setGearSize t₂ s.currentGearSize
  let currentSpeed := speedometer.getCurrentSpeed
  let (speedometer, traveledDistance) := speedometer.getDistance t₃
  return { s with
    pedalDevice := pedalDevice
    speedometer := speedometer
    currentSpeed := currentSpeed
    traveledDistance := traveledDistance }

/-- The temperature is the one the sensor reads. -/
def temperatureTask (s : BikeSystem) (temperature : ℚ) : BikeSystem :=
  { s with currentTemperature := temperature }

/-- The button is sampled, and the speedometer is reset if it has been found pressed. -/
def resetTask (s : BikeSystem) (passes : List (BusyWait.Pass ℤ)) (now : ℤ) :
    Option BikeSystem := do
  let pressed ← ResetDevice.checkReset passes
  return if pressed then { s with speedometer := s.speedometer.reset now } else s

/-- One execution of a task. The display tasks change nothing. -/
inductive Label where
  | gearTask (passes : List (BusyWait.Pass Joystick.State))
  | speedDistanceTask (passes : List (BusyWait.Pass Joystick.State)) (t₁ t₂ t₃ : ℤ)
  | temperatureTask (temperature : ℚ)
  | resetTask (passes : List (BusyWait.Pass ℤ)) (now : ℤ)
  | displayTask1
  | displayTask2

/-- The task a label executes. -/
def Label.task : Label → Task
  | .gearTask _ => .gearTask
  | .speedDistanceTask .. => .speedDistanceTask
  | .temperatureTask _ => .temperatureTask
  | .resetTask .. => .resetTask
  | .displayTask1 => .displayTask1
  | .displayTask2 => .displayTask2

/-- One task is executed. -/
def step (s : BikeSystem) : Label → Option BikeSystem
  | .gearTask passes => s.gearTask passes
  | .speedDistanceTask passes t₁ t₂ t₃ => s.speedDistanceTask passes t₁ t₂ t₃
  | .temperatureTask temperature => some (s.temperatureTask temperature)
  | .resetTask passes now => s.resetTask passes now
  | .displayTask1 | .displayTask2 => some s

/-- The setters of the speedometer a task calls, in order. -/
def setters (s : BikeSystem) : Label → List Setter
  | .speedDistanceTask passes _ _ _ =>
    match s.pedalDevice.getCurrentRotationTime passes with
    | some (_, pedalRotationTime) =>
      [.rotationTime pedalRotationTime, .gearSize s.currentGearSize]
    | none => []
  | _ => []

/-- The gear task samples the gear device and copies its gear and gear size. -/
theorem gearTask_eq_some {s t : BikeSystem} {passes : List (BusyWait.Pass Joystick.State)} :
    s.gearTask passes = some t ↔
      ∃ d gear, s.gearDevice.getCurrentGear passes = some (d, gear) ∧
        t = { s with
          gearDevice := d
          currentGear := gear
          currentGearSize := d.getCurrentGearSize } := by
  cases h : s.gearDevice.getCurrentGear passes with
  | none => simp [gearTask, h]
  | some p =>
    obtain ⟨d, gear⟩ := p
    simp [gearTask, h, eq_comm]

/-- The speed task hands the sampled rotation time and the copied gear size to the
speedometer, in this order, and settles the distance. -/
theorem speedDistanceTask_eq_some {s t : BikeSystem}
    {passes : List (BusyWait.Pass Joystick.State)} {t₁ t₂ t₃ : ℤ} :
    s.speedDistanceTask passes t₁ t₂ t₃ = some t ↔
      ∃ d pedalRotationTime,
        s.pedalDevice.getCurrentRotationTime passes = some (d, pedalRotationTime) ∧
        let speedometer := (s.speedometer.set t₁ (.rotationTime pedalRotationTime)).set t₂
          (.gearSize s.currentGearSize)
        t = { s with
          pedalDevice := d
          speedometer := (speedometer.getDistance t₃).1
          currentSpeed := speedometer.getCurrentSpeed
          traveledDistance := (speedometer.getDistance t₃).2 } := by
  cases h : s.pedalDevice.getCurrentRotationTime passes with
  | none => simp [speedDistanceTask, h]
  | some p =>
    obtain ⟨d, pedalRotationTime⟩ := p
    simp [speedDistanceTask, h, eq_comm, Speedometer.set]

/-- The reset task resets the speedometer if the button was sampled as pressed. -/
theorem resetTask_eq_some {s t : BikeSystem} {passes : List (BusyWait.Pass ℤ)} {now : ℤ} :
    s.resetTask passes now = some t ↔
      ∃ pressed, ResetDevice.checkReset passes = some pressed ∧
        t = if pressed then { s with speedometer := s.speedometer.reset now } else s := by
  cases h : ResetDevice.checkReset passes with
  | none => simp [resetTask, h]
  | some pressed => cases pressed <;> simp [resetTask, h, eq_comm]

end BikeSystem

end BikeComputer.StaticScheduling
