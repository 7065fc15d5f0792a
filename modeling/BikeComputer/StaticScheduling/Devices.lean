import BikeComputer.Common.Constants
import BikeComputer.Core.BusyWait

/-!
# Polled input devices

Each device samples its input for the whole of its task run time and changes at
most once in it. The joystick and the button are read through the passes of a
busy-wait loop; `none` means that the given passes do not end the loop.
-/

namespace BikeComputer.StaticScheduling

/-- The gear, counted by the joystick. -/
structure GearDevice where
  currentGear : UInt8 := kMinGear
  deriving DecidableEq, Repr

namespace GearDevice

def kTaskRunTime : ℤ := 100000

/-- One pass of the sampling loop; the flag is `hasChanged`. -/
def sample (s : GearDevice × Bool) (joystickState : Joystick.State) : GearDevice × Bool :=
  let (d, hasChanged) := s
  if !hasChanged then
    match joystickState with
    | .upPressed =>
      if d.currentGear < kMaxGear then ({ d with currentGear := d.currentGear + 1 }, true)
      else (d, true)
    | .downPressed =>
      if d.currentGear > kMinGear then ({ d with currentGear := d.currentGear - 1 }, true)
      else (d, true)
    | _ => (d, false)
  else (d, hasChanged)

/-- Sample for the task run time, then return the gear. -/
def getCurrentGear (d : GearDevice) (passes : List (BusyWait.Pass Joystick.State)) :
    Option (GearDevice × UInt8) :=
  (BusyWait.loop kTaskRunTime sample (d, false) 0 passes).map fun s => (s.1, s.1.currentGear)

/-- The size that belongs to the gear. -/
def getCurrentGearSize (d : GearDevice) : UInt8 := kMaxGearSize - d.currentGear

end GearDevice

/-- The rotation time, changed by the joystick. -/
structure PedalDevice where
  pedalRotationTime : ℤ := kInitialPedalRotationTime
  deriving DecidableEq, Repr

namespace PedalDevice

def kTaskRunTime : ℤ := 200000

/-- A faster rotation takes less time. -/
def increaseRotationSpeed (d : PedalDevice) : PedalDevice :=
  if d.pedalRotationTime > kMinPedalRotationTime then
    { d with pedalRotationTime := d.pedalRotationTime - kDeltaPedalRotationTime }
  else d

/-- A slower rotation takes more time. -/
def decreaseRotationSpeed (d : PedalDevice) : PedalDevice :=
  if d.pedalRotationTime < kMaxPedalRotationTime then
    { d with pedalRotationTime := d.pedalRotationTime + kDeltaPedalRotationTime }
  else d

/-- A faster rotation in numbers. -/
theorem increaseRotationSpeed_time (d : PedalDevice) :
    d.increaseRotationSpeed.pedalRotationTime =
      if 375 < d.pedalRotationTime then d.pedalRotationTime - 25 else d.pedalRotationTime := by
  by_cases h : 375 < d.pedalRotationTime <;>
    simp [increaseRotationSpeed, kMinPedalRotationTime, kDeltaPedalRotationTime, h]

/-- A slower rotation in numbers. -/
theorem decreaseRotationSpeed_time (d : PedalDevice) :
    d.decreaseRotationSpeed.pedalRotationTime =
      if d.pedalRotationTime < 1500 then d.pedalRotationTime + 25 else d.pedalRotationTime := by
  by_cases h : d.pedalRotationTime < 1500 <;>
    simp [decreaseRotationSpeed, kMaxPedalRotationTime, kDeltaPedalRotationTime, h]

/-- One pass of the sampling loop; the flag is `hasChanged`. -/
def sample (s : PedalDevice × Bool) (joystickState : Joystick.State) : PedalDevice × Bool :=
  let (d, hasChanged) := s
  if !hasChanged then
    match joystickState with
    | .leftPressed => (d.decreaseRotationSpeed, true)
    | .rightPressed => (d.increaseRotationSpeed, true)
    | _ => (d, false)
  else (d, hasChanged)

/-- Sample for the task run time, then return the rotation time. -/
def getCurrentRotationTime (d : PedalDevice) (passes : List (BusyWait.Pass Joystick.State)) :
    Option (PedalDevice × ℤ) :=
  (BusyWait.loop kTaskRunTime sample (d, false) 0 passes).map fun s =>
    (s.1, s.1.pedalRotationTime)

end PedalDevice

/-- The button reads one while it is pressed. -/
def kPolarityPressed : ℤ := 1

namespace ResetDevice

def kTaskRunTime : ℤ := 100000

/-- One pass of the sampling loop; the flag is `resetDetect`. -/
def sample (resetDetect : Bool) (read : ℤ) : Bool :=
  if read = kPolarityPressed then true else resetDetect

/-- Sample for the task run time and report whether the button was ever pressed. -/
def checkReset (passes : List (BusyWait.Pass ℤ)) : Option Bool :=
  BusyWait.loop kTaskRunTime sample false 0 passes

end ResetDevice

end BikeComputer.StaticScheduling
