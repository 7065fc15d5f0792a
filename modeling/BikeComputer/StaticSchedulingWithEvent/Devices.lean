import BikeComputer.Common.Constants
import BikeComputer.Core.Waveform
import BikeComputer.Core.Counter
import Mathlib.Data.Int.Notation

/-!
# Interrupt-driven input devices

The joystick callbacks run to completion. The gear is kept as such, the pedal
rotation time as a number of steps above its minimum; both counters have the
wrapping arithmetic of the source's atomic operations.
-/

namespace BikeComputer.StaticSchedulingWithEvent

/-- The gear, counted by the joystick. -/
structure GearDevice where
  currentGear : UInt8 := kMinGear
  deriving DecidableEq, Repr

namespace GearDevice

/-- Up counts the gear up to the largest one. -/
def onJoystickUp (d : GearDevice) : GearDevice :=
  if d.currentGear < kMaxGear then { d with currentGear := d.currentGear + 1 } else d

/-- Down counts it down to the smallest one. -/
def onJoystickDown (d : GearDevice) : GearDevice :=
  if d.currentGear > kMinGear then { d with currentGear := d.currentGear - 1 } else d

/-- The callback registered for a joystick state. -/
def onJoystick (d : GearDevice) : Joystick.State → GearDevice
  | .upPressed => d.onJoystickUp
  | .downPressed => d.onJoystickDown
  | _ => d

/-- The gear. -/
def getCurrentGear (d : GearDevice) : UInt8 := d.currentGear

/-- The size that belongs to the gear. -/
def getCurrentGearSize (d : GearDevice) : UInt8 := kMaxGearSize - d.currentGear

end GearDevice

/-- The number of steps from the fastest to the slowest pedal rotation. -/
def kNbSteps : UInt32 :=
  UInt32.ofInt ((kMaxPedalRotationTime - kMinPedalRotationTime) / kDeltaPedalRotationTime)

/-- The step of the rotation time, counted by the joystick. -/
structure PedalDevice where
  currentStep : UInt32 :=
    UInt32.ofInt ((kInitialPedalRotationTime - kMinPedalRotationTime) / kDeltaPedalRotationTime)
  deriving DecidableEq, Repr

namespace PedalDevice

/-- The rotation time that belongs to the step. -/
def getCurrentRotationTime (d : PedalDevice) : ℤ :=
  kMinPedalRotationTime + (d.currentStep.toNat : ℤ) * kDeltaPedalRotationTime

/-- A faster rotation is one step less. -/
def increaseRotationSpeed (d : PedalDevice) : PedalDevice :=
  if d.currentStep > 0 then { d with currentStep := d.currentStep - 1 } else d

/-- A slower rotation is one step more. -/
def decreaseRotationSpeed (d : PedalDevice) : PedalDevice :=
  if d.currentStep < kNbSteps then { d with currentStep := d.currentStep + 1 } else d

/-- Left slows the pedals down. -/
def onJoystickLeft (d : PedalDevice) : PedalDevice := d.decreaseRotationSpeed

/-- Right speeds the pedals up. -/
def onJoystickRight (d : PedalDevice) : PedalDevice := d.increaseRotationSpeed

/-- The callback registered for a joystick state. -/
def onJoystick (d : PedalDevice) : Joystick.State → PedalDevice
  | .leftPressed => d.onJoystickLeft
  | .rightPressed => d.onJoystickRight
  | _ => d

end PedalDevice

namespace ResetDevice

/-- The edge of the button that calls the reset callback. -/
def edge : Waveform.Edge := .fall

end ResetDevice

/-- The number of steps does not wrap. -/
@[simp] theorem kNbSteps_toNat : kNbSteps.toNat = 45 := by decide

/-- The rotation time in numbers. -/
theorem PedalDevice.getCurrentRotationTime_eq (d : PedalDevice) :
    d.getCurrentRotationTime = 375 + (d.currentStep.toNat : ℤ) * 25 := rfl

/-- Slowing down is exact: the guard keeps the counter from wrapping. -/
theorem PedalDevice.decreaseRotationSpeed_toNat (d : PedalDevice) :
    d.decreaseRotationSpeed.currentStep.toNat =
      if d.currentStep.toNat < 45 then d.currentStep.toNat + 1 else d.currentStep.toNat := by
  have hlt : d.currentStep < kNbSteps ↔ d.currentStep.toNat < 45 := by
    rw [UInt32.lt_iff_toNat_lt, kNbSteps_toNat]
  simp only [decreaseRotationSpeed, ← hlt]
  split
  · rename_i h
    exact Counter.UInt32.succ_toNat h
  · rfl

/-- Speeding up is exact: the guard keeps the counter from wrapping. -/
theorem PedalDevice.increaseRotationSpeed_toNat (d : PedalDevice) :
    d.increaseRotationSpeed.currentStep.toNat = d.currentStep.toNat - 1 := by
  unfold increaseRotationSpeed
  split
  · rename_i h
    exact Nat.eq_sub_of_add_eq (Counter.UInt32.pred_toNat h)
  · rename_i h
    rw [gt_iff_lt, UInt32.lt_iff_toNat_lt, UInt32.toNat_zero] at h
    omega

end BikeComputer.StaticSchedulingWithEvent
