import BikeComputer.Common.Constants
import BikeComputer.Core.Waveform
import Mathlib.Data.Int.Notation

/-!
# Posting input devices

Every change of a counter is posted to the event queue with the values the counter
has after it. A callback returns the new device and the events it posts, in order.
-/

namespace BikeComputer.MultiTasking

/-- The events posted without delay, with the arguments they carry. -/
inductive Event where
  | gear (gear gearSize : UInt8)
  | pedal (rotationTime : ℤ)
  deriving DecidableEq, Repr

/-- The gear, counted by the joystick. -/
structure GearDevice where
  currentGear : UInt8 := kMinGear
  deriving DecidableEq, Repr

namespace GearDevice

/-- The gear. -/
def getCurrentGear (d : GearDevice) : UInt8 := d.currentGear

/-- The size that belongs to the gear. -/
def getCurrentGearSize (d : GearDevice) : UInt8 := kMaxGearSize - d.currentGear

/-- The event carries the gear and its size. -/
def postEvent (d : GearDevice) : List Event := [.gear d.getCurrentGear d.getCurrentGearSize]

/-- Below the largest gear, the next one is posted. -/
def onJoystickUp (d : GearDevice) : GearDevice × List Event :=
  if d.currentGear < kMaxGear then
    let d' := { d with currentGear := d.currentGear + 1 }
    (d', d'.postEvent)
  else (d, [])

/-- Above the smallest gear, the one before is posted. -/
def onJoystickDown (d : GearDevice) : GearDevice × List Event :=
  if d.currentGear > kMinGear then
    let d' := { d with currentGear := d.currentGear - 1 }
    (d', d'.postEvent)
  else (d, [])

/-- The callback registered for a joystick state. -/
def onJoystick (d : GearDevice) : Joystick.State → GearDevice × List Event
  | .upPressed => d.onJoystickUp
  | .downPressed => d.onJoystickDown
  | _ => (d, [])

end GearDevice

/-- The number of steps from the fastest to the slowest pedal rotation. -/
def kNbSteps : UInt32 :=
  UInt32.ofInt ((kMaxPedalRotationTime - kMinPedalRotationTime) / kDeltaPedalRotationTime)

/-- The number of steps does not wrap. -/
@[simp] theorem kNbSteps_toNat : kNbSteps.toNat = 45 := by decide

/-- The step of the rotation time, counted by the joystick. -/
structure PedalDevice where
  currentStep : UInt32 :=
    UInt32.ofInt ((kInitialPedalRotationTime - kMinPedalRotationTime) / kDeltaPedalRotationTime)
  deriving DecidableEq, Repr

namespace PedalDevice

/-- The rotation time that belongs to the step. -/
def getCurrentRotationTime (d : PedalDevice) : ℤ :=
  kMinPedalRotationTime + (d.currentStep.toNat : ℤ) * kDeltaPedalRotationTime

/-- The event carries the rotation time. -/
def postEvent (d : PedalDevice) : List Event := [.pedal d.getCurrentRotationTime]

/-- The constructor posts the initial rotation time. -/
def new : PedalDevice × List Event := ({}, postEvent {})

/-- A faster rotation is one step less. -/
def increaseRotationSpeed (d : PedalDevice) : PedalDevice × List Event :=
  if d.currentStep > 0 then
    let d' := { d with currentStep := d.currentStep - 1 }
    (d', d'.postEvent)
  else (d, [])

/-- A slower rotation is one step more. -/
def decreaseRotationSpeed (d : PedalDevice) : PedalDevice × List Event :=
  if d.currentStep < kNbSteps then
    let d' := { d with currentStep := d.currentStep + 1 }
    (d', d'.postEvent)
  else (d, [])

/-- Left slows the pedals down. -/
def onJoystickLeft (d : PedalDevice) : PedalDevice × List Event := d.decreaseRotationSpeed

/-- Right speeds the pedals up. -/
def onJoystickRight (d : PedalDevice) : PedalDevice × List Event := d.increaseRotationSpeed

/-- The callback registered for a joystick state. -/
def onJoystick (d : PedalDevice) : Joystick.State → PedalDevice × List Event
  | .leftPressed => d.onJoystickLeft
  | .rightPressed => d.onJoystickRight
  | _ => (d, [])

end PedalDevice

namespace ResetDevice

/-- The edge of the button that calls the reset callback. -/
def edge : Waveform.Edge := .fall

end ResetDevice

/-- A gear callback changes the gear by one inside its bounds and posts it with its size,
or changes nothing. -/
theorem GearDevice.onJoystick_cases (d : GearDevice) (j : Joystick.State) :
    d.onJoystick j = (d, []) ∨
      ∃ g, d.onJoystick j = (⟨g⟩, [.gear g (kMaxGearSize - g)]) ∧
        (d.currentGear < kMaxGear ∧ g = d.currentGear + 1 ∨
          kMinGear < d.currentGear ∧ g = d.currentGear - 1) := by
  cases j with
  | upPressed =>
    by_cases h : d.currentGear < kMaxGear
    · refine Or.inr ⟨d.currentGear + 1, ?_, Or.inl ⟨h, rfl⟩⟩
      simp [onJoystick, onJoystickUp, h, postEvent, getCurrentGear, getCurrentGearSize]
    · exact Or.inl (by simp [onJoystick, onJoystickUp, h])
  | downPressed =>
    by_cases h : d.currentGear > kMinGear
    · refine Or.inr ⟨d.currentGear - 1, ?_, Or.inr ⟨h, rfl⟩⟩
      simp [onJoystick, onJoystickDown, h, postEvent, getCurrentGear, getCurrentGearSize]
    · exact Or.inl (by simp [onJoystick, onJoystickDown, h])
  | leftPressed | rightPressed | other => exact Or.inl rfl

/-- A pedal callback changes the step by one inside its bounds and posts the new rotation
time, or changes nothing. -/
theorem PedalDevice.onJoystick_cases (d : PedalDevice) (j : Joystick.State) :
    d.onJoystick j = (d, []) ∨
      ∃ d', d.onJoystick j = (d', [.pedal d'.getCurrentRotationTime]) ∧
        (d.currentStep < kNbSteps ∧ d'.currentStep = d.currentStep + 1 ∨
          0 < d.currentStep ∧ d'.currentStep = d.currentStep - 1) := by
  cases j with
  | leftPressed =>
    by_cases h : d.currentStep < kNbSteps
    · refine Or.inr ⟨⟨d.currentStep + 1⟩, ?_, Or.inl ⟨h, rfl⟩⟩
      simp [onJoystick, onJoystickLeft, decreaseRotationSpeed, h, postEvent]
    · exact Or.inl (by simp [onJoystick, onJoystickLeft, decreaseRotationSpeed, h])
  | rightPressed =>
    by_cases h : d.currentStep > 0
    · refine Or.inr ⟨⟨d.currentStep - 1⟩, ?_, Or.inr ⟨h, rfl⟩⟩
      simp [onJoystick, onJoystickRight, increaseRotationSpeed, h, postEvent]
    · exact Or.inl (by simp [onJoystick, onJoystickRight, increaseRotationSpeed, h])
  | upPressed | downPressed | other => exact Or.inl rfl

end BikeComputer.MultiTasking
