import Mathlib.Data.Rat.Defs
import Mathlib.Data.Int.Notation

/-!
# Constants and inputs of the bike system

Durations are signed counts, as in `std::chrono`: pedal rotation times and task
constants in milliseconds, timer readings in microseconds. Gears and gear sizes
keep the wrapping arithmetic of `uint8_t`.
-/

namespace BikeComputer

/-- `duration_cast` from microseconds to milliseconds truncates toward zero. -/
def toMilliseconds (d : ℤ) : ℤ := d.tdiv 1000

def kMinGear : UInt8 := 1
def kMaxGear : UInt8 := 9

/-- The smallest gear corresponds to the largest size. -/
def kMaxGearSize : UInt8 := 20
def kMinGearSize : UInt8 := kMaxGearSize - kMaxGear

def kInitialPedalRotationTime : ℤ := 750
def kMinPedalRotationTime : ℤ := 375
def kMaxPedalRotationTime : ℤ := 1500
def kDeltaPedalRotationTime : ℤ := 25

/-- The joystick states the devices tell apart. -/
inductive Joystick.State where
  | upPressed
  | downPressed
  | leftPressed
  | rightPressed
  | other
  deriving DecidableEq, Repr

/-- The states that change the gear. -/
def Joystick.State.isGear : Joystick.State → Bool
  | .upPressed | .downPressed => true
  | _ => false

/-- The states that change the pedal rotation. -/
def Joystick.State.isPedal : Joystick.State → Bool
  | .leftPressed | .rightPressed => true
  | _ => false

end BikeComputer
