import BikeComputer.Common.Constants
import BikeComputer.Core.Truncation

/-!
# The speedometer

The record holds the five data members that the operations read and write, and
each operation takes the timer reading it makes as an argument. Floats are exact
rationals. The two setters are guarded by a change test, settle the distance at
the old speed and only then recompute the cached speed.
-/

namespace BikeComputer

/-- The data members, with their initial values. -/
structure Speedometer where
  lastTime : ℤ := 0
  pedalRotationTime : ℤ := kInitialPedalRotationTime
  currentSpeed : ℚ := 0
  totalDistance : ℚ := 0
  gearSize : UInt8 := 19
  deriving DecidableEq, Repr

namespace Speedometer

def kWheelCircumference : ℚ := 21 / 10
def kTraySize : UInt8 := 50

/-- The constructor reads the timer once. -/
def new (elapsedTime : ℤ) : Speedometer := { lastTime := elapsedTime }

/-- Recompute the cached speed from the gear size and the rotation time. -/
def computeSpeed (s : Speedometer) : Speedometer :=
  let gearRatio : ℚ := (kTraySize.toNat : ℚ) / (s.gearSize.toNat : ℚ)
  let distPerTurn := kWheelCircumference * gearRatio
  { s with currentSpeed := distPerTurn * 3600 / (s.pedalRotationTime : ℚ) }

/-- Add the distance ridden since the last reading, counted in whole
milliseconds, and remember the full microsecond reading. -/
def computeDistance (s : Speedometer) (currentTime : ℤ) : Speedometer :=
  let elapsedTime := toMilliseconds (currentTime - s.lastTime)
  let distance := s.currentSpeed * (elapsedTime : ℚ) / 3600000
  { s with totalDistance := s.totalDistance + distance, lastTime := currentTime }

/-- A new rotation time settles the distance before it changes the speed. -/
def setCurrentRotationTime (s : Speedometer) (now : ℤ)
    (currentRotationTime : ℤ) : Speedometer :=
  if s.pedalRotationTime ≠ currentRotationTime then
    { s.computeDistance now with pedalRotationTime := currentRotationTime }.computeSpeed
  else s

/-- A new gear size settles the distance before it changes the speed. -/
def setGearSize (s : Speedometer) (now : ℤ) (gearSize : UInt8) : Speedometer :=
  if s.gearSize ≠ gearSize then
    { s.computeDistance now with gearSize := gearSize }.computeSpeed
  else s

/-- The cached speed. -/
def getCurrentSpeed (s : Speedometer) : ℚ := s.currentSpeed

/-- The distance is settled before it is read. -/
def getDistance (s : Speedometer) (now : ℤ) : Speedometer × ℚ :=
  let s' := s.computeDistance now
  (s', s'.totalDistance)

/-- Besides the distance, the source clears the cached speed. -/
def reset (s : Speedometer) (now : ℤ) : Speedometer :=
  { s with totalDistance := 0, currentSpeed := 0, lastTime := now }

end Speedometer

/-- The two values a caller sets. -/
structure Settings where
  gearSize : UInt8
  rotationTime : ℤ
  deriving DecidableEq, Repr

/-- The settings of a fresh speedometer. -/
def Settings.initial : Settings := ⟨19, kInitialPedalRotationTime⟩

/-- Neither divisor of the speed formula can vanish. -/
def Settings.Positive (σ : Settings) : Prop := 0 < σ.gearSize ∧ 0 < σ.rotationTime

/-- The speed, in km/h, that belongs to given settings. -/
def Settings.speed (σ : Settings) : ℚ :=
  Speedometer.kWheelCircumference *
    ((Speedometer.kTraySize.toNat : ℚ) / (σ.gearSize.toNat : ℚ)) * 3600 / (σ.rotationTime : ℚ)

/-- The initial divisors are positive. -/
theorem Settings.initial_positive : Settings.initial.Positive := by
  unfold Positive
  decide

/-- With positive divisors the speed is positive. -/
theorem Settings.speed_pos {σ : Settings} (h : σ.Positive) : 0 < σ.speed := by
  have hg : (0 : ℚ) < (σ.gearSize.toNat : ℚ) := by
    exact_mod_cast UInt8.lt_iff_toNat_lt.mp h.1
  have hr : (0 : ℚ) < (σ.rotationTime : ℚ) := by exact_mod_cast h.2
  have hk : (0 : ℚ) < Speedometer.kWheelCircumference := by
    unfold Speedometer.kWheelCircumference
    norm_num
  have ht : (0 : ℚ) < (Speedometer.kTraySize.toNat : ℚ) := by
    exact_mod_cast (by decide : 0 < Speedometer.kTraySize.toNat)
  unfold speed
  positivity

/-- One call of a setter. -/
inductive Setter where
  | gearSize (size : UInt8)
  | rotationTime (time : ℤ)
  deriving DecidableEq, Repr

/-- The settings a setter confirms. -/
def Setter.apply : Setter → Settings → Settings
  | .gearSize size, σ => { σ with gearSize := size }
  | .rotationTime time, σ => { σ with rotationTime := time }

/-- The arguments for which the speed formula has a divisor. -/
def Setter.Admissible : Setter → Prop
  | .gearSize size => 0 < size
  | .rotationTime time => 0 < time

/-- An admissible value keeps the divisors positive. -/
theorem Setter.apply_positive {x : Setter} {σ : Settings} (hx : x.Admissible)
    (h : σ.Positive) : (x.apply σ).Positive := by
  cases x with
  | gearSize size => exact ⟨hx, h.2⟩
  | rotationTime time => exact ⟨h.1, hx⟩

namespace Speedometer

/-- The two values that have been set. -/
def settings (s : Speedometer) : Settings := ⟨s.gearSize, s.pedalRotationTime⟩

/-- Both setters of the source, by the value they set. -/
def set (s : Speedometer) (now : ℤ) : Setter → Speedometer
  | .gearSize size => s.setGearSize now size
  | .rotationTime time => s.setCurrentRotationTime now time

/-- The distance, in km, that is added when the distance is settled at `now`. -/
def increment (s : Speedometer) (now : ℤ) : ℚ :=
  s.currentSpeed * (toMilliseconds (now - s.lastTime) : ℚ) / 3600000

/-- The constructor leaves the initial settings. -/
@[simp] theorem new_settings (t : ℤ) : (new t).settings = Settings.initial := rfl
/-- The constructor computes no speed. -/
@[simp] theorem new_currentSpeed (t : ℤ) : (new t).currentSpeed = 0 := rfl
/-- Nothing has been ridden at the construction. -/
@[simp] theorem new_totalDistance (t : ℤ) : (new t).totalDistance = 0 := rfl

/-- Settling the distance leaves the settings alone. -/
@[simp] theorem computeDistance_settings (s : Speedometer) (now : ℤ) :
    (s.computeDistance now).settings = s.settings := rfl
/-- Settling the distance leaves the speed alone. -/
@[simp] theorem computeDistance_currentSpeed (s : Speedometer) (now : ℤ) :
    (s.computeDistance now).currentSpeed = s.currentSpeed := rfl
/-- Settling the distance adds the increment. -/
@[simp] theorem computeDistance_totalDistance (s : Speedometer) (now : ℤ) :
    (s.computeDistance now).totalDistance = s.totalDistance + s.increment now := rfl
/-- Settling the distance remembers the reading. -/
@[simp] theorem computeDistance_lastTime (s : Speedometer) (now : ℤ) :
    (s.computeDistance now).lastTime = now := rfl

/-- Reading the distance settles it. -/
@[simp] theorem getDistance_fst (s : Speedometer) (now : ℤ) :
    (s.getDistance now).1 = s.computeDistance now := rfl
/-- What is read is the settled distance. -/
@[simp] theorem getDistance_snd (s : Speedometer) (now : ℤ) :
    (s.getDistance now).2 = s.totalDistance + s.increment now := rfl

/-- A reset leaves the settings alone. -/
@[simp] theorem reset_settings (s : Speedometer) (now : ℤ) :
    (s.reset now).settings = s.settings := rfl
/-- A reset clears the cached speed. -/
@[simp] theorem reset_currentSpeed (s : Speedometer) (now : ℤ) :
    (s.reset now).currentSpeed = 0 := rfl
/-- A reset clears the distance. -/
@[simp] theorem reset_totalDistance (s : Speedometer) (now : ℤ) :
    (s.reset now).totalDistance = 0 := rfl
/-- A reset remembers its reading. -/
@[simp] theorem reset_lastTime (s : Speedometer) (now : ℤ) :
    (s.reset now).lastTime = now := rfl

/-- Distance accrues at a nonzero speed, from the first whole millisecond on. -/
theorem increment_eq_zero_iff {s : Speedometer} {u : ℤ} (hu : s.lastTime ≤ u) :
    s.increment u = 0 ↔ s.currentSpeed = 0 ∨ u - s.lastTime < 1000 := by
  have hd : 0 ≤ u - s.lastTime := by omega
  rw [← Truncation.tdiv_eq_zero_iff hd (by decide : (0 : ℤ) < 1000)]
  unfold increment toMilliseconds
  simp

/-- Four readings determine a speedometer. -/
theorem ext_settings {s t : Speedometer} (hσ : s.settings = t.settings)
    (hv : s.currentSpeed = t.currentSpeed) (hd : s.totalDistance = t.totalDistance)
    (hl : s.lastTime = t.lastTime) : s = t := by
  cases s
  cases t
  simp_all [settings]

/-- A setter that confirms the settings in force changes nothing at all. -/
theorem set_of_apply_eq {s : Speedometer} {x : Setter} (h : x.apply s.settings = s.settings)
    (now : ℤ) : s.set now x = s := by
  cases x with
  | gearSize size =>
    have hg : size = s.gearSize := congrArg Settings.gearSize h
    simp [set, setGearSize, hg]
  | rotationTime time =>
    have hr : time = s.pedalRotationTime := congrArg Settings.rotationTime h
    simp [set, setCurrentRotationTime, hr]

/-- A setter that changes the settings settles the distance at the old speed and
caches the speed of the new settings. -/
theorem set_of_apply_ne {s : Speedometer} {x : Setter} (h : x.apply s.settings ≠ s.settings)
    (now : ℤ) :
    (s.set now x).settings = x.apply s.settings ∧
      (s.set now x).currentSpeed = (x.apply s.settings).speed ∧
      (s.set now x).totalDistance = s.totalDistance + s.increment now ∧
      (s.set now x).lastTime = now := by
  cases x with
  | gearSize size =>
    have hg : s.gearSize ≠ size := fun he => h (by simp [Setter.apply, settings, he])
    rw [set, setGearSize, if_pos hg]
    exact ⟨rfl, rfl, rfl, rfl⟩
  | rotationTime time =>
    have hr : s.pedalRotationTime ≠ time := fun he => h (by simp [Setter.apply, settings, he])
    rw [set, setCurrentRotationTime, if_pos hr]
    exact ⟨rfl, rfl, rfl, rfl⟩

/-- Whether or not the guard skips it, a setter leaves its settings in force. -/
@[simp] theorem set_settings (s : Speedometer) (now : ℤ) (x : Setter) :
    (s.set now x).settings = x.apply s.settings := by
  by_cases h : x.apply s.settings = s.settings
  · rw [set_of_apply_eq h, h]
  · exact (set_of_apply_ne h now).1

end Speedometer

end BikeComputer
