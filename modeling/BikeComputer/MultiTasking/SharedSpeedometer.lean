import BikeComputer.Common.Ride
import BikeComputer.Core.Run

/-!
# The speedometer shared by two threads

Both dispatcher threads call the one speedometer, and only the total distance is
protected by a mutex. An operation is run one access at a time: every access to the
cached speed, the last time, the total distance or the timer, and every lock and
unlock, is a step. A thread keeps the values it has read in its program counter.
Run without interruption, the steps of an operation are the operation itself.
-/

namespace BikeComputer

/-- The change test of a setter. -/
def Setter.differs (s : Speedometer) : Setter → Bool
  | .gearSize size => s.gearSize != size
  | .rotationTime time => s.pedalRotationTime != time

/-- The assignment of a setter. -/
def Setter.assign (s : Speedometer) : Setter → Speedometer
  | .gearSize size => { s with gearSize := size }
  | .rotationTime time => { s with pedalRotationTime := time }

/-- An assignment does not touch the total. -/
@[simp] theorem Setter.assign_totalDistance (x : Setter) (s : Speedometer) :
    (x.assign s).totalDistance = s.totalDistance := by
  cases x <;> rfl

/-- An assignment is the one of the setter. -/
@[simp] theorem Setter.assign_settings (x : Setter) (s : Speedometer) :
    (x.assign s).settings = x.apply s.settings := by
  cases x <;> rfl

/-- An assignment does not touch the cached speed. -/
@[simp] theorem Setter.assign_currentSpeed (x : Setter) (s : Speedometer) :
    (x.assign s).currentSpeed = s.currentSpeed := by
  cases x <;> rfl

/-- Setting a value twice is setting it once. -/
theorem Setter.apply_apply (x : Setter) (σ : Settings) : x.apply (x.apply σ) = x.apply σ := by
  cases x <;> rfl

/-- Where the change test fails, the settings are already the ones to set. -/
theorem Setter.apply_eq_of_not_differs {x : Setter} {s : Speedometer} (h : ¬ x.differs s) :
    x.apply s.settings = s.settings := by
  cases x with
  | gearSize size =>
    have he : s.gearSize = size := by simpa [Setter.differs] using h
    simp [Setter.apply, Speedometer.settings, he]
  | rotationTime time =>
    have he : s.pedalRotationTime = time := by simpa [Setter.differs] using h
    simp [Setter.apply, Speedometer.settings, he]

/-- A setter is its change test and, if that succeeds, its three statements. -/
theorem Speedometer.set_eq_assign (s : Speedometer) (now : ℤ) (x : Setter) :
    s.set now x = if x.differs s then (x.assign (s.computeDistance now)).computeSpeed else s := by
  cases x with
  | gearSize size => simp [set, setGearSize, Setter.differs, Setter.assign]
  | rotationTime time => simp [set, setCurrentRotationTime, Setter.differs, Setter.assign]

namespace MultiTasking

/-- The threads that dispatch the two event queues. -/
inductive Thread where
  | isr
  | periodic
  deriving DecidableEq, Repr

/-- What both threads access. -/
structure Shared where
  speedometer : Speedometer
  totalDistanceMutex : Option Thread := none
  timer : ℤ
  deriving DecidableEq, Repr

namespace Shared

/-- A thread waits at the mutex until no thread holds it. -/
def lock (s : Shared) (i : Thread) : Option Shared :=
  match s.totalDistanceMutex with
  | none => some { s with totalDistanceMutex := some i }
  | some _ => none

/-- The mutex is free again. -/
def unlock (s : Shared) : Shared := { s with totalDistanceMutex := none }

/-- A thread takes the mutex if that is free. -/
theorem lock_eq_some {s t : Shared} {i : Thread} :
    s.lock i = some t ↔
      s.totalDistanceMutex = none ∧ t = { s with totalDistanceMutex := some i } := by
  unfold lock
  cases s.totalDistanceMutex with
  | none => simp [eq_comm]
  | some j => simp

end Shared

/-- The next access of `reset`. -/
inductive ResetPc where
  | lock
  | clearDistance
  | clearSpeed
  | unlock
  | readTimer
  | storeLastTime (now : ℤ)
  | returned
  deriving DecidableEq, Repr

/-- One access of `reset`, in the order of the source. -/
def resetStep (s : Shared) : ResetPc → Option (Shared × ResetPc)
  | .lock => (s.lock .isr).map fun s' => (s', .clearDistance)
  | .clearDistance =>
    some ({ s with speedometer := { s.speedometer with totalDistance := 0 } }, .clearSpeed)
  | .clearSpeed =>
    some ({ s with speedometer := { s.speedometer with currentSpeed := 0 } }, .unlock)
  | .unlock => some (s.unlock, .readTimer)
  | .readTimer => some (s, .storeLastTime s.timer)
  | .storeLastTime now =>
    some ({ s with speedometer := { s.speedometer with lastTime := now } }, .returned)
  | .returned => none

/-- The operations of the periodic thread that compute a distance. -/
inductive Operation where
  | getDistance
  | set (x : Setter)
  deriving DecidableEq, Repr

/-- The public call an operation is. -/
def Operation.call : Operation → Call
  | .getDistance => .getDistance
  | .set x => .set x

/-- The next access of an operation, with the local variables it has set. The steps
from `readTimer` to `storeLastTime` are those of `computeDistance`. -/
inductive OperationPc where
  | test
  | readTimer
  | readLastTime (currentTime : ℤ)
  | readSpeed (currentTime elapsedTime : ℤ)
  | lock (currentTime : ℤ) (distance : ℚ)
  | readTotal (currentTime : ℤ) (distance : ℚ)
  | storeTotal (currentTime : ℤ) (distance total : ℚ)
  | unlock (currentTime : ℤ)
  | storeLastTime (currentTime : ℤ)
  | store
  | computeSpeed
  | readResult
  | returned (value : Option ℚ)
  deriving DecidableEq, Repr

/-- Only the setters start with a change test. -/
def Operation.entry : Operation → OperationPc
  | .getDistance => .readTimer
  | .set _ => .test

/-- What an operation does once the distance is settled. -/
def Operation.settled : Operation → OperationPc
  | .getDistance => .readResult
  | .set _ => .store

/-- One access of an operation, in the order of the source. -/
def operationStep (op : Operation) (s : Shared) : OperationPc → Option (Shared × OperationPc)
  | .test =>
    match op with
    | .set x => some (s, if x.differs s.speedometer then .readTimer else .returned none)
    | .getDistance => none
  | .readTimer => some (s, .readLastTime s.timer)
  | .readLastTime currentTime =>
    some (s, .readSpeed currentTime (toMilliseconds (currentTime - s.speedometer.lastTime)))
  | .readSpeed currentTime elapsedTime =>
    some (s, .lock currentTime (s.speedometer.currentSpeed * (elapsedTime : ℚ) / 3600000))
  | .lock currentTime distance =>
    (s.lock .periodic).map fun s' => (s', .readTotal currentTime distance)
  | .readTotal currentTime distance =>
    some (s, .storeTotal currentTime distance s.speedometer.totalDistance)
  | .storeTotal currentTime distance total =>
    some ({ s with speedometer := { s.speedometer with totalDistance := total + distance } },
      .unlock currentTime)
  | .unlock currentTime => some (s.unlock, .storeLastTime currentTime)
  | .storeLastTime currentTime =>
    some ({ s with speedometer := { s.speedometer with lastTime := currentTime } }, op.settled)
  | .store =>
    match op with
    | .set x => some ({ s with speedometer := x.assign s.speedometer }, .computeSpeed)
    | .getDistance => none
  | .computeSpeed =>
    some ({ s with speedometer := s.speedometer.computeSpeed }, .returned none)
  | .readResult => some (s, .returned (some s.speedometer.totalDistance))
  | .returned _ => none

/-- Without interruption, the accesses of `reset` are `reset`. -/
theorem reset_serial (s : Shared) (h : s.totalDistanceMutex = none) :
    Transition.run (fun p (_ : Unit) => resetStep p.1 p.2) (s, .lock) (List.replicate 6 ()) =
      some ({ s with speedometer := s.speedometer.reset s.timer }, .returned) := by
  obtain ⟨sp, m, t⟩ := s
  obtain rfl : m = none := h
  rfl

/-- Without interruption, the accesses of an operation are the operation. -/
theorem operation_serial (op : Operation) (s : Shared) (h : s.totalDistanceMutex = none) :
    ∃ n, Transition.run (fun p (_ : Unit) => operationStep op p.1 p.2) (s, op.entry)
        (List.replicate n ()) =
      some ({ s with speedometer := s.speedometer.after s.timer op.call },
        .returned (s.speedometer.value s.timer op.call)) := by
  obtain ⟨sp, m, t⟩ := s
  obtain rfl : m = none := h
  cases op with
  | getDistance => exact ⟨9, rfl⟩
  | set x =>
    have hafter : sp.after t (Operation.set x).call = sp.set t x := rfl
    rw [hafter, sp.set_eq_assign]
    by_cases hx : x.differs sp
    · refine ⟨11, Transition.run_cons_eq_some.mpr ⟨(⟨sp, none, t⟩, .readTimer), ?_, ?_⟩⟩
      · simp [operationStep, hx, Operation.entry]
      · rw [if_pos hx]
        rfl
    · refine ⟨1, Transition.run_cons_eq_some.mpr ⟨(⟨sp, none, t⟩, .returned none), ?_, ?_⟩⟩
      · simp [operationStep, hx, Operation.entry]
      · rw [if_neg hx]
        rfl

/-- The settings an operation confirms are in force once it has stored them. -/
def OperationPc.Stored (op : Operation) (σ : Settings) : OperationPc → Prop
  | .computeSpeed | .readResult | .returned _ => op.call.confirm σ = σ
  | _ => True

/-- Every access keeps the settings that will be in force when the operation returns. -/
theorem operationStep_confirm {op : Operation} {s t : Shared} {pc pc' : OperationPc}
    (h : pc.Stored op s.speedometer.settings) (hst : operationStep op s pc = some (t, pc')) :
    op.call.confirm t.speedometer.settings = op.call.confirm s.speedometer.settings ∧
      pc'.Stored op t.speedometer.settings := by
  cases pc with
  | test =>
    cases op with
    | getDistance => exact absurd hst (by simp [operationStep])
    | set x =>
      obtain ⟨rfl, rfl⟩ := Prod.mk.inj (Option.some.inj hst)
      refine ⟨rfl, ?_⟩
      split
      · trivial
      · rename_i hx
        exact Setter.apply_eq_of_not_differs hx
  | lock currentTime distance =>
    obtain ⟨q, hlock, hq⟩ := Option.map_eq_some_iff.mp hst
    obtain ⟨rfl, rfl⟩ := Prod.mk.inj hq
    obtain ⟨-, rfl⟩ := Shared.lock_eq_some.mp hlock
    exact ⟨rfl, trivial⟩
  | storeLastTime currentTime =>
    obtain ⟨rfl, rfl⟩ := Prod.mk.inj (Option.some.inj hst)
    cases op with
    | getDistance => exact ⟨rfl, rfl⟩
    | set x => exact ⟨rfl, trivial⟩
  | store =>
    cases op with
    | getDistance => exact absurd hst (by simp [operationStep])
    | set x =>
      obtain ⟨rfl, rfl⟩ := Prod.mk.inj (Option.some.inj hst)
      have hsettings := x.assign_settings s.speedometer
      refine ⟨?_, ?_⟩
      · rw [hsettings]
        exact x.apply_apply s.speedometer.settings
      · rw [OperationPc.Stored, hsettings]
        exact x.apply_apply s.speedometer.settings
  | computeSpeed | readResult =>
    obtain ⟨rfl, rfl⟩ := Prod.mk.inj (Option.some.inj hst)
    exact ⟨rfl, h⟩
  | readTimer | readLastTime | readSpeed | readTotal | storeTotal | unlock =>
    obtain ⟨rfl, rfl⟩ := Prod.mk.inj (Option.some.inj hst)
    exact ⟨rfl, trivial⟩
  | returned value => exact absurd hst (by simp [operationStep])

end MultiTasking

end BikeComputer
