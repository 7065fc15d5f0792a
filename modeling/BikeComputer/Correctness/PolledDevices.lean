import BikeComputer.StaticScheduling.Devices
import BikeComputer.StaticSchedulingWithEvent.Devices
import BikeComputer.MultiTasking.Devices

/-!
# Polled and interrupt-driven devices

A polling window acts on its first relevant sample and on nothing else, so one
callback per window drives the other devices through the same states. The pedal
devices count in different units; the relation between milliseconds and steps
carries the simulation, and it is tight at both bounds.
-/

namespace BikeComputer

open BusyWait

namespace StaticScheduling

namespace GearDevice

/-- What one window does with a state that changes the gear. -/
def press (joystickState : Joystick.State) (d : GearDevice) : GearDevice :=
  match joystickState with
  | .upPressed =>
    if d.currentGear < kMaxGear then { d with currentGear := d.currentGear + 1 } else d
  | .downPressed =>
    if d.currentGear > kMinGear then { d with currentGear := d.currentGear - 1 } else d
  | _ => d

/-- The loop body is a latch on the gear states. -/
theorem sample_eq_latch : sample = latch Joystick.State.isGear press := by
  funext ⟨d, hasChanged⟩ j
  cases hasChanged with
  | true => rfl
  | false =>
    cases j with
    | upPressed => by_cases h : d.currentGear < kMaxGear <;> simp [sample, latch, press, h,
        Joystick.State.isGear]
    | downPressed => by_cases h : kMinGear < d.currentGear <;> simp [sample, latch, press, h,
        Joystick.State.isGear]
    | leftPressed | rightPressed | other => rfl

/-- A window acts on its first gear state and ignores the rest. -/
theorem getCurrentGear_window (d : GearDevice) (w : Window kTaskRunTime Joystick.State) :
    d.getCurrentGear w.passes =
      some (onFirst Joystick.State.isGear press d w.samples,
        (onFirst Joystick.State.isGear press d w.samples).currentGear) := by
  rw [getCurrentGear, loop_window (by decide), sample_eq_latch, Option.map_some,
    foldl_latch_fst]

/-- The gear and the gear size after every window, or `none` if a loop is cut short. -/
def readings (d : GearDevice) : List (List (Pass Joystick.State)) → Option (List (UInt8 × UInt8))
  | [] => some []
  | ps :: pss => do
    let (d', gear) ← d.getCurrentGear ps
    let rest ← d'.readings pss
    return (gear, d'.getCurrentGearSize) :: rest

end GearDevice

namespace PedalDevice

/-- What one window does with a state that changes the pedal rotation. -/
def press (joystickState : Joystick.State) (d : PedalDevice) : PedalDevice :=
  match joystickState with
  | .leftPressed => d.decreaseRotationSpeed
  | .rightPressed => d.increaseRotationSpeed
  | _ => d

/-- The loop body is a latch on the pedal states. -/
theorem sample_eq_latch : sample = latch Joystick.State.isPedal press := by
  funext ⟨d, hasChanged⟩ j
  cases hasChanged with
  | true => rfl
  | false => cases j <;> rfl

/-- A window acts on its first pedal state and ignores the rest. -/
theorem getCurrentRotationTime_window (d : PedalDevice)
    (w : Window kTaskRunTime Joystick.State) :
    d.getCurrentRotationTime w.passes =
      some (onFirst Joystick.State.isPedal press d w.samples,
        (onFirst Joystick.State.isPedal press d w.samples).pedalRotationTime) := by
  rw [getCurrentRotationTime, loop_window (by decide), sample_eq_latch, Option.map_some,
    foldl_latch_fst]

/-- The rotation time after every window, or `none` if a loop is cut short. -/
def readings (d : PedalDevice) : List (List (Pass Joystick.State)) → Option (List ℤ)
  | [] => some []
  | ps :: pss => do
    let (d', rotationTime) ← d.getCurrentRotationTime ps
    let rest ← d'.readings pss
    return rotationTime :: rest

end PedalDevice

end StaticScheduling

namespace StaticSchedulingWithEvent

/-- Gear and gear size after each window, given the one callback it triggers. -/
def GearDevice.readings (d : GearDevice) : List (Option Joystick.State) → List (UInt8 × UInt8)
  | [] => []
  | j :: js =>
    let d' := j.elim d d.onJoystick
    (d'.getCurrentGear, d'.getCurrentGearSize) :: d'.readings js

/-- Rotation time after each window, given the one callback it triggers. -/
def PedalDevice.readings (d : PedalDevice) : List (Option Joystick.State) → List ℤ
  | [] => []
  | j :: js =>
    let d' := j.elim d d.onJoystick
    d'.getCurrentRotationTime :: d'.readings js

end StaticSchedulingWithEvent

namespace MultiTasking

/-- Gear and gear size after each window, given the one callback it triggers. -/
def GearDevice.readings (d : GearDevice) : List (Option Joystick.State) → List (UInt8 × UInt8)
  | [] => []
  | j :: js =>
    let d' := j.elim d fun j => (d.onJoystick j).1
    (d'.getCurrentGear, d'.getCurrentGearSize) :: d'.readings js

/-- Rotation time after each window, given the one callback it triggers. -/
def PedalDevice.readings (d : PedalDevice) : List (Option Joystick.State) → List ℤ
  | [] => []
  | j :: js =>
    let d' := j.elim d fun j => (d.onJoystick j).1
    d'.getCurrentRotationTime :: d'.readings js

/-- Posting apart, the gear callbacks are those of the event variant. -/
theorem GearDevice.onJoystick_currentGear {m : GearDevice}
    {e : StaticSchedulingWithEvent.GearDevice} (h : m.currentGear = e.currentGear)
    (j : Joystick.State) : (m.onJoystick j).1.currentGear = (e.onJoystick j).currentGear := by
  cases j with
  | upPressed =>
    simp only [onJoystick, onJoystickUp, StaticSchedulingWithEvent.GearDevice.onJoystick,
      StaticSchedulingWithEvent.GearDevice.onJoystickUp, h]
    split <;> simp [h]
  | downPressed =>
    simp only [onJoystick, onJoystickDown, StaticSchedulingWithEvent.GearDevice.onJoystick,
      StaticSchedulingWithEvent.GearDevice.onJoystickDown, h]
    split <;> simp [h]
  | leftPressed | rightPressed | other => exact h

/-- Posting apart, the pedal callbacks are those of the event variant. -/
theorem PedalDevice.onJoystick_currentStep {m : PedalDevice}
    {e : StaticSchedulingWithEvent.PedalDevice} (h : m.currentStep = e.currentStep)
    (j : Joystick.State) : (m.onJoystick j).1.currentStep = (e.onJoystick j).currentStep := by
  have hn : kNbSteps = StaticSchedulingWithEvent.kNbSteps := rfl
  cases j with
  | leftPressed =>
    simp only [onJoystick, onJoystickLeft, decreaseRotationSpeed,
      StaticSchedulingWithEvent.PedalDevice.onJoystick,
      StaticSchedulingWithEvent.PedalDevice.onJoystickLeft,
      StaticSchedulingWithEvent.PedalDevice.decreaseRotationSpeed, h, hn]
    split <;> simp [h]
  | rightPressed =>
    simp only [onJoystick, onJoystickRight, increaseRotationSpeed,
      StaticSchedulingWithEvent.PedalDevice.onJoystick,
      StaticSchedulingWithEvent.PedalDevice.onJoystickRight,
      StaticSchedulingWithEvent.PedalDevice.increaseRotationSpeed, h]
    split <;> simp [h]
  | upPressed | downPressed | other => exact h

end MultiTasking

section Simulation

variable {bound : ℤ}

/-- The one gear callback a window triggers. -/
def firstGear (w : Window bound Joystick.State) : Option Joystick.State :=
  w.samples.find? Joystick.State.isGear

/-- The one pedal callback a window triggers. -/
def firstPedal (w : Window bound Joystick.State) : Option Joystick.State :=
  w.samples.find? Joystick.State.isPedal

/-- A window and its callback move the gear alike. -/
theorem gear_step {d : StaticScheduling.GearDevice} {e : StaticSchedulingWithEvent.GearDevice}
    (h : d.currentGear = e.currentGear) (w : Window bound Joystick.State) :
    (onFirst Joystick.State.isGear StaticScheduling.GearDevice.press d w.samples).currentGear =
      ((firstGear w).elim e e.onJoystick).currentGear := by
  unfold onFirst firstGear
  cases w.samples.find? Joystick.State.isGear with
  | none => exact h
  | some j =>
    simp only [Option.elim_some]
    cases j with
    | upPressed =>
      simp only [StaticScheduling.GearDevice.press,
        StaticSchedulingWithEvent.GearDevice.onJoystick,
        StaticSchedulingWithEvent.GearDevice.onJoystickUp, h]
      split <;> simp [h]
    | downPressed =>
      simp only [StaticScheduling.GearDevice.press,
        StaticSchedulingWithEvent.GearDevice.onJoystick,
        StaticSchedulingWithEvent.GearDevice.onJoystickDown, h]
      split <;> simp [h]
    | leftPressed | rightPressed | other => exact h

/-- The polled gear device reads what the interrupt-driven one reads. -/
theorem gear_readings {d : StaticScheduling.GearDevice}
    {e : StaticSchedulingWithEvent.GearDevice} (h : d.currentGear = e.currentGear)
    (ws : List (Window StaticScheduling.GearDevice.kTaskRunTime Joystick.State)) :
    d.readings (ws.map Window.passes) = some (e.readings (ws.map firstGear)) := by
  induction ws generalizing d e with
  | nil => rfl
  | cons w ws ih =>
    have hstep := gear_step h w
    simp only [List.map_cons, StaticScheduling.GearDevice.readings,
      StaticScheduling.GearDevice.getCurrentGear_window, Option.bind_eq_bind, Option.bind_some,
      ih hstep, StaticSchedulingWithEvent.GearDevice.readings, Option.pure_def]
    simp only [StaticScheduling.GearDevice.getCurrentGearSize,
      StaticSchedulingWithEvent.GearDevice.getCurrentGear,
      StaticSchedulingWithEvent.GearDevice.getCurrentGearSize, hstep]

/-- Milliseconds against steps: the counters agree and are in range. -/
structure PedalRelated (d : StaticScheduling.PedalDevice)
    (e : StaticSchedulingWithEvent.PedalDevice) : Prop where
  time : d.pedalRotationTime = e.getCurrentRotationTime
  bounded : e.currentStep.toNat ≤ 45

/-- The initial step belongs to the initial rotation time. -/
theorem pedalRelated_initial : PedalRelated {} {} := ⟨by decide, by decide⟩

/-- One press in milliseconds is one press in steps, at the bounds as well. -/
theorem PedalRelated.press {d : StaticScheduling.PedalDevice}
    {e : StaticSchedulingWithEvent.PedalDevice} (h : PedalRelated d e) (j : Joystick.State) :
    PedalRelated (d.press j) (e.onJoystick j) := by
  have htime := h.time
  have hle := h.bounded
  rw [e.getCurrentRotationTime_eq] at htime
  cases j with
  | leftPressed =>
    have hms := d.decreaseRotationSpeed_time
    have hstep := e.decreaseRotationSpeed_toNat
    refine ⟨?_, ?_⟩
    · change d.decreaseRotationSpeed.pedalRotationTime =
        e.decreaseRotationSpeed.getCurrentRotationTime
      rw [e.decreaseRotationSpeed.getCurrentRotationTime_eq, hms, hstep]
      split_ifs <;> omega
    · change e.decreaseRotationSpeed.currentStep.toNat ≤ 45
      rw [hstep]
      split_ifs <;> omega
  | rightPressed =>
    have hms := d.increaseRotationSpeed_time
    have hstep := e.increaseRotationSpeed_toNat
    refine ⟨?_, ?_⟩
    · change d.increaseRotationSpeed.pedalRotationTime =
        e.increaseRotationSpeed.getCurrentRotationTime
      rw [e.increaseRotationSpeed.getCurrentRotationTime_eq, hms, hstep]
      split_ifs <;> omega
    · change e.increaseRotationSpeed.currentStep.toNat ≤ 45
      omega
  | upPressed | downPressed | other => exact h

/-- A window and its callback move the rotation time alike. -/
theorem PedalRelated.step {d : StaticScheduling.PedalDevice}
    {e : StaticSchedulingWithEvent.PedalDevice} (h : PedalRelated d e)
    (w : Window bound Joystick.State) :
    PedalRelated (onFirst Joystick.State.isPedal StaticScheduling.PedalDevice.press d w.samples)
      ((firstPedal w).elim e e.onJoystick) := by
  unfold onFirst firstPedal
  cases w.samples.find? Joystick.State.isPedal with
  | none => exact h
  | some j => exact h.press j

/-- The polled pedal device reads what the interrupt-driven one reads. -/
theorem PedalRelated.readings {d : StaticScheduling.PedalDevice}
    {e : StaticSchedulingWithEvent.PedalDevice} (h : PedalRelated d e)
    (ws : List (Window StaticScheduling.PedalDevice.kTaskRunTime Joystick.State)) :
    d.readings (ws.map Window.passes) = some (e.readings (ws.map firstPedal)) := by
  induction ws generalizing d e with
  | nil => rfl
  | cons w ws ih =>
    have hstep := h.step w
    simp only [List.map_cons, StaticScheduling.PedalDevice.readings,
      StaticScheduling.PedalDevice.getCurrentRotationTime_window, Option.bind_eq_bind,
      Option.bind_some, ih hstep, StaticSchedulingWithEvent.PedalDevice.readings,
      Option.pure_def, hstep.time]

/-- Every rotation time read is a whole number of steps, between the bounds. -/
theorem PedalRelated.readings_bounds {d : StaticScheduling.PedalDevice}
    {e : StaticSchedulingWithEvent.PedalDevice} (h : PedalRelated d e)
    (ws : List (Window bound Joystick.State)) :
    ∀ t ∈ e.readings (ws.map firstPedal), ∃ step : ℕ, step ≤ 45 ∧
      t = kMinPedalRotationTime + step * kDeltaPedalRotationTime := by
  induction ws generalizing d e with
  | nil =>
    intro t ht
    simp [StaticSchedulingWithEvent.PedalDevice.readings] at ht
  | cons w ws ih =>
    have hstep := h.step w
    intro t ht
    rw [List.map_cons, StaticSchedulingWithEvent.PedalDevice.readings] at ht
    rcases List.mem_cons.mp ht with rfl | ht
    · exact ⟨_, hstep.bounded, rfl⟩
    · exact ih hstep t ht

/-- Posting the gear does not change how it is read. -/
theorem gear_readings_multi {m : MultiTasking.GearDevice}
    {e : StaticSchedulingWithEvent.GearDevice} (h : m.currentGear = e.currentGear)
    (js : List (Option Joystick.State)) : m.readings js = e.readings js := by
  induction js generalizing m e with
  | nil => rfl
  | cons j js ih =>
    have hstep : (j.elim m fun j => (m.onJoystick j).1).currentGear =
        (j.elim e e.onJoystick).currentGear := by
      cases j with
      | none => exact h
      | some j => exact MultiTasking.GearDevice.onJoystick_currentGear h j
    simp only [MultiTasking.GearDevice.readings, StaticSchedulingWithEvent.GearDevice.readings,
      ih hstep, MultiTasking.GearDevice.getCurrentGear,
      MultiTasking.GearDevice.getCurrentGearSize,
      StaticSchedulingWithEvent.GearDevice.getCurrentGear,
      StaticSchedulingWithEvent.GearDevice.getCurrentGearSize, hstep]

/-- Posting the rotation time does not change how it is read. -/
theorem pedal_readings_multi {m : MultiTasking.PedalDevice}
    {e : StaticSchedulingWithEvent.PedalDevice} (h : m.currentStep = e.currentStep)
    (js : List (Option Joystick.State)) : m.readings js = e.readings js := by
  induction js generalizing m e with
  | nil => rfl
  | cons j js ih =>
    have hstep : (j.elim m fun j => (m.onJoystick j).1).currentStep =
        (j.elim e e.onJoystick).currentStep := by
      cases j with
      | none => exact h
      | some j => exact MultiTasking.PedalDevice.onJoystick_currentStep h j
    simp only [MultiTasking.PedalDevice.readings, StaticSchedulingWithEvent.PedalDevice.readings,
      ih hstep, MultiTasking.PedalDevice.getCurrentRotationTime,
      StaticSchedulingWithEvent.PedalDevice.getCurrentRotationTime, hstep]

/-- The polled devices, one window at a time, and the interrupt-driven devices of
both other variants, one callback per window, go through the same gears, gear sizes
and rotation times. Rotation times are whole steps between the bounds, and what a
window does depends on nothing but its first relevant sample. -/
theorem polled_devices_agree :
    (∀ ws : List (Window StaticScheduling.GearDevice.kTaskRunTime Joystick.State),
      ({} : StaticScheduling.GearDevice).readings (ws.map Window.passes) =
          some (({} : StaticSchedulingWithEvent.GearDevice).readings (ws.map firstGear)) ∧
        ({} : MultiTasking.GearDevice).readings (ws.map firstGear) =
          ({} : StaticSchedulingWithEvent.GearDevice).readings (ws.map firstGear)) ∧
    (∀ ws : List (Window StaticScheduling.PedalDevice.kTaskRunTime Joystick.State),
      ({} : StaticScheduling.PedalDevice).readings (ws.map Window.passes) =
          some (({} : StaticSchedulingWithEvent.PedalDevice).readings (ws.map firstPedal)) ∧
        ({} : MultiTasking.PedalDevice).readings (ws.map firstPedal) =
          ({} : StaticSchedulingWithEvent.PedalDevice).readings (ws.map firstPedal) ∧
        ∀ t ∈ ({} : StaticSchedulingWithEvent.PedalDevice).readings (ws.map firstPedal),
          ∃ step : ℕ, step ≤ 45 ∧
            t = kMinPedalRotationTime + step * kDeltaPedalRotationTime) ∧
    (∀ (d : StaticScheduling.GearDevice)
      (v w : Window StaticScheduling.GearDevice.kTaskRunTime Joystick.State),
      firstGear v = firstGear w → d.getCurrentGear v.passes = d.getCurrentGear w.passes) ∧
    (∀ (d : StaticScheduling.PedalDevice)
      (v w : Window StaticScheduling.PedalDevice.kTaskRunTime Joystick.State),
      firstPedal v = firstPedal w →
        d.getCurrentRotationTime v.passes = d.getCurrentRotationTime w.passes) ∧
    (∀ xs : List Joystick.State, xs ≠ [] →
      (∃ w : Window StaticScheduling.GearDevice.kTaskRunTime Joystick.State, w.samples = xs) ∧
      ∃ w : Window StaticScheduling.PedalDevice.kTaskRunTime Joystick.State,
        w.samples = xs) := by
  refine ⟨?_, ?_, ?_, ?_, ?_⟩
  · intro ws
    exact ⟨gear_readings rfl ws, gear_readings_multi rfl _⟩
  · intro ws
    exact ⟨pedalRelated_initial.readings ws, pedal_readings_multi rfl _,
      pedalRelated_initial.readings_bounds ws⟩
  · intro d v w h
    have hfirst : v.samples.find? Joystick.State.isGear =
        w.samples.find? Joystick.State.isGear := h
    simp only [StaticScheduling.GearDevice.getCurrentGear_window, onFirst, hfirst]
  · intro d v w h
    have hfirst : v.samples.find? Joystick.State.isPedal =
        w.samples.find? Joystick.State.isPedal := h
    simp only [StaticScheduling.PedalDevice.getCurrentRotationTime_window, onFirst, hfirst]
  · intro xs hne
    exact ⟨exists_window (by decide) hne, exists_window (by decide) hne⟩

/-- A window with two presses does what the first of them does alone, and two
presses are the samples of some window of each device. -/
theorem polled_devices_agree_two_presses :
    ({} : StaticScheduling.GearDevice).getCurrentGear
        [⟨.upPressed, 40000⟩, ⟨.downPressed, 100000⟩] =
      ({} : StaticScheduling.GearDevice).getCurrentGear [⟨.upPressed, 100000⟩] ∧
    (∃ w : Window StaticScheduling.GearDevice.kTaskRunTime Joystick.State,
      w.samples = [.upPressed, .downPressed]) ∧
    ∃ w : Window StaticScheduling.PedalDevice.kTaskRunTime Joystick.State,
      w.samples = [.upPressed, .downPressed] := by
  refine ⟨?_, polled_devices_agree.2.2.2.2 [.upPressed, .downPressed] (by simp)⟩
  refine polled_devices_agree.2.2.1 {} ⟨_, by simp, ?_, ?_⟩ ⟨_, by simp, ?_, ?_⟩ rfl <;>
    simp [StaticScheduling.GearDevice.kTaskRunTime]

end Simulation

end BikeComputer
