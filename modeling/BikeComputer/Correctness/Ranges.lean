import BikeComputer.Common.Ranges
import BikeComputer.StaticScheduling.BikeSystem
import BikeComputer.StaticSchedulingWithEvent.BikeSystem
import BikeComputer.MultiTasking.BikeSystem

/-!
# Ranges in the three bike systems

The devices keep their counters in range in each of the three implementations, and
the values travel to the speedometer through copied fields, local variables and
queued events. The invariant of each variant puts every one of these in range.
-/

namespace BikeComputer

namespace StaticScheduling

/-- A window leaves the gear in range. -/
theorem GearDevice.getCurrentGear_inRange {d d' : GearDevice} {gear : UInt8}
    {passes : List (BusyWait.Pass Joystick.State)} (h : GearInRange d.currentGear)
    (hd : d.getCurrentGear passes = some (d', gear)) : GearInRange d'.currentGear := by
  obtain ⟨s, hs, he⟩ := Option.map_eq_some_iff.mp hd
  obtain ⟨rfl, -⟩ := Prod.mk.inj he
  refine BusyWait.loop_invariant (I := fun s => GearInRange s.1.currentGear) ?_ h hs
  rintro ⟨e, hasChanged⟩ j he
  cases hasChanged with
  | true => exact he
  | false =>
    cases j with
    | upPressed =>
      by_cases hlt : e.currentGear < kMaxGear
      · simpa [sample, hlt] using he.succ hlt
      · simpa [sample, hlt] using he
    | downPressed =>
      by_cases hlt : kMinGear < e.currentGear
      · simpa [sample, hlt] using he.pred hlt
      · simpa [sample, hlt] using he
    | leftPressed | rightPressed | other => exact he

/-- A window leaves the rotation time in range, and returns it. -/
theorem PedalDevice.getCurrentRotationTime_inRange {d d' : PedalDevice} {time : ℤ}
    {passes : List (BusyWait.Pass Joystick.State)}
    (h : RotationTimeInRange d.pedalRotationTime)
    (hd : d.getCurrentRotationTime passes = some (d', time)) :
    RotationTimeInRange d'.pedalRotationTime ∧ time = d'.pedalRotationTime := by
  obtain ⟨s, hs, he⟩ := Option.map_eq_some_iff.mp hd
  obtain ⟨rfl, rfl⟩ := Prod.mk.inj he
  refine ⟨?_, rfl⟩
  refine BusyWait.loop_invariant (I := fun s => RotationTimeInRange s.1.pedalRotationTime)
    ?_ h hs
  rintro ⟨e, hasChanged⟩ j he
  cases hasChanged with
  | true => exact he
  | false =>
    cases j with
    | leftPressed =>
      by_cases hlt : e.pedalRotationTime < kMaxPedalRotationTime
      · simpa [sample, decreaseRotationSpeed, hlt] using he.slower hlt
      · simpa [sample, decreaseRotationSpeed, hlt] using he
    | rightPressed =>
      by_cases hlt : kMinPedalRotationTime < e.pedalRotationTime
      · simpa [sample, increaseRotationSpeed, hlt] using he.faster hlt
      · simpa [sample, increaseRotationSpeed, hlt] using he
    | upPressed | downPressed | other => exact he

namespace BikeSystem

/-- The devices, the copied gear size and the speedometer are in range. -/
structure Safe (s : BikeSystem) : Prop where
  gear : GearInRange s.gearDevice.currentGear
  currentGearSize : GearSizeInRange s.currentGearSize
  rotationTime : RotationTimeInRange s.pedalDevice.pedalRotationTime
  speedometer : s.speedometer.InRange

/-- The system is constructed in range. -/
theorem new_safe (elapsedTime : ℤ) : Safe (new elapsedTime) where
  gear := kMinGear_inRange
  currentGearSize := kMinGearSize_inRange
  rotationTime := Settings.initial_inRange.2
  speedometer := Speedometer.new_inRange elapsedTime

/-- The setters a task calls get arguments in range. -/
theorem Safe.setters {s : BikeSystem} (h : Safe s) (a : Label) : ∀ x ∈ s.setters a, x.InRange := by
  cases a with
  | speedDistanceTask passes t₁ t₂ t₃ =>
    intro x hx
    simp only [BikeSystem.setters] at hx
    split at hx
    · rename_i d time hd
      obtain ⟨hrange, rfl⟩ := PedalDevice.getCurrentRotationTime_inRange h.rotationTime hd
      rcases List.mem_pair.mp hx with rfl | rfl
      · exact hrange
      · exact h.currentGearSize
    · exact absurd hx List.not_mem_nil
  | gearTask | temperatureTask | resetTask | displayTask1 | displayTask2 =>
    exact fun x hx => absurd hx List.not_mem_nil

/-- Every task keeps the ranges. -/
theorem Safe.step {s t : BikeSystem} {a : Label} (h : Safe s) (hst : s.step a = some t) :
    Safe t := by
  cases a with
  | gearTask passes =>
    obtain ⟨d, gear, hd, rfl⟩ := gearTask_eq_some.mp hst
    have hgear := GearDevice.getCurrentGear_inRange h.gear hd
    exact ⟨hgear, hgear.gearSize, h.rotationTime, h.speedometer⟩
  | speedDistanceTask passes t₁ t₂ t₃ =>
    obtain ⟨d, time, hd, rfl⟩ := speedDistanceTask_eq_some.mp hst
    obtain ⟨hrange, rfl⟩ := PedalDevice.getCurrentRotationTime_inRange h.rotationTime hd
    have hset := (h.speedometer.set t₁ (x := .rotationTime d.pedalRotationTime) hrange).set t₂
      (x := .gearSize s.currentGearSize) h.currentGearSize
    exact ⟨h.gear, h.currentGearSize, hrange, hset.computeDistance t₃⟩
  | temperatureTask temperature =>
    obtain rfl := Option.some.inj hst
    exact ⟨h.gear, h.currentGearSize, h.rotationTime, h.speedometer⟩
  | resetTask passes now =>
    obtain ⟨pressed, -, rfl⟩ := resetTask_eq_some.mp hst
    cases pressed with
    | true => exact ⟨h.gear, h.currentGearSize, h.rotationTime, h.speedometer.reset now⟩
    | false => exact h
  | displayTask1 | displayTask2 =>
    obtain rfl := Option.some.inj hst
    exact h

end BikeSystem

end StaticScheduling

namespace StaticSchedulingWithEvent

/-- A callback leaves the gear in range. -/
theorem GearDevice.onJoystick_inRange {d : GearDevice} (h : GearInRange d.currentGear)
    (j : Joystick.State) : GearInRange (d.onJoystick j).currentGear := by
  cases j with
  | upPressed =>
    by_cases hlt : d.currentGear < kMaxGear
    · simpa [onJoystick, onJoystickUp, hlt] using h.succ hlt
    · simpa [onJoystick, onJoystickUp, hlt] using h
  | downPressed =>
    by_cases hlt : kMinGear < d.currentGear
    · simpa [onJoystick, onJoystickDown, hlt] using h.pred hlt
    · simpa [onJoystick, onJoystickDown, hlt] using h
  | leftPressed | rightPressed | other => exact h

/-- A callback leaves the step counter in range. -/
theorem PedalDevice.onJoystick_le {d : PedalDevice} (h : d.currentStep.toNat ≤ 45)
    (j : Joystick.State) : (d.onJoystick j).currentStep.toNat ≤ 45 := by
  cases j with
  | leftPressed =>
    change d.decreaseRotationSpeed.currentStep.toNat ≤ 45
    rw [d.decreaseRotationSpeed_toNat]
    split <;> omega
  | rightPressed =>
    change d.increaseRotationSpeed.currentStep.toNat ≤ 45
    rw [d.increaseRotationSpeed_toNat]
    omega
  | upPressed | downPressed | other => exact h

/-- A step up to the last one has a rotation time in range. -/
theorem PedalDevice.getCurrentRotationTime_inRange {d : PedalDevice}
    (h : d.currentStep.toNat ≤ 45) : RotationTimeInRange d.getCurrentRotationTime :=
  rotationTimeInRange_iff.mpr ⟨d.currentStep.toNat, h, d.getCurrentRotationTime_eq⟩

/-- The initial step is not beyond the last one. -/
theorem PedalDevice.initial_le : ({} : PedalDevice).currentStep.toNat ≤ 45 := by decide

namespace BikeSystem

/-- The devices, the local rotation time, the copied gear size and the speedometer are
in range. -/
structure Safe (s : BikeSystem) : Prop where
  gear : GearInRange s.gearDevice.currentGear
  step_le : s.pedalDevice.currentStep.toNat ≤ 45
  currentGearSize : GearSizeInRange s.currentGearSize
  handed : ∀ x ∈ s.setters, x.InRange
  speedometer : s.speedometer.InRange

/-- The system is constructed in range. -/
theorem new_safe (elapsedTime : ℤ) : Safe (new elapsedTime) where
  gear := kMinGear_inRange
  step_le := PedalDevice.initial_le
  currentGearSize := kMinGearSize_inRange
  handed := by simp [setters, new]
  speedometer := Speedometer.new_inRange elapsedTime

/-- Every access keeps the ranges. -/
theorem Safe.access {s t : BikeSystem} (h : Safe s) (hst : s.access = some t) : Safe t := by
  obtain ⟨hgear, hstep, hsize, hhanded, hspeed⟩ := h
  unfold BikeSystem.access at hst
  cases hp : s.pc with
  | idle => simp [hp] at hst
  | loadGear | getCurrentSpeed | clearResetFlag =>
    rw [hp] at hst
    obtain rfl := Option.some.inj hst
    exact ⟨hgear, hstep, hsize, by simp [setters], hspeed⟩
  | loadGearSize =>
    rw [hp] at hst
    obtain rfl := Option.some.inj hst
    exact ⟨hgear, hstep, hgear.gearSize, by simp [setters], hspeed⟩
  | loadRotationTime =>
    rw [hp] at hst
    obtain rfl := Option.some.inj hst
    have hrange := PedalDevice.getCurrentRotationTime_inRange hstep
    exact ⟨hgear, hstep, hsize, by simpa [setters, Setter.InRange] using hrange, hspeed⟩
  | setCurrentRotationTime time =>
    rw [hp] at hst
    obtain rfl := Option.some.inj hst
    have hx : (Setter.rotationTime time).InRange := hhanded _ (by simp [setters, hp])
    exact ⟨hgear, hstep, hsize, by simpa [setters, Setter.InRange] using hsize,
      hspeed.set s.timer hx⟩
  | setGearSize =>
    rw [hp] at hst
    obtain rfl := Option.some.inj hst
    have hx : (Setter.gearSize s.currentGearSize).InRange := hsize
    exact ⟨hgear, hstep, hsize, by simp [setters], hspeed.set s.timer hx⟩
  | getDistance =>
    rw [hp] at hst
    obtain rfl := Option.some.inj hst
    exact ⟨hgear, hstep, hsize, by simp [setters], hspeed.computeDistance s.timer⟩
  | loadResetFlag =>
    rw [hp] at hst
    obtain rfl := Option.some.inj hst
    refine ⟨hgear, hstep, hsize, ?_, hspeed⟩
    cases s.resetFlag <;> simp [setters]
  | reset =>
    rw [hp] at hst
    obtain rfl := Option.some.inj hst
    exact ⟨hgear, hstep, hsize, by simp [setters], hspeed.reset s.timer⟩

/-- Every step keeps the ranges. -/
theorem Safe.step {s t : BikeSystem} {a : Label} (h : Safe s) (hst : s.step a = some t) :
    Safe t := by
  cases a with
  | gearTask | speedDistanceTask | resetTask | displayTask1 | displayTask2 =>
    obtain ⟨-, rfl⟩ := start_eq_some.mp hst
    exact ⟨h.gear, h.step_le, h.currentGearSize, by simp [setters], h.speedometer⟩
  | temperatureTask temperature =>
    obtain ⟨m, hm, rfl⟩ := Option.map_eq_some_iff.mp hst
    obtain ⟨-, rfl⟩ := start_eq_some.mp hm
    exact ⟨h.gear, h.step_le, h.currentGearSize, by simp [setters], h.speedometer⟩
  | access pc => exact h.access (step_access.mp hst).2
  | joystick j =>
    obtain rfl := Option.some.inj hst
    exact ⟨GearDevice.onJoystick_inRange h.gear j, PedalDevice.onJoystick_le h.step_le j,
      h.currentGearSize, h.handed, h.speedometer⟩
  | onReset | tick =>
    obtain rfl := Option.some.inj hst
    exact ⟨h.gear, h.step_le, h.currentGearSize, h.handed, h.speedometer⟩

end BikeSystem

end StaticSchedulingWithEvent

namespace MultiTasking

/-- A callback leaves the gear in range, and posts its size. -/
theorem GearDevice.onJoystick_inRange {d : GearDevice} (h : GearInRange d.currentGear)
    (j : Joystick.State) :
    GearInRange (d.onJoystick j).1.currentGear ∧
      ∀ e ∈ (d.onJoystick j).2, e.setter.InRange := by
  rcases d.onJoystick_cases j with hj | ⟨g, hj, hg⟩
  · simpa [hj] using h
  · have hrange : GearInRange g := by
      rcases hg with ⟨hlt, rfl⟩ | ⟨hlt, rfl⟩
      · exact h.succ hlt
      · exact h.pred hlt
    rw [hj]
    refine ⟨hrange, fun e he => ?_⟩
    obtain rfl := List.mem_singleton.mp he
    exact hrange.gearSize

/-- A step up to the last one has a rotation time in range. -/
theorem PedalDevice.getCurrentRotationTime_inRange {d : PedalDevice}
    (h : d.currentStep.toNat ≤ 45) : RotationTimeInRange d.getCurrentRotationTime :=
  rotationTimeInRange_iff.mpr ⟨d.currentStep.toNat, h, rfl⟩

/-- A callback leaves the step counter in range, and posts its rotation time. -/
theorem PedalDevice.onJoystick_inRange {d : PedalDevice} (h : d.currentStep.toNat ≤ 45)
    (j : Joystick.State) :
    (d.onJoystick j).1.currentStep.toNat ≤ 45 ∧
      ∀ e ∈ (d.onJoystick j).2, e.setter.InRange := by
  rcases d.onJoystick_cases j with hj | ⟨d', hj, hd⟩
  · simpa [hj] using h
  · have hrange : d'.currentStep.toNat ≤ 45 := by
      rcases hd with ⟨hlt, hstep⟩ | ⟨hlt, hstep⟩
      · have hlt' := UInt32.lt_iff_toNat_lt.mp hlt
        rw [kNbSteps_toNat] at hlt'
        rw [hstep, Counter.UInt32.succ_toNat hlt]
        omega
      · have hpred := Counter.UInt32.pred_toNat hlt
        rw [hstep]
        omega
    rw [hj]
    refine ⟨hrange, fun e he => ?_⟩
    obtain rfl := List.mem_singleton.mp he
    exact getCurrentRotationTime_inRange hrange

/-- The ISR thread at most clears the speed. -/
theorem resetStep_inRange {s t : Shared} {pc pc' : ResetPc} (h : s.speedometer.InRange)
    (hst : resetStep s pc = some (t, pc')) : t.speedometer.InRange := by
  cases pc with
  | lock =>
    obtain ⟨q, hlock, hq⟩ := Option.map_eq_some_iff.mp hst
    obtain ⟨rfl, rfl⟩ := Prod.mk.inj hq
    obtain ⟨-, rfl⟩ := Shared.lock_eq_some.mp hlock
    exact h
  | clearSpeed =>
    obtain ⟨rfl, rfl⟩ := Prod.mk.inj (Option.some.inj hst)
    exact ⟨h.settings, le_refl 0, Speedometer.maxSpeed_nonneg⟩
  | clearDistance | unlock | readTimer | storeLastTime =>
    obtain ⟨rfl, rfl⟩ := Prod.mk.inj (Option.some.inj hst)
    exact h.congr rfl rfl
  | returned => exact absurd hst (by simp [resetStep])

/-- The operations an event or the display task starts, with arguments in range. -/
def Operation.InRange : Operation → Prop
  | .getDistance => True
  | .set x => x.InRange

/-- An operation stores its argument and computes the speed that belongs to it. -/
theorem operationStep_inRange {op : Operation} {s t : Shared} {pc pc' : OperationPc}
    (hop : op.InRange) (h : s.speedometer.InRange)
    (hst : operationStep op s pc = some (t, pc')) : t.speedometer.InRange := by
  cases pc with
  | lock currentTime distance =>
    obtain ⟨q, hlock, hq⟩ := Option.map_eq_some_iff.mp hst
    obtain ⟨rfl, rfl⟩ := Prod.mk.inj hq
    obtain ⟨-, rfl⟩ := Shared.lock_eq_some.mp hlock
    exact h
  | test =>
    cases op with
    | getDistance => exact absurd hst (by simp [operationStep])
    | set x =>
      obtain ⟨rfl, rfl⟩ := Prod.mk.inj (Option.some.inj hst)
      exact h
  | store =>
    cases op with
    | getDistance => exact absurd hst (by simp [operationStep])
    | set x =>
      obtain ⟨rfl, rfl⟩ := Prod.mk.inj (Option.some.inj hst)
      have hsettings := x.assign_settings s.speedometer
      have hspeed := x.assign_currentSpeed s.speedometer
      refine ⟨?_, ?_, ?_⟩
      · rw [hsettings]
        exact Setter.apply_inRange hop h.settings
      · rw [hspeed]
        exact h.currentSpeed_nonneg
      · rw [hspeed]
        exact h.currentSpeed_le
  | computeSpeed =>
    obtain ⟨rfl, rfl⟩ := Prod.mk.inj (Option.some.inj hst)
    exact Speedometer.InRange.computeSpeed h.settings
  | readTimer | readLastTime | readSpeed | readTotal | storeTotal | unlock | storeLastTime
  | readResult =>
    obtain ⟨rfl, rfl⟩ := Prod.mk.inj (Option.some.inj hst)
    exact h.congr rfl rfl
  | returned value => exact absurd hst (by simp [operationStep])

/-- The setter a callback is going to call, if it calls one. -/
def Activity.setter : Activity → Option Setter
  | .onGearEvent _ gearSize => some (.gearSize gearSize)
  | .onPedalEvent rotationTime => some (.rotationTime rotationTime)
  | .operation (.set x) _ => some x
  | _ => none

namespace BikeSystem

/-- The devices, the pending events, the callback being run and the speedometer are in
range. -/
structure Safe (s : BikeSystem) : Prop where
  gear : GearInRange s.gearDevice.currentGear
  step_le : s.pedalDevice.currentStep.toNat ≤ 45
  pending : ∀ e ∈ s.eventQueuePeriodic, e.setter.InRange
  handed : ∀ x ∈ s.periodic.setter, x.InRange
  speedometer : s.shared.speedometer.InRange

/-- The system is constructed in range. -/
theorem new_safe (elapsedTime : ℤ) : Safe (new elapsedTime) where
  gear := kMinGear_inRange
  step_le := by
    change ({} : PedalDevice).currentStep.toNat ≤ 45
    decide
  pending := by
    intro e he
    obtain rfl := List.mem_singleton.mp he
    exact PedalDevice.getCurrentRotationTime_inRange (by decide)
  handed := by simp [new, Activity.setter]
  speedometer := Speedometer.new_inRange elapsedTime

/-- Every access of the periodic thread keeps the values in range. -/
theorem Safe.periodicStep {s t : BikeSystem} (h : Safe s) (hst : s.periodicStep = some t) :
    Safe t := by
  obtain ⟨hgear, hstep, hpending, hhanded, hspeed⟩ := h
  rcases periodicStep_cases hst with ⟨gear, gearSize, hp, rfl⟩ | ⟨rotationTime, hp, rfl⟩ |
    ⟨hp, rfl⟩ | ⟨op, value, hp, rfl⟩ | ⟨op, pc, shared, pc', hp, hop, rfl⟩
  · rw [hp] at hhanded
    exact ⟨hgear, hstep, hpending, hhanded, hspeed⟩
  · rw [hp] at hhanded
    exact ⟨hgear, hstep, hpending, hhanded, hspeed⟩
  · exact ⟨hgear, hstep, hpending, by simp [Activity.setter], hspeed⟩
  · exact ⟨hgear, hstep, hpending, by simp [Activity.setter], hspeed⟩
  · rw [hp] at hhanded
    have hrange : op.InRange := by
      cases op with
      | getDistance => trivial
      | set x => exact hhanded x rfl
    refine ⟨hgear, hstep, hpending, ?_, operationStep_inRange hrange hspeed hop⟩
    cases op <;> exact hhanded

/-- Every access of the ISR thread keeps the values in range. -/
theorem Safe.isrStep {s t : BikeSystem} (h : Safe s) (hst : s.isrStep = some t) : Safe t := by
  rcases isrStep_cases hst with ⟨-, n, -, rfl⟩ | ⟨-, rfl⟩ | ⟨pc, shared, pc', -, hreset, rfl⟩
  · exact ⟨h.gear, h.step_le, h.pending, h.handed, h.speedometer⟩
  · exact ⟨h.gear, h.step_le, h.pending, h.handed, h.speedometer⟩
  · exact ⟨h.gear, h.step_le, h.pending, h.handed, resetStep_inRange h.speedometer hreset⟩

/-- Every step keeps the ranges. -/
theorem Safe.step {s t : BikeSystem} {a : Label} (h : Safe s) (hst : s.step a = some t) :
    Safe t := by
  cases a with
  | joystick j =>
    obtain rfl := Option.some.inj hst
    obtain ⟨hgear, hgears⟩ := GearDevice.onJoystick_inRange h.gear j
    obtain ⟨hstep, hpedals⟩ := PedalDevice.onJoystick_inRange h.step_le j
    refine ⟨hgear, hstep, ?_, h.handed, h.speedometer⟩
    intro e he
    simp only [onJoystick, List.mem_append, or_assoc] at he
    rcases he with he | he | he
    · exact h.pending e he
    · exact hgears e he
    · exact hpedals e he
  | dispatch e =>
    obtain ⟨-, es, hq, rfl⟩ := step_dispatch.mp hst
    have hfront : e.setter.InRange := h.pending e (by simp [hq])
    refine ⟨h.gear, h.step_le, fun e' he' => h.pending e' (by simp [hq, he']), ?_,
      h.speedometer⟩
    intro x hx
    cases e <;> exact Option.some.inj hx ▸ hfront
  | onReset | tick =>
    obtain rfl := Option.some.inj hst
    exact ⟨h.gear, h.step_le, h.pending, h.handed, h.speedometer⟩
  | displayTask =>
    obtain ⟨-, rfl⟩ := step_displayTask.mp hst
    exact ⟨h.gear, h.step_le, h.pending, by simp [Activity.setter], h.speedometer⟩
  | temperatureTask temperature =>
    obtain ⟨-, rfl⟩ := step_temperatureTask.mp hst
    exact ⟨h.gear, h.step_le, h.pending, h.handed, h.speedometer⟩
  | periodic => exact h.periodicStep hst
  | isr => exact h.isrStep hst

end BikeSystem

end MultiTasking

/-- In every state of every run of each of the three bike systems, whatever the order of
presses, samples, tasks, dispatches and resets: nothing wraps around, nothing is
divided by zero, and what is handed to the speedometer and the speed are in range. -/
theorem no_wrap_no_division_by_zero (elapsedTime : ℤ) :
    (∀ tr s, Transition.run StaticScheduling.BikeSystem.step
        (StaticScheduling.BikeSystem.new elapsedTime) tr = some s →
      RotationTimeInRange s.pedalDevice.pedalRotationTime ∧
      ∀ a, NoFault s.gearDevice.currentGear (s.setters a) s.speedometer) ∧
    (∀ tr s, Transition.run StaticSchedulingWithEvent.BikeSystem.step
        (StaticSchedulingWithEvent.BikeSystem.new elapsedTime) tr = some s →
      s.pedalDevice.currentStep.toNat ≤ StaticSchedulingWithEvent.kNbSteps.toNat ∧
      NoFault s.gearDevice.currentGear s.setters s.speedometer) ∧
    (∀ tr s, Transition.run MultiTasking.BikeSystem.step
        (MultiTasking.BikeSystem.new elapsedTime) tr = some s →
      s.pedalDevice.currentStep.toNat ≤ MultiTasking.kNbSteps.toNat ∧
      NoFault s.gearDevice.currentGear s.periodic.setter.toList s.shared.speedometer) := by
  refine ⟨?_, ?_, ?_⟩
  · intro tr s hrun
    have h := Transition.run_invariant StaticScheduling.BikeSystem.Safe.step
      (StaticScheduling.BikeSystem.new_safe elapsedTime) hrun
    exact ⟨h.rotationTime, fun a => .of_inRange h.gear (h.setters a) h.speedometer⟩
  · intro tr s hrun
    have h := Transition.run_invariant StaticSchedulingWithEvent.BikeSystem.Safe.step
      (StaticSchedulingWithEvent.BikeSystem.new_safe elapsedTime) hrun
    exact ⟨h.step_le, .of_inRange h.gear h.handed h.speedometer⟩
  · intro tr s hrun
    have h := Transition.run_invariant MultiTasking.BikeSystem.Safe.step
      (MultiTasking.BikeSystem.new_safe elapsedTime) hrun
    refine ⟨h.step_le, .of_inRange h.gear ?_ h.speedometer⟩
    intro x hx
    exact h.handed x (Option.mem_toList.mp hx)

/-- After one press in each of the three systems. -/
theorem no_wrap_no_division_by_zero_one_press :
    (∃ s, Transition.run StaticScheduling.BikeSystem.step (StaticScheduling.BikeSystem.new 0)
        [.gearTask [⟨.upPressed, 100000⟩]] = some s ∧
      NoFault s.gearDevice.currentGear (s.setters .displayTask1) s.speedometer) ∧
    (∃ s, Transition.run StaticSchedulingWithEvent.BikeSystem.step
        (StaticSchedulingWithEvent.BikeSystem.new 0)
        [.joystick .leftPressed, .speedDistanceTask, .access .loadRotationTime] = some s ∧
      NoFault s.gearDevice.currentGear s.setters s.speedometer) ∧
    ∃ s, Transition.run MultiTasking.BikeSystem.step (MultiTasking.BikeSystem.new 0)
        [.joystick .upPressed, .onReset, .isr] = some s ∧
      NoFault s.gearDevice.currentGear s.periodic.setter.toList s.shared.speedometer := by
  obtain ⟨hpolled, hevent, hmulti⟩ := no_wrap_no_division_by_zero 0
  refine ⟨⟨_, rfl, (hpolled [.gearTask [⟨.upPressed, 100000⟩]] _ rfl).2 .displayTask1⟩,
    ⟨_, rfl, ?_⟩, ⟨_, rfl, (hmulti [.joystick .upPressed, .onReset, .isr] _ rfl).2⟩⟩
  exact (hevent [.joystick .leftPressed, .speedDistanceTask, .access .loadRotationTime] _ rfl).2

end BikeComputer
