import BikeComputer.StaticSchedulingWithEvent.GearPair

/-!
# Fresh values in the bike system with interrupts

While the joystick is left alone, an execution of the gear task brings the gear and its
size up to date with the gear device, and an execution of the speed task after it does the
same for the settings of the speedometer and the speed for the display. Later tasks keep them
so.
-/

namespace BikeComputer.StaticSchedulingWithEvent.BikeSystem

open Transition

/-- The joystick is moved. -/
def Label.OfJoystick : Label → Prop
  | .joystick _ => True
  | _ => False

instance : DecidablePred Label.OfJoystick
  | .joystick _ => .isTrue trivial
  | .gearTask | .speedDistanceTask | .temperatureTask _ | .resetTask | .displayTask1
  | .displayTask2 | .access _ | .onReset | .tick _ => .isFalse id

/-- The settings that belong to the devices. -/
def deviceSettings (s : BikeSystem) : Settings :=
  ⟨s.gearDevice.getCurrentGearSize, s.pedalDevice.getCurrentRotationTime⟩

/-- The fields of the gear task are up to date. -/
structure FreshGear (s : BikeSystem) : Prop where
  gear : s.currentGear = s.gearDevice.getCurrentGear
  gearSize : s.currentGearSize = s.gearDevice.getCurrentGearSize

/-- The gear task is being run, or the fields are up to date. -/
inductive GearTaskPhase (s : BikeSystem) : Prop where
  | loadGear (hpc : s.pc = .loadGear)
  | loadGearSize (hpc : s.pc = .loadGearSize)
    (hgear : s.currentGear = s.gearDevice.getCurrentGear)
  | fresh (h : FreshGear s)

/-- The speedometer and the speed for the display are up to date. -/
structure Fresh (s : BikeSystem) : Prop where
  gear : FreshGear s
  settings : s.speedometer.settings = s.deviceSettings
  shown : s.currentSpeed = s.speedometer.currentSpeed
  rotationTime : ∀ time, s.pc = .setCurrentRotationTime time →
    time = s.pedalDevice.getCurrentRotationTime

/-- The speed task is being run with fresh fields, or everything is up to date. -/
inductive SpeedTaskPhase (s : BikeSystem) : Prop where
  | loadRotationTime (hgear : FreshGear s) (hpc : s.pc = .loadRotationTime)
  | setCurrentRotationTime (hgear : FreshGear s)
    (hpc : s.pc = .setCurrentRotationTime s.pedalDevice.getCurrentRotationTime)
  | setGearSize (hgear : FreshGear s) (hpc : s.pc = .setGearSize)
    (htime : s.speedometer.pedalRotationTime = s.pedalDevice.getCurrentRotationTime)
  | getCurrentSpeed (hgear : FreshGear s) (hpc : s.pc = .getCurrentSpeed)
    (hsettings : s.speedometer.settings = s.deviceSettings)
  | fresh (h : Fresh s)

section Steps

variable {s t : BikeSystem} {a : Label} {tr : List Label}

/-- Only the joystick moves the devices. -/
theorem step_devices (h : s.step a = some t) (ha : ¬ a.OfJoystick) :
    t.gearDevice = s.gearDevice ∧ t.pedalDevice = s.pedalDevice := by
  cases a with
  | gearTask | speedDistanceTask | resetTask | displayTask1 | displayTask2 =>
    obtain ⟨-, rfl⟩ := start_eq_some.mp h
    exact ⟨rfl, rfl⟩
  | temperatureTask temperature =>
    obtain ⟨m, hm, rfl⟩ := Option.map_eq_some_iff.mp h
    obtain ⟨-, rfl⟩ := start_eq_some.mp hm
    exact ⟨rfl, rfl⟩
  | joystick => exact absurd trivial ha
  | onReset | tick =>
    obtain rfl := Option.some.inj h
    exact ⟨rfl, rfl⟩
  | access pc =>
    obtain ⟨rfl, hacc⟩ := step_access.mp h
    unfold access at hacc
    cases hp : s.pc with
    | idle => simp [hp] at hacc
    | loadGear | loadGearSize | loadRotationTime | setCurrentRotationTime | setGearSize
    | getCurrentSpeed | getDistance | loadResetFlag | clearResetFlag | reset =>
      rw [hp] at hacc
      obtain rfl := Option.some.inj hacc
      exact ⟨rfl, rfl⟩

/-- What is up to date stays so, whichever task is run. -/
theorem FreshGear.step (h : FreshGear s) (ha : ¬ a.OfJoystick) (hst : s.step a = some t) :
    FreshGear t := by
  obtain ⟨hgearDevice, -⟩ := step_devices hst ha
  rcases step_cases hst with ⟨task, temperature, -, -, -, rfl⟩ | ⟨pc, rfl, -, hacc⟩ |
    ⟨-, -, -, -, hgear, hsize, -⟩
  · exact ⟨h.gear, h.gearSize⟩
  · unfold access at hacc
    cases hp : s.pc with
    | idle => simp [hp] at hacc
    | loadGear =>
      rw [hp] at hacc
      obtain rfl := Option.some.inj hacc
      exact ⟨rfl, h.gearSize⟩
    | loadGearSize =>
      rw [hp] at hacc
      obtain rfl := Option.some.inj hacc
      exact ⟨h.gear, rfl⟩
    | loadRotationTime | setCurrentRotationTime | setGearSize | getCurrentSpeed | getDistance
    | loadResetFlag | clearResetFlag | reset =>
      rw [hp] at hacc
      obtain rfl := Option.some.inj hacc
      exact ⟨h.gear, h.gearSize⟩
  · exact ⟨by rw [hgear, hgearDevice, h.gear], by rw [hsize, hgearDevice, h.gearSize]⟩

/-- The gear task gets on, and keeps what is up to date. -/
theorem GearTaskPhase.step (h : GearTaskPhase s) (ha : ¬ a.OfJoystick) (hst : s.step a = some t) :
    GearTaskPhase t := by
  obtain ⟨hgearDevice, -⟩ := step_devices hst ha
  cases h with
  | fresh h => exact .fresh (h.step ha hst)
  | loadGear hp =>
    rcases step_cases hst with ⟨task, temperature, -, hidle, -, rfl⟩ | ⟨pc, rfl, -, hacc⟩ |
      ⟨-, -, hpc, -⟩
    · exact absurd (hp.symm.trans hidle) (by simp)
    · unfold access at hacc
      rw [hp] at hacc
      obtain rfl := Option.some.inj hacc
      exact .loadGearSize rfl rfl
    · exact .loadGear (hpc.trans hp)
  | loadGearSize hp hloaded =>
    rcases step_cases hst with ⟨task, temperature, -, hidle, -, rfl⟩ | ⟨pc, rfl, -, hacc⟩ |
      ⟨-, -, hpc, -, hgear, -⟩
    · exact absurd (hp.symm.trans hidle) (by simp)
    · unfold access at hacc
      rw [hp] at hacc
      obtain rfl := Option.some.inj hacc
      exact .fresh ⟨hloaded, rfl⟩
    · exact .loadGearSize (hpc.trans hp) (by rw [hgear, hgearDevice, hloaded])

/-- The settings of the devices only change with the devices. -/
theorem deviceSettings_step (ha : ¬ a.OfJoystick) (hst : s.step a = some t) :
    t.deviceSettings = s.deviceSettings := by
  obtain ⟨hgearDevice, hpedalDevice⟩ := step_devices hst ha
  rw [deviceSettings, deviceSettings, hgearDevice, hpedalDevice]

/-- A rotation time that is up to date is not set again. -/
theorem Fresh.setCurrentRotationTime (h : Fresh s) :
    s.speedometer.setCurrentRotationTime s.timer s.pedalDevice.getCurrentRotationTime =
      s.speedometer := by
  refine Speedometer.set_of_apply_eq (x := .rotationTime _) ?_ s.timer
  rw [h.settings]
  rfl

/-- A gear size that is up to date is not set again. -/
theorem Fresh.setGearSize (h : Fresh s) :
    s.speedometer.setGearSize s.timer s.currentGearSize = s.speedometer := by
  refine Speedometer.set_of_apply_eq (x := .gearSize _) ?_ s.timer
  rw [h.settings, h.gear.gearSize]
  rfl

/-- What is up to date stays so until the speed is cleared. -/
theorem Fresh.step (h : Fresh s) (ha : ¬ a.OfJoystick) (hreset : a ≠ .access .reset)
    (hst : s.step a = some t) : Fresh t := by
  have hgear := h.gear.step ha hst
  have hdevice := deviceSettings_step ha hst
  obtain ⟨-, hpedalDevice⟩ := step_devices hst ha
  rcases step_cases hst with ⟨task, temperature, -, -, -, rfl⟩ | ⟨pc, rfl, hpc, hacc⟩ |
    ⟨-, -, hpc, hspeedometer, -, -, hspeed⟩
  · refine ⟨hgear, h.settings, h.shown, fun time htime => ?_⟩
    cases task <;> exact absurd htime (by simp [Pc.entry])
  · unfold access at hacc
    cases hp : s.pc with
    | idle => simp [hp] at hacc
    | reset => exact absurd (congrArg Label.access (hpc.symm.trans hp)) hreset
    | loadRotationTime =>
      rw [hp] at hacc
      obtain rfl := Option.some.inj hacc
      exact ⟨hgear, h.settings, h.shown,
        fun time htime => (Pc.setCurrentRotationTime.inj htime).symm⟩
    | setCurrentRotationTime time =>
      obtain rfl := h.rotationTime time hp
      rw [hp] at hacc
      obtain rfl := Option.some.inj hacc
      have hset := h.setCurrentRotationTime
      exact ⟨hgear, (congrArg Speedometer.settings hset).trans h.settings,
        h.shown.trans (congrArg Speedometer.currentSpeed hset.symm), by simp⟩
    | setGearSize =>
      rw [hp] at hacc
      obtain rfl := Option.some.inj hacc
      have hset := h.setGearSize
      exact ⟨hgear, (congrArg Speedometer.settings hset).trans h.settings,
        h.shown.trans (congrArg Speedometer.currentSpeed hset.symm), by simp⟩
    | getCurrentSpeed =>
      rw [hp] at hacc
      obtain rfl := Option.some.inj hacc
      exact ⟨hgear, h.settings, rfl, by simp⟩
    | loadGear | loadGearSize | getDistance | clearResetFlag =>
      rw [hp] at hacc
      obtain rfl := Option.some.inj hacc
      exact ⟨hgear, h.settings, h.shown, by simp⟩
    | loadResetFlag =>
      rw [hp] at hacc
      obtain rfl := Option.some.inj hacc
      refine ⟨hgear, h.settings, h.shown, fun time htime => ?_⟩
      cases hflag : s.resetFlag <;> simp [hflag] at htime
  · refine ⟨hgear, by rw [hspeedometer, hdevice, h.settings], by rw [hspeed, hspeedometer, h.shown],
      fun time htime => ?_⟩
    rw [hpedalDevice]
    exact h.rotationTime time (hpc.symm.trans htime)

/-- A speed that is up to date is only stored again. -/
theorem Fresh.currentSpeed_eq (h : Fresh s) (hst : s.step a = some t) :
    t.currentSpeed = s.currentSpeed := by
  rcases step_cases hst with ⟨task, temperature, -, -, -, rfl⟩ | ⟨pc, rfl, -, hacc⟩ |
    ⟨-, -, -, -, -, -, hspeed⟩
  · rfl
  · unfold access at hacc
    cases hp : s.pc with
    | idle => simp [hp] at hacc
    | getCurrentSpeed =>
      rw [hp] at hacc
      obtain rfl := Option.some.inj hacc
      exact h.shown.symm
    | loadGear | loadGearSize | loadRotationTime | setCurrentRotationTime | setGearSize
    | getDistance | loadResetFlag | clearResetFlag | reset =>
      rw [hp] at hacc
      obtain rfl := Option.some.inj hacc
      rfl
  · exact hspeed

/-- The speed task gets on with fresh fields, and keeps what is up to date. -/
theorem SpeedTaskPhase.step (h : SpeedTaskPhase s) (ha : ¬ a.OfJoystick)
    (hreset : a ≠ .access .reset) (hst : s.step a = some t) : SpeedTaskPhase t := by
  have hdevice := deviceSettings_step ha hst
  obtain ⟨-, hpedalDevice⟩ := step_devices hst ha
  cases h with
  | fresh h => exact .fresh (h.step ha hreset hst)
  | loadRotationTime hgear hp =>
    have hgear' := hgear.step ha hst
    rcases step_cases hst with ⟨task, temperature, -, hidle, -, rfl⟩ | ⟨pc, rfl, -, hacc⟩ |
      ⟨-, -, hpc, -⟩
    · exact absurd (hp.symm.trans hidle) (by simp)
    · unfold access at hacc
      rw [hp] at hacc
      obtain rfl := Option.some.inj hacc
      exact .setCurrentRotationTime hgear' rfl
    · exact .loadRotationTime hgear' (hpc.trans hp)
  | setCurrentRotationTime hgear hp =>
    have hgear' := hgear.step ha hst
    rcases step_cases hst with ⟨task, temperature, -, hidle, -, rfl⟩ | ⟨pc, rfl, -, hacc⟩ |
      ⟨-, -, hpc, -⟩
    · exact absurd (hp.symm.trans hidle) (by simp)
    · unfold access at hacc
      rw [hp] at hacc
      obtain rfl := Option.some.inj hacc
      exact .setGearSize hgear' rfl (congrArg Settings.rotationTime
        (s.speedometer.set_settings s.timer (.rotationTime _)))
    · exact .setCurrentRotationTime hgear' (by rw [hpc, hp, hpedalDevice])
  | setGearSize hgear hp htime =>
    have hgear' := hgear.step ha hst
    rcases step_cases hst with ⟨task, temperature, -, hidle, -, rfl⟩ | ⟨pc, rfl, -, hacc⟩ |
      ⟨-, -, hpc, hspeedometer, -⟩
    · exact absurd (hp.symm.trans hidle) (by simp)
    · unfold access at hacc
      rw [hp] at hacc
      obtain rfl := Option.some.inj hacc
      refine .getCurrentSpeed hgear' rfl ?_
      refine (s.speedometer.set_settings s.timer (.gearSize s.currentGearSize)).trans ?_
      rw [deviceSettings, ← hgear.gearSize, ← htime]
      rfl
    · exact .setGearSize hgear' (hpc.trans hp) (by rw [hspeedometer, htime, hpedalDevice])
  | getCurrentSpeed hgear hp hsettings =>
    have hgear' := hgear.step ha hst
    rcases step_cases hst with ⟨task, temperature, -, hidle, -, rfl⟩ | ⟨pc, rfl, -, hacc⟩ |
      ⟨-, -, hpc, hspeedometer, -⟩
    · exact absurd (hp.symm.trans hidle) (by simp)
    · unfold access at hacc
      rw [hp] at hacc
      obtain rfl := Option.some.inj hacc
      exact .fresh ⟨hgear', hsettings, rfl, by simp⟩
    · exact .getCurrentSpeed hgear' (hpc.trans hp) (by rw [hspeedometer, hsettings, hdevice])

/-- An execution of the gear task brings its fields up to date. -/
theorem FreshGear.of_execution (hpc : s.pc = .loadGear) (htr : ∀ a ∈ tr, ¬ a.OfJoystick)
    (hrun : run BikeSystem.step s tr = some t) (hidle : t.pc = .idle) : FreshGear t := by
  have h : GearTaskPhase t :=
    run_invariant_of_forall (fun ha h hst => h.step ha hst) (.loadGear hpc) htr hrun
  cases h with
  | loadGear hp | loadGearSize hp => exact absurd (hp.symm.trans hidle) (by simp)
  | fresh h => exact h

/-- The fields of the gear task stay up to date until the joystick is moved. -/
theorem FreshGear.run (h : FreshGear s) (htr : ∀ a ∈ tr, ¬ a.OfJoystick)
    (hrun : run BikeSystem.step s tr = some t) : FreshGear t :=
  run_invariant_of_forall (fun ha h hst => h.step ha hst) h htr hrun

/-- An execution of the speed task with fresh fields brings everything up to date. -/
theorem Fresh.of_execution (hgear : FreshGear s) (hpc : s.pc = .loadRotationTime)
    (htr : ∀ a ∈ tr, ¬ a.OfJoystick ∧ a ≠ .access .reset) (hrun : run BikeSystem.step s tr = some t)
    (hidle : t.pc = .idle) : Fresh t := by
  have h : SpeedTaskPhase t :=
    run_invariant_of_forall (fun ha h hst => h.step ha.1 ha.2 hst)
      (.loadRotationTime hgear hpc) htr hrun
  cases h with
  | loadRotationTime _ hp | setCurrentRotationTime _ hp | setGearSize _ hp
  | getCurrentSpeed _ hp => exact absurd (hp.symm.trans hidle) (by simp)
  | fresh h => exact h

/-- What is up to date stays so until the joystick is moved or the speed is cleared, and the
speed is the same all the time. -/
theorem Fresh.run (h : Fresh s) (htr : ∀ a ∈ tr, ¬ a.OfJoystick ∧ a ≠ .access .reset)
    (hrun : run BikeSystem.step s tr = some t) : Fresh t ∧ t.currentSpeed = s.currentSpeed :=
  run_invariant_of_forall (I := fun t => Fresh t ∧ t.currentSpeed = s.currentSpeed)
    (fun ha hm hst => ⟨hm.1.step ha.1 ha.2 hst, (hm.1.currentSpeed_eq hst).trans hm.2⟩)
    ⟨h, rfl⟩ htr hrun

end Steps

end BikeComputer.StaticSchedulingWithEvent.BikeSystem
