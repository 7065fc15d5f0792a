import BikeComputer.Correctness.PolledDevices
import BikeComputer.StaticScheduling.BikeSystem
import BikeComputer.StaticSchedulingWithEvent.BikeSystem

/-!
# The polling bike system as one with interrupts

What the polling bike system samples in a task, an interrupt just before that task brings
about. So each of its runs is answered by a run of the bike system with interrupts that
executes the same tasks, is interrupted once for each window that has acted, and shows the
same values after every task.
-/

namespace BikeComputer

open Transition (run)

/-- The tasks that are started and the interrupts that act. -/
inductive Observation where
  | task (task : Task)
  | joystick (state : Joystick.State)
  | onReset
  deriving DecidableEq, Repr

/-- What is seen of a task: the sample it acts on, then the task. -/
def StaticScheduling.BikeSystem.Label.seen : StaticScheduling.BikeSystem.Label → List Observation
  | .gearTask passes =>
    (((BusyWait.read GearDevice.kTaskRunTime 0 passes).find? Joystick.State.isGear).map
      .joystick).toList ++ [.task .gearTask]
  | .speedDistanceTask passes _ _ _ =>
    (((BusyWait.read PedalDevice.kTaskRunTime 0 passes).find? Joystick.State.isPedal).map
      .joystick).toList ++ [.task .speedDistanceTask]
  | .resetTask passes _ =>
    (if ResetDevice.checkReset passes = some true then [.onReset] else []) ++ [.task .resetTask]
  | .temperatureTask _ => [.task .temperatureTask]
  | .displayTask1 => [.task .displayTask1]
  | .displayTask2 => [.task .displayTask2]

/-- What is seen of the bike system with interrupts. -/
def StaticSchedulingWithEvent.BikeSystem.Label.seen? :
    StaticSchedulingWithEvent.BikeSystem.Label → Option Observation
  | .joystick state => some (.joystick state)
  | .onReset => some .onReset
  | a => a.task?.map .task

/-- The timer readings a task makes, in order. -/
def StaticScheduling.BikeSystem.Label.readings : StaticScheduling.BikeSystem.Label → List ℤ
  | .speedDistanceTask _ t₁ t₂ t₃ => [t₁, t₂, t₃]
  | .resetTask passes now => if ResetDevice.checkReset passes = some true then [now] else []
  | _ => []

/-- The two bike systems show the same values and have the same devices and speedometers,
and the one with interrupts is between two tasks with no press to be served. -/
structure SameBike (s : StaticScheduling.BikeSystem) (t : StaticSchedulingWithEvent.BikeSystem) :
    Prop where
  idle : t.pc = .idle
  resetFlag : t.resetFlag = false
  gearDevice : s.gearDevice.currentGear = t.gearDevice.currentGear
  pedalDevice : PedalRelated s.pedalDevice t.pedalDevice
  currentGear : s.currentGear = t.currentGear
  currentGearSize : s.currentGearSize = t.currentGearSize
  currentSpeed : s.currentSpeed = t.currentSpeed
  traveledDistance : s.traveledDistance = t.traveledDistance
  currentTemperature : s.currentTemperature = t.currentTemperature
  speedometer : s.speedometer = t.speedometer

/-- The readings that are still to come do not go back. -/
def ReadingsFrom (now : ℤ) (tr : List StaticScheduling.BikeSystem.Label) : Prop :=
  (now :: tr.flatMap StaticScheduling.BikeSystem.Label.readings).Pairwise (· ≤ ·)

instance (now : ℤ) (tr : List StaticScheduling.BikeSystem.Label) :
    Decidable (ReadingsFrom now tr) :=
  inferInstanceAs (Decidable (List.Pairwise _ _))

section Samples

/-- The first gear state and its callback move the gear alike. -/
theorem gear_press {d : StaticScheduling.GearDevice} {e : StaticSchedulingWithEvent.GearDevice}
    (h : d.currentGear = e.currentGear) (xs : List Joystick.State) :
    (BusyWait.onFirst Joystick.State.isGear StaticScheduling.GearDevice.press d xs).currentGear =
      ((xs.find? Joystick.State.isGear).elim e e.onJoystick).currentGear := by
  by_cases hne : xs = []
  · rw [hne]
    exact h
  · obtain ⟨w, rfl⟩ : ∃ w : BusyWait.Window 1 Joystick.State, w.samples = xs :=
      BusyWait.exists_window Int.one_pos hne
    exact gear_step h w

/-- The first pedal state and its callback move the rotation time alike. -/
theorem PedalRelated.presses {d : StaticScheduling.PedalDevice}
    {e : StaticSchedulingWithEvent.PedalDevice} (h : PedalRelated d e)
    (xs : List Joystick.State) :
    PedalRelated (BusyWait.onFirst Joystick.State.isPedal StaticScheduling.PedalDevice.press d xs)
      ((xs.find? Joystick.State.isPedal).elim e e.onJoystick) := by
  by_cases hne : xs = []
  · rw [hne]
    exact h
  · obtain ⟨w, rfl⟩ : ∃ w : BusyWait.Window 1 Joystick.State, w.samples = xs :=
      BusyWait.exists_window Int.one_pos hne
    exact h.step w

/-- A window acts on the first gear state it reads. -/
theorem StaticScheduling.GearDevice.getCurrentGear_read {d d' : GearDevice} {gear : UInt8}
    {passes : List (BusyWait.Pass Joystick.State)}
    (h : d.getCurrentGear passes = some (d', gear)) :
    d' = BusyWait.onFirst Joystick.State.isGear press d (BusyWait.read kTaskRunTime 0 passes) ∧
      gear = d'.currentGear := by
  obtain ⟨s, hs, he⟩ := Option.map_eq_some_iff.mp h
  obtain ⟨rfl, rfl⟩ := Prod.mk.inj he
  rw [BusyWait.loop_eq_foldl hs, sample_eq_latch, BusyWait.foldl_latch_fst]
  exact ⟨rfl, rfl⟩

/-- A window acts on the first pedal state it reads. -/
theorem StaticScheduling.PedalDevice.getCurrentRotationTime_read {d d' : PedalDevice} {time : ℤ}
    {passes : List (BusyWait.Pass Joystick.State)}
    (h : d.getCurrentRotationTime passes = some (d', time)) :
    d' = BusyWait.onFirst Joystick.State.isPedal press d (BusyWait.read kTaskRunTime 0 passes) ∧
      time = d'.pedalRotationTime := by
  obtain ⟨s, hs, he⟩ := Option.map_eq_some_iff.mp h
  obtain ⟨rfl, rfl⟩ := Prod.mk.inj he
  rw [BusyWait.loop_eq_foldl hs, sample_eq_latch, BusyWait.foldl_latch_fst]
  exact ⟨rfl, rfl⟩

end Samples

namespace StaticSchedulingWithEvent.BikeSystem

variable {s : BikeSystem}

/-- The gear task without interruption. -/
theorem run_gearTask (h : s.pc = .idle) :
    run step s [.gearTask, .access .loadGear, .access .loadGearSize] = some { s with
      currentGear := s.gearDevice.getCurrentGear
      currentGearSize := s.gearDevice.getCurrentGearSize
      pc := .idle } :=
  Transition.run_cons_eq_some.mpr ⟨_, start_eq_some.mpr ⟨h, rfl⟩, rfl⟩

/-- The speed task without interruption, with the time that passes before its readings. -/
theorem run_speedDistanceTask (h : s.pc = .idle) {t₁ t₂ t₃ : ℤ} {d₁ d₂ d₃ : ℕ}
    (h₁ : s.timer + d₁ = t₁) (h₂ : t₁ + d₂ = t₂) (h₃ : t₂ + d₃ = t₃) {time : ℤ}
    (htime : s.pedalDevice.getCurrentRotationTime = time) {speedometer : Speedometer}
    (hset : (s.speedometer.set t₁ (.rotationTime time)).set t₂ (.gearSize s.currentGearSize) =
      speedometer) :
    run step s [.speedDistanceTask, .access .loadRotationTime, .tick d₁,
        .access (.setCurrentRotationTime time), .tick d₂, .access .setGearSize,
        .access .getCurrentSpeed, .tick d₃, .access .getDistance] = some { s with
      timer := t₃
      speedometer := (speedometer.getDistance t₃).1
      currentSpeed := speedometer.getCurrentSpeed
      traveledDistance := (speedometer.getDistance t₃).2
      pc := .idle } := by
  subst h₁ h₂ h₃ htime hset
  exact Transition.run_cons_eq_some.mpr ⟨_, start_eq_some.mpr ⟨h, rfl⟩, by
    simp [step, access, Speedometer.set]⟩

/-- The reset task without interruption, after a press. -/
theorem run_resetTask (h : s.pc = .idle) (d : ℕ) :
    run step s [.onReset, .resetTask, .access .loadResetFlag, .access .clearResetFlag, .tick d,
        .access .reset] = some { s with
      timer := s.timer + d
      speedometer := s.speedometer.reset (s.timer + d)
      resetFlag := false
      pc := .idle } :=
  Transition.run_cons_eq_some.mpr ⟨{ s with resetFlag := true }, rfl,
    Transition.run_cons_eq_some.mpr ⟨_, start_eq_some.mpr ⟨h, rfl⟩, rfl⟩⟩

/-- The reset task without interruption, without a press. -/
theorem run_resetTask_unset (h : s.pc = .idle) (hflag : s.resetFlag = false) :
    run step s [.resetTask, .access .loadResetFlag] = some { s with pc := .idle } := by
  refine Transition.run_cons_eq_some.mpr ⟨_, start_eq_some.mpr ⟨h, rfl⟩, ?_⟩
  simp [step, access, hflag]

/-- At most one callback of the joystick before a task. -/
theorem run_joystick (state : Option Joystick.State) :
    run step s (state.toList.map .joystick) = some { s with
      gearDevice := state.elim s.gearDevice s.gearDevice.onJoystick
      pedalDevice := state.elim s.pedalDevice s.pedalDevice.onJoystick } := by
  cases state <;> rfl

end StaticSchedulingWithEvent.BikeSystem

/-- The relation between the two bike systems before the given tasks. -/
def Simulated (tr : List StaticScheduling.BikeSystem.Label) (s : StaticScheduling.BikeSystem)
    (t : StaticSchedulingWithEvent.BikeSystem) : Prop :=
  SameBike s t ∧ ReadingsFrom t.timer tr

section Tasks

variable {s s' : StaticScheduling.BikeSystem} {t : StaticSchedulingWithEvent.BikeSystem}
variable {tr : List StaticScheduling.BikeSystem.Label}

/-- A gear state leaves the pedals alone. -/
theorem StaticSchedulingWithEvent.PedalDevice.elim_gear (d : PedalDevice)
    (xs : List Joystick.State) :
    (xs.find? Joystick.State.isGear).elim d d.onJoystick = d := by
  cases h : xs.find? Joystick.State.isGear with
  | none => rfl
  | some j =>
    have hj := List.find?_some h
    cases j with
    | upPressed | downPressed | other => rfl
    | leftPressed | rightPressed => simp [Joystick.State.isGear] at hj

/-- A pedal state leaves the gear alone. -/
theorem StaticSchedulingWithEvent.GearDevice.elim_pedal (d : GearDevice)
    (xs : List Joystick.State) :
    (xs.find? Joystick.State.isPedal).elim d d.onJoystick = d := by
  cases h : xs.find? Joystick.State.isPedal with
  | none => rfl
  | some j =>
    have hj := List.find?_some h
    cases j with
    | leftPressed | rightPressed | other => rfl
    | upPressed | downPressed => simp [Joystick.State.isPedal] at hj

/-- An observer sees the joystick of a window. -/
theorem seen_joystick (state : Option Joystick.State) :
    (state.toList.map StaticSchedulingWithEvent.BikeSystem.Label.joystick).filterMap
      StaticSchedulingWithEvent.BikeSystem.Label.seen? = (state.map .joystick).toList := by
  cases state <;> rfl

/-- The gear task is answered by the callback of its first gear state and the gear task. -/
theorem Simulated.gearTask {passes : List (BusyWait.Pass Joystick.State)}
    (h : Simulated (.gearTask passes :: tr) s t) (hst : s.gearTask passes = some s') :
    ∃ bs t', run StaticSchedulingWithEvent.BikeSystem.step t bs = some t' ∧
      bs.filterMap StaticSchedulingWithEvent.BikeSystem.Label.seen? =
        StaticScheduling.BikeSystem.Label.seen (.gearTask passes) ∧ Simulated tr s' t' := by
  obtain ⟨hsame, hreadings⟩ := h
  obtain ⟨d, gear, hgear, rfl⟩ := StaticScheduling.BikeSystem.gearTask_eq_some.mp hst
  obtain ⟨hd, rfl⟩ := StaticScheduling.GearDevice.getCurrentGear_read hgear
  have hdevice := gear_press hsame.gearDevice
    (BusyWait.read StaticScheduling.GearDevice.kTaskRunTime 0 passes)
  rw [← hd] at hdevice
  refine ⟨_, _, Transition.run_append_eq_some.mpr
    ⟨_, StaticSchedulingWithEvent.BikeSystem.run_joystick
      ((BusyWait.read StaticScheduling.GearDevice.kTaskRunTime 0 passes).find?
        Joystick.State.isGear),
      StaticSchedulingWithEvent.BikeSystem.run_gearTask hsame.idle⟩, ?_, ?_, hreadings⟩
  · rw [List.filterMap_append, seen_joystick]
    rfl
  · refine ⟨rfl, hsame.resetFlag, hdevice, ?_, hdevice, ?_, hsame.currentSpeed,
      hsame.traveledDistance, hsame.currentTemperature, hsame.speedometer⟩
    · rw [StaticSchedulingWithEvent.PedalDevice.elim_gear]
      exact hsame.pedalDevice
    · exact congrArg (kMaxGearSize - ·) hdevice

/-- A timer reading is reached by ticks. -/
theorem exists_tick {now later : ℤ} (h : now ≤ later) : ∃ d : ℕ, now + d = later :=
  ⟨(later - now).toNat, by omega⟩

/-- The speed task is answered by the callback of its first pedal state and the speed task,
with its readings at the same times. -/
theorem Simulated.speedDistanceTask {passes : List (BusyWait.Pass Joystick.State)}
    {t₁ t₂ t₃ : ℤ} (h : Simulated (.speedDistanceTask passes t₁ t₂ t₃ :: tr) s t)
    (hst : s.speedDistanceTask passes t₁ t₂ t₃ = some s') :
    ∃ bs t', run StaticSchedulingWithEvent.BikeSystem.step t bs = some t' ∧
      bs.filterMap StaticSchedulingWithEvent.BikeSystem.Label.seen? =
        StaticScheduling.BikeSystem.Label.seen (.speedDistanceTask passes t₁ t₂ t₃) ∧
      Simulated tr s' t' := by
  obtain ⟨hsame, hreadings⟩ := h
  obtain ⟨d, time, htime, rfl⟩ := StaticScheduling.BikeSystem.speedDistanceTask_eq_some.mp hst
  obtain ⟨hd, rfl⟩ := StaticScheduling.PedalDevice.getCurrentRotationTime_read htime
  have hdevice := hsame.pedalDevice.presses
    (BusyWait.read StaticScheduling.PedalDevice.kTaskRunTime 0 passes)
  rw [← hd] at hdevice
  rw [ReadingsFrom, List.flatMap_cons] at hreadings
  simp only [StaticScheduling.BikeSystem.Label.readings, List.cons_append, List.nil_append,
    List.pairwise_cons, List.forall_mem_cons] at hreadings
  obtain ⟨⟨h₁, -⟩, ⟨h₂, -⟩, ⟨h₃, -⟩, hreadings⟩ := hreadings
  obtain ⟨d₁, hd₁⟩ := exists_tick h₁
  obtain ⟨d₂, hd₂⟩ := exists_tick h₂
  obtain ⟨d₃, hd₃⟩ := exists_tick h₃
  let first := (BusyWait.read StaticScheduling.PedalDevice.kTaskRunTime 0 passes).find?
    Joystick.State.isPedal
  let u : StaticSchedulingWithEvent.BikeSystem := { t with
    gearDevice := first.elim t.gearDevice t.gearDevice.onJoystick
    pedalDevice := first.elim t.pedalDevice t.pedalDevice.onJoystick }
  have hset : (u.speedometer.set t₁ (.rotationTime d.pedalRotationTime)).set t₂
      (.gearSize u.currentGearSize) = (s.speedometer.set t₁ (.rotationTime d.pedalRotationTime)).set
        t₂ (.gearSize s.currentGearSize) := by
    rw [hsame.speedometer, hsame.currentGearSize]
  have hjoystick := StaticSchedulingWithEvent.BikeSystem.run_joystick (s := t) first
  have htask := StaticSchedulingWithEvent.BikeSystem.run_speedDistanceTask (s := u) hsame.idle
    hd₁ hd₂ hd₃ hdevice.time.symm hset
  refine ⟨_, _, Transition.run_append_eq_some.mpr ⟨_, hjoystick, htask⟩, ?_, ?_,
    List.pairwise_cons.mpr hreadings⟩
  · rw [List.filterMap_append, seen_joystick]
    rfl
  · refine ⟨rfl, hsame.resetFlag, ?_, hdevice, hsame.currentGear, hsame.currentGearSize, rfl,
      rfl, hsame.currentTemperature, rfl⟩
    exact hsame.gearDevice.trans (congrArg StaticSchedulingWithEvent.GearDevice.currentGear
      (StaticSchedulingWithEvent.GearDevice.elim_pedal t.gearDevice _).symm)

/-- The reset task is answered by the reset task, after a press if it has detected one. -/
theorem Simulated.resetTask {passes : List (BusyWait.Pass ℤ)} {now : ℤ}
    (h : Simulated (.resetTask passes now :: tr) s t) (hst : s.resetTask passes now = some s') :
    ∃ bs t', run StaticSchedulingWithEvent.BikeSystem.step t bs = some t' ∧
      bs.filterMap StaticSchedulingWithEvent.BikeSystem.Label.seen? =
        StaticScheduling.BikeSystem.Label.seen (.resetTask passes now) ∧ Simulated tr s' t' := by
  obtain ⟨hsame, hreadings⟩ := h
  obtain ⟨pressed, hpressed, rfl⟩ := StaticScheduling.BikeSystem.resetTask_eq_some.mp hst
  rw [ReadingsFrom, List.flatMap_cons, StaticScheduling.BikeSystem.Label.readings,
    hpressed] at hreadings
  rw [StaticScheduling.BikeSystem.Label.seen, hpressed]
  cases pressed with
  | true =>
    obtain ⟨hnow, hreadings⟩ := List.pairwise_cons.mp hreadings
    obtain ⟨d, hd⟩ := exists_tick (hnow now (by simp))
    refine ⟨_, _, StaticSchedulingWithEvent.BikeSystem.run_resetTask hsame.idle d, rfl, ?_, ?_⟩
    · refine ⟨rfl, rfl, hsame.gearDevice, hsame.pedalDevice, hsame.currentGear,
        hsame.currentGearSize, hsame.currentSpeed, hsame.traveledDistance,
        hsame.currentTemperature, ?_⟩
      rw [hd, ← hsame.speedometer]
      rfl
    · rw [hd]
      exact hreadings
  | false =>
    refine ⟨_, _, StaticSchedulingWithEvent.BikeSystem.run_resetTask_unset hsame.idle
      hsame.resetFlag, rfl, ?_, hreadings⟩
    exact { hsame with idle := rfl }

end Tasks

/-- Every task is answered. -/
theorem simulation : Transition.Simulation StaticScheduling.BikeSystem.step
    StaticSchedulingWithEvent.BikeSystem.step StaticScheduling.BikeSystem.Label.seen
    StaticSchedulingWithEvent.BikeSystem.Label.seen? Simulated where
  answer {a tr s s' t} h hst := by
    cases a with
    | gearTask passes => exact h.gearTask hst
    | speedDistanceTask passes t₁ t₂ t₃ => exact h.speedDistanceTask hst
    | resetTask passes now => exact h.resetTask hst
    | temperatureTask temperature =>
      obtain ⟨hsame, hreadings⟩ := h
      obtain rfl := Option.some.inj hst
      refine ⟨[.temperatureTask temperature],
        { t with currentTemperature := temperature, pc := .idle }, ?_, rfl,
        { hsame with idle := rfl, currentTemperature := rfl }, hreadings⟩
      exact Transition.run_cons_eq_some.mpr ⟨_, Option.map_eq_some_iff.mpr
        ⟨_, StaticSchedulingWithEvent.BikeSystem.start_eq_some.mpr ⟨hsame.idle, rfl⟩, rfl⟩, rfl⟩
    | displayTask1 =>
      obtain ⟨hsame, hreadings⟩ := h
      obtain rfl := Option.some.inj hst
      refine ⟨[.displayTask1], { t with pc := .idle }, ?_, rfl, { hsame with idle := rfl },
        hreadings⟩
      exact Transition.run_cons_eq_some.mpr
        ⟨_, StaticSchedulingWithEvent.BikeSystem.start_eq_some.mpr ⟨hsame.idle, rfl⟩, rfl⟩
    | displayTask2 =>
      obtain ⟨hsame, hreadings⟩ := h
      obtain rfl := Option.some.inj hst
      refine ⟨[.displayTask2], { t with pc := .idle }, ?_, rfl, { hsame with idle := rfl },
        hreadings⟩
      exact Transition.run_cons_eq_some.mpr
        ⟨_, StaticSchedulingWithEvent.BikeSystem.start_eq_some.mpr ⟨hsame.idle, rfl⟩, rfl⟩

/-- Every run of the polling bike system whose timer readings do not go back is answered by
a run of the bike system with interrupts. The tasks are the same, in the same order; the
joystick interrupts once before each gear or speed task whose window has acted, with the
state the window has acted on, and the button before each reset task that has detected a
press. At the end both show the same values and have the same speedometer. -/
theorem interrupts_simulate_polling (elapsedTime : ℤ)
    (tr : List StaticScheduling.BikeSystem.Label) (s : StaticScheduling.BikeSystem)
    (hrun : run StaticScheduling.BikeSystem.step (.new elapsedTime) tr = some s)
    (hreadings : ReadingsFrom elapsedTime tr) :
    ∃ tr' t, run StaticSchedulingWithEvent.BikeSystem.step (.new elapsedTime) tr' = some t ∧
      tr'.filterMap StaticSchedulingWithEvent.BikeSystem.Label.seen? =
        tr.flatMap StaticScheduling.BikeSystem.Label.seen ∧ SameBike s t := by
  have hnew : SameBike (.new elapsedTime) (.new elapsedTime) :=
    ⟨rfl, rfl, rfl, pedalRelated_initial, rfl, rfl, rfl, rfl, rfl, rfl⟩
  obtain ⟨tr', t, hrun', hseen, hsame, -⟩ := simulation.run ⟨hnew, hreadings⟩ hrun
  exact ⟨tr', t, hrun', hseen, hsame⟩

/-- One window of each device that acts. -/
theorem interrupts_simulate_polling_three_tasks :
    ∃ s, run StaticScheduling.BikeSystem.step (.new 0) [.gearTask [⟨.upPressed, 100000⟩],
        .speedDistanceTask [⟨.leftPressed, 200000⟩] 300000 300001 300002,
        .resetTask [⟨1, 100000⟩] 800000] = some s ∧
      ∃ tr' t, run StaticSchedulingWithEvent.BikeSystem.step (.new 0) tr' = some t ∧
        tr'.filterMap StaticSchedulingWithEvent.BikeSystem.Label.seen? =
          [.joystick .upPressed, .task .gearTask, .joystick .leftPressed,
            .task .speedDistanceTask, .onReset, .task .resetTask] ∧
        SameBike s t :=
  ⟨_, rfl, interrupts_simulate_polling 0 [.gearTask [⟨.upPressed, 100000⟩],
    .speedDistanceTask [⟨.leftPressed, 200000⟩] 300000 300001 300002,
    .resetTask [⟨1, 100000⟩] 800000] _ rfl (by decide)⟩

end BikeComputer
