import BikeComputer.Common.CurrentSpeed
import BikeComputer.Core.Trace
import BikeComputer.StaticScheduling.Schedule
import BikeComputer.StaticSchedulingWithEvent.BikeSystem

/-!
# The gear and its size in the bike system with interrupts

The gear task loads the counter of the gear device twice. If the counter has changed
between the two loads, the gear and the size do not belong together, and the tasks that
follow in the super-loop work with them until the next gear task.
-/

namespace BikeComputer.StaticSchedulingWithEvent

open Transition
open StaticScheduling (InOrder inOrder_snoc)

/-- The task whose next access is at the program counter. -/
def Pc.task? : Pc → Option Task
  | .idle => none
  | .loadGear | .loadGearSize => some .gearTask
  | .loadRotationTime | .setCurrentRotationTime _ | .setGearSize | .getCurrentSpeed
  | .getDistance => some .speedDistanceTask
  | .loadResetFlag | .clearResetFlag | .reset => some .resetTask

/-- The first access of a task, if it makes any. -/
def Pc.entry : Task → Pc
  | .gearTask => .loadGear
  | .speedDistanceTask => .loadRotationTime
  | .resetTask => .loadResetFlag
  | .temperatureTask | .displayTask1 | .displayTask2 => .idle

namespace BikeSystem

/-- The size belongs to the gear. -/
def Paired (s : BikeSystem) : Prop := s.currentGearSize = kMaxGearSize - s.currentGear

/-- The tasks a run has started. -/
def tasks (tr : List Label) : List Task := tr.filterMap Label.task?

/-- When the size is loaded, the counter still has the value the gear was loaded from. -/
def Undisturbed (s : BikeSystem) (a : Label) : Prop :=
  a = .access .loadGearSize → s.gearDevice.currentGear = s.currentGear

instance (s : BikeSystem) (a : Label) : Decidable (s.Undisturbed a) :=
  inferInstanceAs (Decidable (a = _ → _))

/-- The calls of the speedometer an access makes. -/
def calls (s : BikeSystem) : Label → Ride
  | .access (.setCurrentRotationTime pedalRotationTime) =>
    [(s.timer, .set (.rotationTime pedalRotationTime))]
  | .access .setGearSize => [(s.timer, .set (.gearSize s.currentGearSize))]
  | .access .getCurrentSpeed => [(s.timer, .getCurrentSpeed)]
  | .access .getDistance => [(s.timer, .getDistance)]
  | .access .reset => [(s.timer, .reset)]
  | _ => []

/-- The ride a run of the bike system is for its speedometer. -/
def rideOf (tr : List (BikeSystem × Label)) : Ride := tr.flatMap fun x => x.1.calls x.2

section Run

variable {s t : BikeSystem} {a : Label} {tr : List Label} {elapsedTime : ℤ}

/-- What a label can do: start a task on an idle thread, make an access of the running
one, or leave the fields of both and the speedometer alone. -/
theorem step_cases (h : s.step a = some t) :
    (∃ task temperature, a.task? = some task ∧ s.pc = .idle ∧ s.calls a = [] ∧
      t = { s with pc := .entry task, currentTemperature := temperature }) ∨
    (∃ pc, a = .access pc ∧ s.pc = pc ∧ s.access = some t) ∨
    (a.task? = none ∧ s.calls a = [] ∧ t.pc = s.pc ∧ t.speedometer = s.speedometer ∧
      t.currentGear = s.currentGear ∧ t.currentGearSize = s.currentGearSize ∧
      t.currentSpeed = s.currentSpeed) := by
  cases a with
  | gearTask | speedDistanceTask | resetTask | displayTask1 | displayTask2 =>
    obtain ⟨hidle, rfl⟩ := start_eq_some.mp h
    exact Or.inl ⟨_, s.currentTemperature, rfl, hidle, rfl, rfl⟩
  | temperatureTask temperature =>
    obtain ⟨m, hm, rfl⟩ := Option.map_eq_some_iff.mp h
    obtain ⟨hidle, rfl⟩ := start_eq_some.mp hm
    exact Or.inl ⟨_, temperature, rfl, hidle, rfl, rfl⟩
  | access pc =>
    obtain ⟨hpc, hst⟩ := step_access.mp h
    exact Or.inr (Or.inl ⟨pc, rfl, hpc, hst⟩)
  | joystick | onReset | tick =>
    obtain rfl := Option.some.inj h
    exact Or.inr (Or.inr ⟨rfl, rfl, rfl, rfl, rfl, rfl, rfl⟩)

/-- An access does to the speedometer what its calls do. -/
theorem step_speedometer (h : s.step a = some t) :
    t.speedometer = s.speedometer.ride (s.calls a) := by
  rcases step_cases h with ⟨task, temperature, -, -, hcalls, rfl⟩ | ⟨pc, rfl, hpc, hst⟩ |
    ⟨-, hcalls, -, hspeedometer, -⟩
  · rw [hcalls]
    rfl
  · unfold access at hst
    rw [hpc] at hst
    cases pc with
    | idle => exact absurd hst (by simp)
    | loadGear | loadGearSize | loadRotationTime | setCurrentRotationTime | setGearSize
    | getCurrentSpeed | getDistance | loadResetFlag | clearResetFlag | reset =>
      obtain rfl := Option.some.inj hst
      rfl
  · rw [hcalls]
    exact hspeedometer

/-- Along every run, the speedometer makes the ride of its calls. -/
theorem run_speedometer (hrun : run step (new elapsedTime) tr = some s) :
    s.speedometer =
      (Speedometer.new elapsedTime).ride (rideOf (trace step (new elapsedTime) tr)) :=
  run_calls Speedometer.ride_nil Speedometer.ride_append step_speedometer hrun

/-- What holds of the fields after the given tasks have been started. -/
structure GearInvariant (started : List Task) (s : BikeSystem) : Prop where
  /-- Only the last task can be running. -/
  running : s.pc ≠ .idle → s.pc.task? = started.getLast?
  /-- Outside the gear task the fields are paired. -/
  paired : started ≠ [] → s.pc.task? ≠ some .gearTask → s.Paired
  /-- After its access, the speed task has set the size. -/
  sized : started.getLast? = some .speedDistanceTask →
    s.pc = .getCurrentSpeed ∨ s.pc = .getDistance ∨ s.pc = .idle →
    s.speedometer.gearSize = s.currentGearSize
  /-- After its access, the speed task has copied the speed. -/
  shown : started.getLast? = some .speedDistanceTask → s.pc = .getDistance ∨ s.pc = .idle →
    s.currentSpeed = s.speedometer.currentSpeed

/-- The pair is consistent at the construction. -/
theorem new_gearInvariant (elapsedTime : ℤ) : GearInvariant [] (new elapsedTime) :=
  ⟨fun h => absurd rfl h, fun h => absurd rfl h, fun h => by simp at h, fun h => by simp at h⟩

/-- Outside the speed task, only the program counter and the pair matter. -/
theorem GearInvariant.of_last_ne {started : List Task}
    (hlast : started.getLast? ≠ some .speedDistanceTask)
    (hrunning : s.pc ≠ .idle → s.pc.task? = started.getLast?)
    (hpaired : started ≠ [] → s.pc.task? ≠ some .gearTask → s.Paired) :
    GearInvariant started s :=
  ⟨hrunning, hpaired, fun h => absurd h hlast, fun h => absurd h hlast⟩

/-- A task that starts in scheduled order keeps the invariant. -/
theorem GearInvariant.start {started : List Task} {task : Task} (h : GearInvariant started s)
    (hidle : s.pc = .idle) (horder : InOrder (started ++ [task])) (temperature : ℚ) :
    GearInvariant (started ++ [task])
      { s with pc := .entry task, currentTemperature := temperature } := by
  have hlast : (started ++ [task]).getLast? = some task := List.getLast?_concat
  refine ⟨?_, ?_, ?_, ?_⟩
  · intro hrunning
    rw [hlast]
    cases task with
    | gearTask | speedDistanceTask | resetTask => rfl
    | temperatureTask | displayTask1 | displayTask2 => exact absurd rfl hrunning
  · intro _ hnotGear
    have htask : task ≠ .gearTask := by
      rintro rfl
      exact hnotGear rfl
    exact h.paired (horder.ne_nil htask) (by simp [hidle, Pc.task?])
  · intro hspeed hset
    rw [hlast] at hspeed
    obtain rfl := Option.some.inj hspeed
    simp [Pc.entry] at hset
  · intro hspeed hcopied
    rw [hlast] at hspeed
    obtain rfl := Option.some.inj hspeed
    simp [Pc.entry] at hcopied

/-- After the second load, the pair is right exactly when the two loads agree. -/
theorem paired_loadGearSize (hpc : s.pc = .loadGearSize) (hst : s.access = some t) :
    t.Paired ↔ s.gearDevice.currentGear = s.currentGear := by
  unfold BikeSystem.access at hst
  rw [hpc] at hst
  obtain rfl := Option.some.inj hst
  exact UInt8.sub_right_inj kMaxGearSize

/-- An access keeps the invariant, if the loads of the gear task agree. -/
theorem GearInvariant.access {started : List Task} (h : GearInvariant started s)
    (hundisturbed : s.pc = .loadGearSize → s.gearDevice.currentGear = s.currentGear)
    (hst : s.access = some t) : GearInvariant started t := by
  obtain ⟨hrunning, hpaired, hsized, hshown⟩ := h
  have hnotSpeed {task : Task} (hpc : s.pc ≠ .idle) (htask : s.pc.task? = some task)
      (hne : task ≠ .speedDistanceTask) : started.getLast? ≠ some .speedDistanceTask := by
    rw [← hrunning hpc, htask]
    exact fun h => hne (Option.some.inj h)
  have hpair (hload : s.pc = .loadGearSize) : t.Paired :=
    (paired_loadGearSize hload hst).mpr (hundisturbed hload)
  unfold BikeSystem.access at hst
  cases hp : s.pc with
  | idle =>
    rw [hp] at hst
    exact absurd hst (by simp)
  | loadGear =>
    have hlast := hnotSpeed (by simp [hp]) (congrArg Pc.task? hp) (by simp)
    rw [hp] at hst hrunning
    obtain rfl := Option.some.inj hst
    exact .of_last_ne hlast (fun _ => hrunning (by simp)) fun _ hnotGear => absurd rfl hnotGear
  | loadGearSize =>
    have hlast := hnotSpeed (by simp [hp]) (congrArg Pc.task? hp) (by simp)
    rw [hp] at hst
    obtain rfl := Option.some.inj hst
    exact .of_last_ne hlast (fun hpc => absurd rfl hpc) fun _ _ => hpair hp
  | loadRotationTime | setCurrentRotationTime =>
    rw [hp] at hst hrunning hpaired
    obtain rfl := Option.some.inj hst
    exact ⟨fun _ => hrunning (by simp), fun hne _ => hpaired hne (by simp [Pc.task?]), by simp,
      by simp⟩
  | setGearSize =>
    rw [hp] at hst hrunning hpaired
    obtain rfl := Option.some.inj hst
    have hset := s.speedometer.set_settings s.timer (.gearSize s.currentGearSize)
    exact ⟨fun _ => hrunning (by simp), fun hne _ => hpaired hne (by simp [Pc.task?]),
      fun _ _ => congrArg Settings.gearSize hset, by simp⟩
  | getCurrentSpeed =>
    rw [hp] at hst hrunning hpaired hsized
    obtain rfl := Option.some.inj hst
    exact ⟨fun _ => hrunning (by simp), fun hne _ => hpaired hne (by simp [Pc.task?]),
      fun hlast _ => hsized hlast (Or.inl rfl), fun _ _ => rfl⟩
  | getDistance =>
    rw [hp] at hst hpaired hsized hshown
    obtain rfl := Option.some.inj hst
    exact ⟨fun hpc => absurd rfl hpc, fun hne _ => hpaired hne (by simp [Pc.task?]),
      fun hlast _ => hsized hlast (Or.inr (Or.inl rfl)), fun hlast _ => hshown hlast (Or.inl rfl)⟩
  | loadResetFlag =>
    have hlast := hnotSpeed (by simp [hp]) (congrArg Pc.task? hp) (by simp)
    rw [hp] at hst hrunning hpaired
    obtain rfl := Option.some.inj hst
    refine .of_last_ne hlast (fun hpc => ?_) fun hne _ => hpaired hne (by simp [Pc.task?])
    cases hflag : s.resetFlag with
    | true => exact hrunning (by simp)
    | false => simp [hflag] at hpc
  | clearResetFlag =>
    have hlast := hnotSpeed (by simp [hp]) (congrArg Pc.task? hp) (by simp)
    rw [hp] at hst hrunning hpaired
    obtain rfl := Option.some.inj hst
    exact .of_last_ne hlast (fun _ => hrunning (by simp))
      fun hne _ => hpaired hne (by simp [Pc.task?])
  | reset =>
    have hlast := hnotSpeed (by simp [hp]) (congrArg Pc.task? hp) (by simp)
    rw [hp] at hst hpaired
    obtain rfl := Option.some.inj hst
    exact .of_last_ne hlast (fun hpc => absurd rfl hpc)
      fun hne _ => hpaired hne (by simp [Pc.task?])

/-- A label starts its task behind the others, or no task at all. -/
theorem tasks_snoc (tr : List Label) (a : Label) :
    tasks (tr ++ [a]) = tasks tr ++ a.task?.toList :=
  filterMap_snoc

/-- Every step of an undisturbed run in scheduled order keeps the invariant. -/
theorem GearInvariant.step (h : GearInvariant (tasks tr) s) (hundisturbed : s.Undisturbed a)
    (horder : InOrder (tasks (tr ++ [a]))) (hst : s.step a = some t) :
    GearInvariant (tasks (tr ++ [a])) t := by
  rw [tasks_snoc] at horder ⊢
  rcases step_cases hst with ⟨task, temperature, htask, hidle, -, rfl⟩ | ⟨pc, rfl, hpc, hst⟩ |
    ⟨htask, -, hpc, hspeedometer, hgear, hsize, hspeed⟩
  · rw [htask] at horder ⊢
    exact h.start hidle horder temperature
  · simp only [Label.task?, Option.toList_none, List.append_nil]
    exact h.access (fun hload => hundisturbed (congrArg Label.access (hpc.symm.trans hload))) hst
  · rw [htask, Option.toList_none, List.append_nil]
    obtain ⟨hrunning, hpaired, hsized, hshown⟩ := h
    exact ⟨hpc ▸ hrunning, by unfold Paired; rw [hpc, hgear, hsize]; exact hpaired,
      by rw [hpc, hspeedometer, hsize]; exact hsized,
      by rw [hpc, hspeedometer, hspeed]; exact hshown⟩

/-- The tasks started before a label are in order if those started with it are. -/
theorem inOrder_of_snoc (h : InOrder (tasks (tr ++ [a]))) : InOrder (tasks tr) := by
  rw [tasks_snoc] at h
  cases htask : a.task? with
  | none => simpa [htask] using h
  | some task =>
    rw [htask] at h
    exact (inOrder_snoc.mp h).1

/-- In scheduled order, every undisturbed run keeps the invariant. -/
theorem gearInvariant_of_run (hrun : run BikeSystem.step (new elapsedTime) tr = some s)
    (horder : InOrder (tasks tr)) (h : Along BikeSystem.step Undisturbed (new elapsedTime) tr) :
    GearInvariant (tasks tr) s := by
  refine h.run_history (I := fun tr s => InOrder (tasks tr) → GearInvariant (tasks tr) s)
    (fun _ => new_gearInvariant elapsedTime) ?_ hrun horder
  intro tr m a t ih hundisturbed hst horder
  exact (ih (inOrder_of_snoc horder)).step hundisturbed horder hst

end Run

end BikeSystem

end BikeComputer.StaticSchedulingWithEvent
