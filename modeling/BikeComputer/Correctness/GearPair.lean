import BikeComputer.Correctness.Ranges
import BikeComputer.StaticScheduling.GearPair
import BikeComputer.StaticScheduling.SuperLoop
import BikeComputer.StaticSchedulingWithEvent.GearPair

/-!
# The gear and the speed that are displayed

In scheduled order, the polling bike system always works with a gear and its size, and so
does the one with interrupts as long as no press changes the gear between the two loads of
the gear task. The speed displayed next to the gear is then its speed, once a setter has
changed the settings since the last reset.
-/

namespace BikeComputer

open Transition
open StaticScheduling (InOrder)

/-- The speed that belongs to a gear. -/
def speedOfGear (gear : UInt8) (rotationTime : ℤ) : ℚ :=
  Settings.speed ⟨kMaxGearSize - gear, rotationTime⟩

/-- A speedometer that works with the size of the gear has the speed of the gear exactly
when the settings have changed since construction or since the last reset. -/
theorem speed_eq_speedOfGear_iff {s : Speedometer} {gear : UInt8} {elapsedTime : ℤ} {cs : Ride}
    (hride : s = (Speedometer.new elapsedTime).ride cs) (hrange : s.InRange)
    (hsize : s.gearSize = kMaxGearSize - gear) :
    s.currentSpeed = speedOfGear gear s.pedalRotationTime ↔
      Ride.ChangedSinceReset .initial cs := by
  have hsettings : s.settings = ⟨kMaxGearSize - gear, s.pedalRotationTime⟩ :=
    congrArg (Settings.mk · s.pedalRotationTime) hsize
  have hpos := hrange.settings.positive
  rw [speedOfGear, ← hsettings]
  rw [hride] at hpos ⊢
  exact Speedometer.ride_currentSpeed_eq_iff hpos

/-- After a run, the task of the label uses the gear with its size, and displays the speed
of the gear once a setter has changed the settings. -/
structure StaticScheduling.GearShown (elapsedTime : ℤ) (tr : List BikeSystem.Label)
    (s : BikeSystem) (a : BikeSystem.Label) : Prop where
  paired : a.task = .speedDistanceTask ∨ a.task = .displayTask1 → s.Paired
  speed : a.task = .displayTask1 →
    (s.currentSpeed = speedOfGear s.currentGear s.speedometer.pedalRotationTime ↔
      Ride.ChangedSinceReset .initial
        (BikeSystem.rideOf (trace BikeSystem.step (.new elapsedTime) tr)))

/-- After a run, the task that is started uses the gear with its size, and so does the
access that sets the size; the task displays the speed of the gear once a setter has
changed the settings. -/
structure StaticSchedulingWithEvent.GearShown (elapsedTime : ℤ) (tr : List BikeSystem.Label)
    (s : BikeSystem) (a : BikeSystem.Label) : Prop where
  paired : a.task? = some .speedDistanceTask ∨ a.task? = some .displayTask1 ∨
    a = .access .setGearSize → s.Paired
  speed : a.task? = some .displayTask1 →
    (s.currentSpeed = speedOfGear s.currentGear s.speedometer.pedalRotationTime ↔
      Ride.ChangedSinceReset .initial
        (BikeSystem.rideOf (trace BikeSystem.step (.new elapsedTime) tr)))

/-- In scheduled order, the polling bike system uses the gear with its size and displays
the speed of the gear. -/
theorem StaticScheduling.gear_shown {elapsedTime : ℤ} {tr : List BikeSystem.Label}
    {s : BikeSystem} {a : BikeSystem.Label}
    (hrun : run BikeSystem.step (.new elapsedTime) tr = some s)
    (horder : InOrder ((tr ++ [a]).map BikeSystem.Label.task)) :
    GearShown elapsedTime tr s a := by
  rw [List.map_append, List.map_singleton] at horder
  have hpaired (ha : a.task ≠ .gearTask) : s.Paired := by
    have hne := horder.ne_nil ha
    exact BikeSystem.paired_of_inOrder hrun (inOrder_snoc.mp horder).1
      fun hnil => hne (congrArg (List.map BikeSystem.Label.task) hnil)
  constructor
  · rintro (ha | ha) <;> exact hpaired (by simp [ha])
  · intro ha
    rw [ha] at horder
    have hlast := horder.getLast?_of_displayTask1
    have hrange := run_invariant BikeSystem.Safe.step (BikeSystem.new_safe elapsedTime) hrun
    rcases List.eq_nil_or_concat' tr with rfl | ⟨before, b, rfl⟩
    · simp at hlast
    · rw [List.map_append, List.map_singleton, List.getLast?_concat] at hlast
      obtain ⟨m, -, hst⟩ := run_snoc_eq_some.mp hrun
      obtain ⟨hshown, hsized⟩ := BikeSystem.shown_of_speedDistanceTask (Option.some.inj hlast) hst
      rw [hshown]
      exact speed_eq_speedOfGear_iff (BikeSystem.run_speedometer hrun) hrange.speedometer
        (hsized.trans (hpaired (by simp [ha])))

/-- The super-loop makes its calls in scheduled order. -/
theorem StaticScheduling.SuperLoop.gear_shown {elapsedTime : ℤ} {s t u : SuperLoop}
    {labels : List Label} {a : BikeSystem.Label} (hsystem : s.system = .new elapsedTime)
    (hpc : s.pc = .call .first) (hrun : run step s labels = some t)
    (hst : t.step (.finish a) = some u) :
    GearShown elapsedTime (labels.filterMap Label.finished?) t.system a := by
  obtain ⟨hcalls, -⟩ := run_calls hpc hrun
  rw [hsystem] at hcalls
  have horder := (run_calls hpc (run_snoc_eq_some.mpr ⟨t, hrun, hst⟩)).2
  rw [filterMap_snoc] at horder
  exact StaticScheduling.gear_shown hcalls horder

/-- In scheduled order, the bike system with interrupts does so in every run in which no
press comes between the loads of the gear task and changes the gear. -/
theorem StaticSchedulingWithEvent.gear_shown {elapsedTime : ℤ} {tr : List BikeSystem.Label}
    {s t : BikeSystem} {a : BikeSystem.Label}
    (hrun : run BikeSystem.step (.new elapsedTime) tr = some s) (hst : s.step a = some t)
    (horder : InOrder (BikeSystem.tasks (tr ++ [a])))
    (h : Along BikeSystem.step BikeSystem.Undisturbed (.new elapsedTime) tr) :
    GearShown elapsedTime tr s a := by
  obtain ⟨hrunning, hpaired, hsized, hshown⟩ :=
    BikeSystem.gearInvariant_of_run hrun (BikeSystem.inOrder_of_snoc horder) h
  rw [BikeSystem.tasks_snoc] at horder
  have hstart {task : Task} (ha : a.task? = some task) (hgear : task ≠ .gearTask) :
      s.pc = .idle ∧ s.Paired := by
    rw [ha] at horder
    have hidle : s.pc = .idle := by
      rcases BikeSystem.step_cases hst with ⟨_, _, -, hidle, -⟩ | ⟨pc, rfl, -⟩ | ⟨hnone, -⟩
      · exact hidle
      · exact absurd ha (by simp [BikeSystem.Label.task?])
      · exact absurd (hnone.symm.trans ha) (by simp)
    exact ⟨hidle, hpaired (horder.ne_nil hgear) (by simp [hidle, Pc.task?])⟩
  constructor
  · rintro (ha | ha | rfl)
    · exact (hstart ha (by simp)).2
    · exact (hstart ha (by simp)).2
    · have hpc := (BikeSystem.step_access.mp hst).1
      have hlast := hrunning (by simp [hpc])
      rw [hpc] at hlast
      have hne : BikeSystem.tasks tr ≠ [] := by
        intro hnil
        rw [hnil] at hlast
        exact absurd hlast (by simp [Pc.task?])
      exact hpaired hne (by simp [hpc, Pc.task?])
  · intro ha
    obtain ⟨hidle, hpair⟩ := hstart ha (by simp)
    rw [ha] at horder
    have hlast := InOrder.getLast?_of_displayTask1 horder
    have hrange := run_invariant BikeSystem.Safe.step (BikeSystem.new_safe elapsedTime) hrun
    rw [hshown hlast (Or.inr hidle)]
    exact speed_eq_speedOfGear_iff (BikeSystem.run_speedometer hrun) hrange.speedometer
      ((hsized hlast (Or.inr (Or.inr hidle))).trans hpair)

/-- With the tasks in scheduled order, the gear is used with its size and its speed is
displayed next to it: by the polling bike system in every run, and by the one with
interrupts in every run in which the two loads of every gear task agree. -/
theorem gear_used_with_its_size (elapsedTime : ℤ) :
    (∀ tr s a, run StaticScheduling.BikeSystem.step (.new elapsedTime) tr = some s →
      InOrder ((tr ++ [a]).map StaticScheduling.BikeSystem.Label.task) →
      StaticScheduling.GearShown elapsedTime tr s a) ∧
    (∀ tr s t a, run StaticSchedulingWithEvent.BikeSystem.step (.new elapsedTime) tr = some s →
      s.step a = some t →
      InOrder (StaticSchedulingWithEvent.BikeSystem.tasks (tr ++ [a])) →
      Along StaticSchedulingWithEvent.BikeSystem.step
        StaticSchedulingWithEvent.BikeSystem.Undisturbed (.new elapsedTime) tr →
      StaticSchedulingWithEvent.GearShown elapsedTime tr s a) :=
  ⟨fun _ _ _ => StaticScheduling.gear_shown,
    fun _ _ _ _ => StaticSchedulingWithEvent.gear_shown⟩

/-- The first gear task and the first speed task, with a press before the former. -/
theorem gear_used_with_its_size_first_cycle :
    (∃ s, run StaticScheduling.BikeSystem.step (.new 0) [.gearTask [⟨.upPressed, 100000⟩]] =
      some s ∧ s.Paired) ∧
    ∃ s, run StaticSchedulingWithEvent.BikeSystem.step (.new 0)
      [.joystick .upPressed, .gearTask, .access .loadGear, .access .loadGearSize] = some s ∧
      s.Paired := by
  refine ⟨⟨_, rfl, ?_⟩, _, rfl, ?_⟩
  · exact ((gear_used_with_its_size 0).1 [.gearTask [⟨.upPressed, 100000⟩]] _
      (.speedDistanceTask [] 0 0 0) rfl rfl).paired (Or.inl rfl)
  · refine ((gear_used_with_its_size 0).2 [.joystick .upPressed, .gearTask, .access .loadGear,
      .access .loadGearSize] _ _ .speedDistanceTask rfl rfl rfl ?_).paired (Or.inl rfl)
    decide

/-- A press between the loads of the gear task: the gear is shown with the size of the next
one. -/
theorem gear_used_with_wrong_size :
    ¬ ∀ elapsedTime tr s t a,
      run StaticSchedulingWithEvent.BikeSystem.step (.new elapsedTime) tr = some s →
      s.step a = some t →
      InOrder (StaticSchedulingWithEvent.BikeSystem.tasks (tr ++ [a])) →
      StaticSchedulingWithEvent.GearShown elapsedTime tr s a := by
  intro h
  have hpaired := (h 0 [.gearTask, .access .loadGear, .joystick .upPressed, .access .loadGearSize]
    _ _ .speedDistanceTask rfl rfl rfl).paired (Or.inl rfl)
  exact absurd hpaired (by unfold StaticSchedulingWithEvent.BikeSystem.Paired; decide)

end BikeComputer
