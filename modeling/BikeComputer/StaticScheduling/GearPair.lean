import BikeComputer.Common.CurrentSpeed
import BikeComputer.Core.Trace
import BikeComputer.StaticScheduling.BikeSystem
import BikeComputer.StaticScheduling.Schedule

/-!
# The gear and its size in the polling bike system

The gear task copies the gear and its size without any change in between, and it is the
first call of the super-loop. The speed that is displayed has been settled right before,
with the size of the gear that is displayed next to it.
-/

namespace BikeComputer.StaticScheduling.BikeSystem

open Transition

/-- The size belongs to the gear. -/
def Paired (s : BikeSystem) : Prop := s.currentGearSize = kMaxGearSize - s.currentGear

/-- The calls of the speedometer a task makes. -/
def calls (s : BikeSystem) : Label → Ride
  | .speedDistanceTask passes t₁ t₂ t₃ =>
    match s.pedalDevice.getCurrentRotationTime passes with
    | some (_, pedalRotationTime) =>
      [(t₁, .set (.rotationTime pedalRotationTime)), (t₂, .set (.gearSize s.currentGearSize)),
        (t₂, .getCurrentSpeed), (t₃, .getDistance)]
    | none => []
  | .resetTask passes now =>
    if ResetDevice.checkReset passes = some true then [(now, .reset)] else []
  | _ => []

/-- The ride a run of the bike system is for its speedometer. -/
def rideOf (tr : List (BikeSystem × Label)) : Ride := tr.flatMap fun x => x.1.calls x.2

section Run

variable {s t : BikeSystem} {a : Label} {tr : List Label} {elapsedTime : ℤ}

/-- A task does to the speedometer what its calls do. -/
theorem step_speedometer (h : s.step a = some t) :
    t.speedometer = s.speedometer.ride (s.calls a) := by
  cases a with
  | gearTask passes =>
    obtain ⟨d, gear, -, rfl⟩ := gearTask_eq_some.mp h
    rfl
  | speedDistanceTask passes t₁ t₂ t₃ =>
    obtain ⟨d, pedalRotationTime, hd, rfl⟩ := speedDistanceTask_eq_some.mp h
    simp only [calls, hd]
    rfl
  | resetTask passes now =>
    obtain ⟨pressed, hpressed, rfl⟩ := resetTask_eq_some.mp h
    cases pressed <;> simp [calls, hpressed, Speedometer.after]
  | temperatureTask | displayTask1 | displayTask2 =>
    obtain rfl := Option.some.inj h
    rfl

/-- Along every run, the speedometer makes the ride of its calls. -/
theorem run_speedometer (hrun : run step (new elapsedTime) tr = some s) :
    s.speedometer =
      (Speedometer.new elapsedTime).ride (rideOf (trace step (new elapsedTime) tr)) :=
  run_calls Speedometer.ride_nil Speedometer.ride_append step_speedometer hrun

/-- The gear task pairs the fields. -/
theorem paired_of_gearTask (ha : a.task = .gearTask) (h : s.step a = some t) : t.Paired := by
  cases a with
  | gearTask passes =>
    obtain ⟨d, gear, hd, rfl⟩ := gearTask_eq_some.mp h
    obtain ⟨p, -, hp⟩ := Option.map_eq_some_iff.mp hd
    obtain ⟨rfl, rfl⟩ := Prod.mk.inj hp
    rfl
  | speedDistanceTask | temperatureTask | resetTask | displayTask1 | displayTask2 =>
    exact absurd ha (by simp [Label.task])

/-- No other task touches them. -/
theorem Paired.step (hs : s.Paired) (h : s.step a = some t) : t.Paired := by
  cases a with
  | gearTask passes => exact paired_of_gearTask rfl h
  | speedDistanceTask passes t₁ t₂ t₃ =>
    obtain ⟨d, pedalRotationTime, -, rfl⟩ := speedDistanceTask_eq_some.mp h
    exact hs
  | resetTask passes now =>
    obtain ⟨pressed, -, rfl⟩ := resetTask_eq_some.mp h
    cases pressed <;> exact hs
  | temperatureTask | displayTask1 | displayTask2 =>
    obtain rfl := Option.some.inj h
    exact hs

/-- In scheduled order, the fields are paired from the first task on. -/
theorem paired_of_inOrder (hrun : run step (new elapsedTime) tr = some s)
    (horder : InOrder (tr.map Label.task)) (htr : tr ≠ []) : s.Paired := by
  refine run_history (I := fun tr s => InOrder (tr.map Label.task) → tr ≠ [] → s.Paired)
    (fun _ hnil => absurd rfl hnil) ?_ hrun horder htr
  intro tr m a t _ ih hst horder _
  rw [List.map_append, List.map_singleton, inOrder_snoc] at horder
  obtain ⟨hbefore, ha⟩ := horder
  by_cases hnil : tr = []
  · subst hnil
    exact paired_of_gearTask ha hst
  · exact (ih hbefore hnil).step hst

/-- The speed task leaves the speed of its settings, among them the size it was given. -/
theorem shown_of_speedDistanceTask (ha : a.task = .speedDistanceTask) (h : s.step a = some t) :
    t.currentSpeed = t.speedometer.currentSpeed ∧ t.speedometer.gearSize = t.currentGearSize := by
  cases a with
  | speedDistanceTask passes t₁ t₂ t₃ =>
    obtain ⟨d, pedalRotationTime, -, rfl⟩ := speedDistanceTask_eq_some.mp h
    have hsettings := ((s.speedometer.set t₁ (.rotationTime pedalRotationTime)).set_settings t₂
      (.gearSize s.currentGearSize))
    exact ⟨rfl, congrArg Settings.gearSize hsettings⟩
  | gearTask | temperatureTask | resetTask | displayTask1 | displayTask2 =>
    exact absurd ha (by simp [Label.task])

end Run

end BikeComputer.StaticScheduling.BikeSystem
