import BikeComputer.Core.TimedQueue
import BikeComputer.StaticSchedulingWithEvent.BikeSystem
import BikeComputer.StaticSchedulingWithEvent.Schedule

/-!
# The bike system with interrupts and its event queue

The event queue decides when a task starts, and the timer of the bike system and the clock
of the queue tick together. A task is over when all its accesses have been made.
-/

namespace BikeComputer.StaticSchedulingWithEvent

open PeriodicQueue (Timed)
open Transition (run)

/-- The timing of the tasks on the scale of the timer. -/
def timingInMicroseconds : PeriodicQueue.Timing Task ℤ := timing.map (1000 * ·)

/-- The bike system with the queue that decides which task is next. -/
structure TimedSystem where
  bike : BikeSystem
  eventQueue : Timed Task ℤ
  deriving DecidableEq, Repr

/-- The time that passes with a label. -/
def BikeSystem.Label.duration : BikeSystem.Label → ℤ
  | .tick d => d
  | _ => 0

/-- Only ticks move the timer. -/
theorem BikeSystem.step_timer {s t : BikeSystem} {a : Label} (h : s.step a = some t) :
    t.timer = s.timer + a.duration := by
  cases a with
  | gearTask | speedDistanceTask | resetTask | displayTask1 | displayTask2 =>
    obtain ⟨-, rfl⟩ := start_eq_some.mp h
    exact (add_zero _).symm
  | temperatureTask temperature =>
    obtain ⟨m, hm, rfl⟩ := Option.map_eq_some_iff.mp h
    obtain ⟨-, rfl⟩ := start_eq_some.mp hm
    exact (add_zero _).symm
  | joystick | onReset =>
    obtain rfl := Option.some.inj h
    exact (add_zero _).symm
  | tick d =>
    obtain rfl := Option.some.inj h
    rfl
  | access pc =>
    obtain ⟨rfl, hacc⟩ := step_access.mp h
    unfold access at hacc
    cases hp : s.pc with
    | idle => simp [hp] at hacc
    | loadGear | loadGearSize | loadRotationTime | setCurrentRotationTime | setGearSize
    | getCurrentSpeed | getDistance | loadResetFlag | clearResetFlag | reset =>
      rw [hp] at hacc
      obtain rfl := Option.some.inj hacc
      exact (add_zero _).symm

namespace TimedSystem

/-- The events are posted when the system starts. -/
def new (elapsedTime : ℤ) : TimedSystem where
  bike := .new elapsedTime
  eventQueue := .post timingInMicroseconds events

/-- A step of the bike system, or the end of a task. -/
inductive Label where
  | bike (a : BikeSystem.Label)
  | finish
  deriving DecidableEq, Repr

/-- What a label is for the bike system. -/
def Label.bike? : Label → Option BikeSystem.Label
  | .bike a => some a
  | .finish => none

/-- What a label is for the event queue, if anything. -/
def Label.event? : Label → Option (Timed.Label Task ℤ)
  | .bike (.tick d) => some (.elapse d)
  | .bike a => a.task?.map .begin
  | .finish => some .finish

/-- The queue and the bike system make their steps together. A task is over when its thread is
idle again. -/
def step (s : TimedSystem) (a : Label) : Option TimedSystem :=
  if a = .finish ∧ s.bike.pc ≠ .idle then none
  else do
    let bike ← run BikeSystem.step s.bike a.bike?.toList
    let eventQueue ← run (Timed.step timingInMicroseconds) s.eventQueue a.event?.toList
    return { bike := bike, eventQueue := eventQueue }

/-- What `displayTask1` hands to the display. -/
structure Screen where
  gear : UInt8
  speed : ℚ
  distance : ℚ
  deriving DecidableEq, Repr

/-- What the display shows once a task is over. Only tasks store to the fields, so they are
the same all the time `displayTask1` is being run. -/
def display? (s : TimedSystem) : Label → Option Screen
  | .finish =>
    if s.eventQueue.next?.map PeriodicQueue.Entry.task = some .displayTask1 then
      some {
        gear := s.bike.currentGear
        speed := s.bike.currentSpeed
        distance := s.bike.traveledDistance }
    else none
  | .bike _ => none

/-- No task has been running for longer than its computation time. -/
def OnTime (s : TimedSystem) : Prop := s.eventQueue.OnTime timingInMicroseconds

instance : DecidablePred OnTime := fun s =>
  inferInstanceAs (Decidable (s.eventQueue.running = true → ∀ e ∈ s.eventQueue.next?, _))

/-- A task that is started and makes its accesses at once. -/
def execution (start : BikeSystem.Label) (accesses : List Pc) : List Label :=
  .bike start :: accesses.map (fun pc => .bike (.access pc)) ++ [.finish]

/-- Milliseconds pass. -/
def sleep (d : ℕ) : Label := .bike (.tick (1000 * d))

/-- One major cycle in which no task takes any time, the pedals turn at the given rotation
time and the first reset task makes the given accesses. -/
def cycle (rotationTime : ℤ) (reset : List Pc) : List Label :=
  let gearTask := execution .gearTask [.loadGear, .loadGearSize]
  let speedDistanceTask := execution .speedDistanceTask
    [.loadRotationTime, .setCurrentRotationTime rotationTime, .setGearSize, .getCurrentSpeed,
      .getDistance]
  gearTask ++ speedDistanceTask ++ sleep 300 :: execution .displayTask1 [] ++
    sleep 100 :: speedDistanceTask ++ sleep 300 :: execution .resetTask reset ++
    sleep 100 :: gearTask ++ speedDistanceTask ++
    sleep 300 :: execution (.temperatureTask 20) [] ++
    sleep 100 :: execution .displayTask2 [] ++ speedDistanceTask ++
    sleep 300 :: execution .resetTask [.loadResetFlag] ++ [sleep 100]

section Projections

variable {s t : TimedSystem} {a : Label} {labels : List Label}

/-- A step is one of the bike system together with one of the queue. -/
theorem step_eq_some :
    s.step a = some t ↔
      (a = .finish → s.bike.pc = .idle) ∧
      run BikeSystem.step s.bike a.bike?.toList = some t.bike ∧
      run (Timed.step timingInMicroseconds) s.eventQueue a.event?.toList =
        some t.eventQueue := by
  by_cases hbusy : a = .finish ∧ s.bike.pc ≠ .idle
  · simp [step, hbusy]
  · have hidle : a = .finish → s.bike.pc = .idle := by simpa using hbusy
    obtain ⟨bike, eventQueue⟩ := t
    simp only [step, if_neg hbusy, Option.bind_eq_bind, Option.bind_eq_some_iff, Option.pure_def,
      Option.some.injEq, mk.injEq]
    constructor
    · rintro ⟨b, hb, q, hq, rfl, rfl⟩
      exact ⟨hidle, hb, hq⟩
    · rintro ⟨-, hb, hq⟩
      exact ⟨bike, hb, eventQueue, hq, rfl, rfl⟩

/-- A run of the whole is a run of the bike system. -/
theorem run_bike (h : run step s labels = some t) :
    run BikeSystem.step s.bike (labels.filterMap Label.bike?) = some t.bike :=
  Transition.run_filterMap (fun hst => (step_eq_some.mp hst).2.1) h

/-- A run of the whole is a run of its event queue. -/
theorem run_eventQueue (h : run step s labels = some t) :
    run (Timed.step timingInMicroseconds) s.eventQueue (labels.filterMap Label.event?) =
      some t.eventQueue :=
  Transition.run_filterMap (fun hst => (step_eq_some.mp hst).2.2) h

/-- A timely run of the whole is a timely run of its event queue. -/
theorem onTime_eventQueue (hontime : Transition.Throughout step OnTime s labels)
    (h : run step s labels = some t) :
    Transition.Throughout (Timed.step timingInMicroseconds)
      (Timed.OnTime timingInMicroseconds) s.eventQueue (labels.filterMap Label.event?) :=
  hontime.filterMap (fun hst => (step_eq_some.mp hst).2.2) h

/-- A step of the bike system. -/
theorem step_bike {a : BikeSystem.Label} (h : step s (.bike a) = some t) :
    s.bike.step a = some t.bike := by
  obtain ⟨m, hm, ht⟩ := Transition.run_cons_eq_some.mp (step_eq_some.mp h).2.1
  exact hm.trans ht

/-- The timer and the clock tick together. -/
theorem step_timer (h : step s a = some t) :
    t.bike.timer - t.eventQueue.clock = s.bike.timer - s.eventQueue.clock := by
  obtain ⟨-, hbike, hqueue⟩ := step_eq_some.mp h
  have hclock {x : Timed.Label Task ℤ} (hx : a.event? = some x) :
      t.eventQueue.clock = s.eventQueue.clock + x.duration := by
    rw [hx] at hqueue
    obtain ⟨q, hq, ht⟩ := Transition.run_cons_eq_some.mp hqueue
    rw [← Option.some.inj ht]
    exact Timed.step_clock hq
  have hstay (hx : a.event? = none) : t.eventQueue.clock = s.eventQueue.clock := by
    rw [hx] at hqueue
    rw [Option.some.inj hqueue]
  cases a with
  | finish =>
    rw [← Option.some.inj hbike, hclock rfl]
    simp [Timed.Label.duration]
  | bike a =>
    rw [BikeSystem.step_timer (step_bike h)]
    cases a with
    | tick d =>
      rw [hclock rfl]
      exact add_sub_add_right_eq_sub _ _ _
    | gearTask | speedDistanceTask | temperatureTask | resetTask | displayTask1 | displayTask2 =>
      rw [hclock rfl]
      exact add_sub_add_right_eq_sub _ _ _
    | access | joystick | onReset =>
      rw [hstay rfl]
      exact congrArg (· - _) (add_zero _)

end Projections

end TimedSystem

end BikeComputer.StaticSchedulingWithEvent
