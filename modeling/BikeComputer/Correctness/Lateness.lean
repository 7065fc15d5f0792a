import BikeComputer.Core.Overload
import BikeComputer.Core.Punctual
import BikeComputer.Correctness.Schedule
import Mathlib.Algebra.Order.Ring.Defs

/-!
# How late the tasks of the event queues are

As long as no task takes longer than its computation time, all tasks but one start exactly
at their releases: only the speed task waits, for the gear task or a display task. A task
that takes longer delays the others, but none of them starves.
-/

namespace BikeComputer

open PeriodicQueue

/-- What a task may have to wait for the ones before it. -/
def slack : Task → ℤ
  | .speedDistanceTask => 100
  | .gearTask | .temperatureTask | .resetTask | .displayTask1 | .displayTask2 => 0

/-- The timetable of the first event queue leaves the slack. -/
theorem StaticScheduling.punctual :
    Punctual timing start slack (post timing events).entries :=
  punctual_of_cycle superLoop.length superLoop.length (by decide) start_add_length (by decide)
    (by decide)

/-- So does that of the second one. -/
theorem StaticSchedulingWithEvent.punctual :
    Punctual timing StaticScheduling.start slack (post timing events).entries :=
  punctual_of_cycle StaticScheduling.superLoop.length StaticScheduling.superLoop.length
    (by decide) StaticScheduling.start_add_length (by decide) (by decide)

section Queues

variable {T : Type*} [Ring T] [LinearOrder T] [IsStrictOrderedRing T]

/-- If no job takes longer than its computation time, then every job starts at the next
release of its task or after it, by no more than the slack of the task. -/
def StartsInTime (timing : Timing Task ℤ) (queue : Option (State Task T)) : Prop :=
  ∀ s, queue = some s →
    (∀ job ∈ s.jobs, job.executionTime ≤ timing.computationTime job.task) →
    ∀ before job after, s.jobs = before ++ job :: after →
      let release : T := (timing.map Int.cast).release job.task
        ((before.map Job.task).count job.task)
      release ≤ job.start ∧ job.start ≤ release + slack job.task

/-- With the slack of its timetable, every queue starts its jobs in time. -/
theorem Punctual.startsInTime {timing : Timing Task ℤ} {events : List Task}
    (h : Punctual timing StaticScheduling.start slack (post timing events).entries)
    (hfeasible : Feasible timing StaticScheduling.start (post timing events).entries)
    (hnodup : events.Nodup) (times : List T) :
    StartsInTime timing (dispatchForever (timing.map Int.cast) events times) := by
  have hfeasible' := hfeasible.map (Int.castAddHom T) Int.cast_strictMono
  have hpunctual' := h.map (Int.castAddHom T) Int.cast_strictMono
  rw [post_entries_map] at hfeasible' hpunctual'
  intro s hs hbound before job after hjobs
  have hslot := (follows_of_run hnodup hfeasible' hs hbound).inSlot before job after hjobs
  have htime := inTime_of_run hnodup hfeasible' hpunctual' hs hbound job (by simp [hjobs])
  exact ⟨hslot.release_le_start, hslot.target_eq ▸ htime.start_le⟩

/-- In both event queues, all tasks but the speed task start exactly at their releases, and
the speed task at most 100 ms after its own, whatever the tasks take up to their
computation times. -/
theorem event_queues_start_in_time (times : List T) :
    StartsInTime StaticScheduling.timing (StaticScheduling.startWithEventQueue times) ∧
      StartsInTime StaticSchedulingWithEvent.timing (StaticSchedulingWithEvent.start times) :=
  ⟨Punctual.startsInTime StaticScheduling.punctual StaticScheduling.feasible (by decide) times,
    Punctual.startsInTime StaticSchedulingWithEvent.punctual StaticSchedulingWithEvent.feasible
      (by decide) times⟩

/-- The speed task starts 100 ms after its release. -/
theorem event_queues_start_in_time_speed_task :
    ∃ s, StaticSchedulingWithEvent.start [100, 200, (0 : ℤ)] = some s ∧
      s.jobs = [⟨.gearTask, 0, 0, 100⟩, ⟨.speedDistanceTask, 0, 100, 200⟩,
        ⟨.displayTask1, 300, 300, 0⟩] ∧
      (0 : ℤ) ≤ 100 ∧ (100 : ℤ) ≤ 0 + slack .speedDistanceTask := by
  have hrun : StaticSchedulingWithEvent.start [100, 200, (0 : ℤ)] = some {
      now := 300
      entries := [⟨.temperatureTask, 1100⟩, ⟨.resetTask, 700⟩, ⟨.displayTask2, 1200⟩,
        ⟨.gearTask, 800⟩, ⟨.speedDistanceTask, 400⟩, ⟨.displayTask1, 1900⟩]
      jobs := [⟨.gearTask, 0, 0, 100⟩, ⟨.speedDistanceTask, 0, 100, 200⟩,
        ⟨.displayTask1, 300, 300, 0⟩] } := by decide
  exact ⟨_, hrun, rfl, (event_queues_start_in_time [100, 200, (0 : ℤ)]).2 _ hrun (by decide)
    [⟨.gearTask, 0, 0, 100⟩] ⟨.speedDistanceTask, 0, 100, 200⟩ [⟨.displayTask1, 300, 300, 0⟩] rfl⟩

/-- No job starts before its target or more than five of the longest executions after it, and
no task is forgotten. Unless the queue has not come that far, every task has started its
first job that long after its release delay, and after each of its jobs another one that
long after the next target at the latest. The next target is one period after the last one
or, if the job is not over by then, its end. -/
def NotStarved (timing : Timing Task ℤ) (tasks : List Task) (longest : T)
    (queue : Option (State Task T)) : Prop :=
  ∀ s, queue = some s →
    (∀ job ∈ s.jobs, job.target ≤ job.start ∧ job.start ≤ job.target + 5 * longest) ∧
    (∀ task ∈ tasks,
      (∃ job ∈ s.jobs, job.task = task ∧
        job.start ≤ (timing.delay task : T) + 5 * longest) ∨
      s.now ≤ (timing.delay task : T) + 5 * longest) ∧
    ∀ before job after, s.jobs = before ++ job :: after →
      let bound := max (job.target + (timing.period job.task : T)) (job.start + longest)
      (∃ next ∈ after, next.task = job.task ∧ next.start ≤ bound + 5 * longest) ∨
      s.now ≤ bound + 5 * longest

/-- Six tasks with release delays that are not negative are not starved. -/
theorem notStarved {timing : Timing Task ℤ} {tasks : List Task} (hlength : tasks.length = 6)
    (hdelay : ∀ task ∈ tasks, 0 ≤ timing.delay task) {longest : T} (hlongest : 0 ≤ longest)
    {times : List T} (htimes : ∀ time ∈ times, time ≤ longest) :
    NotStarved timing tasks longest (dispatchForever (timing.map Int.cast) tasks times) := by
  intro s hs
  have hdelay' : ∀ task ∈ tasks, 0 ≤ (timing.map (Int.cast : ℤ → T)).delay task :=
    fun task htask => Int.cast_nonneg (hdelay task htask)
  have h := overloaded_of_run hlongest hdelay' htimes hs
  have hlate : (tasks.length - 1) • longest = 5 * longest := by
    rw [hlength, nsmul_eq_mul]
    exact congrArg (· * longest) (Nat.cast_ofNat (n := 5))
  rw [← hlate]
  refine ⟨fun job hjob => ?_, fun task htask => ?_, fun before job after hsplit => ?_⟩
  · exact ⟨(h.almostOnTime job hjob).target_le_start, (h.almostOnTime job hjob).start_le⟩
  · exact h.first_started hlongest htask
  · exact h.next_started hlongest hsplit

/-- However long the tasks take, and for however long, no task of the two event queues
starves: a bound on the execution times bounds how late each of them is. -/
theorem event_queues_not_starved (longest : T) (hlongest : 0 ≤ longest) (times : List T)
    (htimes : ∀ time ∈ times, time ≤ longest) :
    NotStarved StaticScheduling.timing StaticScheduling.events longest
        (StaticScheduling.startWithEventQueue times) ∧
      NotStarved StaticSchedulingWithEvent.timing StaticSchedulingWithEvent.events longest
        (StaticSchedulingWithEvent.start times) :=
  ⟨notStarved rfl (by decide) hlongest htimes, notStarved rfl (by decide) hlongest htimes⟩

/-- The first gear task takes two seconds. -/
theorem event_queues_not_starved_slow_gear_task :
    NotStarved StaticScheduling.timing StaticScheduling.events 2000
        (StaticScheduling.startWithEventQueue [2000, (0 : ℤ), 0, 0, 0, 0]) ∧
      NotStarved StaticSchedulingWithEvent.timing StaticSchedulingWithEvent.events 2000
        (StaticSchedulingWithEvent.start [2000, (0 : ℤ), 0, 0, 0, 0]) :=
  event_queues_not_starved 2000 (by decide) [2000, 0, 0, 0, 0, 0] (by decide)

end Queues

end BikeComputer
