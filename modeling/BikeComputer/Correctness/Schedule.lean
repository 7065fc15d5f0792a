import BikeComputer.StaticScheduling.Schedule
import BikeComputer.StaticSchedulingWithEvent.Schedule
import Mathlib.Algebra.Order.Ring.Int
import Mathlib.Data.Int.Cast.Lemmas
import Mathlib.Algebra.Order.Ring.Cast

/-!
# The event queues stay inside the super-loop

The super-loop with its nominal computation times is a timetable. It is feasible for
the tasks of both event queues: their targets repeat from the twelfth job on, one major
cycle later, so that two cycles decide all of them.
-/

namespace BikeComputer

open PeriodicQueue

/-- The start of the `n`-th call of the super-loop whose calls take their nominal
computation times. -/
def StaticScheduling.slot (T : Type*) [Ring T] (n : ℕ) : T :=
  slotStart (StaticScheduling.timing.map Int.cast) StaticScheduling.start n

/-- The queue runs a job for each of the times. If none takes longer than its
computation time, they are the calls of the super-loop, each inside its slot. -/
def InsideSuperLoop {T : Type*} [Ring T] [LinearOrder T] (timing : Timing Task ℤ)
    (times : List T) (queue : Option (State Task T)) : Prop :=
  ∃ s, queue = some s ∧ s.jobs.map Job.executionTime = times ∧
    ((∀ job ∈ s.jobs, job.executionTime ≤ timing.computationTime job.task) →
      s.jobs.map Job.task = (List.range times.length).map StaticScheduling.start ∧
      ∀ before job after, s.jobs = before ++ job :: after →
        job.InSlot (timing.map Int.cast) (StaticScheduling.start before.length)
          (StaticScheduling.slot T before.length) before)

/-- The events of the first queue fit into the slots of the super-loop. -/
theorem StaticScheduling.feasible :
    Feasible timing start (post timing events).entries :=
  feasible_of_cycle superLoop.length superLoop.length (by decide) start_add_length (by decide)
    (by decide)

/-- So do those of the second one. -/
theorem StaticSchedulingWithEvent.feasible :
    Feasible timing StaticScheduling.start (post timing events).entries :=
  feasible_of_cycle StaticScheduling.superLoop.length StaticScheduling.superLoop.length
    (by decide) StaticScheduling.start_add_length (by decide) (by decide)

section Queues

variable {T : Type*} [Ring T] [LinearOrder T] [IsStrictOrderedRing T]

/-- Tasks that are feasible in milliseconds stay inside the super-loop at any times. -/
theorem Feasible.insideSuperLoop {timing : Timing Task ℤ} {events : List Task}
    (h : Feasible timing StaticScheduling.start (post timing events).entries)
    (hcomputationTime : timing.computationTime = StaticScheduling.timing.computationTime)
    (hnodup : events.Nodup) (hevents : events ≠ []) (times : List T) :
    InsideSuperLoop timing times (dispatchForever (timing.map Int.cast) events times) := by
  have hfeasible := h.map (Int.castAddHom T) Int.cast_strictMono
  rw [post_entries_map] at hfeasible
  have hslot (n : ℕ) : slotStart (timing.map Int.cast) StaticScheduling.start n =
      StaticScheduling.slot T n :=
    slotStart_congr (congrArg (Int.cast ∘ ·) hcomputationTime) _ _
  obtain ⟨s, hs, htimes⟩ :=
    exists_dispatchForever (timing.map (Int.cast : ℤ → T)) hevents times
  refine ⟨s, hs, htimes, fun hbound => ?_⟩
  have hfollows := follows_of_run hnodup hfeasible hs hbound
  have hlength : s.jobs.length = times.length := by
    rw [← htimes, List.length_map]
  refine ⟨hlength ▸ hfollows.tasks_eq, fun before job after hjobs => ?_⟩
  rw [← hslot]
  exact hfollows.inSlot before job after hjobs

/-- Whatever the jobs take up to their computation times, both event queues run the calls
of the super-loop, each between its release and the start of its slot, and over before
the next release of its task. -/
theorem event_queues_inside_super_loop (times : List T) :
    InsideSuperLoop StaticScheduling.timing times
        (StaticScheduling.startWithEventQueue times) ∧
      InsideSuperLoop StaticSchedulingWithEvent.timing times
        (StaticSchedulingWithEvent.start times) :=
  ⟨Feasible.insideSuperLoop StaticScheduling.feasible rfl (by decide) (by decide) times,
    Feasible.insideSuperLoop StaticSchedulingWithEvent.feasible rfl (by decide) (by decide)
      times⟩

/-- The first three jobs are the first three calls. -/
theorem event_queues_inside_super_loop_three_jobs :
    ∃ s, StaticScheduling.startWithEventQueue [50, 200, 0] = some s ∧
      s.jobs = [⟨.gearTask, 0, 0, 50⟩, ⟨.speedDistanceTask, 0, 50, 200⟩,
        ⟨.displayTask1, 300, 300, (0 : ℤ)⟩] ∧
      s.jobs.map Job.task = (List.range 3).map StaticScheduling.start := by
  obtain ⟨s, hs, -, h⟩ := (event_queues_inside_super_loop [50, 200, (0 : ℤ)]).1
  have hrun : StaticScheduling.startWithEventQueue [50, 200, (0 : ℤ)] = some {
      now := 300
      entries := [⟨.temperatureTask, 1100⟩, ⟨.resetTask, 700⟩, ⟨.displayTask2, 1200⟩,
        ⟨.gearTask, 800⟩, ⟨.speedDistanceTask, 400⟩, ⟨.displayTask1, 1900⟩]
      jobs := [⟨.gearTask, 0, 0, 50⟩, ⟨.speedDistanceTask, 0, 50, 200⟩,
        ⟨.displayTask1, 300, 300, 0⟩] } := by decide
  obtain rfl := Option.some.inj (hs.symm.trans hrun)
  exact ⟨_, hs, rfl, (h (by decide)).1⟩

end Queues

end BikeComputer
