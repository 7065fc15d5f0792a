import BikeComputer.Common.EventLoop
import BikeComputer.MultiTasking.MainLoop
import BikeComputer.StaticScheduling.SuperLoop
import BikeComputer.StaticSchedulingWithEvent.Schedule

/-!
# Stopping the bike systems

The super-loop loads the stop flag once a pass, and the queue of the multi-tasking system
is broken. The other two entry points end in a queue that `stop` does not break, so the
periodic tasks go on for ever.
-/

namespace BikeComputer

/-- The methods that run a bike system. -/
inductive EntryPoint where
  | staticSchedulingStart
  | staticSchedulingStartWithEventQueue
  | staticSchedulingWithEventStart
  | multiTaskingStart
  deriving DecidableEq, Repr

/-- The loop each of them ends in. -/
def EntryPoint.loop : EntryPoint → Transition.Loop
  | .staticSchedulingStart => StaticScheduling.SuperLoop.loop
  | .staticSchedulingStartWithEventQueue =>
    EventLoop.loop (StaticScheduling.timing.map (Int.cast : ℤ → ℚ)) StaticScheduling.events
  | .staticSchedulingWithEventStart =>
    EventLoop.loop (StaticSchedulingWithEvent.timing.map (Int.cast : ℤ → ℚ))
      StaticSchedulingWithEvent.events
  | .multiTaskingStart => MultiTasking.MainLoop.loop

/-- `stop` stops the entry points that load the stop flag or whose queue it breaks, within
the 11 executions of a major cycle; the others go on to begin tasks after every stop. -/
theorem stop_stops_iff (entry : EntryPoint) :
    (entry.loop.Stops 11 ↔ entry = .staticSchedulingStart ∨ entry = .multiTaskingStart) ∧
    (¬ entry.loop.Stops 11 → entry.loop.GoesOn) := by
  cases entry with
  | staticSchedulingStart =>
    have hstops := StaticScheduling.SuperLoop.rank.stops
    exact ⟨iff_of_true hstops (Or.inl rfl), fun h => absurd hstops h⟩
  | staticSchedulingStartWithEventQueue =>
    exact ⟨iff_of_false (EventLoop.not_loop_stops _ (by decide) 11) (by decide),
      fun _ => EventLoop.loop_goesOn _ (by decide)⟩
  | staticSchedulingWithEventStart =>
    exact ⟨iff_of_false (EventLoop.not_loop_stops _ (by decide) 11) (by decide),
      fun _ => EventLoop.loop_goesOn _ (by decide)⟩
  | multiTaskingStart =>
    have hstops := MultiTasking.MainLoop.rank.stops.mono (Nat.zero_le 11)
    exact ⟨iff_of_true hstops (Or.inr rfl), fun h => absurd hstops h⟩

/-- The calls of a major cycle and one more, each taking its computation time. -/
def majorCycleAndOne : List (EventLoop.Label ℚ) :=
  (StaticScheduling.superLoop ++ [Task.gearTask]).flatMap fun task =>
    [.begin task, .finish (StaticScheduling.timing.computationTime task)]

/-- An event queue told to stop before its first task runs more than a major cycle. -/
theorem stop_not_stops : ¬ ∀ entry : EntryPoint, entry.loop.Stops 11 := by
  intro h
  let entered : EventLoop ℚ :=
    { eventQueue := PeriodicQueue.post (StaticScheduling.timing.map Int.cast)
        StaticScheduling.events }
  have hrun : (Transition.run (EventLoop.step (StaticScheduling.timing.map Int.cast)) entered
      (.stop :: majorCycleAndOne)).isSome := by
    decide +kernel
  obtain ⟨t, ht⟩ := Option.isSome_iff_exists.mp hrun
  have hle := h .staticSchedulingStartWithEventQueue entered [] majorCycleAndOne t ⟨rfl, rfl⟩ ht
  exact absurd hle (by decide)

end BikeComputer
