import BikeComputer.Core.MixedJobs
import BikeComputer.MultiTasking.BoundedQueues

/-!
# The schedule of the multi-tasking bike system

The queue `start` dispatches for ever takes the events of the devices and the periodic
tasks, and decides which callback the periodic thread runs next. A callback is over when
all its accesses have been made, and the timer ticks together with the clock of the queue.
The events of the devices are in this queue only. Time begins with the dispatching: what
`start` does before, and how long the event of the pedal device has then waited, is left
out. The dispatcher itself takes no time, so an idle queue begins an event as soon as it is
due.
-/

namespace BikeComputer.MultiTasking

open PeriodicQueue (Mixed)
open Transition (run)

def kDisplayTaskPeriod : ℤ := 1600
def kDisplayTaskDelay : ℤ := 300
def kTemperatureTaskPeriod : ℤ := 1600
def kTemperatureTaskDelay : ℤ := 1100
def kMajorCycleDuration : ℤ := 1600

/-- What the periodic queue calls. -/
inductive Callback where
  | event (event : Event)
  | temperatureTask
  | displayTask
  | printDiffs
  | printStats
  deriving DecidableEq, Repr

namespace Callback

/-- The delays on the scale of the timer. -/
def delay : Callback → ℤ
  | .event _ => 0
  | .temperatureTask => 1000 * kTemperatureTaskDelay
  | .displayTask => 1000 * kDisplayTaskDelay
  | .printDiffs | .printStats => 1000 * kMajorCycleDuration

/-- The periods on the scale of the timer. -/
def period : Callback → Option ℤ
  | .event _ => none
  | .temperatureTask => some (1000 * kTemperatureTaskPeriod)
  | .displayTask => some (1000 * kDisplayTaskPeriod)
  | .printDiffs | .printStats => some (1000 * kMajorCycleDuration)

/-- The event of a callback that handles one. -/
def event? : Callback → Option Event
  | .event e => some e
  | _ => none

/-- Only the events of the devices are posted once. -/
theorem period_eq_none {c : Callback} : c.period = none ↔ ∃ e, c = .event e := by
  cases c <;> simp [period]

/-- The callback of an event. -/
theorem event?_eq_some {c : Callback} {e : Event} : c.event? = some e ↔ c = .event e := by
  cases c <;> simp [event?]

end Callback

/-- The periodic events `start` posts, in order. Those of the loggers are left out in test
mode. -/
def periodicEvents (testMode : Bool) : List Callback :=
  [.temperatureTask, .displayTask] ++ if testMode then [] else [.printDiffs, .printStats]

/-- No delay is negative. -/
theorem Callback.delay_nonneg (c : Callback) : 0 ≤ c.delay := by
  cases c <;> simp [delay, kTemperatureTaskDelay, kDisplayTaskDelay,
    kMajorCycleDuration]

/-- All periodic callbacks have the same period. -/
theorem period_of_mem {testMode : Bool} {c : Callback} (hc : c ∈ periodicEvents testMode) :
    c.period = some (1000 * kMajorCycleDuration) := by
  revert c
  cases testMode <;> decide

/-- The display task is posted in both builds. -/
theorem displayTask_mem (testMode : Bool) : .displayTask ∈ periodicEvents testMode := by
  cases testMode <;> decide

/-- The devices and threads with the queue that decides which callback is next. -/
structure ScheduledSystem where
  bike : BikeSystem
  eventQueue : Mixed Callback ℤ
  deriving DecidableEq, Repr

namespace ScheduledSystem

/-- The moment at which `start` begins to dispatch. The event of the pedal device has been
posted before the periodic ones, and their delays are counted from here. -/
def new (testMode : Bool) (elapsedTime : ℤ) : ScheduledSystem where
  bike := { BikeSystem.new elapsedTime with eventQueuePeriodic := [] }
  eventQueue := .post Callback.delay
    ((BikeSystem.new elapsedTime).eventQueuePeriodic.map .event) (periodicEvents testMode)

/-- A step of the bike system, one of the loggers, or the end of a callback. -/
inductive Label where
  | bike (a : BikeSystem.Label)
  | printDiffs
  | printStats
  | finish
  deriving DecidableEq, Repr

/-- What a label is for the devices and threads. -/
def Label.bike? : Label → Option BikeSystem.Label
  | .bike a => some a
  | _ => none

/-- What the devices and the threads do, whatever is in the queue. -/
def bikeStep (s : BikeSystem) : BikeSystem.Label → Option BikeSystem
  | .joystick state => some { s with
      gearDevice := (s.gearDevice.onJoystick state).1
      pedalDevice := (s.pedalDevice.onJoystick state).1 }
  | .dispatch event =>
    if s.periodic = .idle then some { s with periodic := event.activity } else none
  | a => s.step a

/-- The events the callbacks of a joystick state post. -/
def posts (s : BikeSystem) (state : Joystick.State) : List Event :=
  (s.gearDevice.onJoystick state).2 ++ (s.pedalDevice.onJoystick state).2

/-- What a label is for the event queue. -/
def queueLabels (s : ScheduledSystem) : Label → List (Mixed.Label Callback ℤ)
  | .bike (.joystick state) => (posts s.bike state).map fun e => .call (.event e)
  | .bike (.dispatch event) => [.begin (.event event)]
  | .bike .displayTask => [.begin .displayTask]
  | .bike (.temperatureTask _) => [.begin .temperatureTask]
  | .bike (.tick d) => [.elapse d]
  | .bike _ => []
  | .printDiffs => [.begin .printDiffs]
  | .printStats => [.begin .printStats]
  | .finish => [.finish]

/-- The queue and the threads make their steps together. A callback is over when its thread is
idle again. -/
def step (places : ℕ) (s : ScheduledSystem) (a : Label) : Option ScheduledSystem :=
  if a = .finish ∧ s.bike.periodic ≠ .idle then none
  else do
    let bike ← run bikeStep s.bike a.bike?.toList
    let eventQueue ← run (Mixed.step Callback.period places) s.eventQueue (s.queueLabels a)
    return { bike := bike, eventQueue := eventQueue }

/-- A callback that begins, makes its accesses and is over at once. -/
def execution (start : BikeSystem.Label) (accesses : ℕ) : List Label :=
  .bike start :: List.replicate accesses (.bike .periodic) ++ [.finish]

/-- Milliseconds pass. -/
def sleep (d : ℕ) : Label := .bike (.tick (1000 * d))

/-- A change of gear at the start is handled behind the event of the constructor. Then the
tasks of a cycle and the first one of the next cycle follow, without taking any time. -/
def firstCycle : List Label :=
  execution (.dispatch (.pedal kInitialPedalRotationTime)) 3 ++
    execution (.dispatch (.gear 2 (kMaxGearSize - 2))) 13 ++
    sleep 300 :: execution .displayTask 11 ++ sleep 800 :: execution (.temperatureTask 20) 0 ++
    sleep 800 :: execution .displayTask 11 ++ [sleep 1]

/-- The events that wait in the queue. -/
def pending (es : List (PeriodicQueue.Entry Callback ℤ)) : List Event :=
  es.filterMap fun e => e.task.event?

/-- The bike system with a queue of events alone. -/
def toBikeSystem (s : ScheduledSystem) : BikeSystem :=
  { s.bike with eventQueuePeriodic := pending s.eventQueue.entries }

/-- A changing callback finds a place for its event. -/
def HasRoom (places : ℕ) (s : ScheduledSystem) : Label → Prop
  | .bike (.joystick j) => s.bike.Changes j → s.eventQueue.occupied < places
  | _ => True

instance (places : ℕ) (s : ScheduledSystem) : DecidablePred (HasRoom places s)
  | .bike (.joystick j) =>
    inferInstanceAs (Decidable (s.bike.Changes j → s.eventQueue.occupied < places))
  | .bike .onReset | .bike (.dispatch _) | .bike .displayTask | .bike (.temperatureTask _)
  | .bike .periodic | .bike .isr | .bike (.tick _) | .printDiffs | .printStats | .finish =>
    inferInstanceAs (Decidable True)

/-- No callback has been running for longer than the bound. -/
def OnTime (M : ℤ) (s : ScheduledSystem) : Prop := s.eventQueue.OnTime M

instance (M : ℤ) : DecidablePred (OnTime M) := fun s =>
  inferInstanceAs (Decidable (s.eventQueue.running ≠ none →
    s.eventQueue.clock ≤ s.eventQueue.since + M))

/-- The entries a step adds for the events of the devices. -/
def accepted (places : ℕ) (s : ScheduledSystem) :
    Label → List (PeriodicQueue.Entry Callback ℤ)
  | .bike (.joystick j) =>
    if s.eventQueue.occupied < places then
      (posts s.bike j).map fun e => ⟨.event e, s.eventQueue.clock⟩
    else []
  | _ => []

/-- Without the periodic callbacks, the system is the one that is constructed. -/
theorem new_toBikeSystem (testMode : Bool) (elapsedTime : ℤ) :
    (new testMode elapsedTime).toBikeSystem = BikeSystem.new elapsedTime := by
  cases testMode <;> rfl

/-- The event of the pedal device waits in front. -/
theorem new_inOrder (testMode : Bool) (elapsedTime : ℤ) :
    Mixed.InOrder Callback.period (new testMode elapsedTime).eventQueue := by
  refine Mixed.post_inOrder (fun c hc => ?_) fun c hc => ?_
  · obtain ⟨e, -, rfl⟩ := List.mem_map.mp hc
    rfl
  · simp [period_of_mem hc]

section Projections

variable {places : ℕ} {s t : ScheduledSystem} {a : Label}

/-- A step is one of the devices and threads together with those of the queue. -/
theorem step_eq_some :
    s.step places a = some t ↔
      (a = .finish → s.bike.periodic = .idle) ∧
      run bikeStep s.bike a.bike?.toList = some t.bike ∧
      run (Mixed.step Callback.period places) s.eventQueue (s.queueLabels a) =
        some t.eventQueue := by
  by_cases hbusy : a = .finish ∧ s.bike.periodic ≠ .idle
  · simp [step, hbusy]
  · have hidle : a = .finish → s.bike.periodic = .idle := by simpa using hbusy
    obtain ⟨bike, eventQueue⟩ := t
    simp only [step, if_neg hbusy, Option.bind_eq_bind, Option.bind_eq_some_iff, Option.pure_def,
      Option.some.injEq, mk.injEq]
    constructor
    · rintro ⟨b, hb, q, hq, rfl, rfl⟩
      exact ⟨hidle, hb, hq⟩
    · rintro ⟨-, hb, hq⟩
      exact ⟨bike, hb, eventQueue, hq, rfl, rfl⟩

/-- What every step of the queue preserves, every step of the whole does. -/
theorem eventQueue_invariant {I : Mixed Callback ℤ → Prop}
    (hstep : ∀ {q b r}, I q → Mixed.step Callback.period places q b = some r → I r)
    (h : I s.eventQueue) (hst : s.step places a = some t) : I t.eventQueue :=
  Transition.run_invariant hstep h (step_eq_some.mp hst).2.2

/-- A label with one effect on the queue. -/
theorem step_eventQueue {b : Mixed.Label Callback ℤ} (hst : s.step places a = some t)
    (hb : s.queueLabels a = [b]) :
    Mixed.step Callback.period places s.eventQueue b = some t.eventQueue := by
  have hqueue := (step_eq_some.mp hst).2.2
  rw [hb] at hqueue
  obtain ⟨m, hm, hend⟩ := Transition.run_cons_eq_some.mp hqueue
  rw [hm, Option.some.inj hend]

/-- A step of the devices and threads. -/
theorem step_bike {b : BikeSystem.Label} (hst : s.step places (.bike b) = some t) :
    bikeStep s.bike b = some t.bike := by
  obtain ⟨m, hm, hend⟩ := Transition.run_cons_eq_some.mp (step_eq_some.mp hst).2.1
  rw [hm, Option.some.inj hend]

/-- The clock of the queue never goes back. -/
theorem clock_le_of_step (hst : s.step places a = some t) :
    s.eventQueue.clock ≤ t.eventQueue.clock :=
  eventQueue_invariant (I := fun q => s.eventQueue.clock ≤ q.clock)
    (fun hq hr => hq.trans (Mixed.clock_le_of_step hr)) le_rfl hst

end Projections

end ScheduledSystem

end BikeComputer.MultiTasking
