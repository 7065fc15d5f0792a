import BikeComputer.Core.Stopping
import BikeComputer.Core.Timetable
import Mathlib.Data.Int.Notation

/-!
# The event loop of the single-threaded bike systems

Both of them declare a delay, a period and a computation time for each of their tasks, in
milliseconds, and post the tasks to an event queue.

`dispatch_forever` begins the next task of its queue whenever none is running, until its
queue is told to break. `stop` only sets the stop flag, which nothing on the way of
`dispatch_forever` loads. The finished tasks are the jobs of the queue.
-/

namespace BikeComputer

/-- The tasks of the single-threaded bike systems. -/
inductive Task where
  | gearTask
  | speedDistanceTask
  | temperatureTask
  | resetTask
  | displayTask1
  | displayTask2
  deriving DecidableEq, Repr

/-- The queue that is dispatched, and the flag `stop` sets. -/
structure EventLoop (T : Type) where
  eventQueue : PeriodicQueue.State Task T
  running : Bool := false
  stopFlag : Bool := false

namespace EventLoop

variable {T : Type}

/-- A task begins and finishes; `stop` is the call of another thread. -/
inductive Label (T : Type) where
  | begin (task : Task)
  | finish (executionTime : T)
  | stop

/-- The task at the front of the queue. -/
def next? [LinearOrder T] (s : EventLoop T) : Option Task :=
  (PeriodicQueue.takeNext s.eventQueue.entries).map fun p => p.1.task

/-- A queue that is not empty has a next task. -/
theorem exists_next [LinearOrder T] {s : EventLoop T} (h : s.eventQueue.entries ≠ []) :
    ∃ task, s.next? = some task := by
  have hnext : PeriodicQueue.takeNext s.eventQueue.entries ≠ none :=
    fun hnone => h (PeriodicQueue.takeNext_eq_none.mp hnone)
  obtain ⟨p, hp⟩ := Option.ne_none_iff_exists'.mp hnext
  exact ⟨p.1.task, by rw [next?, hp]; rfl⟩

/-- The loop begins and finishes one task after the other; `stop` sets the flag at any time. -/
def step [AddMonoid T] [LinearOrder T] (timing : PeriodicQueue.Timing Task T)
    (s : EventLoop T) : Label T → Option (EventLoop T)
  | .begin task =>
    if s.running = false ∧ s.next? = some task then some { s with running := true } else none
  | .finish executionTime =>
    if s.running = true ∧ 0 ≤ executionTime then
      (PeriodicQueue.dispatch timing s.eventQueue executionTime).map fun eventQueue =>
        { s with eventQueue := eventQueue, running := false }
    else none
  | .stop => some { s with stopFlag := true }

/-- The time of the execution a label finishes. -/
def Label.executionTime? : Label T → Option T
  | .finish executionTime => some executionTime
  | _ => none

/-- The task a label begins. -/
def Label.begun? : Label T → Option Task
  | .begin task => some task
  | _ => none

section Steps

variable [AddMonoid T] [LinearOrder T] {timing : PeriodicQueue.Timing Task T}
variable {s t : EventLoop T}

/-- An idle loop begins the next task. -/
theorem step_begin {task : Task} :
    s.step timing (.begin task) = some t ↔
      s.running = false ∧ s.next? = some task ∧ t = { s with running := true } := by
  simp only [step, Option.ite_none_right_eq_some, Option.some.injEq, and_assoc, @eq_comm _ t]

/-- The end of a task dispatches it with the time it has taken. -/
theorem step_finish {executionTime : T} :
    s.step timing (.finish executionTime) = some t ↔
      s.running = true ∧ 0 ≤ executionTime ∧ ∃ eventQueue,
        PeriodicQueue.dispatch timing s.eventQueue executionTime = some eventQueue ∧
        t = { s with eventQueue := eventQueue, running := false } := by
  simp only [step, Option.ite_none_right_eq_some, Option.map_eq_some_iff, and_assoc, @eq_comm _ t]

/-- The queue of an event loop never runs empty. -/
theorem step_entries {label : Label T} (hs : s.eventQueue.entries ≠ [])
    (h : s.step timing label = some t) : t.eventQueue.entries ≠ [] := by
  cases label with
  | begin task =>
    obtain ⟨-, -, rfl⟩ := step_begin.mp h
    exact hs
  | finish executionTime =>
    obtain ⟨-, -, eventQueue, hdispatch, rfl⟩ := step_finish.mp h
    obtain ⟨e, rest, -, rfl⟩ := PeriodicQueue.dispatch_eq_some.mp hdispatch
    simp
  | stop =>
    obtain rfl := Option.some.inj h
    exact hs

/-- The finished executions are jobs of the queue. -/
theorem run_dispatch {labels : List (Label T)}
    (h : Transition.run (step timing) s labels = some t) :
    Transition.run (PeriodicQueue.dispatch timing) s.eventQueue
      (labels.filterMap Label.executionTime?) = some t.eventQueue := by
  refine Transition.run_filterMap ?_ h
  intro s label t ht
  cases label with
  | begin task =>
    obtain ⟨-, -, rfl⟩ := step_begin.mp ht
    rfl
  | finish executionTime =>
    obtain ⟨-, -, eventQueue, hdispatch, rfl⟩ := step_finish.mp ht
    exact Transition.run_cons_eq_some.mpr ⟨eventQueue, hdispatch, rfl⟩
  | stop =>
    obtain rfl := Option.some.inj ht
    rfl

/-- The tasks of the jobs, and the one that is running. -/
def begun (s : EventLoop T) : List Task :=
  s.eventQueue.jobs.map PeriodicQueue.Job.task ++ if s.running then s.next?.toList else []

/-- A label begins its task behind the others, or no task at all. -/
theorem step_begun {label : Label T} (h : s.step timing label = some t) :
    t.begun = s.begun ++ label.begun?.toList := by
  cases label with
  | begin task =>
    obtain ⟨hrunning, hnext, rfl⟩ := step_begin.mp h
    have hnext' : EventLoop.next? { s with running := true } = some task := hnext
    simp [begun, hrunning, hnext', Label.begun?]
  | finish executionTime =>
    obtain ⟨hrunning, -, eventQueue, hdispatch, rfl⟩ := step_finish.mp h
    obtain ⟨e, rest, hnext, rfl⟩ := PeriodicQueue.dispatch_eq_some.mp hdispatch
    simp [begun, hrunning, next?, hnext, Label.begun?]
  | stop =>
    obtain rfl := Option.some.inj h
    simp [begun, next?, Label.begun?]

/-- A run of the loop is one of `dispatch_forever`, and the tasks it has begun are those of
the jobs and the one that is running. -/
theorem run_jobs {tasks : List Task} {labels : List (Label T)}
    (hs : s.eventQueue = PeriodicQueue.post timing tasks) (hrunning : s.running = false)
    (h : Transition.run (step timing) s labels = some t) :
    PeriodicQueue.dispatchForever timing tasks (labels.filterMap Label.executionTime?) =
        some t.eventQueue ∧
      labels.filterMap Label.begun? = t.begun := by
  constructor
  · rw [PeriodicQueue.dispatchForever, ← hs]
    exact run_dispatch h
  · refine Transition.run_history (I := fun labels t => labels.filterMap Label.begun? = t.begun)
      ?_ ?_ h
    · simp [begun, hrunning, hs, PeriodicQueue.post]
    · intro labels m label t _ hm ht
      rw [Transition.filterMap_snoc, hm, step_begun ht]

end Steps

/-- The loop of a queue the given tasks are posted to. -/
def loop [AddMonoid T] [LinearOrder T] (timing : PeriodicQueue.Timing Task T)
    (tasks : List Task) : Transition.Loop where
  State := EventLoop T
  Label := Label T
  step := step timing
  Entered s := s.eventQueue = PeriodicQueue.post timing tasks ∧ s.running = false
  starts label := label.begun?.isSome
  stop := .stop

/-- Whatever the flag is, one more task can begin, after the one that is running. -/
theorem loop_goesOn [AddMonoid T] [LinearOrder T] (timing : PeriodicQueue.Timing Task T)
    {tasks : List Task} (htasks : tasks ≠ []) : (loop timing tasks).GoesOn := by
  have hbegin (s : EventLoop T) (hs : s.eventQueue.entries ≠ []) (hidle : s.running = false) :
      ∃ task t, s.step timing (.begin task) = some t := by
    obtain ⟨task, htask⟩ := exists_next hs
    exact ⟨task, _, step_begin.mpr ⟨hidle, htask, rfl⟩⟩
  refine Transition.Loop.goesOn_of_invariant (I := fun s => s.eventQueue.entries ≠ []) ?_
    (fun hs h => step_entries hs h) ?_
  · rintro s ⟨hs, -⟩
    rw [hs]
    simpa [PeriodicQueue.post] using htasks
  · intro s hs
    cases hrunning : s.running with
    | false =>
      obtain ⟨task, t, ht⟩ := hbegin s hs hrunning
      exact ⟨[.begin task], t, Transition.run_cons_eq_some.mpr ⟨t, ht, rfl⟩, rfl⟩
    | true =>
      obtain ⟨eventQueue, hdispatch, hentries⟩ := PeriodicQueue.exists_dispatch timing hs 0
      obtain ⟨task, t, ht⟩ :=
        hbegin { s with eventQueue := eventQueue, running := false } hentries rfl
      refine ⟨[.finish 0, .begin task], t, Transition.run_cons_eq_some.mpr
        ⟨_, step_finish.mpr ⟨hrunning, le_rfl, eventQueue, hdispatch, rfl⟩,
          Transition.run_cons_eq_some.mpr ⟨t, ht, rfl⟩⟩, rfl⟩

/-- An event loop with a task does not stop. -/
theorem not_loop_stops [AddMonoid T] [LinearOrder T] (timing : PeriodicQueue.Timing Task T)
    {tasks : List Task} (htasks : tasks ≠ []) (bound : ℕ) :
    ¬ (loop timing tasks).Stops bound := by
  have hentered : (loop timing tasks).Entered { eventQueue := PeriodicQueue.post timing tasks } :=
    ⟨rfl, rfl⟩
  exact (loop_goesOn timing htasks).not_stops hentered rfl

end EventLoop

end BikeComputer
