import BikeComputer.MultiTasking.FullQueues
import BikeComputer.MultiTasking.Schedule

/-!
# The schedule and the order of the events

The queue of the schedule takes the next entry among events, tasks and loggers by their
targets. Seen from the bike system it is the queue that holds nothing but the events, the
oldest first. The periodic callbacks and the event that is executed take places of the queue
as well, so an event that finds a place in the schedule finds one among the events alone.
-/

namespace BikeComputer.MultiTasking.ScheduledSystem

open PeriodicQueue (Entry Mixed takeNext)
open Transition (Along run)

section Pending

variable {es fs : List (Entry Callback ℤ)} {e : Entry Callback ℤ}

/-- The events that wait in two lists. -/
theorem pending_append : pending (es ++ fs) = pending es ++ pending fs :=
  List.filterMap_append

/-- The events that wait are those of the calls. -/
theorem pending_calls : pending (Mixed.calls Callback.period es) = pending es := by
  induction es with
  | nil => rfl
  | cons e es ih =>
    obtain ⟨task, target⟩ := e
    cases task <;> simp_all [pending, Mixed.calls, Callback.period, Callback.event?]

end Pending

section Simulation

variable {places : ℕ} {s t : ScheduledSystem} {a : Label}

/-- Neither the devices nor the dispatching of their events. -/
def OffQueue : BikeSystem.Label → Prop
  | .joystick _ | .dispatch _ => False
  | _ => True

/-- Everything else does not depend on the events that wait. -/
theorem step_withQueue {s t : BikeSystem} {a : BikeSystem.Label} (ha : OffQueue a)
    (h : bikeStep s a = some t) (events : List Event) :
    BikeSystem.step { s with eventQueuePeriodic := events } a =
      some { t with eventQueuePeriodic := events } := by
  cases a with
  | joystick | dispatch => exact absurd ha id
  | onReset | tick =>
    obtain rfl := Option.some.inj h
    rfl
  | displayTask =>
    obtain ⟨hidle, rfl⟩ := BikeSystem.step_displayTask.mp h
    exact BikeSystem.step_displayTask.mpr ⟨hidle, rfl⟩
  | temperatureTask temperature =>
    obtain ⟨hidle, rfl⟩ := BikeSystem.step_temperatureTask.mp h
    exact BikeSystem.step_temperatureTask.mpr ⟨hidle, rfl⟩
  | periodic =>
    rcases BikeSystem.periodicStep_cases h with ⟨gear, gearSize, hp, rfl⟩ |
      ⟨rotationTime, hp, rfl⟩ | ⟨hp, rfl⟩ | ⟨op, value, hp, rfl⟩ |
      ⟨op, pc, shared, pc', hp, hop, rfl⟩
    · simp [BikeSystem.step, BikeSystem.periodicStep, hp, Operation.entry]
    · simp [BikeSystem.step, BikeSystem.periodicStep, hp, Operation.entry]
    · simp [BikeSystem.step, BikeSystem.periodicStep, hp, Operation.entry,
        Speedometer.getCurrentSpeed]
    · simp [BikeSystem.step, BikeSystem.periodicStep, hp]
    · exact BikeSystem.periodicStep_operation hp hop
  | isr =>
    rcases BikeSystem.isrStep_cases h with ⟨hi, n, hn, rfl⟩ | ⟨hi, rfl⟩ |
      ⟨pc, shared, pc', hi, hreset, rfl⟩
    · simp [BikeSystem.step, BikeSystem.isrStep, hi, hn]
    · simp [BikeSystem.step, BikeSystem.isrStep, hi]
    · cases pc with
      | returned => exact absurd hreset (by simp [resetStep])
      | lock | clearDistance | clearSpeed | unlock | readTimer | storeLastTime =>
        simp [BikeSystem.step, BikeSystem.isrStep, hi, hreset]

/-- A joystick state posts at most one event, and finds a place for it. -/
theorem pending_of_posts {j : Joystick.State} {q : Mixed Callback ℤ}
    (hroom : HasRoom places s (.bike (.joystick j)))
    (hq : run (Mixed.step Callback.period places) s.eventQueue
      ((posts s.bike j).map fun e => .call (.event e)) = some q) :
    pending q.entries = pending s.eventQueue.entries ++ posts s.bike j := by
  rcases s.bike.onJoystick_posts j with hnone | ⟨e, hone⟩
  · rw [posts, hnone] at hq ⊢
    rw [← Option.some.inj hq, List.append_nil]
  · have hchanges : s.bike.Changes j := by
      by_contra hunchanged
      obtain ⟨hgear, hpedal⟩ := BikeSystem.onJoystick_of_not_changes hunchanged
      simp [hgear, hpedal] at hone
    rw [posts, hone] at hq ⊢
    obtain ⟨m, hm, hend⟩ := Transition.run_cons_eq_some.mp hq
    obtain ⟨-, rfl⟩ := Mixed.step_call.mp hm
    rw [← Option.some.inj hend, pending_append, Mixed.accepted, if_pos (hroom hchanges)]
    rfl

/-- The callback that begins is the next one, and if it is the one of an event, this event
is the first that waits. -/
theorem pending_of_begin {c : Callback} {q : Mixed Callback ℤ}
    (horder : Mixed.InOrder Callback.period s.eventQueue)
    (hq : Mixed.step Callback.period places s.eventQueue (.begin c) = some q) :
    pending s.eventQueue.entries = c.event?.toList ++ pending q.entries := by
  obtain ⟨e, rest, hnext, -, rfl, -, rfl⟩ := Mixed.step_begin.mp hq
  have htaken := Mixed.calls_of_takeNext horder.chronological hnext
  rw [← pending_calls, htaken, pending_append, pending_calls, pending_calls]
  cases h : e.task.event? <;> simp [pending, h]

/-- Everything else leaves the waiting events alone. -/
theorem pending_of_finish {q : Mixed Callback ℤ}
    (hq : Mixed.step Callback.period places s.eventQueue .finish = some q) :
    pending q.entries = pending s.eventQueue.entries := by
  obtain ⟨e, -, rfl⟩ := Mixed.step_finish.mp hq
  have hagain : pending (s.eventQueue.again Callback.period e) = [] := by
    obtain ⟨task, target⟩ := e
    cases task <;> rfl
  rw [pending_append, hagain, List.append_nil]

/-- What neither posts nor dispatches an event leaves the waiting ones alone. -/
theorem pending_of_offQueue {b : BikeSystem.Label} (hb : OffQueue b)
    (horder : Mixed.InOrder Callback.period s.eventQueue)
    (hst : s.step places (.bike b) = some t) :
    pending t.eventQueue.entries = pending s.eventQueue.entries := by
  cases b with
  | joystick | dispatch => exact absurd hb id
  | onReset | periodic | isr =>
    have hqueue := (step_eq_some.mp hst).2.2
    rw [Option.some.inj hqueue]
  | displayTask => exact (pending_of_begin horder (step_eventQueue hst rfl)).symm
  | temperatureTask => exact (pending_of_begin horder (step_eventQueue hst rfl)).symm
  | tick d =>
    obtain ⟨-, -, hend⟩ := Mixed.step_elapse.mp (step_eventQueue hst rfl)
    rw [hend]

/-- With a place for every event, a step of the schedule is a step of the bike system, or
one that it does not notice. -/
theorem step_toBikeSystem (horder : Mixed.InOrder Callback.period s.eventQueue)
    (hroom : HasRoom places s a) (hst : s.step places a = some t) :
    run BikeSystem.step s.toBikeSystem a.bike?.toList = some t.toBikeSystem := by
  have hunnoticed (ha : a.bike? = none)
      (hpending : pending t.eventQueue.entries = pending s.eventQueue.entries) :
      run BikeSystem.step s.toBikeSystem a.bike?.toList = some t.toBikeSystem := by
    have hbike := (step_eq_some.mp hst).2.1
    rw [ha] at hbike ⊢
    rw [toBikeSystem, toBikeSystem, hpending, Option.some.inj hbike]
    rfl
  cases a with
  | finish => exact hunnoticed rfl (pending_of_finish (step_eventQueue hst rfl))
  | printDiffs => exact hunnoticed rfl (pending_of_begin horder (step_eventQueue hst rfl)).symm
  | printStats => exact hunnoticed rfl (pending_of_begin horder (step_eventQueue hst rfl)).symm
  | bike b =>
    suffices hstep : s.toBikeSystem.step b = some t.toBikeSystem by
      exact Transition.run_cons_eq_some.mpr ⟨_, hstep, rfl⟩
    have hbike := step_bike hst
    have hoff (hb : OffQueue b) : s.toBikeSystem.step b = some t.toBikeSystem := by
      rw [toBikeSystem, toBikeSystem, pending_of_offQueue hb horder hst]
      exact step_withQueue hb hbike _
    cases b with
    | joystick j =>
      have hpending := pending_of_posts hroom (step_eq_some.mp hst).2.2
      rw [toBikeSystem, toBikeSystem, hpending, ← Option.some.inj hbike, posts]
      simp [BikeSystem.step, BikeSystem.onJoystick]
    | dispatch e =>
      have hpending : pending s.eventQueue.entries = e :: pending t.eventQueue.entries :=
        pending_of_begin horder (step_eventQueue hst rfl)
      simp only [bikeStep, Option.ite_none_right_eq_some, Option.some.injEq] at hbike
      obtain ⟨hidle, hend⟩ := hbike
      refine BikeSystem.step_dispatch.mpr ⟨hidle, _, hpending, ?_⟩
      rw [toBikeSystem, ← hend]
      rfl
    | onReset | displayTask | temperatureTask | periodic | isr | tick => exact hoff trivial

end Simulation

section Runs

variable {testMode : Bool} {elapsedTime : ℤ} {places : ℕ} {labels : List Label}
variable {t : ScheduledSystem}

/-- What every step of the bike system preserves holds of the bike system with a schedule. -/
theorem history_of_run {I : List BikeSystem.Label → BikeSystem → Prop}
    (hnew : I [] (.new elapsedTime))
    (hstep : ∀ {as m a n}, I as m → m.step a = some n → I (as ++ [a]) n)
    (hroom : Along (step places) (HasRoom places) (new testMode elapsedTime) labels)
    (hrun : run (step places) (new testMode elapsedTime) labels = some t) :
    I (labels.filterMap Label.bike?) t.toBikeSystem := by
  refine (hroom.run_history (I := fun labels t => Mixed.InOrder Callback.period t.eventQueue ∧
    I (labels.filterMap Label.bike?) t.toBikeSystem) ?_ ?_ hrun).2
  · exact ⟨new_inOrder testMode elapsedTime, (new_toBikeSystem testMode elapsedTime).symm ▸ hnew⟩
  · rintro as m a n ⟨horder, hm⟩ ha hst
    refine ⟨eventQueue_invariant (fun hq hr => hq.step hr) horder hst, ?_⟩
    have hbike := step_toBikeSystem horder ha hst
    rw [Transition.filterMap_snoc]
    cases hb : a.bike? with
    | none =>
      rw [hb] at hbike
      rw [← Option.some.inj hbike, Option.toList_none, List.append_nil]
      exact hm
    | some b =>
      rw [hb] at hbike
      obtain ⟨n', hn', hend⟩ := Transition.run_cons_eq_some.mp hbike
      rw [← Option.some.inj hend]
      exact hstep hm hn'

end Runs

section Places

variable {testMode : Bool} {elapsedTime : ℤ} {places : ℕ} {labels : List Label}
variable {s t : ScheduledSystem} {c : Capacity}

/-- Every periodic callback keeps a place of the queue. -/
theorem kept_of_run (hrun : run (step places) (new testMode elapsedTime) labels = some t) :
    t.eventQueue.kept Callback.period = (periodicEvents testMode).length := by
  refine Transition.run_invariant
    (I := fun t => t.eventQueue.kept Callback.period = (periodicEvents testMode).length) ?_ ?_ hrun
  · intro s a t hs hst
    exact eventQueue_invariant (I := fun q => q.kept Callback.period = _)
      (fun hq hr => (Mixed.kept_of_step hr).trans hq) hs hst
  · cases testMode <;> rfl

/-- The events that wait are the calls of the queue. -/
theorem length_pending (es : List (Entry Callback ℤ)) :
    (pending es).length = (Mixed.calls Callback.period es).length := by
  induction es with
  | nil => rfl
  | cons e es ih =>
    obtain ⟨task, target⟩ := e
    cases task <;> simp_all [pending, Mixed.calls, Callback.period, Callback.event?]

/-- In the queue of the schedule the periodic callbacks and the event that is executed take
places as well. An event that finds a place there finds one among the events alone. -/
theorem hasRoom_toBikeSystem {b : BikeSystem.Label}
    (hplaces : places ≤ c.periodic + s.eventQueue.kept Callback.period)
    (hroom : HasRoom places s (.bike b)) : BikeSystem.HasRoom c s.toBikeSystem b := by
  rintro j rfl hchanges
  have hoccupied : s.eventQueue.occupied < places := hroom hchanges
  have htaken : (Mixed.calls Callback.period s.eventQueue.entries).length +
      s.eventQueue.kept Callback.period ≤ s.eventQueue.occupied :=
    Mixed.length_calls_add_kept_le s.eventQueue
  rw [← length_pending] at htaken
  change (pending s.eventQueue.entries).length < c.periodic
  omega

/-- A run of the schedule in which every event finds a place is a run of the bike system in
which every event finds one of the places that the periodic callbacks leave. -/
theorem hasRoom_of_run (hplaces : places ≤ c.periodic + (periodicEvents testMode).length)
    (hroom : Along (step places) (HasRoom places) (new testMode elapsedTime) labels)
    (hrun : run (step places) (new testMode elapsedTime) labels = some t) :
    Along BikeSystem.step (BikeSystem.HasRoom c) (.new elapsedTime)
      (labels.filterMap Label.bike?) := by
  induction labels using List.reverseRecOn generalizing t with
  | nil => exact List.forall_mem_nil _
  | append_singleton labels a ih =>
    obtain ⟨m, hm, hst⟩ := Transition.run_snoc_eq_some.mp hrun
    obtain ⟨hbefore, ha⟩ := (Transition.along_snoc hm).mp hroom
    have hbike := history_of_run
      (I := fun as m => run BikeSystem.step (.new elapsedTime) as = some m) rfl
      (fun h hst => Transition.run_snoc_eq_some.mpr ⟨_, h, hst⟩) hbefore hm
    rw [Transition.filterMap_snoc]
    cases hb : a.bike? with
    | none => simpa using ih hbefore hm
    | some b =>
      obtain rfl : a = .bike b := by cases a <;> simp_all [Label.bike?]
      refine (Transition.along_snoc hbike).mpr ⟨ih hbefore hm, hasRoom_toBikeSystem ?_ ha⟩
      rw [kept_of_run hm]
      exact hplaces

end Places

/-- In every run of the schedule in which every event finds a place, the bike system makes
the same steps as with a queue that holds nothing but the events, the oldest first. -/
theorem schedule_refines_bike_system (testMode : Bool) (elapsedTime : ℤ) (places : ℕ)
    (labels : List Label) (t : ScheduledSystem)
    (hroom : Along (step places) (HasRoom places) (new testMode elapsedTime) labels)
    (hrun : run (step places) (new testMode elapsedTime) labels = some t) :
    run BikeSystem.step (.new elapsedTime) (labels.filterMap Label.bike?) =
      some t.toBikeSystem :=
  history_of_run (I := fun as m => run BikeSystem.step (.new elapsedTime) as = some m) rfl
    (fun h hst => Transition.run_snoc_eq_some.mpr ⟨_, h, hst⟩) hroom hrun

/-- The gear is changed when the system starts. -/
theorem schedule_refines_bike_system_of_gear_change :
    ∃ t, run (step 6) (new true 0) (.bike (.joystick .upPressed) :: firstCycle) = some t ∧
      t.bike.currentGear = 2 ∧
      run BikeSystem.step (.new 0)
        ((Label.bike (.joystick .upPressed) :: firstCycle).filterMap Label.bike?) =
          some t.toBikeSystem := by
  obtain ⟨t, ht, hgear⟩ : ∃ t, run (step 6) (new true 0)
      (.bike (.joystick .upPressed) :: firstCycle) = some t ∧ t.bike.currentGear = 2 :=
    ⟨_, rfl, rfl⟩
  exact ⟨t, ht, hgear, schedule_refines_bike_system true 0 6 _ t (by decide +kernel) ht⟩

end BikeComputer.MultiTasking.ScheduledSystem
