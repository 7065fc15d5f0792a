import BikeComputer.MultiTasking.FullQueues
import BikeComputer.MultiTasking.Schedule

/-!
# Events and tasks of the multi-tasking bike system in time

One queue takes the events of the devices and the periodic callbacks. If no callback takes
longer than a bound, the queue stays prompt: nothing in it is late by more than one bound
for each other place, whatever the devices do. So the events are answered in order and in
time, and if a cycle pays for one bound for each place, the callbacks keep their releases.
-/

namespace BikeComputer.MultiTasking.ScheduledSystem

open PeriodicQueue (Mixed)
open Transition (Throughout run)

section Timeliness

variable {testMode : Bool} {elapsedTime : ℤ} {places : ℕ} {M : ℤ} {s t : ScheduledSystem}
variable {a : Label} {labels : List Label}

/-- A step of the whole is at most one step of the queue. -/
theorem eventQueue_cases (hst : s.step places a = some t) :
    t.eventQueue = s.eventQueue ∨
      ∃ b, Mixed.step Callback.period places s.eventQueue b = some t.eventQueue := by
  have hqueue := (step_eq_some.mp hst).2.2
  have hsame (h : s.queueLabels a = []) : t.eventQueue = s.eventQueue := by
    rw [h] at hqueue
    exact (Option.some.inj hqueue).symm
  cases a with
  | finish | printDiffs | printStats => exact Or.inr ⟨_, step_eventQueue hst rfl⟩
  | bike b =>
    cases b with
    | joystick j =>
      rcases s.bike.onJoystick_posts j with hnone | ⟨e, hone⟩
      · exact Or.inl (hsame (by simp [queueLabels, posts, hnone]))
      · exact Or.inr ⟨.call (.event e),
          step_eventQueue hst (by simp [queueLabels, posts, hone])⟩
    | dispatch | displayTask | temperatureTask | tick =>
      exact Or.inr ⟨_, step_eventQueue hst rfl⟩
    | onReset | periodic | isr => exact Or.inl (hsame rfl)

/-- What holds of the queue if its callbacks are on time. -/
structure Timely (M : ℤ) (places : ℕ) (s : ScheduledSystem) : Prop where
  prompt : Mixed.Prompt M places s.eventQueue
  inOrder : Mixed.InOrder Callback.period s.eventQueue

/-- The queue is timely when the dispatching begins. -/
theorem new_timely (elapsedTime : ℤ) (hM : 0 ≤ M)
    (hplaces : 1 + (periodicEvents testMode).length ≤ places) :
    Timely M places (new testMode elapsedTime) :=
  ⟨Mixed.post_prompt hM hplaces fun c _ => c.delay_nonneg, new_inOrder testMode elapsedTime⟩

/-- A step whose callback is on time keeps the queue timely. -/
theorem Timely.step (h : Timely M places s) (hM : 0 ≤ M) (hontime : OnTime M s)
    (hst : s.step places a = some t) : Timely M places t := by
  rcases eventQueue_cases hst with hsame | ⟨b, hb⟩
  · exact ⟨hsame ▸ h.prompt, hsame ▸ h.inOrder⟩
  · exact ⟨h.prompt.step hM hontime hb, h.inOrder.step hb⟩

/-- Every run whose callbacks are on time keeps the queue timely. -/
theorem timely_of_run (hM : 0 ≤ M) (hplaces : 1 + (periodicEvents testMode).length ≤ places)
    (hontime : Throughout (step places) (OnTime M) (new testMode elapsedTime) labels)
    (hrun : run (step places) (new testMode elapsedTime) labels = some t) :
    Timely M places t :=
  hontime.run_history (I := fun _ t => Timely M places t) (new_timely elapsedTime hM hplaces)
    (fun hm hq hst => hm.step hM hq hst) hrun

/-- Every periodic callback waits for its first release. -/
theorem new_cyclic (elapsedTime : ℤ) {c : Callback} (hc : c ∈ periodicEvents testMode) :
    Mixed.Cyclic c c.delay (1000 * kMajorCycleDuration)
      (new testMode elapsedTime).eventQueue := by
  refine Mixed.post_cyclic (fun hmem => ?_) hc ?_
  · obtain ⟨e, -, rfl⟩ := List.mem_map.mp hmem
    simpa [Callback.period] using period_of_mem hc
  · cases testMode <;> decide

/-- If a cycle pays for one bound for each place, the periodic callbacks keep to it. -/
theorem cyclic_of_run (hM : 0 ≤ M) (hplaces : 1 + (periodicEvents testMode).length ≤ places)
    (hperiod : places • M ≤ 1000 * kMajorCycleDuration)
    (hontime : Throughout (step places) (OnTime M) (new testMode elapsedTime) labels)
    (hrun : run (step places) (new testMode elapsedTime) labels = some t) {c : Callback}
    (hc : c ∈ periodicEvents testMode) :
    Mixed.Cyclic c c.delay (1000 * kMajorCycleDuration) t.eventQueue := by
  refine (hontime.run_history (I := fun _ t => Timely M places t ∧
    Mixed.Cyclic c c.delay (1000 * kMajorCycleDuration) t.eventQueue)
    ⟨new_timely elapsedTime hM hplaces, new_cyclic elapsedTime hc⟩
    ?_ hrun).2
  rintro as m a n ⟨htimely, hcyclic⟩ hq hst
  refine ⟨htimely.step hM hq hst, ?_⟩
  rcases eventQueue_cases hst with hsame | ⟨b, hb⟩
  · exact hsame ▸ hcyclic
  · exact hcyclic.step (period_of_mem hc) htimely.prompt hq hperiod hb

/-- Only calls are accepted. -/
theorem called_of_not_call {q r : Mixed Callback ℤ} {b : Mixed.Label Callback ℤ}
    (hb : ∀ c, b ≠ .call c) (hq : Mixed.step Callback.period places q b = some r) :
    r.called = q.called := by
  cases b with
  | call c => exact absurd rfl (hb c)
  | begin c =>
    obtain ⟨e, rest, -, -, -, -, rfl⟩ := Mixed.step_begin.mp hq
    rfl
  | finish =>
    obtain ⟨e, -, rfl⟩ := Mixed.step_finish.mp hq
    rfl
  | elapse d =>
    obtain ⟨-, -, rfl⟩ := Mixed.step_elapse.mp hq
    rfl

/-- The calls that are accepted are the events of the devices that find a place. -/
theorem step_called (hst : s.step places a = some t) :
    t.eventQueue.called = s.eventQueue.called ++ s.accepted places a := by
  have hqueue := (step_eq_some.mp hst).2.2
  have hsame (hnone : s.queueLabels a = []) : t.eventQueue.called = s.eventQueue.called := by
    rw [hnone] at hqueue
    rw [← Option.some.inj hqueue]
  cases a with
  | finish | printDiffs | printStats =>
    exact (called_of_not_call (by simp) (step_eventQueue hst rfl)).trans (List.append_nil _).symm
  | bike b =>
    cases b with
    | joystick j =>
      rcases s.bike.onJoystick_posts j with hnone | ⟨e, hone⟩
      · rw [hsame (by simp [queueLabels, posts, hnone])]
        simp [accepted, posts, hnone]
      · have hcall := step_eventQueue (b := .call (.event e)) hst
          (by simp [queueLabels, posts, hone])
        obtain ⟨-, hend⟩ := Mixed.step_call.mp hcall
        simp [hend, accepted, Mixed.accepted, posts, hone]
    | dispatch | displayTask | temperatureTask | tick =>
      exact (called_of_not_call (by simp) (step_eventQueue hst rfl)).trans (List.append_nil _).symm
    | onReset | periodic | isr => exact (hsame rfl).trans (List.append_nil _).symm

end Timeliness

/-- In every run of the schedule whose callbacks take at most a bound, the events of the
devices that find a place are dispatched in the order they were posted in, each of them once
and later than posted by at most one bound for each other place. -/
theorem events_answered_in_order (testMode : Bool) (elapsedTime : ℤ) (places : ℕ) (M : ℤ)
    (labels : List Label) (t : ScheduledSystem) (hM : 0 ≤ M)
    (hplaces : 1 + (periodicEvents testMode).length ≤ places)
    (hrun : run (step places) (new testMode elapsedTime) labels = some t)
    (hontime : Throughout (step places) (OnTime M) (new testMode elapsedTime) labels) :
    Mixed.calls Callback.period (t.eventQueue.started.map Prod.fst) ++
        Mixed.calls Callback.period t.eventQueue.entries =
      (new testMode elapsedTime).eventQueue.called ++
        (Transition.trace (step places) (new testMode elapsedTime) labels).flatMap
          (fun x => x.1.accepted places x.2) ∧
    ∀ e ∈ t.eventQueue.called,
      (∃ x ∈ t.eventQueue.started,
        x.1 = e ∧ e.target ≤ x.2 ∧ x.2 ≤ e.target + (places - 1) • M) ∨
      t.eventQueue.clock ≤ e.target + (places - 1) • M := by
  have htimely := timely_of_run hM hplaces hontime hrun
  have hcalled := @Transition.run_calls _ _ (step places) _ t labels _ _
    (fun t => t.eventQueue.called) (accepted places) (fun es accepted => es ++ accepted)
    List.append_nil (fun es fs gs => (List.append_assoc es fs gs).symm) step_called hrun
  refine ⟨htimely.inOrder.called.trans hcalled, fun e he => ?_⟩
  exact htimely.inOrder.answered htimely.prompt hM
    (hontime labels [] t (List.append_nil _).symm hrun) he

/-- The change of gear is posted when the system starts. -/
theorem events_answered_in_order_of_gear_change :
    ∃ t, run (step 6) (new true 0) (.bike (.joystick .upPressed) :: firstCycle) = some t ∧
      ⟨.event (.gear 2 18), 0⟩ ∈ t.eventQueue.called ∧
      ((∃ x ∈ t.eventQueue.started, x.1 = ⟨.event (.gear 2 18), 0⟩ ∧ 0 ≤ x.2 ∧
        x.2 ≤ 0 + (6 - 1) • (1 : ℤ)) ∨ t.eventQueue.clock ≤ 0 + (6 - 1) • (1 : ℤ)) := by
  obtain ⟨t, ht, hcalled⟩ : ∃ t, run (step 6) (new true 0)
      (.bike (.joystick .upPressed) :: firstCycle) = some t ∧
        ⟨.event (.gear 2 18), 0⟩ ∈ t.eventQueue.called := ⟨_, rfl, by decide⟩
  obtain ⟨-, hanswered⟩ := events_answered_in_order true 0 6 1 _ t (by decide) (by decide) ht
    (by decide +kernel)
  exact ⟨t, ht, hcalled, hanswered _ hcalled⟩

/-- If moreover a cycle pays for one bound for each place, the events of the devices do not
make the tasks and the loggers drift: each of their jobs starts at its release, or late by
at most one bound for each other place, and none is left out. -/
theorem tasks_keep_releases (testMode : Bool) (elapsedTime : ℤ) (places : ℕ) (M : ℤ)
    (labels : List Label) (t : ScheduledSystem) (c : Callback) (hM : 0 ≤ M)
    (hplaces : 1 + (periodicEvents testMode).length ≤ places)
    (hperiod : places • M ≤ 1000 * kMajorCycleDuration)
    (hrun : run (step places) (new testMode elapsedTime) labels = some t)
    (hontime : Throughout (step places) (OnTime M) (new testMode elapsedTime) labels)
    (hc : c ∈ periodicEvents testMode) :
    (∀ (k : ℕ) (x : PeriodicQueue.Entry Callback ℤ × ℤ), (t.eventQueue.jobs c)[k]? = some x →
      c.delay + k • (1000 * kMajorCycleDuration) ≤ x.2 ∧
        x.2 ≤ c.delay + k • (1000 * kMajorCycleDuration) + (places - 1) • M) ∧
    ∀ k : ℕ, c.delay + k • (1000 * kMajorCycleDuration) + (places - 1) • M <
      t.eventQueue.clock → k < (t.eventQueue.jobs c).length := by
  have htimely := timely_of_run hM hplaces hontime hrun
  have hcyclic := cyclic_of_run hM hplaces hperiod hontime hrun hc
  exact ⟨fun k x hx => hcyclic.inTime htimely.prompt hx, fun k hk =>
    hcyclic.lt_length htimely.prompt hM (hontime labels [] t (List.append_nil _).symm hrun)
      hperiod hk⟩

/-- The second display job is due after 1.9 s. -/
theorem tasks_keep_releases_display_task :
    ∃ t, run (step 6) (new true 0) (.bike (.joystick .upPressed) :: firstCycle) = some t ∧
      1 < (t.eventQueue.jobs .displayTask).length := by
  obtain ⟨t, ht, hclock⟩ : ∃ t, run (step 6) (new true 0)
      (.bike (.joystick .upPressed) :: firstCycle) = some t ∧
        t.eventQueue.clock = 1901000 := ⟨_, rfl, rfl⟩
  obtain ⟨-, hstarted⟩ := tasks_keep_releases true 0 6 1 _ t .displayTask (by decide) (by decide)
    (by decide) ht (by decide +kernel) (by decide)
  refine ⟨t, ht, hstarted 1 ?_⟩
  rw [hclock]
  decide

end BikeComputer.MultiTasking.ScheduledSystem
