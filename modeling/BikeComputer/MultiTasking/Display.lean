import BikeComputer.MultiTasking.FullQueues
import BikeComputer.MultiTasking.Schedule

/-!
# What the multi-tasking bike system shows

The display task reads the speed and the distance, and then hands them to the display with
the gear and the temperature. What the display shows therefore comes from the last display
job that is over, and its speed has been read after the start of this job.
-/

namespace BikeComputer.MultiTasking.ScheduledSystem

open PeriodicQueue (Entry Mixed)
open Transition (lastSeen run)

/-- What the display task hands to the display. -/
structure Screen where
  gear : UInt8
  speed : ℚ
  distance : ℚ
  temperature : ℚ
  deriving DecidableEq, Repr

/-- What the display shows once a callback is over. The fields are those of the thread that
runs the callback, so they have not changed since they were handed to the display. -/
def display? (s : ScheduledSystem) : Label → Option Screen
  | .finish =>
    if s.eventQueue.running.map Entry.task = some .displayTask then
      some {
        gear := s.bike.currentGear
        speed := s.bike.currentSpeed
        distance := s.bike.traveledDistance
        temperature := s.bike.currentTemperature }
    else none
  | _ => none

section Steps

variable {places : ℕ} {s t : ScheduledSystem} {a : Label}

/-- The labels of the bike system that neither begin a callback nor end one. -/
def Running : BikeSystem.Label → Prop
  | .dispatch _ | .displayTask | .temperatureTask _ => False
  | _ => True

/-- A callback begins and is over only with its own labels. -/
theorem running_of_bike {b : BikeSystem.Label} (hst : s.step places (.bike b) = some t)
    (hb : Running b) :
    t.eventQueue.running = s.eventQueue.running ∧ t.eventQueue.started = s.eventQueue.started := by
  refine Transition.run_invariant_of_forall
    (P := fun b => (∃ c, b = .call c) ∨ ∃ d, b = .elapse d)
    (I := fun q => q.running = s.eventQueue.running ∧ q.started = s.eventQueue.started)
    ?_ ⟨rfl, rfl⟩ ?_ (step_eq_some.mp hst).2.2
  · rintro q _ r (⟨c, rfl⟩ | ⟨d, rfl⟩) hq hr
    · obtain ⟨-, rfl⟩ := Mixed.step_call.mp hr
      exact hq
    · obtain ⟨-, -, rfl⟩ := Mixed.step_elapse.mp hr
      exact hq
  · intro x hx
    cases b with
    | joystick j =>
      obtain ⟨e, -, rfl⟩ := List.mem_map.mp hx
      exact Or.inl ⟨_, rfl⟩
    | tick d => exact Or.inr ⟨d, List.mem_singleton.mp hx⟩
    | onReset | periodic | isr => exact absurd hx (by simp [queueLabels])
    | dispatch | displayTask | temperatureTask => exact absurd hb id

/-- A callback that begins is recorded, and the thread has been idle. -/
theorem begin_of_step {c : Callback} (hst : s.step places a = some t)
    (hlabels : s.queueLabels a = [.begin c]) :
    s.eventQueue.running = none ∧ ∃ e : Entry Callback ℤ, e.task = c ∧
      t.eventQueue.running = some e ∧ t.eventQueue.clock = s.eventQueue.clock ∧
      t.eventQueue.started = s.eventQueue.started ++ [(e, s.eventQueue.clock)] := by
  obtain ⟨e, rest, -, hidle, htask, -, hend⟩ := Mixed.step_begin.mp (step_eventQueue hst hlabels)
  rw [hend]
  exact ⟨hidle, e, htask, rfl, rfl, rfl⟩

/-- The first access of the display task reads the speed, and no other step stores it. -/
theorem currentSpeed_of_step (hst : s.step places a = some t) :
    t.bike.currentSpeed = s.bike.currentSpeed ∨
      s.bike.periodic = .displayTask ∧
        t.bike.currentSpeed = s.bike.shared.speedometer.currentSpeed := by
  cases a with
  | finish | printDiffs | printStats =>
    rw [← Option.some.inj (step_eq_some.mp hst).2.1]
    exact Or.inl rfl
  | bike b =>
    have hbike := step_bike hst
    cases b with
    | joystick | onReset | tick =>
      rw [← Option.some.inj hbike]
      exact Or.inl rfl
    | dispatch | displayTask | temperatureTask =>
      simp only [bikeStep, BikeSystem.step, Option.ite_none_right_eq_some, Option.some.injEq]
        at hbike
      rw [← hbike.2]
      exact Or.inl rfl
    | periodic =>
      rcases BikeSystem.periodicStep_cases hbike with ⟨gear, gearSize, -, hend⟩ |
        ⟨rotationTime, -, hend⟩ | ⟨hp, hend⟩ | ⟨op, value, -, hend⟩ |
        ⟨op, pc, shared, pc', -, -, hend⟩ <;> rw [hend]
      · exact Or.inl rfl
      · exact Or.inl rfl
      · exact Or.inr ⟨hp, rfl⟩
      · exact Or.inl rfl
      · exact Or.inl rfl
    | isr =>
      rcases BikeSystem.isrStep_cases hbike with ⟨-, k, -, hend⟩ | ⟨-, hend⟩ |
        ⟨pc, shared, pc', -, -, hend⟩ <;> exact Or.inl (by rw [hend])

/-- Inside a callback, no access leads back to the beginning of the display task. -/
theorem periodic_ne_displayTask {s t : BikeSystem} (hst : s.periodicStep = some t) :
    t.periodic ≠ .displayTask := by
  rcases BikeSystem.periodicStep_cases hst with ⟨gear, gearSize, -, rfl⟩ |
    ⟨rotationTime, -, rfl⟩ | ⟨-, rfl⟩ | ⟨op, value, -, rfl⟩ | ⟨op, pc, shared, pc', -, -, rfl⟩ <;>
    simp

/-- Only the periodic thread goes on in its callback. -/
theorem periodic_of_running {b : BikeSystem.Label} (hst : s.step places (.bike b) = some t)
    (hb : Running b) (hperiodic : b ≠ .periodic) : t.bike.periodic = s.bike.periodic := by
  have hbike := step_bike hst
  cases b with
  | joystick | onReset | tick => rw [← Option.some.inj hbike]
  | isr =>
    rcases BikeSystem.isrStep_cases hbike with ⟨-, k, -, hend⟩ | ⟨-, hend⟩ |
      ⟨pc, shared, pc', -, -, hend⟩ <;> rw [hend]
  | periodic => exact absurd rfl hperiodic
  | dispatch | displayTask | temperatureTask => exact absurd hb id

end Steps

section Runs

variable {places : ℕ} {init s t m : ScheduledSystem} {labels before : List Label} {a : Label}
variable {start : ℤ} {e : Entry Callback ℤ} {done : List (Entry Callback ℤ × ℤ)}

/-- The run has come to a state that is not before an instant. -/
structure Reaches (places : ℕ) (init : ScheduledSystem) (labels : List Label) (instant : ℤ)
    (before : List Label) (m : ScheduledSystem) : Prop where
  isPrefix : before <+: labels
  run_before : run (step places) init before = some m
  instant_le : instant ≤ m.eventQueue.clock

/-- What a run has come to, a longer one has. -/
theorem Reaches.snoc (h : Reaches places init labels start before m) (a : Label) :
    Reaches places init (labels ++ [a]) start before m :=
  ⟨h.isPrefix.trans (List.prefix_append _ _), h.run_before, h.instant_le⟩

/-- The display task has read the speed after an instant. -/
def Loaded (places : ℕ) (init : ScheduledSystem) (labels : List Label) (instant : ℤ)
    (speed : ℚ) : Prop :=
  ∃ before m, Reaches places init labels instant before m ∧
    m.bike.periodic = .displayTask ∧ speed = m.bike.shared.speedometer.currentSpeed

/-- What is shown comes from states after an instant. -/
structure Displayed (places : ℕ) (init : ScheduledSystem) (labels : List Label) (instant : ℤ)
    (screen : Screen) : Prop where
  loaded : Loaded places init labels instant screen.speed
  gear : ∃ before m, Reaches places init labels instant before m ∧
    screen.gear = m.bike.currentGear

/-- How far the display job is that comes after those that are over. -/
inductive Displaying (places : ℕ) (init : ScheduledSystem) (labels : List Label)
    (s : ScheduledSystem) (done : List (Entry Callback ℤ × ℤ)) : Prop
  | waiting (hother : ∀ e ∈ s.eventQueue.running, e.task ≠ .displayTask)
    (hjobs : s.eventQueue.jobs .displayTask = done)
  | loading (e : Entry Callback ℤ) (start : ℤ) (htask : e.task = .displayTask)
    (hrunning : s.eventQueue.running = some e)
    (hjobs : s.eventQueue.jobs .displayTask = done ++ [(e, start)])
    (hperiodic : s.bike.periodic = .displayTask) (hstart : start ≤ s.eventQueue.clock)
  | loaded (e : Entry Callback ℤ) (start : ℤ) (htask : e.task = .displayTask)
    (hrunning : s.eventQueue.running = some e)
    (hjobs : s.eventQueue.jobs .displayTask = done ++ [(e, start)])
    (hperiodic : s.bike.periodic ≠ .displayTask) (hstart : start ≤ s.eventQueue.clock)
    (hloaded : Loaded places init labels start s.bike.currentSpeed)

/-- The display shows what the last job that is over has handed to it, if any. -/
def Shows (places : ℕ) (init : ScheduledSystem) (labels : List Label)
    (done : List (Entry Callback ℤ × ℤ)) : Prop :=
  ∀ x ∈ done.getLast?, ∃ screen,
    lastSeen display? (step places) init labels = some screen ∧
    Displayed places init labels x.2 screen

/-- The display is as far as the display jobs. -/
def OnDisplay (places : ℕ) (init : ScheduledSystem) (labels : List Label)
    (s : ScheduledSystem) : Prop :=
  ∃ done, Displaying places init labels s done ∧ Shows places init labels done

/-- What is shown stays until a display job is over. -/
theorem Shows.snoc (h : Shows places init labels done)
    (hrun : run (step places) init labels = some s) (ha : s.display? a = none) :
    Shows places init (labels ++ [a]) done := by
  intro x hx
  obtain ⟨screen, hscreen, ⟨before, m, hreaches, hm⟩, before', m', hreaches', hm'⟩ := h x hx
  refine ⟨screen, ?_, ⟨before, m, hreaches.snoc a, hm⟩, before', m', hreaches'.snoc a, hm'⟩
  rw [Transition.lastSeen_snoc hrun, ha, hscreen]
  rfl

/-- Nothing is shown when another callback is over. -/
theorem display?_of_other (hother : ∀ e ∈ s.eventQueue.running, e.task ≠ .displayTask)
    (a : Label) : s.display? a = none := by
  cases a with
  | finish =>
    cases hrunning : s.eventQueue.running with
    | none => simp [display?, hrunning]
    | some e => simp [display?, hrunning, hother e hrunning]
  | bike | printDiffs | printStats => rfl

/-- The display jobs are the jobs that begin with an entry of the display task. -/
theorem jobs_of_started {clock : ℤ}
    (h : t.eventQueue.started = s.eventQueue.started ++ [(e, clock)]) :
    t.eventQueue.jobs .displayTask = s.eventQueue.jobs .displayTask ++
      if e.task = .displayTask then [(e, clock)] else [] := by
  rw [Mixed.jobs, Mixed.jobs, h, List.filter_append]
  by_cases htask : e.task = .displayTask <;> simp [htask]

/-- Jobs that have not begun are not there. -/
theorem jobs_of_started_eq (h : t.eventQueue.started = s.eventQueue.started) :
    t.eventQueue.jobs .displayTask = s.eventQueue.jobs .displayTask := by
  rw [Mixed.jobs, Mixed.jobs, h]

/-- While the display task waits, it may begin. -/
theorem OnDisplay.of_waiting (hother : ∀ e ∈ s.eventQueue.running, e.task ≠ .displayTask)
    (hshows : Shows places init labels (s.eventQueue.jobs .displayTask))
    (hrun : run (step places) init labels = some s) (hst : s.step places a = some t) :
    OnDisplay places init (labels ++ [a]) t := by
  have hshown := hshows.snoc hrun (display?_of_other hother a)
  have hstays (hbusy : ∀ e ∈ t.eventQueue.running, e.task ≠ .displayTask)
      (hsame : t.eventQueue.jobs .displayTask = s.eventQueue.jobs .displayTask) :
      OnDisplay places init (labels ++ [a]) t := ⟨_, .waiting hbusy hsame, hshown⟩
  have hbegin {c : Callback} (hc : c ≠ .displayTask) (hlabels : s.queueLabels a = [.begin c]) :
      OnDisplay places init (labels ++ [a]) t := by
    obtain ⟨-, e, htask, hrunning, -, hstarted⟩ := begin_of_step hst hlabels
    refine hstays (fun x hx => ?_) ?_
    · obtain rfl := Option.some.inj (hrunning.symm.trans hx)
      rwa [htask]
    · rw [jobs_of_started hstarted, if_neg (by rwa [htask]), List.append_nil]
  cases a with
  | printDiffs | printStats => exact hbegin (by simp) rfl
  | finish =>
    obtain ⟨e, -, hend⟩ := Mixed.step_finish.mp (step_eventQueue hst rfl)
    exact hstays (by simp [hend]) (jobs_of_started_eq (by rw [hend]))
  | bike b =>
    cases b with
    | dispatch | temperatureTask => exact hbegin (by simp) rfl
    | joystick | onReset | periodic | isr | tick =>
      obtain ⟨hrunning, hstarted⟩ := running_of_bike hst trivial
      exact hstays (hrunning ▸ hother) (jobs_of_started_eq hstarted)
    | displayTask =>
      obtain ⟨-, e, htask, hrunning, hclock, hstarted⟩ := begin_of_step hst rfl
      obtain ⟨-, hbike⟩ := BikeSystem.step_displayTask.mp (step_bike hst)
      refine ⟨_, .loading e s.eventQueue.clock htask hrunning ?_ (by rw [hbike])
        hclock.ge, hshown⟩
      rw [jobs_of_started hstarted, if_pos htask]

/-- The first access of a display job reads the speed. -/
theorem OnDisplay.of_loading (htask : e.task = .displayTask)
    (hrunning : s.eventQueue.running = some e)
    (hjobs : s.eventQueue.jobs .displayTask = done ++ [(e, start)])
    (hperiodic : s.bike.periodic = .displayTask) (hstart : start ≤ s.eventQueue.clock)
    (hshows : Shows places init labels done)
    (hrun : run (step places) init labels = some s) (hst : s.step places a = some t) :
    OnDisplay places init (labels ++ [a]) t := by
  have hclock := hstart.trans (clock_le_of_step hst)
  have hbusy {c : Callback} (hlabels : s.queueLabels a = [.begin c]) :
      OnDisplay places init (labels ++ [a]) t :=
    absurd (hrunning.symm.trans (begin_of_step hst hlabels).1) (by simp)
  cases a with
  | printDiffs | printStats => exact hbusy rfl
  | finish => exact absurd (hperiodic.symm.trans ((step_eq_some.mp hst).1 rfl)) (by simp)
  | bike b =>
    have hshown := hshows.snoc (a := .bike b) hrun rfl
    have hstays (hb : Running b) (hne : b ≠ .periodic) :
        OnDisplay places init (labels ++ [.bike b]) t := by
      obtain ⟨hrunning', hstarted⟩ := running_of_bike hst hb
      exact ⟨done, .loading e start htask (hrunning'.trans hrunning)
        ((jobs_of_started_eq hstarted).trans hjobs)
        ((periodic_of_running hst hb hne).trans hperiodic) hclock, hshown⟩
    cases b with
    | dispatch | displayTask | temperatureTask => exact hbusy rfl
    | joystick | onReset | isr | tick => exact hstays trivial (by simp)
    | periodic =>
      obtain ⟨hrunning', hstarted⟩ := running_of_bike hst trivial
      have hbike := step_bike hst
      have hload : t.bike.currentSpeed = s.bike.shared.speedometer.currentSpeed := by
        simp only [bikeStep, BikeSystem.step, BikeSystem.periodicStep, hperiodic,
          Option.some.injEq] at hbike
        rw [← hbike, Speedometer.getCurrentSpeed]
      exact ⟨done, .loaded e start htask (hrunning'.trans hrunning)
        ((jobs_of_started_eq hstarted).trans hjobs) (periodic_ne_displayTask hbike) hclock
        ⟨labels, s, ⟨List.prefix_append _ _, hrun, hstart⟩, hperiodic, hload⟩, hshown⟩

/-- When it is over, a display job shows the speed it has read. -/
theorem OnDisplay.of_loaded (htask : e.task = .displayTask)
    (hrunning : s.eventQueue.running = some e)
    (hjobs : s.eventQueue.jobs .displayTask = done ++ [(e, start)])
    (hperiodic : s.bike.periodic ≠ .displayTask) (hstart : start ≤ s.eventQueue.clock)
    (hloaded : Loaded places init labels start s.bike.currentSpeed)
    (hshows : Shows places init labels done)
    (hrun : run (step places) init labels = some s) (hst : s.step places a = some t) :
    OnDisplay places init (labels ++ [a]) t := by
  have hclock := hstart.trans (clock_le_of_step hst)
  have hbusy {c : Callback} (hlabels : s.queueLabels a = [.begin c]) :
      OnDisplay places init (labels ++ [a]) t :=
    absurd (hrunning.symm.trans (begin_of_step hst hlabels).1) (by simp)
  obtain ⟨before, m, hreaches, hm⟩ := hloaded
  cases a with
  | printDiffs | printStats => exact hbusy rfl
  | finish =>
    obtain ⟨x, -, hend⟩ := Mixed.step_finish.mp (step_eventQueue hst rfl)
    refine ⟨done ++ [(e, start)], .waiting (by simp [hend])
      ((jobs_of_started_eq (by rw [hend])).trans hjobs), fun x hx => ?_⟩
    obtain rfl : (e, start) = x := by simpa using hx
    let screen : Screen := ⟨s.bike.currentGear, s.bike.currentSpeed, s.bike.traveledDistance,
      s.bike.currentTemperature⟩
    have hdisplay : s.display? .finish = some screen :=
      if_pos (by rw [hrunning, Option.map_some, htask])
    refine ⟨screen, ?_, ⟨before, m, hreaches.snoc _, hm⟩, labels, s,
      ⟨List.prefix_append _ _, hrun, hstart⟩, rfl⟩
    rw [Transition.lastSeen_snoc hrun, hdisplay]
    rfl
  | bike b =>
    have hstays (hb : Running b) (hne : t.bike.periodic ≠ .displayTask) :
        OnDisplay places init (labels ++ [.bike b]) t := by
      obtain ⟨hrunning', hstarted⟩ := running_of_bike hst hb
      have hspeed : t.bike.currentSpeed = s.bike.currentSpeed :=
        (currentSpeed_of_step hst).resolve_right fun hload => hperiodic hload.1
      exact ⟨done, .loaded e start htask (hrunning'.trans hrunning)
        ((jobs_of_started_eq hstarted).trans hjobs) hne hclock
        ⟨before, m, hreaches.snoc _, hspeed ▸ hm⟩, hshows.snoc hrun rfl⟩
    cases b with
    | dispatch | displayTask | temperatureTask => exact hbusy rfl
    | joystick | onReset | isr | tick =>
      refine hstays trivial ?_
      rwa [periodic_of_running hst trivial (by simp)]
    | periodic => exact hstays trivial (periodic_ne_displayTask (step_bike hst))

/-- A display job begins, reads the speed, and shows it when it is over. -/
theorem OnDisplay.step (h : OnDisplay places init labels s)
    (hrun : run (ScheduledSystem.step places) init labels = some s)
    (hst : s.step places a = some t) : OnDisplay places init (labels ++ [a]) t := by
  obtain ⟨done, hdisplaying, hshows⟩ := h
  cases hdisplaying with
  | waiting hother hjobs => exact .of_waiting hother (hjobs ▸ hshows) hrun hst
  | loading e start htask hrunning hjobs hperiodic hstart =>
    exact .of_loading htask hrunning hjobs hperiodic hstart hshows hrun hst
  | loaded e start htask hrunning hjobs hperiodic hstart hloaded =>
    exact .of_loaded htask hrunning hjobs hperiodic hstart hloaded hshows hrun hst

/-- In every run, the display shows what the last display job that is over has read after
its start. -/
theorem onDisplay_of_run {testMode : Bool} {elapsedTime : ℤ}
    (hrun : run (step places) (new testMode elapsedTime) labels = some t) :
    OnDisplay places (new testMode elapsedTime) labels t := by
  refine Transition.run_history (I := fun labels t =>
    OnDisplay places (new testMode elapsedTime) labels t) ⟨[], .waiting ?_ rfl, ?_⟩
    (fun hm h hst => h.step hm hst) hrun
  · simp [new, Mixed.post]
  · simp [Shows]

end Runs

end BikeComputer.MultiTasking.ScheduledSystem
