import BikeComputer.Correctness.Lateness
import BikeComputer.StaticSchedulingWithEvent.Freshness
import BikeComputer.StaticSchedulingWithEvent.ResetFlag
import BikeComputer.StaticSchedulingWithEvent.TimedSystem
import Mathlib.Algebra.Ring.Int.Defs

/-!
# Response times of the bike system with interrupts

As long as no task takes longer than its computation time, every stretch of time longer
than the period of a task, its slack and its computation time holds an execution of it. So
a press of the reset button is answered within a bound. Once the joystick has been left
alone for long enough, the fields of the bike system belong to the devices, and some time
later so does what the display shows.
-/

namespace BikeComputer.StaticSchedulingWithEvent.TimedSystem

open PeriodicQueue (Timed)
open Transition (lastSeen run Throughout)

/-- The change of scale keeps the order. -/
theorem microseconds_lt {a b : ℤ} (hab : a < b) : 1000 * a < 1000 * b := by
  omega

/-- The timetable fits on the scale of the timer. -/
theorem feasible : PeriodicQueue.Feasible timingInMicroseconds StaticScheduling.start
    (PeriodicQueue.post timingInMicroseconds events).entries := by
  have h := StaticSchedulingWithEvent.feasible.map (AddMonoidHom.mulLeft 1000)
    fun _ _ hab => microseconds_lt hab
  rwa [PeriodicQueue.post_entries_map] at h

/-- The slack of a task on the scale of the timer. -/
def slackInMicroseconds (task : Task) : ℤ := 1000 * slack task

/-- No task has to start before its release. -/
theorem slackInMicroseconds_nonneg (task : Task) : 0 ≤ slackInMicroseconds task := by
  cases task <;> decide

/-- The timetable leaves the slack on the scale of the timer. -/
theorem punctual : PeriodicQueue.Punctual timingInMicroseconds StaticScheduling.start
    slackInMicroseconds (PeriodicQueue.post timingInMicroseconds events).entries := by
  have h := StaticSchedulingWithEvent.punctual.map (AddMonoidHom.mulLeft 1000)
    fun _ _ hab => microseconds_lt hab
  rwa [PeriodicQueue.post_entries_map] at h

/-- The longest time from any instant to the end of an execution of the task that begins
after it. -/
def responseTime (task : Task) : ℤ :=
  1000 * (timing.period task + slack task + timing.computationTime task)

/-- The longest time the queue allows is the response time of the task. -/
theorem responseTime_eq (task : Task) :
    Timed.responseTime timingInMicroseconds slackInMicroseconds task = responseTime task := by
  cases task <;> rfl

section Windows

variable {elapsedTime : ℤ} {pre post : List Label} {s t : TimedSystem} {task : Task}

/-- The timer and the clock tick together. -/
theorem run_timer (hrun : run step s post = some t) :
    t.bike.timer - t.eventQueue.clock = s.bike.timer - s.eventQueue.clock :=
  Transition.run_invariant (I := fun t =>
    t.bike.timer - t.eventQueue.clock = s.bike.timer - s.eventQueue.clock)
    (fun h hst => (step_timer hst).trans h) rfl hrun

/-- In every timely run the event queue is in step with its clock. -/
theorem clocked_of_run (hrun : run step (new elapsedTime) pre = some s)
    (hontime : Throughout step OnTime (new elapsedTime) pre) :
    Timed.Clocked timingInMicroseconds StaticScheduling.start events
      (PeriodicQueue.post timingInMicroseconds events).entries s.eventQueue :=
  (Timed.Clocked.post (by decide) (by decide)).run feasible (onTime_eventQueue hontime hrun)
    (run_eventQueue hrun)

/-- A run of labels that holds an execution of the task: a start of it, and the labels up
to the one that finishes it. -/
structure Executes (task : Task) (s : TimedSystem) (labels : List Label) (u v w t : TimedSystem)
    (before : List Label) (a : BikeSystem.Label) (exec rest : List Label) : Prop where
  labels_eq : labels = before ++ .bike a :: (exec ++ rest)
  run_before : run step s before = some u
  start : step u (.bike a) = some v
  run_exec : run step v exec = some w
  run_rest : run step w rest = some t
  task_eq : a.task? = some task
  finishes : w.bike.pc = .idle
  last : ∃ body n, exec = body ++ [.finish] ∧ run step v body = some n ∧
    n.eventQueue.next?.map PeriodicQueue.Entry.task = some task

/-- The label that starts a task on an idle thread. -/
theorem pc_of_start {a : BikeSystem.Label} {u v : BikeSystem} (ha : a.task? = some task)
    (h : u.step a = some v) : u.pc = .idle ∧ v.pc = Pc.entry task := by
  rcases BikeSystem.step_cases h with ⟨task', temperature, htask, hidle, -, rfl⟩ | ⟨pc, rfl, -⟩ |
    ⟨hnone, -⟩
  · obtain rfl := Option.some.inj (htask.symm.trans ha)
    exact ⟨hidle, rfl⟩
  · exact absurd ha (by simp [BikeSystem.Label.task?])
  · exact absurd (hnone.symm.trans ha) (by simp)

/-- A label that begins a task in the queue starts it in the bike system. -/
theorem eq_bike_of_event_begin {x : Label} (hx : x.event? = some (.begin task)) :
    ∃ a, x = .bike a ∧ a.task? = some task := by
  cases x with
  | finish => simp [Label.event?] at hx
  | bike a =>
    refine ⟨a, rfl, ?_⟩
    cases a <;> simp_all [Label.event?]

/-- Only the end of a callback is one for the queue. -/
theorem eq_finish_of_event {x : Label} (hx : x.event? = some .finish) : x = .finish := by
  cases x with
  | finish => rfl
  | bike a => cases a <;> simp [Label.event?, BikeSystem.Label.task?] at hx

/-- Every stretch of a timely run that is longer than the response time of a task holds an
execution of it that is over within the response time. -/
theorem exists_execution (task : Task) (htask : task ∈ events)
    (hpre : run step (new elapsedTime) pre = some s) (hpost : run step s post = some t)
    (hontime : Throughout step OnTime (new elapsedTime) (pre ++ post))
    (hlong : s.bike.timer + responseTime task < t.bike.timer) :
    ∃ u v w before a exec rest, Executes task s post u v w t before a exec rest ∧
      w.bike.timer ≤ s.bike.timer + responseTime task := by
  have hclocked := clocked_of_run hpre hontime.of_append
  have hqueue := onTime_eventQueue (hontime.after hpre) hpost
  have htimer := run_timer hpost
  have hlong' : s.eventQueue.clock + Timed.responseTime timingInMicroseconds
      slackInMicroseconds task < t.eventQueue.clock := by
    rw [responseTime_eq]
    omega
  obtain ⟨done, rest, m, hlabels, hdone, hclock, begun, rfl, before, exec, rfl, helapse⟩ :=
    hclocked.executed feasible punctual slackInMicroseconds_nonneg htask (by cases task <;> decide)
      (by cases task <;> decide) hqueue (run_eventQueue hpost) hlong'
  simp only [List.append_assoc, List.cons_append, List.nil_append] at hlabels
  obtain ⟨before, x, after, rfl, rfl, hx, hafter⟩ :=
    Transition.exists_of_filterMap_eq_append_cons hlabels
  obtain ⟨exec, y, after, rfl, rfl, hy, rfl⟩ :=
    Transition.exists_of_filterMap_eq_append_cons hafter
  obtain ⟨a, rfl, ha⟩ := eq_bike_of_event_begin hx
  obtain rfl := eq_finish_of_event hy
  obtain ⟨u, hu, hrest⟩ := Transition.run_append_eq_some.mp hpost
  obtain ⟨v, hv, hrest⟩ := Transition.run_cons_eq_some.mp hrest
  obtain ⟨n, hn, hrest⟩ := Transition.run_append_eq_some.mp hrest
  obtain ⟨w, hw, hrest⟩ := Transition.run_cons_eq_some.mp hrest
  have hexec : run step v (exec ++ [.finish]) = some w :=
    Transition.run_snoc_eq_some.mpr ⟨n, hn, hw⟩
  have hwhole : run step s (before ++ .bike a :: (exec ++ [.finish])) = some w :=
    Transition.run_append_eq_some.mpr ⟨u, hu, Transition.run_cons_eq_some.mpr ⟨v, hv, hexec⟩⟩
  refine ⟨u, v, w, before, a, exec ++ [.finish], after, ⟨by simp, hu, hv, hexec, hrest,
    ha, ?_, exec, n, rfl, hn, ?_⟩, ?_⟩
  · obtain ⟨hidle, hbike, -⟩ := step_eq_some.mp hw
    rw [← Option.some.inj hbike]
    exact hidle rfl
  · have hbegin := (step_eq_some.mp hv).2.2
    rw [hx] at hbegin
    obtain ⟨q, hq, hend⟩ := Transition.run_cons_eq_some.mp hbegin
    obtain ⟨e, hnext, -, rfl, -, rfl⟩ := Timed.step_begin.mp hq
    have hqueue := Timed.queue_of_elapse helapse (run_eventQueue hn)
    rw [← Option.some.inj hend] at hqueue
    rw [Timed.next?, hqueue]
    exact congrArg _ hnext
  · have hm := run_eventQueue hwhole
    simp only [List.filterMap_append, List.filterMap_cons, hx, hy, List.filterMap_nil] at hm
    simp only [List.append_assoc, List.cons_append] at hdone
    obtain rfl := Option.some.inj (hdone.symm.trans hm)
    have htimer := run_timer hwhole
    rw [responseTime_eq] at hclock
    omega

/-- The run up to the end of the execution. -/
theorem Executes.run_exec_bike {u v w : TimedSystem} {before exec rest : List Label}
    {a : BikeSystem.Label} (h : Executes task s post u v w t before a exec rest) :
    run step s (before ++ .bike a :: exec) = some w :=
  Transition.run_append_eq_some.mpr
    ⟨u, h.run_before, Transition.run_cons_eq_some.mpr ⟨v, h.start, h.run_exec⟩⟩

/-- The labels of the bike system are those of the whole. -/
theorem mem_bike {labels : List Label} {a : BikeSystem.Label} :
    a ∈ labels.filterMap Label.bike? ↔ .bike a ∈ labels := by
  rw [List.mem_filterMap]
  constructor
  · rintro ⟨x, hx, hxa⟩
    cases x with
    | finish => simp [Label.bike?] at hxa
    | bike b =>
      obtain rfl := Option.some.inj hxa
      exact hx
  · exact fun h => ⟨.bike a, h, rfl⟩

/-- The timer does not go back. -/
theorem timer_le_of_run (hrun : run step s post = some t) : s.bike.timer ≤ t.bike.timer := by
  refine Transition.run_invariant (I := fun m : BikeSystem => s.bike.timer ≤ m.timer) ?_ le_rfl
    (run_bike hrun)
  intro m a n hm hst
  rw [BikeSystem.step_timer hst]
  refine hm.trans (le_add_of_nonneg_right ?_)
  cases a <;> simp [BikeSystem.Label.duration]

/-- After a press, an execution of the reset task does not end before a reset has begun. -/
theorem reset_mem_of_execution {u v w : TimedSystem} {before exec rest : List Label}
    {a : BikeSystem.Label} (h : Executes .resetTask s post u v w t before a exec rest)
    (hflag : s.bike.resetFlag = true) :
    .bike (.access .reset) ∈ before ++ .bike a :: exec := by
  by_contra hnone
  have hreset : ∀ x ∈ (before ++ .bike a :: exec).filterMap Label.bike?, x ≠ .access .reset := by
    rintro x hx rfl
    exact hnone (mem_bike.mp hx)
  simp only [List.filterMap_append, List.filterMap_cons, Label.bike?, List.forall_mem_append,
    List.forall_mem_cons] at hreset
  obtain ⟨hbefore, -, hexec⟩ := hreset
  have hpending : BikeSystem.Pending u.bike :=
    Transition.run_invariant_of_forall (fun ha h hst => h.step ha hst) (Or.inl hflag) hbefore
      (run_bike h.run_before)
  have hstart := step_bike h.start
  obtain ⟨hidle, hpc⟩ := pc_of_start h.task_eq hstart
  have hset : u.bike.resetFlag = true := by
    rcases hpending with hset | hpc' | hpc'
    · exact hset
    · exact absurd (hpc'.symm.trans hidle) (by simp)
    · exact absurd (hpc'.symm.trans hidle) (by simp)
  have hflag' : v.bike.resetFlag = u.bike.resetFlag := by
    rcases BikeSystem.step_cases hstart with ⟨task, temperature, -, -, -, hv⟩ | ⟨pc, rfl, -⟩ |
      ⟨hnone, -⟩
    · rw [hv]
    · exact absurd h.task_eq (by simp [BikeSystem.Label.task?])
    · exact absurd (hnone.symm.trans h.task_eq) (by simp)
  have hcommitted : BikeSystem.Committed v.bike := Or.inl ⟨hpc, hflag'.trans hset⟩
  have hend := hcommitted.run (fun hmem => hexec _ hmem rfl) (run_bike h.run_exec)
  rcases hend with ⟨hpc', -⟩ | hpc' | hpc' <;>
    exact absurd (hpc'.symm.trans h.finishes) (by simp)

end Windows

/-- In a timely run, every press of the reset button is followed by the beginning of a reset
within the period and the computation time of the reset task. -/
theorem press_answered_in_time (elapsedTime : ℤ) (pre post : List Label) (s t : TimedSystem)
    (hpre : run step (new elapsedTime) pre = some s)
    (hpost : run step s (.bike .onReset :: post) = some t)
    (hontime : Throughout step OnTime (new elapsedTime) (pre ++ .bike .onReset :: post))
    (hlong : s.bike.timer + 1000 * (kResetTaskPeriod + kResetTaskComputationTime) <
      t.bike.timer) :
    ∃ before after m, post = before ++ .bike (.access .reset) :: after ∧
      run step s (.bike .onReset :: before) = some m ∧
      m.bike.timer ≤ s.bike.timer + 1000 * (kResetTaskPeriod + kResetTaskComputationTime) := by
  obtain ⟨n, hn, hrest⟩ := Transition.run_cons_eq_some.mp hpost
  have hstep := step_bike hn
  have htimer : n.bike.timer = s.bike.timer := by
    rw [← Option.some.inj hstep]
  have hflag : n.bike.resetFlag = true := by
    rw [← Option.some.inj hstep]
  have hpre' : run step (new elapsedTime) (pre ++ [.bike .onReset]) = some n :=
    Transition.run_snoc_eq_some.mpr ⟨s, hpre, hn⟩
  rw [← htimer] at hlong ⊢
  obtain ⟨u, v, w, before, a, exec, rest, hexec, hclock⟩ := exists_execution .resetTask
    (by decide) hpre' hrest (by simpa using hontime) hlong
  obtain ⟨before', after, hmem⟩ := List.append_of_mem (reset_mem_of_execution hexec hflag)
  have hwhole := hexec.run_exec_bike
  rw [hmem] at hwhole
  obtain ⟨m, hm, hafter⟩ := Transition.run_append_eq_some.mp hwhole
  refine ⟨before', after ++ rest, m, ?_, Transition.run_cons_eq_some.mpr ⟨n, hn, hm⟩, ?_⟩
  · have hlabels := hexec.labels_eq
    rw [← List.cons_append, ← List.append_assoc, hmem] at hlabels
    simpa using hlabels
  · exact (timer_le_of_run hafter).trans hclock

/-- The button is pressed when the system starts. -/
theorem press_answered_in_time_at_start :
    ∃ s, run step (new 0) (.bike .onReset ::
        cycle 750 [.loadResetFlag, .clearResetFlag, .reset]) = some s ∧
      ∃ before after m, cycle 750 [.loadResetFlag, .clearResetFlag, .reset] =
          before ++ .bike (.access .reset) :: after ∧
        run step (new 0) (.bike .onReset :: before) = some m ∧
        m.bike.timer ≤ (new 0).bike.timer +
          1000 * (kResetTaskPeriod + kResetTaskComputationTime) := by
  obtain ⟨s, hs, htimer⟩ : ∃ s, run step (new 0) (.bike .onReset ::
      cycle 750 [.loadResetFlag, .clearResetFlag, .reset]) = some s ∧
        s.bike.timer = 1600000 := ⟨_, rfl, rfl⟩
  refine ⟨s, hs, press_answered_in_time 0 [] _ (new 0) s rfl hs (by decide +kernel) ?_⟩
  rw [htimer]
  decide

/-- Neither a move of the joystick nor the beginning of a reset. -/
def AtRest (labels : List Label) : Prop :=
  ∀ a ∈ labels.filterMap Label.bike?, ¬ a.OfJoystick ∧ a ≠ .access .reset

instance (labels : List Label) : Decidable (AtRest labels) :=
  inferInstanceAs (Decidable (∀ a ∈ labels.filterMap Label.bike?, _))

/-- The joystick rests in a run if it rests in both its parts. -/
theorem atRest_append {as bs : List Label} : AtRest (as ++ bs) ↔ AtRest as ∧ AtRest bs := by
  rw [AtRest, List.filterMap_append, List.forall_mem_append]
  rfl

section Rest

variable {elapsedTime : ℤ} {pre post before exec rest : List Label} {s t u v w : TimedSystem}
variable {a : BikeSystem.Label}

/-- At rest, an execution of the gear task brings its fields up to date. -/
theorem Executes.freshGear (h : Executes .gearTask s post u v w t before a exec rest)
    (hrest : AtRest exec) : BikeSystem.FreshGear w.bike :=
  .of_execution (pc_of_start h.task_eq (step_bike h.start)).2 (fun x hx => (hrest x hx).1)
    (run_bike h.run_exec) h.finishes

/-- At rest, an execution of the speed task brings everything up to date. -/
theorem Executes.fresh (h : Executes .speedDistanceTask s post u v w t before a exec rest)
    (hrest : AtRest (before ++ .bike a :: exec)) (hgear : BikeSystem.FreshGear s.bike) :
    BikeSystem.Fresh w.bike := by
  obtain ⟨hbefore, hexec⟩ := atRest_append.mp hrest
  obtain ⟨ha, hexec⟩ := List.forall_mem_cons.mp hexec
  have hu := hgear.run (fun x hx => (hbefore x hx).1) (run_bike h.run_before)
  have hv := hu.step ha.1 (step_bike h.start)
  exact .of_execution hv (pc_of_start h.task_eq (step_bike h.start)).2 hexec (run_bike h.run_exec)
    h.finishes

/-- Two executions at rest, the first of the gear task and the second of the speed task, fit
into their response times. -/
theorem exists_fresh (hpre : run step (new elapsedTime) pre = some s)
    (hpost : run step s post = some t)
    (hontime : Throughout step OnTime (new elapsedTime) (pre ++ post)) (hrest : AtRest post)
    (hlong : s.bike.timer + (responseTime .gearTask + responseTime .speedDistanceTask) <
      t.bike.timer) :
    ∃ done rest w, post = done ++ rest ∧ run step s done = some w ∧
      run step w rest = some t ∧ BikeSystem.Fresh w.bike ∧
      w.bike.timer ≤
        s.bike.timer + (responseTime .gearTask + responseTime .speedDistanceTask) := by
  have hspeed : 0 ≤ responseTime .speedDistanceTask := by decide
  obtain ⟨u, v, w, before, a, exec, rest, hgear, hclock⟩ :=
    exists_execution .gearTask (by decide) hpre hpost hontime (by omega)
  have hlabels : post = (before ++ .bike a :: exec) ++ rest := by
    simpa using hgear.labels_eq
  rw [hlabels] at hrest
  obtain ⟨hgearRest, hrest⟩ := atRest_append.mp hrest
  have hw : run step (new elapsedTime) (pre ++ (before ++ .bike a :: exec)) = some w :=
    Transition.run_append_eq_some.mpr ⟨s, hpre, hgear.run_exec_bike⟩
  rw [hlabels, ← List.append_assoc] at hontime
  have hexec := (atRest_append.mp hgearRest).2
  have hfresh := hgear.freshGear (List.forall_mem_cons.mp hexec).2
  obtain ⟨u', v', w', before', a', exec', rest', hspeed, hclock'⟩ :=
    exists_execution .speedDistanceTask (by decide) hw hgear.run_rest hontime (by omega)
  have hlabels' : rest = (before' ++ .bike a' :: exec') ++ rest' := by
    simpa using hspeed.labels_eq
  rw [hlabels'] at hrest
  refine ⟨(before ++ .bike a :: exec) ++ (before' ++ .bike a' :: exec'), rest', w', ?_, ?_,
    hspeed.run_rest, hspeed.fresh (atRest_append.mp hrest).1 hfresh, by omega⟩
  · exact hlabels.trans ((congrArg _ hlabels').trans (List.append_assoc _ _ _).symm)
  · exact Transition.run_append_eq_some.mpr ⟨w, hgear.run_exec_bike, hspeed.run_exec_bike⟩

/-- At rest, what is up to date is what the display shows after an execution of
`displayTask1`. -/
theorem display_of_fresh (hpre : run step (new elapsedTime) pre = some s)
    (hpost : run step s post = some t)
    (hontime : Throughout step OnTime (new elapsedTime) (pre ++ post)) (hrest : AtRest post)
    (hfresh : BikeSystem.Fresh s.bike)
    (hlong : s.bike.timer + responseTime .displayTask1 < t.bike.timer) :
    ∃ screen, lastSeen display? step s post = some screen ∧
      screen.gear = t.bike.gearDevice.getCurrentGear ∧ screen.speed = t.bike.currentSpeed := by
  obtain ⟨u, v, w, before, a, exec, rest, hexec, -⟩ :=
    exists_execution .displayTask1 (by decide) hpre hpost hontime hlong
  obtain ⟨body, n, rfl, hbody, htask⟩ := hexec.last
  have hlabels : post = (before ++ .bike a :: body) ++ .finish :: rest := by
    simpa using hexec.labels_eq
  have hn : run step s (before ++ .bike a :: body) = some n :=
    Transition.run_append_eq_some.mpr
      ⟨u, hexec.run_before, Transition.run_cons_eq_some.mpr ⟨v, hexec.start, hbody⟩⟩
  have hdisplay : n.display? .finish = some
      ⟨n.bike.currentGear, n.bike.currentSpeed, n.bike.traveledDistance⟩ := if_pos htask
  obtain ⟨screen, hscreen⟩ := Transition.exists_lastSeen (hlabels ▸ hpost) hn hdisplay
  rw [← hlabels] at hscreen
  refine ⟨screen, hscreen, ?_⟩
  -- whatever is shown later is shown at rest as well
  obtain ⟨pre', x, post', m, rfl, hm, hshown⟩ := Transition.exists_of_lastSeen hpost hscreen
  obtain ⟨hpre', hpost'⟩ := atRest_append.mp hrest
  obtain ⟨m', hm', hx⟩ := Transition.run_append_eq_some.mp hpost
  obtain rfl := Option.some.inj (hm.symm.trans hm')
  have hfresh' := (hfresh.run hpre' (run_bike hm)).1
  obtain ⟨ht, hspeed⟩ := hfresh'.run hpost' (run_bike hx)
  have hgear : t.bike.gearDevice = m.bike.gearDevice :=
    Transition.run_invariant_of_forall (I := fun t => t.gearDevice = m.bike.gearDevice)
      (fun ha hm hst => (BikeSystem.step_devices hst ha.1).1.trans hm) rfl hpost' (run_bike hx)
  cases x with
  | bike => exact absurd hshown (by simp [display?])
  | finish =>
    simp only [display?, Option.ite_none_right_eq_some, Option.some.injEq] at hshown
    rw [← hshown.2, hgear, hspeed]
    exact ⟨hfresh'.gear.gear, rfl⟩

end Rest

/-- The speed belongs to the devices if the settings have changed since the start or the last
reset, and is zero otherwise. -/
def SpeedOfDevices (elapsedTime : ℤ) (labels : List Label) (t : TimedSystem) (speed : ℚ) :
    Prop :=
  let calls := BikeSystem.rideOf (Transition.trace BikeSystem.step (.new elapsedTime)
    (labels.filterMap Label.bike?))
  (Ride.ChangedSinceReset .initial calls → speed = t.bike.deviceSettings.speed) ∧
    (¬ Ride.ChangedSinceReset .initial calls → speed = 0)

/-- What is up to date is the speed of the devices. -/
theorem speedOfDevices_of_fresh {elapsedTime : ℤ} {labels : List Label} {t : TimedSystem}
    (hrun : run step (new elapsedTime) labels = some t) (hfresh : BikeSystem.Fresh t.bike) :
    SpeedOfDevices elapsedTime labels t t.bike.currentSpeed := by
  have hride := BikeSystem.run_speedometer (run_bike hrun)
  obtain ⟨hchanged, hunchanged⟩ := (Speedometer.new elapsedTime).ride_currentSpeed rfl
    (BikeSystem.rideOf (Transition.trace BikeSystem.step (.new elapsedTime)
      (labels.filterMap Label.bike?)))
  constructor
  · intro h
    rw [hfresh.shown, ← hfresh.settings, hride, Speedometer.ride_settings]
    exact hchanged h
  · intro h
    rw [hfresh.shown, hride]
    exact hunchanged h

/-- In a timely run, once the joystick has been left alone and no reset has begun for 1.6 s,
the fields for gear and speed and the settings of the speedometer are those of the devices.
After 3.4 s the display shows this gear and this speed. -/
theorem shown_after_rest (elapsedTime : ℤ) (pre post : List Label) (s t : TimedSystem)
    (hpre : run step (new elapsedTime) pre = some s) (hpost : run step s post = some t)
    (hontime : Throughout step OnTime (new elapsedTime) (pre ++ post))
    (hrest : AtRest post) :
    (s.bike.timer + 1600000 < t.bike.timer →
      t.bike.currentGear = t.bike.gearDevice.getCurrentGear ∧
        t.bike.speedometer.settings = t.bike.deviceSettings ∧
        SpeedOfDevices elapsedTime (pre ++ post) t t.bike.currentSpeed) ∧
    (s.bike.timer + 3400000 < t.bike.timer →
      ∃ screen, lastSeen display? step (new elapsedTime) (pre ++ post) = some screen ∧
        screen.gear = t.bike.gearDevice.getCurrentGear ∧
        SpeedOfDevices elapsedTime (pre ++ post) t screen.speed) := by
  have hrun : run step (new elapsedTime) (pre ++ post) = some t :=
    Transition.run_append_eq_some.mpr ⟨s, hpre, hpost⟩
  constructor
  · intro hlong
    obtain ⟨done, rest, w, rfl, -, hw, hfresh, -⟩ := exists_fresh hpre hpost hontime hrest hlong
    have ht := (hfresh.run (atRest_append.mp hrest).2 (run_bike hw)).1
    exact ⟨ht.gear.gear, ht.settings, speedOfDevices_of_fresh hrun ht⟩
  · intro hlong
    have htasks : responseTime .gearTask + responseTime .speedDistanceTask = 1600000 := rfl
    have hdisplay : responseTime .displayTask1 = 1800000 := rfl
    obtain ⟨done, rest, w, rfl, hdone, hw, hfresh, hclock⟩ :=
      exists_fresh hpre hpost hontime hrest (by omega)
    have hrest' := (atRest_append.mp hrest).2
    have hpre' : run step (new elapsedTime) (pre ++ done) = some w :=
      Transition.run_append_eq_some.mpr ⟨s, hpre, hdone⟩
    have ht := (hfresh.run hrest' (run_bike hw)).1
    rw [← List.append_assoc] at hontime hrun ⊢
    obtain ⟨screen, hscreen, hgear, hspeed⟩ :=
      display_of_fresh hpre' hw hontime hrest' hfresh (by omega)
    refine ⟨screen, ?_, hgear, hspeed ▸ speedOfDevices_of_fresh hrun ht⟩
    rw [Transition.lastSeen_append hpre', hscreen]
    rfl

/-- The gear is changed when the system starts. -/
theorem shown_after_rest_of_gear_change :
    ∃ s t, run step (new 0) [.bike (.joystick .upPressed)] = some s ∧
      run step s (cycle 750 [.loadResetFlag] ++ cycle 750 [.loadResetFlag] ++
        cycle 750 [.loadResetFlag]) = some t ∧
      t.bike.currentGear = t.bike.gearDevice.getCurrentGear ∧
      t.bike.speedometer.settings = t.bike.deviceSettings ∧
      ∃ screen, lastSeen display? step (new 0) (.bike (.joystick .upPressed) ::
          (cycle 750 [.loadResetFlag] ++ cycle 750 [.loadResetFlag] ++
            cycle 750 [.loadResetFlag])) = some screen ∧
        screen.gear = t.bike.gearDevice.getCurrentGear := by
  obtain ⟨s, hs, hzero⟩ : ∃ s, run step (new 0) [.bike (.joystick .upPressed)] = some s ∧
      s = { new 0 with bike := { (new 0).bike with gearDevice := ⟨2⟩ } } := ⟨_, rfl, rfl⟩
  obtain ⟨t, ht, htimer⟩ : ∃ t, run step s (cycle 750 [.loadResetFlag] ++
      cycle 750 [.loadResetFlag] ++ cycle 750 [.loadResetFlag]) = some t ∧
      t.bike.timer = 4800000 := by
    subst hzero
    exact Option.map_eq_some_iff.mp (by decide +kernel)
  have hstart : s.bike.timer = 0 := by rw [hzero]; rfl
  obtain ⟨hfields, hdisplay⟩ := shown_after_rest 0 [.bike (.joystick .upPressed)] _ s t hs ht
    (by decide +kernel) (by decide +kernel)
  obtain ⟨hgear, hsettings, -⟩ := hfields (by omega)
  obtain ⟨screen, hscreen, hshown, -⟩ := hdisplay (by omega)
  exact ⟨s, t, hs, ht, hgear, hsettings, screen, hscreen, hshown⟩

end BikeComputer.StaticSchedulingWithEvent.TimedSystem
