import BikeComputer.Correctness.TaskReleases
import BikeComputer.MultiTasking.CachedSpeed
import BikeComputer.MultiTasking.Display
import BikeComputer.MultiTasking.ScheduleRefinement

/-!
# What the multi-tasking bike system shows, in time

Once the joystick has been left alone, no event is late for ever: the bike system settles for
the values of its devices. The display jobs begin in every cycle, so the one that was last
over has read a settled speedometer after some more time. Whether it found the speed of the
settings or zero depends on what the threads have done to the cached speed before.
-/

namespace BikeComputer.MultiTasking.ScheduledSystem

open PeriodicQueue (Entry Mixed)
open Transition (Along Throughout lastSeen run trace)

section Rest

/-- Neither a callback of an event, nor anything it leads to. -/
def Quiet : Activity → Prop
  | .idle | .displayTask | .operation .getDistance _ => True
  | _ => False

section Quiet

variable {p : Activity} (h : Quiet p)

include h

/-- A quiet thread is idle or runs the display task. -/
theorem Quiet.cases : p = .idle ∨ p = .displayTask ∨ ∃ pc, p = .operation .getDistance pc := by
  cases p with
  | idle => exact Or.inl rfl
  | displayTask => exact Or.inr (Or.inl rfl)
  | onGearEvent | onPedalEvent => exact absurd h id
  | operation op pc =>
    cases op with
    | getDistance => exact Or.inr (Or.inr ⟨pc, rfl⟩)
    | set => exact absurd h id

/-- A quiet thread handles no gear event. -/
theorem Quiet.not_ofGear : ¬ p.OfGear := by
  rcases h.cases with rfl | rfl | ⟨pc, rfl⟩ <;> exact id

/-- A quiet thread handles no pedal event. -/
theorem Quiet.not_ofPedal : ¬ p.OfPedal := by
  rcases h.cases with rfl | rfl | ⟨pc, rfl⟩ <;> exact id

/-- A quiet thread is not about to change the gear. -/
theorem Quiet.gear {current : UInt8} : p.gear current = current := by
  rcases h.cases with rfl | rfl | ⟨pc, rfl⟩ <;> rfl

/-- A quiet thread is not about to change the settings. -/
theorem Quiet.confirm {σ : Settings} : p.confirm σ = σ := by
  rcases h.cases with rfl | rfl | ⟨pc, rfl⟩ <;> rfl

end Quiet

/-- The thread works on an event only while its callback is running. -/
def Serves (s : ScheduledSystem) : Prop :=
  (∀ e ∈ s.eventQueue.running, e.task.event? = none) → Quiet s.bike.periodic

variable {places : ℕ} {M : ℤ} {s t : ScheduledSystem} {a : Label}

/-- A quiet thread stays quiet during its callback. -/
theorem Quiet.periodicStep {s t : BikeSystem} (h : Quiet s.periodic)
    (hst : s.periodicStep = some t) : Quiet t.periodic := by
  rcases BikeSystem.periodicStep_cases hst with ⟨gear, gearSize, hp, rfl⟩ |
    ⟨rotationTime, hp, rfl⟩ | ⟨hp, rfl⟩ | ⟨op, value, hp, rfl⟩ | ⟨op, pc, shared, pc', hp, -, rfl⟩
  · rw [hp] at h
    exact absurd h id
  · rw [hp] at h
    exact absurd h id
  · trivial
  · trivial
  · rw [hp] at h
    cases op with
    | getDistance => trivial
    | set => exact absurd h id

/-- Every step of the schedule keeps the thread serving its queue. -/
theorem Serves.step (h : Serves s) (hst : s.step places a = some t) : Serves t := by
  obtain ⟨hfinish, hbike, -⟩ := step_eq_some.mp hst
  have hlogger {c : Callback} (hc : s.queueLabels a = [.begin c]) (ha : a.bike? = none) :
      Serves t := by
    obtain ⟨e, rest, -, hidle, -⟩ := Mixed.step_begin.mp (step_eventQueue hst hc)
    rw [ha] at hbike
    intro _
    rw [← Option.some.inj hbike]
    exact h (by simp [hidle])
  cases a with
  | printDiffs => exact hlogger rfl rfl
  | printStats => exact hlogger rfl rfl
  | finish =>
    intro _
    rw [← Option.some.inj hbike, hfinish rfl]
    trivial
  | bike b =>
    have hbike := step_bike hst
    intro hrunning
    cases b with
    | joystick | tick | onReset =>
      rw [(running_of_bike hst trivial).1] at hrunning
      rw [← Option.some.inj hbike]
      exact h hrunning
    | periodic =>
      rw [(running_of_bike hst trivial).1] at hrunning
      exact (h hrunning).periodicStep hbike
    | isr =>
      rw [(running_of_bike hst trivial).1] at hrunning
      have hsame := periodic_of_running hst trivial (by simp)
      exact hsame ▸ h hrunning
    | dispatch e =>
      obtain ⟨x, rest, -, -, hx, -, hend⟩ := Mixed.step_begin.mp (step_eventQueue hst rfl)
      have hnone := hrunning x (by rw [hend]; rfl)
      rw [hx] at hnone
      exact absurd hnone (by simp [Callback.event?])
    | displayTask =>
      obtain ⟨-, hend⟩ := BikeSystem.step_displayTask.mp hbike
      rw [hend]
      trivial
    | temperatureTask temperature =>
      obtain ⟨hidle, hend⟩ := BikeSystem.step_temperatureTask.mp hbike
      rw [hend, hidle]
      trivial

/-- At rest, no call is accepted. -/
theorem called_of_rest (ha : ∀ j, a ≠ .bike (.joystick j)) (hst : s.step places a = some t) :
    t.eventQueue.called = s.eventQueue.called := by
  refine (step_called hst).trans ?_
  unfold accepted
  split
  · exact absurd rfl (ha _)
  · exact List.append_nil _

end Rest

section Runs

variable {testMode : Bool} {elapsedTime : ℤ} {places : ℕ} {labels : List Label}
variable {t : ScheduledSystem}

/-- The gear and the settings of the speedometer are given ones. -/
structure Settled (gear : UInt8) (σ : Settings) (s : ScheduledSystem) : Prop where
  gear : s.bike.currentGear = gear
  settings : s.bike.shared.speedometer.settings = σ

/-- The settings of the devices. -/
def deviceSettings (s : BikeSystem) : Settings :=
  ⟨s.gearDevice.getCurrentGearSize, s.pedalDevice.getCurrentRotationTime⟩

/-- With no event pending or in progress, the bike system works with the values of its
devices. -/
theorem settled_of_quiet {tr : List BikeSystem.Label}
    (h : BikeSystem.Agreement tr t.toBikeSystem) (hpending : pending t.eventQueue.entries = [])
    (hquiet : Quiet t.bike.periodic) :
    Settled t.bike.gearDevice.getCurrentGear (deviceSettings t.bike) t := by
  have hqueue : t.toBikeSystem.eventQueuePeriodic = [] := hpending
  have hperiodic : t.toBikeSystem.periodic = t.bike.periodic := rfl
  have hfollows := h.followsDevices
  have hgear := hfollows.gear (by simp [BikeSystem.pendingGears, hqueue]) hquiet.not_ofGear
  have htime := hfollows.rotationTime (by simp [BikeSystem.pendingRotationTimes, hqueue])
    hquiet.not_ofPedal
  have hsize := h.gears.gearSize
  rw [BikeSystem.confirmed, BikeSystem.shownGear, hperiodic, hquiet.confirm, hquiet.gear, hgear]
    at hsize
  refine ⟨hgear, ?_⟩
  rw [deviceSettings, GearDevice.getCurrentGearSize, Speedometer.settings]
  exact congrArg₂ Settings.mk hsize htime

variable {s : ScheduledSystem} {pre post : List Label} {M : ℤ}

/-- Only the joystick changes the devices. -/
theorem devices_of_run (hrest : ∀ a ∈ labels, ∀ j, a ≠ .bike (.joystick j))
    (hrun : run (step places) s labels = some t) :
    t.bike.gearDevice = s.bike.gearDevice ∧ t.bike.pedalDevice = s.bike.pedalDevice := by
  refine Transition.run_invariant_of_forall (P := fun a => ∀ j, a ≠ .bike (.joystick j))
    (I := fun t => t.bike.gearDevice = s.bike.gearDevice ∧
      t.bike.pedalDevice = s.bike.pedalDevice) (fun {m a n} ha hm hst => ?_) ⟨rfl, rfl⟩ hrest hrun
  suffices n.bike.gearDevice = m.bike.gearDevice ∧ n.bike.pedalDevice = m.bike.pedalDevice from
    ⟨this.1.trans hm.1, this.2.trans hm.2⟩
  cases a with
  | finish | printDiffs | printStats =>
    rw [← Option.some.inj (step_eq_some.mp hst).2.1]
    exact ⟨rfl, rfl⟩
  | bike b =>
    have hbike := step_bike hst
    cases b with
    | joystick j => exact absurd rfl (ha j)
    | onReset | tick =>
      rw [← Option.some.inj hbike]
      exact ⟨rfl, rfl⟩
    | dispatch | displayTask | temperatureTask =>
      simp only [bikeStep, BikeSystem.step, Option.ite_none_right_eq_some, Option.some.injEq]
        at hbike
      rw [← hbike.2]
      exact ⟨rfl, rfl⟩
    | periodic =>
      rcases BikeSystem.periodicStep_cases hbike with ⟨gear, gearSize, -, hend⟩ |
        ⟨rotationTime, -, hend⟩ | ⟨-, hend⟩ | ⟨op, value, -, hend⟩ |
        ⟨op, pc, shared, pc', -, -, hend⟩ <;> simp [hend]
    | isr =>
      rcases BikeSystem.isrStep_cases hbike with ⟨-, k, -, hend⟩ | ⟨-, hend⟩ |
        ⟨pc, shared, pc', -, -, hend⟩ <;> simp [hend]

/-- Once no event can be late any more, the bike system works with the values of its
devices. -/
theorem settled_of_rest (hM : 0 ≤ M) (hplaces : 1 + (periodicEvents testMode).length ≤ places)
    (hpre : run (step places) (new testMode elapsedTime) pre = some s)
    (hpost : run (step places) s post = some t)
    (hroom : Along (step places) (HasRoom places) (new testMode elapsedTime) (pre ++ post))
    (hontime : Throughout (step places) (OnTime M) (new testMode elapsedTime) (pre ++ post))
    (hrest : ∀ a ∈ post, ∀ j, a ≠ .bike (.joystick j))
    (hlong : s.eventQueue.clock + places • M < t.eventQueue.clock) :
    Settled s.bike.gearDevice.getCurrentGear (deviceSettings s.bike) t := by
  have hrun : run (step places) (new testMode elapsedTime) (pre ++ post) = some t :=
    Transition.run_append_eq_some.mpr ⟨s, hpre, hpost⟩
  have hbefore := timely_of_run hM hplaces hontime.of_append hpre
  have hafter := timely_of_run hM hplaces hontime hrun
  have hcalled : t.eventQueue.called = s.eventQueue.called := by
    refine Transition.run_invariant_of_forall (P := fun a => ∀ j, a ≠ .bike (.joystick j))
      (I := fun t => t.eventQueue.called = s.eventQueue.called) (fun ha hm hst => ?_) rfl
      hrest hpost
    rw [called_of_rest ha hst, hm]
  obtain ⟨hpending, hrunning⟩ := hafter.inOrder.over hafter.prompt hM
    (hontime (pre ++ post) [] t (List.append_nil _).symm hrun) fun e he =>
      (add_le_add_left (hbefore.inOrder.past e (hcalled ▸ he)) _).trans_lt hlong
  have hagreement : BikeSystem.Agreement ((pre ++ post).filterMap Label.bike?) t.toBikeSystem :=
    history_of_run (BikeSystem.new_agreement elapsedTime) (fun h hst => h.step hst) hroom hrun
  have hserves : Serves t := Transition.run_invariant (fun h hst => h.step hst)
    (fun _ => trivial : Serves (new testMode elapsedTime)) hrun
  have hquiet : Quiet t.bike.periodic := hserves fun e he => by
    rw [Option.eq_none_iff_forall_ne_some]
    intro x hx
    refine hrunning e he (Callback.period_eq_none.mpr ⟨x, Callback.event?_eq_some.mp hx⟩)
  obtain ⟨hgear, hpedal⟩ := devices_of_run hrest hpost
  have hsettled := settled_of_quiet hagreement (by rw [← pending_calls, hpending]; rfl) hquiet
  rwa [deviceSettings, hgear, hpedal] at hsettled

/-- A longer run has come to a later instant. -/
theorem clock_le_of_run (hrun : run (step places) s labels = some t) :
    s.eventQueue.clock ≤ t.eventQueue.clock :=
  Transition.run_invariant (I := fun t => s.eventQueue.clock ≤ t.eventQueue.clock)
    (fun hm hst => hm.trans (clock_le_of_step hst)) le_rfl hrun

/-- Every state the run comes to after that time has settled. -/
theorem settled_of_reaches (hM : 0 ≤ M)
    (hplaces : 1 + (periodicEvents testMode).length ≤ places)
    (hpre : run (step places) (new testMode elapsedTime) pre = some s)
    (hroom : Along (step places) (HasRoom places) (new testMode elapsedTime) (pre ++ post))
    (hontime : Throughout (step places) (OnTime M) (new testMode elapsedTime) (pre ++ post))
    (hrest : ∀ a ∈ post, ∀ j, a ≠ .bike (.joystick j)) {instant : ℤ} {before : List Label}
    {m : ScheduledSystem}
    (hreaches : Reaches places (new testMode elapsedTime) (pre ++ post) instant before m)
    (hlong : s.eventQueue.clock + places • M < instant) :
    Settled s.bike.gearDevice.getCurrentGear (deviceSettings s.bike) m := by
  have hlate : s.eventQueue.clock + places • M < m.eventQueue.clock :=
    hlong.trans_le hreaches.instant_le
  rcases List.prefix_or_prefix_of_prefix hreaches.isPrefix (List.prefix_append pre post) with
    ⟨rest, rfl⟩ | ⟨as, rfl⟩
  · -- the run has not come that far in `pre`
    obtain ⟨m', hm', hafter⟩ := Transition.run_append_eq_some.mp hpre
    obtain rfl := Option.some.inj (hreaches.run_before.symm.trans hm')
    have hbound : 0 ≤ places • M := nsmul_nonneg hM _
    have hclock := clock_le_of_run hafter
    omega
  · obtain ⟨rest, rfl⟩ := (List.prefix_append_right_inj pre).mp hreaches.isPrefix
    obtain ⟨s', hs', has⟩ := Transition.run_append_eq_some.mp hreaches.run_before
    obtain rfl := Option.some.inj (hpre.symm.trans hs')
    rw [← List.append_assoc] at hroom hontime
    exact settled_of_rest hM hplaces hpre has
      ((Transition.along_append hreaches.run_before).mp hroom).1 hontime.of_append
      (fun a ha => hrest a (List.mem_append_left _ ha)) hlate

/-- In every run in which every event finds a place, the history of the bike system tells
which speed is cached. -/
theorem cached_of_run
    (hroom : Along (step places) (HasRoom places) (new testMode elapsedTime) labels)
    (hrun : run (step places) (new testMode elapsedTime) labels = some t) :
    t.toBikeSystem.Cached
      (trace BikeSystem.step (.new elapsedTime) (labels.filterMap Label.bike?)) := by
  refine (history_of_run (I := fun as b => run BikeSystem.step (.new elapsedTime) as = some b ∧
    b.Cached (trace BikeSystem.step (.new elapsedTime) as))
    ⟨rfl, BikeSystem.new_cached elapsedTime⟩ ?_ hroom hrun).2
  rintro as m a n ⟨hm, hcached⟩ hst
  refine ⟨Transition.run_snoc_eq_some.mpr ⟨m, hm, hst⟩, ?_⟩
  rw [Transition.trace_snoc hm]
  exact hcached.step hst

/-- There is a release of the display task in every cycle. -/
theorem exists_release {instant : ℤ} (hinstant : 0 ≤ instant) :
    ∃ k : ℕ, instant < Callback.displayTask.delay + k • (1000 * kMajorCycleDuration) ∧
      Callback.displayTask.delay + k • (1000 * kMajorCycleDuration) ≤
        instant + 1000 * kMajorCycleDuration := by
  refine ⟨((instant - 300000) / 1600000 + 1).toNat, ?_⟩
  simp only [Callback.delay, kDisplayTaskDelay, kMajorCycleDuration, nsmul_eq_mul]
  omega

/-- The clock starts at zero. -/
theorem clock_nonneg (hrun : run (step places) (new testMode elapsedTime) labels = some t) :
    0 ≤ t.eventQueue.clock :=
  clock_le_of_run hrun

/-- The display job after those that are over is due. -/
theorem clock_le_of_displaying {init : ScheduledSystem} {done : List (Entry Callback ℤ × ℤ)}
    (hM : 0 ≤ M) (hperiod : places • M ≤ 1000 * kMajorCycleDuration)
    (hprompt : Mixed.Prompt M places t.eventQueue) (hlate : OnTime M t)
    (hcyclic : Mixed.Cyclic .displayTask Callback.displayTask.delay (1000 * kMajorCycleDuration)
      t.eventQueue) (h : Displaying places init labels t done) :
    t.eventQueue.clock ≤ Callback.displayTask.delay +
      done.length • (1000 * kMajorCycleDuration) + places • M := by
  have hrunning {e : Entry Callback ℤ} {start : ℤ} (htask : e.task = .displayTask)
      (hrunning : t.eventQueue.running = some e)
      (hjobs : t.eventQueue.jobs .displayTask = done ++ [(e, start)]) :
      t.eventQueue.clock ≤ Callback.displayTask.delay +
        done.length • (1000 * kMajorCycleDuration) + places • M := by
    have htarget := hcyclic.running_target hrunning htask
    rw [hjobs, List.length_append, List.length_singleton, succ_nsmul, ← add_assoc] at htarget
    exact add_right_cancel htarget ▸ hprompt.clock_le_of_running hlate hrunning
  cases h with
  | loading e start htask hrunning' hjobs => exact hrunning htask hrunning' hjobs
  | loaded e start htask hrunning' hjobs => exact hrunning htask hrunning' hjobs
  | waiting hother hjobs =>
    by_contra hclock
    have hfew : (places - 1) • M ≤ places • M := nsmul_le_nsmul_left hM (Nat.sub_le _ _)
    have hlt := hcyclic.lt_length hprompt hM hlate hperiod (k := done.length) (by omega)
    rw [hjobs] at hlt
    exact hlt.false

/-- The last display job that is over started one cycle and one bound for each place ago at
most. -/
theorem exists_last_display {init : ScheduledSystem} {done : List (Entry Callback ℤ × ℤ)}
    (hprompt : Mixed.Prompt M places t.eventQueue)
    (hcyclic : Mixed.Cyclic .displayTask Callback.displayTask.delay (1000 * kMajorCycleDuration)
      t.eventQueue) (h : Displaying places init labels t done)
    (hdue : t.eventQueue.clock ≤ Callback.displayTask.delay +
      done.length • (1000 * kMajorCycleDuration) + places • M) {k : ℕ} (hk : k < done.length) :
    ∃ x ∈ done.getLast?,
      Callback.displayTask.delay + k • (1000 * kMajorCycleDuration) ≤ x.2 ∧
      t.eventQueue.clock ≤ x.2 + (1000 * kMajorCycleDuration + places • M) := by
  obtain ⟨front, x, rfl⟩ : ∃ front x, done = front ++ [x] :=
    List.eq_nil_or_concat' done |>.resolve_left (List.ne_nil_of_length_pos (by omega))
  have hmem : (t.eventQueue.jobs .displayTask)[front.length]? = some x := by
    cases h with
    | waiting hother hjobs => simp [hjobs]
    | loading e start htask hrunning hjobs => simp [hjobs]
    | loaded e start htask hrunning hjobs => simp [hjobs]
  obtain ⟨hstart, -⟩ := hcyclic.inTime hprompt hmem
  refine ⟨x, by simp, ?_, ?_⟩
  · rw [List.length_append, List.length_singleton] at hk
    refine le_trans (add_le_add_right (nsmul_le_nsmul_left ?_ (Nat.le_of_lt_succ hk)) _) hstart
    decide
  · rw [List.length_append, List.length_singleton, succ_nsmul] at hdue
    omega

/-- In every run of the schedule in which every event finds a place and no callback takes
longer than a bound, the bike system works with the values of its devices once the joystick
has been left alone for one bound for each place. One cycle and as many bounds later the
display shows their gear, and a speed it has read in the last cycle: theirs, if the speed had
been computed and not been cleared since, and zero otherwise. -/
theorem shown_in_time (testMode : Bool) (elapsedTime : ℤ) (places : ℕ) (M : ℤ)
    (pre post : List Label) (s t : ScheduledSystem)
    (hplaces : 1 + (periodicEvents testMode).length ≤ places) (hM : 0 ≤ M)
    (hperiod : places • M ≤ 1000 * kMajorCycleDuration)
    (hpre : run (step places) (new testMode elapsedTime) pre = some s)
    (hpost : run (step places) s post = some t)
    (hroom : Along (step places) (HasRoom places) (new testMode elapsedTime) (pre ++ post))
    (hontime : Throughout (step places) (OnTime M) (new testMode elapsedTime) (pre ++ post))
    (hrest : ∀ a ∈ post, ∀ j, a ≠ .bike (.joystick j)) :
    (s.eventQueue.clock + places • M < t.eventQueue.clock →
      t.bike.currentGear = t.bike.gearDevice.getCurrentGear ∧
        t.bike.shared.speedometer.settings = deviceSettings t.bike) ∧
    (s.eventQueue.clock + 2 * (places • M) + 1000 * kMajorCycleDuration < t.eventQueue.clock →
      ∃ screen before m,
        lastSeen display? (step places) (new testMode elapsedTime) (pre ++ post) = some screen ∧
        Reaches places (new testMode elapsedTime) (pre ++ post)
          (t.eventQueue.clock - (1000 * kMajorCycleDuration + places • M)) before m ∧
        screen.gear = t.bike.gearDevice.getCurrentGear ∧
        screen.speed = m.bike.shared.speedometer.currentSpeed ∧
        let history := trace BikeSystem.step (.new elapsedTime) (before.filterMap Label.bike?)
        (BikeSystem.SpeedComputed history → screen.speed = (deviceSettings t.bike).speed) ∧
          (¬ BikeSystem.SpeedComputed history → screen.speed = 0)) := by
  obtain ⟨hgear, hpedal⟩ := devices_of_run hrest hpost
  have hdevices : deviceSettings t.bike = deviceSettings s.bike := by
    rw [deviceSettings, deviceSettings, hgear, hpedal]
  rw [hdevices, hgear]
  constructor
  · intro hlong
    have hsettled := settled_of_rest hM hplaces hpre hpost hroom hontime hrest hlong
    exact ⟨hsettled.gear, hsettled.settings⟩
  · intro hlong
    have hrun : run (step places) (new testMode elapsedTime) (pre ++ post) = some t :=
      Transition.run_append_eq_some.mpr ⟨s, hpre, hpost⟩
    have hlate := hontime (pre ++ post) [] t (List.append_nil _).symm hrun
    have hprompt := (timely_of_run hM hplaces hontime hrun).prompt
    have hcyclic := cyclic_of_run hM hplaces hperiod hontime hrun (displayTask_mem testMode)
    obtain ⟨done, hdisplaying, hshows⟩ := onDisplay_of_run hrun
    have hdue := clock_le_of_displaying hM hperiod hprompt hlate hcyclic hdisplaying
    obtain ⟨k, hk, hrelease⟩ := exists_release
      (add_nonneg (clock_nonneg hpre) (nsmul_nonneg hM places))
    have hover : k < done.length := by
      by_contra hle
      have hfew : done.length • (1000 * kMajorCycleDuration) ≤ k • (1000 * kMajorCycleDuration) :=
        nsmul_le_nsmul_left (by decide) (not_lt.mp hle)
      omega
    obtain ⟨x, hx, hstart, hage⟩ := exists_last_display hprompt hcyclic hdisplaying hdue hover
    obtain ⟨screen, hscreen, ⟨before, m, hreaches, hperiodic, hspeed⟩, before', m', hreaches',
      hshown⟩ := hshows x hx
    have hsettled := settled_of_reaches hM hplaces hpre hroom hontime hrest hreaches
      (hk.trans_le hstart)
    have hsettled' := settled_of_reaches hM hplaces hpre hroom hontime hrest hreaches'
      (hk.trans_le hstart)
    obtain ⟨rest, hrest⟩ := hreaches.isPrefix
    have hcached := cached_of_run
      ((Transition.along_append hreaches.run_before).mp (hrest ▸ hroom)).1 hreaches.run_before
      fun op hop => absurd (hperiodic.symm.trans hop) (by simp)
    refine ⟨screen, before, m, hscreen, ⟨hreaches.isPrefix, hreaches.run_before, ?_⟩,
      hshown.trans hsettled'.gear, hspeed, fun hcomputed => ?_, fun hcomputed => ?_⟩
    · have hinstant := hreaches.instant_le
      omega
    · exact hspeed.trans ((hcached.of_computed hcomputed).trans
        (congrArg Settings.speed hsettled.settings))
    · exact hspeed.trans (hcached.of_not_computed hcomputed)

end Runs

/-- The gear is changed when the system starts. -/
theorem shown_in_time_of_gear_change :
    ∃ s t, run (step 6) (new true 0) [.bike (.joystick .upPressed)] = some s ∧
      run (step 6) s firstCycle = some t ∧
      t.bike.currentGear = t.bike.gearDevice.getCurrentGear ∧
      ∃ screen, lastSeen display? (step 6) (new true 0)
          (.bike (.joystick .upPressed) :: firstCycle) = some screen ∧
        screen.gear = t.bike.gearDevice.getCurrentGear := by
  obtain ⟨s, t, hs, ht, hstart, hclock⟩ : ∃ s t,
      run (step 6) (new true 0) [.bike (.joystick .upPressed)] = some s ∧
        run (step 6) s firstCycle = some t ∧ s.eventQueue.clock = 0 ∧
          t.eventQueue.clock = 1901000 := ⟨_, _, rfl, rfl, rfl, rfl⟩
  have hrest : ∀ a ∈ firstCycle, ∀ j, a ≠ .bike (.joystick j) := by
    rintro a ha j rfl
    revert ha
    cases j <;> decide
  obtain ⟨hgear, hdisplay⟩ := shown_in_time true 0 6 1 [.bike (.joystick .upPressed)] firstCycle
    s t (by decide) (by decide) (by decide) hs ht (by decide +kernel) (by decide +kernel) hrest
  rw [hstart, hclock] at hgear hdisplay
  obtain ⟨screen, -, -, hscreen, -, hshown, -⟩ := hdisplay (by decide)
  exact ⟨s, t, hs, ht, (hgear (by decide)).1, screen, hscreen, hshown⟩

end BikeComputer.MultiTasking.ScheduledSystem
