import BikeComputer.Core.Drain
import BikeComputer.MultiTasking.CachedSpeed
import BikeComputer.MultiTasking.FullQueues
import BikeComputer.MultiTasking.Mutex

/-!
# Draining the multi-tasking bike system

The joystick, the reset button and the display task post work for the two threads. The
threads neither wait for each other for ever nor work without end: once they have nothing
left to do, both queues are empty and the mutex is free, and if no event of the devices has
been refused, the bike system works with their values.
-/

namespace BikeComputer.MultiTasking

open Transition (Along run trace)

/-- Accesses that an operation still makes at most, the return included. -/
def OperationPc.left : OperationPc → ℕ
  | .test => 12
  | .readTimer => 11
  | .readLastTime _ => 10
  | .readSpeed _ _ => 9
  | .lock _ _ => 8
  | .readTotal _ _ => 7
  | .storeTotal _ _ _ => 6
  | .unlock _ => 5
  | .storeLastTime _ => 4
  | .store => 3
  | .computeSpeed | .readResult => 2
  | .returned _ => 1

/-- Accesses that `reset` still makes, the return included. -/
def ResetPc.left : ResetPc → ℕ
  | .lock => 7
  | .clearDistance => 6
  | .clearSpeed => 5
  | .unlock => 4
  | .readTimer => 3
  | .storeLastTime _ => 2
  | .returned => 1

/-- An operation that has returned still has its return to make. -/
theorem OperationPc.left_pos (pc : OperationPc) : 0 < pc.left := by
  cases pc <;> simp [OperationPc.left]

/-- So does a reset. -/
theorem ResetPc.left_pos (pc : ResetPc) : 0 < pc.left := by
  cases pc <;> simp [ResetPc.left]

/-- The accesses the periodic thread has left to make. -/
def Activity.left : Activity → ℕ
  | .idle => 0
  | .onGearEvent _ _ | .onPedalEvent _ | .displayTask => 13
  | .operation _ pc => pc.left

/-- An idle thread has nothing left to do. -/
@[simp] theorem Activity.left_idle : Activity.idle.left = 0 := rfl

/-- The callback of an event takes at most 13 accesses. -/
@[simp] theorem Event.activity_left (e : Event) : e.activity.left = 13 := by
  cases e <;> rfl

/-- Only the setters test for a change and store a setting. -/
def OperationPc.Reaches (op : Operation) : OperationPc → Prop
  | .test | .store => op ≠ .getDistance
  | _ => True

/-- The place in the callback is one that its operation reaches. -/
def Activity.Reaches : Activity → Prop
  | .operation op pc => pc.Reaches op
  | _ => True

/-- Every access of an operation leaves less to do. -/
theorem operationStep_left {op : Operation} {s t : Shared} {pc pc' : OperationPc}
    (h : operationStep op s pc = some (t, pc')) : pc'.left < pc.left ∧ pc'.Reaches op := by
  cases pc with
  | test =>
    cases op with
    | getDistance => exact absurd h (by simp [operationStep])
    | set x =>
      obtain ⟨rfl, rfl⟩ := Prod.mk.inj (Option.some.inj h)
      split <;> simp [OperationPc.left, OperationPc.Reaches]
  | lock currentTime distance =>
    obtain ⟨q, -, hq⟩ := Option.map_eq_some_iff.mp h
    obtain ⟨rfl, rfl⟩ := Prod.mk.inj hq
    simp [OperationPc.left, OperationPc.Reaches]
  | store =>
    cases op with
    | getDistance => exact absurd h (by simp [operationStep])
    | set x =>
      obtain ⟨rfl, rfl⟩ := Prod.mk.inj (Option.some.inj h)
      simp [OperationPc.left, OperationPc.Reaches]
  | storeLastTime currentTime =>
    obtain ⟨rfl, rfl⟩ := Prod.mk.inj (Option.some.inj h)
    cases op <;> simp [OperationPc.left, OperationPc.Reaches, Operation.settled]
  | readTimer | readLastTime | readSpeed | readTotal | storeTotal | unlock | computeSpeed
  | readResult =>
    obtain ⟨rfl, rfl⟩ := Prod.mk.inj (Option.some.inj h)
    simp [OperationPc.left, OperationPc.Reaches]
  | returned => exact absurd h (by simp [operationStep])

/-- Every access of a reset leaves less to do. -/
theorem resetStep_left {s t : Shared} {pc pc' : ResetPc} (h : resetStep s pc = some (t, pc')) :
    pc'.left < pc.left := by
  cases pc with
  | lock =>
    obtain ⟨q, -, hq⟩ := Option.map_eq_some_iff.mp h
    obtain ⟨rfl, rfl⟩ := Prod.mk.inj hq
    decide
  | clearDistance | clearSpeed | unlock | readTimer | storeLastTime =>
    obtain ⟨rfl, rfl⟩ := Prod.mk.inj (Option.some.inj h)
    simp [ResetPc.left]
  | returned => exact absurd h (by simp [resetStep])

/-- Only at the mutex can an operation have to wait. -/
theorem exists_operationStep {op : Operation} {s : Shared} {pc : OperationPc}
    (hreaches : pc.Reaches op) (hfree : ¬ pc.Inside → s.totalDistanceMutex = none)
    (hrunning : ∀ value, pc ≠ .returned value) : ∃ p, operationStep op s pc = some p := by
  cases pc with
  | test | store =>
    cases op with
    | getDistance => exact absurd rfl hreaches
    | set x => exact ⟨_, rfl⟩
  | lock currentTime distance =>
    simp [operationStep, Shared.lock, hfree id]
  | readTimer | readLastTime | readSpeed | readTotal | storeTotal | unlock | storeLastTime
  | computeSpeed | readResult => exact ⟨_, rfl⟩
  | returned value => exact absurd rfl (hrunning value)

/-- Only at the mutex can `reset` have to wait. -/
theorem exists_resetStep {s : Shared} {pc : ResetPc}
    (hfree : ¬ pc.Inside → s.totalDistanceMutex = none) (hrunning : pc ≠ .returned) :
    ∃ p, resetStep s pc = some p := by
  cases pc with
  | lock => simp [resetStep, Shared.lock, hfree id]
  | clearDistance | clearSpeed | unlock | readTimer | storeLastTime => exact ⟨_, rfl⟩
  | returned => exact absurd rfl hrunning

namespace BikeSystem

/-- The steps of the two threads. -/
def Label.works : Label → Bool
  | .dispatch _ | .periodic | .isr => true
  | _ => false

/-- Steps of the threads that a label asks for at most. -/
def Label.posts : Label → ℕ
  | .joystick _ => 14
  | .onReset => 8
  | .displayTask => 13
  | _ => 0

/-- Steps that the threads still make at most. -/
def work (s : BikeSystem) : ℕ :=
  14 * s.eventQueuePeriodic.length + s.periodic.left +
    8 * s.eventQueueISR + s.isr.elim 0 ResetPc.left

/-- A joystick state posts at most one event, which may be refused. -/
theorem boundedOnJoystick_posts_le (c : Capacity) (s : BikeSystem) (j : Joystick.State) :
    (s.boundedOnJoystick c j).eventQueuePeriodic.length ≤ s.eventQueuePeriodic.length + 1 := by
  rcases s.onJoystick_posts j with hnone | ⟨e, hone⟩
  · simp [boundedOnJoystick, hnone]
  · simp only [boundedOnJoystick, hone, List.foldl_cons, List.foldl_nil, post]
    split <;> simp

/-- A press of the reset button posts at most one event, which may be refused. -/
theorem boundedOnReset_posts_le (c : Capacity) (s : BikeSystem) :
    (s.boundedOnReset c).eventQueueISR ≤ s.eventQueueISR + 1 := by
  unfold boundedOnReset
  split <;> simp

/-- An access of the periodic thread uses up work. -/
theorem periodicStep_work {s t : BikeSystem} (hst : s.periodicStep = some t) :
    t.periodic.Reaches ∧ t.work < s.work := by
  rcases periodicStep_cases hst with ⟨gear, gearSize, hp, rfl⟩ | ⟨rotationTime, hp, rfl⟩ |
    ⟨hp, rfl⟩ | ⟨op, value, hp, rfl⟩ | ⟨op, pc, shared, pc', hp, hop, rfl⟩
  · simp [work, hp, Activity.left, OperationPc.left, Activity.Reaches, OperationPc.Reaches]
  · simp [work, hp, Activity.left, OperationPc.left, Activity.Reaches, OperationPc.Reaches]
  · simp [work, hp, Activity.left, OperationPc.left, Activity.Reaches, OperationPc.Reaches]
  · simp [work, hp, Activity.left, OperationPc.left, Activity.Reaches]
  · obtain ⟨hleft, hreaches⟩ := operationStep_left hop
    exact ⟨hreaches, by simpa [work, hp, Activity.left] using hleft⟩

/-- An access of the ISR thread uses up work, and none of the periodic thread. -/
theorem isrStep_work {s t : BikeSystem} (hst : s.isrStep = some t) :
    t.periodic = s.periodic ∧ t.work < s.work := by
  rcases isrStep_cases hst with ⟨hisr, n, hn, rfl⟩ | ⟨hisr, rfl⟩ |
    ⟨pc, shared, pc', hisr, hreset, rfl⟩
  · refine ⟨rfl, ?_⟩
    simp only [work, hisr, hn, Option.elim_none, Option.elim_some, ResetPc.left]
    omega
  · refine ⟨rfl, ?_⟩
    simp [work, hisr, ResetPc.left]
  · have hleft := resetStep_left hreset
    exact ⟨rfl, by simpa [work, hisr] using hleft⟩

/-- What the waiting at the mutex relies on. -/
structure Live (s : BikeSystem) : Prop where
  guarded : Guarded s
  reaches : s.periodic.Reaches

/-- Nothing is under way when the system has been constructed. -/
theorem new_live (elapsedTime : ℤ) : Live (new elapsedTime) := ⟨new_guarded elapsedTime, trivial⟩

/-- A post changes neither the threads nor what they share. -/
theorem Live.congr {s t : BikeSystem} (h : Live s) (hshared : t.shared = s.shared)
    (hperiodic : t.periodic = s.periodic) (hisr : t.isr = s.isr) : Live t := by
  have hinside : t.Inside = s.Inside := by
    funext i
    cases i <;> simp only [Inside, hperiodic, hisr]
  refine ⟨⟨?_, ?_⟩, hperiodic ▸ h.reaches⟩
  · rw [hshared, hinside]
    exact h.guarded.held
  · rw [hshared, hperiodic]
    exact h.guarded.current

/-- A step of the threads uses up work, and every other step adds at most what it posts. -/
theorem Live.step {c : Capacity} {s t : BikeSystem} {a : Label} (h : Live s)
    (hst : s.boundedStep c a = some t) :
    Live t ∧ (if a.works then 1 else 0) + t.work ≤ s.work + a.posts := by
  cases a with
  | periodic =>
    obtain ⟨hreaches, hwork⟩ := periodicStep_work hst
    exact ⟨⟨(h.guarded.periodicStep hst).1, hreaches⟩, by
      simp only [Label.works, Label.posts, if_true]; omega⟩
  | isr =>
    obtain ⟨hperiodic, hwork⟩ := isrStep_work hst
    exact ⟨⟨(h.guarded.isrStep hst).1, hperiodic ▸ h.reaches⟩, by
      simp only [Label.works, Label.posts, if_true]; omega⟩
  | dispatch e =>
    have hguarded := (h.guarded.step (a := .dispatch e) hst).1
    obtain ⟨hp, es, hq, rfl⟩ := step_dispatch.mp hst
    refine ⟨⟨hguarded, by cases e <;> trivial⟩, ?_⟩
    simp only [work, hp, hq, Activity.left_idle, Event.activity_left, List.length_cons,
      Label.works, Label.posts, if_true]
    omega
  | joystick j =>
    have hposts := s.boundedOnJoystick_posts_le c j
    obtain rfl := Option.some.inj hst
    refine ⟨h.congr rfl rfl rfl, ?_⟩
    change 0 + (14 * (s.boundedOnJoystick c j).eventQueuePeriodic.length + s.periodic.left +
      8 * s.eventQueueISR + s.isr.elim 0 ResetPc.left) ≤ s.work + 14
    unfold work
    omega
  | onReset =>
    have hposts := s.boundedOnReset_posts_le c
    have hrest : t.shared = s.shared ∧ t.periodic = s.periodic ∧ t.isr = s.isr ∧
        t.eventQueuePeriodic = s.eventQueuePeriodic := by
      obtain rfl := Option.some.inj hst
      unfold boundedOnReset
      split <;> exact ⟨rfl, rfl, rfl, rfl⟩
    obtain ⟨hshared, hperiodic, hisr, hqueue⟩ := hrest
    refine ⟨h.congr hshared hperiodic hisr, ?_⟩
    rw [work, work, hperiodic, hisr, hqueue, ← Option.some.inj hst]
    simp only [Label.works, Label.posts, Bool.false_eq_true, if_false]
    omega
  | displayTask =>
    have hguarded := (h.guarded.step (a := .displayTask) hst).1
    obtain ⟨hp, rfl⟩ := step_displayTask.mp hst
    refine ⟨⟨hguarded, trivial⟩, ?_⟩
    simp only [work, hp, Activity.left, Label.works, Label.posts, Bool.false_eq_true, if_false]
    omega
  | temperatureTask temperature =>
    obtain ⟨-, rfl⟩ := step_temperatureTask.mp hst
    exact ⟨h.congr rfl rfl rfl, (Nat.zero_add _).le⟩
  | tick d =>
    have hguarded := (h.guarded.step (a := .tick d) hst).1
    obtain rfl := Option.some.inj hst
    exact ⟨⟨hguarded, h.reaches⟩, (Nat.zero_add _).le⟩

/-- The mutex is free for a thread that is outside if the other one is outside as well. -/
theorem Guarded.mutex_free {s : BikeSystem} (h : Guarded s) (hisr : ¬ s.Inside .isr)
    (hperiodic : ¬ s.Inside .periodic) : s.shared.totalDistanceMutex = none := by
  by_contra htaken
  obtain ⟨i, hi⟩ := h.held.exists_inside htaken
  cases i with
  | isr => exact hisr hi
  | periodic => exact hperiodic hi

/-- The periodic thread can go on unless the ISR thread holds the mutex. -/
theorem Live.exists_periodicStep {s : BikeSystem} (h : Live s) (hisr : ¬ s.Inside .isr)
    (hrunning : s.periodic ≠ .idle) : ∃ t, s.periodicStep = some t := by
  unfold periodicStep
  have hreaches := h.reaches
  cases hp : s.periodic with
  | idle => exact absurd hp hrunning
  | onGearEvent | onPedalEvent | displayTask => exact ⟨_, rfl⟩
  | operation op pc =>
    rw [hp] at hreaches
    by_cases hreturned : ∃ value, pc = .returned value
    · obtain ⟨value, rfl⟩ := hreturned
      exact ⟨_, rfl⟩
    · obtain ⟨p, hop⟩ := exists_operationStep (s := s.shared) hreaches
        (fun hout => h.guarded.mutex_free hisr (fun hin => hout ((inside_periodic hp).mp hin)))
        (fun value hvalue => hreturned ⟨value, hvalue⟩)
      have hst := periodicStep_operation hp hop
      unfold periodicStep at hst
      rw [hp] at hst
      exact ⟨_, hst⟩

/-- The ISR thread can go on unless the periodic thread holds the mutex. -/
theorem Live.exists_isrStep {s : BikeSystem} (h : Live s) (hperiodic : ¬ s.Inside .periodic)
    (hrunning : s.isr.elim 0 ResetPc.left + s.eventQueueISR ≠ 0) : ∃ t, s.isrStep = some t := by
  unfold isrStep
  cases hisr : s.isr with
  | none =>
    cases hn : s.eventQueueISR with
    | zero => exact absurd (by simp [hisr, hn]) hrunning
    | succ n => exact ⟨_, rfl⟩
  | some pc =>
    by_cases hreturned : pc = .returned
    · subst hreturned
      exact ⟨_, rfl⟩
    · obtain ⟨p, hreset⟩ := exists_resetStep (s := s.shared)
        (fun hout => h.guarded.mutex_free (fun hin => hout ((inside_isr hisr).mp hin)) hperiodic)
        hreturned
      refine ⟨{ s with shared := p.1, isr := some p.2 }, ?_⟩
      cases pc with
      | returned => exact absurd rfl hreturned
      | lock | clearDistance | clearSpeed | unlock | readTimer | storeLastTime =>
        simp [hreset]

/-- While there is work, one of the two threads can go on. -/
theorem Live.exists_step {c : Capacity} {s : BikeSystem} (h : Live s) (hwork : s.work ≠ 0) :
    ∃ a t, Label.works a ∧ s.boundedStep c a = some t := by
  by_cases hisr : s.Inside .isr
  · -- the ISR thread holds the mutex and goes on
    have hperiodic : ¬ s.Inside .periodic := fun hp =>
      absurd (h.guarded.held.exclusive hisr hp) (by decide)
    obtain ⟨pc, hpc, hin⟩ := hisr
    obtain ⟨t, ht⟩ := h.exists_isrStep hperiodic (by
      cases pc <;> simp [hpc, ResetPc.left])
    exact ⟨.isr, t, rfl, ht⟩
  · by_cases hrunning : s.periodic = .idle
    · have hperiodic : ¬ s.Inside .periodic := by simp [Inside, hrunning]
      cases hq : s.eventQueuePeriodic with
      | cons e es => exact ⟨.dispatch e, _, rfl, step_dispatch.mpr ⟨hrunning, es, hq, rfl⟩⟩
      | nil =>
        obtain ⟨t, ht⟩ := h.exists_isrStep hperiodic (by
          intro hzero
          refine hwork ?_
          simp only [work, hrunning, hq, Activity.left_idle, List.length_nil]
          omega)
        exact ⟨.isr, t, rfl, ht⟩
    · obtain ⟨t, ht⟩ := h.exists_periodicStep hisr hrunning
      exact ⟨.periodic, t, rfl, ht⟩

/-- The threads drain the queues. -/
def draining (c : Capacity) : Transition.Draining (boundedStep c) Label.works Label.posts where
  Inv := Live
  rank := work
  of_step := Live.step
  exists_step := Live.exists_step
  posts_of_works := by
    intro a ha
    cases a with
    | dispatch | periodic | isr => rfl
    | joystick | onReset | displayTask | temperatureTask | tick =>
      exact absurd ha Bool.false_ne_true

/-- Both queues are empty, both threads are idle, and the mutex is free. -/
structure Drained (s : BikeSystem) : Prop where
  eventQueuePeriodic : s.eventQueuePeriodic = []
  eventQueueISR : s.eventQueueISR = 0
  periodic : s.periodic = .idle
  isr : s.isr = none
  mutex : s.shared.totalDistanceMutex = none

/-- Threads without work have left their critical sections. -/
theorem Guarded.drained {s : BikeSystem} (h : Guarded s) (hwork : s.work = 0) : Drained s := by
  unfold work at hwork
  have hperiodic : s.periodic = .idle := by
    cases hp : s.periodic with
    | idle => rfl
    | onGearEvent | onPedalEvent | displayTask => simp [hp, Activity.left] at hwork
    | operation op pc =>
      have hpos := pc.left_pos
      simp only [hp, Activity.left] at hwork
      omega
  have hisr : s.isr = none := by
    cases hi : s.isr with
    | none => rfl
    | some pc =>
      have hpos := pc.left_pos
      simp only [hi, Option.elim_some] at hwork
      omega
  refine ⟨List.length_eq_zero_iff.mp (by omega), by omega, hperiodic, hisr, ?_⟩
  exact h.mutex_free (by simp [Inside, hisr]) (by simp [Inside, hperiodic])

/-- Drained, the bike system works with the values of its devices. -/
theorem Agreement.drained {tr : List Label} {s : BikeSystem} (h : Agreement tr s)
    (hdrained : Drained s) :
    s.currentGear = s.gearDevice.getCurrentGear ∧
      s.shared.speedometer.gearSize = s.gearDevice.getCurrentGearSize ∧
      s.shared.speedometer.pedalRotationTime = s.pedalDevice.getCurrentRotationTime := by
  have hgear := h.followsDevices.gear (by simp [pendingGears, hdrained.eventQueuePeriodic])
    (by simp [hdrained.periodic, Activity.OfGear])
  have htime := h.followsDevices.rotationTime
    (by simp [pendingRotationTimes, hdrained.eventQueuePeriodic])
    (by simp [hdrained.periodic, Activity.OfPedal])
  have hsize := h.gears.gearSize
  simp only [confirmed, shownGear, hdrained.periodic, Activity.confirm, Activity.gear] at hsize
  refine ⟨hgear, ?_, htime⟩
  rw [GearDevice.getCurrentGearSize, ← GearDevice.getCurrentGear, ← hgear]
  exact hsize

/-- In every run with bounded queues, the two threads make no more steps than has been
posted, and from every state they can do all pending work by themselves. Whenever neither can
go on the work is done: the queues are empty, the mutex is free, and the speed is the one of
the settings if it has been computed since it was last cleared. If moreover no event of a
device has been refused, gear, size and rotation time are those of the devices. -/
theorem threads_drain (c : Capacity) (elapsedTime : ℤ) (tr : List Label) (s : BikeSystem)
    (hrun : run (boundedStep c) (new elapsedTime) tr = some s) :
    tr.countP Label.works ≤ 14 + (tr.map Label.posts).sum ∧
      (∃ as t, (∀ a ∈ as, Label.works a) ∧ run (boundedStep c) s as = some t ∧ Drained t) ∧
      ((∀ a, Label.works a → s.boundedStep c a = none) →
        Drained s ∧
          s.shared.Cached (SpeedComputed (trace (boundedStep c) (new elapsedTime) tr)) ∧
          (Along (boundedStep c) (HasRoom c) (new elapsedTime) tr →
            s.currentGear = s.gearDevice.getCurrentGear ∧
              s.shared.speedometer.settings =
                ⟨s.gearDevice.getCurrentGearSize, s.pedalDevice.getCurrentRotationTime⟩)) := by
  have hlive : Live s := Transition.run_invariant (fun h hst => (h.step hst).1)
    (new_live elapsedTime) hrun
  refine ⟨?_, ?_, fun hstuck => ?_⟩
  · have hcount := (draining c).countP_add_rank_le (new_live elapsedTime) hrun
    have hwork : (draining c).rank (new elapsedTime) = 14 := rfl
    omega
  · obtain ⟨as, t, has, ht, hwork⟩ := (draining c).exists_drained hlive
    have hlive' : Live t := Transition.run_invariant (fun h hst => (h.step hst).1) hlive ht
    exact ⟨as, t, has, ht, hlive'.guarded.drained hwork⟩
  · have hdrained := hlive.guarded.drained ((draining c).rank_eq_zero_of_stuck hlive hstuck)
    have hcached : Cached (trace (boundedStep c) (new elapsedTime) tr) s := by
      refine Transition.run_history (I := fun tr s =>
        Cached (trace (boundedStep c) (new elapsedTime) tr) s) (new_cached elapsedTime) ?_ hrun
      intro tr m a t hm h hst
      rw [Transition.trace_snoc hm]
      exact h.boundedStep hst
    refine ⟨hdrained, hcached (by simp [hdrained.periodic]), fun hroom => ?_⟩
    have hagreement : Agreement tr s := hroom.run_history (new_agreement elapsedTime)
      (fun h hroom hst => h.boundedStep hroom hst) hrun
    obtain ⟨hgear, hsize, htime⟩ := hagreement.drained hdrained
    exact ⟨hgear, by rw [Speedometer.settings, hsize, htime]⟩

/-- The gear is changed and the reset button pressed right after the construction. The reset
takes the mutex while the setter of the new gear waits for it. -/
theorem threads_drain_of_press_and_reset :
    let tr : List Label := [.joystick .upPressed, .onReset,
      .dispatch (.pedal kInitialPedalRotationTime), .periodic, .periodic, .periodic,
      .dispatch (.gear 2 18), .periodic, .periodic, .periodic, .periodic, .periodic,
      .isr, .isr, .isr, .isr, .isr, .periodic, .isr, .isr, .isr,
      .periodic, .periodic, .periodic, .periodic, .periodic, .periodic, .periodic]
    ∃ s, run (boundedStep ⟨2, 2, by decide⟩) (new 0) tr = some s ∧ Drained s ∧
      s.currentGear = 2 ∧ s.currentGear = s.gearDevice.getCurrentGear := by
  intro tr
  let drained : BikeSystem := { new 0 with
    shared := { (new 0).shared with speedometer := (Speedometer.new 0).setGearSize 0 18 }
    gearDevice := ⟨2⟩
    eventQueuePeriodic := []
    currentGear := 2 }
  have hrun : run (boundedStep ⟨2, 2, by decide⟩) (new 0) tr = some drained := by
    decide +kernel
  obtain ⟨-, -, hstuck⟩ := threads_drain ⟨2, 2, by decide⟩ 0 tr drained hrun
  obtain ⟨hdrained, -, hdevices⟩ := hstuck (by
    intro a ha
    cases a with
    | dispatch | periodic | isr => rfl
    | joystick | onReset | displayTask | temperatureTask | tick =>
      exact absurd ha Bool.false_ne_true)
  exact ⟨drained, hrun, hdrained, rfl, (hdevices (by decide +kernel)).1⟩

end BikeSystem

end BikeComputer.MultiTasking
