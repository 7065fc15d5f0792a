import BikeComputer.MultiTasking.Devices
import BikeComputer.MultiTasking.SharedSpeedometer

/-!
# The multi-tasking bike system

Joystick callbacks post to the periodic queue, the reset button posts to the queue of
the ISR thread, and both threads dispatch one event at a time. The callbacks of the
devices run to completion; everything the two threads do to the speedometer is
interleaved one access at a time, with each other and with the interrupts.
-/

namespace BikeComputer.MultiTasking

/-- What the thread of the periodic queue is about to do. -/
inductive Activity where
  | idle
  | onGearEvent (gear gearSize : UInt8)
  | onPedalEvent (rotationTime : ℤ)
  | displayTask
  | operation (op : Operation) (pc : OperationPc)
  deriving DecidableEq, Repr

/-- The callback an event calls. -/
def Event.activity : Event → Activity
  | .gear currentGear gearSize => .onGearEvent currentGear gearSize
  | .pedal rotationTime => .onPedalEvent rotationTime

/-- The devices, the two queues and threads, and the fields that are shown. -/
structure BikeSystem where
  shared : Shared
  gearDevice : GearDevice
  pedalDevice : PedalDevice
  eventQueuePeriodic : List Event
  /-- All events of this queue are calls of `resetTask`. -/
  eventQueueISR : ℕ := 0
  currentGear : UInt8 := kMinGear
  currentSpeed : ℚ := 0
  traveledDistance : ℚ := 0
  currentTemperature : ℚ := 0
  periodic : Activity := .idle
  isr : Option ResetPc := none
  deriving DecidableEq, Repr

namespace BikeSystem

/-- Only the pedal device posts an event when it is constructed. -/
def new (elapsedTime : ℤ) : BikeSystem where
  shared := { speedometer := Speedometer.new elapsedTime, timer := elapsedTime }
  gearDevice := {}
  pedalDevice := PedalDevice.new.1
  eventQueuePeriodic := PedalDevice.new.2

/-- What can happen next. A dispatched event is named in the label. -/
inductive Label where
  | joystick (state : Joystick.State)
  | onReset
  | dispatch (event : Event)
  | displayTask
  | temperatureTask (temperature : ℚ)
  | periodic
  | isr
  | tick (d : ℕ)
  deriving DecidableEq, Repr

/-- The callbacks registered for a joystick state run to completion. -/
def onJoystick (s : BikeSystem) (state : Joystick.State) : BikeSystem :=
  let (gearDevice, gearEvents) := s.gearDevice.onJoystick state
  let (pedalDevice, pedalEvents) := s.pedalDevice.onJoystick state
  { s with
    gearDevice := gearDevice
    pedalDevice := pedalDevice
    eventQueuePeriodic := s.eventQueuePeriodic ++ gearEvents ++ pedalEvents }

/-- The next access of the periodic thread inside the callback it runs. -/
def periodicStep (s : BikeSystem) : Option BikeSystem :=
  match s.periodic with
  | .idle => none
  | .onGearEvent gear gearSize =>
    some { s with
      currentGear := gear
      periodic := .operation (.set (.gearSize gearSize))
        (Operation.set (.gearSize gearSize)).entry }
  | .onPedalEvent rotationTime =>
    some { s with
      periodic := .operation (.set (.rotationTime rotationTime))
        (Operation.set (.rotationTime rotationTime)).entry }
  | .displayTask =>
    some { s with
      currentSpeed := s.shared.speedometer.getCurrentSpeed
      periodic := .operation .getDistance Operation.getDistance.entry }
  | .operation _ (.returned value) =>
    some { s with traveledDistance := value.getD s.traveledDistance, periodic := .idle }
  | .operation op pc =>
    (operationStep op s.shared pc).map fun p =>
      { s with shared := p.1, periodic := .operation op p.2 }

/-- The next access of the ISR thread; between two events it takes the next one. -/
def isrStep (s : BikeSystem) : Option BikeSystem :=
  match s.isr with
  | none =>
    match s.eventQueueISR with
    | 0 => none
    | n + 1 => some { s with eventQueueISR := n, isr := some .lock }
  | some .returned => some { s with isr := none }
  | some pc => (resetStep s.shared pc).map fun p => { s with shared := p.1, isr := some p.2 }

/-- One interrupt, the beginning of a callback, one access of a thread, or a tick. -/
def step (s : BikeSystem) : Label → Option BikeSystem
  | .joystick state => some (s.onJoystick state)
  | .onReset => some { s with eventQueueISR := s.eventQueueISR + 1 }
  | .dispatch event =>
    match s.periodic, s.eventQueuePeriodic with
    | .idle, e :: es =>
      if e = event then some { s with eventQueuePeriodic := es, periodic := e.activity }
      else none
    | _, _ => none
  | .displayTask =>
    if s.periodic = .idle then some { s with periodic := .displayTask } else none
  | .temperatureTask temperature =>
    if s.periodic = .idle then some { s with currentTemperature := temperature } else none
  | .periodic => s.periodicStep
  | .isr => s.isrStep
  | .tick d => some { s with shared := { s.shared with timer := s.shared.timer + d } }

/-- An idle thread begins the display task. -/
theorem step_displayTask {s t : BikeSystem} :
    s.step .displayTask = some t ↔
      s.periodic = .idle ∧ t = { s with periodic := .displayTask } := by
  simp only [step, Option.ite_none_right_eq_some, Option.some.injEq, @eq_comm _ t]

/-- An idle thread reads the temperature. -/
theorem step_temperatureTask {s t : BikeSystem} {temperature : ℚ} :
    s.step (.temperatureTask temperature) = some t ↔
      s.periodic = .idle ∧ t = { s with currentTemperature := temperature } := by
  simp only [step, Option.ite_none_right_eq_some, Option.some.injEq, @eq_comm _ t]

/-- An event is dispatched from the front of the queue, by an idle thread. -/
theorem step_dispatch {s t : BikeSystem} {e : Event} :
    s.step (.dispatch e) = some t ↔
      s.periodic = .idle ∧ ∃ es, s.eventQueuePeriodic = e :: es ∧
        t = { s with eventQueuePeriodic := es, periodic := e.activity } := by
  unfold step
  cases s.periodic with
  | idle =>
    cases s.eventQueuePeriodic with
    | nil => simp
    | cons e' es =>
      by_cases he : e' = e
      · simp [he, eq_comm]
      · simp [he]
  | onGearEvent | onPedalEvent | displayTask | operation => simp

/-- What the periodic thread can do inside a callback. -/
theorem periodicStep_cases {s t : BikeSystem} (h : s.periodicStep = some t) :
    (∃ gear gearSize, s.periodic = .onGearEvent gear gearSize ∧
      t = { s with
        currentGear := gear
        periodic := .operation (.set (.gearSize gearSize)) .test }) ∨
    (∃ rotationTime, s.periodic = .onPedalEvent rotationTime ∧
      t = { s with periodic := .operation (.set (.rotationTime rotationTime)) .test }) ∨
    (s.periodic = .displayTask ∧
      t = { s with
        currentSpeed := s.shared.speedometer.currentSpeed
        periodic := .operation .getDistance .readTimer }) ∨
    (∃ op value, s.periodic = .operation op (.returned value) ∧
      t = { s with traveledDistance := value.getD s.traveledDistance, periodic := .idle }) ∨
    ∃ op pc shared pc', s.periodic = .operation op pc ∧
      operationStep op s.shared pc = some (shared, pc') ∧
      t = { s with shared := shared, periodic := .operation op pc' } := by
  unfold periodicStep at h
  split at h
  · exact absurd h (by simp)
  · rename_i gear gearSize hp
    exact Or.inl ⟨gear, gearSize, hp, (Option.some.inj h).symm⟩
  · rename_i rotationTime hp
    exact Or.inr (Or.inl ⟨rotationTime, hp, (Option.some.inj h).symm⟩)
  · rename_i hp
    exact Or.inr (Or.inr (Or.inl ⟨hp, (Option.some.inj h).symm⟩))
  · rename_i op value hp
    exact Or.inr (Or.inr (Or.inr (Or.inl ⟨op, value, hp, (Option.some.inj h).symm⟩)))
  · rename_i op pc _ hp
    obtain ⟨⟨shared, pc'⟩, hop, rfl⟩ := Option.map_eq_some_iff.mp h
    exact Or.inr (Or.inr (Or.inr (Or.inr ⟨op, pc, shared, pc', hp, hop, rfl⟩)))

/-- What the ISR thread can do. -/
theorem isrStep_cases {s t : BikeSystem} (h : s.isrStep = some t) :
    (s.isr = none ∧ ∃ n, s.eventQueueISR = n + 1 ∧
      t = { s with eventQueueISR := n, isr := some .lock }) ∨
    (s.isr = some .returned ∧ t = { s with isr := none }) ∨
    ∃ pc shared pc', s.isr = some pc ∧ resetStep s.shared pc = some (shared, pc') ∧
      t = { s with shared := shared, isr := some pc' } := by
  unfold isrStep at h
  split at h
  · rename_i hi
    split at h
    · exact absurd h (by simp)
    · rename_i n hn
      exact Or.inl ⟨hi, n, hn, (Option.some.inj h).symm⟩
  · rename_i hi
    exact Or.inr (Or.inl ⟨hi, (Option.some.inj h).symm⟩)
  · rename_i pc _ hi
    obtain ⟨⟨shared, pc'⟩, hreset, rfl⟩ := Option.map_eq_some_iff.mp h
    exact Or.inr (Or.inr ⟨pc, shared, pc', hi, hreset, rfl⟩)

/-- An access of an operation is an access of the periodic thread. -/
theorem periodicStep_operation {op : Operation} {s : BikeSystem} {shared : Shared}
    {pc pc' : OperationPc} (hp : s.periodic = .operation op pc)
    (hop : operationStep op s.shared pc = some (shared, pc')) :
    s.periodicStep = some { s with shared := shared, periodic := .operation op pc' } := by
  cases pc with
  | returned value => exact absurd hop (by simp [operationStep])
  | test | readTimer | readLastTime | readSpeed | lock | readTotal | storeTotal | unlock
  | storeLastTime | store | computeSpeed | readResult => simp [periodicStep, hp, hop]

/-- An uninterrupted operation is run by the periodic thread alone. -/
theorem run_operation {op : Operation} {s : BikeSystem} {shared : Shared}
    {pc pc' : OperationPc} {n : ℕ} (hp : s.periodic = .operation op pc)
    (h : Transition.run (fun p (_ : Unit) => operationStep op p.1 p.2) (s.shared, pc)
      (List.replicate n ()) = some (shared, pc')) :
    Transition.run step s (List.replicate n .periodic) =
      some { s with shared := shared, periodic := .operation op pc' } := by
  induction n generalizing s pc with
  | zero =>
    obtain ⟨rfl, rfl⟩ := Prod.mk.inj (Option.some.inj h)
    rw [← hp]
    rfl
  | succ n ih =>
    obtain ⟨⟨m, pcm⟩, hop, hrest⟩ := Transition.run_cons_eq_some.mp h
    exact Transition.run_cons_eq_some.mpr ⟨_, periodicStep_operation hp hop, ih rfl hrest⟩

end BikeSystem

/-- The setter an event calls. -/
def Event.setter : Event → Setter
  | .gear _ gearSize => .gearSize gearSize
  | .pedal rotationTime => .rotationTime rotationTime

/-- The gear shown after an event. -/
def Event.shownGear (current : UInt8) : Event → UInt8
  | .gear currentGear _ => currentGear
  | .pedal _ => current

namespace BikeSystem

/-- Without interruption, dispatching an event is calling its setter. -/
theorem dispatch_serial {s : BikeSystem} {e : Event} {es : List Event}
    (hidle : s.periodic = .idle) (hmutex : s.shared.totalDistanceMutex = none)
    (hqueue : s.eventQueuePeriodic = e :: es) :
    ∃ n, Transition.run step s (.dispatch e :: List.replicate n .periodic) =
      some { s with
        shared := { s.shared with
          speedometer := s.shared.speedometer.set s.shared.timer e.setter }
        eventQueuePeriodic := es
        currentGear := e.shownGear s.currentGear } := by
  obtain ⟨n, hn⟩ := operation_serial (.set e.setter) s.shared hmutex
  let taken : BikeSystem :=
    { s with
      eventQueuePeriodic := es
      currentGear := e.shownGear s.currentGear
      periodic := .operation (.set e.setter) .test }
  have henter : BikeSystem.periodicStep
      { s with eventQueuePeriodic := es, periodic := e.activity } = some taken := by
    cases e <;> rfl
  have hset := run_operation (s := taken) rfl hn
  have hreturn : BikeSystem.step
      { taken with
        shared := { s.shared with
          speedometer := s.shared.speedometer.set s.shared.timer e.setter }
        periodic := .operation (.set e.setter) (.returned none) } .periodic =
      some { s with
        shared := { s.shared with
          speedometer := s.shared.speedometer.set s.shared.timer e.setter }
        eventQueuePeriodic := es
        currentGear := e.shownGear s.currentGear } := by
    simp [step, periodicStep, taken, ← hidle]
  refine ⟨n + 2, Transition.run_cons_eq_some.mpr
    ⟨_, step_dispatch.mpr ⟨hidle, es, hqueue, rfl⟩,
      Transition.run_cons_eq_some.mpr ⟨taken, henter, ?_⟩⟩⟩
  rw [List.replicate_succ', Transition.run_snoc_eq_some]
  exact ⟨_, hset, hreturn⟩

end BikeSystem

end BikeComputer.MultiTasking
