import BikeComputer.MultiTasking.BikeSystem
import BikeComputer.Core.Trace

/-!
# The bike system with bounded queues

Both event queues have a fixed number of places, and a post that finds none is refused.
Nobody looks at the result of a post: a device has changed its counter before it posts,
and the button handler does nothing else. A pending event of the periodic queue takes
one place; in the queue of the reset the event being executed keeps its place as well.
A place of the periodic queue is one for an event that waits: the event that is executed
and the periodic callbacks have places of their own. The schedule counts all of them
together, and an event that finds room there finds room here.
-/

namespace BikeComputer.MultiTasking

/-- The places of the two queues, without those the events of the periodic tasks keep.
The event of the constructor finds one. -/
structure Capacity where
  periodic : ℕ
  isr : ℕ
  periodic_pos : 0 < periodic

namespace BikeSystem

/-- Post an event to a queue with `n` places. -/
def post (n : ℕ) (queue : List Event) (event : Event) : List Event :=
  if queue.length < n then queue ++ [event] else queue

/-- The callbacks registered for a joystick state, each post meeting a bounded queue. -/
def boundedOnJoystick (c : Capacity) (s : BikeSystem) (state : Joystick.State) : BikeSystem :=
  let (gearDevice, gearEvents) := s.gearDevice.onJoystick state
  let (pedalDevice, pedalEvents) := s.pedalDevice.onJoystick state
  { s with
    gearDevice := gearDevice
    pedalDevice := pedalDevice
    eventQueuePeriodic :=
      (gearEvents ++ pedalEvents).foldl (post c.periodic) s.eventQueuePeriodic }

/-- The events of the ISR queue that are pending or being executed. -/
def occupied (s : BikeSystem) : ℕ := s.eventQueueISR + if s.isr.isSome then 1 else 0

/-- The handler of the reset button. -/
def boundedOnReset (c : Capacity) (s : BikeSystem) : BikeSystem :=
  if s.occupied < c.isr then { s with eventQueueISR := s.eventQueueISR + 1 } else s

/-- Only the two handlers post; every other step is that of the bike system. -/
def boundedStep (c : Capacity) (s : BikeSystem) : Label → Option BikeSystem
  | .joystick state => some (s.boundedOnJoystick c state)
  | .onReset => some (s.boundedOnReset c)
  | a => s.step a

/-- The guard of the callback registered for a joystick state: the counter is inside its
bounds and will be changed. -/
def Changes (s : BikeSystem) : Joystick.State → Prop
  | .upPressed => s.gearDevice.currentGear < kMaxGear
  | .downPressed => s.gearDevice.currentGear > kMinGear
  | .leftPressed => s.pedalDevice.currentStep < kNbSteps
  | .rightPressed => s.pedalDevice.currentStep > 0
  | .other => False

instance (s : BikeSystem) : DecidablePred s.Changes
  | .upPressed => inferInstanceAs (Decidable (s.gearDevice.currentGear < kMaxGear))
  | .downPressed => inferInstanceAs (Decidable (s.gearDevice.currentGear > kMinGear))
  | .leftPressed => inferInstanceAs (Decidable (s.pedalDevice.currentStep < kNbSteps))
  | .rightPressed => inferInstanceAs (Decidable (s.pedalDevice.currentStep > 0))
  | .other => inferInstanceAs (Decidable False)

/-- A guard that fails leaves both devices alone and posts nothing. -/
theorem onJoystick_of_not_changes {s : BikeSystem} {j : Joystick.State} (h : ¬ s.Changes j) :
    s.gearDevice.onJoystick j = (s.gearDevice, []) ∧
      s.pedalDevice.onJoystick j = (s.pedalDevice, []) := by
  cases j with
  | upPressed => exact ⟨if_neg h, rfl⟩
  | downPressed => exact ⟨if_neg h, rfl⟩
  | leftPressed => exact ⟨rfl, if_neg h⟩
  | rightPressed => exact ⟨rfl, if_neg h⟩
  | other => exact ⟨rfl, rfl⟩

end BikeSystem

end BikeComputer.MultiTasking
