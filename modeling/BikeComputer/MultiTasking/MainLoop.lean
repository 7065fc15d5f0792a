import BikeComputer.Core.Stopping
import BikeComputer.MultiTasking.BikeSystem

/-!
# The main loop of the multi-tasking bike system

`start` ends in `dispatch_forever` of the periodic queue, which `stop` breaks: from then
on the thread finishes the callback it runs and begins no other one. The thread of the
reset events is not stopped.
-/

namespace BikeComputer.MultiTasking

/-- The label begins an execution of the periodic queue. -/
def BikeSystem.Label.begins : BikeSystem.Label → Bool
  | .dispatch _ | .displayTask | .temperatureTask _ => true
  | _ => false

/-- The system and the flag of a broken queue. -/
structure MainLoop where
  system : BikeSystem
  stopFlag : Bool := false
  /-- `break_dispatch` has been called on the periodic queue. -/
  broken : Bool := false

namespace MainLoop

/-- What can happen to the bike system, and the call of `stop` by another thread. -/
inductive Label where
  | system (label : BikeSystem.Label)
  | stop

/-- A broken queue begins no callback; its thread finishes the one it runs and returns. -/
def step (s : MainLoop) : Label → Option MainLoop
  | .system label =>
    if s.broken && label.begins then none
    else (s.system.step label).map fun system => { s with system := system }
  | .stop => some { s with stopFlag := true, broken := true }

/-- A broken loop begins no callback any more. -/
theorem step_system {s t : MainLoop} {label : BikeSystem.Label} :
    s.step (.system label) = some t ↔
      (s.broken = true → label.begins = false) ∧
        ∃ system, s.system.step label = some system ∧ t = { s with system := system } := by
  simp only [step, Option.ite_none_left_eq_some, Option.map_eq_some_iff, Bool.and_eq_true,
    not_and, Bool.not_eq_true, @eq_comm _ t]

/-- What happens to the bike system. -/
def Label.system? : Label → Option BikeSystem.Label
  | .system label => some label
  | .stop => none

/-- A run of the loop is a run of the bike system. -/
theorem run_system {s t : MainLoop} {labels : List Label}
    (h : Transition.run step s labels = some t) :
    Transition.run BikeSystem.step s.system (labels.filterMap Label.system?) =
      some t.system := by
  refine Transition.run_filterMap ?_ h
  intro s label t ht
  cases label with
  | system label =>
    obtain ⟨-, system, hsystem, rfl⟩ := step_system.mp ht
    exact Transition.run_cons_eq_some.mpr ⟨system, hsystem, rfl⟩
  | stop =>
    obtain rfl := Option.some.inj ht
    rfl

/-- The loop in `start`. -/
def loop : Transition.Loop where
  State := MainLoop
  Label := Label
  step := step
  Entered s := s.broken = false
  starts
    | .system label => label.begins
    | .stop => false
  stop := .stop

/-- Nothing begins once the queue is broken. -/
def rank : loop.Rank 0 where
  Stopped s := s.broken = true
  rank _ := 0
  of_stop := by
    intro s t h
    obtain rfl := Option.some.inj h
    exact ⟨rfl, le_rfl⟩
  of_step := by
    intro s label t hs h
    cases label with
    | system label =>
      obtain ⟨hbegins, system, -, rfl⟩ := step_system.mp h
      exact ⟨hs, by simp [loop, hbegins hs]⟩
    | stop =>
      obtain rfl := Option.some.inj h
      exact ⟨rfl, by simp [loop]⟩

end MainLoop

end BikeComputer.MultiTasking
