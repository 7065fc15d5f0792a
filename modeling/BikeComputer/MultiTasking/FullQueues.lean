import BikeComputer.Core.Since
import BikeComputer.MultiTasking.Agreement
import BikeComputer.MultiTasking.BoundedQueues

/-!
# Full queues

A counter that changes while its event is refused is never followed again, so the bike
system keeps up with its devices as long as every changing callback finds a place. A
refused reset does no harm: with two places, the queue that refuses it holds another one
whose execution has not begun.
-/

namespace BikeComputer.MultiTasking

open Transition Mirror

/-- The callback of a gear event is being executed. -/
def Activity.OfGear : Activity → Prop
  | .onGearEvent _ _ | .operation (.set (.gearSize _)) _ => True
  | _ => False

/-- The callback of a pedal event is being executed. -/
def Activity.OfPedal : Activity → Prop
  | .onPedalEvent _ | .operation (.set (.rotationTime _)) _ => True
  | _ => False

namespace BikeSystem

section Counters

variable {c : Capacity} {s t : BikeSystem} {tr : List Label}

/-- A changing callback finds a place for its event. -/
def HasRoom (c : Capacity) (s : BikeSystem) (a : Label) : Prop :=
  ∀ j, a = .joystick j → s.Changes j → s.eventQueuePeriodic.length < c.periodic

instance (c : Capacity) (s : BikeSystem) : DecidablePred (HasRoom c s)
  | .joystick j =>
    decidable_of_iff (s.Changes j → s.eventQueuePeriodic.length < c.periodic)
      ⟨fun h _ hj => Label.joystick.inj hj ▸ h, fun h => h j rfl⟩
  | .onReset | .dispatch _ | .displayTask | .temperatureTask _ | .periodic | .isr | .tick _ =>
    .isTrue fun _ hj => absurd hj (by simp)

/-- A callback that finds no place leaves the counters alone. -/
def KeepsRefused (c : Capacity) (s : BikeSystem) (a : Label) : Prop :=
  ∀ j, a = .joystick j → c.periodic ≤ s.eventQueuePeriodic.length →
    (s.boundedOnJoystick c j).gearDevice = s.gearDevice ∧
      (s.boundedOnJoystick c j).pedalDevice = s.pedalDevice

/-- A counter without a pending event is the value the bike system works with. -/
structure FollowsDevices (s : BikeSystem) : Prop where
  gear : s.pendingGears = [] → ¬ s.periodic.OfGear → s.currentGear = s.gearDevice.getCurrentGear
  rotationTime : s.pendingRotationTimes = [] → ¬ s.periodic.OfPedal →
    s.shared.speedometer.pedalRotationTime = s.pedalDevice.getCurrentRotationTime

/-- A guard that holds posts an event. -/
theorem onJoystick_posts_of_changes {j : Joystick.State} (h : s.Changes j) :
    (s.gearDevice.onJoystick j).2 ≠ [] ∨ (s.pedalDevice.onJoystick j).2 ≠ [] := by
  cases j with
  | upPressed =>
    left
    simp only [Changes] at h
    simp [GearDevice.onJoystick, GearDevice.onJoystickUp, GearDevice.postEvent, h]
  | downPressed =>
    left
    simp only [Changes] at h
    simp [GearDevice.onJoystick, GearDevice.onJoystickDown, GearDevice.postEvent, h]
  | leftPressed =>
    right
    simp only [Changes] at h
    simp [PedalDevice.onJoystick, PedalDevice.onJoystickLeft, PedalDevice.decreaseRotationSpeed,
      PedalDevice.postEvent, h]
  | rightPressed =>
    right
    simp only [Changes] at h
    simp [PedalDevice.onJoystick, PedalDevice.onJoystickRight, PedalDevice.increaseRotationSpeed,
      PedalDevice.postEvent, h]
  | other => exact absurd h id

/-- A changing callback changes a counter, whether or not its event is refused. -/
theorem boundedOnJoystick_changes {j : Joystick.State} (h : s.Changes j) :
    ¬ ((s.boundedOnJoystick c j).gearDevice = s.gearDevice ∧
      (s.boundedOnJoystick c j).pedalDevice = s.pedalDevice) := by
  rintro ⟨hgear, hpedal⟩
  have hgear' : (s.gearDevice.onJoystick j).1 = s.gearDevice := hgear
  have hpedal' : (s.pedalDevice.onJoystick j).1 = s.pedalDevice := hpedal
  rcases onJoystick_posts_of_changes h with hposts | hposts
  · rcases s.gearDevice.onJoystick_change j with hj | ⟨g, hj, hchange⟩
    · exact hposts (by rw [hj])
    · rw [hj] at hgear'
      rw [← hgear'] at hchange
      rcases hchange with hchange | hchange <;> exact absurd hchange (by simp)
  · rcases s.pedalDevice.onJoystick_change j with hj | ⟨d, hj, hchange⟩
    · exact hposts (by rw [hj])
    · rw [hj] at hpedal'
      rw [← hpedal'] at hchange
      rcases hchange with hchange | hchange <;>
        exact absurd hchange (by simp [kDeltaPedalRotationTime])

/-- A full queue leaves the counters alone exactly if every changing callback finds a place. -/
theorem keepsRefused_iff {a : Label} : KeepsRefused c s a ↔ HasRoom c s a := by
  constructor
  · intro h j ha hchanges
    by_contra hfull
    exact boundedOnJoystick_changes hchanges (h j ha (not_lt.mp hfull))
  · intro h j ha hfull
    have hsame := onJoystick_of_not_changes fun hchanges => hfull.not_gt (h j ha hchanges)
    simp [boundedOnJoystick, hsame]

/-- A joystick state posts at most one event. -/
theorem onJoystick_posts (s : BikeSystem) (j : Joystick.State) :
    (s.gearDevice.onJoystick j).2 ++ (s.pedalDevice.onJoystick j).2 = [] ∨
      ∃ e, (s.gearDevice.onJoystick j).2 ++ (s.pedalDevice.onJoystick j).2 = [e] := by
  rcases s.gearDevice.onJoystick_change j with hgear | ⟨g, hgear, -⟩ <;>
    rcases s.pedalDevice.onJoystick_change j with hpedal | ⟨d, hpedal, -⟩
  · simp [hgear, hpedal]
  · simp [hgear, hpedal]
  · simp [hgear, hpedal]
  · cases j <;> simp_all [GearDevice.onJoystick, PedalDevice.onJoystick]

/-- With a place for its event, a callback does what it does on an unbounded queue. -/
theorem boundedOnJoystick_eq {j : Joystick.State} (h : HasRoom c s (.joystick j)) :
    s.boundedOnJoystick c j = s.onJoystick j := by
  by_cases hchanges : s.Changes j
  · have hroom := h j rfl hchanges
    rcases s.onJoystick_posts j with hnone | ⟨e, hone⟩
    · simp [boundedOnJoystick, onJoystick, hnone]
    · simp [boundedOnJoystick, onJoystick, hone, post, hroom]
  · have hsame := onJoystick_of_not_changes hchanges
    simp [boundedOnJoystick, onJoystick, hsame]

/-- Outside the callbacks of gear events, the gear shown is the current one. -/
theorem shownGear_eq (h : ¬ s.periodic.OfGear) : s.shownGear = s.currentGear := by
  unfold shownGear
  cases hp : s.periodic with
  | onGearEvent gear gearSize =>
    rw [hp] at h
    exact absurd trivial h
  | idle | onPedalEvent | displayTask | operation => rfl

/-- Outside the callbacks of pedal events, the rotation time of the speedometer is the last
one confirmed. -/
theorem confirmed_rotationTime (h : ¬ s.periodic.OfPedal) :
    s.confirmed.rotationTime = s.shared.speedometer.pedalRotationTime := by
  unfold confirmed
  cases hp : s.periodic with
  | onPedalEvent rotationTime =>
    rw [hp] at h
    exact absurd trivial h
  | operation op pc =>
    cases op with
    | getDistance => rfl
    | set x =>
      cases x with
      | gearSize size => rfl
      | rotationTime time =>
        rw [hp] at h
        exact absurd trivial h
  | idle | onGearEvent | displayTask => rfl

/-- The agreement through the queue settles a counter that has nothing pending. -/
theorem Agreement.followsDevices (h : Agreement tr s) : FollowsDevices s := by
  obtain ⟨-, hgears, hlater, hfirst⟩ := h
  constructor
  · intro hnone hactivity
    have hpending := hgears.pending
    rw [hnone, inStep_nil, shownGear_eq hactivity] at hpending
    exact hpending
  · intro hnone hactivity
    by_cases hd : PedalDispatched tr
    · have hpending := hlater hd
      rw [hnone, inStep_nil, confirmed_rotationTime hactivity] at hpending
      exact hpending
    · obtain ⟨-, rest, hrest, -⟩ := hfirst hd
      exact absurd (hrest.symm.trans hnone) (List.cons_ne_nil _ _)

/-- A step that finds room for what it posts keeps the agreement. -/
theorem Agreement.boundedStep {a : Label} (h : Agreement tr s) (hroom : HasRoom c s a)
    (hst : s.boundedStep c a = some t) : Agreement (tr ++ [a]) t := by
  cases a with
  | joystick j =>
    refine h.step ?_
    rw [← hst]
    exact congrArg some (boundedOnJoystick_eq hroom).symm
  | onReset =>
    have haccepted := h.step (a := .onReset) rfl
    obtain rfl := Option.some.inj hst
    unfold boundedOnReset
    split
    · exact haccepted
    · exact ⟨h.stored, h.gears, haccepted.pedals.of_sameView ⟨rfl, rfl, rfl, rfl, rfl⟩⟩
  | dispatch | displayTask | temperatureTask | periodic | isr | tick => exact h.step hst

/-- In a run, a callback that finds no place always leaves the counters alone, and every
counter without a pending event is the value the bike system works with, exactly if every
changing callback finds a place. -/
theorem counters_followed_iff (c : Capacity) (elapsedTime : ℤ) (tr : List Label) :
    (Along (boundedStep c) (KeepsRefused c) (new elapsedTime) tr ∧
      Throughout (boundedStep c) FollowsDevices (new elapsedTime) tr) ↔
      Along (boundedStep c) (HasRoom c) (new elapsedTime) tr := by
  constructor
  · rintro ⟨hkeeps, -⟩
    exact hkeeps.imp fun _ _ => keepsRefused_iff.mp
  · intro hroom
    refine ⟨hroom.imp fun _ _ => keepsRefused_iff.mpr, ?_⟩
    rintro pre post m rfl hrun
    have hbefore := ((along_append hrun).mp hroom).1
    exact (hbefore.run_history (new_agreement elapsedTime)
      (fun h hroom hst => Agreement.boundedStep h hroom hst) hrun).followsDevices

/-- On a queue filled by the event of the constructor, the first gear change is lost. -/
theorem counters_not_followed :
    ¬ ∀ (c : Capacity) (elapsedTime : ℤ) (tr : List Label),
      Along (boundedStep c) (KeepsRefused c) (new elapsedTime) tr ∧
        Throughout (boundedStep c) FollowsDevices (new elapsedTime) tr := by
  intro h
  obtain ⟨-, hfollows⟩ := h ⟨1, 2, by decide⟩ 0 [.joystick .upPressed]
  have hgear := (hfollows [.joystick .upPressed] [] _ rfl rfl).gear (by decide) id
  exact absurd hgear (by decide)

end Counters

section Resets

variable {c : Capacity} {s t : BikeSystem} {a : Label}

/-- The ISR thread calls `reset` and takes its first step. -/
def BeginsReset (x : BikeSystem × Label) : Prop := x.2 = .isr ∧ x.1.isr = some .lock

/-- Some press has not yet been followed by the beginning of a reset. -/
def Unserved (tr : List (BikeSystem × Label)) : Prop :=
  Since (fun _ x => x.2 = .onReset) BeginsReset tr

/-- A call of `resetTask` is pending, or is being executed and has not begun its reset. -/
def ResetPending (s : BikeSystem) : Prop := 0 < s.eventQueueISR ∨ s.isr = some .lock

/-- What a step can do to the queue of the reset and to the execution of its event. -/
theorem boundedStep_isr (h : s.boundedStep c a = some t) :
    (a = .onReset ∧ t = s.boundedOnReset c) ∨ (a = .isr ∧ s.isrStep = some t) ∨
      (a ≠ .onReset ∧ a ≠ .isr ∧ t.eventQueueISR = s.eventQueueISR ∧ t.isr = s.isr) := by
  cases a with
  | onReset => exact Or.inl ⟨rfl, (Option.some.inj h).symm⟩
  | isr => exact Or.inr (Or.inl ⟨rfl, h⟩)
  | joystick | tick =>
    obtain rfl := Option.some.inj h
    exact Or.inr (Or.inr ⟨by simp, by simp, rfl, rfl⟩)
  | dispatch e =>
    obtain ⟨-, es, -, rfl⟩ := step_dispatch.mp h
    exact Or.inr (Or.inr ⟨by simp, by simp, rfl, rfl⟩)
  | displayTask =>
    obtain ⟨-, rfl⟩ := step_displayTask.mp h
    exact Or.inr (Or.inr ⟨by simp, by simp, rfl, rfl⟩)
  | temperatureTask temperature =>
    obtain ⟨-, rfl⟩ := step_temperatureTask.mp h
    exact Or.inr (Or.inr ⟨by simp, by simp, rfl, rfl⟩)
  | periodic =>
    refine Or.inr (Or.inr ⟨by simp, by simp, ?_⟩)
    rcases periodicStep_cases h with ⟨_, _, -, rfl⟩ | ⟨_, -, rfl⟩ | ⟨-, rfl⟩ | ⟨_, _, -, rfl⟩ |
      ⟨_, _, _, _, -, -, rfl⟩ <;> exact ⟨rfl, rfl⟩

/-- A queue of two places that refuses a reset holds another one. -/
theorem pending_of_press (hisr : 2 ≤ c.isr) : ResetPending (s.boundedOnReset c) := by
  unfold boundedOnReset
  split
  · exact Or.inl (Nat.succ_pos _)
  · rename_i hfull
    have hexecuting : (if s.isr.isSome then 1 else 0) ≤ 1 := by split <;> omega
    unfold occupied at hfull
    left
    omega

/-- Only the beginning of a reset ends what is pending. -/
theorem ResetPending.step (h : ResetPending s) (hisr : 2 ≤ c.isr)
    (ha : ¬ BeginsReset (s, a)) (hst : s.boundedStep c a = some t) : ResetPending t := by
  rcases boundedStep_isr hst with ⟨-, rfl⟩ | ⟨rfl, hst⟩ | ⟨-, -, hqueue, hisr⟩
  · exact pending_of_press hisr
  · rcases isrStep_cases hst with ⟨-, n, -, rfl⟩ | ⟨hreturned, rfl⟩ | ⟨pc, shared, pc', hpc, -, rfl⟩
    · exact Or.inr rfl
    · exact h.imp_right fun hlock => absurd (hreturned.symm.trans hlock) (by simp)
    · exact h.imp_right fun hlock => absurd ⟨rfl, hlock⟩ ha
  · unfold ResetPending
    rw [hqueue, hisr]
    exact h

/-- No reset is lost to a full queue of two or more places. In every run, a press that has
not been followed by the beginning of a reset has a reset pending; so when nothing is
pending and nothing being executed, every press has been. -/
theorem no_reset_lost (c : Capacity) (hisr : 2 ≤ c.isr) (elapsedTime : ℤ) (tr : List Label)
    (s : BikeSystem) (hrun : run (boundedStep c) (new elapsedTime) tr = some s) :
    (Unserved (trace (boundedStep c) (new elapsedTime) tr) → ResetPending s) ∧
      (s.eventQueueISR = 0 → s.isr = none →
        ¬ Unserved (trace (boundedStep c) (new elapsedTime) tr)) := by
  have hpending : Unserved (trace (boundedStep c) (new elapsedTime) tr) → ResetPending s := by
    refine run_history (I := fun tr s =>
      Unserved (trace (boundedStep c) (new elapsedTime) tr) → ResetPending s)
      (fun hn => absurd hn not_since_nil) ?_ hrun
    intro tr m a t hm ih hst hun
    rw [trace_snoc hm] at hun
    rcases since_snoc.mp hun with hpress | ⟨ha, hun⟩
    · obtain rfl : a = .onReset := hpress
      obtain rfl := Option.some.inj hst
      exact pending_of_press hisr
    · exact (ih hun).step hisr ha hst
  refine ⟨hpending, fun hqueue hidle hun => ?_⟩
  rcases hpending hun with hpositive | hlock
  · omega
  · exact absurd (hidle.symm.trans hlock) (by simp)

/-- Three presses on two places: the last one is refused while the reset of the first is
about to begin. -/
theorem no_reset_lost_refused :
    ∃ s, run (boundedStep ⟨1, 2, by decide⟩) (new 0) [.onReset, .isr, .onReset, .onReset] =
        some s ∧
      s.eventQueueISR = 1 ∧ ResetPending s := by
  refine ⟨_, rfl, rfl, ?_⟩
  refine (no_reset_lost ⟨1, 2, by decide⟩ (by decide) 0
    [.onReset, .isr, .onReset, .onReset] _ rfl).1 ?_
  exact ⟨[_, _, _], (_, .onReset), [], rfl, rfl, by simp⟩

end Resets

end BikeSystem

end BikeComputer.MultiTasking
