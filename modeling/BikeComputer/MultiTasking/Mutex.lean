import BikeComputer.Core.Mutex
import BikeComputer.Core.Trace
import BikeComputer.MultiTasking.BikeSystem
import BikeComputer.MultiTasking.ConcurrentReset

/-!
# The mutex of the total distance

In every run of the whole system, with any number of operations and resets, the two threads
are never in their critical sections together, and the total is what the additions since
it was last cleared have added up to: none of them is lost.
-/

namespace BikeComputer.MultiTasking

open Transition (run trace)

/-- An access of `reset` takes, keeps or frees the mutex. -/
theorem resetStep_access {s t : Shared} {pc pc' : ResetPc} (h : resetStep s pc = some (t, pc')) :
    Mutex.Access .isr s.totalDistanceMutex pc.Inside t.totalDistanceMutex pc'.Inside := by
  cases pc with
  | lock =>
    obtain ⟨q, hlock, hq⟩ := Option.map_eq_some_iff.mp h
    obtain ⟨rfl, rfl⟩ := Prod.mk.inj hq
    obtain ⟨hfree, rfl⟩ := Shared.lock_eq_some.mp hlock
    rw [hfree]
    exact .locks id trivial
  | clearDistance | clearSpeed =>
    obtain ⟨rfl, rfl⟩ := Prod.mk.inj (Option.some.inj h)
    exact .stays Iff.rfl
  | unlock =>
    obtain ⟨rfl, rfl⟩ := Prod.mk.inj (Option.some.inj h)
    exact .unlocks trivial id
  | readTimer | storeLastTime =>
    obtain ⟨rfl, rfl⟩ := Prod.mk.inj (Option.some.inj h)
    exact .stays Iff.rfl
  | returned => exact absurd h (by simp [resetStep])

/-- An access of an operation takes, keeps or frees the mutex. -/
theorem operationStep_access {op : Operation} {s t : Shared} {pc pc' : OperationPc}
    (h : operationStep op s pc = some (t, pc')) :
    Mutex.Access .periodic s.totalDistanceMutex pc.Inside t.totalDistanceMutex pc'.Inside := by
  cases pc with
  | lock currentTime distance =>
    obtain ⟨q, hlock, hq⟩ := Option.map_eq_some_iff.mp h
    obtain ⟨rfl, rfl⟩ := Prod.mk.inj hq
    obtain ⟨hfree, rfl⟩ := Shared.lock_eq_some.mp hlock
    rw [hfree]
    exact .locks id trivial
  | unlock =>
    obtain ⟨rfl, rfl⟩ := Prod.mk.inj (Option.some.inj h)
    exact .unlocks trivial id
  | test =>
    cases op with
    | getDistance => exact absurd h (by simp [operationStep])
    | set x =>
      obtain ⟨rfl, rfl⟩ := Prod.mk.inj (Option.some.inj h)
      refine .stays ?_
      split <;> exact Iff.rfl
  | store =>
    cases op with
    | getDistance => exact absurd h (by simp [operationStep])
    | set x =>
      obtain ⟨rfl, rfl⟩ := Prod.mk.inj (Option.some.inj h)
      exact .stays Iff.rfl
  | storeLastTime =>
    obtain ⟨rfl, rfl⟩ := Prod.mk.inj (Option.some.inj h)
    cases op <;> exact .stays Iff.rfl
  | readTotal | storeTotal | readTimer | readLastTime | readSpeed | computeSpeed | readResult =>
    obtain ⟨rfl, rfl⟩ := Prod.mk.inj (Option.some.inj h)
    exact .stays Iff.rfl
  | returned => exact absurd h (by simp [operationStep])

/-- What is done to the total distance. -/
inductive Update where
  | add (distance : ℚ)
  | clear
  deriving DecidableEq, Repr

/-- The total after an update. -/
def Update.apply (total : ℚ) : Update → ℚ
  | .add distance => total + distance
  | .clear => 0

/-- The update an access of `reset` makes. -/
def ResetPc.updates : ResetPc → List Update
  | .clearDistance => [.clear]
  | _ => []

/-- The update an access of an operation makes. -/
def OperationPc.updates : OperationPc → List Update
  | .storeTotal _ distance _ => [.add distance]
  | _ => []

/-- An access of `reset` changes the total by its update. -/
theorem resetStep_updates {s t : Shared} {pc pc' : ResetPc} (h : resetStep s pc = some (t, pc')) :
    t.speedometer.totalDistance = pc.updates.foldl Update.apply s.speedometer.totalDistance := by
  cases pc with
  | lock =>
    obtain ⟨q, hlock, hq⟩ := Option.map_eq_some_iff.mp h
    obtain ⟨rfl, rfl⟩ := Prod.mk.inj hq
    obtain ⟨-, rfl⟩ := Shared.lock_eq_some.mp hlock
    rfl
  | clearDistance | clearSpeed | unlock | readTimer | storeLastTime =>
    obtain ⟨rfl, rfl⟩ := Prod.mk.inj (Option.some.inj h)
    rfl
  | returned => exact absurd h (by simp [resetStep])

/-- The total an operation has read inside its critical section. -/
def OperationPc.total? : OperationPc → Option ℚ
  | .storeTotal _ _ total => some total
  | _ => none

/-- If the total it has read is still current, an access of an operation changes the total
by its update, and what it has read next is current. -/
theorem operationStep_updates {op : Operation} {s t : Shared} {pc pc' : OperationPc}
    (hcurrent : ∀ total, pc.total? = some total → total = s.speedometer.totalDistance)
    (h : operationStep op s pc = some (t, pc')) :
    t.speedometer.totalDistance = pc.updates.foldl Update.apply s.speedometer.totalDistance ∧
      ∀ total, pc'.total? = some total → total = t.speedometer.totalDistance := by
  cases pc with
  | lock currentTime distance =>
    obtain ⟨q, hlock, hq⟩ := Option.map_eq_some_iff.mp h
    obtain ⟨rfl, rfl⟩ := Prod.mk.inj hq
    obtain ⟨-, rfl⟩ := Shared.lock_eq_some.mp hlock
    exact ⟨rfl, by simp [OperationPc.total?]⟩
  | readTotal =>
    obtain ⟨rfl, rfl⟩ := Prod.mk.inj (Option.some.inj h)
    exact ⟨rfl, fun total htotal => (Option.some.inj htotal).symm⟩
  | storeTotal currentTime distance total =>
    obtain ⟨rfl, rfl⟩ := Prod.mk.inj (Option.some.inj h)
    exact ⟨congrArg (· + distance) (hcurrent total rfl), by simp [OperationPc.total?]⟩
  | test =>
    cases op with
    | getDistance => exact absurd h (by simp [operationStep])
    | set x =>
      obtain ⟨rfl, rfl⟩ := Prod.mk.inj (Option.some.inj h)
      refine ⟨rfl, fun total htotal => ?_⟩
      split at htotal <;> simp [OperationPc.total?] at htotal
  | store =>
    cases op with
    | getDistance => exact absurd h (by simp [operationStep])
    | set x =>
      obtain ⟨rfl, rfl⟩ := Prod.mk.inj (Option.some.inj h)
      exact ⟨x.assign_totalDistance _, by simp [OperationPc.total?]⟩
  | storeLastTime =>
    obtain ⟨rfl, rfl⟩ := Prod.mk.inj (Option.some.inj h)
    refine ⟨rfl, ?_⟩
    cases op <;> simp [OperationPc.total?, Operation.settled]
  | unlock | readTimer | readLastTime | readSpeed | computeSpeed | readResult =>
    obtain ⟨rfl, rfl⟩ := Prod.mk.inj (Option.some.inj h)
    exact ⟨rfl, by simp [OperationPc.total?]⟩
  | returned => exact absurd h (by simp [operationStep])

/-- A clearing of the total is made inside the critical section. -/
theorem ResetPc.updates_of_not_inside {pc : ResetPc} (h : ¬ pc.Inside) : pc.updates = [] := by
  cases pc with
  | clearDistance => exact absurd trivial h
  | lock | clearSpeed | unlock | readTimer | storeLastTime | returned => rfl

/-- The total is read inside the critical section only. -/
theorem OperationPc.inside_of_total? {pc : OperationPc} {total : ℚ}
    (h : pc.total? = some total) : pc.Inside := by
  cases pc with
  | storeTotal => trivial
  | test | readTimer | readLastTime | readSpeed | lock | readTotal | unlock | storeLastTime
  | store | computeSpeed | readResult | returned => exact absurd h (by simp [total?])

namespace BikeSystem

/-- The thread is inside its critical section. -/
def Inside (s : BikeSystem) : Thread → Prop
  | .isr => ∃ pc, s.isr = some pc ∧ pc.Inside
  | .periodic => ∃ op pc, s.periodic = .operation op pc ∧ pc.Inside

/-- The updates a step makes. -/
def updates (s : BikeSystem) : Label → List Update
  | .isr => s.isr.elim [] ResetPc.updates
  | .periodic =>
    match s.periodic with
    | .operation _ pc => pc.updates
    | _ => []
  | _ => []

/-- The thread inside its critical section holds the mutex, and no other thread changes
the total between the read and the store of an addition. -/
structure Guarded (s : BikeSystem) : Prop where
  held : Mutex.Held s.shared.totalDistanceMutex s.Inside
  current : ∀ op pc total, s.periodic = .operation op pc → pc.total? = some total →
    total = s.shared.speedometer.totalDistance

/-- The mutex is free at the construction. -/
theorem new_guarded (elapsedTime : ℤ) : Guarded (new elapsedTime) := by
  refine ⟨fun i => iff_of_false (by simp [new]) ?_, fun op pc total hp => ?_⟩
  · cases i <;> simp [Inside, new]
  · exact absurd hp (by simp [new])

/-- The place of the ISR thread is that of its reset. -/
theorem inside_isr {s : BikeSystem} {pc : ResetPc} (h : s.isr = some pc) :
    s.Inside .isr ↔ pc.Inside := by
  simp [Inside, h]

/-- The place of the periodic thread is that of its operation. -/
theorem inside_periodic {s : BikeSystem} {op : Operation} {pc : OperationPc}
    (h : s.periodic = .operation op pc) : s.Inside .periodic ↔ pc.Inside := by
  simp [Inside, h]

/-- A step of the ISR thread changes the total by its updates, and only while no addition
is under way. -/
theorem Guarded.isrStep {s t : BikeSystem} (h : Guarded s) (hst : s.isrStep = some t) :
    Guarded t ∧ t.shared.speedometer.totalDistance =
      (s.updates .isr).foldl Update.apply s.shared.speedometer.totalDistance := by
  have hother : t.periodic = s.periodic → ∀ j, j ≠ Thread.isr → (t.Inside j ↔ s.Inside j) := by
    intro hp j hj
    cases j with
    | isr => exact absurd rfl hj
    | periodic => simp only [Inside, hp]
  rcases isrStep_cases hst with ⟨hisr, n, -, rfl⟩ | ⟨hisr, rfl⟩ |
    ⟨pc, shared, pc', hisr, hreset, rfl⟩
  · refine ⟨⟨h.held.step (hother rfl) (.stays ?_), h.current⟩, by simp [updates, hisr]⟩
    simp [Inside, hisr, ResetPc.Inside]
  · refine ⟨⟨h.held.step (hother rfl) (.stays ?_), h.current⟩, by
      simp [updates, hisr, ResetPc.updates]⟩
    simp [Inside, hisr, ResetPc.Inside]
  · have htotal := resetStep_updates hreset
    refine ⟨⟨h.held.step (hother rfl) ?_, ?_⟩, by simpa [updates, hisr] using htotal⟩
    · rw [propext (inside_isr hisr), propext (@inside_isr _ pc' rfl)]
      exact resetStep_access hreset
    · intro op pcp total hp hread
      -- the other thread is inside, so this access is not
      have hinside : s.Inside .periodic := (inside_periodic hp).mpr
        (OperationPc.inside_of_total? hread)
      have hout : ¬ pc.Inside := by
        intro hin
        have hsame := h.held.exclusive ((inside_isr hisr).mpr hin) hinside
        exact absurd hsame (by decide)
      rw [htotal, ResetPc.updates_of_not_inside hout]
      exact h.current op pcp total hp hread

/-- A step of the periodic thread changes the total by its updates. -/
theorem Guarded.periodicStep {s t : BikeSystem} (h : Guarded s) (hst : s.periodicStep = some t) :
    Guarded t ∧ t.shared.speedometer.totalDistance =
      (s.updates .periodic).foldl Update.apply s.shared.speedometer.totalDistance := by
  have hother : t.isr = s.isr → ∀ j, j ≠ Thread.periodic → (t.Inside j ↔ s.Inside j) := by
    intro hp j hj
    cases j with
    | isr => simp only [Inside, hp]
    | periodic => exact absurd rfl hj
  rcases periodicStep_cases hst with ⟨gear, gearSize, hp, rfl⟩ | ⟨rotationTime, hp, rfl⟩ |
    ⟨hp, rfl⟩ | ⟨op, value, hp, rfl⟩ | ⟨op, pc, shared, pc', hp, hop, rfl⟩
  · refine ⟨⟨h.held.step (hother rfl) (.stays ?_), ?_⟩, by simp [updates, hp]⟩
    · simp [Inside, hp, OperationPc.Inside]
    · rintro op pc total ⟨⟩ hread
      exact absurd hread (by simp [OperationPc.total?])
  · refine ⟨⟨h.held.step (hother rfl) (.stays ?_), ?_⟩, by simp [updates, hp]⟩
    · simp [Inside, hp, OperationPc.Inside]
    · rintro op pc total ⟨⟩ hread
      exact absurd hread (by simp [OperationPc.total?])
  · refine ⟨⟨h.held.step (hother rfl) (.stays ?_), ?_⟩, by simp [updates, hp]⟩
    · simp [Inside, hp, OperationPc.Inside]
    · rintro op pc total ⟨⟩ hread
      exact absurd hread (by simp [OperationPc.total?])
  · refine ⟨⟨h.held.step (hother rfl) (.stays ?_), ?_⟩, by
      simp [updates, hp, OperationPc.updates]⟩
    · simp [Inside, hp, OperationPc.Inside]
    · rintro op pc total ⟨⟩
  · obtain ⟨htotal, hread⟩ := operationStep_updates (fun total => h.current op pc total hp) hop
    refine ⟨⟨h.held.step (hother rfl) ?_, ?_⟩, by simpa [updates, hp] using htotal⟩
    · rw [propext (inside_periodic hp), propext (@inside_periodic _ _ pc' rfl)]
      exact operationStep_access hop
    · rintro op' pcp total ⟨⟩
      exact hread total

/-- Every step keeps the critical sections apart and changes the total by its updates. -/
theorem Guarded.step {s t : BikeSystem} {a : Label} (h : Guarded s) (hst : s.step a = some t) :
    Guarded t ∧ t.shared.speedometer.totalDistance =
      (s.updates a).foldl Update.apply s.shared.speedometer.totalDistance := by
  cases a with
  | isr => exact h.isrStep hst
  | periodic => exact h.periodicStep hst
  | joystick | onReset | tick =>
    obtain rfl := Option.some.inj hst
    exact ⟨⟨h.held, h.current⟩, rfl⟩
  | dispatch e =>
    obtain ⟨hp, es, -, rfl⟩ := step_dispatch.mp hst
    refine ⟨⟨h.held.step (i := .periodic) ?_ (.stays ?_), ?_⟩, rfl⟩
    · intro j hj
      cases j with
      | isr => exact Iff.rfl
      | periodic => exact absurd rfl hj
    · cases e <;> simp [Inside, hp, Event.activity]
    · cases e <;> rintro op pc total ⟨⟩
  | displayTask =>
    obtain ⟨hp, rfl⟩ := step_displayTask.mp hst
    refine ⟨⟨h.held.step (i := .periodic) ?_ (.stays ?_), ?_⟩, rfl⟩
    · intro j hj
      cases j with
      | isr => exact Iff.rfl
      | periodic => exact absurd rfl hj
    · simp [Inside, hp]
    · rintro op pc total ⟨⟩
  | temperatureTask temperature =>
    obtain ⟨-, rfl⟩ := step_temperatureTask.mp hst
    exact ⟨⟨h.held, h.current⟩, rfl⟩

/-- In every run, the two threads are never in their critical sections together, the mutex
is held by the thread that is in its section, and the total distance is what the updates
made so far have added up to since it was last cleared. -/
theorem critical_sections_and_total (elapsedTime : ℤ) (tr : List Label) (s : BikeSystem)
    (hrun : run step (new elapsedTime) tr = some s) :
    (∀ i j, s.Inside i → s.Inside j → i = j) ∧
      (∀ i, s.shared.totalDistanceMutex = some i ↔ s.Inside i) ∧
      s.shared.speedometer.totalDistance =
        ((trace step (new elapsedTime) tr).flatMap fun x => x.1.updates x.2).foldl
          Update.apply 0 := by
  have hguarded : Guarded s ∧ s.shared.speedometer.totalDistance =
      ((trace step (new elapsedTime) tr).flatMap fun x => x.1.updates x.2).foldl
        Update.apply 0 := by
    refine Transition.run_history (I := fun tr s => Guarded s ∧
      s.shared.speedometer.totalDistance =
        ((trace step (new elapsedTime) tr).flatMap fun x => x.1.updates x.2).foldl
          Update.apply 0) ⟨new_guarded elapsedTime, rfl⟩ ?_ hrun
    rintro tr m a t hm ⟨hg, htotal⟩ hst
    obtain ⟨hg', htotal'⟩ := hg.step hst
    refine ⟨hg', ?_⟩
    rw [Transition.trace_snoc hm, List.flatMap_append, List.foldl_append, ← htotal,
      List.flatMap_singleton]
    exact htotal'
  exact ⟨fun i j => hguarded.1.held.exclusive, hguarded.1.held, hguarded.2⟩

/-- Two executions of the display task at 28 km/h, 3.6 s apart. A reset runs while the second
one has computed its distance and has not yet taken the mutex. -/
def displayTwice : List Label := List.flatten [
  .dispatch (.pedal kInitialPedalRotationTime) :: List.replicate 3 .periodic,
  .joystick .upPressed :: .dispatch (.gear 2 18) :: List.replicate 13 .periodic,
  .tick 3600000 :: .displayTask :: List.replicate 11 .periodic,
  .tick 3600000 :: .displayTask :: List.replicate 4 .periodic,
  .onReset :: List.replicate 5 .isr, List.replicate 3 .periodic]

/-- The second distance is added to the cleared total. -/
theorem critical_sections_and_total_during_reset :
    ∃ s, run step (new 0) displayTwice = some s ∧
      ((trace step (new 0) displayTwice).flatMap fun x => x.1.updates x.2) =
        [.add 0, .add (7 / 250), .clear, .add (7 / 250)] ∧
      s.shared.totalDistanceMutex = some .periodic ∧ ¬ s.Inside .isr ∧
      s.shared.speedometer.totalDistance = 7 / 250 := by
  obtain ⟨s, hrun, hholder⟩ := Option.map_eq_some_iff.mp (by decide +kernel :
    (run step (new 0) displayTwice).map (fun s => s.shared.totalDistanceMutex) =
      some (some .periodic))
  obtain ⟨-, hheld, htotal⟩ := critical_sections_and_total 0 displayTwice s hrun
  have hupdates : ((trace step (new 0) displayTwice).flatMap fun x => x.1.updates x.2) =
      [.add 0, .add (7 / 250), .clear, .add (7 / 250)] := by
    decide +kernel
  refine ⟨s, hrun, hupdates, hholder, fun hi => ?_, ?_⟩
  · exact absurd (hholder.symm.trans ((hheld .isr).mpr hi)) (by decide)
  · rw [htotal, hupdates]
    decide +kernel

end BikeSystem

end BikeComputer.MultiTasking
