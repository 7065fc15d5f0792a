import BikeComputer.Core.Since
import BikeComputer.Core.Trace
import BikeComputer.MultiTasking.BoundedQueues

/-!
# The cached speed of the multi-tasking bike system

One thread computes the speed of new settings, the other one clears it. Whoever was the last
has decided what the speedometer returns: the speed of its settings, or zero. Only between
the store of a setting and the computation of its speed is the question open.
-/

namespace BikeComputer.MultiTasking

open Transition (Since since_snoc)

/-- The speed is the one of the settings if it has been computed, and zero otherwise. -/
structure Shared.Cached (computed : Prop) (s : Shared) : Prop where
  of_computed : computed → s.speedometer.currentSpeed = s.speedometer.settings.speed
  of_not_computed : ¬ computed → s.speedometer.currentSpeed = 0

/-- What an access leaves alone that neither stores a setting nor computes or clears the
speed. -/
structure Shared.SameSpeed (s t : Shared) : Prop where
  currentSpeed : t.speedometer.currentSpeed = s.speedometer.currentSpeed
  settings : t.speedometer.settings = s.speedometer.settings

/-- What the speed belongs to does not depend on anything else. -/
theorem Shared.Cached.congr {computed computed' : Prop} {s t : Shared} (h : s.Cached computed)
    (hsame : s.SameSpeed t) (hcomputed : computed' ↔ computed) : t.Cached computed' where
  of_computed hc := by
    rw [hsame.currentSpeed, hsame.settings]
    exact h.of_computed (hcomputed.mp hc)
  of_not_computed hc := by
    rw [hsame.currentSpeed]
    exact h.of_not_computed fun hc' => hc (hcomputed.mpr hc')

/-- Only a setter that stores what it sets is about to compute the speed. -/
theorem operationStep_sameSpeed {op : Operation} {s t : Shared} {pc pc' : OperationPc}
    (hpc : pc ≠ .computeSpeed) (hpc' : pc' ≠ .computeSpeed)
    (h : operationStep op s pc = some (t, pc')) : s.SameSpeed t := by
  cases pc with
  | computeSpeed => exact absurd rfl hpc
  | test =>
    cases op with
    | getDistance => exact absurd h (by simp [operationStep])
    | set x =>
      obtain ⟨rfl, rfl⟩ := Prod.mk.inj (Option.some.inj h)
      exact ⟨rfl, rfl⟩
  | lock currentTime distance =>
    obtain ⟨q, hlock, hq⟩ := Option.map_eq_some_iff.mp h
    obtain ⟨rfl, rfl⟩ := Prod.mk.inj hq
    obtain ⟨-, rfl⟩ := Shared.lock_eq_some.mp hlock
    exact ⟨rfl, rfl⟩
  | store =>
    cases op with
    | getDistance => exact absurd h (by simp [operationStep])
    | set x =>
      obtain ⟨-, rfl⟩ := Prod.mk.inj (Option.some.inj h)
      exact absurd rfl hpc'
  | readTimer | readLastTime | readSpeed | readTotal | storeTotal | unlock | storeLastTime
  | readResult =>
    obtain ⟨rfl, rfl⟩ := Prod.mk.inj (Option.some.inj h)
    exact ⟨rfl, rfl⟩
  | returned => exact absurd h (by simp [operationStep])

/-- All accesses of `reset` but one leave the speed alone. -/
theorem resetStep_sameSpeed {s t : Shared} {pc pc' : ResetPc} (hpc : pc ≠ .clearSpeed)
    (h : resetStep s pc = some (t, pc')) : s.SameSpeed t := by
  cases pc with
  | clearSpeed => exact absurd rfl hpc
  | lock =>
    obtain ⟨q, hlock, hq⟩ := Option.map_eq_some_iff.mp h
    obtain ⟨rfl, rfl⟩ := Prod.mk.inj hq
    obtain ⟨-, rfl⟩ := Shared.lock_eq_some.mp hlock
    exact ⟨rfl, rfl⟩
  | clearDistance | unlock | readTimer | storeLastTime =>
    obtain ⟨rfl, rfl⟩ := Prod.mk.inj (Option.some.inj h)
    exact ⟨rfl, rfl⟩
  | returned => exact absurd h (by simp [resetStep])

namespace BikeSystem

/-- The periodic thread computes the speed of the settings. -/
def ComputesSpeed (x : BikeSystem × Label) : Prop :=
  x.2 = .periodic ∧ ∃ op, x.1.periodic = .operation op .computeSpeed

/-- The ISR thread clears the speed. -/
def ClearsSpeed (x : BikeSystem × Label) : Prop := x.2 = .isr ∧ x.1.isr = some .clearSpeed

/-- The speed has been computed and not been cleared since. -/
def SpeedComputed (tr : List (BikeSystem × Label)) : Prop :=
  Since (fun _ x => ComputesSpeed x) ClearsSpeed tr

variable {c : Capacity} {tr : List (BikeSystem × Label)} {s t : BikeSystem} {a : Label}

/-- Every other step leaves the question as it is. -/
theorem speedComputed_snoc (hcomputes : ¬ ComputesSpeed (s, a)) (hclears : ¬ ClearsSpeed (s, a)) :
    SpeedComputed (tr ++ [(s, a)]) ↔ SpeedComputed tr := by
  rw [SpeedComputed, since_snoc, or_iff_right hcomputes, and_iff_right hclears]
  rfl

/-- Unless the speed is about to be computed, the history tells which one it is. -/
def Cached (tr : List (BikeSystem × Label)) (s : BikeSystem) : Prop :=
  (∀ op, s.periodic ≠ .operation op .computeSpeed) → s.shared.Cached (SpeedComputed tr)

/-- The speed is zero when the system is constructed. -/
theorem new_cached (elapsedTime : ℤ) : Cached [] (new elapsedTime) := fun _ =>
  ⟨fun h => absurd h Transition.not_since_nil, fun _ => rfl⟩

/-- A step of neither thread leaves the speed alone. -/
theorem Cached.of_other (h : Cached tr s) (ha : a ≠ .periodic ∧ a ≠ .isr)
    (hnow : ∀ op, s.periodic ≠ .operation op .computeSpeed) (hsame : s.shared.SameSpeed t.shared) :
    Cached (tr ++ [(s, a)]) t := fun _ =>
  (h hnow).congr hsame
    (speedComputed_snoc (fun hx => ha.1 hx.1) (fun hx => ha.2 hx.1))

/-- A step of the periodic thread computes the speed, or leaves it alone. -/
theorem Cached.periodicStep (h : Cached tr s) (hst : s.periodicStep = some t) :
    Cached (tr ++ [(s, .periodic)]) t := by
  have hclears : ¬ ClearsSpeed (s, .periodic) := fun hx => absurd hx.1 (by simp)
  have hsilent (hnow : ∀ op, s.periodic ≠ .operation op .computeSpeed)
      (hsame : s.shared.SameSpeed t.shared) :
      t.shared.Cached (SpeedComputed (tr ++ [(s, .periodic)])) :=
    (h hnow).congr hsame
      (speedComputed_snoc (fun ⟨_, op, hx⟩ => absurd hx (hnow op)) hclears)
  rcases periodicStep_cases hst with ⟨gear, gearSize, hp, rfl⟩ | ⟨rotationTime, hp, rfl⟩ |
    ⟨hp, rfl⟩ | ⟨op, value, hp, rfl⟩ | ⟨op, pc, shared, pc', hp, hop, rfl⟩
  · exact fun _ => hsilent (by simp [hp]) ⟨rfl, rfl⟩
  · exact fun _ => hsilent (by simp [hp]) ⟨rfl, rfl⟩
  · exact fun _ => hsilent (by simp [hp]) ⟨rfl, rfl⟩
  · exact fun _ => hsilent (by simp [hp]) ⟨rfl, rfl⟩
  · intro hnow
    have hpc' : pc' ≠ .computeSpeed := fun heq => hnow op (by rw [heq])
    by_cases hpc : pc = .computeSpeed
    · subst hpc
      obtain ⟨rfl, rfl⟩ := Prod.mk.inj (Option.some.inj hop)
      have hcomputed : SpeedComputed (tr ++ [(s, .periodic)]) :=
        since_snoc.mpr (Or.inl ⟨rfl, op, hp⟩)
      exact ⟨fun _ => rfl, fun hc => absurd hcomputed hc⟩
    · refine hsilent (fun op' hp' => hpc ?_) (operationStep_sameSpeed hpc hpc' hop)
      exact (Activity.operation.inj (hp.symm.trans hp')).2

/-- A step of the ISR thread clears the speed, or leaves it alone. -/
theorem Cached.isrStep (h : Cached tr s) (hst : s.isrStep = some t) :
    Cached (tr ++ [(s, .isr)]) t := by
  have hcomputes : ¬ ComputesSpeed (s, .isr) := fun hx => absurd hx.1 (by simp)
  rcases isrStep_cases hst with ⟨hisr, n, -, rfl⟩ | ⟨hisr, rfl⟩ |
    ⟨pc, shared, pc', hisr, hreset, rfl⟩
  · exact fun hnow => (h hnow).congr ⟨rfl, rfl⟩
      (speedComputed_snoc hcomputes fun hx => absurd (hisr.symm.trans hx.2) (by simp))
  · exact fun hnow => (h hnow).congr ⟨rfl, rfl⟩
      (speedComputed_snoc hcomputes fun hx => absurd (hisr.symm.trans hx.2) (by simp))
  · intro hnow
    by_cases hpc : pc = .clearSpeed
    · subst hpc
      obtain ⟨rfl, rfl⟩ := Prod.mk.inj (Option.some.inj hreset)
      have hcleared : ¬ SpeedComputed (tr ++ [(s, .isr)]) := by
        rw [SpeedComputed, since_snoc, or_iff_right hcomputes]
        exact fun hx => hx.1 ⟨rfl, hisr⟩
      exact ⟨fun hc => absurd hc hcleared, fun _ => rfl⟩
    · refine (h hnow).congr (resetStep_sameSpeed hpc hreset) (speedComputed_snoc hcomputes ?_)
      exact fun hx => hpc (Option.some.inj (hisr.symm.trans hx.2))

/-- Every step keeps to the history. -/
theorem Cached.step (h : Cached tr s) (hst : s.step a = some t) : Cached (tr ++ [(s, a)]) t := by
  cases a with
  | periodic => exact h.periodicStep hst
  | isr => exact h.isrStep hst
  | joystick | onReset | tick =>
    obtain rfl := Option.some.inj hst
    exact fun hnow => h.of_other (by simp) hnow ⟨rfl, rfl⟩ hnow
  | dispatch e =>
    obtain ⟨hp, es, -, rfl⟩ := step_dispatch.mp hst
    exact h.of_other (by simp) (by simp [hp]) ⟨rfl, rfl⟩
  | displayTask =>
    obtain ⟨hp, rfl⟩ := step_displayTask.mp hst
    exact h.of_other (by simp) (by simp [hp]) ⟨rfl, rfl⟩
  | temperatureTask temperature =>
    obtain ⟨hp, rfl⟩ := step_temperatureTask.mp hst
    exact h.of_other (by simp) (by simp [hp]) ⟨rfl, rfl⟩

/-- Refused posts have nothing to do with the speed. -/
theorem Cached.boundedStep (h : Cached tr s) (hst : s.boundedStep c a = some t) :
    Cached (tr ++ [(s, a)]) t := by
  cases a with
  | joystick j =>
    obtain rfl := Option.some.inj hst
    exact fun hnow => h.of_other (by simp) hnow ⟨rfl, rfl⟩ hnow
  | onReset =>
    have hsame : t.shared = s.shared ∧ t.periodic = s.periodic := by
      obtain rfl := Option.some.inj hst
      unfold boundedOnReset
      split <;> exact ⟨rfl, rfl⟩
    intro hnow
    rw [hsame.2] at hnow
    exact (h hnow).congr ⟨by rw [hsame.1], by rw [hsame.1]⟩
      (speedComputed_snoc (fun hx => absurd hx.1 (by simp)) fun hx => absurd hx.1 (by simp))
  | dispatch | displayTask | temperatureTask | periodic | isr | tick => exact h.step hst

end BikeSystem

end BikeComputer.MultiTasking
