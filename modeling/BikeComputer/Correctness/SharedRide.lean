import BikeComputer.Common.Accuracy
import BikeComputer.Core.Trace
import BikeComputer.Correctness.Ranges
import BikeComputer.MultiTasking.BikeSystem

/-!
# The shared speedometer as a ride

As long as neither thread goes on while the other one is in the middle of a call, the
speedometer they share is one on which the completed calls have been made one after the
other, each at the timer reading it has taken. The invariant says for each access what
the call in progress has done so far. What holds of every ride then holds of the whole
system: the travelled distance, with floats as exact rationals, is accurate.
-/

namespace BikeComputer

/-- A value in range is admissible. -/
theorem Setter.InRange.admissible {x : Setter} (h : x.InRange) : x.Admissible := by
  have hpositive := (Setter.apply_inRange h Settings.initial_inRange).positive
  cases x with
  | gearSize size => exact hpositive.1
  | rotationTime time => exact hpositive.2

/-- An assignment does not touch the last reading. -/
@[simp] theorem Setter.assign_lastTime (x : Setter) (s : Speedometer) :
    (x.assign s).lastTime = s.lastTime := by
  cases x <;> rfl

namespace MultiTasking

open Transition (run trace Along)

/-- The call of an operation has read the timer and has not yet had its effect. -/
def OperationPc.mid : OperationPc → Bool
  | .test | .readTimer | .returned _ => false
  | _ => true

/-- The call of `reset` holds the mutex or has not yet had its effect. -/
def ResetPc.mid : ResetPc → Bool
  | .lock | .returned => false
  | _ => true

/-- The thread is in the middle of a call. -/
def Activity.mid : Activity → Bool
  | .operation _ pc => pc.mid
  | _ => false

/-- The call an access completes, at the timer reading of the call. A setter that changes
nothing reads no timer and is complete after its test. -/
def OperationPc.completes (op : Operation) (s : Shared) : OperationPc → Ride
  | .test =>
    match op with
    | .set x => if x.differs s.speedometer then [] else [(s.timer, .set x)]
    | .getDistance => []
  | .computeSpeed | .readResult => [(s.speedometer.lastTime, op.call)]
  | _ => []

/-- A reset is complete when it has remembered its reading. -/
def ResetPc.completes : ResetPc → Ride
  | .storeLastTime now => [(now, .reset)]
  | _ => []

/-- The speed is read in one access. -/
def Activity.completes (s : Shared) : Activity → Ride
  | .displayTask => [(s.timer, .getCurrentSpeed)]
  | .operation op pc => pc.completes op s
  | _ => []

/-- A setter past its test changes the settings. -/
def Operation.Changes (σ : Speedometer) : Operation → Prop
  | .getDistance => True
  | .set x => x.differs σ

/-- What a call that began on the speedometer `σ` has made of it, with readings between
`clock` and `timer`. -/
def OperationPc.Progress (op : Operation) (clock timer : ℤ) (σ s : Speedometer) :
    OperationPc → Prop
  | .test | .returned _ => s = σ
  | .readTimer => s = σ ∧ op.Changes σ
  | .readLastTime currentTime =>
    s = σ ∧ op.Changes σ ∧ clock ≤ currentTime ∧ currentTime ≤ timer
  | .readSpeed currentTime elapsedTime =>
    (s = σ ∧ op.Changes σ ∧ clock ≤ currentTime ∧ currentTime ≤ timer) ∧
      elapsedTime = toMilliseconds (currentTime - σ.lastTime)
  | .lock currentTime distance | .readTotal currentTime distance =>
    (s = σ ∧ op.Changes σ ∧ clock ≤ currentTime ∧ currentTime ≤ timer) ∧
      distance = σ.increment currentTime
  | .storeTotal currentTime distance total =>
    (s = σ ∧ op.Changes σ ∧ clock ≤ currentTime ∧ currentTime ≤ timer) ∧
      distance = σ.increment currentTime ∧ total = σ.totalDistance
  | .unlock currentTime | .storeLastTime currentTime =>
    s = { σ with totalDistance := σ.totalDistance + σ.increment currentTime } ∧
      op.Changes σ ∧ clock ≤ currentTime ∧ currentTime ≤ timer
  | .store =>
    s = σ.computeDistance s.lastTime ∧ op.Changes σ ∧ clock ≤ s.lastTime ∧ s.lastTime ≤ timer
  | .computeSpeed =>
    ∃ x, op = .set x ∧ s = x.assign (σ.computeDistance s.lastTime) ∧ x.differs σ ∧
      clock ≤ s.lastTime ∧ s.lastTime ≤ timer
  | .readResult =>
    op = .getDistance ∧ s = σ.computeDistance s.lastTime ∧
      clock ≤ s.lastTime ∧ s.lastTime ≤ timer

/-- What a reset has made of the speedometer `σ` so far. -/
def ResetPc.Progress (clock timer : ℤ) (σ s : Speedometer) : ResetPc → Prop
  | .lock | .returned | .clearDistance => s = σ
  | .clearSpeed => s = { σ with totalDistance := 0 }
  | .unlock | .readTimer => s = { σ with totalDistance := 0, currentSpeed := 0 }
  | .storeLastTime now =>
    s = { σ with totalDistance := 0, currentSpeed := 0 } ∧ clock ≤ now ∧ now ≤ timer

/-- What the periodic thread has made of it so far. -/
def Activity.Progress (clock timer : ℤ) (σ s : Speedometer) : Activity → Prop
  | .operation op pc => pc.Progress op clock timer σ s
  | _ => s = σ

section Calls

variable {clock timer timer' : ℤ} {σ s : Speedometer}

/-- An access of an operation advances its call, and the last one completes it. -/
theorem operationStep_progress {op : Operation} {s t : Shared} {pc pc' : OperationPc}
    (hclock : clock ≤ s.timer) (hop : op.call.Admissible)
    (h : pc.Progress op clock s.timer σ s.speedometer)
    (hst : operationStep op s pc = some (t, pc')) :
    (pc.completes op s).Valid clock ∧ (pc.completes op s).clock clock ≤ t.timer ∧
      pc'.Progress op ((pc.completes op s).clock clock) t.timer (σ.ride (pc.completes op s))
        t.speedometer := by
  cases pc with
  | test =>
    cases op with
    | getDistance => exact absurd hst (by simp [operationStep])
    | set x =>
      obtain ⟨rfl, rfl⟩ := Prod.mk.inj (Option.some.inj hst)
      obtain rfl : s.speedometer = σ := h
      by_cases hx : x.differs s.speedometer
      · simp only [OperationPc.completes, hx, if_true]
        exact ⟨trivial, hclock, rfl, hx⟩
      · simp only [OperationPc.completes, hx]
        refine ⟨⟨hclock, hop, trivial⟩, le_refl _, ?_⟩
        change s.speedometer = s.speedometer.set s.timer x
        rw [s.speedometer.set_eq_assign, if_neg hx]
  | readTimer =>
    obtain ⟨rfl, rfl⟩ := Prod.mk.inj (Option.some.inj hst)
    exact ⟨trivial, hclock, h.1, h.2, hclock, le_refl _⟩
  | readLastTime currentTime =>
    obtain ⟨rfl, rfl⟩ := Prod.mk.inj (Option.some.inj hst)
    exact ⟨trivial, hclock, h,
      congrArg (fun x : Speedometer => toMilliseconds (currentTime - x.lastTime)) h.1⟩
  | readSpeed currentTime elapsedTime =>
    obtain ⟨rfl, rfl⟩ := Prod.mk.inj (Option.some.inj hst)
    obtain ⟨hsame, rfl⟩ := h
    exact ⟨trivial, hclock, hsame, congrArg (fun x : Speedometer =>
      x.currentSpeed * (toMilliseconds (currentTime - σ.lastTime) : ℚ) / 3600000) hsame.1⟩
  | lock currentTime distance =>
    obtain ⟨q, hlock, hq⟩ := Option.map_eq_some_iff.mp hst
    obtain ⟨rfl, rfl⟩ := Prod.mk.inj hq
    obtain ⟨-, rfl⟩ := Shared.lock_eq_some.mp hlock
    exact ⟨trivial, hclock, h⟩
  | readTotal currentTime distance =>
    obtain ⟨rfl, rfl⟩ := Prod.mk.inj (Option.some.inj hst)
    obtain ⟨hsame, hdistance⟩ := h
    exact ⟨trivial, hclock, hsame, hdistance, congrArg Speedometer.totalDistance hsame.1⟩
  | storeTotal currentTime distance total =>
    obtain ⟨rfl, rfl⟩ := Prod.mk.inj (Option.some.inj hst)
    obtain ⟨⟨hsame, hrest⟩, rfl, rfl⟩ := h
    exact ⟨trivial, hclock, congrArg (fun x : Speedometer =>
      { x with totalDistance := σ.totalDistance + σ.increment currentTime }) hsame, hrest⟩
  | unlock currentTime =>
    obtain ⟨rfl, rfl⟩ := Prod.mk.inj (Option.some.inj hst)
    exact ⟨trivial, hclock, h⟩
  | storeLastTime currentTime =>
    obtain ⟨rfl, rfl⟩ := Prod.mk.inj (Option.some.inj hst)
    obtain ⟨hadded, hchanges, hbounds⟩ := h
    have hsettled :
        { s.speedometer with lastTime := currentTime } = σ.computeDistance currentTime :=
      congrArg (fun x : Speedometer => { x with lastTime := currentTime }) hadded
    refine ⟨trivial, hclock, ?_⟩
    cases op with
    | getDistance => exact ⟨rfl, hsettled, hbounds⟩
    | set x => exact ⟨hsettled, hchanges, hbounds⟩
  | store =>
    cases op with
    | getDistance => exact absurd hst (by simp [operationStep])
    | set x =>
      obtain ⟨rfl, rfl⟩ := Prod.mk.inj (Option.some.inj hst)
      obtain ⟨hsettled, hrest⟩ := h
      refine ⟨trivial, hclock, x, rfl, ?_⟩
      change x.assign s.speedometer = x.assign (σ.computeDistance (x.assign s.speedometer).lastTime)
        ∧ x.differs σ ∧ clock ≤ (x.assign s.speedometer).lastTime ∧
          (x.assign s.speedometer).lastTime ≤ s.timer
      rw [x.assign_lastTime]
      exact ⟨congrArg x.assign hsettled, hrest⟩
  | computeSpeed =>
    obtain ⟨rfl, rfl⟩ := Prod.mk.inj (Option.some.inj hst)
    obtain ⟨x, rfl, hstored, hchanges, hle, hge⟩ := h
    refine ⟨⟨hle, hop, trivial⟩, hge, ?_⟩
    change s.speedometer.computeSpeed = σ.set s.speedometer.lastTime x
    rw [σ.set_eq_assign, if_pos hchanges]
    exact congrArg Speedometer.computeSpeed hstored
  | readResult =>
    obtain ⟨rfl, rfl⟩ := Prod.mk.inj (Option.some.inj hst)
    obtain ⟨rfl, hsettled, hle, hge⟩ := h
    exact ⟨⟨hle, trivial, trivial⟩, hge, hsettled⟩
  | returned value => exact absurd hst (by simp [operationStep])

/-- An access of `reset` advances its call, and the last one completes it. -/
theorem resetStep_progress {s t : Shared} {pc pc' : ResetPc} (hclock : clock ≤ s.timer)
    (h : pc.Progress clock s.timer σ s.speedometer) (hst : resetStep s pc = some (t, pc')) :
    pc.completes.Valid clock ∧ pc.completes.clock clock ≤ t.timer ∧
      pc'.Progress (pc.completes.clock clock) t.timer (σ.ride pc.completes) t.speedometer := by
  cases pc with
  | lock =>
    obtain ⟨q, hlock, hq⟩ := Option.map_eq_some_iff.mp hst
    obtain ⟨rfl, rfl⟩ := Prod.mk.inj hq
    obtain ⟨-, rfl⟩ := Shared.lock_eq_some.mp hlock
    exact ⟨trivial, hclock, h⟩
  | clearDistance =>
    obtain ⟨rfl, rfl⟩ := Prod.mk.inj (Option.some.inj hst)
    have hcleared : { s.speedometer with totalDistance := 0 } = { σ with totalDistance := 0 } :=
      congrArg (fun x : Speedometer => { x with totalDistance := 0 }) h
    exact ⟨trivial, hclock, hcleared⟩
  | clearSpeed =>
    obtain ⟨rfl, rfl⟩ := Prod.mk.inj (Option.some.inj hst)
    have hcleared : { s.speedometer with currentSpeed := 0 } =
        { σ with totalDistance := 0, currentSpeed := 0 } :=
      congrArg (fun x : Speedometer => { x with currentSpeed := 0 }) h
    exact ⟨trivial, hclock, hcleared⟩
  | unlock =>
    obtain ⟨rfl, rfl⟩ := Prod.mk.inj (Option.some.inj hst)
    exact ⟨trivial, hclock, h⟩
  | readTimer =>
    obtain ⟨rfl, rfl⟩ := Prod.mk.inj (Option.some.inj hst)
    exact ⟨trivial, hclock, h, hclock, le_refl _⟩
  | storeLastTime now =>
    obtain ⟨rfl, rfl⟩ := Prod.mk.inj (Option.some.inj hst)
    obtain ⟨hcleared, hle, hge⟩ := h
    have hreset : { s.speedometer with lastTime := now } = σ.reset now :=
      congrArg (fun x : Speedometer => { x with lastTime := now }) hcleared
    exact ⟨⟨hle, trivial, trivial⟩, hge, hreset⟩
  | returned => exact absurd hst (by simp [resetStep])

/-- Outside a call, the speedometer is the one all completed calls have left. -/
theorem Activity.Progress.eq_of_not_mid {a : Activity} (h : a.Progress clock timer σ s)
    (hmid : ¬ a.mid) : s = σ := by
  cases a with
  | idle | onGearEvent | onPedalEvent | displayTask => exact h
  | operation op pc =>
    cases pc with
    | test | returned => exact h
    | readTimer => exact h.1
    | readLastTime | readSpeed | lock | readTotal | storeTotal | unlock | storeLastTime | store
    | computeSpeed | readResult => exact absurd rfl hmid

/-- An operation outside its call does not notice a reset. -/
theorem Activity.Progress.of_not_mid {a : Activity} {σ' : Speedometer} {clock' : ℤ}
    (h : a.Progress clock timer σ s) (hmid : ¬ a.mid) (hσ : σ'.settings = σ.settings) :
    a.Progress clock' timer' σ' σ' := by
  cases a with
  | idle | onGearEvent | onPedalEvent | displayTask => rfl
  | operation op pc =>
    cases pc with
    | test | returned => rfl
    | readTimer =>
      refine ⟨rfl, ?_⟩
      obtain ⟨hsize, htime⟩ := Settings.mk.inj hσ
      cases op with
      | getDistance => trivial
      | set x =>
        have hchanges : x.differs σ := h.2
        cases x <;> simpa [Operation.Changes, Setter.differs, hsize, htime] using hchanges
    | readLastTime | readSpeed | lock | readTotal | storeTotal | unlock | storeLastTime | store
    | computeSpeed | readResult => exact absurd rfl hmid

/-- Time may pass during a call. -/
theorem Activity.Progress.tick {a : Activity} (h : a.Progress clock timer σ s)
    (hle : timer ≤ timer') : a.Progress clock timer' σ s := by
  cases a with
  | idle | onGearEvent | onPedalEvent | displayTask => exact h
  | operation op pc =>
    cases pc with
    | test | returned | readTimer => exact h
    | readLastTime => exact ⟨h.1, h.2.1, h.2.2.1, h.2.2.2.trans hle⟩
    | readSpeed | lock | readTotal | storeTotal =>
      exact ⟨⟨h.1.1, h.1.2.1, h.1.2.2.1, h.1.2.2.2.trans hle⟩, h.2⟩
    | unlock | storeLastTime | store | readResult =>
      exact ⟨h.1, h.2.1, h.2.2.1, h.2.2.2.trans hle⟩
    | computeSpeed =>
      obtain ⟨x, hx, hstored, hchanges, hge, hlast⟩ := h
      exact ⟨x, hx, hstored, hchanges, hge, hlast.trans hle⟩

/-- Time passes without changing what a reset has done. -/
theorem ResetPc.Progress.tick {pc : ResetPc} (h : pc.Progress clock timer σ s)
    (hle : timer ≤ timer') : pc.Progress clock timer' σ s := by
  cases pc with
  | lock | returned | clearDistance | clearSpeed | unlock | readTimer => exact h
  | storeLastTime now => exact ⟨h.1, h.2.1, h.2.2.trans hle⟩

end Calls

namespace BikeSystem

/-- The ISR thread is in the middle of a reset. -/
def midReset (s : BikeSystem) : Bool := s.isr.elim false ResetPc.mid

/-- Neither thread goes on while the other one is in the middle of a call. -/
def Apart (s : BikeSystem) : Label → Prop
  | .periodic => s.midReset = false
  | .isr => s.periodic.mid = false
  | _ => True

instance (s : BikeSystem) (a : Label) : Decidable (s.Apart a) :=
  match a with
  | .periodic => inferInstanceAs (Decidable (s.midReset = false))
  | .isr => inferInstanceAs (Decidable (s.periodic.mid = false))
  | .joystick _ | .onReset | .dispatch _ | .displayTask | .temperatureTask _ | .tick _ =>
    isTrue trivial

/-- The calls a step completes. -/
def completes (s : BikeSystem) : Label → Ride
  | .periodic => s.periodic.completes s.shared
  | .isr => s.isr.elim [] ResetPc.completes
  | _ => []

/-- The calls completed along a run from the construction. -/
def ride (elapsedTime : ℤ) (tr : List Label) : Ride :=
  (trace step (new elapsedTime) tr).flatMap fun x => x.1.completes x.2

/-- The completed calls have been made one after the other on the speedometer `σ`, the last
one at `clock`, and the call in progress, of at most one thread, continues from there. -/
structure Serial (clock : ℤ) (σ : Speedometer) (s : BikeSystem) : Prop where
  clock_le : clock ≤ s.shared.timer
  operating : s.midReset = false →
    s.periodic.Progress clock s.shared.timer σ s.shared.speedometer
  resetting : ∀ pc, s.isr = some pc → pc.mid →
    pc.Progress clock s.shared.timer σ s.shared.speedometer ∧
      s.periodic.mid = false ∧ s.periodic.Progress clock s.shared.timer σ σ

variable {clock : ℤ} {σ : Speedometer} {s t : BikeSystem}

/-- A step of the periodic thread outside a reset completes calls of its own. -/
theorem Serial.periodicStep (h : Serial clock σ s) (hsafe : Safe s) (hout : s.midReset = false)
    (hst : s.periodicStep = some t) :
    (s.completes .periodic).Valid clock ∧
      Serial ((s.completes .periodic).clock clock) (σ.ride (s.completes .periodic)) t := by
  have hprogress := h.operating hout
  have hnone : ∀ {u : BikeSystem}, u.isr = s.isr → ∀ pc, u.isr = some pc → ¬ pc.mid := by
    intro u hisr pc hpc hmid
    rw [hisr] at hpc
    rw [midReset, hpc] at hout
    exact absurd (hmid.symm.trans hout) (by simp)
  rcases periodicStep_cases hst with ⟨gear, gearSize, hp, rfl⟩ | ⟨rotationTime, hp, rfl⟩ |
    ⟨hp, rfl⟩ | ⟨op, value, hp, rfl⟩ | ⟨op, pc, shared, pc', hp, hop, rfl⟩
  · rw [hp] at hprogress
    simp only [completes, hp, Activity.completes]
    exact ⟨trivial, h.clock_le, fun _ => hprogress,
      fun pc hpc hmid => absurd hmid (hnone rfl pc hpc)⟩
  · rw [hp] at hprogress
    simp only [completes, hp, Activity.completes]
    exact ⟨trivial, h.clock_le, fun _ => hprogress,
      fun pc hpc hmid => absurd hmid (hnone rfl pc hpc)⟩
  · rw [hp] at hprogress
    simp only [completes, hp, Activity.completes]
    exact ⟨⟨h.clock_le, trivial, trivial⟩, le_refl _, fun _ => ⟨hprogress, trivial⟩,
      fun pc hpc hmid => absurd hmid (hnone rfl pc hpc)⟩
  · rw [hp] at hprogress
    simp only [completes, hp, Activity.completes, OperationPc.completes]
    exact ⟨trivial, h.clock_le, fun _ => hprogress,
      fun pc hpc hmid => absurd hmid (hnone rfl pc hpc)⟩
  · rw [hp] at hprogress
    have hadmissible : op.call.Admissible := by
      cases op with
      | getDistance => trivial
      | set x => exact (hsafe.handed x (by rw [hp]; rfl)).admissible
    obtain ⟨hvalid, hle, hprogress'⟩ := operationStep_progress h.clock_le hadmissible hprogress hop
    simp only [completes, hp, Activity.completes]
    exact ⟨hvalid, hle, fun _ => hprogress',
      fun pc hpc hmid => absurd hmid (hnone rfl pc hpc)⟩

/-- A step of the ISR thread outside an operation completes its reset. -/
theorem Serial.isrStep (h : Serial clock σ s) (hout : s.periodic.mid = false)
    (hst : s.isrStep = some t) :
    (s.completes .isr).Valid clock ∧
      Serial ((s.completes .isr).clock clock) (σ.ride (s.completes .isr)) t := by
  rcases isrStep_cases hst with ⟨hisr, n, -, rfl⟩ | ⟨hisr, rfl⟩ |
    ⟨pc, shared, pc', hisr, hreset, rfl⟩
  · simp only [completes, hisr, Option.elim_none]
    refine ⟨trivial, h.clock_le, fun _ => h.operating (by rw [midReset, hisr]; rfl), ?_⟩
    rintro pc ⟨⟩ hmid
    exact absurd hmid (by simp [ResetPc.mid])
  · simp only [completes, hisr, Option.elim_some, ResetPc.completes]
    refine ⟨trivial, h.clock_le, fun _ => h.operating (by rw [midReset, hisr]; rfl), ?_⟩
    rintro pc ⟨⟩
  · have hprogress : pc.Progress clock s.shared.timer σ s.shared.speedometer ∧
        s.periodic.Progress clock s.shared.timer σ σ := by
      by_cases hmid : pc.mid
      · obtain ⟨hpc, -, hperiodic⟩ := h.resetting pc hisr hmid
        exact ⟨hpc, hperiodic⟩
      · have hperiodic := h.operating (by rw [midReset, hisr]; exact Bool.eq_false_iff.mpr hmid)
        have hsame := hperiodic.eq_of_not_mid (by simp [hout])
        refine ⟨?_, hperiodic.of_not_mid (by simp [hout]) rfl⟩
        cases pc with
        | lock | returned => exact hsame
        | clearDistance | clearSpeed | unlock | readTimer | storeLastTime =>
          exact absurd rfl hmid
    obtain ⟨hvalid, hle, hprogress'⟩ := resetStep_progress h.clock_le hprogress.1 hreset
    have hrests : s.periodic.Progress (pc.completes.clock clock) shared.timer
        (σ.ride pc.completes) (σ.ride pc.completes) :=
      hprogress.2.of_not_mid (by simp [hout]) (by cases pc <;> rfl)
    simp only [completes, hisr, Option.elim_some]
    refine ⟨hvalid, hle, fun hmid => ?_, ?_⟩
    · have hsame : shared.speedometer = σ.ride pc.completes := by
        cases pc' with
        | lock | returned => exact hprogress'
        | clearDistance | clearSpeed | unlock | readTimer | storeLastTime =>
          exact absurd hmid (by simp [midReset, ResetPc.mid])
      rw [hsame]
      exact hrests
    · rintro pc'' ⟨⟩ -
      exact ⟨hprogress', hout, hrests⟩

/-- Every step that keeps the calls apart completes calls that can be made next. -/
theorem Serial.step {a : Label} (h : Serial clock σ s) (hsafe : Safe s) (hapart : s.Apart a)
    (hst : s.step a = some t) :
    (s.completes a).Valid clock ∧
      Serial ((s.completes a).clock clock) (σ.ride (s.completes a)) t := by
  cases a with
  | periodic => exact h.periodicStep hsafe hapart hst
  | isr => exact h.isrStep hapart hst
  | joystick | onReset =>
    obtain rfl := Option.some.inj hst
    exact ⟨trivial, h.clock_le, h.operating, h.resetting⟩
  | tick d =>
    obtain rfl := Option.some.inj hst
    have hle : s.shared.timer ≤ s.shared.timer + d := by omega
    refine ⟨trivial, h.clock_le.trans hle, fun hout => (h.operating hout).tick hle, ?_⟩
    intro pc hisr hmid
    obtain ⟨hpc, hout, hperiodic⟩ := h.resetting pc hisr hmid
    exact ⟨hpc.tick hle, hout, hperiodic.tick hle⟩
  | dispatch e =>
    obtain ⟨hp, es, -, rfl⟩ := step_dispatch.mp hst
    obtain ⟨hle, hoperating, hresetting⟩ := h
    rw [hp] at hoperating hresetting
    refine ⟨trivial, hle, fun hout => ?_, fun pc hisr hmid => ?_⟩
    · cases e <;> exact hoperating hout
    · cases e <;> exact hresetting pc hisr hmid
  | displayTask =>
    obtain ⟨hp, rfl⟩ := step_displayTask.mp hst
    obtain ⟨hle, hoperating, hresetting⟩ := h
    rw [hp] at hoperating hresetting
    exact ⟨trivial, hle, hoperating, hresetting⟩
  | temperatureTask temperature =>
    obtain ⟨-, rfl⟩ := step_temperatureTask.mp hst
    exact ⟨trivial, h.clock_le, h.operating, h.resetting⟩

/-- No call has been made at the construction. -/
theorem new_serial (elapsedTime : ℤ) :
    Serial elapsedTime (Speedometer.new elapsedTime) (new elapsedTime) where
  clock_le := le_refl elapsedTime
  operating := fun _ => rfl
  resetting := by
    rintro pc ⟨⟩

/-- The completed calls of a run that keeps the calls apart are a ride, and the shared
speedometer follows it. -/
theorem serial_of_run {elapsedTime : ℤ} {tr : List Label}
    (hrun : run step (new elapsedTime) tr = some s)
    (hapart : Along step Apart (new elapsedTime) tr) :
    (ride elapsedTime tr).Valid elapsedTime ∧
      Serial ((ride elapsedTime tr).clock elapsedTime)
        ((Speedometer.new elapsedTime).ride (ride elapsedTime tr)) s := by
  refine Transition.run_history (I := fun tr s => Along step Apart (new elapsedTime) tr →
    (ride elapsedTime tr).Valid elapsedTime ∧
      Serial ((ride elapsedTime tr).clock elapsedTime)
        ((Speedometer.new elapsedTime).ride (ride elapsedTime tr)) s)
    (fun _ => ⟨trivial, new_serial elapsedTime⟩) ?_ hrun hapart
  intro tr m a t hm ih hst hapart
  obtain ⟨hbefore, ha⟩ := (Transition.along_snoc hm).mp hapart
  obtain ⟨hvalid, hserial⟩ := ih hbefore
  have hsafe : Safe m :=
    Transition.run_invariant (fun h hst => h.step hst) (new_safe elapsedTime) hm
  obtain ⟨hcalls, hserial'⟩ := hserial.step hsafe ha hst
  have hride : ride elapsedTime (tr ++ [a]) = ride elapsedTime tr ++ m.completes a := by
    rw [ride, Transition.trace_snoc hm, List.flatMap_append, List.flatMap_singleton, ← ride]
  rw [hride, Ride.valid_append, Ride.clock_append, Speedometer.ride_append]
  exact ⟨⟨hvalid, hcalls⟩, hserial'⟩

/-- In every run in which neither thread goes on while the other one is in the middle of a
call, the completed calls were made in order, at timer readings that do not go back;
whenever no call is in progress the shared speedometer is the one on which they have been
made one after the other; and its total distance, in exact rationals, is behind the ride by
no more than the truncations to whole milliseconds allow, and never ahead of it. -/
theorem shared_speedometer_rides (elapsedTime : ℤ) (tr : List Label) (s : BikeSystem)
    (hrun : run step (new elapsedTime) tr = some s)
    (hapart : Along step Apart (new elapsedTime) tr) :
    (ride elapsedTime tr).Valid elapsedTime ∧
      (s.midReset = false → s.periodic.mid = false →
        s.shared.speedometer = (Speedometer.new elapsedTime).ride (ride elapsedTime tr) ∧
          0 ≤ Speedometer.ideal elapsedTime (ride elapsedTime tr) -
            s.shared.speedometer.totalDistance ∧
          Speedometer.ideal elapsedTime (ride elapsedTime tr) -
              s.shared.speedometer.totalDistance ≤
            (Speedometer.accountFrom elapsedTime (ride elapsedTime tr)).allowance) := by
  obtain ⟨hvalid, hserial⟩ := serial_of_run hrun hapart
  refine ⟨hvalid, fun hreset hmid => ?_⟩
  have hsame := (hserial.operating hreset).eq_of_not_mid (by simp [hmid])
  have haccurate := Speedometer.accurate hvalid
  rw [hsame]
  exact ⟨rfl, sub_nonneg.mpr haccurate.not_ahead, haccurate.not_far_behind⟩

/-- The gear is changed, and a reset runs between the two calls of the display task. -/
def displayAndReset : List Label := List.flatten [
  .dispatch (.pedal kInitialPedalRotationTime) :: List.replicate 3 .periodic,
  .joystick .upPressed :: .dispatch (.gear 2 18) :: List.replicate 13 .periodic,
  [.tick 3600000, .displayTask, .onReset, .isr, .periodic, .isr, .isr, .isr, .isr, .tick 5,
    .isr, .isr, .isr, .tick 7], List.replicate 10 .periodic]

/-- The calls of both threads have been made one after the other. -/
theorem shared_speedometer_rides_across_a_reset :
    ∃ s, run step (new 0) displayAndReset = some s ∧
      (ride 0 displayAndReset).Valid 0 ∧
      (ride 0 displayAndReset).drop 2 =
        [(3600000, .getCurrentSpeed), (3600005, .reset), (3600012, .getDistance)] ∧
      s.shared.speedometer = (Speedometer.new 0).ride (ride 0 displayAndReset) := by
  obtain ⟨s, hrun, hmid⟩ := Option.map_eq_some_iff.mp (by decide +kernel :
    (run step (new 0) displayAndReset).map (fun s => (s.midReset, s.periodic.mid)) =
      some (false, false))
  obtain ⟨hreset, hperiodic⟩ := Prod.mk.inj hmid
  obtain ⟨hvalid, hsame⟩ := shared_speedometer_rides 0 displayAndReset s hrun
    (by decide +kernel)
  exact ⟨s, hrun, hvalid, by decide +kernel, (hsame hreset hperiodic).1⟩

end BikeSystem

end MultiTasking

end BikeComputer
