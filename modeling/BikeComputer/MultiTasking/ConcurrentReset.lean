import BikeComputer.MultiTasking.SharedSpeedometer
import BikeComputer.Core.Truncation

/-!
# A reset against a distance update

The mutex makes the final addition atomic, but the increment is computed before it
is taken. Until `reset` has cleared the speed, a positive increment may therefore be
waiting at the mutex, and it is added after the reset. The invariant has two phases:
before the speed is cleared, the waiting increment is the one of the starting state;
afterwards, what the total will finally be is already decided.
-/

namespace BikeComputer.MultiTasking

/-- The two threads, each in one operation. -/
structure Race where
  shared : Shared
  isr : ResetPc := .lock
  periodic : OperationPc
  deriving DecidableEq, Repr

/-- A thread makes its next access, or time passes. -/
inductive Label where
  | isr
  | periodic
  | tick (d : ℕ)
  deriving DecidableEq, Repr

namespace Race

/-- Both threads are about to enter their operation, and nobody holds the mutex. -/
def start (s : Speedometer) (now : ℤ) (op : Operation) : Race where
  shared := { speedometer := s, timer := now }
  periodic := op.entry

/-- One access of either thread, or a tick. -/
def step (op : Operation) (s : Race) : Label → Option Race
  | .isr => (resetStep s.shared s.isr).map fun p => { s with shared := p.1, isr := p.2 }
  | .periodic =>
    (operationStep op s.shared s.periodic).map fun p => { s with shared := p.1, periodic := p.2 }
  | .tick d => some { s with shared := { s.shared with timer := s.shared.timer + d } }

/-- Both operations have returned. -/
def Completed (s : Race) : Prop := s.isr = .returned ∧ ∃ value, s.periodic = .returned value

/-- The periodic thread waits at the mutex with an increment of at least one
millisecond, computed from the speed and the last time of the starting state. -/
def Waiting (s₀ : Speedometer) (s : Race) : Prop :=
  ∃ currentTime distance, s.periodic = .lock currentTime distance ∧
    s₀.currentSpeed ≠ 0 ∧ 1000 ≤ currentTime - s₀.lastTime

/-- Along the schedule, `reset` clears the speed while an increment is waiting. -/
def Overtaken (op : Operation) (s₀ : Speedometer) (s : Race) : List Label → Prop
  | [] => False
  | a :: as =>
    (a = .isr ∧ s.isr = .clearSpeed ∧ Waiting s₀ s) ∨
      ∃ t, step op s a = some t ∧ Overtaken op s₀ t as

end Race

/-- The accesses that `reset` makes while it holds the mutex. -/
def ResetPc.Inside : ResetPc → Prop
  | .clearDistance | .clearSpeed | .unlock => True
  | _ => False

/-- The accesses that `computeDistance` makes while it holds the mutex. -/
def OperationPc.Inside : OperationPc → Prop
  | .readTotal .. | .storeTotal .. | .unlock _ => True
  | _ => False

namespace Race

/-- Who is inside holds the mutex. -/
structure Exclusive (s : Race) : Prop where
  isr : s.isr.Inside → s.shared.totalDistanceMutex = some .isr
  periodic : s.periodic.Inside → s.shared.totalDistanceMutex = some .periodic

/-- The two calls are never inside together. -/
theorem Exclusive.not_both {s : Race} (h : Exclusive s) (hi : s.isr.Inside) :
    ¬ s.periodic.Inside := by
  intro hp
  have hsame := (h.isr hi).symm.trans (h.periodic hp)
  exact absurd (Option.some.inj hsame) (by decide)

/-- An access of the ISR thread keeps the mutex with the thread that is inside. -/
theorem Exclusive.isrStep {s : Race} {t : Shared} {pc : ResetPc} (h : Exclusive s)
    (hst : resetStep s.shared s.isr = some (t, pc)) :
    Exclusive { s with shared := t, isr := pc } := by
  obtain ⟨⟨sp, holder, now⟩, isr, periodic⟩ := s
  obtain ⟨hisr, hperiodic⟩ := h
  cases isr with
  | lock =>
    simp only [resetStep, Shared.lock] at hst
    cases holder with
    | none =>
      obtain ⟨rfl, rfl⟩ := Prod.mk.inj (Option.some.inj hst)
      exact ⟨fun _ => rfl, fun hp => absurd (hperiodic hp) (by simp)⟩
    | some i => exact absurd hst (by simp)
  | clearDistance | clearSpeed =>
    obtain ⟨rfl, rfl⟩ := Prod.mk.inj (Option.some.inj hst)
    exact ⟨fun _ => hisr trivial, hperiodic⟩
  | unlock =>
    obtain ⟨rfl, rfl⟩ := Prod.mk.inj (Option.some.inj hst)
    refine ⟨fun hi => absurd hi id, fun hp => ?_⟩
    exact absurd ((hisr trivial).symm.trans (hperiodic hp)) (by simp)
  | readTimer | storeLastTime now' =>
    obtain ⟨rfl, rfl⟩ := Prod.mk.inj (Option.some.inj hst)
    exact ⟨fun hi => absurd hi id, hperiodic⟩
  | returned => exact absurd hst (by simp [resetStep])

/-- An access of the periodic thread keeps the mutex with the thread that is inside. -/
theorem Exclusive.periodicStep {op : Operation} {s : Race} {t : Shared} {pc : OperationPc}
    (h : Exclusive s) (hst : operationStep op s.shared s.periodic = some (t, pc)) :
    Exclusive { s with shared := t, periodic := pc } := by
  obtain ⟨⟨sp, holder, now⟩, isr, periodic⟩ := s
  obtain ⟨hisr, hperiodic⟩ := h
  cases periodic with
  | lock currentTime distance =>
    simp only [operationStep, Shared.lock] at hst
    cases holder with
    | none =>
      obtain ⟨rfl, rfl⟩ := Prod.mk.inj (Option.some.inj hst)
      exact ⟨fun hi => absurd (hisr hi) (by simp), fun _ => rfl⟩
    | some i => exact absurd hst (by simp)
  | readTotal | storeTotal =>
    obtain ⟨rfl, rfl⟩ := Prod.mk.inj (Option.some.inj hst)
    exact ⟨hisr, fun _ => hperiodic trivial⟩
  | unlock currentTime =>
    obtain ⟨rfl, rfl⟩ := Prod.mk.inj (Option.some.inj hst)
    refine ⟨fun hi => ?_, fun hp => absurd hp id⟩
    exact absurd ((hisr hi).symm.trans (hperiodic trivial)) (by simp)
  | test =>
    cases op with
    | getDistance => exact absurd hst (by simp [operationStep])
    | set x =>
      obtain ⟨rfl, rfl⟩ := Prod.mk.inj (Option.some.inj hst)
      refine ⟨hisr, fun hp => ?_⟩
      dsimp only at hp
      split at hp <;> exact absurd hp id
  | store =>
    cases op with
    | getDistance => exact absurd hst (by simp [operationStep])
    | set x =>
      obtain ⟨rfl, rfl⟩ := Prod.mk.inj (Option.some.inj hst)
      exact ⟨hisr, fun hp => absurd hp id⟩
  | storeLastTime currentTime =>
    obtain ⟨rfl, rfl⟩ := Prod.mk.inj (Option.some.inj hst)
    refine ⟨hisr, fun hp => ?_⟩
    cases op <;> exact absurd hp id
  | readTimer | readLastTime | readSpeed | computeSpeed | readResult =>
    obtain ⟨rfl, rfl⟩ := Prod.mk.inj (Option.some.inj hst)
    exact ⟨hisr, fun hp => absurd hp id⟩
  | returned value => exact absurd hst (by simp [operationStep])

/-- Every access keeps the sections exclusive. -/
theorem Exclusive.step {op : Operation} {s t : Race} {a : Label} (h : Exclusive s)
    (hst : Race.step op s a = some t) : Exclusive t := by
  cases a with
  | tick d =>
    obtain rfl := Option.some.inj hst
    exact ⟨h.isr, h.periodic⟩
  | isr =>
    obtain ⟨p, hp, rfl⟩ := Option.map_eq_some_iff.mp hst
    exact h.isrStep hp
  | periodic =>
    obtain ⟨p, hp, rfl⟩ := Option.map_eq_some_iff.mp hst
    exact h.periodicStep hp

/-- Until `reset` clears the speed: what the periodic thread has computed so far
comes from the starting state. -/
def Undecided (s₀ s : Speedometer) : OperationPc → Prop
  | .test | .readTimer =>
    s.currentSpeed = s₀.currentSpeed ∧ s.lastTime = s₀.lastTime
  | .readLastTime currentTime =>
    s₀.lastTime ≤ currentTime ∧ s.currentSpeed = s₀.currentSpeed ∧ s.lastTime = s₀.lastTime
  | .readSpeed currentTime elapsedTime =>
    s₀.lastTime ≤ currentTime ∧ s.currentSpeed = s₀.currentSpeed ∧
      elapsedTime = toMilliseconds (currentTime - s₀.lastTime)
  | .lock currentTime distance =>
    s₀.lastTime ≤ currentTime ∧ distance = s₀.increment currentTime
  | _ => True

/-- Once `reset` has cleared the speed: the total will be `e` in the end. -/
def Decided (e : ℚ) (s : Speedometer) : OperationPc → Prop
  | .test | .readTimer | .readLastTime _ | .readSpeed _ _ =>
    s.currentSpeed = 0 ∧ s.totalDistance = 0 ∧ e = 0
  | .lock _ distance | .readTotal _ distance => s.totalDistance = 0 ∧ distance = e
  | .storeTotal _ distance total => total = 0 ∧ distance = e
  | _ => s.totalDistance = e

/-- The phase before `reset` clears the speed. -/
structure Before (s₀ : Speedometer) (s : Race) : Prop where
  exclusive : Exclusive s
  lastTime_le : s₀.lastTime ≤ s.shared.timer
  isr : s.isr = .lock ∨ s.isr = .clearDistance ∨
    s.isr = .clearSpeed ∧ s.shared.speedometer.totalDistance = 0
  periodic : Undecided s₀ s.shared.speedometer s.periodic

/-- The phase after `reset` has cleared the speed. -/
structure After (e : ℚ) (s : Race) : Prop where
  isr : s.isr ≠ .lock ∧ s.isr ≠ .clearDistance ∧ s.isr ≠ .clearSpeed
  periodic : Decided e s.shared.speedometer s.periodic

/-- The race begins before both calls have done anything. -/
theorem start_before {s : Speedometer} {now : ℤ} (h : s.lastTime ≤ now) (op : Operation) :
    Before s (start s now op) := by
  refine ⟨⟨fun hi => absurd hi id, ?_⟩, h, Or.inl rfl, ?_⟩
  · cases op <;> exact fun hp => absurd hp id
  · cases op <;> exact ⟨rfl, rfl⟩

/-- Only the speed and the last time matter before the speed is cleared. -/
theorem Undecided.congr {s₀ s s' : Speedometer} {pc : OperationPc} (h : Undecided s₀ s pc)
    (hv : s'.currentSpeed = s.currentSpeed) (hl : s'.lastTime = s.lastTime) :
    Undecided s₀ s' pc := by
  cases pc with
  | test | readTimer => exact ⟨hv.trans h.1, hl.trans h.2⟩
  | readLastTime currentTime => exact ⟨h.1, hv.trans h.2.1, hl.trans h.2.2⟩
  | readSpeed currentTime elapsedTime => exact ⟨h.1, hv.trans h.2.1, h.2.2⟩
  | lock currentTime distance => exact h
  | readTotal | storeTotal | unlock | storeLastTime | store | computeSpeed | readResult
  | returned => trivial

/-- The periodic thread computes with the values of the starting state. -/
theorem Undecided.step {op : Operation} {s₀ : Speedometer} {s t : Shared}
    {pc pc' : OperationPc} (h : Undecided s₀ s.speedometer pc) (ht : s₀.lastTime ≤ s.timer)
    (hst : operationStep op s pc = some (t, pc')) : Undecided s₀ t.speedometer pc' := by
  cases pc with
  | test =>
    cases op with
    | getDistance => exact absurd hst (by simp [operationStep])
    | set x =>
      obtain ⟨rfl, rfl⟩ := Prod.mk.inj (Option.some.inj hst)
      split
      · exact h
      · trivial
  | readTimer =>
    obtain ⟨rfl, rfl⟩ := Prod.mk.inj (Option.some.inj hst)
    exact ⟨ht, h⟩
  | readLastTime currentTime =>
    obtain ⟨rfl, rfl⟩ := Prod.mk.inj (Option.some.inj hst)
    obtain ⟨hc, hv, hl⟩ := h
    exact ⟨hc, hv, by rw [hl]⟩
  | readSpeed currentTime elapsedTime =>
    obtain ⟨rfl, rfl⟩ := Prod.mk.inj (Option.some.inj hst)
    obtain ⟨hc, hv, rfl⟩ := h
    exact ⟨hc, by rw [hv, Speedometer.increment]⟩
  | lock currentTime distance =>
    obtain ⟨q, -, hq⟩ := Option.map_eq_some_iff.mp hst
    obtain ⟨rfl, rfl⟩ := Prod.mk.inj hq
    trivial
  | store =>
    cases op with
    | getDistance => exact absurd hst (by simp [operationStep])
    | set x =>
      obtain ⟨rfl, rfl⟩ := Prod.mk.inj (Option.some.inj hst)
      trivial
  | storeLastTime currentTime =>
    obtain ⟨rfl, rfl⟩ := Prod.mk.inj (Option.some.inj hst)
    cases op <;> trivial
  | readTotal | storeTotal | unlock | computeSpeed | readResult =>
    obtain ⟨rfl, rfl⟩ := Prod.mk.inj (Option.some.inj hst)
    trivial
  | returned value => exact absurd hst (by simp [operationStep])

/-- An operation does not move the timer, and it leaves the total alone outside its
critical section. -/
theorem operationStep_frame {op : Operation} {s t : Shared} {pc pc' : OperationPc}
    (hst : operationStep op s pc = some (t, pc')) :
    t.timer = s.timer ∧
      (¬ pc.Inside → t.speedometer.totalDistance = s.speedometer.totalDistance) := by
  cases pc with
  | lock currentTime distance =>
    obtain ⟨q, hlock, hq⟩ := Option.map_eq_some_iff.mp hst
    obtain ⟨rfl, rfl⟩ := Prod.mk.inj hq
    obtain ⟨-, rfl⟩ := Shared.lock_eq_some.mp hlock
    exact ⟨rfl, fun _ => rfl⟩
  | readTotal | storeTotal | unlock =>
    obtain ⟨rfl, rfl⟩ := Prod.mk.inj (Option.some.inj hst)
    exact ⟨rfl, fun hpc => absurd trivial hpc⟩
  | test =>
    cases op with
    | getDistance => exact absurd hst (by simp [operationStep])
    | set x =>
      obtain ⟨rfl, rfl⟩ := Prod.mk.inj (Option.some.inj hst)
      exact ⟨rfl, fun _ => rfl⟩
  | store =>
    cases op with
    | getDistance => exact absurd hst (by simp [operationStep])
    | set x =>
      obtain ⟨rfl, rfl⟩ := Prod.mk.inj (Option.some.inj hst)
      exact ⟨rfl, fun _ => x.assign_totalDistance s.speedometer⟩
  | readTimer | readLastTime | readSpeed | storeLastTime | computeSpeed | readResult =>
    obtain ⟨rfl, rfl⟩ := Prod.mk.inj (Option.some.inj hst)
    exact ⟨rfl, fun _ => rfl⟩
  | returned value => exact absurd hst (by simp [operationStep])

/-- Every access keeps the first phase, but for the one that ends it. -/
theorem Before.step {op : Operation} {s₀ : Speedometer} {s t : Race} {a : Label}
    (h : Before s₀ s) (ha : ¬ (a = .isr ∧ s.isr = .clearSpeed))
    (hst : Race.step op s a = some t) : Before s₀ t := by
  have hexclusive := h.exclusive.step hst
  cases a with
  | tick d =>
    obtain rfl := Option.some.inj hst
    exact ⟨hexclusive, by have := h.lastTime_le; simp only; omega, h.isr, h.periodic⟩
  | isr =>
    obtain ⟨p, hp, rfl⟩ := Option.map_eq_some_iff.mp hst
    rcases h.isr with hi | hi | ⟨hi, -⟩
    · rw [hi] at hp
      obtain ⟨q, hlock, rfl⟩ := Option.map_eq_some_iff.mp hp
      obtain ⟨-, rfl⟩ := Shared.lock_eq_some.mp hlock
      exact ⟨hexclusive, h.lastTime_le, Or.inr (Or.inl rfl), h.periodic⟩
    · rw [hi] at hp
      obtain rfl := Option.some.inj hp
      exact ⟨hexclusive, h.lastTime_le, Or.inr (Or.inr ⟨rfl, rfl⟩), h.periodic.congr rfl rfl⟩
    · exact absurd ⟨rfl, hi⟩ ha
  | periodic =>
    obtain ⟨⟨shared, pc⟩, hp, rfl⟩ := Option.map_eq_some_iff.mp hst
    refine ⟨hexclusive, ?_, ?_, h.periodic.step h.lastTime_le hp⟩
    · exact (operationStep_frame hp).1.symm ▸ h.lastTime_le
    · rcases h.isr with hi | hi | ⟨hi, htotal⟩
      · exact Or.inl hi
      · exact Or.inr (Or.inl hi)
      · have houtside := h.exclusive.not_both (hi ▸ trivial)
        exact Or.inr (Or.inr ⟨hi, ((operationStep_frame hp).2 houtside).trans htotal⟩)

/-- The access that clears the speed decides the final total: it is the increment
waiting at the mutex, and zero if none waits. -/
theorem Before.clearSpeed {op : Operation} {s₀ : Speedometer} {s t : Race} (h : Before s₀ s)
    (hi : s.isr = .clearSpeed) (hst : Race.step op s .isr = some t) :
    ∃ e, After e t ∧ (e ≠ 0 ↔ Waiting s₀ s) := by
  have houtside := h.exclusive.not_both (hi ▸ trivial)
  have htotal : s.shared.speedometer.totalDistance = 0 := by
    rcases h.isr with hpc | hpc | ⟨-, htotal⟩
    · exact absurd (hi.symm.trans hpc) (by simp)
    · exact absurd (hi.symm.trans hpc) (by simp)
    · exact htotal
  have hperiodic := h.periodic
  obtain ⟨shared, isr, periodic⟩ := s
  obtain rfl : isr = .clearSpeed := hi
  obtain rfl := Option.some.inj hst
  cases periodic with
  | lock currentTime distance =>
    obtain ⟨hc, rfl⟩ := hperiodic
    refine ⟨s₀.increment currentTime, ⟨by simp, htotal, rfl⟩, ?_⟩
    have hzero := Speedometer.increment_eq_zero_iff hc
    simp only [Waiting, OperationPc.lock.injEq, ne_eq, hzero, not_or, Int.not_lt]
    constructor
    · exact fun hne => ⟨currentTime, _, ⟨rfl, rfl⟩, hne⟩
    · rintro ⟨c, d, ⟨rfl, rfl⟩, hne⟩
      exact hne
  | readTotal | storeTotal | unlock => exact absurd trivial houtside
  | test | readTimer | readLastTime | readSpeed =>
    exact ⟨0, ⟨by simp, rfl, htotal, rfl⟩, by simp [Waiting]⟩
  | storeLastTime | store | computeSpeed | readResult | returned =>
    exact ⟨0, ⟨by simp, htotal⟩, by simp [Waiting]⟩

/-- Once decided, the final total is not changed by any access. -/
theorem Decided.step {op : Operation} {e : ℚ} {s t : Shared} {pc pc' : OperationPc}
    (h : Decided e s.speedometer pc) (hst : operationStep op s pc = some (t, pc')) :
    Decided e t.speedometer pc' := by
  cases pc with
  | test =>
    cases op with
    | getDistance => exact absurd hst (by simp [operationStep])
    | set x =>
      obtain ⟨rfl, rfl⟩ := Prod.mk.inj (Option.some.inj hst)
      split
      · exact h
      · exact h.2.1.trans h.2.2.symm
  | readTimer | readLastTime =>
    obtain ⟨rfl, rfl⟩ := Prod.mk.inj (Option.some.inj hst)
    exact h
  | readSpeed currentTime elapsedTime =>
    obtain ⟨rfl, rfl⟩ := Prod.mk.inj (Option.some.inj hst)
    obtain ⟨hv, htotal, rfl⟩ := h
    exact ⟨htotal, by rw [hv, zero_mul, zero_div]⟩
  | lock currentTime distance =>
    obtain ⟨q, hlock, hq⟩ := Option.map_eq_some_iff.mp hst
    obtain ⟨rfl, rfl⟩ := Prod.mk.inj hq
    obtain ⟨-, rfl⟩ := Shared.lock_eq_some.mp hlock
    exact h
  | readTotal currentTime distance =>
    obtain ⟨rfl, rfl⟩ := Prod.mk.inj (Option.some.inj hst)
    exact h
  | storeTotal currentTime distance total =>
    obtain ⟨rfl, rfl⟩ := Prod.mk.inj (Option.some.inj hst)
    obtain ⟨rfl, rfl⟩ := h
    exact zero_add _
  | storeLastTime currentTime =>
    obtain ⟨rfl, rfl⟩ := Prod.mk.inj (Option.some.inj hst)
    cases op <;> exact h
  | store =>
    cases op with
    | getDistance => exact absurd hst (by simp [operationStep])
    | set x =>
      obtain ⟨rfl, rfl⟩ := Prod.mk.inj (Option.some.inj hst)
      exact (x.assign_totalDistance s.speedometer).trans h
  | unlock | computeSpeed | readResult =>
    obtain ⟨rfl, rfl⟩ := Prod.mk.inj (Option.some.inj hst)
    exact h
  | returned value => exact absurd hst (by simp [operationStep])

/-- Every access keeps the second phase and its outcome. -/
theorem After.step {op : Operation} {e : ℚ} {s t : Race} {a : Label} (h : After e s)
    (hst : Race.step op s a = some t) : After e t := by
  obtain ⟨⟨hlock, hdistance, hspeed⟩, hperiodic⟩ := h
  cases a with
  | tick d =>
    obtain rfl := Option.some.inj hst
    exact ⟨⟨hlock, hdistance, hspeed⟩, hperiodic⟩
  | isr =>
    obtain ⟨shared, isr, periodic⟩ := s
    cases isr with
    | lock => exact absurd rfl hlock
    | clearDistance => exact absurd rfl hdistance
    | clearSpeed => exact absurd rfl hspeed
    | unlock | readTimer =>
      obtain rfl := Option.some.inj hst
      exact ⟨by simp, hperiodic⟩
    | storeLastTime now =>
      obtain rfl := Option.some.inj hst
      refine ⟨by simp, ?_⟩
      cases periodic <;> exact hperiodic
    | returned => exact absurd hst (by simp [Race.step, resetStep])
  | periodic =>
    obtain ⟨⟨shared, pc⟩, hp, rfl⟩ := Option.map_eq_some_iff.mp hst
    exact ⟨⟨hlock, hdistance, hspeed⟩, hperiodic.step hp⟩

/-- The schedule after an enabled access is looked at from the state after it. -/
theorem overtaken_cons {op : Operation} {s₀ : Speedometer} {s t : Race} {a : Label}
    {as : List Label} (hst : Race.step op s a = some t) :
    Overtaken op s₀ s (a :: as) ↔
      (a = .isr ∧ s.isr = .clearSpeed ∧ Waiting s₀ s) ∨ Overtaken op s₀ t as := by
  simp [Overtaken, hst]

/-- Nothing is overtaken any more in the second phase. -/
theorem After.not_overtaken {op : Operation} {e : ℚ} {s₀ : Speedometer} {s : Race}
    (h : After e s) (as : List Label) : ¬ Overtaken op s₀ s as := by
  induction as generalizing s with
  | nil => exact id
  | cons a as ih =>
    rintro (⟨-, hi, -⟩ | ⟨t, hst, ht⟩)
    · exact h.isr.2.2 hi
    · exact ih (h.step hst) ht

/-- From the first phase on, a completed run ends at zero unless it is overtaken. -/
theorem Before.zero_iff {op : Operation} {s₀ : Speedometer} {s t : Race}
    {as : List Label} (h : Before s₀ s) (hrun : Transition.run (Race.step op) s as = some t)
    (ht : t.Completed) :
    t.shared.speedometer.totalDistance = 0 ↔ ¬ Overtaken op s₀ s as := by
  induction as generalizing s with
  | nil =>
    obtain rfl := Option.some.inj hrun
    rcases h.isr with hi | hi | ⟨hi, -⟩ <;> exact absurd (hi.symm.trans ht.1) (by simp)
  | cons a as ih =>
    obtain ⟨m, hm, hrest⟩ := Transition.run_cons_eq_some.mp hrun
    rw [overtaken_cons hm]
    by_cases ha : a = .isr ∧ s.isr = .clearSpeed
    · obtain ⟨rfl, hi⟩ := ha
      obtain ⟨e, hafter, he⟩ := h.clearSpeed hi hm
      have hend := Transition.run_invariant After.step hafter hrest
      have htotal : t.shared.speedometer.totalDistance = e := by
        obtain ⟨-, value, hp⟩ := ht
        have hdecided := hend.periodic
        rwa [hp] at hdecided
      have hlater : ¬ Overtaken op s₀ m as := hafter.not_overtaken as
      simp only [hi, true_and, hlater, or_false, htotal, ← he, not_not]
    · have hfirst : ¬ (a = .isr ∧ s.isr = .clearSpeed ∧ Waiting s₀ s) :=
        fun hh => ha ⟨hh.1, hh.2.1⟩
      rw [or_iff_right hfirst]
      exact ih (h.step ha hm) hrest

/-- In either serial order the total is zero in the end. -/
theorem serial_totalDistance (s : Speedometer) (t u : ℤ) (op : Operation) :
    ((s.reset t).after u op.call).totalDistance = 0 ∧
      ((s.after t op.call).reset u).totalDistance = 0 := by
  refine ⟨?_, rfl⟩
  have hincrement : (s.reset t).increment u = 0 := by simp [Speedometer.increment]
  cases op with
  | getDistance =>
    exact (congrArg₂ (· + ·) rfl hincrement).trans (add_zero 0)
  | set x =>
    by_cases hx : x.apply (s.reset t).settings = (s.reset t).settings
    · exact congrArg Speedometer.totalDistance (Speedometer.set_of_apply_eq hx u)
    · obtain ⟨-, -, htotal, -⟩ := Speedometer.set_of_apply_ne hx u
      rw [hincrement] at htotal
      exact htotal.trans (add_zero 0)

/-- Whatever the starting state, the operation and the schedule: once both threads
have returned, the total is zero exactly when the schedule does not clear the speed
while an increment of the starting speed is waiting at the mutex. -/
theorem total_eq_zero_iff (s₀ : Speedometer) (now : ℤ) (hlast : s₀.lastTime ≤ now)
    (op : Operation) (as : List Label) (t : Race)
    (hrun : Transition.run (Race.step op) (start s₀ now op) as = some t) (ht : t.Completed) :
    t.shared.speedometer.totalDistance = 0 ↔ ¬ Overtaken op s₀ (start s₀ now op) as :=
  (start_before hlast op).zero_iff hrun ht

/-- A reset that runs before the distance is computed is not overtaken. -/
theorem total_eq_zero_iff_reset_first :
    ∃ t, Transition.run (Race.step .getDistance)
        (start { currentSpeed := 36, totalDistance := 5 } 1000000 .getDistance)
        (List.replicate 6 .isr ++ [.tick 7] ++ List.replicate 9 .periodic) = some t ∧
      (t.shared.speedometer.totalDistance = 0 ↔
        ¬ Overtaken .getDistance { currentSpeed := 36, totalDistance := 5 }
          (start { currentSpeed := 36, totalDistance := 5 } 1000000 .getDistance)
          (List.replicate 6 .isr ++ [.tick 7] ++ List.replicate 9 .periodic)) :=
  ⟨_, rfl, total_eq_zero_iff _ 1000000 (by decide) .getDistance _ _ rfl ⟨rfl, _, rfl⟩⟩

/-- A reset that runs while the distance of one second at 36 km/h waits for the
mutex: ten metres are added to the total after it was cleared. -/
theorem reset_undone :
    ∃ t, Transition.run (Race.step .getDistance)
        (start { currentSpeed := 36 } 1000000 .getDistance)
        (List.replicate 3 .periodic ++ List.replicate 6 .isr ++ List.replicate 6 .periodic) =
          some t ∧ t.Completed ∧ t.shared.speedometer.totalDistance = 1 / 100 := by
  refine ⟨_, rfl, ⟨rfl, _, rfl⟩, ?_⟩
  have hms : toMilliseconds 1000000 = 1000 := rfl
  norm_num [start, Shared.unlock, hms]

end Race

end BikeComputer.MultiTasking
