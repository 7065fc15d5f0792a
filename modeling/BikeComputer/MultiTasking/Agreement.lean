import BikeComputer.Core.Counter
import BikeComputer.Core.Mirror
import BikeComputer.MultiTasking.BikeSystem

/-!
# Agreement of the bike system with its devices

Both devices post every change, and the bike system copies the values it dispatches.
The gears and the rotation times are therefore mirrored through the queue, each
counter in its own steps. The pedal device also posts its initial value once, so the
mirror of the rotation times starts with the first pedal event.
-/

namespace BikeComputer.MultiTasking

open Mirror

/-- Gears that differ by exactly one. -/
def GearChange (a b : UInt8) : Prop := a.toNat + 1 = b.toNat ∨ b.toNat + 1 = a.toNat

/-- Rotation times that differ by exactly one step. -/
def RotationChange (a b : ℤ) : Prop :=
  a + kDeltaPedalRotationTime = b ∨ b + kDeltaPedalRotationTime = a

/-- A callback of the gear device posts a change of the gear, or nothing. -/
theorem GearDevice.onJoystick_change (d : GearDevice) (j : Joystick.State) :
    d.onJoystick j = (d, []) ∨
      ∃ g, d.onJoystick j = (⟨g⟩, [.gear g (kMaxGearSize - g)]) ∧ GearChange d.currentGear g := by
  rcases d.onJoystick_cases j with h | ⟨g, h, ⟨hlt, rfl⟩ | ⟨hlt, rfl⟩⟩
  · exact Or.inl h
  · exact Or.inr ⟨_, h, Or.inl (Counter.UInt8.succ_toNat hlt).symm⟩
  · exact Or.inr ⟨_, h, Or.inr (Counter.UInt8.pred_toNat hlt)⟩

/-- A callback of the pedal device posts a change of the rotation, or nothing. -/
theorem PedalDevice.onJoystick_change (d : PedalDevice) (j : Joystick.State) :
    d.onJoystick j = (d, []) ∨
      ∃ d', d.onJoystick j = (d', [.pedal d'.getCurrentRotationTime]) ∧
        RotationChange d.getCurrentRotationTime d'.getCurrentRotationTime := by
  rcases d.onJoystick_cases j with h | ⟨d', h, ⟨hlt, hstep⟩ | ⟨hlt, hstep⟩⟩
  · exact Or.inl h
  · have hsucc := Counter.UInt32.succ_toNat hlt
    refine Or.inr ⟨d', h, Or.inl ?_⟩
    simp only [getCurrentRotationTime, kDeltaPedalRotationTime, hstep, hsucc]
    omega
  · have hpred := Counter.UInt32.pred_toNat hlt
    refine Or.inr ⟨d', h, Or.inr ?_⟩
    simp only [getCurrentRotationTime, kDeltaPedalRotationTime, hstep, ← hpred]
    omega

/-- The gear that will be shown when the callback being run returns. -/
def Activity.gear : Activity → UInt8 → UInt8
  | .onGearEvent g _, _ => g
  | _, current => current

/-- The settings that will be in force when the callback being run returns. -/
def Activity.confirm : Activity → Settings → Settings
  | .onGearEvent _ gearSize, σ => (Setter.gearSize gearSize).apply σ
  | .onPedalEvent rotationTime, σ => (Setter.rotationTime rotationTime).apply σ
  | .operation op _, σ => op.call.confirm σ
  | _, σ => σ

/-- An operation that has stored its settings has them in force. -/
def Activity.Stored (σ : Settings) : Activity → Prop
  | .operation op pc => pc.Stored op σ
  | _ => True

/-- The gear an event carries. -/
def Event.gear? : Event → Option UInt8
  | .gear g _ => some g
  | .pedal _ => none

/-- The rotation time an event carries. -/
def Event.rotationTime? : Event → Option ℤ
  | .gear _ _ => none
  | .pedal rotationTime => some rotationTime

namespace BikeSystem

/-- The gear after the callback that is running. -/
def shownGear (s : BikeSystem) : UInt8 := s.periodic.gear s.currentGear

/-- The settings after the callback that is running. -/
def confirmed (s : BikeSystem) : Settings := s.periodic.confirm s.shared.speedometer.settings

/-- The gears that wait in the queue. -/
def pendingGears (s : BikeSystem) : List UInt8 := s.eventQueuePeriodic.filterMap Event.gear?

/-- The rotation times that wait in the queue. -/
def pendingRotationTimes (s : BikeSystem) : List ℤ :=
  s.eventQueuePeriodic.filterMap Event.rotationTime?

/-- The devices, the queue and what the current callback leads to are the same. -/
structure SameView (s t : BikeSystem) : Prop where
  gearDevice : t.gearDevice = s.gearDevice
  pedalDevice : t.pedalDevice = s.pedalDevice
  queue : t.eventQueuePeriodic = s.eventQueuePeriodic
  shownGear : t.shownGear = s.shownGear
  confirmed : t.confirmed = s.confirmed

/-- Inside a callback, the periodic thread does what its event said. -/
theorem sameView_periodic {s t : BikeSystem} (h : s.periodic.Stored s.shared.speedometer.settings)
    (hst : s.periodicStep = some t) :
    SameView s t ∧ t.periodic.Stored t.shared.speedometer.settings := by
  rcases periodicStep_cases hst with ⟨gear, gearSize, hp, rfl⟩ | ⟨rotationTime, hp, rfl⟩ |
    ⟨hp, rfl⟩ | ⟨op, value, hp, rfl⟩ | ⟨op, pc, shared, pc', hp, hop, rfl⟩
  · refine ⟨⟨rfl, rfl, rfl, ?_, ?_⟩, trivial⟩
    · simp [shownGear, hp, Activity.gear]
    · simp [confirmed, hp, Activity.confirm, Operation.call, Call.confirm]
  · refine ⟨⟨rfl, rfl, rfl, ?_, ?_⟩, trivial⟩
    · simp [shownGear, hp, Activity.gear]
    · simp [confirmed, hp, Activity.confirm, Operation.call, Call.confirm]
  · refine ⟨⟨rfl, rfl, rfl, ?_, ?_⟩, trivial⟩
    · simp [shownGear, hp, Activity.gear]
    · simp [confirmed, hp, Activity.confirm, Operation.call, Call.confirm]
  · rw [hp] at h
    refine ⟨⟨rfl, rfl, rfl, ?_, ?_⟩, trivial⟩
    · simp [shownGear, hp, Activity.gear]
    · simp only [confirmed, hp, Activity.confirm]
      exact Eq.symm h
  · rw [hp] at h
    obtain ⟨hconfirm, hstored⟩ := operationStep_confirm h hop
    refine ⟨⟨rfl, rfl, rfl, ?_, ?_⟩, hstored⟩
    · simp [shownGear, hp, Activity.gear]
    · simpa only [confirmed, hp, Activity.confirm] using hconfirm

/-- The ISR thread leaves the settings alone. -/
theorem resetStep_settings {s t : Shared} {pc pc' : ResetPc}
    (hst : resetStep s pc = some (t, pc')) : t.speedometer.settings = s.speedometer.settings := by
  cases pc with
  | lock =>
    obtain ⟨q, hlock, hq⟩ := Option.map_eq_some_iff.mp hst
    obtain ⟨rfl, rfl⟩ := Prod.mk.inj hq
    obtain ⟨-, rfl⟩ := Shared.lock_eq_some.mp hlock
    rfl
  | clearDistance | clearSpeed | unlock | readTimer | storeLastTime =>
    obtain ⟨rfl, rfl⟩ := Prod.mk.inj (Option.some.inj hst)
    rfl
  | returned => exact absurd hst (by simp [resetStep])

/-- The ISR thread changes nothing of what the agreement speaks about. -/
theorem sameView_isr {s t : BikeSystem} (h : s.periodic.Stored s.shared.speedometer.settings)
    (hst : s.isrStep = some t) :
    SameView s t ∧ t.periodic.Stored t.shared.speedometer.settings := by
  rcases isrStep_cases hst with ⟨-, n, -, rfl⟩ | ⟨-, rfl⟩ | ⟨pc, shared, pc', -, hreset, rfl⟩
  · exact ⟨⟨rfl, rfl, rfl, rfl, rfl⟩, h⟩
  · exact ⟨⟨rfl, rfl, rfl, rfl, rfl⟩, h⟩
  · have hσ := resetStep_settings hreset
    exact ⟨⟨rfl, rfl, rfl, rfl, by simp [confirmed, hσ]⟩, by simpa [hσ] using h⟩

/-- Neither a joystick state nor the dispatch of an event. -/
def Label.Quiet : Label → Prop
  | .joystick _ | .dispatch _ => False
  | _ => True

/-- Every other step leaves the view of the devices as it is. -/
theorem sameView_of_quiet {s t : BikeSystem} {a : Label}
    (h : s.periodic.Stored s.shared.speedometer.settings) (ha : a.Quiet)
    (hst : s.step a = some t) :
    SameView s t ∧ t.periodic.Stored t.shared.speedometer.settings := by
  cases a with
  | joystick | dispatch => exact absurd ha id
  | periodic => exact sameView_periodic h hst
  | isr => exact sameView_isr h hst
  | onReset | tick =>
    obtain rfl := Option.some.inj hst
    exact ⟨⟨rfl, rfl, rfl, rfl, rfl⟩, h⟩
  | displayTask =>
    obtain ⟨hp, rfl⟩ := step_displayTask.mp hst
    refine ⟨⟨rfl, rfl, rfl, ?_, ?_⟩, trivial⟩
    · simp [shownGear, hp, Activity.gear]
    · simp [confirmed, hp, Activity.confirm]
  | temperatureTask temperature =>
    obtain ⟨-, rfl⟩ := step_temperatureTask.mp hst
    exact ⟨⟨rfl, rfl, rfl, rfl, rfl⟩, h⟩

/-- Pedal callbacks post no gears. -/
theorem onJoystick_pendingGears (s : BikeSystem) (j : Joystick.State) :
    (s.onJoystick j).pendingGears =
      s.pendingGears ++ (s.gearDevice.onJoystick j).2.filterMap Event.gear? := by
  have hpedal : (s.pedalDevice.onJoystick j).2.filterMap Event.gear? = [] := by
    rcases s.pedalDevice.onJoystick_change j with h | ⟨d, h, -⟩ <;> simp [h, Event.gear?]
  simp [pendingGears, onJoystick, hpedal]

/-- Gear callbacks post no rotation times. -/
theorem onJoystick_pendingRotationTimes (s : BikeSystem) (j : Joystick.State) :
    (s.onJoystick j).pendingRotationTimes =
      s.pendingRotationTimes ++ (s.pedalDevice.onJoystick j).2.filterMap Event.rotationTime? := by
  have hgear : (s.gearDevice.onJoystick j).2.filterMap Event.rotationTime? = [] := by
    rcases s.gearDevice.onJoystick_change j with h | ⟨g, h, -⟩ <;> simp [h, Event.rotationTime?]
  simp [pendingRotationTimes, onJoystick, hgear]

/-- The gears agree through the queue, and every size belongs to its gear. -/
structure GearAgreement (s : BikeSystem) : Prop where
  pending : InStep GearChange s.shownGear s.pendingGears s.gearDevice.currentGear
  sizes : ∀ g size, Event.gear g size ∈ s.eventQueuePeriodic → size = kMaxGearSize - g
  gearSize : s.confirmed.gearSize = kMaxGearSize - s.shownGear

/-- The agreement on the gear depends on the view only. -/
theorem GearAgreement.of_sameView {s t : BikeSystem} (h : GearAgreement s) (ht : SameView s t) :
    GearAgreement t := by
  refine ⟨?_, ?_, ?_⟩
  · rw [ht.shownGear, ht.gearDevice, pendingGears, ht.queue]
    exact h.pending
  · rw [ht.queue]
    exact h.sizes
  · rw [ht.confirmed, ht.shownGear]
    exact h.gearSize

/-- A callback that posts the gear it changes keeps the agreement. -/
theorem GearAgreement.joystick {s : BikeSystem} (h : GearAgreement s) (j : Joystick.State) :
    GearAgreement (s.onJoystick j) := by
  have hsizes : ∀ g size, Event.gear g size ∈ (s.pedalDevice.onJoystick j).2 →
      size = kMaxGearSize - g := by
    intro g size hmem
    rcases s.pedalDevice.onJoystick_change j with hp | ⟨d, hp, -⟩ <;> simp [hp] at hmem
  refine ⟨?_, ?_, h.gearSize⟩
  · change InStep GearChange s.shownGear (s.onJoystick j).pendingGears
      (s.gearDevice.onJoystick j).1.currentGear
    rw [onJoystick_pendingGears]
    rcases s.gearDevice.onJoystick_change j with hg | ⟨g, hg, hchange⟩
    · simpa [hg] using h.pending
    · simpa [hg, Event.gear?] using h.pending.post hchange
  · intro g size hmem
    simp only [onJoystick, List.mem_append, or_assoc] at hmem
    rcases hmem with hmem | hmem | hmem
    · exact h.sizes g size hmem
    · rcases s.gearDevice.onJoystick_change j with hg | ⟨g', hg, -⟩
      · simp [hg] at hmem
      · simp only [hg, List.mem_singleton, Event.gear.injEq] at hmem
        obtain ⟨rfl, rfl⟩ := hmem
        rfl
    · exact hsizes g size hmem

/-- Dispatching an event keeps the agreement on the gear. -/
theorem GearAgreement.dispatch {s t : BikeSystem} (h : GearAgreement s) {e : Event}
    (hst : s.step (.dispatch e) = some t) : GearAgreement t := by
  obtain ⟨hp, es, hq, rfl⟩ := step_dispatch.mp hst
  obtain ⟨hpending, hsizes, hsize⟩ := h
  simp only [shownGear, pendingGears, confirmed, hp, hq, Activity.gear, Activity.confirm]
    at hpending hsizes hsize
  have hrest : ∀ g size, Event.gear g size ∈ es → size = kMaxGearSize - g :=
    fun g size hmem => hsizes g size (List.mem_cons_of_mem e hmem)
  cases e with
  | gear g size =>
    have hfront : InStep GearChange s.currentGear (g :: es.filterMap Event.gear?)
        s.gearDevice.currentGear := hpending
    exact ⟨hfront.take, hrest, hsizes g size (List.mem_cons_self ..)⟩
  | pedal rotationTime =>
    have hbehind : InStep GearChange s.currentGear (es.filterMap Event.gear?)
        s.gearDevice.currentGear := hpending
    exact ⟨hbehind, hrest, hsize⟩

/-- The rotation times agree through the queue once a pedal event has been dispatched.
Until then the event of the constructor repeats the initial rotation time. -/
def PedalAgreement (dispatched : Prop) (s : BikeSystem) : Prop :=
  (dispatched → InStep RotationChange s.confirmed.rotationTime s.pendingRotationTimes
    s.pedalDevice.getCurrentRotationTime) ∧
  (¬ dispatched → s.confirmed.rotationTime = kInitialPedalRotationTime ∧
    ∃ rest, s.pendingRotationTimes = kInitialPedalRotationTime :: rest ∧
      InStep RotationChange kInitialPedalRotationTime rest s.pedalDevice.getCurrentRotationTime)

/-- The agreement on the rotation time depends on the view only. -/
theorem PedalAgreement.of_sameView {dispatched : Prop} {s t : BikeSystem}
    (h : PedalAgreement dispatched s) (ht : SameView s t) : PedalAgreement dispatched t := by
  unfold PedalAgreement pendingRotationTimes
  rw [ht.confirmed, ht.pedalDevice, ht.queue]
  exact h

/-- A callback that posts the rotation it changes keeps the agreement. -/
theorem PedalAgreement.joystick {dispatched : Prop} {s : BikeSystem}
    (h : PedalAgreement dispatched s) (j : Joystick.State) :
    PedalAgreement dispatched (s.onJoystick j) := by
  have hpending := s.onJoystick_pendingRotationTimes j
  have hconfirmed : (s.onJoystick j).confirmed = s.confirmed := rfl
  have hdevice : (s.onJoystick j).pedalDevice = (s.pedalDevice.onJoystick j).1 := rfl
  unfold PedalAgreement
  rw [hpending, hconfirmed, hdevice]
  rcases s.pedalDevice.onJoystick_change j with hp | ⟨d, hp, hchange⟩
  · simp only [hp, List.filterMap_nil, List.append_nil]
    exact h
  · simp only [hp, List.filterMap_cons, List.filterMap_nil, Event.rotationTime?]
    refine ⟨fun hd => (h.1 hd).post hchange, fun hd => ?_⟩
    obtain ⟨hinitial, rest, hrest, hstep⟩ := h.2 hd
    exact ⟨hinitial, rest ++ [d.getCurrentRotationTime], by rw [hrest, List.cons_append],
      hstep.post hchange⟩

/-- A dispatched pedal event is the next rotation time, or the one of the constructor. -/
theorem PedalAgreement.dispatch {dispatched : Prop} {s t : BikeSystem}
    (h : PedalAgreement dispatched s) {e : Event} (hst : s.step (.dispatch e) = some t) :
    PedalAgreement (dispatched ∨ ∃ rotationTime, e = .pedal rotationTime) t := by
  obtain ⟨hp, es, hq, rfl⟩ := step_dispatch.mp hst
  unfold PedalAgreement at h
  simp only [pendingRotationTimes, confirmed, hp, hq, Activity.confirm] at h
  obtain ⟨hlater, hfirst⟩ := h
  cases e with
  | gear g size =>
    have hd : (dispatched ∨ ∃ rotationTime, Event.gear g size = .pedal rotationTime) ↔
        dispatched := by simp
    unfold PedalAgreement
    rw [hd]
    exact ⟨hlater, hfirst⟩
  | pedal rotationTime =>
    refine ⟨fun _ => ?_, fun hd => absurd (Or.inr ⟨rotationTime, rfl⟩) hd⟩
    by_cases hd : dispatched
    · have hfront : InStep RotationChange s.shared.speedometer.pedalRotationTime
          (rotationTime :: es.filterMap Event.rotationTime?)
          s.pedalDevice.getCurrentRotationTime := hlater hd
      exact hfront.take
    · obtain ⟨-, rest, hrest, hstep⟩ := hfirst hd
      obtain ⟨rfl, rfl⟩ := List.cons.inj hrest
      exact hstep

/-- Some pedal event has been dispatched along the run. -/
def PedalDispatched (tr : List Label) : Prop :=
  ∃ rotationTime, Label.dispatch (.pedal rotationTime) ∈ tr

/-- What holds in every state of every run. -/
structure Agreement (tr : List Label) (s : BikeSystem) : Prop where
  stored : s.periodic.Stored s.shared.speedometer.settings
  gears : GearAgreement s
  pedals : PedalAgreement (PedalDispatched tr) s

/-- The devices agree with the system at the construction. -/
theorem new_agreement (elapsedTime : ℤ) : Agreement [] (new elapsedTime) := by
  have hsize : (19 : UInt8) = kMaxGearSize - kMinGear := by decide
  refine ⟨trivial, ⟨?_, ?_, hsize⟩, ?_⟩
  · exact inStep_nil.mpr rfl
  · intro g size hmem
    simp [new, PedalDevice.new, PedalDevice.postEvent] at hmem
  · have hnone : ¬ PedalDispatched [] := by simp [PedalDispatched]
    have hdevice : kInitialPedalRotationTime = ({} : PedalDevice).getCurrentRotationTime := by
      decide
    exact ⟨fun hd => absurd hd hnone, fun _ => ⟨rfl, [], congrArg (fun t => [t]) hdevice.symm,
      inStep_nil.mpr hdevice⟩⟩

/-- The question whether a pedal event has been dispatched is settled by dispatches. -/
theorem pedalDispatched_snoc (tr : List Label) (a : Label) :
    PedalDispatched (tr ++ [a]) ↔
      PedalDispatched tr ∨ ∃ rotationTime, a = .dispatch (.pedal rotationTime) := by
  simp only [PedalDispatched, List.mem_append, List.mem_singleton, exists_or, eq_comm]

/-- Every step keeps the agreement. -/
theorem Agreement.step {tr : List Label} {s t : BikeSystem} {a : Label} (h : Agreement tr s)
    (hst : s.step a = some t) : Agreement (tr ++ [a]) t := by
  by_cases ha : a.Quiet
  · obtain ⟨hview, hstored⟩ := sameView_of_quiet h.stored ha hst
    have hsame : PedalDispatched (tr ++ [a]) ↔ PedalDispatched tr := by
      rw [pedalDispatched_snoc, or_iff_left]
      rintro ⟨rotationTime, rfl⟩
      exact ha
    exact ⟨hstored, h.gears.of_sameView hview, by rw [hsame]; exact h.pedals.of_sameView hview⟩
  · cases a with
    | joystick j =>
      obtain rfl := Option.some.inj hst
      have hsame : PedalDispatched (tr ++ [.joystick j]) ↔ PedalDispatched tr := by
        simp [pedalDispatched_snoc]
      exact ⟨h.stored, h.gears.joystick j, by rw [hsame]; exact h.pedals.joystick j⟩
    | dispatch e =>
      have hnow : PedalDispatched (tr ++ [.dispatch e]) ↔
          PedalDispatched tr ∨ ∃ rotationTime, e = .pedal rotationTime := by
        simp [pedalDispatched_snoc]
      refine ⟨?_, h.gears.dispatch hst, by rw [hnow]; exact h.pedals.dispatch hst⟩
      obtain ⟨-, es, -, rfl⟩ := step_dispatch.mp hst
      cases e <;> trivial
    | onReset | displayTask | temperatureTask | periodic | isr | tick =>
      exact absurd trivial ha

/-- In every run, between two callbacks of the periodic thread: the gear shown and the
pending gears are a chain of single changes that ends at the gear of the device, and
every pending size belongs to its gear; the speedometer has the size of the gear shown;
and its rotation time and the pending ones are a chain of single steps that ends at the
rotation time of the device, but for the first pedal event, which repeats the initial
rotation time. -/
theorem agreement_between_callbacks (elapsedTime : ℤ) (tr : List Label) (s : BikeSystem)
    (hrun : Transition.run step (new elapsedTime) tr = some s) (hidle : s.periodic = .idle) :
    ((s.currentGear :: s.pendingGears).IsChain GearChange ∧
      (s.currentGear :: s.pendingGears).getLast (List.cons_ne_nil _ _) =
        s.gearDevice.currentGear ∧
      ∀ g size, Event.gear g size ∈ s.eventQueuePeriodic → size = kMaxGearSize - g) ∧
    s.shared.speedometer.gearSize = kMaxGearSize - s.currentGear ∧
    (s.shared.speedometer.pedalRotationTime :: s.pendingRotationTimes).getLast
        (List.cons_ne_nil _ _) = s.pedalDevice.getCurrentRotationTime ∧
    (PedalDispatched tr →
      (s.shared.speedometer.pedalRotationTime :: s.pendingRotationTimes).IsChain
        RotationChange) ∧
    (¬ PedalDispatched tr →
      s.shared.speedometer.pedalRotationTime = kInitialPedalRotationTime ∧
      s.pendingRotationTimes.head? = some kInitialPedalRotationTime ∧
      s.pendingRotationTimes.IsChain RotationChange) := by
  obtain ⟨-, hgears, hpedals⟩ := Transition.run_history (new_agreement elapsedTime)
    (fun _ h hst => h.step hst) hrun
  obtain ⟨hpending, hsizes, hsize⟩ := hgears
  unfold PedalAgreement at hpedals
  simp only [shownGear, confirmed, hidle, Activity.gear, Activity.confirm] at hpending hsize hpedals
  obtain ⟨hlater, hfirst⟩ := hpedals
  refine ⟨⟨hpending.chain, hpending.last, hsizes⟩, hsize, ?_, fun hd => (hlater hd).chain, ?_⟩
  · by_cases hd : PedalDispatched tr
    · exact (hlater hd).last
    · obtain ⟨-, rest, hrest, hstep⟩ := hfirst hd
      have hlast := hstep.last
      simpa only [hrest, List.getLast_cons_cons] using hlast
  · intro hd
    obtain ⟨hinitial, rest, hrest, hstep⟩ := hfirst hd
    refine ⟨hinitial, by rw [hrest, List.head?_cons], ?_⟩
    rw [hrest]
    exact hstep.chain

/-- With one event of each kind pending behind the event of the constructor. -/
theorem agreement_between_callbacks_two_presses :
    ∃ s, Transition.run step (new 0) [.joystick .upPressed, .joystick .leftPressed] = some s ∧
      (s.currentGear :: s.pendingGears).getLast (List.cons_ne_nil _ _) =
        s.gearDevice.currentGear ∧
      s.shared.speedometer.gearSize = kMaxGearSize - s.currentGear ∧
      (s.shared.speedometer.pedalRotationTime :: s.pendingRotationTimes).getLast
        (List.cons_ne_nil _ _) = s.pedalDevice.getCurrentRotationTime := by
  refine ⟨_, rfl, ?_⟩
  obtain ⟨⟨-, hgear, -⟩, hsize, htime, -⟩ := agreement_between_callbacks 0
    [.joystick .upPressed, .joystick .leftPressed] _ rfl rfl
  exact ⟨hgear, hsize, htime⟩

end BikeSystem

end BikeComputer.MultiTasking
