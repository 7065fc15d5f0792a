import BikeComputer.Correctness.PolledReset
import BikeComputer.StaticScheduling.SlowWindow

/-!
# How long a press has to be held

The calls of the super-loop never take less than their computation times, but each of them
may take somewhat longer. Nothing corrects the delay, so the calls of the reset task drift
apart from their slots. Between two of them in a row at most four other calls are made, and
inside each of them no two reads of the button are farther apart than a given gap. The
longest time without a read therefore goes from the last read of one call to the first read
of the next one. It is exactly how long a press has to be held for the polled reset to find
it.
-/

namespace BikeComputer.StaticScheduling

open PeriodicQueue

/-- A run of the super-loop in which every call takes its computation time and at most
`overshoot` longer, and the reads of the button during a call of `resetTask` are at most
`gap` apart. Instants are in microseconds; the window of a call is used if the call is one
of `resetTask`, and so is the reading of the timer that a reset makes. -/
structure TimedRun (T : Type*) [Ring T] [LinearOrder T] (overshoot gap : T) (read : T → ℤ) where
  state : ℕ → BikeSystem
  label : ℕ → BikeSystem.Label
  window : ℕ → ResetWindow T
  begins : ℕ → T
  reading : ℕ → ℤ
  step_eq : ∀ n, (state n).step (label n) = some (state (n + 1))
  task_eq : ∀ n, (label n).task = start n
  reset_eq : ∀ n, start n = .resetTask →
    label n = .resetTask ((window n).reads.map read).passes (reading n)
  begins_zero : begins 0 = 0
  le_begins : ∀ n, begins n + 1000 * timing.computationTime (start n) ≤ begins (n + 1)
  begins_le : ∀ n,
    begins (n + 1) ≤ begins n + 1000 * timing.computationTime (start n) + overshoot
  window_start : ∀ n, (window n).start = begins n
  /-- The button is read at the start of the window. -/
  first_read : ∀ n, (window n).reads.samples.head? = some (window n).start
  paced : ∀ n, (window n).Paced gap
  window_finish : ∀ n, start n = .resetTask → (window n).finish ≤ begins (n + 1)
  reading_le : ∀ n, (reading n : T) ≤ begins (n + 1)
  lt_reading : ∀ n, begins n < (reading n : T) + 1

/-- The `n`-th call is one of `resetTask`, finds the button pressed and resets the
speedometer. -/
structure TimedRun.Resets {T : Type*} [Ring T] [LinearOrder T] {overshoot gap : T}
    {read : T → ℤ} (r : TimedRun T overshoot gap read) (n : ℕ) : Prop where
  call : start n = .resetTask
  detected : (r.window n).checkReset read = some true
  reset : r.state (n + 1) =
    { r.state n with speedometer := (r.state n).speedometer.reset (r.reading n) }

section Gaps

variable {T : Type*} [CommRing T] [LinearOrder T] {overshoot gap : T} {read : T → ℤ}
variable (r : TimedRun T overshoot gap read)

/-- A call of `resetTask` that finds the button pressed resets the speedometer. -/
theorem TimedRun.resets_of_read {n : ℕ} (hn : start n = .resetTask)
    (hread : ∃ t ∈ (r.window n).reads.samples, read t = kPolarityPressed) : r.Resets n := by
  have hfound := ResetWindow.checkReset_eq_true.mpr hread
  have hstep := r.step_eq n
  rw [r.reset_eq n hn] at hstep
  obtain ⟨pressed, hpressed, hstate⟩ := BikeSystem.resetTask_eq_some.mp hstep
  obtain rfl : true = pressed := Option.some.inj (hfound.symm.trans hpressed)
  exact ⟨hn, hfound, hstate⟩

/-- A call of the reset task ends at most its computation time and one overshoot later. -/
theorem TimedRun.begins_succ_le (k : ℕ) :
    r.begins (resetCall k + 1) ≤
      r.begins (resetCall k) + 1000 * kResetTaskComputationTime + overshoot := by
  have hnext := r.begins_le (resetCall k)
  rw [start_resetCall k] at hnext
  exact hnext

variable [IsStrictOrderedRing T]

/-- A number of calls in a row take at least as long as their slots. -/
theorem TimedRun.le_begins_add (n m : ℕ) :
    r.begins n + 1000 * (slot T (n + m) - slot T n) ≤ r.begins (n + m) := by
  induction m with
  | zero => simp
  | succ m ih =>
    have hnext := r.le_begins (n + m)
    rw [← Nat.add_assoc, slot_succ]
    linarith

/-- A number of calls in a row take at most one overshoot each longer than their slots. -/
theorem TimedRun.begins_add_le (n m : ℕ) :
    r.begins (n + m) ≤ r.begins n + 1000 * (slot T (n + m) - slot T n) + m * overshoot := by
  induction m with
  | zero => simp
  | succ m ih =>
    have hnext := r.begins_le (n + m)
    rw [← Nat.add_assoc, slot_succ]
    push_cast
    linarith

/-- The next call of the reset task is the fifth or the sixth one after it. -/
theorem resetCall_succ (k : ℕ) :
    resetCall (k + 1) = resetCall k + 6 ∨ resetCall (k + 1) = resetCall k + 5 := by
  have hlength : superLoop.length = 11 := rfl
  unfold resetCall
  rw [hlength]
  split <;> split <;> omega

/-- Between two calls of the reset task at most six calls are made. -/
theorem TimedRun.begins_resetCall_succ (h : 0 ≤ overshoot) (k : ℕ) :
    r.begins (resetCall (k + 1)) ≤
      r.begins (resetCall k) + 1000 * kResetTaskPeriod + 6 * overshoot := by
  have hslots : slot T (resetCall (k + 1)) - slot T (resetCall k) = (kResetTaskPeriod : T) := by
    rw [slot_resetCall, slot_resetCall]
    push_cast
    ring
  rcases resetCall_succ k with hk | hk
  · have hgap := r.begins_add_le (resetCall k) 6
    rw [← hk, hslots] at hgap
    exact_mod_cast hgap
  · have hgap := r.begins_add_le (resetCall k) 5
    rw [← hk, hslots] at hgap
    push_cast at hgap
    linarith

/-- The last read of a call comes at most a gap before the end of its computation time. -/
theorem TimedRun.le_lastRead (n : ℕ) :
    r.begins n + 1000 * kResetTaskComputationTime - gap ≤ (r.window n).lastRead := by
  have hfinish := (r.paced n).last
  have hbound : 1000 * kResetTaskComputationTime ≤ (r.window n).reads.duration :=
    (r.window n).reads.finished _ (List.getLast?_eq_some_getLast _)
  have hcast := Int.cast_mono (R := T) hbound
  rw [ResetWindow.finish, r.window_start] at hfinish
  push_cast at hcast
  linarith

/-- The first call of the reset task begins at most four overshoots after its delay. -/
theorem TimedRun.begins_first :
    r.begins (resetCall 0) ≤ 1000 * kResetTaskDelay + 4 * overshoot := by
  have hfirst := r.begins_add_le 0 (resetCall 0)
  have hzero : slot T 0 = 0 := rfl
  have hcalls : ((resetCall 0 : ℕ) : T) = 4 := by
    norm_num [resetCall]
  rw [Nat.zero_add, r.begins_zero, hzero, slot_resetCall, hcalls] at hfirst
  push_cast at hfirst
  linarith

variable [Archimedean T]

/-- After every instant some call of the reset task begins. -/
theorem TimedRun.exists_le_begins (a : T) : ∃ k, a ≤ r.begins (resetCall k) := by
  obtain ⟨k, hk⟩ := exists_nat_ge a
  have hslot := r.le_begins_add 0 (resetCall k)
  rw [Nat.zero_add, r.begins_zero, slot_resetCall, kResetTaskDelay, kResetTaskPeriod] at hslot
  have hzero : slot T 0 = 0 := rfl
  rw [hzero] at hslot
  push_cast at hslot
  have hpos : (0 : T) ≤ k := Nat.cast_nonneg k
  exact ⟨k, by linarith⟩

/-- In every stretch of time of the given length the reset task reads the button, in a call
that begins before its end. -/
theorem TimedRun.exists_read (h : 0 ≤ overshoot) (hgap : 0 < gap) {a : T} (ha : 0 ≤ a) :
    ∃ k, ∃ t ∈ (r.window (resetCall k)).reads.samples, a ≤ t ∧
      t < a + (1000 * (kResetTaskPeriod - kResetTaskComputationTime) + 6 * overshoot + gap) ∧
      r.begins (resetCall k) <
        a + (1000 * (kResetTaskPeriod - kResetTaskComputationTime) + 6 * overshoot + gap) := by
  classical
  have hlate := r.exists_le_begins a
  have hread (k : ℕ) : r.begins (resetCall k) ∈ (r.window (resetCall k)).reads.samples := by
    rw [← r.window_start]
    exact List.mem_of_head? (r.first_read _)
  have hle : a ≤ r.begins (resetCall (Nat.find hlate)) := Nat.find_spec hlate
  cases hk : Nat.find hlate with
  | zero =>
    rw [hk] at hle
    have hfirst := r.begins_first
    have hlt : r.begins (resetCall 0) <
        a + (1000 * (kResetTaskPeriod - kResetTaskComputationTime) + 6 * overshoot + gap) := by
      rw [kResetTaskDelay] at hfirst
      rw [kResetTaskPeriod, kResetTaskComputationTime]
      push_cast at hfirst ⊢
      linarith
    exact ⟨0, _, hread 0, hle, hlt, hlt⟩
  | succ k =>
    rw [hk] at hle
    have hbefore : r.begins (resetCall k) < a :=
      not_le.mp (Nat.find_min hlate (hk ▸ Nat.lt_succ_self k))
    rcases le_or_gt a (r.window (resetCall k)).lastRead with hinside | hafter
    · -- the press begins before the last read of this call
      have hstart : (r.window (resetCall k)).start < a + gap := by
        rw [r.window_start]
        linarith
      obtain ⟨t, ht, hat, hta⟩ :=
        (r.paced (resetCall k)).exists_sample (r.first_read _) hstart hinside
      have hlong : gap ≤
          1000 * (kResetTaskPeriod - kResetTaskComputationTime) + 6 * overshoot + gap := by
        rw [kResetTaskPeriod, kResetTaskComputationTime]
        push_cast
        linarith
      exact ⟨k, t, ht, hat, by linarith, by linarith⟩
    · -- it begins behind it and lasts into the next call
      have hlast := r.le_lastRead (resetCall k)
      have hnext := r.begins_resetCall_succ h k
      have hlt : r.begins (resetCall (k + 1)) <
          a + (1000 * (kResetTaskPeriod - kResetTaskComputationTime) + 6 * overshoot + gap) := by
        linarith
      exact ⟨k + 1, _, hread (k + 1), hle, hlt, hlt⟩

/-- A press that is held so long is found by a call that ends soon after its beginning. -/
theorem TimedRun.found (h : 0 ≤ overshoot) (hgap : 0 < gap) {a : T} (ha : 0 ≤ a)
    (hheld : ∀ t, a ≤ t →
      t < a + (1000 * (kResetTaskPeriod - kResetTaskComputationTime) + 6 * overshoot + gap) →
      read t = kPolarityPressed) :
    ∃ n, r.Resets n ∧ a ≤ r.begins (n + 1) ∧
      r.begins (n + 1) < a + (1000 * kResetTaskPeriod + 7 * overshoot + gap) := by
  obtain ⟨k, t, ht, hat, hta, hbegins⟩ := r.exists_read h hgap ha
  have hcall := start_resetCall k
  have hfinish := ((r.window (resetCall k)).le_finish ht).2.trans (r.window_finish _ hcall)
  have hnext := r.begins_succ_le k
  exact ⟨resetCall k, r.resets_of_read hcall ⟨t, ht, hheld t hat hta⟩, hat.trans hfinish,
    by linarith⟩

end Gaps

section Sharpness

/-- The beginning of the `n`-th call if every call takes the whole overshoot. -/
def latest {T : Type*} [Ring T] (overshoot : T) (n : ℕ) : T :=
  ((1000 * slot ℤ n : ℤ) : T) + n * overshoot

variable {T : Type*} [CommRing T]

/-- The beginnings of two calls in a row. -/
theorem latest_succ (overshoot : T) (n : ℕ) :
    latest overshoot (n + 1) =
      latest overshoot n + 1000 * timing.computationTime (start n) + overshoot := by
  rw [latest, latest, slot_succ, Int.cast_id]
  push_cast
  ring

variable [LinearOrder T] [IsStrictOrderedRing T] {overshoot gap : T}

/-- The calls with an idle joystick and given windows of the reset task. -/
def windowLabel (window : ℕ → ResetWindow T) (read : T → ℤ) (reading : ℕ → ℤ) (n : ℕ) :
    BikeSystem.Label :=
  if start n = .resetTask then .resetTask ((window n).reads.map read).passes (reading n)
  else idleLabel read n

/-- The states of the bike system after these calls. -/
def windowState (window : ℕ → ResetWindow T) (read : T → ℤ) (reading : ℕ → ℤ) : ℕ → BikeSystem
  | 0 => BikeSystem.new 0
  | n + 1 =>
    ((windowState window read reading n).step (windowLabel window read reading n)).getD
      (windowState window read reading n)

variable {window : ℕ → ResetWindow T} {read : T → ℤ} {reading : ℕ → ℤ}

/-- Each of these calls can be made. -/
theorem windowState_step (n : ℕ) :
    (windowState window read reading n).step (windowLabel window read reading n) =
      some (windowState window read reading (n + 1)) := by
  have hstep : ∃ t, (windowState window read reading n).step
      (windowLabel window read reading n) = some t := by
    unfold windowLabel
    split
    · exact ⟨_, BikeSystem.resetTask_eq_some.mpr ⟨_, (window n).checkReset_eq read, rfl⟩⟩
    · exact exists_step read n _
  obtain ⟨t, ht⟩ := hstep
  rw [windowState, ht, Option.getD_some]

/-- The calls come in the order of the super-loop. -/
theorem windowLabel_task (n : ℕ) : (windowLabel window read reading n).task = start n := by
  unfold windowLabel
  split
  · rename_i hn
    exact hn.symm
  · unfold idleLabel
    cases start n <;> rfl

/-- No call begins before the call that comes before it. -/
theorem latest_lt_succ (h : 0 ≤ overshoot) (n : ℕ) :
    latest overshoot n < latest overshoot (n + 1) := by
  have htime : 100 ≤ timing.computationTime (start n) := by
    cases start n <;> decide
  have hcast : (100 : T) ≤ (timing.computationTime (start n) : ℤ) := by
    exact_mod_cast htime
  rw [latest_succ]
  linarith

/-- The computation time of a window is that of the reset task. -/
theorem latest_add_windowTime_le (h : 0 ≤ overshoot) {n : ℕ} (hn : start n = .resetTask) :
    latest overshoot n + windowTime T ≤ latest overshoot (n + 1) := by
  have htime : 1000 * timing.computationTime .resetTask = ResetDevice.kTaskRunTime := rfl
  have hcast : windowTime T = 1000 * (timing.computationTime .resetTask : T) := by
    rw [windowTime, ← htime, Int.cast_mul, Int.cast_ofNat]
  rw [latest_succ, hn, hcast]
  exact le_add_of_nonneg_right h

variable [Archimedean T]

/-- There is a run in which every call takes the whole overshoot and the reset task reads
the button last at a gap before the end of its computation time. -/
theorem exists_latestRun (h : 0 ≤ overshoot) (hgap : 1 ≤ gap) (hlong : gap ≤ windowTime T)
    (read : T → ℤ) :
    ∃ r : TimedRun T overshoot gap read, (∀ n, r.begins n = latest overshoot n) ∧
      ∀ n, ∀ t ∈ (r.window n).reads.samples, t ≤ latest overshoot n + (windowTime T - gap) := by
  obtain ⟨timer⟩ := nonempty_timer (T := T)
  obtain ⟨pace, rfl⟩ := exists_pace hgap hlong
  let window (n : ℕ) : ResetWindow T := slowWindow timer pace (latest overshoot n)
  let reading (n : ℕ) : ℤ := timer.read (latest overshoot n)
  let r : TimedRun T overshoot pace.gap read :=
    { state := windowState window read reading
      label := windowLabel window read reading
      window := window
      begins := latest overshoot
      reading := reading
      step_eq := windowState_step
      task_eq := windowLabel_task
      reset_eq := fun n hn => if_pos hn
      begins_zero := by simp [latest, slot, slotStart]
      le_begins := fun n => by
        rw [latest_succ]
        exact le_add_of_nonneg_right h
      begins_le := fun n => (latest_succ overshoot n).le
      window_start := fun n => rfl
      first_read := fun n => rfl
      paced := fun n => paced_slowWindow timer pace _
      window_finish := fun n hn => by
        rw [finish_slowWindow]
        exact latest_add_windowTime_le h hn
      reading_le := fun n => (timer.read_le _).trans (latest_lt_succ h n).le
      lt_reading := fun n => timer.lt_read _ }
  exact ⟨r, fun n => rfl, fun n t ht => sample_slowWindow_le timer pace ht⟩

/-- Between the last read of the first call of the reset task and the first read of the
second one, a shorter press is missed. -/
theorem exists_missed (h : 0 ≤ overshoot) (hgap : 1 ≤ gap) (hlong : gap ≤ windowTime T)
    {held : T} (hheld : held <
      1000 * (kResetTaskPeriod - kResetTaskComputationTime) + 6 * overshoot + gap) :
    ∃ (read : T → ℤ) (r : TimedRun T overshoot gap read) (a : T), 0 ≤ a ∧
      (∀ t, a ≤ t → t < a + held → read t = kPolarityPressed) ∧ ∀ n, ¬ r.Resets n := by
  have hincreasing : StrictMono (latest overshoot) := strictMono_nat_of_lt_succ (latest_lt_succ h)
  have hnext : latest overshoot 10 = latest overshoot 4 + windowTime T +
      (1000 * (kResetTaskPeriod - kResetTaskComputationTime) + 6 * overshoot) := by
    have hfirst : slot ℤ 4 = 700 := by decide
    have hsecond : slot ℤ 10 = 1500 := by decide
    rw [latest, latest, hfirst, hsecond, kResetTaskPeriod, kResetTaskComputationTime, windowTime,
      ResetDevice.kTaskRunTime]
    push_cast
    ring
  have hfirst : 0 ≤ latest overshoot 4 := by
    have hzero : latest overshoot 0 = 0 := by simp [latest, slot, slotStart]
    rw [← hzero]
    exact hincreasing.monotone (by decide)
  -- the press ends just when the second call begins
  let a : T := latest overshoot 10 - held
  let read : T → ℤ := fun t => if a ≤ t ∧ t < latest overshoot 10 then kPolarityPressed else 0
  have ha : latest overshoot 4 + (windowTime T - gap) < a := by
    change latest overshoot 4 + (windowTime T - gap) < latest overshoot 10 - held
    linarith
  obtain ⟨r, hbegins, hreads⟩ := exists_latestRun h hgap hlong read
  refine ⟨read, r, a, by linarith, ?_, ?_⟩
  · intro t hle hlt
    have hend : t < latest overshoot 10 := by
      change t < latest overshoot 10 - held + held at hlt
      linarith
    exact if_pos ⟨hle, hend⟩
  · intro n hresets
    obtain ⟨t, ht, hread⟩ := ResetWindow.checkReset_eq_true.mp hresets.detected
    have hpress : a ≤ t ∧ t < latest overshoot 10 := by
      by_contra hout
      have hzero : read t = 0 := if_neg hout
      exact absurd (hread.symm.trans hzero) (by decide)
    have hlast := hreads n t ht
    have hstart := ((r.window n).le_finish ht).1
    rw [r.window_start, hbegins] at hstart
    have hafter : 4 < n := by
      by_contra hle
      have hmono := hincreasing.monotone (not_lt.mp hle)
      linarith [hpress.1]
    have hbefore : n < 10 := hincreasing.lt_iff_lt.mp (hstart.trans_lt hpress.2)
    have hother : ∀ n < 10, 4 < n → start n ≠ .resetTask := by decide
    exact hother n hbefore hafter hresets.call

end Sharpness

/-- However much longer than its computation time a call of the super-loop may take, and
however far apart the reads of the button during a call of the reset task may be, the
presses that every run finds, and answers with a reset in time, are exactly those held for
the time between the two calls that this leaves without a read: the period less the
computation time, six overshoots and the gap. -/
theorem press_found_iff {T : Type*} [CommRing T] [LinearOrder T] [IsStrictOrderedRing T]
    [Archimedean T] (overshoot gap held : T) (h : 0 ≤ overshoot) (hgap : 1 ≤ gap)
    (hlong : gap ≤ 1000 * kResetTaskComputationTime) :
    (∀ (read : T → ℤ) (r : TimedRun T overshoot gap read) (a : T), 0 ≤ a →
      (∀ t, a ≤ t → t < a + held → read t = kPolarityPressed) →
      ∃ n, r.Resets n ∧ a ≤ r.begins (n + 1) ∧
        r.begins (n + 1) < a + (1000 * kResetTaskPeriod + 7 * overshoot + gap)) ↔
      1000 * (kResetTaskPeriod - kResetTaskComputationTime) + 6 * overshoot + gap ≤ held := by
  have hwindow : windowTime T = 1000 * (kResetTaskComputationTime : T) := by
    rw [windowTime, ResetDevice.kTaskRunTime, kResetTaskComputationTime]
    norm_num
  constructor
  · intro hfound
    by_contra hshort
    obtain ⟨read, r, a, ha, hheld, hmissed⟩ :=
      exists_missed h hgap (hlong.trans_eq hwindow.symm) (not_le.mp hshort)
    obtain ⟨n, hresets, -⟩ := hfound read r a ha hheld
    exact hmissed n hresets
  · intro hheld read r a ha hpress
    exact r.found h (zero_lt_one.trans_le hgap) ha
      fun t hle hlt => hpress t hle (hlt.trans_le (add_le_add_right hheld a))

/-- The button goes down just behind the last read of the first call of `resetTask` and is
released as soon as it has been held for the required time. With every call a millisecond
late and reads ten microseconds apart, some run resets the speedometer after that. -/
theorem press_found_iff_held :
    ∃ (r : TimedRun ℤ 1000 10 fun t =>
        if 803991 ≤ t ∧ t < 803991 + 706010 then kPolarityPressed else 0) (n : ℕ),
      r.Resets n ∧ 803991 ≤ r.begins (n + 1) ∧ r.begins (n + 1) < 803991 + 807010 := by
  obtain ⟨r, -⟩ := exists_latestRun (by decide : (0 : ℤ) ≤ 1000) (by decide : (1 : ℤ) ≤ 10)
    (by decide) fun t => if 803991 ≤ t ∧ t < 803991 + 706010 then kPolarityPressed else 0
  obtain ⟨n, hresets, hafter, hbefore⟩ :=
    (press_found_iff (1000 : ℤ) 10 706010 (by decide) (by decide) (by decide)).mpr (by decide)
      _ r 803991 (by decide) fun t hle hlt => if_pos ⟨hle, hlt⟩
  exact ⟨r, n, hresets, hafter, by simpa [kResetTaskPeriod] using hbefore⟩

end BikeComputer.StaticScheduling
