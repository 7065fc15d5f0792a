import BikeComputer.Core.Punctual
import BikeComputer.Core.Trace

/-!
# Periodic queues in time

The queue with a clock. A task begins when its target is reached and the job before it is
over; an idle queue does not sleep past the next target. The clock passes while a task
runs, and what has passed when it finishes is its execution time.

If no task runs longer than its computation time and the timetable is punctual, then
every stretch of time that is longer than the period of a task, its slack and its
computation time holds an execution of it from its beginning to its end.
-/

namespace PeriodicQueue

variable {τ T : Type*}

/-- The queue with a clock. -/
structure Timed (τ T : Type*) where
  queue : State τ T
  clock : T
  running : Bool := false
  deriving DecidableEq, Repr

namespace Timed

/-- A job begins or is over, or time passes. -/
inductive Label (τ T : Type*) where
  | begin (task : τ)
  | finish
  | elapse (d : T)
  deriving DecidableEq, Repr

/-- The entry of the task that is running, or else of the next one. -/
def next? [LinearOrder T] (s : Timed τ T) : Option (Entry τ T) :=
  (takeNext s.queue.entries).map Prod.fst

/-- The time the job of the entry starts. -/
def start [LinearOrder T] (s : Timed τ T) (e : Entry τ T) : T := max s.queue.now e.target

/-- The next job begins when it is due, and an idle queue does not sleep past its target. -/
def step [AddGroup T] [LinearOrder T] [DecidableEq τ] (timing : Timing τ T) (s : Timed τ T) :
    Label τ T → Option (Timed τ T)
  | .begin task =>
    s.next?.bind fun e =>
      if s.running = false ∧ e.task = task ∧ e.target ≤ s.clock then
        some { s with running := true }
      else none
  | .finish =>
    s.next?.bind fun e =>
      if s.running = true then
        (dispatch timing s.queue (s.clock - s.start e)).map fun queue =>
          { s with queue := queue, running := false }
      else none
  | .elapse d =>
    s.next?.bind fun e =>
      if 0 ≤ d ∧ (s.running = true ∨ s.clock + d ≤ e.target) then
        some { s with clock := s.clock + d }
      else none

/-- The tasks are posted at time 0. -/
def post [Zero T] (timing : Timing τ T) (tasks : List τ) : Timed τ T where
  queue := PeriodicQueue.post timing tasks
  clock := 0

/-- The next entry is the one that is taken next. -/
theorem next?_eq_some [LinearOrder T] {s : Timed τ T} {e : Entry τ T} :
    s.next? = some e ↔ ∃ rest, takeNext s.queue.entries = some (e, rest) := by
  simp [next?]

section Next

variable [LinearOrder T] {s : Timed τ T} {e : Entry τ T}

/-- The next entry waits in the queue. -/
theorem mem_of_next? (h : s.next? = some e) : e ∈ s.queue.entries := by
  obtain ⟨rest, hnext⟩ := next?_eq_some.mp h
  obtain ⟨pre, post, hentries, -⟩ := takeNext_spec hnext
  simp [hentries]

/-- The next target is the smallest. -/
theorem target_le_of_next? {x : Entry τ T} (h : s.next? = some e) (hx : x ∈ s.queue.entries) :
    e.target ≤ x.target := by
  obtain ⟨rest, hnext⟩ := next?_eq_some.mp h
  exact target_le_of_takeNext hnext hx

end Next

section Steps

variable [AddGroup T] [LinearOrder T] [DecidableEq τ] {timing : Timing τ T} {s t : Timed τ T}

/-- An idle queue begins the next job if that is due. -/
theorem step_begin {task : τ} :
    s.step timing (.begin task) = some t ↔
      ∃ e, s.next? = some e ∧ s.running = false ∧ e.task = task ∧ e.target ≤ s.clock ∧
        t = { s with running := true } := by
  simp only [step, Option.bind_eq_some_iff, Option.ite_none_right_eq_some, Option.some.injEq,
    and_assoc, @eq_comm _ t]

/-- The job that is over is dispatched with the time it has taken. -/
theorem step_finish :
    s.step timing .finish = some t ↔
      ∃ e, s.next? = some e ∧ s.running = true ∧ ∃ queue,
        dispatch timing s.queue (s.clock - s.start e) = some queue ∧
        t = { s with queue := queue, running := false } := by
  simp only [step, Option.bind_eq_some_iff, Option.ite_none_right_eq_some,
    Option.map_eq_some_iff, @eq_comm _ t]

/-- Time passes during a job or until the next target. -/
theorem step_elapse {d : T} :
    s.step timing (.elapse d) = some t ↔
      ∃ e, s.next? = some e ∧ 0 ≤ d ∧ (s.running = true ∨ s.clock + d ≤ e.target) ∧
        t = { s with clock := s.clock + d } := by
  simp only [step, Option.bind_eq_some_iff, Option.ite_none_right_eq_some, Option.some.injEq,
    and_assoc, @eq_comm _ t]

/-- The time that passes with a label. -/
def Label.duration : Label τ T → T
  | .elapse d => d
  | _ => 0

/-- The clock counts what elapses. -/
theorem step_clock {a : Label τ T} (h : s.step timing a = some t) :
    t.clock = s.clock + a.duration := by
  cases a with
  | begin task =>
    obtain ⟨e, -, -, -, -, rfl⟩ := step_begin.mp h
    exact (add_zero _).symm
  | finish =>
    obtain ⟨e, -, -, queue, -, rfl⟩ := step_finish.mp h
    exact (add_zero _).symm
  | elapse d =>
    obtain ⟨e, -, -, -, rfl⟩ := step_elapse.mp h
    rfl

/-- While nothing but time passes, the queue stays as it is. -/
theorem queue_of_elapse {labels : List (Label τ T)} (hlabels : ∀ x ∈ labels, ∃ d, x = .elapse d)
    (hrun : Transition.run (Timed.step timing) s labels = some t) : t.queue = s.queue := by
  refine Transition.run_invariant_of_forall (P := fun x => ∃ d, x = .elapse d)
    (I := fun t => t.queue = s.queue) ?_ rfl hlabels hrun
  rintro m _ n ⟨d, rfl⟩ hm hst
  obtain ⟨e, -, -, -, rfl⟩ := step_elapse.mp hst
  exact hm

end Steps

/-- The job that is running has not taken longer than its computation time. -/
def OnTime [Add T] [LinearOrder T] (timing : Timing τ T) (s : Timed τ T) : Prop :=
  s.running = true → ∀ e, s.next? = some e →
    s.clock ≤ s.start e + timing.computationTime e.task

section Clocked

variable [AddCommGroup T] [LinearOrder T] [DecidableEq τ]
variable {timing : Timing τ T} {calls : ℕ → τ} {slack : τ → T} {tasks : List τ}
variable {es : List (Entry τ T)} {s t : Timed τ T} {e : Entry τ T} {a : Label τ T}

/-- What holds of a queue in step with a timetable and its clock. -/
structure Clocked (timing : Timing τ T) (calls : ℕ → τ) (tasks : List τ) (es : List (Entry τ T))
    (s : Timed τ T) : Prop where
  follows : Follows timing calls es s.queue
  executionTime_le : ∀ job ∈ s.queue.jobs, job.executionTime ≤ timing.computationTime job.task
  perm : (s.queue.entries.map Entry.task).Perm tasks
  now_le_clock : s.queue.now ≤ s.clock
  /-- An idle queue does not sleep past the next target. -/
  idle : s.running = false → ∀ e, s.next? = some e → s.clock ≤ s.start e
  running : s.running = true → ∀ e, s.next? = some e → e.target ≤ s.clock
  /-- No task waits longer than one period for its release. -/
  target_le : ∀ e ∈ s.queue.entries, e.target ≤ s.clock + timing.period e.task

/-- The queue is clocked when the tasks are posted. -/
theorem Clocked.post (hnodup : tasks.Nodup)
    (hperiod : ∀ task ∈ tasks, timing.delay task ≤ timing.period task) :
    Clocked timing calls tasks (PeriodicQueue.post timing tasks).entries
      (post timing tasks) where
  follows := .post hnodup
  executionTime_le := by simp [Timed.post, PeriodicQueue.post]
  perm := by simp [Timed.post, PeriodicQueue.post, Function.comp_def]
  now_le_clock := le_rfl
  idle _ e _ := le_max_left _ _
  running h := by simp [Timed.post] at h
  target_le := by simpa [Timed.post, PeriodicQueue.post] using hperiod

/-- The entry of a task is in the queue, once. -/
theorem Clocked.eq_of_task_eq {x : Entry τ T} (h : Clocked timing calls tasks es s)
    (he : e ∈ s.queue.entries) (hx : x ∈ s.queue.entries) (htask : e.task = x.task) : e = x :=
  List.inj_on_of_nodup_map h.follows.released.nodup he hx htask

variable [IsOrderedAddMonoid T]

/-- A finished task that was on time is inserted again one period later. -/
theorem Clocked.finish_eq (h : Clocked timing calls tasks es s)
    (hfeasible : Feasible timing calls es) (hontime : OnTime timing s)
    (ht : s.step timing .finish = some t) :
    ∃ e rest, takeNext s.queue.entries = some (e, rest) ∧ s.running = true ∧
      dispatch timing s.queue (s.clock - s.start e) = some t.queue ∧ t = {
      queue := {
        now := s.clock
        entries := rest ++ [⟨e.task, e.target + timing.period e.task⟩]
        jobs := s.queue.jobs ++ [⟨e.task, e.target, s.start e, s.clock - s.start e⟩] }
      clock := s.clock
      running := false } := by
  obtain ⟨e, hnext, hrunning, queue, hdispatch, rfl⟩ := step_finish.mp ht
  obtain ⟨rest, htake⟩ := next?_eq_some.mp hnext
  obtain ⟨x, others, htake', rfl⟩ := dispatch_eq_some.mp hdispatch
  obtain ⟨rfl, rfl⟩ := Prod.mk.inj (Option.some.inj (htake.symm.trans htake'))
  obtain ⟨p, hp, htask, htarget, hslot⟩ := hfeasible s.queue.jobs.length
  rw [← h.follows.entries_eq] at hp
  obtain rfl : (e, rest) = p := Option.some.inj (htake.symm.trans hp)
  have hfinish : max s.queue.now e.target + (s.clock - s.start e) = s.clock :=
    add_sub_cancel _ _
  have hstart : s.start e ≤ slotStart timing calls s.queue.jobs.length :=
    max_le h.follows.now_le_slot htarget
  have hclock : s.clock < e.target + timing.period e.task := by
    refine (hontime hrunning e hnext).trans_lt ?_
    rw [← htask] at hslot
    exact (add_le_add_left hstart _).trans_lt hslot
  refine ⟨e, rest, htake, hrunning, hdispatch, ?_⟩
  simp only [Job.finish, hfinish, max_eq_left hclock.le]
  rfl

/-- Every step of a queue whose tasks are on time keeps it in step with its clock. -/
theorem Clocked.step (h : Clocked timing calls tasks es s) (hfeasible : Feasible timing calls es)
    (hontime : OnTime timing s)
    (ht : s.step timing a = some t) : Clocked timing calls tasks es t := by
  cases a with
  | begin task =>
    obtain ⟨e, hnext, hrunning, -, htarget, rfl⟩ := step_begin.mp ht
    refine ⟨h.follows, h.executionTime_le, h.perm, h.now_le_clock, by simp, ?_, h.target_le⟩
    intro _ x hx
    obtain rfl := Option.some.inj (hnext.symm.trans hx)
    exact htarget
  | finish =>
    obtain ⟨e, rest, htake, hrunning, hdispatch, rfl⟩ := h.finish_eq hfeasible hontime ht
    have hnext : s.next? = some e := next?_eq_some.mpr ⟨rest, htake⟩
    have htime : ∀ job ∈ s.queue.jobs ++ [⟨e.task, e.target, s.start e, s.clock - s.start e⟩],
        job.executionTime ≤ timing.computationTime job.task := by
      intro job hjob
      rcases List.mem_append.mp hjob with hjob | hjob
      · exact h.executionTime_le job hjob
      · obtain rfl := List.mem_singleton.mp hjob
        exact sub_le_iff_le_add'.mpr (hontime hrunning e hnext)
    refine ⟨h.follows.dispatch hfeasible hdispatch htime, htime,
      (dispatch_perm hdispatch).trans h.perm, le_rfl, ?_, by simp, ?_⟩
    · exact fun _ x _ => le_max_left _ _
    · intro x hx
      rcases List.mem_append.mp hx with hx | hx
      · exact h.target_le x (mem_of_takeNext htake hx)
      · obtain rfl := List.mem_singleton.mp hx
        exact add_le_add_left (h.running hrunning e hnext) _
  | elapse d =>
    obtain ⟨e, hnext, hd, hguard, rfl⟩ := step_elapse.mp ht
    have hclock : s.clock ≤ s.clock + d := le_add_of_nonneg_right hd
    refine ⟨h.follows, h.executionTime_le, h.perm, h.now_le_clock.trans hclock, ?_, ?_, ?_⟩
    · intro hidle x hx
      obtain rfl := Option.some.inj (hnext.symm.trans hx)
      rcases hguard with hrunning | hguard
      · exact absurd (hrunning.symm.trans hidle) (by simp)
      · exact hguard.trans (le_max_right _ _)
    · intro hrunning x hx
      exact (h.running hrunning x hx).trans hclock
    · intro x hx
      exact (h.target_le x hx).trans (add_le_add_left hclock _)

/-- Every run whose tasks are on time keeps the queue in step with its clock. -/
theorem Clocked.run {labels : List (Label τ T)} (h : Clocked timing calls tasks es s)
    (hfeasible : Feasible timing calls es)
    (hontime : Transition.Throughout (Timed.step timing) (OnTime timing) s labels)
    (hrun : Transition.run (Timed.step timing) s labels = some t) :
    Clocked timing calls tasks es t :=
  hontime.run_history (I := fun _ t => Clocked timing calls tasks es t) h
    (fun hm hq ht => hm.step hfeasible hq ht) hrun

end Clocked

/-- The task has begun, and nothing but time has passed since. -/
def Begun (task : τ) (labels : List (Label τ T)) : Prop :=
  ∃ pre run, labels = pre ++ .begin task :: run ∧ ∀ x ∈ run, ∃ d, x = .elapse d

/-- The task has just been executed, from its beginning to its end. -/
def Executed (task : τ) (labels : List (Label τ T)) : Prop :=
  ∃ begun, labels = begun ++ [.finish] ∧ Begun task begun

/-- A job that has begun goes on while time passes. -/
theorem Begun.elapse {task : τ} {labels : List (Label τ T)} (h : Begun task labels) (d : T) :
    Begun task (labels ++ [.elapse d]) := by
  obtain ⟨pre, run, rfl, hrun⟩ := h
  refine ⟨pre, run ++ [.elapse d], by simp, fun x hx => ?_⟩
  rcases List.mem_append.mp hx with hx | hx
  · exact hrun x hx
  · exact ⟨d, List.mem_singleton.mp hx⟩

section Window

variable [AddCommGroup T] [LinearOrder T] [DecidableEq τ]
variable {timing : Timing τ T} {calls : ℕ → τ} {slack : τ → T} {tasks : List τ} {task : τ}
variable {es : List (Entry τ T)} {start s t : Timed τ T} {a : Label τ T}
variable {labels : List (Label τ T)}

/-- How far the execution of a task is that is awaited since some state, up to the instant
it is due. -/
inductive Awaited (timing : Timing τ T) (task : τ) (start : Timed τ T) (due : T)
    (labels : List (Label τ T)) (s : Timed τ T) : Prop where
  | earlier (e : Entry τ T) (htask : e.task = task) (hnext : s.next? = some e)
    (hrunning : s.running = true) (hstart : s.start e ≤ start.clock)
  | queued (e : Entry τ T) (htask : e.task = task) (hmem : e ∈ s.queue.entries)
    (htarget : e.target ≤ start.clock + timing.period task)
    (hother : s.running = true → s.next? ≠ some e)
  | begun (e : Entry τ T) (htask : e.task = task) (hnext : s.next? = some e)
    (hrunning : s.running = true) (htarget : e.target ≤ start.clock + timing.period task)
    (hlabels : Begun task labels)
  | executed (done rest : List (Label τ T)) (m : Timed τ T) (hlabels : labels = done ++ rest)
    (hrun : Transition.run (Timed.step timing) start done = some m) (hclock : m.clock ≤ due)
    (hdone : Executed task done)

/-- Awaiting a task begins with an earlier execution of it, or with its entry queued. -/
theorem Clocked.awaited (h : Clocked timing calls tasks es s) (htask : task ∈ tasks) (due : T) :
    Awaited timing task s due [] s := by
  obtain ⟨e, hmem, rfl⟩ := List.mem_map.mp (h.perm.mem_iff.mpr htask)
  by_cases hearlier : s.running = true ∧ s.next? = some e
  · obtain ⟨hrunning, hnext⟩ := hearlier
    exact .earlier e rfl hnext hrunning (max_le h.now_le_clock (h.running hrunning e hnext))
  · exact .queued e rfl hmem (h.target_le e hmem) fun hrunning hnext => hearlier ⟨hrunning, hnext⟩

/-- Once the task has been executed nothing is awaited any more. -/
theorem Awaited.executed_snoc {due : T} {done rest : List (Label τ T)} {m : Timed τ T}
    (hrun : Transition.run (Timed.step timing) start done = some m) (hclock : m.clock ≤ due)
    (hdone : Executed task done) (a : Label τ T) :
    Awaited timing task start due (done ++ rest ++ [a]) t :=
  .executed done (rest ++ [a]) m (List.append_assoc _ _ _) hrun hclock hdone

variable [IsOrderedAddMonoid T]

/-- When an entry waits in a queue that is on time, its release is not past by more than
its slack. -/
theorem Clocked.clock_le (h : Clocked timing calls tasks es s)
    (hfeasible : Feasible timing calls es) (hpunctual : Punctual timing calls slack es)
    (hslack : ∀ task, 0 ≤ slack task)
    (hontime : OnTime timing s) {e : Entry τ T} (hmem : e ∈ s.queue.entries)
    (hother : s.running = true → s.next? ≠ some e) : s.clock ≤ e.target + slack e.task := by
  obtain ⟨p, hp, htask, htarget, -⟩ := hfeasible s.queue.jobs.length
  rw [← h.follows.entries_eq] at hp
  have hnext : s.next? = some p.1 := next?_eq_some.mpr ⟨p.2, hp⟩
  cases hrunning : s.running with
  | false =>
    refine (h.idle hrunning p.1 hnext).trans (max_le (h.follows.now_le hpunctual hmem) ?_)
    exact (target_le_of_next? hnext hmem).trans (le_add_of_nonneg_right (hslack e.task))
  | true =>
    have hstart : s.start p.1 ≤ slotStart timing calls s.queue.jobs.length :=
      max_le h.follows.now_le_slot htarget
    have hrest : e ∈ (advance timing)^[s.queue.jobs.length + 1] es := by
      rw [Function.iterate_succ_apply', ← h.follows.entries_eq, advance_eq hp]
      obtain ⟨pre, post, hentries, hrest, -, -⟩ := takeNext_spec hp
      have hne : e ≠ p.1 := fun heq => hother hrunning (heq ▸ hnext)
      rw [hentries, List.mem_append, List.mem_cons, or_iff_right hne] at hmem
      rw [hrest]
      exact List.mem_append_left _ (List.mem_append.mpr hmem)
    calc s.clock
        ≤ s.start p.1 + timing.computationTime p.1.task := hontime hrunning p.1 hnext
      _ ≤ slotStart timing calls (s.queue.jobs.length + 1) := by
        rw [slotStart, htask]
        exact add_le_add_left hstart _
      _ ≤ e.target + slack e.task := hpunctual _ e hrest

/-- The longest time from one instant to the end of an execution of the task that begins
after it. -/
def responseTime (timing : Timing τ T) (slack : τ → T) (task : τ) : T :=
  timing.period task + slack task + timing.computationTime task

/-- An execution that has begun is over before it is due. -/
theorem Clocked.clock_le_due (h : Clocked timing calls tasks es s)
    (hfeasible : Feasible timing calls es) (hpunctual : Punctual timing calls slack es)
    (hontime : OnTime timing s) {e : Entry τ T} (hnext : s.next? = some e)
    (hrunning : s.running = true) {since : T}
    (htarget : e.target ≤ since + timing.period e.task) :
    s.clock ≤ since + responseTime timing slack e.task := by
  obtain ⟨rest, htake⟩ := next?_eq_some.mp hnext
  calc s.clock
      ≤ s.start e + timing.computationTime e.task := hontime hrunning e hnext
    _ ≤ e.target + slack e.task + timing.computationTime e.task :=
      add_le_add_left (h.follows.start_le hfeasible hpunctual htake) _
    _ ≤ since + timing.period e.task + slack e.task + timing.computationTime e.task :=
      add_le_add_left (add_le_add_left htarget _) _
    _ = since + responseTime timing slack e.task := by simp only [responseTime, add_assoc]

/-- Every step keeps the task awaited or executes it in time. -/
theorem Awaited.step (h : Awaited timing task start (start.clock + responseTime timing slack task)
      labels s)
    (hs : Clocked timing calls tasks es s) (hfeasible : Feasible timing calls es)
    (hpunctual : Punctual timing calls slack es) (hontime : OnTime timing s)
    (hrun : Transition.run (Timed.step timing) start labels = some s)
    (ht : s.step timing a = some t) :
    Awaited timing task start (start.clock + responseTime timing slack task)
      (labels ++ [a]) t := by
  cases a with
  | begin x =>
    obtain ⟨f, hnext, hidle, rfl, -, rfl⟩ := step_begin.mp ht
    cases h with
    | earlier e htask hnext' hrunning hstart | begun e htask hnext' hrunning htarget hlabels =>
      exact absurd (hrunning.symm.trans hidle) (by simp)
    | queued e htask hmem htarget hother =>
      by_cases hsame : f.task = task
      · obtain rfl := hs.eq_of_task_eq hmem (mem_of_next? hnext) (htask.trans hsame.symm)
        exact .begun e hsame hnext rfl htarget ⟨labels, [], by rw [hsame], by simp⟩
      · refine .queued e htask hmem htarget fun _ hnext' => hsame ?_
        rw [← htask, Option.some.inj (hnext.symm.trans hnext')]
    | executed done rest m hlabels hdone hclock hexecuted =>
      exact hlabels ▸ executed_snoc hdone hclock hexecuted _
  | finish =>
    obtain ⟨f, rest, htake, hrunning, -, rfl⟩ := hs.finish_eq hfeasible hontime ht
    have hnext : s.next? = some f := next?_eq_some.mpr ⟨rest, htake⟩
    cases h with
    | earlier e htask hnext' _ hstart =>
      obtain rfl := Option.some.inj (hnext.symm.trans hnext')
      refine .queued ⟨f.task, f.target + timing.period f.task⟩ htask (by simp) ?_ (by simp)
      rw [htask]
      exact add_le_add_left ((le_max_right _ _).trans hstart) _
    | queued e htask hmem htarget hother =>
      refine .queued e htask ?_ htarget (by simp)
      obtain ⟨pre, post, hentries, rfl, -, -⟩ := takeNext_spec htake
      have hne : e ≠ f := fun heq => hother hrunning (heq ▸ hnext)
      rw [hentries, List.mem_append, List.mem_cons, or_iff_right hne] at hmem
      exact List.mem_append_left _ (List.mem_append.mpr hmem)
    | begun e htask hnext' _ htarget hlabels =>
      obtain rfl := htask
      have hclock := hs.clock_le_due hfeasible hpunctual hontime hnext' hrunning htarget
      have hdone := Transition.run_snoc_eq_some.mpr ⟨s, hrun, ht⟩
      exact .executed _ [] _ (List.append_nil _).symm hdone hclock ⟨labels, rfl, hlabels⟩
    | executed done rest m hlabels hdone hclock hexecuted =>
      exact hlabels ▸ executed_snoc hdone hclock hexecuted _
  | elapse d =>
    obtain ⟨f, hnext, -, -, rfl⟩ := step_elapse.mp ht
    cases h with
    | earlier e htask hnext' hrunning hstart => exact .earlier e htask hnext' hrunning hstart
    | queued e htask hmem htarget hother => exact .queued e htask hmem htarget hother
    | begun e htask hnext' hrunning htarget hlabels =>
      exact .begun e htask hnext' hrunning htarget (hlabels.elapse d)
    | executed done rest m hlabels hdone hclock hexecuted =>
      exact hlabels ▸ executed_snoc hdone hclock hexecuted _

/-- What is still awaited is not yet due. -/
theorem Awaited.clock_le {due : T} (h : Awaited timing task start due labels s)
    (hs : Clocked timing calls tasks es s) (hfeasible : Feasible timing calls es)
    (hpunctual : Punctual timing calls slack es) (hslack : ∀ task, 0 ≤ slack task)
    (hperiod : 0 ≤ timing.period task) (hcomputationTime : 0 ≤ timing.computationTime task)
    (hontime : OnTime timing s) :
    s.clock ≤ start.clock + responseTime timing slack task ∨
      ∃ done rest m, labels = done ++ rest ∧
        Transition.run (Timed.step timing) start done = some m ∧ m.clock ≤ due ∧
        Executed task done := by
  cases h with
  | earlier e htask hnext hrunning hstart =>
    obtain rfl := htask
    refine Or.inl (hs.clock_le_due hfeasible hpunctual hontime hnext hrunning ?_)
    exact (le_max_right _ _).trans (hstart.trans (le_add_of_nonneg_right hperiod))
  | queued e htask hmem htarget hother =>
    obtain rfl := htask
    have hclock := hs.clock_le hfeasible hpunctual hslack hontime hmem hother
    refine Or.inl (hclock.trans ?_)
    rw [responseTime, ← add_assoc, ← add_assoc]
    exact le_add_of_le_of_nonneg (add_le_add_left htarget _) hcomputationTime
  | begun e htask hnext hrunning htarget =>
    obtain rfl := htask
    exact Or.inl (hs.clock_le_due hfeasible hpunctual hontime hnext hrunning htarget)
  | executed done rest m hlabels hdone hclock hexecuted =>
    exact Or.inr ⟨done, rest, m, hlabels, hdone, hclock, hexecuted⟩

/-- Every stretch of time longer than the response time of a task holds an execution of it
that is over by then. -/
theorem Clocked.executed (h : Clocked timing calls tasks es start)
    (hfeasible : Feasible timing calls es) (hpunctual : Punctual timing calls slack es)
    (hslack : ∀ task, 0 ≤ slack task) (htask : task ∈ tasks) (hperiod : 0 ≤ timing.period task)
    (hcomputationTime : 0 ≤ timing.computationTime task)
    (hontime : Transition.Throughout (Timed.step timing) (OnTime timing) start labels)
    (hrun : Transition.run (Timed.step timing) start labels = some t)
    (hlong : start.clock + responseTime timing slack task < t.clock) :
    ∃ done rest m, labels = done ++ rest ∧
      Transition.run (Timed.step timing) start done = some m ∧
      m.clock ≤ start.clock + responseTime timing slack task ∧ Executed task done := by
  have hend : OnTime timing t := hontime labels [] t (List.append_nil _).symm hrun
  obtain ⟨-, ht, hawaited⟩ := hontime.run_history (I := fun labels t =>
      Transition.run (Timed.step timing) start labels = some t ∧
      Clocked timing calls tasks es t ∧
      Awaited timing task start (start.clock + responseTime timing slack task) labels t)
    ⟨rfl, h, h.awaited htask _⟩
    (fun ⟨hrun, hm, hawaited⟩ hq hst => ⟨Transition.run_snoc_eq_some.mpr ⟨_, hrun, hst⟩,
      hm.step hfeasible hq hst, hawaited.step hm hfeasible hpunctual hq hrun hst⟩) hrun
  rcases hawaited.clock_le ht hfeasible hpunctual hslack hperiod hcomputationTime hend with
    hclock | hexecuted
  · exact absurd hlong (not_lt.mpr hclock)
  · exact hexecuted

end Window

end Timed

end PeriodicQueue
