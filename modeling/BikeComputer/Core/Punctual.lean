import BikeComputer.Core.Timetable

/-!
# Punctual timetables

The slots of a timetable may start later than the releases of their tasks. If in the
evolution of the targets no slot starts later than any target ahead of it, but for the
slack of its task, then a queue whose jobs take at most their computation times starts
every job within the slack of its task.
-/

namespace PeriodicQueue

variable {τ T : Type*}

/-- No slot starts later than a target ahead of it by more than the slack of its task. -/
def Punctual [AddMonoid T] [LinearOrder T] (timing : Timing τ T) (calls : ℕ → τ) (slack : τ → T)
    (es : List (Entry τ T)) : Prop :=
  ∀ n, ∀ e ∈ (advance timing)^[n] es, slotStart timing calls n ≤ e.target + slack e.task

/-- A job starts within the slack of its task. -/
structure Job.InTime [Add T] [LE T] (slack : τ → T) (job : Job τ T) : Prop where
  target_le_start : job.target ≤ job.start
  start_le : job.start ≤ job.target + slack job.task

/-- A punctual timetable stays punctual on another time scale. -/
theorem Punctual.map [AddMonoid T] [LinearOrder T] {T' : Type*} [AddMonoid T'] [LinearOrder T']
    {timing : Timing τ T} {calls : ℕ → τ} {slack : τ → T} {es : List (Entry τ T)}
    (h : Punctual timing calls slack es) (g : T →+ T') (hg : StrictMono g) :
    Punctual (timing.map g) calls (g ∘ slack) (es.map (Entry.map g)) := by
  intro n e he
  rw [← (advance_map hg fun x task => map_add g x _).iterate_right n es] at he
  obtain ⟨x, hx, rfl⟩ := List.mem_map.mp he
  rw [slotStart_map, Entry.map, Function.comp_apply, ← map_add]
  exact hg.monotone (h n x hx)

/-- If the calls repeat, and the entries too up to the length of a cycle, then the
timetable is punctual once the first calls are. -/
theorem punctual_of_cycle [AddCommMonoid T] [LinearOrder T] [IsOrderedCancelAddMonoid T]
    {timing : Timing τ T} {calls : ℕ → τ} {slack : τ → T} {es : List (Entry τ T)}
    (start cycle : ℕ) (hcycle : 0 < cycle) (hcalls : ∀ n, calls (n + cycle) = calls n)
    (hentries : (advance timing)^[start + cycle] es =
      ((advance timing)^[start] es).map (Entry.map (· + slotStart timing calls cycle)))
    (hfirst : ∀ n < start + cycle, ∀ e ∈ (advance timing)^[n] es,
      slotStart timing calls n ≤ e.target + slack e.task) :
    Punctual timing calls slack es := by
  refine forall_of_cycle
    (P := fun n es => ∀ e ∈ es, slotStart timing calls n ≤ e.target + slack e.task)
    start cycle hcycle hentries ?_ hfirst
  intro n es h e he
  obtain ⟨x, hx, rfl⟩ := List.mem_map.mp he
  rw [slotStart_add_cycle hcalls, Entry.map, add_right_comm]
  exact add_le_add_left (h x hx) _

section Following

variable [DecidableEq τ] [AddCommMonoid T] [LinearOrder T]
variable {timing : Timing τ T} {calls : ℕ → τ} {slack : τ → T} {tasks : List τ}
variable {es rest : List (Entry τ T)} {e : Entry τ T} {s : State τ T}

/-- A queue in step with a punctual timetable is late for no entry. -/
theorem Follows.now_le (h : Follows timing calls es s) (hpunctual : Punctual timing calls slack es)
    (he : e ∈ s.entries) : s.now ≤ e.target + slack e.task :=
  h.now_le_slot.trans (hpunctual s.jobs.length e (h.entries_eq ▸ he))

/-- The next job of a queue in step with a punctual timetable starts in time. -/
theorem Follows.start_le (h : Follows timing calls es s) (hfeasible : Feasible timing calls es)
    (hpunctual : Punctual timing calls slack es) (hnext : takeNext s.entries = some (e, rest)) :
    max s.now e.target ≤ e.target + slack e.task := by
  obtain ⟨pre, post, hentries, -, -, -⟩ := takeNext_spec hnext
  have hmem : e ∈ s.entries := by simp [hentries]
  obtain ⟨p, hp, -, htarget, -⟩ := hfeasible s.jobs.length
  rw [← h.entries_eq] at hp
  obtain rfl : (e, rest) = p := Option.some.inj (hnext.symm.trans hp)
  exact max_le (h.now_le hpunctual hmem)
    (htarget.trans (hpunctual s.jobs.length e (h.entries_eq ▸ hmem)))

variable [IsOrderedAddMonoid T]

/-- Every job of a run whose jobs take at most their computation times starts in time. -/
theorem inTime_of_run (hnodup : tasks.Nodup)
    (hfeasible : Feasible timing calls (post timing tasks).entries)
    (hpunctual : Punctual timing calls slack (post timing tasks).entries) {times : List T}
    (h : dispatchForever timing tasks times = some s)
    (hbound : ∀ job ∈ s.jobs, job.executionTime ≤ timing.computationTime job.task) :
    ∀ job ∈ s.jobs, job.InTime slack := by
  revert hbound
  refine Transition.run_history (I := fun _ s =>
    (∀ job ∈ s.jobs, job.executionTime ≤ timing.computationTime job.task) →
      ∀ job ∈ s.jobs, job.InTime slack) (fun _ => by simp [PeriodicQueue.post]) ?_ h
  intro times m time t hrun ih ht hbound
  obtain ⟨e, rest, hnext, rfl⟩ := dispatch_eq_some.mp ht
  have hbefore : ∀ job ∈ m.jobs, job.executionTime ≤ timing.computationTime job.task :=
    fun job hjob => hbound job (List.mem_append_left _ hjob)
  have hfollows := follows_of_run hnodup hfeasible hrun hbefore
  intro job hjob
  rcases List.mem_append.mp hjob with hjob | hjob
  · exact ih hbefore job hjob
  · obtain rfl := List.mem_singleton.mp hjob
    exact ⟨le_max_right _ _, hfollows.start_le hfeasible hpunctual hnext⟩

end Following

end PeriodicQueue
