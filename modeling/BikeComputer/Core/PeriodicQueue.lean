import BikeComputer.Core.Run
import Mathlib.Algebra.Order.Monoid.Defs
import Mathlib.Algebra.Group.Nat.Defs
import Mathlib.Logic.Function.Iterate

/-!
# A queue of periodic tasks

Whenever it is idle, the queue runs to completion the task with the smallest target,
the first inserted among equal ones, and inserts it again one period later, or at
once if that is already past. The execution times are the labels of a run.
-/

namespace PeriodicQueue

variable {τ T : Type*}

/-- What is declared of the tasks. -/
structure Timing (τ T : Type*) where
  delay : τ → T
  period : τ → T
  computationTime : τ → T

/-- A task in the queue, with the time it is due. -/
structure Entry (τ T : Type*) where
  task : τ
  target : T
  deriving DecidableEq, Repr

/-- Split off the entry with the smallest target, the first one among equal targets. -/
def takeNext [LinearOrder T] : List (Entry τ T) → Option (Entry τ T × List (Entry τ T))
  | [] => none
  | e :: es =>
    match takeNext es with
    | none => some (e, es)
    | some (next, rest) =>
      if e.target ≤ next.target then some (e, es) else some (next, e :: rest)

/-- One execution of a task. -/
structure Job (τ T : Type*) where
  task : τ
  target : T
  start : T
  executionTime : T
  deriving DecidableEq, Repr

/-- The time a job is over. -/
def Job.finish [Add T] (job : Job τ T) : T := job.start + job.executionTime

/-- The queue at the time `now` the last job has finished. -/
structure State (τ T : Type*) where
  now : T
  entries : List (Entry τ T)
  jobs : List (Job τ T) := []
  deriving DecidableEq, Repr

/-- The queue after the tasks have been posted at time 0. -/
def post [Zero T] (timing : Timing τ T) (tasks : List τ) : State τ T where
  now := 0
  entries := tasks.map fun task => ⟨task, timing.delay task⟩

/-- Wait for the next target and run its task for the given time. -/
def dispatch [Add T] [LinearOrder T] (timing : Timing τ T) (s : State τ T)
    (executionTime : T) : Option (State τ T) := do
  let (e, rest) ← takeNext s.entries
  let job : Job τ T := ⟨e.task, e.target, max s.now e.target, executionTime⟩
  return {
    now := job.finish
    entries := rest ++ [⟨e.task, max (e.target + timing.period e.task) job.finish⟩]
    jobs := s.jobs ++ [job] }

/-- Post the tasks, then dispatch one job for each execution time. -/
def dispatchForever [Add T] [Zero T] [LinearOrder T] (timing : Timing τ T) (tasks : List τ)
    (times : List T) : Option (State τ T) :=
  Transition.run (dispatch timing) (post timing tasks) times

section Selection

variable [LinearOrder T] {es rest : List (Entry τ T)} {e : Entry τ T}

/-- Only an empty queue has no next entry. -/
theorem takeNext_eq_none : takeNext es = none ↔ es = [] := by
  cases es with
  | nil => simp [takeNext]
  | cons e es =>
    simp only [takeNext, reduceCtorEq, iff_false]
    split
    · simp
    · split <;> simp

/-- The entry taken is the first one with the smallest target, and the others keep
their order. -/
theorem takeNext_spec (h : takeNext es = some (e, rest)) :
    ∃ pre post, es = pre ++ e :: post ∧ rest = pre ++ post ∧
      (∀ x ∈ pre, e.target < x.target) ∧ ∀ x ∈ post, e.target ≤ x.target := by
  induction es generalizing e rest with
  | nil => simp [takeNext] at h
  | cons a es ih =>
    rw [takeNext] at h
    split at h
    · rename_i hnone
      obtain rfl := takeNext_eq_none.mp hnone
      obtain ⟨rfl, rfl⟩ : a = e ∧ [] = rest := by simpa using h
      exact ⟨[], [], by simp⟩
    · rename_i next others hsome
      obtain ⟨pre, post, hes, hothers, hpre, hpost⟩ := ih hsome
      split at h
      · rename_i hle
        obtain ⟨rfl, rfl⟩ : a = e ∧ es = rest := by simpa using h
        refine ⟨[], es, rfl, rfl, by simp, fun x hx => ?_⟩
        rw [hes, List.mem_append, List.mem_cons] at hx
        rcases hx with hx | rfl | hx
        · exact hle.trans (hpre x hx).le
        · exact hle
        · exact hle.trans (hpost x hx)
      · rename_i hlt
        obtain ⟨rfl, rfl⟩ : next = e ∧ a :: others = rest := by simpa using h
        refine ⟨a :: pre, post, by simp [hes], by simp [hothers], ?_, hpost⟩
        intro x hx
        rcases List.mem_cons.mp hx with rfl | hx
        · exact not_le.mp hlt
        · exact hpre x hx

/-- Taking the next entry leaves entries of before. -/
theorem mem_of_takeNext (h : takeNext es = some (e, rest)) {x : Entry τ T} (hx : x ∈ rest) :
    x ∈ es := by
  obtain ⟨pre, post, rfl, rfl, -, -⟩ := takeNext_spec h
  rcases List.mem_append.mp hx with hx | hx
  · exact List.mem_append_left _ hx
  · exact List.mem_append_right _ (List.mem_cons_of_mem _ hx)

/-- The next target is the smallest. -/
theorem target_le_of_takeNext (h : takeNext es = some (e, rest)) {x : Entry τ T} (hx : x ∈ es) :
    e.target ≤ x.target := by
  obtain ⟨pre, post, rfl, -, hpre, hpost⟩ := takeNext_spec h
  rw [List.mem_append, List.mem_cons] at hx
  rcases hx with hx | rfl | hx
  · exact (hpre x hx).le
  · exact le_rfl
  · exact hpost x hx

end Selection

section Dispatch

variable [Add T] [LinearOrder T] {timing : Timing τ T} {s t : State τ T} {executionTime : T}

/-- What dispatching the next entry does. -/
theorem dispatch_eq_some :
    dispatch timing s executionTime = some t ↔
      ∃ e rest, takeNext s.entries = some (e, rest) ∧
        let job : Job τ T := ⟨e.task, e.target, max s.now e.target, executionTime⟩
        t = {
          now := job.finish
          entries := rest ++ [⟨e.task, max (e.target + timing.period e.task) job.finish⟩]
          jobs := s.jobs ++ [job] } := by
  cases h : takeNext s.entries with
  | none => simp [dispatch, h]
  | some p =>
    obtain ⟨e, rest⟩ := p
    simp [dispatch, h, eq_comm]

/-- The entries of a queue are always those of its tasks. -/
theorem dispatch_perm (h : dispatch timing s executionTime = some t) :
    (t.entries.map Entry.task).Perm (s.entries.map Entry.task) := by
  obtain ⟨e, rest, hnext, rfl⟩ := dispatch_eq_some.mp h
  obtain ⟨pre, post, hentries, rfl, -, -⟩ := takeNext_spec hnext
  simp only [hentries, List.map_append, List.map_cons, List.map_nil]
  exact (List.perm_append_singleton _ _).trans List.perm_middle.symm

/-- A queue of periodic tasks never runs empty. -/
theorem exists_dispatch (timing : Timing τ T) (hs : s.entries ≠ []) (executionTime : T) :
    ∃ t, dispatch timing s executionTime = some t ∧ t.entries ≠ [] := by
  have hnext : takeNext s.entries ≠ none := fun h => hs (takeNext_eq_none.mp h)
  obtain ⟨⟨e, rest⟩, hnext⟩ := Option.ne_none_iff_exists'.mp hnext
  exact ⟨_, dispatch_eq_some.mpr ⟨e, rest, hnext, rfl⟩, by simp⟩

/-- A queue that is not empty dispatches any number of jobs. -/
theorem exists_run (timing : Timing τ T) (hs : s.entries ≠ []) (times : List T) :
    ∃ t, Transition.run (dispatch timing) s times = some t := by
  induction times generalizing s with
  | nil => exact ⟨s, rfl⟩
  | cons time times ih =>
    obtain ⟨m, hm, hentries⟩ := exists_dispatch timing hs time
    obtain ⟨t, ht⟩ := ih hentries
    exact ⟨t, Transition.run_cons_eq_some.mpr ⟨m, hm, ht⟩⟩

/-- Queues with a task dispatch one job for each execution time. -/
theorem exists_dispatchForever [Zero T] (timing : Timing τ T) {tasks : List τ}
    (htasks : tasks ≠ []) (times : List T) :
    ∃ t, dispatchForever timing tasks times = some t ∧ t.jobs.map Job.executionTime = times := by
  obtain ⟨t, ht⟩ := exists_run timing (s := post timing tasks) (by simpa [post]) times
  refine ⟨t, ht, Transition.run_history
    (I := fun times t => t.jobs.map Job.executionTime = times) rfl ?_ ht⟩
  intro times m time t _ hm ht
  obtain ⟨e, rest, -, rfl⟩ := dispatch_eq_some.mp ht
  simp [hm]

end Dispatch

end PeriodicQueue
