import BikeComputer.Core.Timetable
import Mathlib.Algebra.Order.Group.Defs
import Mathlib.Algebra.Order.Monoid.Unbundled.Pow
import Mathlib.Data.List.Count

/-!
# Periodic queues under overload

Jobs may take longer than their tasks declare. An entry that is due is overtaken at most
once by every other one, because what is inserted again is inserted behind it. If no job
takes longer than a bound, a job is therefore late by at most one bound for each of the
other tasks, however long the overload lasts.
-/

namespace PeriodicQueue

variable {τ T : Type*}

/-- The number of other entries that are taken before the one in the middle. -/
def ahead [LinearOrder T] (pre : List (Entry τ T)) (e : Entry τ T) (post : List (Entry τ T)) :
    ℕ :=
  pre.countP (·.target ≤ e.target) + post.countP (·.target < e.target)

section Ahead

variable [LinearOrder T] {pre post : List (Entry τ T)} {e : Entry τ T}

/-- No more entries are ahead than there are others. -/
theorem ahead_le_length : ahead pre e post ≤ pre.length + post.length :=
  Nat.add_le_add List.countP_le_length List.countP_le_length

/-- Nothing is ahead of the entry that is taken. -/
theorem ahead_eq_zero (hpre : ∀ x ∈ pre, e.target < x.target)
    (hpost : ∀ x ∈ post, e.target ≤ x.target) : ahead pre e post = 0 := by
  rw [ahead, Nat.add_eq_zero_iff, List.countP_eq_zero, List.countP_eq_zero]
  exact ⟨fun x hx => by simpa using hpre x hx, fun x hx => by simpa using hpost x hx⟩

end Ahead

section Split

variable {α : Type*}

/-- An element that is left when one is removed has been there before, on one of the two
sides of it. -/
theorem split_of_removed {p q pre post : List α} {x y : α} (h : p ++ q = pre ++ x :: post) :
    (∃ mid, p = pre ++ x :: mid ∧ post = mid ++ q ∧
      p ++ y :: q = pre ++ x :: (mid ++ y :: q)) ∨
    ∃ mid, q = mid ++ x :: post ∧ pre = p ++ mid ∧
      p ++ y :: q = (p ++ y :: mid) ++ x :: post := by
  rcases List.append_eq_append_iff.mp h with ⟨mid, rfl, rfl⟩ | ⟨mid, rfl, hmid⟩
  · exact Or.inr ⟨mid, rfl, rfl, by simp⟩
  · cases mid with
    | nil =>
      rw [List.nil_append] at hmid
      exact Or.inr ⟨[], by simp [hmid], by simp, by simp [hmid]⟩
    | cons z mid =>
      obtain ⟨rfl, rfl⟩ := List.cons.inj hmid
      exact Or.inl ⟨mid, rfl, rfl, by simp⟩

end Split

section Accounts

variable [Add T] [LinearOrder T] {timing : Timing τ T} {s t : State τ T}

/-- The release of a task after one of its jobs: one period later, but not before the job
is over. -/
def Job.next (timing : Timing τ T) (job : Job τ T) : Entry τ T :=
  ⟨job.task, max (job.target + timing.period job.task) job.finish⟩

/-- A release is pending, or one of the jobs was its execution. -/
def Accounted (s : State τ T) (jobs : List (Job τ T)) (e : Entry τ T) : Prop :=
  e ∈ s.entries ∨ ∃ job ∈ jobs, job.task = e.task ∧ job.target = e.target

/-- What is pending stays so or is executed by the next job. -/
theorem Accounted.dispatch {jobs : List (Job τ T)} {e : Entry τ T} {executionTime : T}
    (h : Accounted s jobs e) (ht : dispatch timing s executionTime = some t) {job : Job τ T}
    (hjob : t.jobs = s.jobs ++ [job]) : Accounted t (jobs ++ [job]) e := by
  obtain ⟨y, rest, hnext, rfl⟩ := dispatch_eq_some.mp ht
  obtain rfl := List.singleton_inj.mp (List.append_cancel_left hjob)
  obtain ⟨pre, post, hentries, rfl, -, -⟩ := takeNext_spec hnext
  rcases h with hmem | ⟨done, hmem, hdone⟩
  · rw [hentries, List.mem_append, List.mem_cons] at hmem
    rcases hmem with hmem | rfl | hmem
    · exact Or.inl (by simp [hmem])
    · exact Or.inr ⟨_, List.mem_append_right _ (List.mem_singleton_self _), rfl, rfl⟩
    · exact Or.inl (by simp [hmem])
  · exact Or.inr ⟨done, List.mem_append_left _ hmem, hdone⟩

/-- No release is lost: not the first one of a task, nor the one after any of its jobs. -/
structure Renewed (timing : Timing τ T) (tasks : List τ) (s : State τ T) : Prop where
  first : ∀ task ∈ tasks, Accounted s s.jobs ⟨task, timing.delay task⟩
  next : ∀ before job after, s.jobs = before ++ job :: after →
    Accounted s after (job.next timing)

/-- Every release of the posted tasks is pending. -/
theorem Renewed.post [Zero T] (timing : Timing τ T) (tasks : List τ) :
    Renewed timing tasks (post timing tasks) where
  first task htask := Or.inl (List.mem_map.mpr ⟨task, htask, rfl⟩)
  next := by simp [PeriodicQueue.post]

/-- A job executes one release and brings about the next one. -/
theorem Renewed.dispatch {tasks : List τ} {executionTime : T} (h : Renewed timing tasks s)
    (ht : dispatch timing s executionTime = some t) : Renewed timing tasks t := by
  obtain ⟨y, rest, -, hstate⟩ := dispatch_eq_some.mp ht
  have hjobs := congrArg State.jobs hstate
  refine ⟨fun task htask => hjobs ▸ (h.first task htask).dispatch ht hjobs, ?_⟩
  intro before job after hsplit
  rcases Transition.snoc_eq_append_cons.mp (hjobs.symm.trans hsplit) with
    ⟨rfl, rfl, rfl⟩ | ⟨after, rfl, hbefore⟩
  · exact Or.inl (hstate ▸ List.mem_append_right _ (List.mem_singleton_self _))
  · exact (h.next before job after hbefore).dispatch ht hjobs

end Accounts

section Lateness

variable [AddCommMonoid T] [LinearOrder T] [IsOrderedAddMonoid T]
variable {timing : Timing τ T} {s t : State τ T} {executionTime M now a b : T} {k : ℕ}

/-- A job that starts after one of several bounds is over after one more. -/
theorem max_add_le (hle : a ≤ b) (hnow : now ≤ b + k • M) (hM : 0 ≤ M)
    (htime : executionTime ≤ M) : max now a + executionTime ≤ b + (k + 1) • M := by
  have hstart : max now a ≤ b + k • M :=
    max_le hnow (hle.trans (le_add_of_nonneg_right (nsmul_nonneg hM k)))
  rw [succ_nsmul, ← add_assoc]
  exact add_le_add hstart htime

/-- The queue is late for no entry by more than one bound for each other entry that will
not be taken before it. -/
def Bounded (M : T) (s : State τ T) : Prop :=
  ∀ pre e post, s.entries = pre ++ e :: post →
    s.now ≤ e.target + (pre.length + post.length - ahead pre e post) • M

/-- What the queue has to catch up with when it takes another entry: that one is no
longer ahead, and is ahead again only if there is time left. -/
theorem Bounded.other {e y y' : Entry τ T} {A L : ℕ} {pre post pre' post' : List (Entry τ T)}
    (h : Bounded M s) (hM : 0 ≤ M) (htime : executionTime ≤ M)
    (hentries : s.entries = pre ++ e :: post) (hle : y.target ≤ e.target)
    (hfinish : max s.now y.target + executionTime ≤ y'.target)
    (hL : pre.length + post.length = L) (hL' : pre'.length + post'.length = L)
    (hA : ahead pre e post = A + 1)
    (hA' : ahead pre' e post' = A + if y'.target < e.target then 1 else 0) :
    max s.now y.target + executionTime ≤
      e.target + (pre'.length + post'.length - ahead pre' e post') • M := by
  have hnow := h pre e post hentries
  have hbound : ahead pre e post ≤ L := hL ▸ ahead_le_length
  rw [hL, hA] at hnow
  rw [hL', hA']
  split
  · rename_i hlt
    exact (hfinish.trans hlt.le).trans (le_add_of_nonneg_right (nsmul_nonneg hM _))
  · have hk : L - (A + 0) = L - (A + 1) + 1 := by omega
    rw [hk]
    exact max_add_le hle hnow hM htime

/-- A job that keeps the bound keeps the queue inside it. -/
theorem Bounded.dispatch (h : Bounded M s) (hM : 0 ≤ M) (htime : executionTime ≤ M)
    (ht : dispatch timing s executionTime = some t) : Bounded M t := by
  obtain ⟨y, rest, hnext, rfl⟩ := dispatch_eq_some.mp ht
  obtain ⟨p, q, hentries, rfl, hp, hq⟩ := takeNext_spec hnext
  intro pre e post hsplit
  simp only [Job.finish] at hsplit ⊢
  set y' : Entry τ T :=
    ⟨y.task, max (y.target + timing.period y.task) (max s.now y.target + executionTime)⟩
  have hfinish : max s.now y.target + executionTime ≤ y'.target := le_max_right _ _
  rcases List.eq_nil_or_concat' post with rfl | ⟨post, z, rfl⟩
  · obtain ⟨-, hlast⟩ := List.append_inj' hsplit rfl
    obtain rfl := List.singleton_inj.mp hlast
    exact hfinish.trans (le_add_of_nonneg_right (nsmul_nonneg hM _))
  · rw [← List.cons_append, ← List.append_assoc] at hsplit
    obtain ⟨hrest, hlast⟩ := List.append_inj' hsplit rfl
    obtain rfl := List.singleton_inj.mp hlast
    rcases split_of_removed hrest with ⟨mid, rfl, rfl, hold⟩ | ⟨mid, rfl, rfl, hold⟩
    · have hlt : y.target < e.target := hp e (by simp)
      refine h.other (L := pre.length + (mid.length + q.length + 1))
        (A := ahead pre e (mid ++ q)) hM htime (hentries.trans hold) hlt.le hfinish ?_ ?_ ?_ ?_
      · simp; omega
      · simp; omega
      · simp [ahead, hlt]; omega
      · simp [ahead]; omega
    · have hle : y.target ≤ e.target := hq e (by simp)
      refine h.other (L := p.length + mid.length + post.length + 1)
        (A := ahead (p ++ mid) e post) hM htime (hentries.trans hold) hle hfinish ?_ ?_ ?_ ?_
      · simp; omega
      · simp; omega
      · simp [ahead, hle]; omega
      · simp [ahead]; omega

/-- The queue is late for no entry by more than one bound for each other one. -/
theorem Bounded.now_le {e : Entry τ T} {n : ℕ} (h : Bounded M s) (hM : 0 ≤ M)
    (he : e ∈ s.entries) (hn : s.entries.length = n + 1) : s.now ≤ e.target + n • M := by
  obtain ⟨pre, post, hentries⟩ := List.append_of_mem he
  refine (h pre e post hentries).trans (add_le_add_right ?_ _)
  refine nsmul_le_nsmul_left hM ((Nat.sub_le _ _).trans ?_)
  simp only [hentries, List.length_append, List.length_cons] at hn
  omega

/-- A job starts at its target or after it, by at most one bound for each other task. -/
structure Job.AlmostOnTime (M : T) (others : ℕ) (job : Job τ T) : Prop where
  target_le_start : job.target ≤ job.start
  start_le : job.start ≤ job.target + others • M

/-- The next job of a queue inside the bound is almost on time. -/
theorem Bounded.almostOnTime {e : Entry τ T} {rest : List (Entry τ T)} (h : Bounded M s)
    (hM : 0 ≤ M) (hnext : takeNext s.entries = some (e, rest)) (executionTime : T) :
    Job.AlmostOnTime M rest.length ⟨e.task, e.target, max s.now e.target, executionTime⟩ := by
  obtain ⟨p, q, hentries, rfl, hp, hq⟩ := takeNext_spec hnext
  have hnow := h p e q hentries
  rw [ahead_eq_zero hp hq, Nat.sub_zero, ← List.length_append] at hnow
  exact ⟨le_max_right _ _,
    max_le hnow (le_add_of_nonneg_right (nsmul_nonneg hM _))⟩

/-- What holds of a queue none of whose jobs has taken longer than the bound. -/
structure Overloaded (timing : Timing τ T) (tasks : List τ) (M : T) (s : State τ T) : Prop where
  perm : (s.entries.map Entry.task).Perm tasks
  bounded : Bounded M s
  renewed : Renewed timing tasks s
  almostOnTime : ∀ job ∈ s.jobs, job.AlmostOnTime M (tasks.length - 1)
  executionTime_le : ∀ job ∈ s.jobs, job.executionTime ≤ M

/-- The bounds hold when the tasks are posted. -/
theorem Overloaded.post {tasks : List τ} (hM : 0 ≤ M)
    (hdelay : ∀ task ∈ tasks, 0 ≤ timing.delay task) :
    Overloaded timing tasks M (post timing tasks) where
  perm := by simp [PeriodicQueue.post, Function.comp_def]
  bounded := by
    intro pre e post hentries
    have hmem : e ∈ (PeriodicQueue.post timing tasks).entries := by simp [hentries]
    obtain ⟨task, htask, rfl⟩ := List.mem_map.mp hmem
    exact add_nonneg (hdelay task htask) (nsmul_nonneg hM _)
  renewed := .post timing tasks
  almostOnTime := by simp [PeriodicQueue.post]
  executionTime_le := by simp [PeriodicQueue.post]

/-- A job within the bound keeps them. -/
theorem Overloaded.dispatch {tasks : List τ} (h : Overloaded timing tasks M s) (hM : 0 ≤ M)
    (htime : executionTime ≤ M) (ht : dispatch timing s executionTime = some t) :
    Overloaded timing tasks M t := by
  have hperm := dispatch_perm ht
  have hbounded := h.bounded.dispatch hM htime ht
  have hrenewed := h.renewed.dispatch ht
  obtain ⟨e, rest, hnext, rfl⟩ := dispatch_eq_some.mp ht
  have hjob := h.bounded.almostOnTime hM hnext executionTime
  obtain ⟨pre, post, hentries, rfl, -, -⟩ := takeNext_spec hnext
  have hlength : (pre ++ post).length = tasks.length - 1 := by
    have hperm := h.perm.length_eq
    simp only [hentries, List.length_map, List.length_append, List.length_cons] at hperm ⊢
    omega
  refine ⟨hperm.trans h.perm, hbounded, hrenewed, ?_, ?_⟩
  · intro job hmem
    rcases List.mem_append.mp hmem with hmem | hmem
    · exact h.almostOnTime job hmem
    · obtain rfl := List.mem_singleton.mp hmem
      exact hlength ▸ hjob
  · intro job hmem
    rcases List.mem_append.mp hmem with hmem | hmem
    · exact h.executionTime_le job hmem
    · obtain rfl := List.mem_singleton.mp hmem
      exact htime

/-- Every run whose jobs take at most the bound keeps the queue inside it. -/
theorem overloaded_of_run {tasks : List τ} (hM : 0 ≤ M)
    (hdelay : ∀ task ∈ tasks, 0 ≤ timing.delay task) {times : List T}
    (htimes : ∀ time ∈ times, time ≤ M) (h : dispatchForever timing tasks times = some s) :
    Overloaded timing tasks M s := by
  refine Transition.run_history (I := fun times s =>
    (∀ time ∈ times, time ≤ M) → Overloaded timing tasks M s) (fun _ => .post hM hdelay) ?_ h htimes
  intro times m time t _ hm ht hbound
  exact (hm fun x hx => hbound x (List.mem_append_left _ hx)).dispatch hM
    (hbound time (List.mem_append_right _ (List.mem_singleton_self _))) ht

/-- A release that is not lost is executed in time, unless that time has not come. -/
theorem Overloaded.started {tasks : List τ} {jobs : List (Job τ T)} {e : Entry τ T}
    (h : Overloaded timing tasks M s) (hM : 0 ≤ M) (hjobs : jobs ⊆ s.jobs)
    (haccounted : Accounted s jobs e) {bound : T} (hbound : e.target ≤ bound) :
    (∃ job ∈ jobs, job.task = e.task ∧ job.start ≤ bound + (tasks.length - 1) • M) ∨
      s.now ≤ bound + (tasks.length - 1) • M := by
  have hle := add_le_add_left hbound ((tasks.length - 1) • M)
  rcases haccounted with hmem | ⟨job, hmem, htask, htarget⟩
  · have hlength : s.entries.length = tasks.length - 1 + 1 := by
      have hperm := h.perm.length_eq
      have hpos := List.length_pos_of_mem hmem
      rw [List.length_map] at hperm
      omega
    exact Or.inr ((h.bounded.now_le hM hmem hlength).trans hle)
  · exact Or.inl ⟨job, hmem, htask,
      ((h.almostOnTime job (hjobs hmem)).start_le.trans_eq (by rw [htarget])).trans hle⟩

/-- No task waits for its first job by more than one bound for each other task. -/
theorem Overloaded.first_started {tasks : List τ} (h : Overloaded timing tasks M s)
    (hM : 0 ≤ M) {task : τ} (htask : task ∈ tasks) :
    (∃ job ∈ s.jobs, job.task = task ∧
        job.start ≤ timing.delay task + (tasks.length - 1) • M) ∨
      s.now ≤ timing.delay task + (tasks.length - 1) • M :=
  h.started hM (List.Subset.refl _) (h.renewed.first task htask) le_rfl

/-- No task starves: after each of its jobs the next one is late for its release by at most
one bound for each other task. -/
theorem Overloaded.next_started {tasks : List τ} (h : Overloaded timing tasks M s)
    (hM : 0 ≤ M) {before after : List (Job τ T)} {job : Job τ T}
    (hsplit : s.jobs = before ++ job :: after) :
    let bound := max (job.target + timing.period job.task) (job.start + M)
    (∃ next ∈ after, next.task = job.task ∧ next.start ≤ bound + (tasks.length - 1) • M) ∨
      s.now ≤ bound + (tasks.length - 1) • M := by
  have hmem : job ∈ s.jobs := by simp [hsplit]
  refine h.started hM (fun x hx => by simp [hsplit, hx]) (h.renewed.next _ _ _ hsplit) ?_
  exact max_le_max_left _ (add_le_add_right (h.executionTime_le job hmem) _)

end Lateness

end PeriodicQueue
