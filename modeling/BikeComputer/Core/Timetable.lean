import BikeComputer.Core.PeriodicQueue
import Mathlib.Algebra.Group.Hom.Defs
import Mathlib.Algebra.Order.Group.Defs
import Mathlib.Data.List.Nodup

/-!
# Periodic queues that follow a timetable

A timetable is a sequence of calls, each given a slot as long as its nominal
computation time, back to back. If every call fits its slot in the evolution of the
targets alone, the queue runs the calls in order inside their slots, whatever shorter
time each of them takes.
-/

namespace PeriodicQueue

variable {τ T : Type*}

/-- The start of the `n`-th slot. -/
def slotStart [AddMonoid T] (timing : Timing τ T) (calls : ℕ → τ) : ℕ → T
  | 0 => 0
  | n + 1 => slotStart timing calls n + timing.computationTime (calls n)

/-- The slots only depend on the computation times. -/
theorem slotStart_congr [AddMonoid T] {timing timing' : Timing τ T}
    (h : timing.computationTime = timing'.computationTime) (calls : ℕ → τ) (n : ℕ) :
    slotStart timing calls n = slotStart timing' calls n := by
  induction n with
  | zero => rfl
  | succ n ih => rw [slotStart, slotStart, ih, h]

/-- The release of a task that has run `k` times. -/
def Timing.release [AddMonoid T] (timing : Timing τ T) (task : τ) (k : ℕ) : T :=
  timing.delay task + k • timing.period task

/-- The first release comes after the delay. -/
theorem Timing.release_zero [AddMonoid T] (timing : Timing τ T) (task : τ) :
    timing.release task 0 = timing.delay task := by
  rw [Timing.release, zero_nsmul, add_zero]

/-- The next release comes one period later. -/
theorem Timing.release_succ [AddMonoid T] (timing : Timing τ T) (task : τ) (k : ℕ) :
    timing.release task (k + 1) = timing.release task k + timing.period task := by
  rw [Timing.release, Timing.release, succ_nsmul, add_assoc]

/-- The entries after the next task, when it is not late. -/
def advance [Add T] [LinearOrder T] (timing : Timing τ T) (es : List (Entry τ T)) :
    List (Entry τ T) :=
  match takeNext es with
  | none => es
  | some (e, rest) => rest ++ [⟨e.task, e.target + timing.period e.task⟩]

/-- The next entry is inserted again one period later. -/
theorem advance_eq [Add T] [LinearOrder T] {timing : Timing τ T} {es rest : List (Entry τ T)}
    {e : Entry τ T} (h : takeNext es = some (e, rest)) :
    advance timing es = rest ++ [⟨e.task, e.target + timing.period e.task⟩] := by
  rw [advance, h]

/-- The next task is the call, released by the start of its slot and not again before
the end of it. -/
def Fits [Add T] [LinearOrder T] (timing : Timing τ T) (call : τ) (slot : T)
    (es : List (Entry τ T)) : Prop :=
  ∃ p ∈ takeNext es, p.1.task = call ∧ p.1.target ≤ slot ∧
    slot + timing.computationTime call < p.1.target + timing.period call

instance [DecidableEq τ] [Add T] [LinearOrder T] (timing : Timing τ T) (call : τ) (slot : T)
    (es : List (Entry τ T)) : Decidable (Fits timing call slot es) :=
  inferInstanceAs (Decidable (∃ p ∈ takeNext es, _))

/-- Every call fits its slot. -/
def Feasible [AddMonoid T] [LinearOrder T] (timing : Timing τ T) (calls : ℕ → τ)
    (es : List (Entry τ T)) : Prop :=
  ∀ n, Fits timing (calls n) (slotStart timing calls n) ((advance timing)^[n] es)

/-- A job that runs the call inside its slot, when `before` are the jobs before it. It is
targeted at its release, and over before the next release of its task. -/
structure Job.InSlot [DecidableEq τ] [AddMonoid T] [LinearOrder T] (timing : Timing τ T)
    (call : τ) (slot : T) (before : List (Job τ T)) (job : Job τ T) : Prop where
  task_eq : job.task = call
  target_eq : job.target = timing.release job.task ((before.map Job.task).count job.task)
  release_le_start :
    timing.release job.task ((before.map Job.task).count job.task) ≤ job.start
  start_le_slot : job.start ≤ slot
  finish_lt_release :
    job.finish < timing.release job.task ((before.map Job.task).count job.task + 1)

section Released

variable [DecidableEq τ] [AddMonoid T] {timing : Timing τ T} {tasks : List τ} {s : State τ T}

/-- Every task has one entry, targeted at its next release. -/
structure Released (timing : Timing τ T) (s : State τ T) : Prop where
  nodup : (s.entries.map Entry.task).Nodup
  target_eq : ∀ e ∈ s.entries,
    e.target = timing.release e.task ((s.jobs.map Job.task).count e.task)

/-- Every task is posted for its first release. -/
theorem Released.post (h : tasks.Nodup) : Released timing (post timing tasks) where
  nodup := by simpa [PeriodicQueue.post, Function.comp_def] using h
  target_eq := by simp [PeriodicQueue.post, Timing.release_zero]

/-- A task that is inserted again one period later keeps the targets at the releases. -/
theorem Released.advance [LinearOrder T] {e : Entry τ T} {rest : List (Entry τ T)}
    {job : Job τ T} {now : T} (h : Released timing s) (hnext : takeNext s.entries = some (e, rest))
    (htask : job.task = e.task) :
    Released timing {
      now := now
      entries := rest ++ [⟨e.task, e.target + timing.period e.task⟩]
      jobs := s.jobs ++ [job] } := by
  obtain ⟨pre, post, hentries, rfl, -, -⟩ := takeNext_spec hnext
  have hnodup := h.nodup
  rw [hentries, List.map_append, List.map_cons, List.nodup_middle, List.nodup_cons] at hnodup
  obtain ⟨hnotMem, hnodup⟩ := hnodup
  refine ⟨?_, ?_⟩
  · rw [List.map_append, List.map_singleton, List.map_append, List.nodup_append_comm]
    exact List.nodup_cons.mpr ⟨hnotMem, hnodup⟩
  · intro x hx
    rw [List.map_append, List.count_append, List.map_singleton, htask]
    rcases List.mem_append.mp hx with hx | hx
    · have hmem : x ∈ s.entries := by
        rw [hentries]
        rcases List.mem_append.mp hx with hx | hx <;> simp [hx]
      have hne : e.task ≠ x.task := by
        intro heq
        apply hnotMem
        rw [heq, ← List.map_append]
        exact List.mem_map_of_mem hx
      rw [List.count_singleton, if_neg (by simpa using hne), add_zero]
      exact h.target_eq x hmem
    · obtain rfl := List.mem_singleton.mp hx
      rw [List.count_singleton_self, Timing.release_succ, ← h.target_eq e (by simp [hentries])]

end Released

section Following

variable [DecidableEq τ] [AddCommMonoid T] [LinearOrder T]
variable {timing : Timing τ T} {calls : ℕ → τ} {tasks : List τ} {es : List (Entry τ T)}
variable {s t : State τ T} {executionTime : T}

/-- The queue is in step with the timetable that starts from `es`. -/
structure Follows (timing : Timing τ T) (calls : ℕ → τ) (es : List (Entry τ T))
    (s : State τ T) : Prop where
  entries_eq : s.entries = (advance timing)^[s.jobs.length] es
  now_le_slot : s.now ≤ slotStart timing calls s.jobs.length
  released : Released timing s
  inSlot : ∀ before job after, s.jobs = before ++ job :: after →
    job.InSlot timing (calls before.length) (slotStart timing calls before.length) before

/-- The queue follows the timetable when the tasks are posted. -/
theorem Follows.post (h : tasks.Nodup) :
    Follows timing calls (post timing tasks).entries (post timing tasks) where
  entries_eq := rfl
  now_le_slot := le_rfl
  released := .post h
  inSlot := by simp [PeriodicQueue.post]

/-- The jobs of a queue in step are the calls, in order. -/
theorem Follows.tasks_eq (h : Follows timing calls es s) :
    s.jobs.map Job.task = (List.range s.jobs.length).map calls := by
  refine List.ext_getElem (by simp) fun n h₁ h₂ => ?_
  have hn : n < s.jobs.length := by simpa using h₁
  have hjob := h.inSlot (s.jobs.take n) s.jobs[n] (s.jobs.drop (n + 1))
    (by rw [← List.drop_eq_getElem_cons hn, List.take_append_drop])
  simpa [hn.le] using hjob.task_eq

variable [IsOrderedAddMonoid T]

/-- A job that takes at most its computation time is run inside its slot, and leaves the
queue in step. -/
theorem Follows.dispatch (h : Follows timing calls es s) (hfeasible : Feasible timing calls es)
    (ht : dispatch timing s executionTime = some t)
    (hbound : ∀ job ∈ t.jobs, job.executionTime ≤ timing.computationTime job.task) :
    Follows timing calls es t := by
  obtain ⟨e, rest, hnext, rfl⟩ := dispatch_eq_some.mp ht
  obtain ⟨p, hp, htask, htarget, hslot⟩ := hfeasible s.jobs.length
  rw [← h.entries_eq] at hp
  obtain rfl : (e, rest) = p := Option.some.inj (hnext.symm.trans hp)
  have htime : executionTime ≤ timing.computationTime e.task :=
    hbound ⟨e.task, e.target, max s.now e.target, executionTime⟩ (by simp)
  have hstart : max s.now e.target ≤ slotStart timing calls s.jobs.length :=
    max_le h.now_le_slot htarget
  have hfinish : max s.now e.target + executionTime ≤
      slotStart timing calls s.jobs.length + timing.computationTime (calls s.jobs.length) :=
    add_le_add hstart (htask ▸ htime)
  have hperiod : max s.now e.target + executionTime < e.target + timing.period e.task :=
    htask ▸ hfinish.trans_lt hslot
  have hrelease := h.released.target_eq e (by
    obtain ⟨pre, post, hentries, -⟩ := takeNext_spec hnext
    simp [hentries])
  simp only [Job.finish, max_eq_left hperiod.le] at *
  refine ⟨?_, ?_, h.released.advance hnext rfl, ?_⟩
  · rw [List.length_append, List.length_singleton, Function.iterate_succ_apply',
      ← h.entries_eq, advance_eq hnext]
  · rw [List.length_append, List.length_singleton]
    exact hfinish
  · intro before job after hjobs
    rcases Transition.snoc_eq_append_cons.mp hjobs with
      ⟨rfl, rfl, -⟩ | ⟨after, -, hjobs⟩
    · refine ⟨htask, hrelease, ?_, hstart, ?_⟩
      · exact hrelease ▸ le_max_right _ _
      · rw [Timing.release_succ, ← hrelease]
        exact hperiod
    · exact h.inSlot before job after hjobs

/-- Every run whose jobs take at most their computation times stays in step. -/
theorem follows_of_run (hnodup : tasks.Nodup)
    (hfeasible : Feasible timing calls (post timing tasks).entries)
    {times : List T} (h : dispatchForever timing tasks times = some s)
    (hbound : ∀ job ∈ s.jobs, job.executionTime ≤ timing.computationTime job.task) :
    Follows timing calls (post timing tasks).entries s := by
  revert hbound
  refine Transition.run_history (I := fun _ s =>
    (∀ job ∈ s.jobs, job.executionTime ≤ timing.computationTime job.task) →
      Follows timing calls (PeriodicQueue.post timing tasks).entries s)
    (fun _ => .post hnodup) ?_ h
  intro _ m time t _ hm ht hbound
  refine (hm fun job hjob => hbound job ?_).dispatch hfeasible ht hbound
  obtain ⟨e, rest, -, rfl⟩ := dispatch_eq_some.mp ht
  exact List.mem_append_left _ hjob

end Following

section Rescaling

variable {T' : Type*} {g : T → T'}

/-- An entry on another scale. -/
def Entry.map (g : T → T') (e : Entry τ T) : Entry τ T' := ⟨e.task, g e.target⟩

/-- A timing on another scale. -/
def Timing.map (g : T → T') (timing : Timing τ T) : Timing τ T' where
  delay := g ∘ timing.delay
  period := g ∘ timing.period
  computationTime := g ∘ timing.computationTime

/-- Posting commutes with a change of scale. -/
theorem post_entries_map [Zero T] [Zero T'] (timing : Timing τ T) (tasks : List τ) :
    (post timing tasks).entries.map (Entry.map g) = (post (timing.map g) tasks).entries := by
  simp [post, Entry.map, Timing.map]

/-- The slots begin at the same times on another scale. -/
theorem slotStart_map [AddMonoid T] [AddMonoid T'] (g : T →+ T') (timing : Timing τ T)
    (calls : ℕ → τ) (n : ℕ) :
    slotStart (timing.map g) calls n = g (slotStart timing calls n) := by
  induction n with
  | zero => exact (map_zero g).symm
  | succ n ih => rw [slotStart, slotStart, map_add, ih]; rfl

variable [LinearOrder T] [LinearOrder T'] {es : List (Entry τ T)}

/-- The choice of the next entry only depends on the order of the targets. -/
theorem takeNext_map (hg : StrictMono g) (es : List (Entry τ T)) :
    takeNext (es.map (Entry.map g)) =
      (takeNext es).map (Prod.map (Entry.map g) (List.map (Entry.map g))) := by
  induction es with
  | nil => rfl
  | cons e es ih =>
    rw [List.map_cons, takeNext, ih, takeNext]
    cases takeNext es with
    | none => rfl
    | some p =>
      simp only [Option.map_some, Prod.map, Entry.map, hg.le_iff_le]
      split <;> rfl

section Add

variable [Add T] [Add T'] {timing : Timing τ T} {timing' : Timing τ T'}

/-- Advancing commutes with a change of scale. -/
theorem advance_map (hg : StrictMono g)
    (hperiod : ∀ x task, g (x + timing.period task) = g x + timing'.period task) :
    Function.Semiconj (List.map (Entry.map g)) (advance timing) (advance timing') := by
  intro es
  rw [advance, advance, takeNext_map hg]
  cases takeNext es with
  | none => rfl
  | some p => simp [Entry.map, hperiod]

/-- What fits into a slot does so on another scale. -/
theorem Fits.map {call : τ} {slot : T} (h : Fits timing call slot es) (hg : StrictMono g)
    (hperiod : ∀ x task, g (x + timing.period task) = g x + timing'.period task)
    (hcomputationTime :
      ∀ x task, g (x + timing.computationTime task) = g x + timing'.computationTime task) :
    Fits timing' call (g slot) (es.map (Entry.map g)) := by
  obtain ⟨p, hp, htask, htarget, hslot⟩ := h
  refine ⟨Prod.map (Entry.map g) (List.map (Entry.map g)) p, ?_, htask, ?_, ?_⟩
  · rw [takeNext_map hg]
    exact Option.mem_map_of_mem _ hp
  · exact hg.monotone htarget
  · have hlt := hg hslot
    rwa [hcomputationTime, hperiod] at hlt

end Add

/-- A feasible timetable stays feasible on another time scale. -/
theorem Feasible.map [AddMonoid T] [AddMonoid T'] {timing : Timing τ T} {calls : ℕ → τ}
    (h : Feasible timing calls es) (g : T →+ T') (hg : StrictMono g) :
    Feasible (timing.map g) calls (es.map (Entry.map g)) := by
  intro n
  rw [slotStart_map, ← (advance_map hg fun x task => map_add g x _).iterate_right n es]
  exact (h n).map hg (fun x task => map_add g x _) (fun x task => map_add g x _)

end Rescaling

section Cycles

variable [AddCommMonoid T] {timing : Timing τ T} {calls : ℕ → τ} {es : List (Entry τ T)}

/-- Every cycle takes as long as the first one. -/
theorem slotStart_add_cycle {cycle : ℕ} (hcalls : ∀ n, calls (n + cycle) = calls n) (n : ℕ) :
    slotStart timing calls (n + cycle) =
      slotStart timing calls n + slotStart timing calls cycle := by
  induction n with
  | zero => rw [Nat.zero_add, slotStart, zero_add]
  | succ n ih =>
    rw [Nat.add_right_comm, slotStart, ih, hcalls, slotStart, add_right_comm]

/-- If the entries repeat up to the length of a cycle, then what holds of the entries
before the first calls, and stays true one cycle later, holds of them before every call. -/
theorem forall_of_cycle [LinearOrder T] [IsOrderedCancelAddMonoid T]
    {P : ℕ → List (Entry τ T) → Prop} (start cycle : ℕ) (hcycle : 0 < cycle)
    (hentries : (advance timing)^[start + cycle] es =
      ((advance timing)^[start] es).map (Entry.map (· + slotStart timing calls cycle)))
    (hshift : ∀ n es, P n es →
      P (n + cycle) (es.map (Entry.map (· + slotStart timing calls cycle))))
    (hfirst : ∀ n < start + cycle, P n ((advance timing)^[n] es)) (n : ℕ) :
    P n ((advance timing)^[n] es) := by
  have hmono : StrictMono (· + slotStart timing calls cycle) := add_left_strictMono
  induction n using Nat.strongRecOn with
  | ind n ih =>
    by_cases hn : n < start + cycle
    · exact hfirst n hn
    · obtain ⟨k, rfl⟩ := Nat.exists_eq_add_of_le (not_lt.mp hn)
      have hsum : start + cycle + k = k + start + cycle := by omega
      have hrepeat : (advance timing)^[k + start + cycle] es =
          ((advance timing)^[k + start] es).map (Entry.map (· + slotStart timing calls cycle)) := by
        rw [add_assoc, Function.iterate_add_apply, hentries, Function.iterate_add_apply]
        exact ((advance_map hmono fun x task => add_right_comm x _ _).iterate_right k _).symm
      rw [hsum, hrepeat]
      exact hshift (k + start) _ (ih (k + start) (by omega))

/-- If the calls repeat, and the entries too up to the length of a cycle, then the
timetable is feasible once the first calls fit. -/
theorem feasible_of_cycle [LinearOrder T] [IsOrderedCancelAddMonoid T] (start cycle : ℕ)
    (hcycle : 0 < cycle) (hcalls : ∀ n, calls (n + cycle) = calls n)
    (hentries : (advance timing)^[start + cycle] es =
      ((advance timing)^[start] es).map (Entry.map (· + slotStart timing calls cycle)))
    (hfits : ∀ n < start + cycle,
      Fits timing (calls n) (slotStart timing calls n) ((advance timing)^[n] es)) :
    Feasible timing calls es := by
  refine forall_of_cycle (P := fun n es => Fits timing (calls n) (slotStart timing calls n) es)
    start cycle hcycle hentries ?_ hfits
  intro n es h
  rw [hcalls, slotStart_add_cycle hcalls]
  exact h.map add_left_strictMono (fun x task => add_right_comm x _ _)
    (fun x task => add_right_comm x _ _)

end Cycles

end PeriodicQueue
