import BikeComputer.Core.Overload
import BikeComputer.Core.Trace

/-!
# Queues of periodic tasks and calls

Besides its periodic tasks, the queue takes calls that are posted at any time, to be made
once and as soon as possible. It has a fixed number of places, and refuses the calls that
find none. A call is posted behind everything that is due, so it cannot make a job late
that was due before it: if no job runs longer than a bound, every job is late by at most
one bound for each other place.
-/

namespace PeriodicQueue

variable {τ T : Type*}

/-- The queue with a clock. -/
structure Mixed (τ T : Type*) where
  clock : T
  /-- The time the job that is running has started, or the last one has been over. -/
  since : T
  entries : List (Entry τ T)
  running : Option (Entry τ T) := none
  /-- The calls that have been accepted. -/
  called : List (Entry τ T) := []
  /-- The jobs that have started, with the time they did. -/
  started : List (Entry τ T × T) := []
  deriving DecidableEq, Repr

namespace Mixed

/-- A call is posted, a job begins or is over, or time passes. -/
inductive Label (τ T : Type*) where
  | call (task : τ)
  | begin (task : τ)
  | finish
  | elapse (d : T)
  deriving DecidableEq, Repr

/-- The places that are taken. The event of a job keeps its place until the job is over. -/
def occupied (s : Mixed τ T) : ℕ := s.entries.length + if s.running = none then 0 else 1

/-- What a task with a period is inserted as when a job of it is over. -/
def again [Add T] [LinearOrder T] (period : τ → Option T) (s : Mixed τ T) (e : Entry τ T) :
    List (Entry τ T) :=
  (period e.task).elim [] fun p => [⟨e.task, max (e.target + p) s.clock⟩]

/-- What a call of the task inserts. -/
def accepted (places : ℕ) (s : Mixed τ T) (task : τ) : List (Entry τ T) :=
  if s.occupied < places then [⟨task, s.clock⟩] else []

/-- The tasks without a period are called. An idle queue does not sleep past the next
target. -/
def step [Add T] [Zero T] [LinearOrder T] [DecidableEq τ] (period : τ → Option T) (places : ℕ)
    (s : Mixed τ T) : Label τ T → Option (Mixed τ T)
  | .call task =>
    if period task = none then
      some { s with
        entries := s.entries ++ s.accepted places task
        called := s.called ++ s.accepted places task }
    else none
  | .begin task =>
    (takeNext s.entries).bind fun p =>
      if s.running = none ∧ p.1.task = task ∧ p.1.target ≤ s.clock then
        some { s with
          since := s.clock
          entries := p.2
          running := some p.1
          started := s.started ++ [(p.1, s.clock)] }
      else none
  | .finish =>
    s.running.map fun e => { s with
      since := s.clock
      entries := s.entries ++ s.again period e
      running := none }
  | .elapse d =>
    if 0 ≤ d ∧ (s.running = none → ∀ p ∈ takeNext s.entries, s.clock + d ≤ p.1.target) then
      some { s with clock := s.clock + d }
    else none

/-- The periodic tasks are posted at time 0, behind the calls that have been made before. -/
def post [Zero T] (delay : τ → T) (calls tasks : List τ) : Mixed τ T where
  clock := 0
  since := 0
  entries := calls.map (⟨·, 0⟩) ++ tasks.map fun task => ⟨task, delay task⟩
  called := calls.map (⟨·, 0⟩)

section Steps

variable [Add T] [Zero T] [LinearOrder T] [DecidableEq τ] {period : τ → Option T}
variable {places : ℕ} {s t : Mixed τ T}

/-- A call is accepted or refused. -/
theorem step_call {task : τ} :
    s.step period places (.call task) = some t ↔
      period task = none ∧ t = { s with
        entries := s.entries ++ s.accepted places task
        called := s.called ++ s.accepted places task } := by
  simp only [step, Option.ite_none_right_eq_some, Option.some.injEq, @eq_comm _ t]

/-- An idle queue begins the next job if that is due. -/
theorem step_begin {task : τ} :
    s.step period places (.begin task) = some t ↔
      ∃ e rest, takeNext s.entries = some (e, rest) ∧ s.running = none ∧ e.task = task ∧
        e.target ≤ s.clock ∧ t = { s with
          since := s.clock
          entries := rest
          running := some e
          started := s.started ++ [(e, s.clock)] } := by
  simp only [step, Option.bind_eq_some_iff, Option.ite_none_right_eq_some, Option.some.injEq,
    and_assoc, Prod.exists, @eq_comm _ t]

/-- The job that is over frees its place or is inserted again. -/
theorem step_finish :
    s.step period places .finish = some t ↔
      ∃ e, s.running = some e ∧ t = { s with
        since := s.clock
        entries := s.entries ++ s.again period e
        running := none } := by
  simp only [step, Option.map_eq_some_iff, @eq_comm _ t]

/-- Time passes during a job or until the next target. -/
theorem step_elapse {d : T} :
    s.step period places (.elapse d) = some t ↔
      0 ≤ d ∧ (s.running = none → ∀ p ∈ takeNext s.entries, s.clock + d ≤ p.1.target) ∧
        t = { s with clock := s.clock + d } := by
  simp only [step, Option.ite_none_right_eq_some, Option.some.injEq, and_assoc, @eq_comm _ t]

end Steps

/-- No job has been running longer than the bound. -/
def OnTime [Add T] [LE T] (M : T) (s : Mixed τ T) : Prop :=
  s.running ≠ none → s.clock ≤ s.since + M

/-- The jobs that will be over before the one of the entry in the middle starts. -/
def before [LinearOrder T] (s : Mixed τ T) (pre : List (Entry τ T)) (e : Entry τ T)
    (post : List (Entry τ T)) : ℕ :=
  ahead pre e post + if s.running = none then 0 else 1

/-- An entry that is inserted later counts only if it is targeted before. -/
theorem ahead_snoc [LinearOrder T] {pre post : List (Entry τ T)} {e x : Entry τ T} :
    ahead pre e (post ++ [x]) = ahead pre e post + if x.target < e.target then 1 else 0 := by
  rw [ahead, ahead, List.countP_append, ← Nat.add_assoc, List.countP_singleton]
  simp

section Lateness

variable [AddCommMonoid T] [LinearOrder T] [IsOrderedAddMonoid T]
variable {period : τ → Option T} {M : T} {places : ℕ} {s t : Mixed τ T}

/-- The queue has been at it for no longer than the entry may be late, less the jobs that
will be over before. -/
def Bounded (M : T) (places : ℕ) (s : Mixed τ T) : Prop :=
  ∀ pre e post, s.entries = pre ++ e :: post →
    s.since ≤ e.target + (places - 1 - s.before pre e post) • M

/-- What holds of a queue whose jobs take at most the bound. -/
structure Prompt (M : T) (places : ℕ) (s : Mixed τ T) : Prop where
  occupied_le : s.occupied ≤ places
  since_le : s.since ≤ s.clock
  /-- An idle queue does not sleep past the next target. -/
  idle : s.running = none → ∀ e ∈ s.entries, s.clock ≤ max s.since e.target
  bounded : Bounded M places s
  running : ∀ e ∈ s.running, s.since ≤ e.target + (places - 1) • M
  started : ∀ x ∈ s.started, x.1.target ≤ x.2 ∧ x.2 ≤ x.1.target + (places - 1) • M
  past : ∀ x ∈ s.started, x.2 ≤ s.clock

/-- What is targeted at the present or later is inserted behind everything that is due. -/
theorem Bounded.insert {x : Entry τ T} {since : T} (hM : 0 ≤ M) (hx : since ≤ x.target)
    (h : ∀ pre e post, s.entries = pre ++ e :: post → e.target ≤ x.target →
      since ≤ e.target + (places - 1 - t.before pre e post) • M)
    (hentries : t.entries = s.entries ++ [x]) (hsince : t.since = since) :
    Bounded M places t := by
  intro pre e post hsplit
  rw [hentries] at hsplit
  rw [hsince]
  rcases List.eq_nil_or_concat' post with rfl | ⟨post, z, rfl⟩
  · obtain ⟨-, hlast⟩ := List.append_inj' hsplit rfl
    obtain rfl := List.singleton_inj.mp hlast
    exact hx.trans (le_add_of_nonneg_right (nsmul_nonneg hM _))
  · rw [← List.cons_append, ← List.append_assoc] at hsplit
    obtain ⟨hold, hlast⟩ := List.append_inj' hsplit rfl
    obtain rfl := List.singleton_inj.mp hlast
    by_cases hlt : x.target < e.target
    · exact (hx.trans hlt.le).trans (le_add_of_nonneg_right (nsmul_nonneg hM _))
    · have hsame : t.before pre e (post ++ [x]) = t.before pre e post := by
        rw [before, before, ahead_snoc, if_neg hlt, Nat.add_zero]
      rw [hsame]
      exact h pre e post hold (not_lt.mp hlt)

/-- A queue is prompt at the start. -/
theorem post_prompt {delay : τ → T} {calls tasks : List τ} (hM : 0 ≤ M)
    (hplaces : calls.length + tasks.length ≤ places) (hdelay : ∀ task ∈ tasks, 0 ≤ delay task) :
    Prompt M places (post delay calls tasks) where
  occupied_le := by simpa [post, occupied] using hplaces
  since_le := le_rfl
  idle _ e _ := le_max_left _ _
  bounded pre e post hsplit := by
    have hmem : e ∈ (Mixed.post delay calls tasks).entries := by simp [hsplit]
    have htarget : 0 ≤ e.target := by
      simp only [Mixed.post, List.mem_append, List.mem_map] at hmem
      rcases hmem with ⟨task, -, rfl⟩ | ⟨task, htask, rfl⟩
      · exact le_rfl
      · exact hdelay task htask
    exact add_nonneg htarget (nsmul_nonneg hM _)
  running := by simp [Mixed.post]
  started := by simp [Mixed.post]
  past := by simp [Mixed.post]

variable [DecidableEq τ]

/-- A call keeps the queue prompt: it waits behind everything that is due. -/
theorem Prompt.call {task : τ} (h : Prompt M places s) (hM : 0 ≤ M)
    (ht : s.step period places (.call task) = some t) : Prompt M places t := by
  obtain ⟨-, rfl⟩ := step_call.mp ht
  by_cases hroom : s.occupied < places
  · rw [accepted, if_pos hroom]
    refine ⟨?_, h.since_le, fun hidle e he => ?_, ?_, h.running, h.started, h.past⟩
    · simp only [occupied, List.length_append, List.length_singleton] at hroom ⊢
      omega
    · rcases List.mem_append.mp he with he | he
      · exact h.idle hidle e he
      · obtain rfl := List.mem_singleton.mp he
        exact le_max_right _ _
    · exact Bounded.insert hM h.since_le
        (fun pre e post hsplit _ => h.bounded pre e post hsplit) rfl rfl
  · rw [accepted, if_neg hroom, List.append_nil, List.append_nil]
    exact h

/-- Beginning the next job keeps the queue prompt. -/
theorem Prompt.begin {task : τ} (h : Prompt M places s) (hM : 0 ≤ M)
    (ht : s.step period places (.begin task) = some t) : Prompt M places t := by
  obtain ⟨y, rest, hnext, hidle, -, hdue, rfl⟩ := step_begin.mp ht
  obtain ⟨p, q, hentries, rfl, hp, hq⟩ := takeNext_spec hnext
  have hclock : s.clock ≤ max s.since y.target := h.idle hidle y (by simp [hentries])
  have hstart : s.clock ≤ y.target + (places - 1) • M := by
    have hbounded := h.bounded p y q hentries
    rw [before, ahead_eq_zero hp hq, if_pos hidle, Nat.sub_zero] at hbounded
    exact hclock.trans (max_le hbounded (le_add_of_nonneg_right (nsmul_nonneg hM _)))
  refine ⟨?_, le_rfl, fun hrunning => absurd hrunning (by simp), ?_, ?_, ?_, ?_⟩
  · have hplaces := h.occupied_le
    rw [occupied, if_pos hidle, hentries] at hplaces
    simp only [occupied, List.length_append, List.length_cons, reduceCtorEq, if_false] at hplaces ⊢
    omega
  · intro pre e post hsplit
    -- what is running now was ahead of every other entry
    obtain ⟨pre', post', hold, hle, hahead⟩ : ∃ pre' post', s.entries = pre' ++ e :: post' ∧
        y.target ≤ e.target ∧ ahead pre' e post' = ahead pre e post + 1 := by
      rcases split_of_removed (y := y) hsplit with ⟨mid, rfl, rfl, hold⟩ | ⟨mid, rfl, rfl, hold⟩
      · have hlt : y.target < e.target := hp e (by simp)
        exact ⟨pre, mid ++ y :: q, hentries.trans hold, hlt.le, by simp [ahead, hlt]; omega⟩
      · have hle : y.target ≤ e.target := hq e (by simp)
        exact ⟨p ++ y :: mid, post, hentries.trans hold, hle, by simp [ahead, hle]; omega⟩
    have hbounded := h.bounded pre' e post' hold
    rw [before, hahead, if_pos hidle] at hbounded
    exact hclock.trans (max_le hbounded (hle.trans (le_add_of_nonneg_right (nsmul_nonneg hM _))))
  · rintro e ⟨⟩
    exact hstart
  · intro x hx
    rcases List.mem_append.mp hx with hx | hx
    · exact h.started x hx
    · obtain rfl := List.mem_singleton.mp hx
      exact ⟨hdue, hstart⟩
  · intro x hx
    rcases List.mem_append.mp hx with hx | hx
    · exact h.past x hx
    · obtain rfl := List.mem_singleton.mp hx
      exact le_rfl

/-- A job that is over in time keeps the queue prompt. -/
theorem Prompt.finish (h : Prompt M places s) (hM : 0 ≤ M) (hontime : OnTime M s)
    (ht : s.step period places .finish = some t) : Prompt M places t := by
  obtain ⟨y, hrunning, rfl⟩ := step_finish.mp ht
  have hplaces := h.occupied_le
  rw [occupied, if_neg (by simp [hrunning])] at hplaces
  have hclock : s.clock ≤ s.since + M := hontime (by simp [hrunning])
  have hbounded : ∀ pre e post, s.entries = pre ++ e :: post →
      s.clock ≤ e.target + (places - 1 - ahead pre e post) • M := by
    intro pre e post hsplit
    have hold := h.bounded pre e post hsplit
    rw [before, if_neg (by simp [hrunning])] at hold
    have hlength : ahead pre e post ≤ pre.length + post.length := ahead_le_length
    have hcount : places - 1 - ahead pre e post = places - 1 - (ahead pre e post + 1) + 1 := by
      rw [hsplit] at hplaces
      simp only [List.length_append, List.length_cons] at hplaces
      omega
    rw [hcount, succ_nsmul, ← add_assoc]
    exact hclock.trans (add_le_add_left hold M)
  have hagain : s.again period y = [] ∨ ∃ x, s.again period y = [x] ∧ s.clock ≤ x.target := by
    cases hperiod : period y.task with
    | none => exact Or.inl (by simp [again, hperiod])
    | some d =>
      exact Or.inr ⟨⟨y.task, max (y.target + d) s.clock⟩, by simp [again, hperiod],
        le_max_right _ _⟩
  refine ⟨?_, le_rfl, fun _ e _ => le_max_left _ _, ?_, by simp, h.started, h.past⟩
  · rcases hagain with hagain | ⟨x, hagain, -⟩ <;> simp [occupied, hagain] <;> omega
  · rcases hagain with hagain | ⟨x, hagain, hx⟩
    · intro pre e post hsplit
      rw [hagain, List.append_nil] at hsplit
      simpa [before] using hbounded pre e post hsplit
    · rw [hagain]
      refine Bounded.insert hM hx (fun pre e post hsplit _ => ?_) rfl rfl
      simpa [before] using hbounded pre e post hsplit

/-- Waiting keeps the queue prompt. -/
theorem Prompt.elapse {d : T} (h : Prompt M places s)
    (ht : s.step period places (.elapse d) = some t) : Prompt M places t := by
  obtain ⟨hd, hwake, rfl⟩ := step_elapse.mp ht
  refine ⟨h.occupied_le, h.since_le.trans (le_add_of_nonneg_right hd), fun hidle e he => ?_,
    h.bounded, h.running, h.started, fun x hx => (h.past x hx).trans (le_add_of_nonneg_right hd)⟩
  have hnext : takeNext s.entries ≠ none := fun hnone => by
    rw [takeNext_eq_none.mp hnone] at he
    exact absurd he (by simp)
  obtain ⟨⟨y, rest⟩, hy⟩ := Option.ne_none_iff_exists'.mp hnext
  exact ((hwake hidle (y, rest) hy).trans (target_le_of_takeNext hy he)).trans (le_max_right _ _)

/-- The clock never goes back. -/
theorem clock_le_of_step {a : Label τ T} (ht : s.step period places a = some t) :
    s.clock ≤ t.clock := by
  cases a with
  | call task =>
    obtain ⟨-, rfl⟩ := step_call.mp ht
    exact le_rfl
  | begin task =>
    obtain ⟨e, rest, -, -, -, -, rfl⟩ := step_begin.mp ht
    exact le_rfl
  | finish =>
    obtain ⟨e, -, rfl⟩ := step_finish.mp ht
    exact le_rfl
  | elapse d =>
    obtain ⟨hd, -, rfl⟩ := step_elapse.mp ht
    exact le_add_of_nonneg_right hd

/-- Every step of a queue that is on time keeps it prompt. -/
theorem Prompt.step {a : Label τ T} (h : Prompt M places s) (hM : 0 ≤ M)
    (hontime : OnTime M s) (ht : s.step period places a = some t) : Prompt M places t := by
  cases a with
  | call task => exact h.call hM ht
  | begin task => exact h.begin hM ht
  | finish => exact h.finish hM hontime ht
  | elapse d => exact h.elapse ht

/-- Every run whose jobs take at most the bound keeps the queue prompt. -/
theorem Prompt.run {labels : List (Label τ T)} (h : Prompt M places s) (hM : 0 ≤ M)
    (hontime : Transition.Throughout (Mixed.step period places) (OnTime M) s labels)
    (hrun : Transition.run (Mixed.step period places) s labels = some t) : Prompt M places t :=
  hontime.run_history (I := fun _ t => Prompt M places t) h (fun hm hq ht => hm.step hM hq ht) hrun

omit [DecidableEq τ] in
/-- The present is late for no entry by more than one bound for each other place. -/
theorem Prompt.clock_le (h : Prompt M places s) (hM : 0 ≤ M) (hontime : OnTime M s)
    {e : Entry τ T} (he : e ∈ s.entries) : s.clock ≤ e.target + (places - 1) • M := by
  obtain ⟨pre, post, hsplit⟩ := List.append_of_mem he
  have hbounded := h.bounded pre e post hsplit
  by_cases hidle : s.running = none
  · refine (h.idle hidle e he).trans (max_le (hbounded.trans ?_) ?_)
    · exact add_le_add_right (nsmul_le_nsmul_left hM (Nat.sub_le _ _)) _
    · exact le_add_of_nonneg_right (nsmul_nonneg hM _)
  · have hplaces := h.occupied_le
    rw [occupied, if_neg hidle, hsplit, List.length_append, List.length_cons] at hplaces
    have hcount : places - 1 - s.before pre e post + 1 ≤ places - 1 := by
      rw [before, if_neg hidle]
      omega
    calc s.clock ≤ s.since + M := hontime hidle
      _ ≤ e.target + (places - 1 - s.before pre e post) • M + M := add_le_add_left hbounded M
      _ = e.target + (places - 1 - s.before pre e post + 1) • M := by rw [succ_nsmul, add_assoc]
      _ ≤ e.target + (places - 1) • M := add_le_add_right (nsmul_le_nsmul_left hM hcount) _

omit [DecidableEq τ] in
/-- The job that is running will be over within one bound for each place. -/
theorem Prompt.clock_le_of_running (h : Prompt M places s) (hontime : OnTime M s)
    {e : Entry τ T} (he : s.running = some e) : s.clock ≤ e.target + places • M := by
  have hplaces := h.occupied_le
  rw [occupied, if_neg (by simp [he])] at hplaces
  calc s.clock ≤ s.since + M := hontime (by simp [he])
    _ ≤ e.target + (places - 1) • M + M := add_le_add_left (h.running e he) M
    _ = e.target + places • M := by
      rw [add_assoc, ← succ_nsmul, Nat.sub_add_cancel (by omega)]

end Lateness

end Mixed

end PeriodicQueue
