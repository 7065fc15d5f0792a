import BikeComputer.Core.MixedQueue

/-!
# The jobs of a queue of periodic tasks and calls

The calls are made in the order they were accepted in, each of them once. A periodic task
whose period pays for one bound for each place never drifts: its jobs keep their releases,
one period after the other.
-/

namespace PeriodicQueue.Mixed

variable {τ T : Type*}

/-- The entries of calls. -/
def calls (period : τ → Option T) (es : List (Entry τ T)) : List (Entry τ T) :=
  es.filter fun e => (period e.task).isNone

/-- The jobs of the task that have started, with the time they did. -/
def jobs [DecidableEq τ] (s : Mixed τ T) (task : τ) : List (Entry τ T × T) :=
  s.started.filter fun x => x.1.task = task

section Order

variable {period : τ → Option T}

/-- The calls of two lists. -/
theorem calls_append {es fs : List (Entry τ T)} :
    calls period (es ++ fs) = calls period es ++ calls period fs :=
  List.filter_append _ _

/-- The entry of a call is one. -/
theorem calls_of_none {e : Entry τ T} (h : period e.task = none) : calls period [e] = [e] := by
  simp [calls, h]

/-- The entry of a periodic task is none. -/
theorem calls_of_ne_none {e : Entry τ T} (h : period e.task ≠ none) : calls period [e] = [] := by
  simpa [calls] using h

variable [LinearOrder T]

/-- The calls wait in the order they were accepted in, and none waits for its target. -/
structure InOrder (period : τ → Option T) (s : Mixed τ T) : Prop where
  chronological : (calls period s.entries).Pairwise fun x y => x.target ≤ y.target
  called : calls period (s.started.map Prod.fst) ++ calls period s.entries = s.called
  past : ∀ e ∈ s.called, e.target ≤ s.clock
  running : ∀ e ∈ s.running, period e.task = none → e ∈ s.called

/-- A call that waits has been accepted. -/
theorem InOrder.mem_called {s : Mixed τ T} (h : InOrder period s) {e : Entry τ T}
    (he : e ∈ calls period s.entries) : e ∈ s.called :=
  h.called ▸ List.mem_append_right _ he

/-- The next call is the first one. -/
theorem calls_of_takeNext {es rest : List (Entry τ T)} {e : Entry τ T}
    (h : (calls period es).Pairwise fun x y => x.target ≤ y.target)
    (hnext : takeNext es = some (e, rest)) :
    calls period es = calls period [e] ++ calls period rest := by
  obtain ⟨p, q, rfl, rfl, hp, -⟩ := takeNext_spec hnext
  rw [calls_append, ← List.singleton_append, calls_append] at h ⊢
  rw [calls_append]
  by_cases hcall : period e.task = none
  · rw [calls_of_none hcall] at h ⊢
    have hbefore : calls period p = [] := by
      refine List.eq_nil_iff_forall_not_mem.mpr fun x hx => ?_
      have hle : x.target ≤ e.target :=
        (List.pairwise_append.mp h).2.2 x hx e (List.mem_append_left _ (List.mem_singleton_self e))
      exact (hp x (List.mem_filter.mp hx).1).not_ge hle
    rw [hbefore, List.nil_append, List.nil_append]
  · rw [calls_of_ne_none hcall, List.nil_append, List.nil_append]

/-- The calls that were made before the start are in order. -/
theorem post_inOrder [Zero T] {delay : τ → T} {called tasks : List τ}
    (hcalled : ∀ task ∈ called, period task = none)
    (htasks : ∀ task ∈ tasks, period task ≠ none) :
    InOrder period (post delay called tasks) := by
  have hentries : calls period (post delay called tasks).entries =
      called.map fun task => (⟨task, 0⟩ : Entry τ T) := by
    rw [post, calls_append]
    have hleft : calls period (called.map fun task => (⟨task, 0⟩ : Entry τ T)) =
        called.map fun task => (⟨task, 0⟩ : Entry τ T) := by
      refine List.filter_eq_self.mpr fun e he => ?_
      obtain ⟨task, htask, rfl⟩ := List.mem_map.mp he
      simp [hcalled task htask]
    have hright : calls period (tasks.map fun task => (⟨task, delay task⟩ : Entry τ T)) = [] := by
      refine List.filter_eq_nil_iff.mpr fun e he => ?_
      obtain ⟨task, htask, rfl⟩ := List.mem_map.mp he
      simpa using htasks task htask
    rw [hleft, hright, List.append_nil]
  refine ⟨?_, ?_, ?_, by simp [post]⟩
  · rw [hentries, List.pairwise_map]
    exact List.pairwise_of_forall fun _ _ => le_rfl
  · rw [hentries]
    rfl
  · intro e he
    obtain ⟨task, -, rfl⟩ := List.mem_map.mp he
    exact le_rfl

variable [AddCommMonoid T] [IsOrderedAddMonoid T] [DecidableEq τ]
variable {places : ℕ} {s t : Mixed τ T}

/-- Every step keeps the calls in order. -/
theorem InOrder.step {a : Label τ T} (h : InOrder period s)
    (ht : s.step period places a = some t) : InOrder period t := by
  cases a with
  | call task =>
    obtain ⟨hcall, rfl⟩ := step_call.mp ht
    by_cases hroom : s.occupied < places
    · rw [accepted, if_pos hroom]
      have hentries : calls period (s.entries ++ [⟨task, s.clock⟩]) =
          calls period s.entries ++ [⟨task, s.clock⟩] := by
        rw [calls_append, calls_of_none hcall]
      refine ⟨?_, ?_, ?_, ?_⟩
      · rw [hentries, List.pairwise_append]
        refine ⟨h.chronological, List.pairwise_singleton _ _, fun x hx y hy => ?_⟩
        obtain rfl := List.mem_singleton.mp hy
        exact h.past x (h.mem_called hx)
      · rw [hentries, ← List.append_assoc, h.called]
      · intro e he
        rcases List.mem_append.mp he with he | he
        · exact h.past e he
        · obtain rfl := List.mem_singleton.mp he
          exact le_rfl
      · exact fun e he hperiod => List.mem_append_left _ (h.running e he hperiod)
    · rw [accepted, if_neg hroom, List.append_nil, List.append_nil]
      exact h
  | begin task =>
    obtain ⟨e, rest, hnext, -, -, -, rfl⟩ := step_begin.mp ht
    have htaken := calls_of_takeNext h.chronological hnext
    have hsublist : (calls period rest).Sublist (calls period s.entries) :=
      htaken ▸ List.sublist_append_right _ _
    refine ⟨h.chronological.sublist hsublist, ?_, h.past, ?_⟩
    · rw [List.map_append, calls_append, List.append_assoc, List.map_singleton, ← htaken, h.called]
    · rintro x ⟨⟩ hperiod
      refine h.mem_called ?_
      rw [htaken, calls_of_none hperiod]
      exact List.mem_cons_self
  | finish =>
    obtain ⟨e, -, rfl⟩ := step_finish.mp ht
    have hagain : calls period (s.again period e) = [] := by
      cases hperiod : period e.task with
      | none => simp [again, hperiod, calls]
      | some d => simp [again, hperiod, calls]
    have hentries : calls period (s.entries ++ s.again period e) = calls period s.entries := by
      rw [calls_append, hagain, List.append_nil]
    refine ⟨?_, ?_, h.past, by simp⟩
    · rw [hentries]
      exact h.chronological
    · rw [hentries]
      exact h.called
  | elapse d =>
    obtain ⟨hd, -, rfl⟩ := step_elapse.mp ht
    exact ⟨h.chronological, h.called, fun e he => (h.past e he).trans (le_add_of_nonneg_right hd),
      h.running⟩

omit [DecidableEq τ] in
/-- Every accepted call has been made in time, or there is still time for it. -/
theorem InOrder.answered {M : T} (h : InOrder period s) (hprompt : Prompt M places s)
    (hM : 0 ≤ M) (hontime : OnTime M s) {e : Entry τ T} (he : e ∈ s.called) :
    (∃ x ∈ s.started, x.1 = e ∧ e.target ≤ x.2 ∧ x.2 ≤ e.target + (places - 1) • M) ∨
      s.clock ≤ e.target + (places - 1) • M := by
  rw [← h.called, List.mem_append] at he
  rcases he with he | he
  · obtain ⟨x, hx, rfl⟩ := List.mem_map.mp (List.mem_filter.mp he).1
    exact Or.inl ⟨x, hx, rfl, hprompt.started x hx⟩
  · exact Or.inr (hprompt.clock_le hM hontime (List.mem_filter.mp he).1)

omit [DecidableEq τ] in
/-- Once the time of all accepted calls is up, none waits and none is running. -/
theorem InOrder.over {M : T} (h : InOrder period s) (hprompt : Prompt M places s) (hM : 0 ≤ M)
    (hontime : OnTime M s) (hlong : ∀ e ∈ s.called, e.target + places • M < s.clock) :
    calls period s.entries = [] ∧ ∀ e ∈ s.running, period e.task ≠ none := by
  constructor
  · refine List.eq_nil_iff_forall_not_mem.mpr fun e he => ?_
    refine (hlong e (h.mem_called he)).not_ge ?_
    calc s.clock ≤ e.target + (places - 1) • M :=
          hprompt.clock_le hM hontime (List.mem_filter.mp he).1
      _ ≤ e.target + places • M :=
          add_le_add_right (nsmul_le_nsmul_left hM (Nat.sub_le _ _)) _
  · intro e he hcall
    exact (hlong e (h.running e he hcall)).not_ge (hprompt.clock_le_of_running hontime he)

end Order

section Places

/-- The places the periodic tasks keep, whether they wait or run. -/
def kept (period : τ → Option T) (s : Mixed τ T) : ℕ :=
  (s.entries ++ s.running.toList).countP fun e => (period e.task).isSome

variable {period : τ → Option T}

/-- The calls that wait and the periodic tasks take different places. -/
theorem length_calls_add_kept_le (s : Mixed τ T) :
    (calls period s.entries).length + s.kept period ≤ s.occupied := by
  have hentries := List.length_eq_countP_add_countP (fun e : Entry τ T => (period e.task).isNone)
    (l := s.entries)
  have hrunning : s.running.toList.countP (fun e => (period e.task).isSome) ≤
      if s.running = none then 0 else 1 := by
    cases s.running with
    | none => rfl
    | some e => exact List.countP_le_length
  have hsame : s.entries.countP (fun e => ¬ (period e.task).isNone) =
      s.entries.countP fun e => (period e.task).isSome := by
    refine List.countP_congr fun e _ => ?_
    cases period e.task <;> simp
  rw [hsame] at hentries
  rw [calls, ← List.countP_eq_length_filter, kept, List.countP_append, occupied]
  omega

variable [Add T] [Zero T] [LinearOrder T] [DecidableEq τ] {places : ℕ} {s t : Mixed τ T}

/-- A periodic task never gives up its place, and a call never keeps one. -/
theorem kept_of_step {a : Label τ T} (ht : s.step period places a = some t) :
    t.kept period = s.kept period := by
  cases a with
  | call task =>
    obtain ⟨hcall, rfl⟩ := step_call.mp ht
    have haccepted : (s.accepted places task).countP (fun e => (period e.task).isSome) = 0 := by
      rw [accepted]
      split <;> simp [hcall]
    simp only [kept, List.countP_append, haccepted, Nat.add_zero]
  | begin task =>
    obtain ⟨e, rest, hnext, hidle, -, -, rfl⟩ := step_begin.mp ht
    obtain ⟨p, q, hentries, rfl, -, -⟩ := takeNext_spec hnext
    simp only [kept, hidle, hentries, Option.toList_none, Option.toList_some, List.append_nil,
      List.countP_append, List.countP_cons, List.countP_nil]
    omega
  | finish =>
    obtain ⟨e, hrunning, rfl⟩ := step_finish.mp ht
    have hagain : (s.again period e).countP (fun e => (period e.task).isSome) =
        [e].countP fun e => (period e.task).isSome := by
      rw [again]
      cases hperiod : period e.task <;> simp [hperiod]
    simp only [kept, hrunning, Option.toList_none, Option.toList_some, List.append_nil,
      List.countP_append, hagain]
  | elapse d =>
    obtain ⟨-, -, rfl⟩ := step_elapse.mp ht
    rfl

end Places

section Releases

variable [DecidableEq τ] {task : τ}

/-- The entries of the task. -/
def ofTask (task : τ) (es : List (Entry τ T)) : List (Entry τ T) :=
  es.filter fun e => e.task = task

/-- The entries of the task in two lists. -/
theorem ofTask_append {es fs : List (Entry τ T)} :
    ofTask task (es ++ fs) = ofTask task es ++ ofTask task fs :=
  List.filter_append _ _

/-- An entry of the task. -/
theorem ofTask_of_eq {e : Entry τ T} (h : e.task = task) : ofTask task [e] = [e] := by
  simp [ofTask, h]

/-- An entry of another task. -/
theorem ofTask_of_ne {e : Entry τ T} (h : e.task ≠ task) : ofTask task [e] = [] := by
  simp [ofTask, h]

variable [AddCommMonoid T] {delay p : T}

/-- The jobs of the task have started for one release after the other. What is left of the
task is an entry for the next release, or a job that will insert it when it is over. -/
structure Cyclic (task : τ) (delay p : T) (s : Mixed τ T) : Prop where
  started : (s.jobs task).map (fun x => x.1.target) =
    (List.range (s.jobs task).length).map fun k => delay + k • p
  next : ofTask task (s.entries ++
      s.running.toList.map fun e : Entry τ T => ⟨e.task, e.target + p⟩) =
    [⟨task, delay + (s.jobs task).length • p⟩]

/-- A task that has been posted once waits for its first release. -/
theorem post_cyclic {delays : τ → T} {called tasks : List τ} (hcalled : task ∉ called)
    (htask : task ∈ tasks) (hnodup : tasks.Nodup) :
    Cyclic task (delays task) p (post delays called tasks) where
  started := rfl
  next := by
    have hleft : ofTask task (called.map fun x => (⟨x, 0⟩ : Entry τ T)) = [] := by
      refine List.filter_eq_nil_iff.mpr fun e he => ?_
      obtain ⟨x, hx, rfl⟩ := List.mem_map.mp he
      simpa using fun heq : x = task => hcalled (heq ▸ hx)
    have hright : ofTask task (tasks.map fun x => (⟨x, delays x⟩ : Entry τ T)) =
        [⟨task, delays task⟩] := by
      rw [ofTask, List.filter_map, Function.comp_def, List.filter_eq,
        List.count_eq_one_of_mem hnodup htask, List.replicate_one, List.map_singleton]
    simp [post, jobs, ofTask_append, hleft, hright]

/-- The entry of the task waits for the next release. -/
theorem Cyclic.target_eq {s : Mixed τ T} (h : Cyclic task delay p s) {e : Entry τ T}
    (he : e ∈ s.entries) (htask : e.task = task) : e.target = delay + (s.jobs task).length • p := by
  have hmem : e ∈ ofTask task (s.entries ++
      s.running.toList.map fun e : Entry τ T => ⟨e.task, e.target + p⟩) :=
    List.mem_filter.mpr ⟨List.mem_append_left _ he, by simpa using htask⟩
  rw [h.next] at hmem
  exact congrArg Entry.target (List.mem_singleton.mp hmem)

/-- The job of the task that is running has been the last one. -/
theorem Cyclic.running_target {s : Mixed τ T} (h : Cyclic task delay p s) {e : Entry τ T}
    (he : s.running = some e) (htask : e.task = task) :
    e.target + p = delay + (s.jobs task).length • p := by
  have hmem : (⟨e.task, e.target + p⟩ : Entry τ T) ∈ ofTask task (s.entries ++
      s.running.toList.map fun e : Entry τ T => ⟨e.task, e.target + p⟩) := by
    refine List.mem_filter.mpr ⟨List.mem_append_right _ ?_, by simpa using htask⟩
    simp [he]
  rw [h.next] at hmem
  exact congrArg Entry.target (List.mem_singleton.mp hmem)

variable [LinearOrder T] {period : τ → Option T} {places : ℕ} {M : T} {s t : Mixed τ T}

/-- Each job of the task starts at its release or after it, in time. -/
theorem Cyclic.inTime (h : Cyclic task delay p s) (hprompt : Prompt M places s) {k : ℕ}
    {x : Entry τ T × T} (hx : (s.jobs task)[k]? = some x) :
    delay + k • p ≤ x.2 ∧ x.2 ≤ delay + k • p + (places - 1) • M := by
  have htarget : x.1.target = delay + k • p := by
    have hk := congrArg (·[k]?) h.started
    simp only [List.getElem?_map, hx, Option.map_some] at hk
    obtain ⟨hlt, -⟩ := List.getElem?_eq_some_iff.mp hx
    rw [List.getElem?_range hlt] at hk
    exact Option.some.inj hk
  have hmem : x ∈ s.started := (List.mem_filter.mp (List.mem_of_getElem? hx)).1
  exact htarget ▸ hprompt.started x hmem

/-- A release that is still to come belongs to a job that has not started. -/
theorem Cyclic.length_le (h : Cyclic task delay p s) (hprompt : Prompt M places s) {k : ℕ}
    (hk : s.clock < delay + k • p) : (s.jobs task).length ≤ k := by
  by_contra hlt
  obtain ⟨x, hx⟩ : ∃ x, (s.jobs task)[k]? = some x :=
    ⟨_, List.getElem?_eq_getElem (not_le.mp hlt)⟩
  have hmem : x ∈ s.started := (List.mem_filter.mp (List.mem_of_getElem? hx)).1
  exact (hk.trans_le ((h.inTime hprompt hx).1.trans (hprompt.past x hmem))).false

/-- A call leaves the entries of the task alone. -/
theorem Cyclic.call {other : τ} (h : Cyclic task delay p s) (hperiod : period task = some p)
    (ht : s.step period places (.call other) = some t) : Cyclic task delay p t := by
  obtain ⟨hcall, rfl⟩ := step_call.mp ht
  have hne : other ≠ task := fun heq => by simp [heq, hperiod] at hcall
  have haccepted : ofTask task (s.accepted places other) = [] := by
    rw [accepted]
    split
    · exact ofTask_of_ne hne
    · rfl
  refine ⟨h.started, ?_⟩
  have hnext := h.next
  rw [ofTask_append] at hnext ⊢
  rw [ofTask_append, haccepted, List.append_nil]
  exact hnext

/-- The job that begins takes the entry for its release. -/
theorem Cyclic.begin {other : τ} (h : Cyclic task delay p s)
    (ht : s.step period places (.begin other) = some t) : Cyclic task delay p t := by
  obtain ⟨e, rest, hnext, hidle, -, -, rfl⟩ := step_begin.mp ht
  obtain ⟨pre, post, hentries, rfl, -, -⟩ := takeNext_spec hnext
  have hwaiting := h.next
  rw [hidle, hentries, Option.toList_none, List.map_nil, List.append_nil, ofTask_append,
    ← List.singleton_append, ofTask_append] at hwaiting
  by_cases htask : e.task = task
  · rw [ofTask_of_eq htask] at hwaiting
    obtain ⟨hpre, hpost⟩ : ofTask task pre = [] ∧
        e :: ofTask task post = [⟨task, delay + (s.jobs task).length • p⟩] := by
      simpa [List.append_eq_singleton_iff] using hwaiting
    obtain ⟨he, hpost⟩ := List.cons.inj hpost
    have hjobs : (s.started ++ [(e, s.clock)]).filter (fun x => x.1.task = task) =
        s.jobs task ++ [(e, s.clock)] := by
      simp [jobs, htask]
    refine ⟨?_, ?_⟩
    · rw [jobs, hjobs, List.map_append, h.started, List.length_append, List.length_singleton,
        List.range_succ, List.map_append, List.map_singleton, List.map_singleton, he]
    · rw [jobs, hjobs, ofTask_append, ofTask_append, hpre, hpost, he]
      simp [ofTask, succ_nsmul, add_assoc]
  · have hjobs : (s.started ++ [(e, s.clock)]).filter (fun x => x.1.task = task) =
        s.jobs task := by
      simp [jobs, htask]
    rw [ofTask_of_ne htask, List.nil_append] at hwaiting
    refine ⟨?_, ?_⟩
    · rw [jobs, hjobs]
      exact h.started
    · rw [jobs, hjobs, ofTask_append, ofTask_append, Option.toList_some, List.map_singleton,
        ofTask_of_ne (e := ⟨e.task, e.target + p⟩) htask, List.append_nil]
      exact hwaiting

variable [IsOrderedAddMonoid T]

/-- A job that is over in time is inserted again for the next release. -/
theorem Cyclic.finish (h : Cyclic task delay p s) (hperiod : period task = some p)
    (hprompt : Prompt M places s) (hontime : OnTime M s) (hp : places • M ≤ p)
    (ht : s.step period places .finish = some t) : Cyclic task delay p t := by
  obtain ⟨e, hrunning, rfl⟩ := step_finish.mp ht
  have hwaiting := h.next
  rw [hrunning, Option.toList_some, List.map_singleton, ofTask_append] at hwaiting
  refine ⟨h.started, ?_⟩
  rw [Option.toList_none, List.map_nil, List.append_nil, ofTask_append]
  by_cases htask : e.task = task
  · have hclock : s.clock ≤ e.target + p :=
      (hprompt.clock_le_of_running hontime hrunning).trans (add_le_add_right hp _)
    have hagain : s.again period e = [⟨e.task, e.target + p⟩] := by
      simp [again, htask, hperiod, max_eq_left hclock]
    rw [hagain]
    exact hwaiting
  · have hagain : ofTask task (s.again period e) = [] := by
      rw [again]
      cases period e.task with
      | none => rfl
      | some d => exact ofTask_of_ne htask
    rw [ofTask_of_ne (e := ⟨e.task, e.target + p⟩) htask] at hwaiting
    rw [hagain]
    exact hwaiting

/-- Every step of a prompt queue keeps the task at its releases. -/
theorem Cyclic.step {a : Label τ T} (h : Cyclic task delay p s) (hperiod : period task = some p)
    (hprompt : Prompt M places s) (hontime : OnTime M s) (hp : places • M ≤ p)
    (ht : s.step period places a = some t) : Cyclic task delay p t := by
  cases a with
  | call other => exact h.call hperiod ht
  | begin other => exact h.begin ht
  | finish => exact h.finish hperiod hprompt hontime hp ht
  | elapse d =>
    obtain ⟨-, -, rfl⟩ := step_elapse.mp ht
    exact ⟨h.started, h.next⟩

/-- A job whose time is up has started. -/
theorem Cyclic.lt_length (h : Cyclic task delay p s) (hprompt : Prompt M places s)
    (hM : 0 ≤ M) (hontime : OnTime M s) (hp : places • M ≤ p) {k : ℕ}
    (hk : delay + k • p + (places - 1) • M < s.clock) : k < (s.jobs task).length := by
  by_contra hle
  have hrelease : delay + (s.jobs task).length • p ≤ delay + k • p :=
    add_le_add_right (nsmul_le_nsmul_left ((nsmul_nonneg hM _).trans hp) (not_lt.mp hle)) _
  have hmem : (⟨task, delay + (s.jobs task).length • p⟩ : Entry τ T) ∈ s.entries ++
      s.running.toList.map fun e : Entry τ T => ⟨e.task, e.target + p⟩ :=
    List.mem_of_mem_filter (h.next ▸ List.mem_singleton_self _)
  refine hk.not_ge ?_
  rcases List.mem_append.mp hmem with hmem | hmem
  · exact (hprompt.clock_le hM hontime hmem).trans (add_le_add_left hrelease _)
  · obtain ⟨e, he, heq⟩ := List.mem_map.mp hmem
    have hrunning : s.running = some e := by simpa using he
    calc s.clock ≤ e.target + places • M := hprompt.clock_le_of_running hontime hrunning
      _ ≤ e.target + p := add_le_add_right hp _
      _ = delay + (s.jobs task).length • p :=
        h.running_target hrunning (congrArg Entry.task heq)
      _ ≤ delay + k • p := hrelease
      _ ≤ delay + k • p + (places - 1) • M := le_add_of_nonneg_right (nsmul_nonneg hM _)

end Releases

end PeriodicQueue.Mixed
