import BikeComputer.Core.Stopping
import BikeComputer.StaticScheduling.BikeSystem
import BikeComputer.StaticScheduling.Schedule

/-!
# The super-loop of the polling bike system

`start` makes the calls of one pass, loads the stop flag, and makes the next pass unless
the flag was set. Another thread may set the flag at any time, also during a call. The
calls made so far are those of the schedule, in order, so every run of the loop is a run
of the bike system that follows it.
-/

namespace BikeComputer.StaticScheduling

/-- The calls that are still to be made in a pass. -/
structure SuperLoop.Pass where
  rest : List Task
  suffix : rest <:+ superLoop

namespace SuperLoop.Pass

/-- A pass begins with all its calls to make. -/
def first : Pass := ⟨superLoop, List.suffix_rfl⟩

/-- The next call and the calls after it. -/
def next : Pass → Option (Task × Pass)
  | ⟨[], _⟩ => none
  | ⟨task :: rest, h⟩ => some (task, ⟨rest, (List.suffix_cons task rest).trans h⟩)

/-- The next task of a pass is the first one that is left. -/
theorem next_eq_some {p q : Pass} {task : Task} :
    p.next = some (task, q) ↔ p.rest = task :: q.rest := by
  obtain ⟨rest, h⟩ := p
  obtain ⟨rest', h'⟩ := q
  cases rest with
  | nil => simp [next]
  | cons task' rest => simp [next]

/-- A pass never has more calls left than the super-loop has. -/
theorem length_rest_le (p : Pass) : p.rest.length ≤ superLoop.length := p.suffix.length_le

end SuperLoop.Pass

/-- Where the thread is in the loop. -/
inductive SuperLoop.Pc where
  | call (pass : Pass)
  | running (task : Task) (pass : Pass)
  | test (exit : Bool)
  | returned

/-- The system, the flag `stop` sets, and the place in the loop. -/
structure SuperLoop where
  system : BikeSystem
  stopFlag : Bool := false
  pc : SuperLoop.Pc := .call .first

namespace SuperLoop

/-- A call begins and finishes; `stop` is the call of the other thread. -/
inductive Label where
  | begin (task : Task)
  | finish (label : BikeSystem.Label)
  | loadStopFlag
  | testExit
  | stop

/-- One call, the load of the flag at the end of a pass, or `stop` at any time. -/
def step (s : SuperLoop) : Label → Option SuperLoop
  | .begin task =>
    match s.pc with
    | .call pass =>
      match pass.next with
      | some (task', rest) =>
        if task' = task then some { s with pc := .running task rest } else none
      | none => none
    | _ => none
  | .finish label =>
    match s.pc with
    | .running task pass =>
      if label.task = task then
        (s.system.step label).map fun system => { s with system := system, pc := .call pass }
      else none
    | _ => none
  | .loadStopFlag =>
    match s.pc with
    | .call pass => if pass.rest = [] then some { s with pc := .test s.stopFlag } else none
    | _ => none
  | .testExit =>
    match s.pc with
    | .test exit => some { s with pc := if exit then .returned else .call .first }
    | _ => none
  | .stop => some { s with stopFlag := true }

/-- What the loop can do. -/
theorem step_cases {s t : SuperLoop} {label : Label} (h : s.step label = some t) :
    (∃ pass task rest, label = .begin task ∧ s.pc = .call pass ∧
      pass.rest = task :: rest.rest ∧ t = { s with pc := .running task rest }) ∨
    (∃ l pass system, label = .finish l ∧ s.pc = .running l.task pass ∧
      s.system.step l = some system ∧ t = { s with system := system, pc := .call pass }) ∨
    (∃ pass, label = .loadStopFlag ∧ s.pc = .call pass ∧ pass.rest = [] ∧
      t = { s with pc := .test s.stopFlag }) ∨
    (∃ exit, label = .testExit ∧ s.pc = .test exit ∧
      t = { s with pc := if exit then .returned else .call .first }) ∨
    label = .stop ∧ t = { s with stopFlag := true } := by
  cases label with
  | begin task =>
    refine Or.inl ?_
    simp only [step] at h
    split at h
    · rename_i pass hpc
      split at h
      · rename_i task' rest hnext
        obtain ⟨rfl, ht⟩ := Option.ite_none_right_eq_some.mp h
        exact ⟨pass, task', rest, rfl, hpc, Pass.next_eq_some.mp hnext,
          (Option.some.inj ht).symm⟩
      · exact absurd h (by simp)
    · exact absurd h (by simp)
  | finish l =>
    refine Or.inr (Or.inl ?_)
    simp only [step] at h
    split at h
    · rename_i task pass hpc
      obtain ⟨rfl, ht⟩ := Option.ite_none_right_eq_some.mp h
      obtain ⟨system, hsystem, rfl⟩ := Option.map_eq_some_iff.mp ht
      exact ⟨l, pass, system, rfl, hpc, hsystem, rfl⟩
    · exact absurd h (by simp)
  | loadStopFlag =>
    refine Or.inr (Or.inr (Or.inl ?_))
    simp only [step] at h
    split at h
    · rename_i pass hpc
      obtain ⟨hrest, ht⟩ := Option.ite_none_right_eq_some.mp h
      exact ⟨pass, rfl, hpc, hrest, (Option.some.inj ht).symm⟩
    · exact absurd h (by simp)
  | testExit =>
    refine Or.inr (Or.inr (Or.inr (Or.inl ?_)))
    simp only [step] at h
    split at h
    · rename_i exit hpc
      exact ⟨exit, rfl, hpc, (Option.some.inj h).symm⟩
    · exact absurd h (by simp)
  | stop => exact Or.inr (Or.inr (Or.inr (Or.inr ⟨rfl, (Option.some.inj h).symm⟩)))

/-- The calls of the pass the loop is in that have not finished. -/
def Pc.unfinished : Pc → List Task
  | .call pass => pass.rest
  | .running task pass => task :: pass.rest
  | .test _ | .returned => []

/-- The execution a label finishes. -/
def Label.finished? : Label → Option BikeSystem.Label
  | .finish label => some label
  | _ => none

/-- A call that finishes is a step of the bike system. -/
theorem step_system {s t : SuperLoop} {label : Label} (h : s.step label = some t) :
    Transition.run BikeSystem.step s.system label.finished?.toList = some t.system := by
  rcases step_cases h with ⟨pass, task, rest, rfl, -, -, rfl⟩ |
    ⟨l, pass, system, rfl, -, hsystem, rfl⟩ | ⟨pass, rfl, -, -, rfl⟩ | ⟨exit, rfl, -, rfl⟩ |
    ⟨rfl, rfl⟩
  · rfl
  · exact Transition.run_cons_eq_some.mpr ⟨system, hsystem, rfl⟩
  · rfl
  · rfl
  · rfl

/-- The finished calls and the rest of the pass are the first calls of the super-loop, a
number of whole passes. -/
structure Calls (finished : List Task) (s : SuperLoop) : Prop where
  inOrder : InOrder (finished ++ s.pc.unfinished)
  whole : (finished ++ s.pc.unfinished).length % superLoop.length = 0

/-- Every step of the loop keeps its calls in order. -/
theorem Calls.step {finished : List BikeSystem.Label} {s t : SuperLoop} {label : Label}
    (h : Calls (finished.map BikeSystem.Label.task) s) (ht : s.step label = some t) :
    Calls ((finished ++ label.finished?.toList).map BikeSystem.Label.task) t := by
  obtain ⟨horder, hwhole⟩ := h
  rcases step_cases ht with ⟨pass, task, rest, rfl, hpc, hrest, rfl⟩ |
    ⟨l, pass, system, rfl, hpc, -, rfl⟩ | ⟨pass, rfl, hpc, hrest, rfl⟩ |
    ⟨exit, rfl, hpc, rfl⟩ | ⟨rfl, rfl⟩
  · rw [hpc, Pc.unfinished, hrest] at horder hwhole
    simp only [Label.finished?, Option.toList_none, List.append_nil]
    exact ⟨horder, hwhole⟩
  · rw [hpc, Pc.unfinished] at horder hwhole
    rw [Label.finished?, Option.toList_some, List.map_append, List.map_singleton]
    exact ⟨by simpa [Pc.unfinished] using horder, by simpa [Pc.unfinished] using hwhole⟩
  · rw [hpc, Pc.unfinished, hrest] at horder hwhole
    simp only [Label.finished?, Option.toList_none, List.append_nil]
    exact ⟨horder, hwhole⟩
  · rw [hpc, Pc.unfinished, List.append_nil] at horder hwhole
    simp only [Label.finished?, Option.toList_none, List.append_nil]
    cases exit with
    | true =>
      exact ⟨by simpa [Pc.unfinished] using horder, by simpa [Pc.unfinished] using hwhole⟩
    | false =>
      have hpass := horder.append_superLoop hwhole
      exact ⟨hpass, by simpa [Pc.unfinished, Pass.first] using hwhole⟩
  · simp only [Label.finished?, Option.toList_none, List.append_nil]
    exact ⟨horder, hwhole⟩

/-- A run of the loop is a run of the bike system whose tasks are in order. -/
theorem run_calls {s t : SuperLoop} {labels : List Label} (hs : s.pc = .call .first)
    (h : Transition.run step s labels = some t) :
    Transition.run BikeSystem.step s.system (labels.filterMap Label.finished?) = some t.system ∧
      InOrder ((labels.filterMap Label.finished?).map BikeSystem.Label.task) := by
  have hcalls : Calls ((labels.filterMap Label.finished?).map BikeSystem.Label.task) t := by
    refine Transition.run_history (I := fun labels t =>
      Calls ((labels.filterMap Label.finished?).map BikeSystem.Label.task) t) ?_ ?_ h
    · constructor
      · rw [hs]
        exact InOrder.append_superLoop rfl rfl
      · rw [hs]
        rfl
    · intro labels m label u _ hm hu
      rw [Transition.filterMap_snoc]
      exact hm.step hu
  exact ⟨Transition.run_filterMap step_system h, hcalls.inOrder.of_append⟩

/-- The loop in `start`, entered before the first call. -/
def loop : Transition.Loop where
  State := SuperLoop
  Label := Label
  step := step
  Entered s := s.pc = .call .first
  starts
    | .begin _ => true
    | _ => false
  stop := .stop

/-- Once the flag is set, only the rest of the pass is made, or all of one pass if the
flag was loaded before. -/
def rank : loop.Rank superLoop.length where
  Stopped s := s.stopFlag = true
  rank s :=
    match s.pc with
    | .call pass | .running _ pass => pass.rest.length
    | .test exit => if exit then 0 else superLoop.length
    | .returned => 0
  of_stop := by
    intro s t h
    obtain rfl := Option.some.inj h
    refine ⟨rfl, ?_⟩
    cases s.pc with
    | call pass | running task pass => exact pass.length_rest_le
    | test exit => cases exit <;> decide
    | returned => decide
  of_step := by
    intro s label t hs h
    rcases step_cases h with ⟨pass, task, rest, rfl, hpc, hrest, rfl⟩ |
      ⟨l, pass, system, rfl, hpc, hsystem, rfl⟩ | ⟨pass, rfl, hpc, hrest, rfl⟩ |
      ⟨exit, rfl, hpc, rfl⟩ | ⟨rfl, rfl⟩
    · refine ⟨hs, ?_⟩
      simp [loop, hpc, hrest, Nat.add_comm]
    · refine ⟨hs, ?_⟩
      simp [loop, hpc]
    · refine ⟨hs, ?_⟩
      simp [loop, hpc, hrest, hs]
    · refine ⟨hs, ?_⟩
      cases exit <;> simp [loop, hpc, Pass.first]
    · exact ⟨rfl, by simp [loop]⟩

end SuperLoop

end BikeComputer.StaticScheduling
