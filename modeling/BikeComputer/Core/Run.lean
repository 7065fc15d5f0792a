import Mathlib.Data.List.Induction

/-!
# Runs of labelled partial steps

A machine is a step function that may refuse a label. A run executes a list of
labels and fails at the first refusal, so a successful run is a schedule all of
whose steps were enabled. Invariants are proved once per step; histories carry
the labels executed so far, for properties that speak about the past. One machine simulates
another if it answers every step with a run in which an observer sees the same.
-/

namespace Transition

variable {σ α : Type*}

/-- Execute the labels in order; a refused label ends the run in `none`. -/
def run (step : σ → α → Option σ) : σ → List α → Option σ
  | s, [] => some s
  | s, a :: as => (step s a).bind fun t => run step t as

variable {step : σ → α → Option σ}

/-- The run without steps. -/
@[simp] theorem run_nil (s : σ) : run step s [] = some s := rfl

/-- A nonempty run is an enabled step followed by a run. -/
@[simp] theorem run_cons_eq_some {s t : σ} {a : α} {as : List α} :
    run step s (a :: as) = some t ↔ ∃ m, step s a = some m ∧ run step m as = some t := by
  simp only [run, Option.bind_eq_some_iff]

/-- Runs compose at the unique intermediate state. -/
theorem run_append_eq_some {s t : σ} {as bs : List α} :
    run step s (as ++ bs) = some t ↔ ∃ m, run step s as = some m ∧ run step m bs = some t := by
  induction as generalizing s with
  | nil => simp
  | cons a as ih =>
    simp only [List.cons_append, run_cons_eq_some, ih]
    constructor
    · rintro ⟨m, hm, n, hn, ht⟩
      exact ⟨n, ⟨m, hm, hn⟩, ht⟩
    · rintro ⟨n, ⟨m, hm, hn⟩, ht⟩
      exact ⟨m, hm, n, hn, ht⟩

/-- The last label of a run is an enabled step from the state before it. -/
theorem run_snoc_eq_some {s t : σ} {a : α} {as : List α} :
    run step s (as ++ [a]) = some t ↔ ∃ m, run step s as = some m ∧ step m a = some t := by
  simp [run_append_eq_some]

/-- What every enabled step preserves holds at the end of every run. -/
theorem run_invariant {I : σ → Prop}
    (hstep : ∀ {s a t}, I s → step s a = some t → I t)
    {s t : σ} {as : List α} (hs : I s) (h : run step s as = some t) : I t := by
  induction as generalizing s with
  | nil => exact Option.some.inj h ▸ hs
  | cons a as ih =>
    obtain ⟨m, hm, ht⟩ := run_cons_eq_some.mp h
    exact ih (hstep hs hm) ht

/-- What the steps with certain labels preserve holds at the end of every run of them. -/
theorem run_invariant_of_forall {I : σ → Prop} {P : α → Prop}
    (hstep : ∀ {s a t}, P a → I s → step s a = some t → I t)
    {s t : σ} {as : List α} (hs : I s) (has : ∀ a ∈ as, P a) (h : run step s as = some t) :
    I t := by
  induction as generalizing s with
  | nil => exact Option.some.inj h ▸ hs
  | cons a as ih =>
    obtain ⟨m, hm, ht⟩ := run_cons_eq_some.mp h
    obtain ⟨ha, has⟩ := List.forall_mem_cons.mp has
    exact ih (hstep ha hs hm) has ht

/-- A property of the labels executed so far and the present state, established
initially and extended by every enabled step, holds of every run. -/
theorem run_history {I : List α → σ → Prop} {s : σ} (hnil : I [] s)
    (hstep : ∀ {tr m a t}, run step s tr = some m → I tr m → step m a = some t →
      I (tr ++ [a]) t)
    {tr : List α} {t : σ} (h : run step s tr = some t) : I tr t := by
  induction tr using List.reverseRecOn generalizing t with
  | nil => exact Option.some.inj h ▸ hnil
  | append_singleton tr a ih =>
    obtain ⟨m, hm, ht⟩ := run_snoc_eq_some.mp h
    exact hstep hm (ih hm) ht

/-- Labels are selected one after the other. -/
theorem filterMap_snoc {β : Type*} {f : α → Option β} {as : List α} {a : α} :
    (as ++ [a]).filterMap f = as.filterMap f ++ (f a).toList := by
  rw [List.filterMap_append]
  cases h : f a <;> simp [h]

/-- A label that is selected has been one of the labels. -/
theorem exists_of_filterMap_eq_append_cons {β : Type*} {f : α → Option β} {as : List α}
    {pre post : List β} {b : β} (h : as.filterMap f = pre ++ b :: post) :
    ∃ as₁ a as₂, as = as₁ ++ a :: as₂ ∧ as₁.filterMap f = pre ∧ f a = some b ∧
      as₂.filterMap f = post := by
  obtain ⟨as₁, rest, rfl, rfl, hrest⟩ := List.filterMap_eq_append_iff.mp h
  obtain ⟨as₃, a, as₄, rfl, hnone, ha, rfl⟩ := List.filterMap_eq_cons_iff.mp hrest
  refine ⟨as₁ ++ as₃, a, as₄, by simp, ?_, ha, rfl⟩
  rw [List.filterMap_append, List.filterMap_eq_nil_iff.mpr hnone, List.append_nil]

/-- A machine that does to a part of its state what another machine does with some of its
labels runs the other machine with these labels. -/
theorem run_filterMap {τ β : Type*} {step' : τ → β → Option τ} {part : σ → τ}
    {f : α → Option β}
    (hstep : ∀ {s a t}, step s a = some t → run step' (part s) (f a).toList = some (part t))
    {s t : σ} {as : List α} (h : run step s as = some t) :
    run step' (part s) (as.filterMap f) = some (part t) := by
  induction as using List.reverseRecOn generalizing t with
  | nil => exact congrArg (some ∘ part) (Option.some.inj h)
  | append_singleton as a ih =>
    obtain ⟨m, hm, ht⟩ := run_snoc_eq_some.mp h
    rw [filterMap_snoc]
    exact run_append_eq_some.mpr ⟨part m, ih hm, hstep ht⟩

/-- An occurrence in a history is its last label or lies in the history before it. -/
theorem snoc_eq_append_cons {β : Type*} {bs pre post : List β} {b c : β} :
    bs ++ [b] = pre ++ c :: post ↔
      (pre = bs ∧ c = b ∧ post = []) ∨ ∃ post', post = post' ++ [b] ∧ bs = pre ++ c :: post' := by
  constructor
  · intro h
    rcases List.eq_nil_or_concat post with rfl | ⟨post', d, rfl⟩
    · obtain ⟨hpre, hlast⟩ := List.append_inj' h rfl
      exact Or.inl ⟨hpre.symm, (List.singleton_inj.mp hlast).symm, rfl⟩
    · have h' : bs ++ [b] = (pre ++ c :: post') ++ [d] := by simpa using h
      obtain ⟨hbs, hlast⟩ := List.append_inj' h' rfl
      obtain rfl := List.singleton_inj.mp hlast
      exact Or.inr ⟨post', by simp, hbs⟩
  · rintro (⟨rfl, rfl, rfl⟩ | ⟨post', rfl, rfl⟩)
    · rfl
    · simp

section Simulation

variable {τ β γ : Type*} {step' : τ → β → Option τ}

/-- A relation every step of the first machine keeps with some run of the second. It may
speak of the labels that are still to come. -/
structure Simulation (step : σ → α → Option σ) (step' : τ → β → Option τ) (seen : α → List γ)
    (seen' : β → Option γ) (R : List α → σ → τ → Prop) : Prop where
  answer : ∀ {a as s t s'}, R (a :: as) s s' → step s a = some t →
    ∃ bs t', run step' s' bs = some t' ∧ bs.filterMap seen' = seen a ∧ R as t t'

/-- A run of the first machine is answered by a run of the second that looks the same. -/
theorem Simulation.run {seen : α → List γ} {seen' : β → Option γ} {R : List α → σ → τ → Prop}
    (h : Simulation step step' seen seen' R) {as : List α} {s t : σ} {s' : τ} (hR : R as s s')
    (hrun : run step s as = some t) :
    ∃ bs t', Transition.run step' s' bs = some t' ∧ bs.filterMap seen' = as.flatMap seen ∧
      R [] t t' := by
  induction as generalizing s s' with
  | nil =>
    obtain rfl := Option.some.inj hrun
    exact ⟨[], s', rfl, rfl, hR⟩
  | cons a as ih =>
    obtain ⟨m, hm, hrest⟩ := run_cons_eq_some.mp hrun
    obtain ⟨bs, m', hbs, hseen, hR'⟩ := h.answer hR hm
    obtain ⟨bs', t', hbs', hseen', hR''⟩ := ih hR' hrest
    refine ⟨bs ++ bs', t', run_append_eq_some.mpr ⟨m', hbs, hbs'⟩, ?_, hR''⟩
    rw [List.filterMap_append, List.flatMap_cons, hseen, hseen']

end Simulation

end Transition
