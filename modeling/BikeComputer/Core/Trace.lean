import BikeComputer.Core.Run

/-!
# Traces of a run

A trace pairs every executed label with the state it was executed in. A condition on
single steps holds along a run if every entry of its trace meets it.
-/

namespace Transition

variable {σ α : Type*} {step : σ → α → Option σ} {P Q : σ → α → Prop}
variable {s t m : σ} {a : α} {as bs : List α}

/-- Every label up to a refused one, with the state it was tried in. -/
def trace (step : σ → α → Option σ) : σ → List α → List (σ × α)
  | _, [] => []
  | s, a :: as => (s, a) :: (step s a).elim [] fun t => trace step t as

/-- The trace of a run goes on with that of the rest. -/
theorem trace_append (h : run step s as = some m) :
    trace step s (as ++ bs) = trace step s as ++ trace step m bs := by
  induction as generalizing s with
  | nil =>
    obtain rfl := Option.some.inj h
    rfl
  | cons a as ih =>
    obtain ⟨n, hn, hm⟩ := run_cons_eq_some.mp h
    simp [trace, hn, ih hm]

/-- The last entry of a trace is the state before the last label. -/
theorem trace_snoc (h : run step s as = some m) :
    trace step s (as ++ [a]) = trace step s as ++ [(m, a)] := by
  rw [trace_append h]
  cases hm : step m a <;> simp [trace, hm]

/-- A trace holds the labels of the run, each with the state that the labels before it lead
to. -/
theorem mem_trace (h : run step s as = some t) :
    (m, a) ∈ trace step s as ↔ ∃ pre post, as = pre ++ a :: post ∧ run step s pre = some m := by
  constructor
  · induction as generalizing s with
    | nil => simp [trace]
    | cons b as ih =>
      obtain ⟨n, hn, ht⟩ := run_cons_eq_some.mp h
      rw [trace, hn, Option.elim_some, List.mem_cons]
      rintro (heq | hmem)
      · obtain ⟨rfl, rfl⟩ := Prod.mk.inj heq
        exact ⟨[], as, rfl, rfl⟩
      · obtain ⟨pre, post, rfl, hpre⟩ := ih ht hmem
        exact ⟨b :: pre, post, rfl, run_cons_eq_some.mpr ⟨n, hn, hpre⟩⟩
  · rintro ⟨pre, post, rfl, hpre⟩
    rw [trace_append hpre]
    exact List.mem_append_right _ List.mem_cons_self

/-- If every step does to a part of the state what its calls do, a run does what the calls
of all its steps do. -/
theorem run_calls {ρ γ : Type*} {part : σ → ρ} {calls : σ → α → List γ} {after : ρ → List γ → ρ}
    (hnil : ∀ r, after r [] = r) (happend : ∀ r cs ds, after r (cs ++ ds) = after (after r cs) ds)
    (hstep : ∀ {s a t}, step s a = some t → part t = after (part s) (calls s a))
    (hrun : run step s as = some t) :
    part t = after (part s) ((trace step s as).flatMap fun x => calls x.1 x.2) := by
  induction as using List.reverseRecOn generalizing t with
  | nil =>
    obtain rfl := Option.some.inj hrun
    exact (hnil (part s)).symm
  | append_singleton as a ih =>
    obtain ⟨m, hm, ht⟩ := run_snoc_eq_some.mp hrun
    rw [trace_snoc hm, List.flatMap_append, happend, ← ih hm, List.flatMap_singleton]
    exact hstep ht

/-- Every step of the run meets the condition. -/
def Along (step : σ → α → Option σ) (P : σ → α → Prop) (s : σ) (as : List α) : Prop :=
  ∀ x ∈ trace step s as, P x.1 x.2

instance [∀ s a, Decidable (P s a)] : Decidable (Along step P s as) :=
  inferInstanceAs (Decidable (∀ x ∈ trace step s as, P x.1 x.2))

/-- A weaker condition is met along the run as well. -/
theorem Along.imp (hPQ : ∀ s a, P s a → Q s a) (h : Along step P s as) : Along step Q s as :=
  fun x hx => hPQ x.1 x.2 (h x hx)

/-- A condition is met along a run if it is met along both its parts. -/
theorem along_append (h : run step s as = some m) :
    Along step P s (as ++ bs) ↔ Along step P s as ∧ Along step P m bs := by
  simp only [Along, trace_append h, List.mem_append, or_imp, forall_and]

/-- A condition is met along a run if it is at its last step and before. -/
theorem along_snoc (h : run step s as = some m) :
    Along step P s (as ++ [a]) ↔ Along step P s as ∧ P m a := by
  simp only [Along, trace_snoc h, List.mem_append, List.mem_singleton, or_imp, forall_and,
    forall_eq]

/-- What the steps that meet a condition preserve holds of every run along which it
is met. -/
theorem Along.run_history {I : List α → σ → Prop} (hnil : I [] s)
    (hstep : ∀ {as m a t}, I as m → P m a → step m a = some t → I (as ++ [a]) t)
    (h : Along step P s as) (hrun : run step s as = some t) : I as t := by
  induction as using List.reverseRecOn generalizing t with
  | nil => exact Option.some.inj hrun ▸ hnil
  | append_singleton as a ih =>
    obtain ⟨m, hm, ht⟩ := run_snoc_eq_some.mp hrun
    obtain ⟨hbefore, ha⟩ := (along_snoc hm).mp h
    exact hstep (ih hbefore hm) ha ht

/-- Every state of the run has the property. -/
def Throughout (step : σ → α → Option σ) (Q : σ → Prop) (s : σ) (as : List α) : Prop :=
  ∀ pre post m, as = pre ++ post → run step s pre = some m → Q m

/-- The state a run starts in and those after it have the property. -/
theorem throughout_cons {Q : σ → Prop} :
    Throughout step Q s (a :: as) ↔ Q s ∧ ∀ t, step s a = some t → Throughout step Q t as := by
  constructor
  · intro h
    refine ⟨h [] (a :: as) s rfl rfl, fun t ht pre post m has hm => ?_⟩
    exact h (a :: pre) post m (by rw [has, List.cons_append])
      (run_cons_eq_some.mpr ⟨t, ht, hm⟩)
  · rintro ⟨hs, hrest⟩ pre post m has hm
    cases pre with
    | nil =>
      obtain rfl := Option.some.inj hm
      exact hs
    | cons b pre =>
      obtain ⟨rfl, htail⟩ := List.cons.inj has
      obtain ⟨t, ht, hm⟩ := run_cons_eq_some.mp hm
      exact hrest t ht pre post m htail hm

/-- The run without steps has one state. -/
theorem throughout_nil {Q : σ → Prop} : Throughout step Q s [] ↔ Q s := by
  constructor
  · exact fun h => h [] [] s rfl rfl
  · intro hs pre post m has hm
    obtain ⟨rfl, -⟩ := List.append_eq_nil_iff.mp has.symm
    obtain rfl := Option.some.inj hm
    exact hs

instance decidableThroughout {Q : σ → Prop} [DecidablePred Q] :
    ∀ s as, Decidable (Throughout step Q s as)
  | s, [] => decidable_of_iff (Q s) throughout_nil.symm
  | s, a :: as =>
    have := fun t => decidableThroughout (Q := Q) t as
    decidable_of_iff (Q s ∧ ∀ t, step s a = some t → Throughout step Q t as) throughout_cons.symm

/-- What holds throughout a run holds throughout its beginning. -/
theorem Throughout.of_append {Q : σ → Prop} (h : Throughout step Q s (as ++ bs)) :
    Throughout step Q s as :=
  fun pre post m has hm => h pre (post ++ bs) m (by rw [has, List.append_assoc]) hm

/-- What holds throughout a run holds throughout its end. -/
theorem Throughout.after {Q : σ → Prop} (h : Throughout step Q s (as ++ bs))
    (hrun : run step s as = some m) : Throughout step Q m bs := fun pre post n hbs hn =>
  h (as ++ pre) post n (by rw [hbs, List.append_assoc]) (run_append_eq_some.mpr ⟨m, hrun, hn⟩)

/-- What the steps from a state with the property preserve holds of every run all of whose
states have it. -/
theorem Throughout.run_history {Q : σ → Prop} {I : List α → σ → Prop} (hnil : I [] s)
    (hstep : ∀ {as m a t}, I as m → Q m → step m a = some t → I (as ++ [a]) t)
    (h : Throughout step Q s as) (hrun : run step s as = some t) : I as t := by
  induction as using List.reverseRecOn generalizing t with
  | nil => exact Option.some.inj hrun ▸ hnil
  | append_singleton as a ih =>
    obtain ⟨m, hm, ht⟩ := run_snoc_eq_some.mp hrun
    exact hstep (ih h.of_append hm) (h as [a] m rfl hm) ht

/-- What every state of a run has, every state has of the machine that runs with it. -/
theorem Throughout.filterMap {τ β : Type*} {step' : τ → β → Option τ} {part : σ → τ}
    {f : α → Option β} {Q : τ → Prop}
    (hstep : ∀ {s a t}, step s a = some t → run step' (part s) (f a).toList = some (part t))
    (h : Throughout step (fun s => Q (part s)) s as) (hrun : run step s as = some t) :
    Throughout step' Q (part s) (as.filterMap f) := by
  intro pre post n hsplit hn
  obtain ⟨pre', post', rfl, rfl, -⟩ := List.filterMap_eq_append_iff.mp hsplit
  obtain ⟨m, hm, -⟩ := run_append_eq_some.mp hrun
  obtain rfl := Option.some.inj ((run_filterMap hstep hm).symm.trans hn)
  exact h pre' post' m rfl hm

section LastSeen

variable {β : Type*} {seen : σ → α → Option β} {b : β}

/-- What the last step of a run that shows anything has shown. -/
def lastSeen (seen : σ → α → Option β) (step : σ → α → Option σ) (s : σ) (as : List α) :
    Option β :=
  ((trace step s as).filterMap fun x => seen x.1 x.2).getLast?

/-- What the second part of a run shows takes the place of what the first part has shown. -/
theorem lastSeen_append (h : run step s as = some m) :
    lastSeen seen step s (as ++ bs) =
      (lastSeen seen step m bs).or (lastSeen seen step s as) := by
  rw [lastSeen, trace_append h, List.filterMap_append, List.getLast?_append]
  rfl

/-- The last step shows something, or leaves what has been shown before. -/
theorem lastSeen_snoc (h : run step s as = some m) :
    lastSeen seen step s (as ++ [a]) = (seen m a).or (lastSeen seen step s as) := by
  rw [lastSeen, trace_snoc h, filterMap_snoc, List.getLast?_append]
  cases seen m a <;> rfl

/-- What is seen has been shown by a step of the run. -/
theorem exists_of_lastSeen (h : run step s as = some t)
    (hseen : lastSeen seen step s as = some b) :
    ∃ pre a post m, as = pre ++ a :: post ∧ run step s pre = some m ∧ seen m a = some b := by
  obtain ⟨⟨m, a⟩, hmem, hb⟩ := List.mem_filterMap.mp (List.mem_of_getLast? hseen)
  obtain ⟨pre, post, has, hpre⟩ := (mem_trace h).mp hmem
  exact ⟨pre, a, post, m, has, hpre, hb⟩

/-- Once a step has shown something, something is seen. -/
theorem exists_lastSeen (h : run step s (as ++ a :: bs) = some t) (hm : run step s as = some m)
    (hseen : seen m a = some b) : ∃ c, lastSeen seen step s (as ++ a :: bs) = some c := by
  have hmem : b ∈ (trace step s (as ++ a :: bs)).filterMap fun x => seen x.1 x.2 :=
    List.mem_filterMap.mpr ⟨(m, a), (mem_trace h).mpr ⟨as, bs, rfl, hm⟩, hseen⟩
  exact Option.ne_none_iff_exists'.mp
    (List.getLast?_eq_none_iff.not.mpr (List.ne_nil_of_mem hmem))

end LastSeen

end Transition
