import BikeComputer.Core.Run
import Mathlib.Data.List.Count

/-!
# Loops that are told to stop

A loop is a machine some of whose labels start something, and one of whose labels tells
it to stop, at any time. It stops if only boundedly many starts can follow that label. A
rank of the stopped states that pays for every start bounds them; a loop that can always
start something more never stops.
-/

namespace Transition

/-- A machine that is entered in certain states and can be told to stop. -/
structure Loop where
  State : Type
  Label : Type
  step : State → Label → Option State
  Entered : State → Prop
  starts : Label → Bool
  stop : Label

namespace Loop

variable {loop : Loop} {bound : ℕ}

/-- However long a run goes on after a stop, at most `bound` of its labels start
something. -/
def Stops (loop : Loop) (bound : ℕ) : Prop :=
  ∀ s before after t, loop.Entered s →
    run loop.step s (before ++ loop.stop :: after) = some t → after.countP loop.starts ≤ bound

/-- Every run can go on to start any number of times. -/
def GoesOn (loop : Loop) : Prop :=
  ∀ s before t, loop.Entered s → run loop.step s before = some t →
    ∀ n, ∃ after u, run loop.step t after = some u ∧ after.countP loop.starts = n

/-- A rank of the stopped states that falls with every start. -/
structure Rank (loop : Loop) (bound : ℕ) where
  Stopped : loop.State → Prop
  rank : loop.State → ℕ
  of_stop : ∀ {s t}, loop.step s loop.stop = some t → Stopped t ∧ rank t ≤ bound
  of_step : ∀ {s a t}, Stopped s → loop.step s a = some t →
    Stopped t ∧ (if loop.starts a then 1 else 0) + rank t ≤ rank s

/-- What the rank pays for in each step, it pays for in a run. -/
theorem Rank.countP_add_le (r : loop.Rank bound) {s t : loop.State} {as : List loop.Label}
    (hs : r.Stopped s) (hrun : run loop.step s as = some t) :
    as.countP loop.starts + r.rank t ≤ r.rank s := by
  induction as generalizing s with
  | nil =>
    obtain rfl := Option.some.inj hrun
    simp
  | cons a as ih =>
    obtain ⟨m, hm, ht⟩ := run_cons_eq_some.mp hrun
    obtain ⟨hstopped, hpaid⟩ := r.of_step hs hm
    have hrest := ih hstopped ht
    rw [List.countP_cons]
    omega

/-- A ranked loop stops. -/
theorem Rank.stops (r : loop.Rank bound) : loop.Stops bound := by
  intro s before after t _ hrun
  obtain ⟨m, -, hrest⟩ := run_append_eq_some.mp hrun
  obtain ⟨n, hn, hafter⟩ := run_cons_eq_some.mp hrest
  obtain ⟨hstopped, hbound⟩ := r.of_stop hn
  have hcount := r.countP_add_le hstopped hafter
  omega

/-- A loop that stops in time stops in a longer time. -/
theorem Stops.mono {bound' : ℕ} (h : loop.Stops bound) (hle : bound ≤ bound') :
    loop.Stops bound' :=
  fun s before after t hs hrun => Nat.le_trans (h s before after t hs hrun) hle

/-- A loop goes on if one more start is always possible. -/
theorem goesOn_of_invariant {I : loop.State → Prop} (hentered : ∀ {s}, loop.Entered s → I s)
    (hstep : ∀ {s a t}, I s → loop.step s a = some t → I t)
    (hmore : ∀ {s}, I s → ∃ as t, run loop.step s as = some t ∧ as.countP loop.starts = 1) :
    loop.GoesOn := by
  intro s before t hs hrun n
  have ht : I t := run_invariant hstep (hentered hs) hrun
  clear hrun
  induction n generalizing t with
  | zero => exact ⟨[], t, rfl, rfl⟩
  | succ n ih =>
    obtain ⟨as, m, hm, hone⟩ := hmore ht
    obtain ⟨bs, u, hu, hcount⟩ := ih m (run_invariant hstep ht hm)
    refine ⟨as ++ bs, u, run_append_eq_some.mpr ⟨m, hm, hu⟩, ?_⟩
    rw [List.countP_append, hone, hcount, Nat.add_comm]

/-- A loop that goes on does not stop. -/
theorem GoesOn.not_stops (h : loop.GoesOn) {s t : loop.State} (hs : loop.Entered s)
    (ht : loop.step s loop.stop = some t) : ¬ loop.Stops bound := by
  intro hstops
  have hstop : run loop.step s [loop.stop] = some t := run_cons_eq_some.mpr ⟨t, ht, rfl⟩
  obtain ⟨after, u, hafter, hcount⟩ := h s [loop.stop] t hs hstop (bound + 1)
  have hle := hstops s [] after u hs (run_cons_eq_some.mpr ⟨t, ht, hafter⟩)
  omega

end Loop

end Transition
