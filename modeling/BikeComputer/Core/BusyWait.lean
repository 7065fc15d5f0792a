import Mathlib.Data.List.Basic
import Mathlib.Data.Int.Notation

/-!
# Busy-wait sampling loops

A loop samples an input and reads a timer until a bound is reached. The passes it
makes are given from outside; a window is a sequence of passes that the timer ends
exactly at its last one, so the loop consumes it completely. A latched loop body
acts on the first sample it knows and ignores the rest of its window.
-/

namespace BusyWait

/-- One pass: the sample it reads and the elapsed time at its end. -/
structure Pass (α : Type*) where
  sample : α
  elapsed : ℤ

variable {α β : Type*}

/-- `while (elapsed < bound) { body; elapsed = ...; }`, or `none` if the passes run
out before the loop ends. -/
def loop (bound : ℤ) (body : β → α → β) : β → ℤ → List (Pass α) → Option β
  | b, elapsed, [] => if elapsed < bound then none else some b
  | b, elapsed, p :: ps =>
    if elapsed < bound then loop bound body (body b p.sample) p.elapsed ps else some b

/-- What every run of the body keeps, a loop that ends has kept. -/
theorem loop_invariant {I : β → Prop} {bound elapsed : ℤ} {body : β → α → β} {b b' : β}
    {ps : List (Pass α)} (hbody : ∀ b x, I b → I (body b x)) (hb : I b)
    (h : loop bound body b elapsed ps = some b') : I b' := by
  induction ps generalizing b elapsed with
  | nil =>
    rw [loop] at h
    split at h
    · exact absurd h (by simp)
    · exact Option.some.inj h ▸ hb
  | cons p ps ih =>
    rw [loop] at h
    split at h
    · exact ih (hbody b p.sample hb) h
    · exact Option.some.inj h ▸ hb

/-- The samples a loop reads before its bound is reached. -/
def read (bound : ℤ) : ℤ → List (Pass α) → List α
  | _, [] => []
  | elapsed, p :: ps => if elapsed < bound then p.sample :: read bound p.elapsed ps else []

/-- A loop that ends has run its body once for each sample it has read. -/
theorem loop_eq_foldl {bound elapsed : ℤ} {body : β → α → β} {b b' : β} {ps : List (Pass α)}
    (h : loop bound body b elapsed ps = some b') : b' = (read bound elapsed ps).foldl body b := by
  induction ps generalizing b elapsed with
  | nil =>
    rw [loop] at h
    split at h
    · exact absurd h (by simp)
    · exact (Option.some.inj h).symm
  | cons p ps ih =>
    rw [loop] at h
    rw [read]
    split at h
    · rename_i hlt
      rw [if_pos hlt]
      exact ih h
    · rename_i hge
      rw [if_neg hge]
      exact (Option.some.inj h).symm

/-- The passes of one complete execution of the loop. -/
structure Window (bound : ℤ) (α : Type*) where
  passes : List (Pass α)
  nonempty : passes ≠ []
  /-- The loop goes on after every pass but the last. -/
  running : ∀ p ∈ passes.dropLast, p.elapsed < bound
  /-- The last pass ends it. -/
  finished : ∀ p ∈ passes.getLast?, bound ≤ p.elapsed

/-- The samples of a window in the order they are read. -/
def Window.samples {bound : ℤ} (w : Window bound α) : List α := w.passes.map Pass.sample

/-- The same passes, with what is made of their samples. -/
def Window.map {bound : ℤ} (f : α → β) (w : Window bound α) : Window bound β where
  passes := w.passes.map fun p => ⟨f p.sample, p.elapsed⟩
  nonempty := by simpa using w.nonempty
  running := by
    rw [← List.map_dropLast, List.forall_mem_map]
    exact w.running
  finished := by
    intro p hp
    rw [List.getLast?_map] at hp
    obtain ⟨q, hq, rfl⟩ := Option.map_eq_some_iff.mp hp
    exact w.finished q hq

/-- The samples of a mapped window. -/
@[simp] theorem Window.samples_map {bound : ℤ} (f : α → β) (w : Window bound α) :
    (w.map f).samples = w.samples.map f := by
  simp [samples, map, Function.comp_def]

/-- The elapsed time that ends the loop. -/
def Window.duration {bound : ℤ} (w : Window bound α) : ℤ :=
  (w.passes.getLast w.nonempty).elapsed

/-- No pass reads a later time than the one that ends the loop. -/
theorem Window.elapsed_le_duration {bound : ℤ} (w : Window bound α) {p : Pass α}
    (hp : p ∈ w.passes) : p.elapsed ≤ w.duration := by
  have hend : bound ≤ w.duration :=
    w.finished _ (List.getLast?_eq_some_getLast w.nonempty)
  rw [← List.dropLast_append_getLast w.nonempty, List.mem_append, List.mem_singleton] at hp
  rcases hp with hp | rfl
  · exact Int.le_trans (Int.le_of_lt (w.running p hp)) hend
  · exact Int.le_refl _

/-- The loop runs its body for every pass of a window, from any elapsed time on. -/
private theorem loop_passes {bound elapsed : ℤ} (h : elapsed < bound) (body : β → α → β) (b : β)
    {ps : List (Pass α)} (hne : ps ≠ []) (hrun : ∀ p ∈ ps.dropLast, p.elapsed < bound)
    (hend : ∀ p ∈ ps.getLast?, bound ≤ p.elapsed) :
    loop bound body b elapsed ps = some ((ps.map Pass.sample).foldl body b) := by
  induction ps generalizing b elapsed with
  | nil => exact absurd rfl hne
  | cons p ps ih =>
    rw [loop, if_pos h]
    cases ps with
    | nil =>
      have hp : ¬ p.elapsed < bound := Int.not_lt.mpr (hend p rfl)
      rw [loop, if_neg hp]
      rfl
    | cons q ps =>
      have hp : p.elapsed < bound := hrun p (by simp)
      rw [ih hp _ (by simp) (fun r hr => hrun r (by simp [hr])) (fun r hr => hend r hr)]
      rfl

/-- On a window the loop ends and has run its body once per sample. -/
theorem loop_window {bound : ℤ} (h : 0 < bound) (body : β → α → β) (b : β)
    (w : Window bound α) : loop bound body b 0 w.passes = some (w.samples.foldl body b) :=
  loop_passes h body b w.nonempty w.running w.finished

/-- Every nonempty list of samples is the reading of some window. -/
theorem exists_window {bound : ℤ} (h : 0 < bound) {xs : List α} (hne : xs ≠ []) :
    ∃ w : Window bound α, w.samples = xs := by
  have hlast := List.dropLast_append_getLast hne
  refine ⟨⟨xs.dropLast.map (⟨·, 0⟩) ++ [⟨xs.getLast hne, bound⟩], by simp, ?_, by simp⟩, ?_⟩
  · intro p hp
    rw [List.dropLast_concat] at hp
    obtain ⟨x, -, rfl⟩ := List.mem_map.mp hp
    exact h
  · simp [Window.samples, Function.comp_def, hlast]

section Latch

/-- A loop body that acts on a sample it knows once, and then only waits. -/
def latch (known : α → Bool) (act : α → β → β) (s : β × Bool) (x : α) : β × Bool :=
  if s.2 then s else if known x then (act x s.1, true) else s

/-- A body that has acted only waits. -/
theorem foldl_latch_closed (known : α → Bool) (act : α → β → β) (b : β) (xs : List α) :
    xs.foldl (latch known act) (b, true) = (b, true) := by
  induction xs with
  | nil => rfl
  | cons x xs ih => exact ih

/-- Act on the first known sample, if there is one. -/
def onFirst (known : α → Bool) (act : α → β → β) (b : β) (xs : List α) : β :=
  match xs.find? known with
  | some x => act x b
  | none => b

/-- Only the first known sample of a window acts. -/
theorem foldl_latch_fst (known : α → Bool) (act : α → β → β) (b : β) (xs : List α) :
    (xs.foldl (latch known act) (b, false)).1 = onFirst known act b xs := by
  induction xs with
  | nil => rfl
  | cons x xs ih =>
    cases hx : known x with
    | true => simp [latch, onFirst, hx, foldl_latch_closed]
    | false => simpa [latch, onFirst, hx] using ih

end Latch

end BusyWait
