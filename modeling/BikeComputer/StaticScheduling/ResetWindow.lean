import BikeComputer.StaticScheduling.Devices
import Mathlib.Algebra.Order.Ring.Defs
import Mathlib.Algebra.Order.Ring.Cast

/-!
# Windows of the polled reset

An execution of `checkReset` reads the button at instants of its own and the timer after
each of them. Instants are in microseconds, on a scale that may be finer than the timer.
How far the reads of a window are apart is left open; in a paced window no two in a row are
farther apart than a given gap, so no press that is held for the gap falls between them.
-/

namespace BikeComputer.StaticScheduling

variable {T : Type*} [Ring T] [LinearOrder T]

/-- One complete execution of `checkReset`, with the instants at which it reads the
button. -/
structure ResetWindow (T : Type*) [Ring T] [LinearOrder T] where
  start : T
  reads : BusyWait.Window ResetDevice.kTaskRunTime T
  /-- The button is read inside the window, before the timer. -/
  inside : ∀ p ∈ reads.passes, start ≤ p.sample ∧ p.sample ≤ start + (p.elapsed : T)

namespace ResetWindow

/-- The last reading of the timer ends the window. -/
def finish (w : ResetWindow T) : T := w.start + (w.reads.duration : T)

/-- What `checkReset` reports if the button reads as given. -/
def checkReset (w : ResetWindow T) (read : T → ℤ) : Option Bool :=
  ResetDevice.checkReset (w.reads.map read).passes

/-- The button is read between the start and the end of the window. -/
theorem le_finish [IsOrderedRing T] (w : ResetWindow T) {t : T} (ht : t ∈ w.reads.samples) :
    w.start ≤ t ∧ t ≤ w.finish := by
  obtain ⟨p, hp, rfl⟩ := List.mem_map.mp ht
  obtain ⟨hstart, helapsed⟩ := w.inside p hp
  have hfinish : (p.elapsed : T) ≤ (w.reads.duration : T) :=
    Int.cast_mono (w.reads.elapsed_le_duration hp)
  exact ⟨hstart, helapsed.trans (add_le_add_right hfinish w.start)⟩

/-- What the button has read so far decides what the loop reports so far. -/
theorem foldl_sample (pressed : Bool) (reads : List ℤ) :
    reads.foldl ResetDevice.sample pressed = (pressed || reads.any (· = kPolarityPressed)) := by
  induction reads generalizing pressed with
  | nil => simp
  | cons x reads ih =>
    rw [List.foldl_cons, ih, List.any_cons, ← Bool.or_assoc]
    by_cases hx : x = kPolarityPressed <;> simp [ResetDevice.sample, hx]

/-- The window ends with the answer whether any read found the button pressed. -/
theorem checkReset_eq (w : ResetWindow T) (read : T → ℤ) :
    w.checkReset read = some ((w.reads.samples.map read).any (· = kPolarityPressed)) := by
  have hloop : w.checkReset read =
      some ((w.reads.map read).samples.foldl ResetDevice.sample false) :=
    BusyWait.loop_window (by decide) ResetDevice.sample false _
  rw [hloop, foldl_sample, Bool.false_or, BusyWait.Window.samples_map]

/-- The reset is reported if and only if some read found the button pressed. -/
theorem checkReset_eq_true {w : ResetWindow T} {read : T → ℤ} :
    w.checkReset read = some true ↔ ∃ t ∈ w.reads.samples, read t = kPolarityPressed := by
  rw [checkReset_eq]
  simp

/-- The last read of the button. -/
def lastRead (w : ResetWindow T) : T := (w.reads.passes.getLast w.reads.nonempty).sample

/-- The button is read again after the timer and at most `gap` after the read before, and
the window ends at most `gap` after the last read. -/
structure Paced (w : ResetWindow T) (gap : T) : Prop where
  next : w.reads.passes.IsChain fun p q =>
    w.start + (p.elapsed : T) ≤ q.sample ∧ q.sample ≤ p.sample + gap
  last : w.finish ≤ w.lastRead + gap

/-- Reads at most a gap apart do not leap over an interval of this length. -/
theorem exists_read_near [IsOrderedRing T] {gap a : T} {ps : List (BusyWait.Pass T)}
    (hne : ps ≠ []) (hnext : ps.IsChain fun p q => q.sample ≤ p.sample + gap)
    (hfirst : (ps.head hne).sample < a + gap) (hlast : a ≤ (ps.getLast hne).sample) :
    ∃ p ∈ ps, a ≤ p.sample ∧ p.sample < a + gap := by
  induction ps with
  | nil => exact absurd rfl hne
  | cons p ps ih =>
    rcases le_or_gt a p.sample with hle | hbefore
    · exact ⟨p, List.mem_cons_self, hle, hfirst⟩
    · cases ps with
      | nil => exact absurd hlast (not_le.mpr hbefore)
      | cons q ps =>
        obtain ⟨hgap, hrest⟩ := List.isChain_cons_cons.mp hnext
        have hq : q.sample < a + gap := hgap.trans_lt (by simpa using hbefore)
        obtain ⟨p', hp', hnear⟩ := ih (List.cons_ne_nil q ps) hrest hq hlast
        exact ⟨p', List.mem_cons_of_mem p hp', hnear⟩

/-- A press that is held for the gap inside a paced window is read. -/
theorem Paced.exists_sample [IsOrderedRing T] {w : ResetWindow T} {gap a : T}
    (h : w.Paced gap) (hfirst : w.reads.samples.head? = some w.start)
    (hstart : w.start < a + gap) (hlast : a ≤ w.lastRead) :
    ∃ t ∈ w.reads.samples, a ≤ t ∧ t < a + gap := by
  have hhead : (w.reads.passes.head w.reads.nonempty).sample = w.start := by
    rw [BusyWait.Window.samples, List.head?_map, List.head?_eq_some_head w.reads.nonempty] at hfirst
    exact Option.some.inj hfirst
  obtain ⟨p, hp, hnear⟩ := exists_read_near w.reads.nonempty (h.next.imp fun _ _ hpq => hpq.2)
    (hhead.trans_lt hstart) hlast
  exact ⟨p.sample, List.mem_map_of_mem hp, hnear⟩

end ResetWindow

end BikeComputer.StaticScheduling
