import BikeComputer.Common.ResetButton
import BikeComputer.MultiTasking.Devices
import BikeComputer.StaticScheduling.ResetWindow
import BikeComputer.StaticSchedulingWithEvent.Devices

/-!
# The edges of the reset button

The polled device reacts to a button it finds pressed. The other two are called on an
edge, and register their callback for the release: a press that outlasts the window of
the polled device has not called them by the end of it.
-/

namespace BikeComputer

open StaticScheduling

/-- The pin reads the polarity of a pressed button. -/
theorem read_eq_kPolarityPressed {T : Type*} [LinearOrder T] {b : ResetButton T} {t : T} :
    b.read t = kPolarityPressed ↔ b.pressed t = true := by
  cases h : b.pressed t <;> simp [ResetButton.read, kPolarityPressed, h]

section Reactions

variable {T : Type*} [Ring T] [LinearOrder T]

/-- If the window reports a press, a handler registered for the edge has been called for
every press that was read, between the beginning of the press and the end of the window. -/
def Reacts (edge : Waveform.Edge) (b : ResetButton T) (w : ResetWindow T) : Prop :=
  w.checkReset b.read = some true →
    ∀ t ∈ w.reads.samples, b.read t = kPolarityPressed →
      ∃ c, b.pressBegin t = some c ∧ ∃ f ∈ b.calls edge, c ≤ f ∧ f ≤ w.finish

/-- Every press that was read is released by the end of the window. -/
def ReleasedInside (b : ResetButton T) (w : ResetWindow T) : Prop :=
  ∀ t ∈ w.reads.samples, b.read t = kPolarityPressed →
    ∃ u, t ≤ u ∧ u ≤ w.finish ∧ b.read u ≠ kPolarityPressed

/-- Registered for the press, a handler reacts to whatever the window finds. -/
theorem reacts_rise [IsOrderedRing T] (b : ResetButton T) (w : ResetWindow T) :
    Reacts .rise b w := by
  intro _ t ht hread
  have hpressed := read_eq_kPolarityPressed.mp hread
  obtain ⟨c, hc⟩ := ResetButton.exists_pressBegin hpressed
  obtain ⟨hcall, hct⟩ := ResetButton.pressBegin_mem_calls hpressed hc
  exact ⟨c, hc, c, hcall, le_rfl, hct.trans (w.le_finish ht).2⟩

/-- Registered for the release, it reacts exactly if every press is over in time. -/
theorem reacts_fall_iff (b : ResetButton T) (w : ResetWindow T) :
    Reacts .fall b w ↔ ReleasedInside b w := by
  constructor
  · intro h t ht hread
    obtain ⟨c, hc, f, hf, hcf, hfinish⟩ :=
      h (ResetWindow.checkReset_eq_true.mpr ⟨t, ht, hread⟩) t ht hread
    obtain ⟨htf, hlow⟩ := ResetButton.fall_after (read_eq_kPolarityPressed.mp hread) hc hf hcf
    refine ⟨f, htf.le, hfinish, fun hf => ?_⟩
    rw [read_eq_kPolarityPressed, hlow] at hf
    exact Bool.noConfusion hf
  · intro h _ t ht hread
    obtain ⟨u, htu, hfinish, hlow⟩ := h t ht hread
    rw [ne_eq, read_eq_kPolarityPressed, Bool.not_eq_true] at hlow
    have hpressed := read_eq_kPolarityPressed.mp hread
    obtain ⟨c, hc⟩ := ResetButton.exists_pressBegin hpressed
    obtain ⟨f, hf, htf, hfu⟩ := ResetButton.exists_fall hpressed hlow htu
    have hct := (ResetButton.pressBegin_mem_calls hpressed hc).2
    exact ⟨c, hc, f, hf, hct.trans htf.le, hfu.trans hfinish⟩

/-- Both devices that are called on an edge react to what the polled device finds exactly
if every press it has read is released by the end of its window. -/
theorem edge_devices_react_iff (b : ResetButton T) (w : ResetWindow T) :
    (Reacts StaticSchedulingWithEvent.ResetDevice.edge b w ↔ ReleasedInside b w) ∧
      (Reacts MultiTasking.ResetDevice.edge b w ↔ ReleasedInside b w) :=
  ⟨reacts_fall_iff b w, reacts_fall_iff b w⟩

end Reactions

/-- A press that begins before the window and outlasts it is reported by the polled device
and has called neither of the others. -/
theorem edge_devices_miss_long_press :
    ¬ ∀ (b : ResetButton ℤ) (w : ResetWindow ℤ),
      Reacts StaticSchedulingWithEvent.ResetDevice.edge b w ∧
        Reacts MultiTasking.ResetDevice.edge b w := by
  intro h
  obtain ⟨hreacts, -⟩ := h ⟨[20000], by decide⟩
    ⟨30000, ⟨[⟨30000, 100000⟩], by decide, by decide, by decide⟩, by decide⟩
  obtain ⟨c, -, f, hf, -⟩ := hreacts (by decide) 30000 (by decide) (by decide)
  exact absurd hf (List.not_mem_nil)

end BikeComputer
