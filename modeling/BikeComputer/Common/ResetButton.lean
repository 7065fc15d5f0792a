import BikeComputer.Core.Waveform
import Mathlib.Data.Int.Notation

/-!
# The reset button

The button is released at first and reads one while it is pressed. A press begins at the
last change before an instant at which the button is found pressed.
-/

namespace BikeComputer

/-- The instants at which the button is pressed or released, in turn. -/
structure ResetButton (T : Type*) [LinearOrder T] where
  changes : List T
  increasing : changes.Pairwise (· < ·)

namespace ResetButton

variable {T : Type*} [LinearOrder T] (b : ResetButton T)

/-- The button is down between two changes. -/
def pressed (t : T) : Bool := Waveform.level false b.changes t

/-- What the pin reads. -/
def read (t : T) : ℤ := if b.pressed t then 1 else 0

/-- The beginning of the press in force. -/
def pressBegin (t : T) : Option T := Waveform.lastChange b.changes t

/-- The calls of a handler registered for an edge. -/
def calls (edge : Waveform.Edge) : List T := Waveform.edges edge false b.changes

variable {b} {t u c f : T}

/-- A button that is down has gone down at some time. -/
theorem exists_pressBegin (h : b.pressed t = true) : ∃ c, b.pressBegin t = some c := by
  have hlevel : Waveform.level false b.changes t ≠ false := fun hlow =>
    absurd (h.symm.trans hlow) (by simp)
  exact Waveform.exists_lastChange hlevel

/-- A press that is over has called the handler of its release. -/
theorem exists_fall (h : b.pressed t = true) (hu : b.pressed u = false) (htu : t ≤ u) :
    ∃ f ∈ b.calls .fall, t < f ∧ f ≤ u := by
  have hlevel : Waveform.level false b.changes t = true := h
  have hne : Waveform.level false b.changes t ≠ Waveform.level false b.changes u := fun he =>
    absurd (h.symm.trans (he.trans hu)) (by simp)
  have hedge := Waveform.exists_edge hne htu
  rw [hlevel] at hedge
  exact hedge

/-- A call for the release of a press comes after every instant at which the press is
found, and the button is not pressed then. -/
theorem fall_after (h : b.pressed t = true) (hc : b.pressBegin t = some c)
    (hf : f ∈ b.calls .fall) (hcf : c ≤ f) : t < f ∧ b.pressed f = false := by
  have hlevel : Waveform.level false b.changes t = true := h
  have hleft : f ∈ Waveform.edges (.leaving true) false b.changes := hf
  have hlow : b.pressed f = false := Waveform.level_of_edge b.increasing hleft
  rw [← hlevel] at hleft
  exact ⟨Waveform.lt_of_edge b.increasing hc hleft hcf, hlow⟩

/-- A handler registered for the press is called when it begins. -/
theorem pressBegin_mem_calls (h : b.pressed t = true) (hc : b.pressBegin t = some c) :
    c ∈ b.calls .rise ∧ c ≤ t := by
  have hlevel : Waveform.level false b.changes t = true := h
  have hrise : c ∈ Waveform.edges (.leaving !(Waveform.level false b.changes t)) false b.changes :=
    Waveform.lastChange_mem_edges b.increasing hc
  rw [hlevel] at hrise
  exact ⟨hrise, (Waveform.lastChange_spec b.increasing hc).2.1⟩

end ResetButton

end BikeComputer
