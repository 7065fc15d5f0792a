import BikeComputer.Common.Speedometer
import Mathlib.Data.List.Induction

/-!
# Rides

A ride is a list of public calls of the speedometer, each with the timer reading
it sees. Readings never go back and the setters receive positive arguments.
Every ride keeps the settings positive, the stored reading behind the timer, and
the cached speed at either zero or the speed of the settings.
-/

namespace BikeComputer

/-- The public calls of the speedometer. -/
inductive Call where
  | set (x : Setter)
  | getDistance
  | getCurrentSpeed
  | reset
  deriving DecidableEq, Repr

/-- Calls in order, each with the reading of the timer during the call. -/
abbrev Ride := List (ℤ × Call)

namespace Call

/-- A setter is called with a positive divisor. -/
def Admissible : Call → Prop
  | .set x => x.Admissible
  | _ => True

/-- The settings the caller has confirmed after the call. -/
def confirm : Call → Settings → Settings
  | .set x, σ => x.apply σ
  | _, σ => σ

/-- An admissible call keeps the divisors positive. -/
theorem confirm_positive {c : Call} {σ : Settings} (hc : c.Admissible) (h : σ.Positive) :
    (c.confirm σ).Positive := by
  cases c with
  | set x => exact x.apply_positive hc h
  | getDistance | getCurrentSpeed | reset => exact h

end Call

namespace Ride

/-- Readings do not go back, from `t` on, and arguments are admissible. -/
def Valid : ℤ → Ride → Prop
  | _, [] => True
  | t, (u, c) :: cs => t ≤ u ∧ c.Admissible ∧ Valid u cs

/-- The reading of the last call, or `t` before any call. -/
def clock : ℤ → Ride → ℤ
  | t, [] => t
  | _, (u, _) :: cs => clock u cs

/-- The settings last confirmed by the caller. -/
def settings : Settings → Ride → Settings
  | σ, [] => σ
  | σ, (_, c) :: cs => settings (c.confirm σ) cs

/-- No call of the ride is a reset. -/
def ResetFree (cs : Ride) : Prop := ∀ a ∈ cs, a.2 ≠ Call.reset

/-- The rest of a ride without resets has none. -/
theorem ResetFree.tail {a : ℤ × Call} {cs : Ride} (h : ResetFree (a :: cs)) : ResetFree cs :=
  fun b hb => h b (List.mem_cons_of_mem a hb)

/-- A ride is valid if and only if both its parts are. -/
theorem valid_append {t : ℤ} {as bs : Ride} :
    Valid t (as ++ bs) ↔ Valid t as ∧ Valid (clock t as) bs := by
  induction as generalizing t with
  | nil => simp [Valid, clock]
  | cons a as ih => simp only [List.cons_append, Valid, clock, ih, and_assoc]

/-- The settings are confirmed one part after the other. -/
theorem settings_append (σ : Settings) (as bs : Ride) :
    settings σ (as ++ bs) = settings (settings σ as) bs := by
  induction as generalizing σ with
  | nil => rfl
  | cons a as ih => exact ih _

/-- The clock of a ride goes on with its second part. -/
theorem clock_append (t : ℤ) (as bs : Ride) :
    clock t (as ++ bs) = clock (clock t as) bs := by
  induction as generalizing t with
  | nil => rfl
  | cons a as ih => exact ih _

end Ride

namespace Speedometer

/-- The state after a call. -/
def after (s : Speedometer) (now : ℤ) : Call → Speedometer
  | .set x => s.set now x
  | .getDistance => (s.getDistance now).1
  | .getCurrentSpeed => s
  | .reset => s.reset now

/-- The value a call returns, if it returns one. -/
def value (s : Speedometer) (now : ℤ) : Call → Option ℚ
  | .getDistance => some (s.getDistance now).2
  | .getCurrentSpeed => some s.getCurrentSpeed
  | .set _ | .reset => none

/-- The state after all calls of a ride. -/
def ride (s : Speedometer) : Ride → Speedometer
  | [] => s
  | (u, c) :: cs => (s.after u c).ride cs

/-- The empty ride. -/
@[simp] theorem ride_nil (s : Speedometer) : s.ride [] = s := rfl

/-- A ride begins with its first call. -/
@[simp] theorem ride_cons (s : Speedometer) (u : ℤ) (c : Call) (cs : Ride) :
    s.ride ((u, c) :: cs) = (s.after u c).ride cs := rfl

/-- Rides compose. -/
theorem ride_append (s : Speedometer) (as bs : Ride) :
    s.ride (as ++ bs) = (s.ride as).ride bs := by
  induction as generalizing s with
  | nil => rfl
  | cons a as ih => exact ih _

/-- A ride ends with its last call. -/
theorem ride_snoc (s : Speedometer) (as : Ride) (u : ℤ) (c : Call) :
    s.ride (as ++ [(u, c)]) = (s.ride as).after u c := by
  rw [ride_append, ride_cons, ride_nil]

/-- A call leaves the settings it confirms. -/
@[simp] theorem after_settings (s : Speedometer) (now : ℤ) (c : Call) :
    (s.after now c).settings = c.confirm s.settings := by
  cases c with
  | set x => exact s.set_settings now x
  | getDistance | getCurrentSpeed | reset => rfl

/-- The settings in force are the ones last confirmed, along every ride. -/
theorem ride_settings (s : Speedometer) (cs : Ride) :
    (s.ride cs).settings = Ride.settings s.settings cs := by
  induction cs generalizing s with
  | nil => rfl
  | cons a cs ih =>
    rw [ride_cons, ih, after_settings]
    rfl

/-- What every ride keeps: positive settings, a cached speed that is either
cleared or right, and a stored reading that is not ahead of the timer. -/
structure Sound (s : Speedometer) (now : ℤ) : Prop where
  positive : s.settings.Positive
  cached : s.currentSpeed = 0 ∨ s.currentSpeed = s.settings.speed
  lastTime_le : s.lastTime ≤ now

/-- A sound speedometer does not go backwards. -/
theorem Sound.currentSpeed_nonneg {s : Speedometer} {now : ℤ} (h : s.Sound now) :
    0 ≤ s.currentSpeed := by
  rcases h.cached with hv | hv
  · exact hv.ge
  · exact hv ▸ (Settings.speed_pos h.positive).le

/-- The settled distance never shrinks. -/
theorem Sound.increment_nonneg {s : Speedometer} {now u : ℤ} (h : s.Sound now)
    (hu : now ≤ u) : 0 ≤ s.increment u := by
  have hd : 0 ≤ u - s.lastTime := by
    have := h.lastTime_le
    omega
  have hms : (0 : ℚ) ≤ (toMilliseconds (u - s.lastTime) : ℚ) := by
    exact_mod_cast Truncation.tdiv_nonneg hd (by decide)
  have hv := h.currentSpeed_nonneg
  unfold increment
  positivity

/-- A fresh speedometer is sound. -/
theorem new_sound (t : ℤ) : (new t).Sound t :=
  ⟨Settings.initial_positive, Or.inl rfl, le_refl t⟩

/-- One admissible call, made no earlier than the last, keeps the invariant. -/
theorem Sound.after {s : Speedometer} {now u : ℤ} {c : Call} (h : s.Sound now)
    (hu : now ≤ u) (hc : c.Admissible) : (s.after u c).Sound u := by
  have hlast : s.lastTime ≤ u := h.lastTime_le.trans hu
  refine ⟨?_, ?_, ?_⟩
  · rw [after_settings]
    exact Call.confirm_positive hc h.positive
  · cases c with
    | set x =>
      by_cases he : x.apply s.settings = s.settings
      · simpa only [Speedometer.after, set_of_apply_eq he] using h.cached
      · obtain ⟨hσ, hv, _, _⟩ := set_of_apply_ne he u
        exact Or.inr (hv.trans (congrArg Settings.speed hσ.symm))
    | getDistance | getCurrentSpeed => exact h.cached
    | reset => exact Or.inl rfl
  · cases c with
    | set x =>
      by_cases he : x.apply s.settings = s.settings
      · simpa only [Speedometer.after, set_of_apply_eq he] using hlast
      · exact (set_of_apply_ne he u).2.2.2.le
    | getDistance | reset => exact le_refl u
    | getCurrentSpeed => exact hlast

/-- Every valid ride keeps the invariant. -/
theorem Sound.ride {s : Speedometer} {now : ℤ} {cs : Ride} (h : s.Sound now)
    (hcs : cs.Valid now) : (s.ride cs).Sound (cs.clock now) := by
  induction cs generalizing s now with
  | nil => exact h
  | cons a cs ih =>
    obtain ⟨hu, hc, hrest⟩ := hcs
    exact ih (h.after hu hc) hrest

end Speedometer

end BikeComputer
