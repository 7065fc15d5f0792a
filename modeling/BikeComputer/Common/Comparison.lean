import BikeComputer.Common.Ride
import Mathlib.Tactic.Ring

/-!
# Comparing two speedometers on the same calls

Two speedometers that differ in nothing but the total distance keep doing so
until a reset, so the values they return differ by a constant. This isolates the
question the two-run laws really ask: when do the two runs reach that point?
-/

namespace BikeComputer

/-- Some call reads the distance before the next reset. -/
def Ride.ReadsDistance : Ride → Prop
  | [] => False
  | (_, c) :: cs =>
    match c with
    | .getDistance => True
    | .reset => False
    | .set _ | .getCurrentSpeed => ReadsDistance cs

namespace Speedometer

/-- On the same calls, both runs return the same speeds, and every distance the
first run returns is exactly `d` less than in the second. -/
def Agree (d : ℚ) (s r : Speedometer) : Ride → Prop
  | [] => True
  | (u, c) :: cs =>
    (c = .getDistance → (s.getDistance u).2 = (r.getDistance u).2 - d) ∧
      (c = .getCurrentSpeed → s.getCurrentSpeed = r.getCurrentSpeed) ∧
      Agree d (s.after u c) (r.after u c) cs

/-- A run returns what it returns. -/
theorem agree_refl (s : Speedometer) (cs : Ride) : Agree 0 s s cs := by
  induction cs generalizing s with
  | nil => trivial
  | cons a cs ih => exact ⟨fun _ => (sub_zero _).symm, fun _ => rfl, ih _⟩

/-- Calls that read nothing agree as soon as the states after them do. -/
theorem agree_cons_silent {d : ℚ} {s r : Speedometer} {u : ℤ} {c : Call} {cs : Ride}
    (hd : c ≠ .getDistance) (hv : c ≠ .getCurrentSpeed) :
    Agree d s r ((u, c) :: cs) ↔ Agree d (s.after u c) (r.after u c) cs := by
  simp [Agree, hd, hv]

/-- The second speedometer is `e` ahead in total distance, and equal otherwise. -/
structure Ahead (e : ℚ) (s r : Speedometer) : Prop where
  settings : s.settings = r.settings
  currentSpeed : s.currentSpeed = r.currentSpeed
  lastTime : s.lastTime = r.lastTime
  totalDistance : r.totalDistance = s.totalDistance + e

/-- Both speedometers add the same distance. -/
theorem Ahead.increment {e : ℚ} {s r : Speedometer} (h : Ahead e s r) (u : ℤ) :
    s.increment u = r.increment u := by
  rw [Speedometer.increment, Speedometer.increment, h.currentSpeed, h.lastTime]

/-- What the second run leads by once both have settled their distance at `u`. -/
def lead (s r : Speedometer) (u : ℤ) : ℚ :=
  r.totalDistance + r.increment u - (s.totalDistance + s.increment u)

/-- A setter that changes the settings leaves a lead and no other difference. -/
theorem ahead_of_change {s r : Speedometer} (h : s.settings = r.settings) {x : Setter}
    (hx : x.apply s.settings ≠ s.settings) (u : ℤ) :
    Ahead (lead s r u) (s.after u (.set x)) (r.after u (.set x)) := by
  have hxr : x.apply r.settings ≠ r.settings := h ▸ hx
  obtain ⟨hσ, hv, hd, hl⟩ := set_of_apply_ne hx u
  obtain ⟨hσ', hv', hd', hl'⟩ := set_of_apply_ne hxr u
  refine ⟨?_, ?_, ?_, ?_⟩
  · exact hσ.trans ((congrArg x.apply h).trans hσ'.symm)
  · exact hv.trans ((congrArg (fun σ => (x.apply σ).speed) h).trans hv'.symm)
  · exact hl.trans hl'.symm
  · simp only [after]
    rw [hd, hd', lead]
    ring

/-- Reading the distance at equal speeds leaves a lead and no other difference. -/
theorem ahead_of_getDistance {s r : Speedometer} (h : s.settings = r.settings)
    (hv : s.currentSpeed = r.currentSpeed) (u : ℤ) :
    Ahead (lead s r u) (s.after u .getDistance) (r.after u .getDistance) := by
  refine ⟨h, hv, rfl, ?_⟩
  simp only [after, getDistance_fst, computeDistance_totalDistance, lead]
  ring

/-- The lead is the same at every reading. -/
theorem Ahead.lead_eq {e : ℚ} {s r : Speedometer} (h : Ahead e s r) (u : ℤ) :
    lead s r u = e := by
  rw [lead, h.totalDistance, h.increment u]
  ring

/-- The lead in distance survives every call but a reset. -/
theorem Ahead.after {e : ℚ} {s r : Speedometer} (h : Ahead e s r) (u : ℤ) {c : Call}
    (hc : c ≠ .reset) : Ahead e (s.after u c) (r.after u c) := by
  cases c with
  | set x =>
    by_cases he : x.apply s.settings = s.settings
    · have her : x.apply r.settings = r.settings := h.settings ▸ he
      simpa only [Speedometer.after, set_of_apply_eq he, set_of_apply_eq her] using h
    · simpa only [h.lead_eq u] using ahead_of_change h.settings he u
  | getDistance =>
    simpa only [h.lead_eq u] using ahead_of_getDistance h.settings h.currentSpeed u
  | getCurrentSpeed => exact h
  | reset => exact absurd rfl hc

/-- A reset cancels every lead. -/
theorem Ahead.reset {e : ℚ} {s r : Speedometer} (h : Ahead e s r) (u : ℤ) :
    s.reset u = r.reset u :=
  ext_settings h.settings rfl rfl rfl

/-- Two distances read at `u` differ by `d` exactly when `d` is the lead there. -/
theorem getDistance_sub_eq_iff (s r : Speedometer) (u : ℤ) (d : ℚ) :
    (s.getDistance u).2 = (r.getDistance u).2 - d ↔ lead s r u = d := by
  rw [getDistance_snd, getDistance_snd, lead]
  constructor <;> intro h <;> linarith

/-- A constant lead is the agreed difference, or nobody reads the distance
before it is reset. Beyond a reset only the difference zero can be agreed on. -/
theorem Ahead.agree_iff {d e : ℚ} {s r : Speedometer} (h : Ahead e s r) {cs : Ride}
    (hcs : d = 0 ∨ cs.ResetFree) : Agree d s r cs ↔ e = d ∨ ¬ cs.ReadsDistance := by
  induction cs generalizing s r with
  | nil => simp [Agree, Ride.ReadsDistance]
  | cons a cs ih =>
    obtain ⟨u, c⟩ := a
    have htail : d = 0 ∨ Ride.ResetFree cs := hcs.imp_right Ride.ResetFree.tail
    cases c with
    | set x =>
      rw [agree_cons_silent (by simp) (by simp)]
      exact ih (h.after u (by simp)) htail
    | getCurrentSpeed =>
      have hrest := ih (h.after u (c := .getCurrentSpeed) (by simp)) htail
      simpa [Agree, getCurrentSpeed, h.currentSpeed, Ride.ReadsDistance] using hrest
    | getDistance =>
      have hrest := ih (h.after u (c := .getDistance) (by simp)) htail
      have hvalue : (s.getDistance u).2 = (r.getDistance u).2 - d ↔ e = d := by
        rw [getDistance_sub_eq_iff, h.lead_eq]
      simp only [Agree, Ride.ReadsDistance, forall_const, hvalue, hrest, not_true_eq_false,
        or_false, reduceCtorEq, false_implies, true_and]
      exact ⟨fun hh => hh.1, fun he => ⟨he, Or.inl he⟩⟩
    | reset =>
      rcases hcs with rfl | hfree
      · rw [agree_cons_silent (by simp) (by simp)]
        simp only [Speedometer.after, h.reset u, Ride.ReadsDistance, not_false_eq_true, or_true,
          iff_true]
        exact agree_refl _ cs
      · exact absurd rfl (hfree (u, .reset) (List.mem_cons_self ..))

end Speedometer

end BikeComputer
