import BikeComputer.Common.Comparison

/-!
# One more reading of the distance

Every reading counts whole milliseconds since the last one but remembers the full
microsecond instant, so the remainder is dropped. An extra reading is invisible
exactly when the two remainders it creates do not make up a millisecond, or when
the loss is never looked at before a reset.
-/

namespace BikeComputer

/-- A reading at `u`, between the last settled instant and the ride, is never
noticed: the next settlement finds no millisecond missing, or the distance is not
read before the next reset. -/
def Ride.HidesReading : Settings → ℤ → ℤ → Ride → Prop
  | _, _, _, [] => True
  | σ, last, u, (w, c) :: cs =>
    match c with
    | .getCurrentSpeed => HidesReading σ last u cs
    | .getDistance => (u - last) % 1000 + (w - u) % 1000 < 1000
    | .set x =>
      if x.apply σ = σ then HidesReading σ last u cs
      else (u - last) % 1000 + (w - u) % 1000 < 1000 ∨ ¬ ReadsDistance cs
    | .reset => True

namespace Speedometer

/-- The second run has read the distance once more, at `u`. -/
structure Polled (u : ℤ) (s r : Speedometer) : Prop where
  settings : s.settings = r.settings
  currentSpeed : s.currentSpeed = r.currentSpeed
  lastTime_le : s.lastTime ≤ u
  lastTime : r.lastTime = u
  totalDistance : r.totalDistance = s.totalDistance + s.increment u

/-- Nothing is lost when the bike stands still or the remainders stay below a
millisecond. -/
theorem Polled.lead_eq_zero_iff {u : ℤ} {s r : Speedometer} (h : Polled u s r) {w : ℤ}
    (hw : u ≤ w) :
    lead s r w = 0 ↔
      s.currentSpeed = 0 ∨ (u - s.lastTime) % 1000 + (w - u) % 1000 < 1000 := by
  have ha : 0 ≤ u - s.lastTime := by
    have := h.lastTime_le
    omega
  have hb : 0 ≤ w - u := by omega
  have hsum : w - s.lastTime = (u - s.lastTime) + (w - u) := by ring
  rw [← Truncation.tdiv_add_iff ha hb (by decide), lead, h.totalDistance]
  unfold increment toMilliseconds
  rw [← h.currentSpeed, h.lastTime, hsum]
  constructor
  · intro hz
    have hprod : s.currentSpeed * ((((u - s.lastTime) + (w - u)).tdiv 1000 : ℤ) -
        (((u - s.lastTime).tdiv 1000 : ℤ) + ((w - u).tdiv 1000 : ℤ)) : ℚ) = 0 := by linarith
    rcases mul_eq_zero.mp hprod with hv | hms
    · exact Or.inl hv
    · exact Or.inr (by exact_mod_cast sub_eq_zero.mp hms)
  · rintro (hv | hms)
    · simp [hv]
    · rw [hms]
      push_cast
      ring

/-- The run that was read once more returns the same values exactly when it
stands still or the ride hides the reading. -/
theorem Polled.agree_iff {u : ℤ} {s r : Speedometer} (h : Polled u s r) {now : ℤ}
    (hnow : u ≤ now) {cs : Ride} (hcs : cs.Valid now) :
    Agree 0 s r cs ↔ s.currentSpeed = 0 ∨ cs.HidesReading s.settings s.lastTime u := by
  induction cs generalizing now with
  | nil => simp [Agree, Ride.HidesReading]
  | cons a cs ih =>
    obtain ⟨w, c⟩ := a
    obtain ⟨hw, hc, hrest⟩ := hcs
    have huw : u ≤ w := hnow.trans hw
    have hlead := h.lead_eq_zero_iff huw
    cases c with
    | set x =>
      rw [agree_cons_silent (by simp) (by simp)]
      by_cases he : x.apply s.settings = s.settings
      · have her : x.apply r.settings = r.settings := h.settings ▸ he
        have hs : s.after w (.set x) = s := set_of_apply_eq he w
        have hr : r.after w (.set x) = r := set_of_apply_eq her w
        rw [hs, hr, ih huw hrest]
        simp only [Ride.HidesReading, he, if_true]
      · rw [(ahead_of_change h.settings he w).agree_iff (Or.inl rfl), hlead]
        simp only [Ride.HidesReading, he, if_false, or_assoc]
    | getCurrentSpeed =>
      have hstep := ih huw hrest
      simpa [Agree, Ride.HidesReading, getCurrentSpeed, h.currentSpeed, after] using hstep
    | getDistance =>
      have hahead := ahead_of_getDistance h.settings h.currentSpeed w
      have hsettled : Agree 0 (s.after w .getDistance) (r.after w .getDistance) cs ↔ _ :=
        hahead.agree_iff (Or.inl rfl)
      simp only [Agree, Ride.HidesReading, getDistance_sub_eq_iff, forall_const, reduceCtorEq,
        false_implies, true_and, hsettled, ← hlead]
      exact ⟨fun hh => hh.1, fun he => ⟨he, Or.inl he⟩⟩
    | reset =>
      rw [agree_cons_silent (by simp) (by simp)]
      have heq : s.after w .reset = r.after w .reset :=
        ext_settings h.settings rfl rfl rfl
      rw [heq]
      exact iff_of_true (agree_refl _ cs) (Or.inr trivial)

/-- At any point of any ride, one more reading of the distance at `u` changes no
later value exactly when the speed is zero or the ride hides the reading. -/
theorem getDistance_agree_iff (start u : ℤ) (ridden cs : Ride)
    (h : Ride.Valid start (ridden ++ (u, .getDistance) :: cs)) :
    Agree 0 ((new start).ride ridden) (((new start).ride ridden).getDistance u).1 cs ↔
      ((new start).ride ridden).currentSpeed = 0 ∨
        cs.HidesReading ((new start).ride ridden).settings
          ((new start).ride ridden).lastTime u := by
  obtain ⟨hridden, hsuffix⟩ := Ride.valid_append.mp h
  obtain ⟨hu, -, hcs⟩ := hsuffix
  have hsound := (new_sound start).ride hridden
  have hpolled : Polled u ((new start).ride ridden)
      (((new start).ride ridden).getDistance u).1 :=
    ⟨rfl, rfl, hsound.lastTime_le.trans hu, rfl, rfl⟩
  exact hpolled.agree_iff (le_refl u) hcs

/-- Readings at whole milliseconds are invisible. -/
theorem getDistance_agree_milliseconds :
    Agree 0 ((new 0).ride [(0, .set (.gearSize 15))])
      (((new 0).ride [(0, .set (.gearSize 15))]).getDistance 1000).1 [(2500, .getDistance)] :=
  (getDistance_agree_iff 0 1000 [(0, .set (.gearSize 15))] [(2500, .getDistance)]
    (by simp [Ride.Valid, Call.Admissible, Setter.Admissible])).mpr
    (Or.inr (by simp [Ride.HidesReading, set, setGearSize, computeDistance, computeSpeed, new,
      after]))

/-- Read every 999 microseconds, the distance of a moving bike stays at zero; read
once at the end, the same ride is one millisecond long. -/
theorem getDistance_loses_remainders :
    Ride.Valid 0 ([(0, .set (.gearSize 15))] ++ (999, .getDistance) ::
      [(1998, .getDistance)]) ∧
    ¬ Agree 0 ((new 0).ride [(0, .set (.gearSize 15))])
      (((new 0).ride [(0, .set (.gearSize 15))]).getDistance 999).1 [(1998, .getDistance)] := by
  have hvalid : Ride.Valid 0 ([(0, .set (.gearSize 15))] ++ (999, .getDistance) ::
      [(1998, .getDistance)]) := by
    simp [Ride.Valid, Call.Admissible, Setter.Admissible]
  refine ⟨hvalid, ?_⟩
  intro hagree
  have hvalues := hagree.1 rfl
  simp [increment, toMilliseconds, set, setGearSize, computeDistance, computeSpeed, new, after,
    kWheelCircumference, kTraySize, kInitialPedalRotationTime] at hvalues

end Speedometer

end BikeComputer
