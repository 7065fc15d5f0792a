import BikeComputer.Common.Comparison

/-!
# Resetting against reading

`reset` clears the cached speed along with the distance, and the setters only
restore it when they change something. The reset is therefore a pure reset of the
distance exactly when the speed was already zero, or when nothing the speed shows
in is looked at before a setter has restored it.
-/

namespace BikeComputer

/-- Nothing read along the ride can tell a speed that was cleared at the reading
`last` from one that was kept: until a setter restores the speed it is not read,
and no whole millisecond is ridden that a later distance would show. -/
def Ride.HidesSpeed : Settings → ℤ → Ride → Prop
  | _, _, [] => True
  | σ, last, (u, c) :: cs =>
    match c with
    | .getCurrentSpeed => False
    | .getDistance => u - last < 1000 ∧ HidesSpeed σ u cs
    | .set x =>
      if x.apply σ = σ then HidesSpeed σ last cs
      else u - last < 1000 ∨ ¬ ReadsDistance cs
    | .reset => True

namespace Speedometer

/-- Standing still adds no distance. -/
theorem increment_of_currentSpeed_eq_zero {s : Speedometer} (h : s.currentSpeed = 0) (u : ℤ) :
    s.increment u = 0 := by
  simp [increment, h]

/-- The first run has lost its speed, the second leads by `d` and still has it. -/
structure Stalled (d : ℚ) (s r : Speedometer) : Prop where
  settings : s.settings = r.settings
  stopped : s.currentSpeed = 0
  moving : 0 < r.currentSpeed
  lastTime : s.lastTime = r.lastTime
  totalDistance : r.totalDistance = s.totalDistance + d

/-- What the moving run settles at `u` adds to its lead. -/
theorem Stalled.lead_eq {d : ℚ} {s r : Speedometer} (h : Stalled d s r) (u : ℤ) :
    lead s r u = d + r.increment u := by
  rw [lead, h.totalDistance, increment_of_currentSpeed_eq_zero h.stopped]
  ring

/-- A stalled run agrees with the moving one exactly as long as nobody looks. -/
theorem Stalled.agree_iff {d : ℚ} {s r : Speedometer} (h : Stalled d s r) {now : ℤ}
    (hnow : r.lastTime ≤ now) {cs : Ride} (hcs : cs.Valid now) (hfree : cs.ResetFree) :
    Agree d s r cs ↔ cs.HidesSpeed r.settings r.lastTime := by
  induction cs generalizing s r now with
  | nil => simp [Agree, Ride.HidesSpeed]
  | cons a cs ih =>
    obtain ⟨u, c⟩ := a
    obtain ⟨hu, hc, hrest⟩ := hcs
    have hlast : r.lastTime ≤ u := hnow.trans hu
    have hzero := (increment_eq_zero_iff hlast).trans (or_iff_right h.moving.ne')
    cases c with
    | set x =>
      rw [agree_cons_silent (by simp) (by simp)]
      by_cases he : x.apply r.settings = r.settings
      · have hes : x.apply s.settings = s.settings := h.settings.symm ▸ he
        have hs : s.after u (.set x) = s := set_of_apply_eq hes u
        have hr : r.after u (.set x) = r := set_of_apply_eq he u
        rw [hs, hr, ih h hlast hrest hfree.tail]
        simp only [Ride.HidesSpeed, he, if_true]
      · -- the setter restores the speed; only what was settled meanwhile can show
        have hlead := ahead_of_change h.settings (h.settings.symm ▸ he) u
        rw [hlead.agree_iff (Or.inr hfree.tail), h.lead_eq]
        simp only [Ride.HidesSpeed, he, if_false, ← hzero]
        exact or_congr_left add_eq_left
    | getCurrentSpeed =>
      simp only [Agree, Ride.HidesSpeed, getCurrentSpeed, h.stopped, iff_false]
      rintro ⟨-, hv, -⟩
      exact h.moving.ne (hv trivial)
    | getDistance =>
      have hvalue : (s.getDistance u).2 = (r.getDistance u).2 - d ↔ r.increment u = 0 := by
        rw [getDistance_sub_eq_iff, h.lead_eq]
        exact add_eq_left
      simp only [Agree, Ride.HidesSpeed, hvalue, hzero, forall_const, reduceCtorEq,
        false_implies, true_and]
      apply and_congr_right
      intro hms
      -- nothing was settled, so the runs stay stalled at the new reading
      have hstill : Stalled d (s.after u .getDistance) (r.after u .getDistance) := by
        refine ⟨h.settings, h.stopped, h.moving, rfl, ?_⟩
        simp only [after, getDistance_fst, computeDistance_totalDistance]
        rw [h.totalDistance, hzero.mpr hms, increment_of_currentSpeed_eq_zero h.stopped]
        ring
      exact ih hstill (le_refl u) hrest hfree.tail
    | reset => exact absurd rfl (hfree (u, .reset) (List.mem_cons_self ..))

/-- From every state a ride reaches, resetting at `t` and reading the distance at
`t` lead to runs that agree up to that distance exactly when the speed at `t` is
already zero or the calls that follow cannot tell that it was cleared. -/
theorem reset_agree_iff (start t : ℤ) (ridden cs : Ride)
    (h : Ride.Valid start (ridden ++ (t, .getDistance) :: cs)) (hfree : cs.ResetFree) :
    Agree (((new start).ride ridden).getDistance t).2 (((new start).ride ridden).reset t)
        (((new start).ride ridden).getDistance t).1 cs ↔
      ((new start).ride ridden).currentSpeed = 0 ∨
        cs.HidesSpeed ((new start).ride ridden).settings t := by
  obtain ⟨hridden, hsuffix⟩ := Ride.valid_append.mp h
  obtain ⟨ht, -, hcs⟩ := hsuffix
  have hsound := (new_sound start).ride hridden
  set s := (new start).ride ridden
  have htotal : (s.getDistance t).1.totalDistance =
      (s.reset t).totalDistance + (s.getDistance t).2 := (zero_add _).symm
  by_cases hv : s.currentSpeed = 0
  · have hlead : Ahead (s.getDistance t).2 (s.reset t) (s.getDistance t).1 :=
      ⟨rfl, hv.symm, rfl, htotal⟩
    exact iff_of_true ((hlead.agree_iff (Or.inr hfree)).mpr (Or.inl rfl)) (Or.inl hv)
  · have hpos : 0 < s.currentSpeed := lt_of_le_of_ne hsound.currentSpeed_nonneg (Ne.symm hv)
    have hstalled : Stalled (s.getDistance t).2 (s.reset t) (s.getDistance t).1 :=
      ⟨rfl, rfl, hpos, rfl, htotal⟩
    rw [hstalled.agree_iff (le_refl t) hcs hfree]
    simp [hv]

/-- Resetting a speedometer nobody has set yet only resets the distance. -/
theorem reset_agree_fresh :
    Agree (((new 0).ride []).getDistance 5000).2 (((new 0).ride []).reset 5000)
      (((new 0).ride []).getDistance 5000).1 [(9000, .getCurrentSpeed)] :=
  (reset_agree_iff 0 5000 [] [(9000, .getCurrentSpeed)]
    (by simp [Ride.Valid, Call.Admissible]) (by simp [Ride.ResetFree])).mpr (Or.inl rfl)

/-- After a ride in one gear, a reset at one second, and one more second of
riding, the distance still reads zero and so does the speed. Reading instead of
resetting gives twice the distance of the first second, at a positive speed. -/
theorem reset_stops_the_ride :
    Ride.Valid 0 ([(0, .set (.gearSize 15))] ++ (1000000, .getDistance) ::
      [(2000000, .getDistance), (2000000, .getCurrentSpeed)]) ∧
    ¬ Agree (((new 0).ride [(0, .set (.gearSize 15))]).getDistance 1000000).2
      (((new 0).ride [(0, .set (.gearSize 15))]).reset 1000000)
      (((new 0).ride [(0, .set (.gearSize 15))]).getDistance 1000000).1
      [(2000000, .getDistance), (2000000, .getCurrentSpeed)] := by
  have hvalid : Ride.Valid 0 ([(0, .set (.gearSize 15))] ++ (1000000, .getDistance) ::
      [(2000000, .getDistance), (2000000, .getCurrentSpeed)]) := by
    simp [Ride.Valid, Call.Admissible, Setter.Admissible]
  refine ⟨hvalid, ?_⟩
  intro hagree
  have hspeed := hagree.2.2.2.1 rfl
  have hpos : (0 : ℚ) < (Settings.mk 15 750).speed :=
    Settings.speed_pos (by unfold Settings.Positive; decide)
  exact hpos.ne hspeed

end Speedometer

end BikeComputer
