import BikeComputer.Common.Ride
import BikeComputer.Core.Since

/-!
# The cached speed against the settings in force

The change tests of the setters skip the recomputation of the speed, but the
cached speed starts at zero and `reset` clears it. Hence the speed belongs to the
settings exactly when some setter has changed them since construction or since
the last reset; until then it stays zero, whatever the caller confirms.
-/

namespace BikeComputer

/-- Some setter has changed the settings in force since the ride began, or since
its last reset. -/
def Ride.ChangedSinceReset (σ : Settings) (cs : Ride) : Prop :=
  Transition.Since
    (fun pre a => ∃ x, a.2 = .set x ∧ x.apply (settings σ pre) ≠ settings σ pre)
    (fun a => a.2 = .reset) cs

/-- The last call decides, or leaves the answer as it was. -/
theorem Ride.changedSinceReset_snoc (σ : Settings) (cs : Ride) (u : ℤ) (c : Call) :
    ChangedSinceReset σ (cs ++ [(u, c)]) ↔
      (∃ x, c = .set x ∧ x.apply (Ride.settings σ cs) ≠ Ride.settings σ cs) ∨
        c ≠ .reset ∧ ChangedSinceReset σ cs :=
  Transition.since_snoc

namespace Speedometer

/-- Along every ride from a cleared speed, the cached speed is that of the
settings once they have changed since the last reset, and zero until then. -/
theorem ride_currentSpeed (s : Speedometer) (hs : s.currentSpeed = 0) (cs : Ride) :
    (Ride.ChangedSinceReset s.settings cs →
      (s.ride cs).currentSpeed = (Ride.settings s.settings cs).speed) ∧
    (¬ Ride.ChangedSinceReset s.settings cs → (s.ride cs).currentSpeed = 0) := by
  induction cs using List.reverseRecOn with
  | nil => exact ⟨fun h => absurd h Transition.not_since_nil, fun _ => hs⟩
  | append_singleton cs a ih =>
    obtain ⟨u, c⟩ := a
    have hσ := s.ride_settings cs
    rw [Ride.changedSinceReset_snoc, ride_snoc, Ride.settings_append]
    cases c with
    | set x =>
      by_cases he : x.apply (Ride.settings s.settings cs) = Ride.settings s.settings cs
      · -- a skipped setter leaves both the speed and the question as they were
        have hskip : (s.ride cs).after u (.set x) = s.ride cs :=
          set_of_apply_eq (hσ ▸ he) u
        simpa [hskip, he, Ride.settings, Call.confirm] using ih
      · have hv := (set_of_apply_ne (s := s.ride cs) (x := x) (hσ.symm ▸ he) u).2.1
        rw [hσ] at hv
        exact ⟨fun _ => hv, fun hn => absurd (Or.inl ⟨x, rfl, he⟩) hn⟩
    | getDistance | getCurrentSpeed =>
      simpa [after, Ride.settings, Call.confirm] using ih
    | reset => exact ⟨by simp, fun _ => rfl⟩

/-- With positive settings, the speed is the one of the settings exactly when they have
changed since construction or since the last reset. -/
theorem ride_currentSpeed_eq_iff {t : ℤ} {cs : Ride}
    (hpos : ((new t).ride cs).settings.Positive) :
    ((new t).ride cs).currentSpeed = ((new t).ride cs).settings.speed ↔
      Ride.ChangedSinceReset .initial cs := by
  obtain ⟨hchanged, hunchanged⟩ := (new t).ride_currentSpeed rfl cs
  rw [ride_settings] at hpos ⊢
  refine ⟨?_, hchanged⟩
  intro hv
  by_contra hn
  have hzero : (Ride.settings (new t).settings cs).speed = 0 := hv.symm.trans (hunchanged hn)
  exact (Settings.speed_pos hpos).ne' hzero

/-- Immediately after a setter the speed is the speed of the settings in force
exactly when some setter, this one included, has changed them since construction
or since the last reset. -/
theorem getCurrentSpeed_eq_iff (t u : ℤ) (cs : Ride) (x : Setter)
    (hcs : Ride.Valid t (cs ++ [(u, .set x)])) :
    ((new t).ride (cs ++ [(u, .set x)])).getCurrentSpeed =
        (Ride.settings .initial (cs ++ [(u, .set x)])).speed ↔
      Ride.ChangedSinceReset .initial (cs ++ [(u, .set x)]) := by
  have hpos := ((new_sound t).ride hcs).positive
  have hσ : ((new t).ride (cs ++ [(u, .set x)])).settings =
      Ride.settings .initial (cs ++ [(u, .set x)]) := (new t).ride_settings _
  rw [← hσ]
  exact ride_currentSpeed_eq_iff hpos

/-- Changing the gear of a fresh speedometer does set the speed of the settings. -/
theorem getCurrentSpeed_eq_iff_gear_change :
    ((new 0).ride ([] ++ [(0, .set (.gearSize 15))])).getCurrentSpeed =
      (Ride.settings .initial ([] ++ [(0, .set (.gearSize 15))])).speed :=
  (getCurrentSpeed_eq_iff 0 0 [] (.gearSize 15)
    (by simp [Ride.Valid, Call.Admissible, Setter.Admissible])).mpr
    ⟨[], _, [], rfl, ⟨_, rfl, by decide⟩, by simp⟩

/-- Confirming the initial gear leaves the speed at zero, and so does confirming
the gear in force after a reset; the speed of the settings is positive. -/
theorem getCurrentSpeed_stale :
    Ride.Valid 0 [(0, .set (.gearSize 19))] ∧
    ((new 0).ride [(0, .set (.gearSize 19))]).getCurrentSpeed = 0 ∧
    Ride.Valid 0 [(0, .set (.gearSize 15)), (0, .reset), (0, .set (.gearSize 15))] ∧
    ((new 0).ride [(0, .set (.gearSize 15)), (0, .reset), (0, .set (.gearSize 15))]).getCurrentSpeed
      = 0 ∧
    (Ride.settings .initial [(0, .set (.gearSize 19))]).speed ≠ 0 ∧
    (Ride.settings .initial
      [(0, .set (.gearSize 15)), (0, .reset), (0, .set (.gearSize 15))]).speed ≠ 0 := by
  refine ⟨?_, rfl, ?_, rfl, ?_, ?_⟩
  · simp [Ride.Valid, Call.Admissible, Setter.Admissible]
  · simp [Ride.Valid, Call.Admissible, Setter.Admissible]
  · exact (Settings.speed_pos (by unfold Settings.Positive; decide)).ne'
  · exact (Settings.speed_pos (by unfold Settings.Positive; decide)).ne'

end Speedometer

end BikeComputer
