import BikeComputer.Common.Speedometer
import BikeComputer.Core.Interleaving

/-!
# Settings made at one instant

The first setter that changes something settles the distance, so at the same timer
reading no later one adds to it, and the speed is always the one of the settings in
force. Two setters of different kinds can therefore change places, and with them whole
lists of calls.
-/

namespace BikeComputer

namespace Speedometer

/-- Settling the distance twice at one instant adds nothing the second time. -/
theorem increment_of_lastTime_eq {s : Speedometer} {now : ℤ} (h : s.lastTime = now) :
    s.increment now = 0 := by
  rw [increment_eq_zero_iff h.le, h]
  right
  omega

/-- After a first change, a second one at the same instant only exchanges the settings
and the speed. -/
theorem set_set_of_apply_ne {s : Speedometer} {x y : Setter}
    (hx : x.apply s.settings ≠ s.settings)
    (hy : y.apply (x.apply s.settings) ≠ x.apply s.settings) (now : ℤ) :
    ((s.set now x).set now y).settings = y.apply (x.apply s.settings) ∧
      ((s.set now x).set now y).currentSpeed = (y.apply (x.apply s.settings)).speed ∧
      ((s.set now x).set now y).totalDistance = s.totalDistance + s.increment now ∧
      ((s.set now x).set now y).lastTime = now := by
  obtain ⟨hσ, -, hdistance, hlast⟩ := set_of_apply_ne hx now
  rw [← hσ] at hy ⊢
  obtain ⟨hσ', hspeed, hdistance', hlast'⟩ := set_of_apply_ne hy now
  refine ⟨hσ', hspeed, ?_, hlast'⟩
  rw [hdistance', hdistance, increment_of_lastTime_eq hlast, add_zero]

/-- A gear size and a rotation time set at one instant can be set in either order. -/
theorem setGearSize_setCurrentRotationTime (now : ℤ) (s : Speedometer) (gearSize : UInt8)
    (rotationTime : ℤ) :
    (s.setGearSize now gearSize).setCurrentRotationTime now rotationTime =
      (s.setCurrentRotationTime now rotationTime).setGearSize now gearSize := by
  let x : Setter := .gearSize gearSize
  let y : Setter := .rotationTime rotationTime
  change (s.set now x).set now y = (s.set now y).set now x
  by_cases hx : x.apply s.settings = s.settings
  · have hx' : x.apply (s.set now y).settings = (s.set now y).settings := by
      rw [set_settings]
      exact congrArg (y.apply ·) hx
    rw [set_of_apply_eq hx, set_of_apply_eq hx']
  by_cases hy : y.apply s.settings = s.settings
  · have hy' : y.apply (s.set now x).settings = (s.set now x).settings := by
      rw [set_settings]
      exact congrArg (x.apply ·) hy
    rw [set_of_apply_eq hy, set_of_apply_eq hy']
  -- both calls change something: whichever comes first settles the distance
  have hyx : y.apply (x.apply s.settings) ≠ x.apply s.settings := fun h =>
    hy (congrArg (fun σ : Settings => Settings.mk s.gearSize σ.rotationTime) h)
  have hxy : x.apply (y.apply s.settings) ≠ y.apply s.settings := fun h =>
    hx (congrArg (fun σ : Settings => Settings.mk σ.gearSize s.pedalRotationTime) h)
  obtain ⟨hσ, hspeed, hdistance, hlast⟩ := set_set_of_apply_ne hx hyx now
  obtain ⟨hσ', hspeed', hdistance', hlast'⟩ := set_set_of_apply_ne hy hxy now
  exact ext_settings (hσ.trans hσ'.symm) (hspeed.trans hspeed'.symm)
    (hdistance.trans hdistance'.symm) (hlast.trans hlast'.symm)

/-- Call the setters of both kinds at the same instant, in the order of the list. -/
def setAll (s : Speedometer) (now : ℤ) (calls : List (UInt8 ⊕ ℤ)) : Speedometer :=
  calls.foldl (fun s => Sum.elim (s.setGearSize now) (s.setCurrentRotationTime now)) s

/-- Setters called at one instant end in the same state in every order that keeps the
order of the gear sizes and the order of the rotation times. -/
theorem setAll_interleavings (s : Speedometer) (now : ℤ) (gearSizes : List UInt8)
    (rotationTimes : List ℤ) (x y : Interleaving gearSizes rotationTimes) :
    s.setAll now x.merged = s.setAll now y.merged :=
  Interleaving.foldl_eq (setGearSize_setCurrentRotationTime now) x y s

end Speedometer

end BikeComputer
