import BikeComputer.Common.Ride
import BikeComputer.Core.Counter
import Mathlib.Tactic.GCongr
import Mathlib.Tactic.NormNum
import Mathlib.Tactic.Ring

/-!
# Ranges of gears, rotation times and speeds

Neither the setters nor the speed formula check their arguments. What keeps the
divisors positive and the speed bounded is the range of the values the devices
deliver; every call of the speedometer with such values keeps its fields in range.
-/

namespace BikeComputer

/-- The gears from the smallest to the largest one. -/
def GearInRange (gear : UInt8) : Prop := kMinGear ≤ gear ∧ gear ≤ kMaxGear

/-- The sizes that belong to these gears. -/
def GearSizeInRange (size : UInt8) : Prop := kMinGearSize ≤ size ∧ size ≤ kMaxGearSize - 1

/-- A whole number of steps above the minimum, up to the maximum. -/
def RotationTimeInRange (time : ℤ) : Prop :=
  (∃ k : ℕ, time = kMinPedalRotationTime + k * kDeltaPedalRotationTime) ∧
    time ≤ kMaxPedalRotationTime

/-- The bounds of the gear in numbers. -/
theorem gearInRange_iff {gear : UInt8} :
    GearInRange gear ↔ 1 ≤ gear.toNat ∧ gear.toNat ≤ 9 := by
  simp only [GearInRange, kMinGear, kMaxGear, UInt8.le_iff_toNat_le, UInt8.reduceToNat]

/-- The bounds of the gear size in numbers. -/
theorem gearSizeInRange_iff {size : UInt8} :
    GearSizeInRange size ↔ 11 ≤ size.toNat ∧ size.toNat ≤ 19 := by
  have hmin : kMinGearSize.toNat = 11 := by decide
  have hmax : (kMaxGearSize - 1).toNat = 19 := by decide
  rw [GearSizeInRange, UInt8.le_iff_toNat_le, UInt8.le_iff_toNat_le, hmin, hmax]

/-- The first gear is in range. -/
theorem kMinGear_inRange : GearInRange kMinGear := gearInRange_iff.mpr (by decide)

/-- The smallest size is in range. -/
theorem kMinGearSize_inRange : GearSizeInRange kMinGearSize :=
  gearSizeInRange_iff.mpr (by decide)

/-- Below the maximum the next gear is the successor. -/
theorem GearInRange.succ {gear : UInt8} (h : GearInRange gear) (hlt : gear < kMaxGear) :
    GearInRange (gear + 1) := by
  rw [gearInRange_iff] at h ⊢
  have hlt' := UInt8.lt_iff_toNat_lt.mp hlt
  simp only [kMaxGear, UInt8.reduceToNat] at hlt'
  rw [Counter.UInt8.succ_toNat hlt]
  omega

/-- Above the minimum the next gear down is the predecessor. -/
theorem GearInRange.pred {gear : UInt8} (h : GearInRange gear) (hlt : kMinGear < gear) :
    GearInRange (gear - 1) := by
  rw [gearInRange_iff] at h ⊢
  have hlt' := UInt8.lt_iff_toNat_lt.mp hlt
  simp only [kMinGear, UInt8.reduceToNat] at hlt'
  have hpred := Counter.UInt8.pred_toNat hlt
  omega

/-- The rotation times are those of the 46 steps. -/
theorem rotationTimeInRange_iff {time : ℤ} :
    RotationTimeInRange time ↔ ∃ k : ℕ, k ≤ 45 ∧ time = 375 + k * 25 := by
  simp only [RotationTimeInRange, kMinPedalRotationTime, kDeltaPedalRotationTime,
    kMaxPedalRotationTime]
  constructor
  · rintro ⟨⟨k, rfl⟩, hle⟩
    exact ⟨k, by omega, rfl⟩
  · rintro ⟨k, hle, rfl⟩
    exact ⟨⟨k, rfl⟩, by omega⟩

/-- The maximum is a whole number of steps away, so a step below it stays in range. -/
theorem RotationTimeInRange.slower {time : ℤ} (h : RotationTimeInRange time)
    (hlt : time < kMaxPedalRotationTime) :
    RotationTimeInRange (time + kDeltaPedalRotationTime) := by
  rw [rotationTimeInRange_iff] at h ⊢
  obtain ⟨k, -, rfl⟩ := h
  rw [kMaxPedalRotationTime] at hlt
  rw [kDeltaPedalRotationTime]
  exact ⟨k + 1, by omega, by push_cast; ring⟩

/-- Above the fastest rotation there is room for a faster one. -/
theorem RotationTimeInRange.faster {time : ℤ} (h : RotationTimeInRange time)
    (hlt : kMinPedalRotationTime < time) :
    RotationTimeInRange (time - kDeltaPedalRotationTime) := by
  rw [rotationTimeInRange_iff] at h ⊢
  obtain ⟨k, hle, rfl⟩ := h
  rw [kMinPedalRotationTime] at hlt
  rw [kDeltaPedalRotationTime]
  exact ⟨k - 1, by omega, by omega⟩

/-- In range, the subtraction that turns a gear into its size is exact. -/
theorem GearInRange.toNat_gearSize {gear : UInt8} (h : GearInRange gear) :
    (kMaxGearSize - gear).toNat + gear.toNat = kMaxGearSize.toNat := by
  obtain ⟨-, hle⟩ := gearInRange_iff.mp h
  rw [UInt8.toNat_sub]
  simp only [kMaxGearSize, UInt8.reduceToNat]
  omega

/-- The size that belongs to a gear in range is in range. -/
theorem GearInRange.gearSize {gear : UInt8} (h : GearInRange gear) :
    GearSizeInRange (kMaxGearSize - gear) := by
  obtain ⟨hge, hle⟩ := gearInRange_iff.mp h
  have hexact := h.toNat_gearSize
  simp only [kMaxGearSize, UInt8.reduceToNat] at hexact
  rw [gearSizeInRange_iff, kMaxGearSize]
  omega

/-- The arguments the devices deliver. -/
def Setter.InRange : Setter → Prop
  | .gearSize size => GearSizeInRange size
  | .rotationTime time => RotationTimeInRange time

/-- Settings with a size and a rotation time in range. -/
def Settings.InRange (σ : Settings) : Prop :=
  GearSizeInRange σ.gearSize ∧ RotationTimeInRange σ.rotationTime

/-- A fresh speedometer has settings in range. -/
theorem Settings.initial_inRange : Settings.initial.InRange :=
  ⟨gearSizeInRange_iff.mpr (by decide), ⟨15, by decide⟩, by decide⟩

/-- A value in range keeps the settings in range. -/
theorem Setter.apply_inRange {x : Setter} {σ : Settings} (hx : x.InRange) (h : σ.InRange) :
    (x.apply σ).InRange := by
  cases x with
  | gearSize size => exact ⟨hx, h.2⟩
  | rotationTime time => exact ⟨h.1, hx⟩

/-- The speed in the highest gear at the fastest rotation. -/
def maxSpeed : ℚ := 21 / 10 * 50 / 11 * 3600 / 375

/-- In range, both divisors are positive and the speed is bounded. -/
theorem Settings.InRange.speed_le {σ : Settings} (h : σ.InRange) : σ.speed ≤ maxSpeed := by
  obtain ⟨hsize, ⟨k, hk⟩, -⟩ := h
  have hg : (11 : ℚ) ≤ (σ.gearSize.toNat : ℚ) := by
    exact_mod_cast (gearSizeInRange_iff.mp hsize).1
  have hr : (375 : ℚ) ≤ (σ.rotationTime : ℚ) := by
    have hle : (375 : ℤ) ≤ σ.rotationTime := by
      rw [hk, kMinPedalRotationTime, kDeltaPedalRotationTime]
      omega
    exact_mod_cast hle
  have htray : (Speedometer.kTraySize.toNat : ℚ) = 50 := rfl
  unfold Settings.speed Speedometer.kWheelCircumference
  rw [htray]
  calc (21 / 10 : ℚ) * (50 / σ.gearSize.toNat) * 3600 / σ.rotationTime
      ≤ 21 / 10 * (50 / 11) * 3600 / 375 := by gcongr
    _ = maxSpeed := by norm_num [maxSpeed]

/-- No divisor in range is zero. -/
theorem Settings.InRange.positive {σ : Settings} (h : σ.InRange) : σ.Positive := by
  obtain ⟨hsize, ⟨k, hk⟩, -⟩ := h
  have hg := gearSizeInRange_iff.mp hsize
  refine ⟨UInt8.lt_iff_toNat_lt.mpr ?_, ?_⟩
  · simp only [UInt8.reduceToNat]
    omega
  · rw [hk, kMinPedalRotationTime, kDeltaPedalRotationTime]
    omega

/-- Neither divisor of the speed formula is zero. -/
theorem Settings.InRange.divisors_ne_zero {σ : Settings} (h : σ.InRange) :
    σ.gearSize.toNat ≠ 0 ∧ σ.rotationTime ≠ 0 := by
  obtain ⟨hg, hr⟩ := h.positive
  have hpos := UInt8.lt_iff_toNat_lt.mp hg
  exact ⟨Nat.ne_of_gt hpos, ne_of_gt hr⟩

namespace Speedometer

/-- The settings are in range and the speed is bounded. -/
structure InRange (s : Speedometer) : Prop where
  settings : s.settings.InRange
  currentSpeed_nonneg : 0 ≤ s.currentSpeed
  currentSpeed_le : s.currentSpeed ≤ maxSpeed

/-- The largest speed is not negative. -/
theorem maxSpeed_nonneg : 0 ≤ maxSpeed := by
  norm_num [maxSpeed]

/-- A fresh speedometer is in range. -/
theorem new_inRange (elapsedTime : ℤ) : (new elapsedTime).InRange :=
  ⟨Settings.initial_inRange, le_refl 0, maxSpeed_nonneg⟩

/-- Computing the speed of settings in range. -/
theorem InRange.computeSpeed {s : Speedometer} (h : s.settings.InRange) :
    s.computeSpeed.InRange :=
  ⟨h, (Settings.speed_pos h.positive).le, h.speed_le⟩

/-- What neither sets nor clears the speed keeps the ranges. -/
theorem InRange.congr {s t : Speedometer} (h : s.InRange) (hσ : t.settings = s.settings)
    (hv : t.currentSpeed = s.currentSpeed) : t.InRange :=
  ⟨hσ ▸ h.settings, hv ▸ h.currentSpeed_nonneg, hv ▸ h.currentSpeed_le⟩

/-- A setter called with a value in range keeps the speedometer in range. -/
theorem InRange.set {s : Speedometer} (h : s.InRange) (now : ℤ) {x : Setter} (hx : x.InRange) :
    (s.set now x).InRange := by
  by_cases he : x.apply s.settings = s.settings
  · rwa [set_of_apply_eq he]
  · obtain ⟨hσ, hv, -, -⟩ := set_of_apply_ne he now
    have hrange := Setter.apply_inRange hx h.settings
    refine ⟨hσ ▸ hrange, ?_, ?_⟩
    · rw [hv]
      exact (Settings.speed_pos hrange.positive).le
    · rw [hv]
      exact hrange.speed_le

/-- Settling the distance changes neither settings nor speed. -/
theorem InRange.computeDistance {s : Speedometer} (h : s.InRange) (now : ℤ) :
    (s.computeDistance now).InRange :=
  h.congr rfl rfl

/-- A reset leaves the settings alone and clears the speed. -/
theorem InRange.reset {s : Speedometer} (h : s.InRange) (now : ℤ) : (s.reset now).InRange :=
  ⟨h.settings, le_refl 0, maxSpeed_nonneg⟩

end Speedometer

/-- The settings after some setters, in order. -/
def Settings.confirmAll (σ : Settings) (xs : List Setter) : Settings :=
  xs.foldl (fun σ x => x.apply σ) σ

/-- So does any number of setters. -/
theorem Settings.InRange.confirmAll {σ : Settings} (h : σ.InRange) {xs : List Setter}
    (hxs : ∀ x ∈ xs, x.InRange) : (σ.confirmAll xs).InRange := by
  induction xs generalizing σ with
  | nil => exact h
  | cons x xs ih =>
    have hx := Setter.apply_inRange (hxs x (List.mem_cons_self ..)) h
    exact ih hx fun y hy => hxs y (List.mem_cons_of_mem x hy)

/-- No wrap-around and no division by zero: the gear of the device is in range and its
size is exact, the setters that are about to be called get arguments in range, the
divisors of the speed formula are not zero now nor after any of these calls, and the
speed is bounded. -/
structure NoFault (gear : UInt8) (handed : List Setter) (s : Speedometer) : Prop where
  gear_bounds : kMinGear ≤ gear ∧ gear ≤ kMaxGear
  gearSize_exact : (kMaxGearSize - gear).toNat + gear.toNat = kMaxGearSize.toNat
  arguments : ∀ x ∈ handed, x.InRange
  divisors : ∀ xs, xs <+: handed → (s.settings.confirmAll xs).gearSize.toNat ≠ 0 ∧
    (s.settings.confirmAll xs).rotationTime ≠ 0
  speed_bounds : 0 ≤ s.currentSpeed ∧ s.currentSpeed ≤ maxSpeed

/-- What is in range is free of faults. -/
theorem NoFault.of_inRange {gear : UInt8} {handed : List Setter} {s : Speedometer}
    (hgear : GearInRange gear) (hhanded : ∀ x ∈ handed, x.InRange) (hs : s.InRange) :
    NoFault gear handed s where
  gear_bounds := hgear
  gearSize_exact := hgear.toNat_gearSize
  arguments := hhanded
  divisors := by
    intro xs hxs
    exact (hs.settings.confirmAll fun x hx => hhanded x (hxs.subset hx)).divisors_ne_zero
  speed_bounds := ⟨hs.currentSpeed_nonneg, hs.currentSpeed_le⟩

end BikeComputer
