import BikeComputer.Bootloader.Main

/-!
# What the bootloader starts

The results of the calls decide whether the image that is started has been verified; the
program only reports them. It starts an unverified image whenever the device fails, the
active image is not valid and not replaced, or an installation fails half-way.
-/

namespace BikeComputer.Bootloader

variable {E : Type}

/-- The region has the same content. -/
def SameOn (region : Set UInt64) (f g : Flash) : Prop := ∀ a ∈ region, f a = g a

/-- A flash agrees with itself on every region. -/
@[simp] theorem sameOn_self (region : Set UInt64) (f : Flash) : SameOn region f f :=
  fun _ _ => rfl

/-- Some check of the active application has returned `UC_ERR_NONE`, and the region still
has the content it had then. -/
def CheckedSince (noError : E) (region : Set UInt64) : List (Event E × Flash) → Prop
  | [] => False
  | (event, flash) :: log =>
    (event = .checkApplication noError ∧ ∀ x ∈ log, SameOn region x.2 flash) ∨
      CheckedSince noError region log

/-- An application is started only after the device has been initialised and the active
region checked and not written since, or after a successful installation. -/
def StartsVerified (lib : Library E) (region : Set UInt64) (b : Boot E) : Prop :=
  b.started ≠ none →
    ((∃ flash, (.init 0, flash) ∈ b.log) ∧ CheckedSince lib.UC_ERR_NONE region b.log) ∨
      ∃ slot flash, (.installApplication slot lib.UC_ERR_NONE, flash) ∈ b.log

/-- The device can be initialised, and the candidate is installed, or the active
application is valid and keeps its region. -/
def VerifiedWhen (lib : Library E) (c : Config) (region : Set UInt64) (flash : Flash) : Prop :=
  lib.init flash = 0 ∧
    match lib.hasValidNewerApplication c.candidateApplications c.activeApplication flash with
    | (false, _) => lib.checkApplication c.activeApplication flash = lib.UC_ERR_NONE
    | (true, slot) =>
      let result := lib.installApplication c.candidateApplications slot c.headerAddress flash
      result.1 = lib.UC_ERR_NONE ∨
        lib.checkApplication c.activeApplication flash = lib.UC_ERR_NONE ∧
          SameOn region result.2 flash

section Paths

variable {lib : Library E} {c : Config} {region : Set UInt64} {flash : Flash}

/-- A device that cannot be initialised is not looked at. -/
theorem boot_of_init_ne (h : lib.init flash ≠ 0) :
    boot lib c flash =
      ⟨flash, [(.init (lib.init flash), flash)], some c.POST_APPLICATION_ADDR⟩ := by
  simp [boot, main, init, record, mbed_start_application, h]

/-- Without a newer candidate, the active application is checked and started. -/
theorem boot_of_not_newer {slot : UInt32} (h : lib.init flash = 0)
    (hnewer : lib.hasValidNewerApplication c.candidateApplications c.activeApplication flash =
      (false, slot)) :
    boot lib c flash = ⟨flash,
      [(.init 0, flash),
        (.checkApplication (lib.checkApplication c.activeApplication flash), flash),
        (.hasValidNewerApplication false slot, flash)],
      some c.POST_APPLICATION_ADDR⟩ := by
  simp [boot, main, init, checkApplication, hasValidNewerApplication, record,
    mbed_start_application, h, hnewer]

/-- A newer candidate is installed, and what the installation leaves is started. -/
theorem boot_of_newer {slot : UInt32} {rc : E} {installed : Flash} (h : lib.init flash = 0)
    (hnewer : lib.hasValidNewerApplication c.candidateApplications c.activeApplication flash =
      (true, slot))
    (hinstall : lib.installApplication c.candidateApplications slot c.headerAddress flash =
      (rc, installed)) :
    boot lib c flash = ⟨installed,
      [(.init 0, flash),
        (.checkApplication (lib.checkApplication c.activeApplication flash), flash),
        (.hasValidNewerApplication true slot, flash), (.compareTo slot, flash),
        (.installApplication slot rc, installed)],
      some c.POST_APPLICATION_ADDR⟩ := by
  simp [boot, main, init, checkApplication, hasValidNewerApplication, compareTo,
    installApplication, record, mbed_start_application, h, hnewer, hinstall]

end Paths

/-- The application is started on every path. It has been verified exactly if the device
can be initialised and the candidate is installed, or the active application is valid and
keeps its region. -/
theorem boot_starts_verified_iff (lib : Library E) (c : Config) (region : Set UInt64)
    (flash : Flash) :
    (boot lib c flash).started = some c.POST_APPLICATION_ADDR ∧
      (StartsVerified lib region (boot lib c flash) ↔ VerifiedWhen lib c region flash) := by
  unfold VerifiedWhen
  by_cases hinit : lib.init flash = 0
  · rcases hnewer : lib.hasValidNewerApplication c.candidateApplications c.activeApplication flash
      with ⟨newer, slot⟩
    cases newer with
    | false =>
      rw [boot_of_not_newer hinit hnewer]
      simp [StartsVerified, CheckedSince, hinit]
    | true =>
      rcases hinstall : lib.installApplication c.candidateApplications slot c.headerAddress flash
        with ⟨rc, installed⟩
      rw [boot_of_newer hinit hnewer hinstall]
      simp only [hinstall]
      simp [StartsVerified, CheckedSince, hinit, or_comm, eq_comm (a := rc)]
  · rw [boot_of_init_ne hinit]
    simp [StartsVerified, CheckedSince, hinit]

/-- An active application that is not valid is started all the same. -/
theorem boot_starts_invalid :
    ¬ ∀ (lib : Library UInt8) (c : Config) (region : Set UInt64) (flash : Flash),
      StartsVerified lib region (boot lib c flash) := by
  intro h
  let lib : Library UInt8 := {
    UC_ERR_NONE := 0
    init := fun _ => 0
    checkApplication := fun _ _ => 1
    hasValidNewerApplication := fun _ _ _ => (false, 0)
    installApplication := fun _ _ _ flash => (0, flash) }
  have hstarts := h lib ⟨0, 0, 0, 0, 0, 1⟩ Set.univ fun _ => 0
  rw [boot_of_not_newer rfl rfl] at hstarts
  simp [StartsVerified, CheckedSince, lib] at hstarts

end BikeComputer.Bootloader
