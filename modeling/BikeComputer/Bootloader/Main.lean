import BikeComputer.UpdateClient.CandidateApplications
import Mathlib.Data.Set.Defs
import Mathlib.Data.Int.Notation

/-!
# The bootloader

The functions of the update client are parameters: they read the flash content, and the
installation also leaves a new one. The program is run with a log of its calls, each with
the flash content after it. All its paths meet in the jump to the application.
-/

namespace BikeComputer.Bootloader

open UpdateClient

/-- The addresses are relative to the start of the flash device. -/
abbrev Flash := UInt64 → UInt8

/-- An application on the block device, with its addresses. -/
structure BlockDeviceApplication where
  headerAddress : UInt64
  applicationAddress : UInt64
  deriving DecidableEq, Repr

/-- The constants of the configuration. -/
structure Config where
  MBED_ROM_START : UInt64
  HEADER_ADDR : UInt64
  POST_APPLICATION_ADDR : UInt64
  MBED_CONF_UPDATE_CLIENT_STORAGE_ADDRESS : UInt64
  MBED_CONF_UPDATE_CLIENT_STORAGE_SIZE : UInt64
  MBED_CONF_UPDATE_CLIENT_STORAGE_LOCATIONS : UInt32

/-- The functions that are called, with the error codes they return. A candidate that is
compared to the active application only leaves traces. -/
structure Library (E : Type) where
  UC_ERR_NONE : E
  init : Flash → ℤ
  checkApplication : BlockDeviceApplication → Flash → E
  hasValidNewerApplication : CandidateApplications → BlockDeviceApplication → Flash →
    Bool × UInt32
  installApplication : CandidateApplications → UInt32 → UInt64 → Flash → E × Flash

/-- A call with what it returned. -/
inductive Event (E : Type) where
  | init (rc : ℤ)
  | checkApplication (rc : E)
  | hasValidNewerApplication (newer : Bool) (slot : UInt32)
  | compareTo (slot : UInt32)
  | installApplication (slot : UInt32) (rc : E)
  deriving DecidableEq, Repr

/-- The state of the program: the flash content, the calls so far and the address of the
application once it has been started. -/
structure Boot (E : Type) where
  flash : Flash
  log : List (Event E × Flash) := []
  started : Option UInt64 := none

variable {E : Type}

/-- Record a call that has left the given flash content. -/
def record (event : Event E) (flash : Flash) : StateM (Boot E) Unit :=
  modify fun b => { b with flash := flash, log := b.log ++ [(event, flash)] }

/-- `init` of the block device. -/
def init (lib : Library E) : StateM (Boot E) ℤ := do
  let flash := (← get).flash
  let rc := lib.init flash
  record (.init rc) flash
  return rc

/-- The check of the active application. -/
def checkApplication (lib : Library E) (application : BlockDeviceApplication) :
    StateM (Boot E) E := do
  let flash := (← get).flash
  let rc := lib.checkApplication application flash
  record (.checkApplication rc) flash
  return rc

/-- The search for a candidate, with the slot it is found in. -/
def hasValidNewerApplication (lib : Library E) (candidates : CandidateApplications)
    (application : BlockDeviceApplication) : StateM (Boot E) (Bool × UInt32) := do
  let flash := (← get).flash
  let (newer, slot) := lib.hasValidNewerApplication candidates application flash
  record (.hasValidNewerApplication newer slot) flash
  return (newer, slot)

/-- The comparison with the candidate, whose result is not used. -/
def compareTo (slot : UInt32) : StateM (Boot E) Unit := do
  record (.compareTo slot) (← get).flash

/-- The installation of a candidate, which writes the flash. -/
def installApplication (lib : Library E) (candidates : CandidateApplications) (slot : UInt32)
    (headerAddress : UInt64) : StateM (Boot E) E := do
  let (rc, flash) := lib.installApplication candidates slot headerAddress (← get).flash
  record (.installApplication slot rc) flash
  return rc

/-- The jump to the application. -/
def mbed_start_application (address : UInt64) : StateM (Boot E) Unit :=
  modify fun b => { b with started := some address }

namespace Config

/-- Starting relative to the start of the ROM. -/
def headerAddress (c : Config) : UInt64 := c.HEADER_ADDR - c.MBED_ROM_START

/-- The address of the application relative to the flash. -/
def applicationAddress (c : Config) : UInt64 := c.POST_APPLICATION_ADDR - c.MBED_ROM_START

/-- The application behind the bootloader. -/
def activeApplication (c : Config) : BlockDeviceApplication :=
  ⟨c.headerAddress, c.applicationAddress⟩

/-- The slots of the candidates. -/
def candidateApplications (c : Config) : CandidateApplications where
  storageAddress := c.MBED_CONF_UPDATE_CLIENT_STORAGE_ADDRESS
  storageSize := c.MBED_CONF_UPDATE_CLIENT_STORAGE_SIZE
  headerSize := (c.POST_APPLICATION_ADDR - c.HEADER_ADDR).toUInt32
  nbrOfSlots := c.MBED_CONF_UPDATE_CLIENT_STORAGE_LOCATIONS

end Config

/-- The error codes are only traced. -/
def main (lib : Library E) (c : Config) : StateM (Boot E) Unit := do
  if (← init lib) = 0 then
    let _ ← checkApplication lib c.activeApplication
    let (newer, slot) ←
      hasValidNewerApplication lib c.candidateApplications c.activeApplication
    if newer then
      compareTo slot
      let _ ← installApplication lib c.candidateApplications slot c.headerAddress
  -- at this stage the program branches directly to the main application
  mbed_start_application c.POST_APPLICATION_ADDR

/-- The program run from a flash content. -/
def boot (lib : Library E) (c : Config) (flash : Flash) : Boot E :=
  (Id.run ((main lib c).run { flash := flash })).2

end BikeComputer.Bootloader
