import Mathlib.Order.Basic

/-!
# The candidate applications

The derived class declares the data members of its base class again. Its constructor hands
the arguments to the base class and leaves its own members as they are found in memory,
and these are the ones its function works with.
-/

namespace BikeComputer.UpdateClient

/-- The members of the base class. -/
structure CandidateApplications where
  storageAddress : UInt64
  storageSize : UInt64
  headerSize : UInt32
  nbrOfSlots : UInt32
  deriving DecidableEq, Repr

/-- The members that hide those of the base class. -/
structure HidingMembers where
  storageAddress : UInt64
  storageSize : UInt64
  headerSize : UInt32
  nbrOfSlots : UInt32
  deriving DecidableEq, Repr

/-- The members of the base class and those that hide them. -/
structure MyCandidateApplications where
  base : CandidateApplications
  own : HidingMembers
  deriving DecidableEq, Repr

namespace MyCandidateApplications

/-- The constructor; `memory` is what the object is built in. -/
def new (memory : HidingMembers) (storageAddress storageSize : UInt64)
    (headerSize nbrOfSlots : UInt32) : MyCandidateApplications where
  base := ⟨storageAddress, storageSize, headerSize, nbrOfSlots⟩
  own := memory

/-- What the function returns without a free slot, `-1` as an unsigned number. -/
def noSlot : UInt32 := 0xFFFFFFFF

/-- An unsigned quotient, or `none` for a division by zero. -/
def divide (a b : UInt64) : Option UInt64 := if b = 0 then none else some (a / b)

/-- The loop over the slots, from one of them on. The test for a free slot is commented
out, so its body returns in its first pass. -/
def findSlot (own : HidingMembers) (slotSize : UInt64) (slotIndex : UInt32) : UInt32 :=
  if slotIndex < own.nbrOfSlots then
    let _candidateAddress := own.storageAddress + slotIndex.toUInt64 * slotSize
    slotIndex
  else noSlot

/-- The first slot, as the members that hide those of the base class see it. -/
def getSlotForCandidate (a : MyCandidateApplications) : Option UInt32 := do
  let slotSize ← divide a.own.storageSize a.own.nbrOfSlots.toUInt64
  return findSlot a.own slotSize 0

/-- The function divides by the member the constructor has not set. -/
theorem getSlotForCandidate_eq (a : MyCandidateApplications) :
    a.getSlotForCandidate = if a.own.nbrOfSlots = 0 then none else some 0 := by
  have hdivisor : a.own.nbrOfSlots.toUInt64 = 0 ↔ a.own.nbrOfSlots = 0 := by
    rw [← UInt64.toNat_inj, ← UInt32.toNat_inj, UInt32.toNat_toUInt64]
    rfl
  unfold getSlotForCandidate divide
  by_cases h : a.own.nbrOfSlots = 0
  · simp [h]
  · have hpass : 0 < a.own.nbrOfSlots := UInt32.pos_iff_ne_zero.mpr h
    simp [hdivisor, h, findSlot, hpass]

end MyCandidateApplications

/-- The window of a slot of the configured storage, as addresses that do not wrap around. -/
def slotWindow (c : CandidateApplications) (slotIndex : UInt32) : ℕ × ℕ :=
  let slotSize := c.storageSize.toNat / c.nbrOfSlots.toNat
  (c.storageAddress.toNat + slotIndex.toNat * slotSize,
    c.storageAddress.toNat + (slotIndex.toNat + 1) * slotSize)

/-- The function returns one of the configured slots, and its window lies inside the
configured storage. -/
def SlotInside (a : MyCandidateApplications) : Prop :=
  ∃ i, a.getSlotForCandidate = some i ∧ i < a.base.nbrOfSlots ∧
    a.base.storageAddress.toNat ≤ (slotWindow a.base i).1 ∧
    (slotWindow a.base i).2 ≤ a.base.storageAddress.toNat + a.base.storageSize.toNat

/-- With at least one slot configured, the slot is inside the storage exactly if the member
that the constructor leaves unset is not zero. -/
theorem slotInside_iff (memory : HidingMembers) (storageAddress storageSize : UInt64)
    (headerSize nbrOfSlots : UInt32) (hpos : 1 ≤ nbrOfSlots) :
    SlotInside (.new memory storageAddress storageSize headerSize nbrOfSlots) ↔
      memory.nbrOfSlots ≠ 0 := by
  let a : MyCandidateApplications :=
    .new memory storageAddress storageSize headerSize nbrOfSlots
  have hslot : a.getSlotForCandidate = if memory.nbrOfSlots = 0 then none else some 0 :=
    a.getSlotForCandidate_eq
  constructor
  · rintro ⟨i, hi, -⟩ hzero
    rw [hslot, if_pos hzero] at hi
    exact absurd hi (by simp)
  · intro hne
    refine ⟨0, by rw [hslot, if_neg hne], hpos, Nat.le_add_right _ _, ?_⟩
    have hsize : storageSize.toNat / nbrOfSlots.toNat ≤ storageSize.toNat := Nat.div_le_self _ _
    simpa [slotWindow, MyCandidateApplications.new] using hsize

/-- In memory that happens to hold a one. -/
theorem slotInside_one_slot :
    SlotInside (.new ⟨0, 0, 0, 1⟩ 0x100000 0x100000 0x200 1) :=
  (slotInside_iff ⟨0, 0, 0, 1⟩ 0x100000 0x100000 0x200 1 (by decide)).mpr (by decide)

/-- In memory that holds zeros, one configured slot already leads to a division by zero. -/
theorem slotInside_zeroed :
    ¬ ∀ (memory : HidingMembers) (storageAddress storageSize : UInt64)
      (headerSize nbrOfSlots : UInt32), 1 ≤ nbrOfSlots →
      nbrOfSlots.toUInt64 ≤ storageSize →
      SlotInside (.new memory storageAddress storageSize headerSize nbrOfSlots) := by
  intro h
  obtain ⟨i, hi, -⟩ := h ⟨0, 0, 0, 0⟩ 0x100000 0x100000 0x200 1 (by decide) (by decide)
  rw [MyCandidateApplications.getSlotForCandidate_eq] at hi
  simp [MyCandidateApplications.new] at hi

end BikeComputer.UpdateClient
