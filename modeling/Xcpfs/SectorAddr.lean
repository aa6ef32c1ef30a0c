import Xcpfs.SuperLog

/-! Block addresses and sectors in the types of the C code: where each conversion between
them is exact. -/
namespace Xcpfs

/- `new_blkaddr` of `alloc_zone`. -/
def zoneBlkaddr (start : Nat) : Int := sectorToBlock start

/- `bi_sector` of `__alloc_bio` and of `xcpfs_grab_page`. -/
def allocBioSector (newBlkaddr : Int) : Nat := toSector (blockShift newBlkaddr)
def grabPageSector (block : Int) : Nat := toSector (blockShift block)

/- What `xcpfs_write_end_io` stores for the sector the device reports. -/
def endIoBlkaddr (biSector : Nat) : Int := sectorToBlock biSector

/- A device of 4096-byte blocks, and the sectors its zones start at. -/
structure SectorDevice where
  blocks : Nat
  starts : Set Nat
  addressed : blocks ≤ 2 ^ 31 - 1
  aligned : ∀ start ∈ starts, ∃ block < blocks, start = block * 2 ^ pageSectorsShift

structure SectorsExact (dev : SectorDevice) : Prop where
  start : ∀ sector ∈ dev.starts, zoneBlkaddr sector * 2 ^ pageSectorsShift = sector
  submitted : ∀ sector ∈ dev.starts, allocBioSector (zoneBlkaddr sector) = sector
  shifted : ∀ block < dev.blocks, blockShift block = block * 2 ^ pageSectorsShift
  bio : ∀ block < dev.blocks, allocBioSector block = block * 2 ^ pageSectorsShift
  grabbed : ∀ block < dev.blocks, grabPageSector block = block * 2 ^ pageSectorsShift
  completed : ∀ block < dev.blocks, endIoBlkaddr (block * 2 ^ pageSectorsShift) = block
  back : ∀ block < dev.blocks, endIoBlkaddr (allocBioSector block) = block ∧ endIoBlkaddr (grabPageSector block) = block
  next : ∀ block < dev.blocks, toInt32 (block + 1) = block + 1 ∧ blockShift (block + 1) = (block + 1) * 2 ^ pageSectorsShift
  pointer : ∀ block < dev.blocks, ∀ wp, validateWp wp block = max wp ((block + 1) * 2 ^ pageSectorsShift)

theorem sectorToBlockExact {block : Nat} (int : block < 2 ^ 31) : sectorToBlock (block * 2 ^ pageSectorsShift) = block := by
  unfold sectorToBlock
  rw [shiftSectorsNat,Nat.mul_div_cancel _ (by decide)]
  exact toInt32Small (by omega) (by omega)

/-- Every conversion is exact if and only if the device has less than 2^28 blocks. -/
theorem sectorsExact (dev : SectorDevice) : SectorsExact dev ↔ dev.blocks < 2 ^ 28 := by
  have addressed := dev.addressed
  constructor
  · intro exact_
    cases same : dev.blocks with
    | zero => decide
    | succ last =>
      have next := (exact_.next last (by omega)).2
      have small := (blockShiftExact (by omega)).mp ((congrArg blockShift (Nat.cast_succ last)).trans next)
      exact small
  · intro small
    have sector : ∀ block < dev.blocks, toSector (blockShift block) = block * 2 ^ pageSectorsShift :=
      fun block inside => shiftSector (inside.trans small)
    have whole : ∀ block < dev.blocks, sectorToBlock (block * 2 ^ pageSectorsShift) = block :=
      fun block inside => sectorToBlockExact (by omega)
    constructor
    · intro s member
      obtain ⟨block,inside,rfl⟩ := dev.aligned s member
      unfold zoneBlkaddr
      rw [whole block inside]
      exact (Nat.cast_mul block 8).symm
    · intro s member
      obtain ⟨block,inside,rfl⟩ := dev.aligned s member
      unfold allocBioSector zoneBlkaddr
      rw [whole block inside]
      exact sector block inside
    · exact fun block inside => (blockShiftExact (by omega)).mpr (by omega)
    · exact sector
    · exact sector
    · exact whole
    · intro block inside
      unfold endIoBlkaddr allocBioSector grabPageSector
      rw [sector block inside]
      exact ⟨whole block inside,whole block inside⟩
    · intro block inside
      have after := (@blockShiftExact (block + 1) (by omega)).mpr (by omega)
      exact ⟨toInt32Small (by omega) (by omega),after⟩
    · exact fun block inside wp => validateWpExact (by omega) wp

/- 2^31 - 1 blocks in one zone. -/
def largestDevice : SectorDevice where
  blocks := 2 ^ 31 - 1
  starts := {0}
  addressed := le_refl _
  aligned := fun start member => ⟨0,by decide,member⟩

/-- Block 2^28 of the largest device: its sector comes out near 2^64, and back it is negative. -/
theorem sectorOverflow : ¬SectorsExact largestDevice ∧ blockShift (2 ^ 28) = -2 ^ 31 ∧
    allocBioSector (2 ^ 28) = 2 ^ 64 - 2 ^ 31 ∧ endIoBlkaddr (allocBioSector (2 ^ 28)) = -2 ^ 28 := by
  refine ⟨fun exact_ => ?_,by decide,by decide,by decide⟩
  have shifted := exact_.shifted (2 ^ 28) (by decide)
  exact absurd shifted (by decide)

end Xcpfs
