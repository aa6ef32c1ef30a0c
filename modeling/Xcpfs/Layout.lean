import Mathlib

/-! Sizes and fixed positions of the on-disk layout. Record sizes are those of
the packed structures; the divisions are the ones the header macros perform. -/
namespace Xcpfs

def pageSize : Nat := 4096
def pageSectorsShift : Nat := 3

def natEntrySize : Nat := 9
def natEntryPerBlock : Nat := pageSize / natEntrySize

def natEntrySbSize : Nat := 13
def superBlockSize : Nat := 30
/-- Whole `meta_nat` records that lie inside the superblock page. -/
def metaNatRoom : Nat := (pageSize - superBlockSize) / natEntrySbSize

def zitEntrySize : Nat := 74
def zitEntryPerBlock : Nat := pageSize / zitEntrySize
def zoneValidMapSize : Nat := 64

def defAddrsPerInode : Nat := 900
def defNidsPerInode : Nat := 5
def defNidsPerBlock : Nat := 1018

def regNatStart : Nat := 6000
def zitStart : Nat := 600000

def metaIno : Nat := 1
def nodeIno : Nat := 2
def rootIno : Nat := 3

inductive Errno where | eexist | enokey | enoent | eio | ezone | emaxopen | emaxactive | enotempty
  deriving DecidableEq, Repr

/- Metadata nids are those whose NAT block lies below the regular NAT region. -/
def isMetaNid (nid : Nat) : Bool := nid < regNatStart * natEntryPerBlock

/- `int` and `sector_t` of the C code: the first wraps at 32 bits, the second has 64 and no sign,
and a shift is done in the type of its left operand. -/
def toInt32 (x : Int) : Int := x.bmod (2 ^ 32)

def toSector (x : Int) : Nat := (x % 2 ^ 64).toNat

def sectorToBlock (sector : Nat) : Int := toInt32 (sector / 2 ^ pageSectorsShift : Nat)

/- `block << PAGE_SECTORS_SHIFT`, still an `int`. -/
def blockShift (block : Int) : Int := toInt32 (block * 2 ^ pageSectorsShift)

theorem toInt32Small {x : Int} (low : -2 ^ 31 ≤ x) (high : x < 2 ^ 31) : toInt32 x = x := by
  simp only [toInt32,Int.bmod_def]
  omega

theorem shiftSectors : (2 : Int) ^ pageSectorsShift = 8 := rfl

theorem shiftSectorsNat : 2 ^ pageSectorsShift = 8 := rfl

theorem toSectorNat {x : Nat} (small : x < 2 ^ 64) : toSector x = x := by
  unfold toSector
  omega

theorem blockShiftExact {block : Nat} (int : block < 2 ^ 31) :
    blockShift block = block * 2 ^ pageSectorsShift ↔ block < 2 ^ 28 := by
  unfold blockShift toInt32
  rw [shiftSectors,Int.bmod_def]
  omega

theorem shiftSector {block : Nat} (small : block < 2 ^ 28) : toSector (blockShift block) = block * 2 ^ pageSectorsShift := by
  have sector : blockShift block = ((block * 8 : Nat) : Int) := by
    rw [(blockShiftExact (by omega)).mpr small,shiftSectors]
    exact (Nat.cast_mul block 8).symm
  rw [sector,shiftSectorsNat]
  exact toSectorNat (by omega)

theorem natEntryPerBlockValue : natEntryPerBlock = 455 := rfl
theorem zitEntryPerBlockValue : zitEntryPerBlock = 55 := rfl

end Xcpfs
