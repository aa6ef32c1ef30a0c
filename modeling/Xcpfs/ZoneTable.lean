import Xcpfs.Layout

/-! The zone table of zone_mgmt.c. Sectors are `sector_t` values, so the scan over
open zones computes with 64 bits; the device answers a zone command or refuses it. -/
namespace Xcpfs

inductive ZoneCond where
  | notWp | empty | impOpen | expOpen | closed | readonly | full | offline
  deriving DecidableEq, Repr

structure ZoneInfo where
  zoneId : Nat
  cond : ZoneCond
  wp : Nat
  start : Nat
  writeInflight : Nat
  dirty : Bool
  zoneType : Nat
  vblocks : Int
  validMap : Nat → Bool

structure ZmInfo where
  zoneSize : Nat
  zoneCapacity : Nat
  nrZones : Nat
  maxOpenZones : Nat
  maxActiveZones : Nat
  nrType : Nat → Int
  limitType : Nat → Int
  zoneInfo : Nat → ZoneInfo
  zoneOpenedCount : Int
  zoneOpened : List (Option Nat)
  zoneActiveCount : Int
  zoneActive : List (Option Nat)

def zoneTypeFree : Nat := 0

inductive PageType where
  | metaNode | metaData | regNode | regData
  deriving DecidableEq, Repr

def PageType.code : PageType → Nat
  | metaNode => 1 | metaData => 2 | regNode => 3 | regData => 4

theorem codeNotFree (type : PageType) : type.code ≠ zoneTypeFree := by
  cases type <;> decide

namespace ZmInfo

def blocksPerZone (zm : ZmInfo) : Nat := zm.zoneSize / 2 ^ pageSectorsShift

def blk2zone (zm : ZmInfo) (blkaddr : Nat) : Nat := blkaddr / zm.blocksPerZone

def setZone (zm : ZmInfo) (zone : Nat) (zi : ZoneInfo) : ZmInfo :=
  { zm with zoneInfo := Function.update zm.zoneInfo zone zi }

end ZmInfo

/- `__insert_zone` and `__remove_zone` with the flag for success. -/
def insertZone (zone : Nat) : List (Option Nat) → List (Option Nat) × Bool
  | [] => ([],false)
  | none :: rest => (some zone :: rest,true)
  | some other :: rest => let (rest,done) := insertZone zone rest; (some other :: rest,done)

def removeZone (zone : Nat) : List (Option Nat) → List (Option Nat) × Bool
  | [] => ([],false)
  | entry :: rest =>
    if entry = some zone then (none :: rest,true)
    else let (rest,done) := removeZone zone rest; (entry :: rest,done)

def ZmInfo.insertOpened (zm : ZmInfo) (zone : Nat) : ZmInfo :=
  let (list,done) := insertZone zone zm.zoneOpened
  { zm with zoneOpened := list, zoneOpenedCount := zm.zoneOpenedCount + if done then 1 else 0 }

def ZmInfo.removeOpened (zm : ZmInfo) (zone : Nat) : ZmInfo :=
  let (list,done) := removeZone zone zm.zoneOpened
  { zm with zoneOpened := list, zoneOpenedCount := zm.zoneOpenedCount - if done then 1 else 0 }

def ZmInfo.insertActive (zm : ZmInfo) (zone : Nat) : ZmInfo :=
  let (list,done) := insertZone zone zm.zoneActive
  { zm with zoneActive := list, zoneActiveCount := zm.zoneActiveCount + if done then 1 else 0 }

def ZmInfo.removeActive (zm : ZmInfo) (zone : Nat) : ZmInfo :=
  let (list,done) := removeZone zone zm.zoneActive
  { zm with zoneActive := list, zoneActiveCount := zm.zoneActiveCount - if done then 1 else 0 }

/-- `xcpfs_zone_open`; `accepted` is the device's answer to the open command. -/
def xcpfsZoneOpen (zm : ZmInfo) (zone : Nat) (accepted : Bool) : ZmInfo × Except Errno Unit :=
  let zi := zm.zoneInfo zone
  if zi.cond = .expOpen then (zm,.ok ())
  else if zm.zoneOpenedCount = zm.maxOpenZones then (zm,.error .emaxopen)
  else if zm.zoneActiveCount = zm.maxActiveZones then (zm,.error .emaxactive)
  else if accepted = false then (zm,.error .eio)
  else
    let zm := zm.insertOpened zone
    let zm := if zi.cond ≠ .closed then zm.insertActive zone else zm
    (zm.setZone zone { zi with cond := .expOpen, dirty := true },.ok ())

/- `zi->wp` after `validate_blkaddr`; the shift is done in `int`. -/
def validateWp (wp : Nat) (blkaddr : Int) : Nat := max wp (toSector (blockShift (toInt32 (blkaddr + 1))))

def validateBlkaddr (zm : ZmInfo) (blkaddr : Nat) : ZmInfo :=
  let zone := zm.blk2zone blkaddr
  let idx := blkaddr % zm.blocksPerZone
  let zi := zm.zoneInfo zone
  let wp := validateWp zi.wp blkaddr
  let zi := { zi with validMap := Function.update zi.validMap idx true, vblocks := zi.vblocks + 1, dirty := true, wp := wp }
  if wp = zm.zoneCapacity + zi.start then
    ((zm.setZone zone { zi with cond := .full }).removeActive zone).removeOpened zone
  else zm.setZone zone zi

def invalidateBlkaddr (zm : ZmInfo) (blkaddr : Nat) : ZmInfo :=
  let zone := zm.blk2zone blkaddr
  let idx := blkaddr % zm.blocksPerZone
  let zi := zm.zoneInfo zone
  zm.setZone zone { zi with validMap := Function.update zi.validMap idx false, vblocks := zi.vblocks - 1, dirty := true }

theorem validateWpExact {blkaddr : Nat} (small : blkaddr + 1 < 2 ^ 28) (wp : Nat) :
    validateWp wp blkaddr = max wp ((blkaddr + 1) * 2 ^ pageSectorsShift) := by
  have after := @shiftSector (blkaddr + 1) small
  unfold validateWp
  rw [toInt32Small (by omega) (by omega)]
  exact congrArg (max wp) after

section
variable (zm : ZmInfo) (zone : Nat) (zi : ZoneInfo)

@[simp] theorem setZoneInfo : (zm.setZone zone zi).zoneInfo = Function.update zm.zoneInfo zone zi := rfl
@[simp] theorem setZoneOpened : (zm.setZone zone zi).zoneOpened = zm.zoneOpened := rfl
@[simp] theorem insertOpenedInfo : (zm.insertOpened zone).zoneInfo = zm.zoneInfo := rfl
@[simp] theorem removeOpenedInfo : (zm.removeOpened zone).zoneInfo = zm.zoneInfo := rfl
@[simp] theorem insertActiveInfo : (zm.insertActive zone).zoneInfo = zm.zoneInfo := rfl
@[simp] theorem removeActiveInfo : (zm.removeActive zone).zoneInfo = zm.zoneInfo := rfl

end

theorem insertZoneLength (zone : Nat) (list : List (Option Nat)) :
    (insertZone zone list).1.length = list.length := by
  induction list with
  | nil => rfl
  | cons entry rest ih =>
    cases entry with
    | none => rfl
    | some other => simp only [insertZone,List.length_cons,ih]

theorem insertZoneCount (zone : Nat) (list : List (Option Nat)) :
    (insertZone zone list).1.countP Option.isSome =
      list.countP Option.isSome + if (insertZone zone list).2 then 1 else 0 := by
  induction list with
  | nil => rfl
  | cons entry rest ih =>
    cases entry with
    | none => simp [insertZone]
    | some other =>
      simp only [insertZone,List.countP_cons,Option.isSome_some,if_true,ih]
      exact Nat.add_right_comm ..

theorem insertZoneFound (zone : Nat) {list : List (Option Nat)}
    (room : list.countP Option.isSome < list.length) : some zone ∈ (insertZone zone list).1 := by
  induction list with
  | nil => simp at room
  | cons entry rest ih =>
    cases entry with
    | none => exact List.mem_cons_self
    | some other =>
      simp only [List.countP_cons,Option.isSome_some,if_true,List.length_cons] at room
      exact List.mem_cons_of_mem _ (ih (by omega))

theorem removeZoneLength (zone : Nat) (list : List (Option Nat)) :
    (removeZone zone list).1.length = list.length := by
  induction list with
  | nil => rfl
  | cons entry rest ih =>
    simp only [removeZone]
    split
    · rfl
    · simp only [List.length_cons,ih]

theorem removeZoneCount (zone : Nat) (list : List (Option Nat)) :
    list.countP Option.isSome =
      (removeZone zone list).1.countP Option.isSome + if (removeZone zone list).2 then 1 else 0 := by
  induction list with
  | nil => rfl
  | cons entry rest ih =>
    simp only [removeZone]
    split
    · rename_i same
      simp [same]
    · simp only [List.countP_cons]
      rw [ih]
      exact Nat.add_right_comm ..

end Xcpfs
