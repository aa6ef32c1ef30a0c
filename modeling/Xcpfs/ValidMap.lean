import Xcpfs.Checkpoint
import Xcpfs.LiveBlocks
import Xcpfs.MountMemory
import Xcpfs.SuperLog

/-! Where `validate_blkaddr`, `invalidate_blkaddr` and `flush_zit` go into a valid map. The zone
and the bit are computed with the `zone_size` of the device; the map has 256 bytes, of which an
entry of the ZIT keeps 64. -/
namespace Xcpfs

/- A `block_t` that is the address of a whole block of the device, whose sectors are `capacity`. -/
def OnDevice (capacity : Nat) (blkaddr : Int) : Prop :=
  0 ≤ blkaddr ∧ blkaddr < 2 ^ 31 ∧ blkaddr * 2 ^ pageSectorsShift + 2 ^ pageSectorsShift ≤ capacity

/- How many addresses that are. -/
def deviceBlocks (capacity : Nat) : Nat := min (capacity / 2 ^ pageSectorsShift) (2 ^ 31)

/-- `zone_id` and `idx`: the address widens to the `sector_t` of `zone_size`, and both results
are ints. No result is the division by zero. -/
def ZmInfo.mapIndex (zm : ZmInfo) (blkaddr : Int) : Option (Int × Int) :=
  if zm.blocksPerZone = 0 then none
  else
    let blkaddr := blkaddr % 2 ^ 64
    some (toInt32 (blkaddr / zm.blocksPerZone),toInt32 (blkaddr % zm.blocksPerZone))

/- The 64-bit word that `set_bit` and `clear_bit` write lies in the allocated map. -/
def InMap (idx : Int) : Prop := 0 ≤ idx ∧ (idx / 64 + 1) * 8 ≤ zoneValidMapSize * 4

/- Offsets in the ZIT block: the entry of a zone, and the map behind its two-byte field. -/
def zitEntryStart (zone : Nat) : Nat := zone % zitEntryPerBlock * zitEntrySize
def zitMapStart (zone : Nat) : Nat := zitEntryStart zone + 2

structure MapInside (zm : ZmInfo) (capacity : Nat) : Prop where
  indexed : ∀ blkaddr, OnDevice capacity blkaddr →
    ∃ zone idx, zm.mapIndex blkaddr = some (zone,idx) ∧ 0 ≤ zone ∧ zone < zm.nrZones ∧ InMap idx
  distinct : ∀ a b at_, OnDevice capacity a → OnDevice capacity b → zm.mapIndex a = some at_ → zm.mapIndex b = some at_ → a = b
  copied : ∀ zone, zitMapStart zone + zoneValidMapSize ≤ zitEntryStart zone + zitEntrySize ∧
    zitEntryStart zone + zitEntrySize ≤ pageSize ∧ zoneValidMapSize ≤ zoneValidMapSize * 4

/- The zones, cut into whole blocks, hold every address, and no bit is past the map. -/
def MapFits (zm : ZmInfo) (capacity : Nat) : Prop :=
  deviceBlocks capacity ≤ zm.nrZones * zm.blocksPerZone ∧ min (deviceBlocks capacity) zm.blocksPerZone ≤ validMapBits

section
variable {zm : ZmInfo} {capacity : Nat}

theorem onDeviceIff {blkaddr : Int} : OnDevice capacity blkaddr ↔ ∃ b : Nat, blkaddr = b ∧ b < deviceBlocks capacity := by
  have shift : (2 : Int) ^ pageSectorsShift = 8 := rfl
  have blocks : deviceBlocks capacity = min (capacity / 8) (2 ^ 31) := rfl
  unfold OnDevice
  rw [shift,blocks]
  constructor
  · intro ⟨low,small,inside⟩
    exact ⟨blkaddr.toNat,by omega,by omega⟩
  · intro ⟨b,same,below⟩
    omega

theorem deviceSmall {b : Nat} (below : b < deviceBlocks capacity) : b < 2 ^ 31 := below.trans_le (Nat.min_le_right ..)

theorem mapIndexOf {b : Nat} (below : b < deviceBlocks capacity) (positive : 0 < zm.blocksPerZone) :
    zm.mapIndex b = some (((zm.blk2zone b : Nat) : Int),((b % zm.blocksPerZone : Nat) : Int)) := by
  have near : ∀ n ≤ b, toInt32 (n : Int) = n := by
    intro n le
    have small := deviceSmall below
    exact toInt32Small (by omega) (by omega)
  have wide : (b : Int) % 2 ^ 64 = b := by
    have small := deviceSmall below
    omega
  unfold ZmInfo.mapIndex
  rw [if_neg (Nat.ne_of_gt positive)]
  dsimp only
  rw [wide,← Int.natCast_ediv,← Int.natCast_emod,near _ (Nat.div_le_self ..),near _ (Nat.mod_le ..)]
  rfl

theorem indexPositive {blkaddr : Int} {at_ : Int × Int} (found : zm.mapIndex blkaddr = some at_) : 0 < zm.blocksPerZone := by
  refine Nat.pos_of_ne_zero fun zero => ?_
  rw [ZmInfo.mapIndex,if_pos zero] at found
  cases found

theorem fitsPositive {b : Nat} (fits : MapFits zm capacity) (below : b < deviceBlocks capacity) : 0 < zm.blocksPerZone := by
  refine Nat.pos_of_ne_zero fun zero => ?_
  have none_ := fits.1
  rw [zero,Nat.mul_zero] at none_
  omega

theorem inMapIff {idx : Nat} : InMap idx ↔ idx < validMapBits := by
  have room : zoneValidMapSize * 4 = 256 := rfl
  have bits : validMapBits = 2048 := rfl
  unfold InMap
  rw [bits]
  change 0 ≤ (idx : Int) ∧ ((idx : Int) / 64 + 1) * 8 ≤ ((zoneValidMapSize * 4 : Nat) : Int) ↔ _
  rw [room]
  omega

theorem mapCopied (zone : Nat) : zitMapStart zone + zoneValidMapSize ≤ zitEntryStart zone + zitEntrySize ∧
    zitEntryStart zone + zitEntrySize ≤ pageSize ∧ zoneValidMapSize ≤ zoneValidMapSize * 4 := by
  have entry : zone % zitEntryPerBlock < 55 := Nat.mod_lt zone (by decide)
  refine ⟨?_,?_,by decide⟩
  · change zitEntryStart zone + 2 + 64 ≤ zitEntryStart zone + 74
    omega
  · change zone % zitEntryPerBlock * 74 + 74 ≤ 4096
    omega

theorem mapDistinct {a b : Int} {at_ : Int × Int} (onA : OnDevice capacity a) (onB : OnDevice capacity b) (ofA : zm.mapIndex a = some at_)
    (ofB : zm.mapIndex b = some at_) : a = b := by
  obtain ⟨a,rfl,belowA⟩ := onDeviceIff.mp onA
  obtain ⟨b,rfl,belowB⟩ := onDeviceIff.mp onB
  have positive := indexPositive ofA
  rw [mapIndexOf belowA positive] at ofA
  rw [mapIndexOf belowB positive,← ofA,Option.some.injEq,Prod.mk.injEq] at ofB
  exact congrArg Nat.cast (blkaddrSame (Int.ofNat.inj ofB.1.symm) (Int.ofNat.inj ofB.2.symm))

theorem indexFits {b : Nat} (fits : MapFits zm capacity) (below : b < deviceBlocks capacity) :
    zm.blk2zone b < zm.nrZones ∧ b % zm.blocksPerZone < validMapBits := by
  have positive := fitsPositive fits below
  constructor
  · exact (Nat.div_lt_iff_lt_mul positive).mpr (below.trans_le fits.1)
  · have idx : b % zm.blocksPerZone < zm.blocksPerZone := Nat.mod_lt b positive
    have within : b % zm.blocksPerZone ≤ b := Nat.mod_le ..
    have map := fits.2
    omega

theorem fitsIndexed (indexed : ∀ blkaddr, OnDevice capacity blkaddr →
    ∃ zone idx, zm.mapIndex blkaddr = some (zone,idx) ∧ 0 ≤ zone ∧ zone < zm.nrZones ∧ InMap idx) : MapFits zm capacity := by
  have each : ∀ b < deviceBlocks capacity, 0 < zm.blocksPerZone ∧ zm.blk2zone b < zm.nrZones ∧ b % zm.blocksPerZone < validMapBits := by
    intro b below
    obtain ⟨zone,idx,found,_,inside,bit⟩ := indexed b (onDeviceIff.mpr ⟨b,rfl,below⟩)
    have positive := indexPositive found
    rw [mapIndexOf below positive,Option.some.injEq,Prod.mk.injEq] at found
    rw [← found.1] at inside
    rw [← found.2] at bit
    exact ⟨positive,Int.ofNat_lt.mp inside,inMapIff.mp bit⟩
  cases blocks : deviceBlocks capacity with
  | zero =>
    unfold MapFits
    rw [blocks]
    exact ⟨Nat.zero_le _,by simp⟩
  | succ last =>
    obtain ⟨positive,zone,_⟩ := each last (by omega)
    have far : last < zm.nrZones * zm.blocksPerZone := (Nat.div_lt_iff_lt_mul positive).mp zone
    have first : min last (zm.blocksPerZone - 1) < zm.blocksPerZone := by omega
    have bit := (each (min last (zm.blocksPerZone - 1)) (by omega)).2.2
    rw [Nat.mod_eq_of_lt first] at bit
    unfold MapFits
    rw [blocks]
    exact ⟨far,by omega⟩

theorem fitsInside (fits : MapFits zm capacity) : MapInside zm capacity := by
  refine ⟨fun blkaddr on => ?_,fun a b _ => mapDistinct,mapCopied⟩
  obtain ⟨b,rfl,below⟩ := onDeviceIff.mp on
  obtain ⟨zone,idx⟩ := indexFits fits below
  exact ⟨_,_,mapIndexOf below (fitsPositive fits below),Int.natCast_nonneg _,Int.ofNat_lt.mpr zone,inMapIff.mpr idx⟩

theorem mountInside {mem : RawMemory} {bdev : BlockDevice} {blocks : Nat} {page : Nat → Option ZitBlock}
    (reported : Reported bdev blocks) (ran : mountOver mem bdev page = some zm) (whole : capacity ≤ bdev.nrZones * (blocks * 8)) :
    MapInside zm capacity ↔ min (deviceBlocks capacity) blocks ≤ validMapBits := by
  have size : zm.zoneSize = blocks * 8 := (mountMounted reported ran).size.trans (reported.len _)
  have perZone : zm.blocksPerZone = blocks := by
    unfold ZmInfo.blocksPerZone
    rw [size]
    exact Nat.mul_div_cancel blocks (by decide)
  have zones : deviceBlocks capacity ≤ zm.nrZones * zm.blocksPerZone := by
    rw [perZone,(mountMounted reported ran).nrZones]
    refine (Nat.min_le_left ..).trans (Nat.div_le_of_le_mul ?_)
    calc capacity ≤ bdev.nrZones * (blocks * 8) := whole
      _ = 8 * (bdev.nrZones * blocks) := by ring
  constructor
  · intro inside
    rw [← perZone]
    exact (fitsIndexed inside.indexed).2
  · intro map
    rw [← perZone] at map
    exact fitsInside ⟨zones,map⟩

end

/-- Every access stays inside exactly for a device whose addresses all fall into the zones of the
table, as cut by `zone_size >> 3`, and whose zones, or the device itself, have at most 2048 blocks. -/
theorem mapStaysInside (zm : ZmInfo) (capacity : Nat) : MapInside zm capacity ↔ MapFits zm capacity :=
  ⟨fun inside => fitsIndexed inside.indexed,fitsInside⟩

/- Eight zones of 4096 blocks, the first and the typed ones open. -/
def largeDevice : BlockDevice where
  nrZones := 8
  maxOpenZones := 8
  maxActiveZones := 8
  zones := fun zone =>
    { start := zone * 32768, len := 32768, capacity := 32768
      wp := zone * 32768 + if zone = 0 ∨ zone = 3 ∨ zone = 5 ∨ zone = 6 then 8 else 0
      cond := if zone = 0 ∨ zone = 3 ∨ zone = 5 ∨ zone = 6 then .expOpen else .empty }

def largeTable : ZmInfo := (mountOver (zeroMemory largeDevice fun _ _ => false) largeDevice fun _ => none).getD (blankTable largeDevice)

/-- Block 2048 of the first zone is bit 2048 of a map with bits 0 to 2047. -/
theorem mapLeavesTable : ¬∀ (bdev : BlockDevice) (blocks : Nat) (zm : ZmInfo), Reported bdev blocks →
    mountOver (zeroMemory bdev fun _ _ => false) bdev (fun _ => none) = some zm → MapInside zm (bdev.nrZones * (blocks * 8)) := by
  intro claim
  have reported : Reported largeDevice 4096 := by
    refine ⟨by decide,by decide,by decide,fun _ => rfl,fun _ => rfl,fun _ => Nat.le_add_right ..,fun zone => ?_⟩
    apply Nat.add_le_add_left
    split <;> decide
  have mounts : mountOver (zeroMemory largeDevice fun _ _ => false) largeDevice (fun _ => none) = some largeTable := rfl
  have map := (mountInside reported mounts (Nat.le_refl _)).mp (claim largeDevice 4096 largeTable reported mounts)
  revert map
  decide

inductive MapCall where
  | validate (blkaddr : Nat)
  | invalidate (blkaddr : Nat)
  deriving DecidableEq, Repr

namespace MapCall

def blkaddr : MapCall → Nat
  | validate blkaddr => blkaddr
  | invalidate blkaddr => blkaddr

def run (call : MapCall) (zm : ZmInfo) : ZmInfo :=
  match call with
  | validate blkaddr => validateBlkaddr zm blkaddr
  | invalidate blkaddr => invalidateBlkaddr zm blkaddr

end MapCall

section
variable {zm : ZmInfo} {capacity : Nat}

theorem validateMaps (blkaddr zone : Nat) : ((validateBlkaddr zm blkaddr).zoneInfo zone).validMap =
    if zone = zm.blk2zone blkaddr then Function.update (zm.zoneInfo zone).validMap (blkaddr % zm.blocksPerZone) true
    else (zm.zoneInfo zone).validMap := by
  unfold validateBlkaddr
  by_cases here : zone = zm.blk2zone blkaddr
  · subst here
    dsimp only
    split <;> simp
  · dsimp only
    split <;> simp [here]

theorem invalidateMaps (blkaddr zone : Nat) : ((invalidateBlkaddr zm blkaddr).zoneInfo zone).validMap =
    if zone = zm.blk2zone blkaddr then Function.update (zm.zoneInfo zone).validMap (blkaddr % zm.blocksPerZone) false
    else (zm.zoneInfo zone).validMap := by
  unfold invalidateBlkaddr
  by_cases here : zone = zm.blk2zone blkaddr
  · subst here
    simp
  · simp [here]

theorem mapCallSame (call : MapCall) : (call.run zm).zoneSize = zm.zoneSize ∧ (call.run zm).nrZones = zm.nrZones := by
  cases call with
  | validate blkaddr => exact ⟨validateSize blkaddr,validateZones zm blkaddr⟩
  | invalidate blkaddr => exact ⟨rfl,rfl⟩

theorem mapCallBit (call : MapCall) {zone idx : Nat}
    (other : ¬(zone = zm.blk2zone call.blkaddr ∧ idx = call.blkaddr % zm.blocksPerZone)) :
    ((call.run zm).zoneInfo zone).validMap idx = (zm.zoneInfo zone).validMap idx := by
  cases call with
  | validate blkaddr =>
    rw [MapCall.run,validateMaps]
    split
    case isTrue here => exact Function.update_of_ne (fun same => other ⟨here,same⟩) ..
    case isFalse => rfl
  | invalidate blkaddr =>
    rw [MapCall.run,invalidateMaps]
    split
    case isTrue here => exact Function.update_of_ne (fun same => other ⟨here,same⟩) ..
    case isFalse => rfl

theorem mapCallsInside (fits : MapFits zm capacity) {calls : List MapCall}
    (on : ∀ call ∈ calls, call.blkaddr < deviceBlocks capacity) {zone idx : Nat}
    (outside : zm.nrZones ≤ zone ∨ validMapBits ≤ idx) :
    ((calls.foldl (fun zm call => call.run zm) zm).zoneInfo zone).validMap idx = (zm.zoneInfo zone).validMap idx := by
  induction calls generalizing zm with
  | nil => rfl
  | cons call calls ih =>
    obtain ⟨first,rest⟩ := List.forall_mem_cons.mp on
    obtain ⟨size,zones⟩ := @mapCallSame zm call
    have blocks : (call.run zm).blocksPerZone = zm.blocksPerZone := by
      unfold ZmInfo.blocksPerZone
      rw [size]
    have fitsNext : MapFits (call.run zm) capacity := by
      unfold MapFits
      rw [zones,blocks]
      exact fits
    have bit : ((call.run zm).zoneInfo zone).validMap idx = (zm.zoneInfo zone).validMap idx := by
      refine mapCallBit call fun here => ?_
      obtain ⟨inZone,inMap⟩ := indexFits fits first
      omega
    exact (ih fitsNext rest (by rwa [zones])).trans bit

end

end Xcpfs
