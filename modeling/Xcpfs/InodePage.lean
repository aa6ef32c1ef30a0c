import Xcpfs.Lib.CBytes
import Xcpfs.Xio

/-! The attributes of an inode in the bytes of its node page. `xcpfs_update_inode_page` writes
them one field after the other and `xcpfs_fill_inode` reads them back; a field that the first
leaves out keeps the bytes the page had. -/
namespace Xcpfs
open CBytes

structure Timespec where
  tvSec : BitVec 64
  tvNsec : BitVec 64
  deriving DecidableEq, Repr

/- `struct inode`, the fields the two functions name. User and group numbers are those of the
initial user namespace. -/
structure KernelInode where
  iMode : BitVec 16
  iUid : BitVec 32
  iGid : BitVec 32
  iNlink : BitVec 32
  iSize : BitVec 64
  iBlocks : BitVec 64
  iAtime : Timespec
  iCtime : Timespec
  iMtime : Timespec
  iGeneration : BitVec 32
  deriving DecidableEq, Repr

/- The packed `struct xcpfs_inode`. -/
namespace XcpfsInode

def iMode : PackedField := ⟨0,2⟩
def iUid : PackedField := ⟨2,4⟩
def iGid : PackedField := ⟨6,4⟩
def iLinks : PackedField := ⟨10,4⟩
def iSize : PackedField := ⟨14,8⟩
def iBlocks : PackedField := ⟨22,8⟩
def iAtime : PackedField := ⟨30,8⟩
def iCtime : PackedField := ⟨38,8⟩
def iMtime : PackedField := ⟨46,8⟩
def iAtimeNsec : PackedField := ⟨54,4⟩
def iCtimeNsec : PackedField := ⟨58,4⟩
def iMtimeNsec : PackedField := ⟨62,4⟩
def iGeneration : PackedField := ⟨66,4⟩
def iAddr (i : Nat) : PackedField := ⟨70 + 4 * i,4⟩
def iNid (i : Nat) : PackedField := ⟨70 + 4 * defAddrsPerInode + 4 * i,4⟩

end XcpfsInode

/- The struct as its values. -/
def rawInode (page : Memory) : RawInode where
  iMode := getField page XcpfsInode.iMode
  iUid := getField page XcpfsInode.iUid
  iGid := getField page XcpfsInode.iGid
  iLinks := getField page XcpfsInode.iLinks
  iSize := getField page XcpfsInode.iSize
  iBlocks := getField page XcpfsInode.iBlocks
  iAtime := getField page XcpfsInode.iAtime
  iCtime := getField page XcpfsInode.iCtime
  iMtime := getField page XcpfsInode.iMtime
  iAtimeNsec := getField page XcpfsInode.iAtimeNsec
  iCtimeNsec := getField page XcpfsInode.iCtimeNsec
  iMtimeNsec := getField page XcpfsInode.iMtimeNsec
  iGeneration := getField page XcpfsInode.iGeneration

/-- `xcpfs_update_inode_page`, on the bytes of the page. -/
def xcpfsUpdateInodeBytes (inode : KernelInode) (page : Memory) : Memory :=
  let xi := putField page XcpfsInode.iMode inode.iMode.toNat
  let xi := putField xi XcpfsInode.iUid inode.iUid.toNat
  let xi := putField xi XcpfsInode.iGid inode.iGid.toNat
  let xi := putField xi XcpfsInode.iLinks inode.iNlink.toNat
  let xi := putField xi XcpfsInode.iSize inode.iSize.toNat
  let xi := putField xi XcpfsInode.iBlocks inode.iBlocks.toNat
  let xi := putField xi XcpfsInode.iAtime inode.iAtime.tvSec.toNat
  -- `i_ctime` is commented out
  let xi := putField xi XcpfsInode.iMtime inode.iMtime.tvSec.toNat
  let xi := putField xi XcpfsInode.iAtimeNsec inode.iAtime.tvNsec.toNat
  -- and `i_ctime_nsec`
  let xi := putField xi XcpfsInode.iMtimeNsec inode.iMtime.tvNsec.toNat
  putField xi XcpfsInode.iGeneration inode.iGeneration.toNat

def xcpfsFillInode (inode : KernelInode) (ri : RawInode) : KernelInode :=
  { inode with
    iMode := BitVec.ofNat 16 ri.iMode
    iUid := BitVec.ofNat 32 ri.iUid
    iGid := BitVec.ofNat 32 ri.iGid
    iNlink := BitVec.ofNat 32 ri.iLinks
    iSize := BitVec.ofNat 64 ri.iSize
    iAtime := ⟨BitVec.ofNat 64 ri.iAtime,BitVec.ofNat 64 ri.iAtimeNsec⟩
    iCtime := ⟨BitVec.ofNat 64 ri.iCtime,BitVec.ofNat 64 ri.iCtimeNsec⟩
    iMtime := ⟨BitVec.ofNat 64 ri.iMtime,BitVec.ofNat 64 ri.iMtimeNsec⟩
    iGeneration := BitVec.ofNat 32 ri.iGeneration }

/- The values `xcpfs_inode` has for an inode, `ctime` among them. -/
def KernelInode.raw (inode : KernelInode) : RawInode where
  iMode := inode.iMode.toNat
  iUid := inode.iUid.toNat
  iGid := inode.iGid.toNat
  iLinks := inode.iNlink.toNat
  iSize := inode.iSize.toNat
  iBlocks := inode.iBlocks.toNat
  iAtime := inode.iAtime.tvSec.toNat
  iCtime := inode.iCtime.tvSec.toNat
  iMtime := inode.iMtime.tvSec.toNat
  iAtimeNsec := inode.iAtime.tvNsec.toNat % 2 ^ 32
  iCtimeNsec := inode.iCtime.tvNsec.toNat % 2 ^ 32
  iMtimeNsec := inode.iMtime.tvNsec.toNat % 2 ^ 32
  iGeneration := inode.iGeneration.toNat

structure AttrsAgree (inode other : KernelInode) : Prop where
  mode : other.iMode = inode.iMode
  uid : other.iUid = inode.iUid
  gid : other.iGid = inode.iGid
  nlink : other.iNlink = inode.iNlink
  size : other.iSize = inode.iSize
  atime : other.iAtime = inode.iAtime
  ctime : other.iCtime = inode.iCtime
  mtime : other.iMtime = inode.iMtime
  generation : other.iGeneration = inode.iGeneration

structure PointersKept (page written : Memory) : Prop where
  addr : ∀ i < defAddrsPerInode, getField written (XcpfsInode.iAddr i) = getField page (XcpfsInode.iAddr i)
  nid : ∀ i < defNidsPerInode, getField written (XcpfsInode.iNid i) = getField page (XcpfsInode.iNid i)

section
variable {inode other : KernelInode} {page : Memory}

theorem fieldMod {bits bytes : Nat} (x : BitVec bits) (same : 2 ^ bits = 256 ^ bytes) : x.toNat % 256 ^ bytes = x.toNat :=
  Nat.mod_eq_of_lt (same ▸ x.isLt)

/- All of the struct is set from the inode, except `ctime`. -/
theorem updateRaw (inode : KernelInode) (page : Memory) :
    rawInode (xcpfsUpdateInodeBytes inode page) = (rawInode page).updated inode.raw := by
  unfold rawInode xcpfsUpdateInodeBytes RawInode.updated KernelInode.raw
  dsimp only
  simp (disch := decide) only [getPutSame,getPutOther]
  congr 1
  all_goals exact fieldMod _ rfl

theorem updateOutside (inode : KernelInode) (page : Memory) {k : Nat} (after : 70 ≤ k) : xcpfsUpdateInodeBytes inode page k = page k := by
  have past : ∀ {f : PackedField} {m : Memory} {n : Nat}, f.last ≤ 70 → putField m f n k = m k :=
    fun within => putOutside _ _ _ (.inr (within.trans after))
  unfold xcpfsUpdateInodeBytes
  rw [past (by decide),past (by decide),past (by decide),past (by decide),past (by decide),past (by decide),past (by decide),
    past (by decide),past (by decide),past (by decide),past (by decide)]

theorem updatePointers (inode : KernelInode) (page : Memory) : PointersKept page (xcpfsUpdateInodeBytes inode page) where
  addr := by
    intro i inside
    exact decodeLeCongr fun k low high => updateOutside inode page ((Nat.le_add_right 70 (4 * i)).trans low)
  nid := by
    intro i inside
    exact decodeLeCongr fun k low high => updateOutside inode page ((show 70 ≤ 70 + 4 * defAddrsPerInode + 4 * i by omega).trans low)

theorem wordBack {bits : Nat} (x : BitVec bits) : BitVec.ofNat bits x.toNat = x := by simp

theorem nsecBack {x : BitVec 64} : BitVec.ofNat 64 (x.toNat % 2 ^ 32) = x ↔ x.toNat < 2 ^ 32 := by
  rw [← BitVec.toNat_inj,BitVec.toNat_ofNat]
  omega

theorem heldBack {n : Nat} {x : BitVec 64} (below : n < 2 ^ 64) : BitVec.ofNat 64 n = x ↔ n = x.toNat := by
  rw [← BitVec.toNat_inj,BitVec.toNat_ofNat,Nat.mod_eq_of_lt below]

/-- The attributes are read back as they were if and only if the page held the inode's `ctime`
before and no nanoseconds reach 2^32. The pointers are kept in any case. -/
theorem updateFillAgrees : (AttrsAgree inode (xcpfsFillInode other (rawInode (xcpfsUpdateInodeBytes inode page))) ∧
      PointersKept page (xcpfsUpdateInodeBytes inode page)) ↔
    (getField page XcpfsInode.iCtime = inode.iCtime.tvSec.toNat ∧ getField page XcpfsInode.iCtimeNsec = inode.iCtime.tvNsec.toNat) ∧
      inode.iAtime.tvNsec.toNat < 2 ^ 32 ∧ inode.iMtime.tvNsec.toNat < 2 ^ 32 := by
  rw [updateRaw]
  have secs : getField page XcpfsInode.iCtime < 2 ^ 64 := getFieldBelow page XcpfsInode.iCtime
  have nsecs : getField page XcpfsInode.iCtimeNsec < 2 ^ 64 := (getFieldBelow page XcpfsInode.iCtimeNsec).trans (by decide)
  constructor
  · intro ⟨agree,_⟩
    have ctime := Timespec.mk.inj agree.ctime
    have atime := Timespec.mk.inj agree.atime
    have mtime := Timespec.mk.inj agree.mtime
    exact ⟨⟨(heldBack secs).mp ctime.1,(heldBack nsecs).mp ctime.2⟩,nsecBack.mp atime.2,nsecBack.mp mtime.2⟩
  · intro ⟨held,atime,mtime⟩
    refine ⟨?_,updatePointers inode page⟩
    constructor
    · exact wordBack inode.iMode
    · exact wordBack inode.iUid
    · exact wordBack inode.iGid
    · exact wordBack inode.iNlink
    · exact wordBack inode.iSize
    · exact congrArg₂ Timespec.mk (wordBack inode.iAtime.tvSec) (nsecBack.mpr atime)
    · exact congrArg₂ Timespec.mk ((heldBack secs).mpr held.1) ((heldBack nsecs).mpr held.2)
    · exact congrArg₂ Timespec.mk (wordBack inode.iMtime.tvSec) (nsecBack.mpr mtime)
    · exact wordBack inode.iGeneration

end

/- A file made at second 1700000000, and the blank page its node starts from. -/
def madeInode : KernelInode where
  iMode := 0x81a4
  iUid := 1000
  iGid := 1000
  iNlink := 1
  iSize := 0
  iBlocks := 0
  iAtime := ⟨1700000000,5⟩
  iCtime := ⟨1700000000,5⟩
  iMtime := ⟨1700000000,5⟩
  iGeneration := 0

/-- Its change time comes back as second 0. -/
theorem ctimeLost : (xcpfsFillInode madeInode (rawInode (xcpfsUpdateInodeBytes madeInode fun _ => 0))).iCtime = ⟨0,0⟩ ∧
    ¬AttrsAgree madeInode (xcpfsFillInode madeInode (rawInode (xcpfsUpdateInodeBytes madeInode fun _ => 0))) := by
  have lost : (xcpfsFillInode madeInode (rawInode (xcpfsUpdateInodeBytes madeInode fun _ => 0))).iCtime = ⟨0,0⟩ := by
    rw [updateRaw]
    decide
  exact ⟨lost,fun agree => absurd (lost.symm.trans agree.ctime) (by decide)⟩

end Xcpfs
