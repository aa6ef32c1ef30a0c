import Xcpfs.DirMap
import Xcpfs.MetaRuns
import Xcpfs.MountSuper

/-! mkfs.c and the mount of what it leaves: the superblock, the two inodes and the directory pages
as bytes on the zones of the namespace, and what `xcpfs_fill_super` makes of them. -/
namespace Xcpfs
open CBytes

/- The zoned namespace behind `libnvme`: whether it takes a command for a zone, an append among them
by the blocks the zone already has. -/
structure ZnsNamespace where
  manages : Nat → Bool
  accepts : Nat → Nat → Bool
  written : Nat → Nat
  block : Nat → Memory

def zone2zslba (zoneid : Nat) : Nat := zoneid * 8 * 1024 / 4

namespace ZnsNamespace

/-- `zone_append` with the block that it puts at `result`. -/
def zoneAppend (zoneid : Nat) (page : Memory) (dev : ZnsNamespace) : Option (ZnsNamespace × Nat) :=
  if dev.accepts zoneid (dev.written zoneid) then
    let lba := zone2zslba zoneid + dev.written zoneid
    some ({ dev with written := Function.update dev.written zoneid (dev.written zoneid + 1), block := Function.update dev.block lba page },lba)
  else none

end ZnsNamespace

/- `alloc_page` is zeroed. -/
def allocPage : Memory := fun _ => 0

/- Modes of `linux/stat.h`. -/
def sIfdir : Nat := 0x4000
def sIfreg : Nat := 0x8000
def sIrwxu : Nat := 0x1c0
def sIrgrp : Nat := 0x20
def sIxgrp : Nat := 0x8
def sIroth : Nat := 0x4
def sIxoth : Nat := 0x1

/- An entry in the page it is appended from, which is used for both names. -/
def putDentry (page : Memory) (ino : Nat) (name : List UInt8) : Memory :=
  let page := store page dentryIno (encode32 ino)
  let page := store page dentryNamelen (encode32 name.length)
  strcpy page 0 name

def mkfsRootPage (dot dotdot : Nat) : Memory :=
  let root := putField allocPage XcpfsInode.iMode (sIfdir ||| sIrwxu ||| (sIrgrp ||| sIxgrp) ||| (sIroth ||| sIxoth))
  let root := putField root XcpfsInode.iSize (2 * pageSize)
  let root := putField root XcpfsInode.iBlocks 2
  let root := putField root XcpfsInode.iMtime 0
  let root := putField root XcpfsInode.iCtime 0
  let root := putField root XcpfsInode.iAtime 0
  let root := putField root XcpfsInode.iGid 1000
  let root := putField root XcpfsInode.iUid 1000
  let root := putField root XcpfsInode.iLinks 2
  let root := putField root (XcpfsInode.iAddr 0) dot
  putField root (XcpfsInode.iAddr 1) dotdot

def mkfsMetaPage : Memory :=
  let inode := putField allocPage XcpfsInode.iMode (sIfreg ||| sIrwxu)
  let inode := putField inode XcpfsInode.iSize 0
  let inode := putField inode XcpfsInode.iBlocks 0
  let inode := putField inode XcpfsInode.iGid 1000
  let inode := putField inode XcpfsInode.iUid 1000
  putField inode XcpfsInode.iLinks 1

namespace ZnsNamespace

/-- `init_root`; a refused command is -1. -/
def initRoot (dev : ZnsNamespace) : ZnsNamespace × Int :=
  if dev.manages 6 = false then (dev,-1)
  else match dev.zoneAppend 6 (putDentry allocPage 3 [46]) with
    | none => (dev,-1)
    | some (dev,dot) => match dev.zoneAppend 6 (putDentry (putDentry allocPage 3 [46]) 3 [46,46]) with
      | none => (dev,-1)
      | some (dev,dotdot) =>
        if dev.manages 5 = false then (dev,-1)
        else match dev.zoneAppend 5 (mkfsRootPage dot dotdot) with
          | none => (dev,-1)
          | some (dev,lba) => (dev,lba)

def initMeta (dev : ZnsNamespace) : ZnsNamespace × Int :=
  if dev.manages 3 = false then (dev,-1)
  else match dev.zoneAppend 3 mkfsMetaPage with
    | none => (dev,-1)
    | some (dev,lba) => (dev,lba)

end ZnsNamespace

/- An `int` in a 32-bit field. -/
def word32 (x : Int) : Nat := (x % 2 ^ 32).toNat

def mkfsPage (root metaLba : Int) : Memory :=
  let sb := putField allocPage XcpfsSuperBlock.magic xcpfsMagic
  let sb := putField sb XcpfsSuperBlock.metaIno 1
  let sb := putField sb XcpfsSuperBlock.nodeIno 2
  let sb := putField sb XcpfsSuperBlock.rootIno 3
  let sb := putField sb XcpfsSuperBlock.natPageCount 1
  let sb := putField sb XcpfsSuperBlock.zitPageCount 1
  let sb := putField sb XcpfsSuperBlock.ssaPageCount 1
  let sb := putField sb XcpfsSuperBlock.metaNatCnt 2
  let sb := putField sb (XcpfsSuperBlock.nid 0) 3
  let sb := putField sb (XcpfsSuperBlock.ino 0) 3
  let sb := putField sb (XcpfsSuperBlock.blockAddr 0) (word32 root)
  let sb := putField sb (XcpfsSuperBlock.nid 1) 1
  let sb := putField sb (XcpfsSuperBlock.ino 1) 1
  putField sb (XcpfsSuperBlock.blockAddr 1) (word32 metaLba)

/-- `main`, which exits with 0 whatever it was answered. -/
def ZnsNamespace.mkfs (dev : ZnsNamespace) : ZnsNamespace :=
  let (dev,root) := dev.initRoot
  let (dev,metaLba) := dev.initMeta
  match dev.zoneAppend 0 (mkfsPage root metaLba) with
  | none => dev
  | some (dev,_) => dev

/- The pointers of an inode page. -/
def inodePointers (page : Memory) : NodePage where
  iAddr i := if i < defAddrsPerInode then getField page (XcpfsInode.iAddr i) else 0
  iNid i := if i < defNidsPerInode then getField page (XcpfsInode.iNid i) else 0
  slot _ := 0

section
variable {dot dotdot : Nat} {root metaLba : Int}

theorem mkfsCount (root metaLba : Int) : getField (mkfsPage root metaLba) XcpfsSuperBlock.metaNatCnt = 2 := by
  simp (disch := decide) only [mkfsPage,getPutOther,getPutSame]
  rfl

theorem mkfsMagic (root metaLba : Int) : getField (mkfsPage root metaLba) XcpfsSuperBlock.magic = xcpfsMagic := by
  simp (disch := decide) only [mkfsPage,getPutOther,getPutSame]
  rfl

theorem mkfsSuperCounts (root metaLba : Int) : superCounts (mkfsPage root metaLba) = mkfsCounts := by
  simp (disch := decide) only [superCounts,mkfsPage,getPutOther,getPutSame]
  rfl

theorem mkfsNats (root metaLba : Int) : (readSuperPage (mkfsPage root metaLba)).1.nm =
    xcpfsReadNats [⟨3,3,word32 root⟩,⟨1,1,word32 metaLba⟩] := by
  unfold readSuperPage
  rw [if_neg fun wrong => wrong (mkfsMagic root metaLba),mkfsCount,(readEntries (mkfsPage root metaLba) _ _).1]
  have small : ∀ x, word32 x % 256 ^ 4 = word32 x := by
    intro x
    unfold word32
    omega
  have first : metaNatOf (mkfsPage root metaLba) 0 = ⟨3,3,word32 root⟩ := by
    simp (disch := decide) only [metaNatOf,mkfsPage,getPutOther,getPutSame]
    exact congrArg (MetaNat.mk 3 3) (small root)
  have second : metaNatOf (mkfsPage root metaLba) 1 = ⟨1,1,word32 metaLba⟩ := by
    simp (disch := decide) only [metaNatOf,mkfsPage,getPutOther,getPutSame]
    exact congrArg (MetaNat.mk 1 1) (small metaLba)
  exact congrArg₂ (fun a b => xcpfsReadNats [a,b]) first second

/- The attributes of the root directory and of the meta file. -/
def mkfsRootInode : KernelInode := ⟨0x41ed,1000,1000,2,8192,0,⟨0,0⟩,⟨0,0⟩,⟨0,0⟩,0⟩
def mkfsMetaInode : KernelInode := ⟨0x81c0,1000,1000,1,0,0,⟨0,0⟩,⟨0,0⟩,⟨0,0⟩,0⟩

theorem mkfsRootRaw (dot dotdot : Nat) : rawInode (mkfsRootPage dot dotdot) = { mkfsRootInode.raw with iBlocks := 2 } := by
  simp (disch := decide) only [rawInode,mkfsRootPage,getPutOther,getPutSame]
  rfl

theorem mkfsMetaRaw : rawInode mkfsMetaPage = mkfsMetaInode.raw := by
  simp (disch := decide) only [rawInode,mkfsMetaPage,getPutOther,getPutSame]
  rfl

theorem putBehind {page : Memory} {f g : PackedField} {n : Nat} (behind : f.last ≤ g.offset) :
    getField (putField page f n) g = getField page g := getPutOther _ _ _ (.inl behind)

theorem blankField (f : PackedField) : getField allocPage f = 0 := by
  have zeros : ∀ width base, decodeLe allocPage base width = 0 := by
    intro width
    induction width with
    | zero => exact fun _ => rfl
    | succ width ih =>
      intro base
      unfold decodeLe
      rw [ih]
      rfl
  exact zeros _ _

theorem mkfsRootBehind (dot dotdot : Nat) {f : PackedField} (behind : 78 ≤ f.offset) : getField (mkfsRootPage dot dotdot) f = 0 := by
  unfold mkfsRootPage
  dsimp only
  rw [putBehind,putBehind,putBehind,putBehind,putBehind,putBehind,putBehind,putBehind,putBehind,putBehind,putBehind,blankField]
  all_goals exact le_trans (by decide) behind

theorem mkfsMetaBehind {f : PackedField} (behind : 70 ≤ f.offset) : getField mkfsMetaPage f = 0 := by
  unfold mkfsMetaPage
  dsimp only
  rw [putBehind,putBehind,putBehind,putBehind,putBehind,putBehind,blankField]
  all_goals exact le_trans (by decide) behind

theorem mkfsRootPointers (low : dot < 2 ^ 32) (lowToo : dotdot < 2 ^ 32) :
    inodePointers (mkfsRootPage dot dotdot) = (NodePage.zero.setAddr 0 dot).setAddr 1 dotdot := by
  have first : getField (mkfsRootPage dot dotdot) (XcpfsInode.iAddr 0) = dot := by
    simp (disch := decide) only [mkfsRootPage,getPutOther,getPutSame]
    exact Nat.mod_eq_of_lt low
  have second : getField (mkfsRootPage dot dotdot) (XcpfsInode.iAddr 1) = dotdot := by
    simp (disch := decide) only [mkfsRootPage,getPutSame]
    exact Nat.mod_eq_of_lt lowToo
  have addr : (fun i => if i < defAddrsPerInode then getField (mkfsRootPage dot dotdot) (XcpfsInode.iAddr i) else 0) =
      Function.update (Function.update (fun _ => 0) 0 dot) 1 dotdot := by
    funext i
    rw [Function.update_apply,Function.update_apply]
    split
    · by_cases one : i = 1
      · rw [one,second,if_pos rfl]
      · by_cases zero : i = 0
        · rw [zero,first,if_neg (by decide),if_pos rfl]
        · rw [if_neg one,if_neg zero]
          exact mkfsRootBehind dot dotdot (show 78 ≤ 70 + 4 * i by omega)
    · rename_i high
      have many : 1 < defAddrsPerInode := by decide
      rw [if_neg (by omega),if_neg (by omega)]
  have nid : (fun i => if i < defNidsPerInode then getField (mkfsRootPage dot dotdot) (XcpfsInode.iNid i) else 0) = fun _ => 0 := by
    funext i
    split
    · exact mkfsRootBehind dot dotdot (show 78 ≤ 70 + 4 * 900 + 4 * i by omega)
    · rfl
  unfold inodePointers
  rw [addr,nid]
  rfl

theorem mkfsMetaPointers : inodePointers mkfsMetaPage = .zero := by
  have addr : (fun i => if i < defAddrsPerInode then getField mkfsMetaPage (XcpfsInode.iAddr i) else 0) = fun _ => 0 := by
    funext i
    split
    · exact mkfsMetaBehind (Nat.le_add_right 70 (4 * i))
    · rfl
  have nid : (fun i => if i < defNidsPerInode then getField mkfsMetaPage (XcpfsInode.iNid i) else 0) = fun _ => 0 := by
    funext i
    split
    · exact mkfsMetaBehind (show 70 ≤ 70 + 4 * 900 + 4 * i by omega)
    · rfl
  unfold inodePointers
  rw [addr,nid]
  rfl

theorem wordBehind {m : Memory} {base n k : Nat} (behind : base + 4 ≤ k) : store m base (encode32 n) k = m k :=
  storeOutside (.inr behind)

theorem nameBehind {m : Memory} {name : List UInt8} {k : Nat} (short : name.length < 256) (behind : 264 ≤ k) : strcpy m 0 name k = m k := by
  refine storeOutside (.inr ?_)
  rw [List.length_append,List.length_singleton]
  omega

theorem dentryBehind (page : Memory) (ino : Nat) {name : List UInt8} {k : Nat} (short : name.length < 256) (behind : 264 ≤ k) :
    putDentry page ino name k = page k := by
  have past : dentryIno + 4 ≤ k := le_trans (by decide) behind
  exact (nameBehind short behind).trans ((@wordBehind _ dentryNamelen _ _ behind).trans (wordBehind past))

theorem dotBehind (ino : Nat) {name : List UInt8} {k : Nat} (short : name.length < 256) (behind : 264 ≤ k) : dotPage ino name k = 0 := by
  have past : dentryIno + 4 ≤ k := le_trans (by decide) behind
  exact (@wordBehind _ dentryNamelen _ _ behind).trans ((nameBehind short behind).trans (wordBehind past))

/- The pages of a directory that `xcpfs_init_dir` made. -/
theorem mkfsDot : putDentry allocPage 3 [46] = dotPage 3 [46] := by
  have front : ∀ k < 264, putDentry allocPage 3 [46] k = dotPage 3 [46] k := by decide +kernel
  funext k
  by_cases inside : k < 264
  · exact front k inside
  · rw [dentryBehind _ _ (by decide) (Nat.not_lt.mp inside),dotBehind _ (by decide) (Nat.not_lt.mp inside)]
    rfl

theorem mkfsDotDot : putDentry (putDentry allocPage 3 [46]) 3 [46,46] = dotPage 3 [46,46] := by
  have front : ∀ k < 264, putDentry (putDentry allocPage 3 [46]) 3 [46,46] k = dotPage 3 [46,46] k := by decide +kernel
  funext k
  by_cases inside : k < 264
  · exact front k inside
  · have behind := Nat.not_lt.mp inside
    rw [dentryBehind _ _ (by decide) behind,dentryBehind _ _ (by decide) behind,dotBehind _ (by decide) behind]
    rfl

end

/- What a successful `main` leaves behind, on zones that may have had blocks before. -/
structure MkfsImage (dev made : ZnsNamespace) (root metaLba dot dotdot : Nat) : Prop where
  super : made.written 0 = dev.written 0 + 1 ∧ made.block (zone2zslba 0 + dev.written 0) = mkfsPage root metaLba
  root : made.block root = mkfsRootPage dot dotdot
  metaInode : made.block metaLba = mkfsMetaPage
  dot : made.block dot = dotPage 3 [46]
  dotdot : made.block dotdot = dotPage 3 [46,46]

/- The commands of `main` are taken, and an append stays in its zone. -/
structure ZnsNamespace.Obeys (dev : ZnsNamespace) : Prop where
  manages : ∀ zoneid ∈ [3,5,6], dev.manages zoneid = true
  accepts : ∀ zoneid ∈ [0,3,5,6], dev.accepts zoneid (dev.written zoneid) = true
  twice : dev.accepts 6 (dev.written 6 + 1) = true
  inside : ∀ zoneid n, dev.accepts zoneid n = true → n < zone2zslba 1

def ZnsNamespace.appended (zoneid : Nat) (page : Memory) (dev : ZnsNamespace) : ZnsNamespace :=
  { dev with
    written := Function.update dev.written zoneid (dev.written zoneid + 1)
    block := Function.update dev.block (zone2zslba zoneid + dev.written zoneid) page }

theorem appendTaken {dev : ZnsNamespace} {zoneid : Nat} {page : Memory} (accepts : dev.accepts zoneid (dev.written zoneid) = true) :
    dev.zoneAppend zoneid page = some (dev.appended zoneid page,zone2zslba zoneid + dev.written zoneid) := if_pos accepts

theorem appendedAt (dev : ZnsNamespace) (zoneid : Nat) (page : Memory) :
    (dev.appended zoneid page).block (zone2zslba zoneid + dev.written zoneid) = page := Function.update_self ..

theorem appendedApart {dev : ZnsNamespace} {zoneid a : Nat} {page : Memory} (other : a ≠ zone2zslba zoneid + dev.written zoneid) :
    (dev.appended zoneid page).block a = dev.block a := Function.update_of_ne other ..

theorem appendedSelf (dev : ZnsNamespace) (zoneid : Nat) (page : Memory) :
    (dev.appended zoneid page).written zoneid = dev.written zoneid + 1 := Function.update_self ..

theorem appendedElsewhere {dev : ZnsNamespace} {zoneid other : Nat} {page : Memory} (differ : other ≠ zoneid) :
    (dev.appended zoneid page).written other = dev.written other := Function.update_of_ne differ ..

theorem appendedManages (dev : ZnsNamespace) (zoneid : Nat) (page : Memory) : (dev.appended zoneid page).manages = dev.manages := rfl

/- The namespace when `init_root` is done. -/
def ZnsNamespace.rooted (dev : ZnsNamespace) : ZnsNamespace :=
  ((dev.appended 6 (dotPage 3 [46])).appended 6 (dotPage 3 [46,46])).appended 5
    (mkfsRootPage (zone2zslba 6 + dev.written 6) (zone2zslba 6 + (dev.written 6 + 1)))

theorem initRootRuns {dev : ZnsNamespace} (obeys : dev.Obeys) : dev.initRoot = (dev.rooted,((zone2zslba 5 + dev.written 5 : Nat) : Int)) := by
  have other : (5 : Nat) ≠ 6 := by decide
  have opens : ∀ zoneid ∈ [3,5,6], ¬dev.manages zoneid = false := fun zoneid member => ne_false_of_eq_true (obeys.manages zoneid member)
  unfold ZnsNamespace.initRoot
  rw [mkfsDotDot,mkfsDot,if_neg (opens 6 (by decide)),appendTaken (obeys.accepts 6 (by decide))]
  dsimp only
  rw [appendTaken (by rw [appendedSelf]; exact obeys.twice)]
  dsimp only
  rw [appendedManages,appendedManages,if_neg (opens 5 (by decide)),
    appendTaken (by rw [appendedElsewhere other,appendedElsewhere other]; exact obeys.accepts 5 (by decide)),appendedElsewhere other,
    appendedElsewhere other,appendedSelf]
  rfl

theorem rootedElsewhere {dev : ZnsNamespace} {zoneid : Nat} (five : zoneid ≠ 5) (six : zoneid ≠ 6) :
    dev.rooted.written zoneid = dev.written zoneid := by
  unfold ZnsNamespace.rooted
  rw [appendedElsewhere five,appendedElsewhere six,appendedElsewhere six]

theorem mkfsRuns {dev : ZnsNamespace} (obeys : dev.Obeys) : dev.mkfs = (dev.rooted.appended 3 mkfsMetaPage).appended 0
    (mkfsPage ((zone2zslba 5 + dev.written 5 : Nat) : Int) ((zone2zslba 3 + dev.written 3 : Nat) : Int)) := by
  have opens : ¬dev.manages 3 = false := ne_false_of_eq_true (obeys.manages 3 (by decide))
  have third : dev.rooted.written 3 = dev.written 3 := rootedElsewhere (by decide) (by decide)
  have first : dev.rooted.written 0 = dev.written 0 := rootedElsewhere (by decide) (by decide)
  have metaRuns : dev.rooted.initMeta = (dev.rooted.appended 3 mkfsMetaPage,((zone2zslba 3 + dev.written 3 : Nat) : Int)) := by
    unfold ZnsNamespace.initMeta
    rw [show dev.rooted.manages = dev.manages from rfl,if_neg opens,appendTaken (by rw [third]; exact obeys.accepts 3 (by decide)),third]
  unfold ZnsNamespace.mkfs
  rw [initRootRuns obeys]
  dsimp only
  rw [metaRuns]
  dsimp only
  rw [appendTaken (by rw [appendedElsewhere (show (0 : Nat) ≠ 3 by decide),first]; exact obeys.accepts 0 (by decide))]

theorem mkfsMakes {dev : ZnsNamespace} (obeys : dev.Obeys) :
    MkfsImage dev dev.mkfs (zone2zslba 5 + dev.written 5) (zone2zslba 3 + dev.written 3) (zone2zslba 6 + dev.written 6)
      (zone2zslba 6 + (dev.written 6 + 1)) := by
  have size : zone2zslba 1 = 2048 := rfl
  have base : zone2zslba 0 = 0 ∧ zone2zslba 3 = 6144 ∧ zone2zslba 5 = 10240 ∧ zone2zslba 6 = 12288 := ⟨rfl,rfl,rfl,rfl⟩
  obtain ⟨zero,three,five,six⟩ := base
  have in0 := obeys.inside 0 _ (obeys.accepts 0 (by decide))
  have in3 := obeys.inside 3 _ (obeys.accepts 3 (by decide))
  have in5 := obeys.inside 5 _ (obeys.accepts 5 (by decide))
  have in6 := obeys.inside 6 _ obeys.twice
  rw [size] at in0 in3 in5 in6
  have w3 : dev.rooted.written 3 = dev.written 3 := rootedElsewhere (by decide) (by decide)
  have w0 : (dev.rooted.appended 3 mkfsMetaPage).written 0 = dev.written 0 :=
    (appendedElsewhere (by decide)).trans (rootedElsewhere (by decide) (by decide))
  rw [mkfsRuns obeys]
  have behind : ∀ a, a ≠ zone2zslba 0 + dev.written 0 → ∀ page,
      ((dev.rooted.appended 3 mkfsMetaPage).appended 0 page).block a = (dev.rooted.appended 3 mkfsMetaPage).block a :=
    fun a other page => appendedApart (by rw [w0]; exact other)
  have before : ∀ a, a ≠ zone2zslba 3 + dev.written 3 → (dev.rooted.appended 3 mkfsMetaPage).block a = dev.rooted.block a :=
    fun a other => appendedApart (by rw [w3]; exact other)
  have root : (((dev.appended 6 (dotPage 3 [46])).appended 6 (dotPage 3 [46,46]))).written 5 = dev.written 5 :=
    (appendedElsewhere (by decide)).trans (appendedElsewhere (by decide))
  have again := appendedSelf dev 6 (dotPage 3 [46])
  refine ⟨⟨?_,?_⟩,?_,?_,?_,?_⟩
  · rw [appendedSelf,w0]
  · rw [← w0]
    exact appendedAt ..
  · rw [behind _ (by omega),before _ (by omega),← root]
    exact appendedAt ..
  · rw [behind _ (by omega),← w3]
    exact appendedAt ..
  · rw [behind _ (by omega),before _ (by omega)]
    unfold ZnsNamespace.rooted
    rw [appendedApart (by rw [root]; omega),appendedApart (by rw [again]; omega)]
    exact appendedAt ..
  · rw [behind _ (by omega),before _ (by omega)]
    unfold ZnsNamespace.rooted
    rw [appendedApart (by rw [root]; omega),← again]
    exact appendedAt ..

/- A mount of the namespace: its reads and its report of the first two zones, over memory whose
counters of listed zones read as zero; it has a slot for each zone that the report calls open or
active. There is no block of the ZIT yet. -/
structure MountsOn (env : MountEnv) (dev : ZnsNamespace) : Prop where
  grab : ∀ block : Nat, env.grab block = some (dev.block block)
  zones : env.raw.nrZones = env.bdev.nrZones
  used : (env.bdev.zones 0).cond ≠ .empty ∧ (env.bdev.zones 0).wp = dev.written 0 * 2 ^ pageSectorsShift
  spare : (env.bdev.zones 1).cond = .empty
  node : ∀ block page nid ne, dev.block block = page → (readSuperPage page).1.nm.lookup nid = some ne → dev.written 0 = block + 1 →
    env.nodeRead nid = .page (dev.block ne.blockAddr) .ok
  sbInfo : env.sbInfo = true
  inodeAlloc : ∀ call, env.inodeAlloc call = true
  many : 6 < env.bdev.nrZones
  opened : env.raw.zoneOpenedCount = 0 ∧ (openZones env.bdev env.bdev.nrZones).length ≤ env.raw.zoneOpened.length
  active : env.raw.zoneActiveCount = 0 ∧ (activeZones env.bdev env.bdev.nrZones).length ≤ env.raw.zoneActive.length
  zit : ∀ b, env.zitPage b = none

section
variable {env : MountEnv} {dev : ZnsNamespace} {zm : ZmInfo} {n : Nat}

theorem tableLoads (mounts : MountsOn env dev) :
    ∃ zm last, env.zoneTable = some zm ∧ xcpfsGetZitPages env.kmalloc env.zitPage zm = some last := by
  obtain ⟨firstOpened,roomOpened⟩ := mounts.opened
  obtain ⟨firstActive,roomActive⟩ := mounts.active
  obtain ⟨made,init⟩ : ∃ made, xcpfsInitZmInfo env.raw env.bdev = some made :=
    initRuns firstOpened.ge firstActive.ge (by rw [firstOpened]; omega) (by rw [firstActive]; omega)
  obtain ⟨reported,report,same⟩ := initOver init
  have many : 6 < made.nrZones := by
    have zones : made.nrZones = reported.nrZones := by rw [same]
    rw [zones,report.nrZones,mounts.zones]
    exact mounts.many
  have table : env.zoneTable = some (((made.typeZone 3 .metaNode).typeZone 5 .regNode).typeZone 6 .regData) := by
    unfold MountEnv.zoneTable
    rw [init,Option.bind_some,if_pos many]
  refine ⟨_,_,table,(getPagesFlat ..).trans (stepsIdle _ _ (fun zone zm _ _ => ?_) _)⟩
  unfold getPageZone
  rw [mounts.zit]

theorem superBlockLast (mounts : MountsOn env dev) (table : env.zoneTable = some zm) (last : dev.written 0 = n + 1)
    (small : n < 2 ^ 28) : superBlock zm = n := by
  obtain ⟨made,init,typed⟩ := Option.bind_eq_some_iff.mp table
  obtain ⟨reported,report,same⟩ := initOver init
  split at typed
  · rename_i many
    have info : ∀ zone < 2, (zm.zoneInfo zone).cond = (env.bdev.zones zone).cond ∧ (zm.zoneInfo zone).wp = (env.bdev.zones zone).wp := by
      intro zone low
      have count : zone < env.bdev.nrZones := by
        rw [← mounts.zones,← report.nrZones]
        have total : made.nrZones = reported.nrZones := by rw [same]
        omega
      have plain : made.zoneInfo zone = reported.zoneInfo zone := by rw [same]
      rw [← Option.some.inj typed,typedZones,plain,report.zoneInfo,if_pos count]
      exact ⟨rfl,rfl⟩
    obtain ⟨cond0,wp0⟩ := info 0 (by decide)
    obtain ⟨cond1,_⟩ := info 1 (by decide)
    unfold superBlock pickSuperZone
    rw [cond0,cond1,if_neg mounts.used.1,if_pos mounts.spare]
    dsimp only
    rw [wp0,mounts.used.2,last]
    have sector : ((n + 1) * 2 ^ pageSectorsShift + 2 ^ 64 - 1) % 2 ^ 64 = n * 8 + 7 := by
      change ((n + 1) * 8 + 2 ^ 64 - 1) % 2 ^ 64 = _
      omega
    rw [sector]
    unfold sectorToBlock
    have block : (n * 8 + 7) / 2 ^ pageSectorsShift = n := by
      change (n * 8 + 7) / 8 = n
      omega
    rw [block]
    exact toInt32Small (by omega) (by omega)
  · contradiction

theorem igetFills {s : FillState} {call ino : Nat} {content : Memory} (unknown : s.inodes ino = none)
    (alloc : env.inodeAlloc call = true) (other : ino ≠ nodeIno) (read : s.getNodePage env ino = .page content .ok) :
    s.xcpfsIget env call ino = some (s.hash ino (xcpfsFillInode FillState.newInode (rawInode content)),.inode ino) := by
  unfold FillState.xcpfsIget
  rw [unknown]
  dsimp only
  rw [if_neg (ne_false_of_eq_true alloc),if_neg other,read]

/- The inodes of a mount, read from the pages of the meta file's and the root's node. -/
def mountedInodes (metaPage rootPage : Memory) : Nat → Option KernelInode :=
  Function.update (Function.update (Function.update (fun _ => none) nodeIno (some FillState.newInode)) metaIno
    (some (xcpfsFillInode FillState.newInode (rawInode metaPage)))) rootIno (some (xcpfsFillInode FillState.newInode (rawInode rootPage)))

theorem fillRuns {page metaPage rootPage : Memory} {last : ZmInfo} (mounts : MountsOn env dev) (table : env.zoneTable = some zm)
    (grabbed : env.grab (superBlock zm) = some page) (magic : getField page XcpfsSuperBlock.magic = xcpfsMagic)
    (counts : superCounts page = mkfsCounts) {ne : NatEntry} (listed : (readSuperPage page).1.nm.lookup metaIno = some ne)
    (metaRead : env.nodeRead metaIno = .page metaPage .ok) (rootRead : env.nodeRead rootIno = .page rootPage .ok)
    (zit : xcpfsGetZitPages env.kmalloc env.zitPage zm = some last) :
    xcpfsFillSuper env = some (some ⟨last,mkfsCounts,(readSuperPage page).1.nm,.inode nodeIno,.inode metaIno,.inode rootIno,
      mountedInodes metaPage rootPage⟩,0) := by
  have loaded : ((FillState.fresh zm).readSuper env).1 = ⟨zm,mkfsCounts,(readSuperPage page).1.nm,.null,.null,.null,fun _ => none⟩ := by
    obtain ⟨_,wrong⟩ | ⟨found,here,_,parsed⟩ := @readSuperCases env zm
    · exact absurd magic (wrong page grabbed)
    · cases Option.some.inj (here.symm.trans grabbed)
      rw [parsed,← counts]
      rfl
  -- the three calls of `xcpfs_iget`, each on the state of the one before
  have node : FillState.xcpfsIget env 0 nodeIno ⟨zm,mkfsCounts,(readSuperPage page).1.nm,.null,.null,.null,fun _ => none⟩ =
      some (FillState.hash ⟨zm,mkfsCounts,(readSuperPage page).1.nm,.null,.null,.null,fun _ => none⟩ nodeIno FillState.newInode,
        .inode nodeIno) := by
    unfold FillState.xcpfsIget
    dsimp only
    rw [if_neg (ne_false_of_eq_true (mounts.inodeAlloc 0)),if_pos rfl]
  obtain ⟨s1,first⟩ : ∃ s1 : FillState, s1 = ⟨zm,mkfsCounts,(readSuperPage page).1.nm,.inode nodeIno,.null,.null,
    Function.update (fun _ => none) nodeIno (some FillState.newInode)⟩ := ⟨_,rfl⟩
  have metaFile : s1.xcpfsIget env 1 metaIno =
      some (s1.hash metaIno (xcpfsFillInode FillState.newInode (rawInode metaPage)),.inode metaIno) := by
    refine igetFills ?_ (mounts.inodeAlloc 1) (by decide) ?_
    · rw [first]
      rfl
    · rw [first]
      unfold FillState.getNodePage
      dsimp only
      rw [listed]
      exact metaRead
  obtain ⟨s2,second⟩ : ∃ s2 : FillState, s2 = { s1.hash metaIno (xcpfsFillInode FillState.newInode (rawInode metaPage)) with
    metaInode := .inode metaIno } := ⟨_,rfl⟩
  have root : s2.xcpfsIget env 2 rootIno =
      some (s2.hash rootIno (xcpfsFillInode FillState.newInode (rawInode rootPage)),.inode rootIno) := by
    refine igetFills ?_ (mounts.inodeAlloc 2) (by decide) ?_
    · rw [second,first]
      rfl
    · rw [second,first]
      unfold FillState.getNodePage FillState.hash
      dsimp only
      cases (readSuperPage page).1.nm.lookup rootIno <;> exact rootRead
  have rest : FillState.igetRoot env s2 = some (⟨last,mkfsCounts,(readSuperPage page).1.nm,.inode nodeIno,.inode metaIno,.inode rootIno,
      mountedInodes metaPage rootPage⟩,0) := by
    have number : s2.sbi.rootIno = rootIno := by rw [second,first]; rfl
    unfold FillState.igetRoot
    rw [number,root,Option.bind_some]
    dsimp only
    rw [if_neg (by simp),second,first]
    unfold FillState.finish FillState.hash
    dsimp only
    rw [zit]
    rfl
  have later : FillState.igetMeta env s1 = some (⟨last,mkfsCounts,(readSuperPage page).1.nm,.inode nodeIno,.inode metaIno,.inode rootIno,
      mountedInodes metaPage rootPage⟩,0) := by
    have number : s1.sbi.metaIno = metaIno := by rw [first]; rfl
    unfold FillState.igetMeta
    rw [number,metaFile,Option.bind_some]
    dsimp only
    rw [if_neg (by simp),← second]
    exact rest
  have all : FillState.igetNode env ⟨zm,mkfsCounts,(readSuperPage page).1.nm,.null,.null,.null,fun _ => none⟩ =
      some (⟨last,mkfsCounts,(readSuperPage page).1.nm,.inode nodeIno,.inode metaIno,.inode rootIno,mountedInodes metaPage rootPage⟩,0) := by
    unfold FillState.igetNode
    refine (congrArg (Option.bind · _) node).trans ?_
    rw [Option.bind_some]
    dsimp only
    rw [if_neg (by simp),← later,first]
    rfl
  unfold xcpfsFillSuper
  rw [if_neg (ne_false_of_eq_true mounts.sbInfo),table,Option.bind_some,loaded,all]
  rfl

theorem wordSmall {n : Nat} (small : n < 2 ^ 32) : word32 (n : Int) = n := by
  unfold word32
  omega

theorem slotLookup {nm : NatInfo} {nid : Nat} {ne : NatEntry} (slot : nm.slot nid = some (true,ne)) : nm.lookup nid = some ne := by
  unfold NatInfo.lookup
  rw [slotListed.mp slot]
  rfl

/-- A mount of what `mkfs` leaves on a namespace that takes its commands and whose zone 1 is empty
returns 0. Its NAT, the node pages of its two inodes, their attributes and the pages of its root
directory are those of an empty file system, wherever in their zones the blocks went. -/
theorem mkfsImageMounts (obeys : dev.Obeys) (mounts : MountsOn env dev.mkfs) :
    let root := zone2zslba 5 + dev.written 5
    let metaLba := zone2zslba 3 + dev.written 3
    let dot := zone2zslba 6 + dev.written 6
    ∃ t, xcpfsFillSuper env = some (some t,0) ∧ t.sbi = mkfsCounts ∧ t.nm = xcpfsReadNats (freshDisk root metaLba).metaNat ∧
      t.inodes rootIno = some mkfsRootInode ∧ t.inodes metaIno = some mkfsMetaInode ∧
      inodePointers (dev.mkfs.block root) = freshNodes dot (dot + 1) rootIno ∧
      inodePointers (dev.mkfs.block metaLba) = freshNodes dot (dot + 1) metaIno ∧
      dev.mkfs.block dot = (xcpfsInitDir rootIno).page 0 ∧ dev.mkfs.block (dot + 1) = (xcpfsInitDir rootIno).page 1 := by
  have made := mkfsMakes obeys
  have zones : zone2zslba 0 = 0 ∧ zone2zslba 1 = 2048 ∧ zone2zslba 3 = 6144 ∧ zone2zslba 5 = 10240 ∧ zone2zslba 6 = 12288 :=
    ⟨rfl,rfl,rfl,rfl,rfl⟩
  obtain ⟨zero,one,three,five,six⟩ := zones
  have in0 := obeys.inside 0 _ (obeys.accepts 0 (by decide))
  have in3 := obeys.inside 3 _ (obeys.accepts 3 (by decide))
  have in5 := obeys.inside 5 _ (obeys.accepts 5 (by decide))
  have in6 := obeys.inside 6 _ obeys.twice
  intro root metaLba dot
  have placed : root ≠ 0 ∧ root < 2 ^ 32 ∧ metaLba ≠ 0 ∧ metaLba < 2 ^ 32 ∧ dot + 1 < 2 ^ 32 := by
    refine ⟨?_,?_,?_,?_,?_⟩ <;> omega
  obtain ⟨rootNamed,rootSmall,metaNamed,metaSmall,dotSmall⟩ := placed
  have image : MkfsImage dev dev.mkfs root metaLba dot (dot + 1) := made
  clear_value root metaLba dot
  obtain ⟨zm,last,table,zit⟩ := tableLoads mounts
  obtain ⟨written,super⟩ := image.super
  rw [zero,Nat.zero_add] at super
  have block := superBlockLast mounts table written (by omega)
  have grabbed : env.grab (superBlock zm) = some (mkfsPage root metaLba) := by
    rw [block,mounts.grab,super]
  have cache : (readSuperPage (mkfsPage root metaLba)).1.nm = xcpfsReadNats (freshDisk root metaLba).metaNat := by
    rw [mkfsNats,wordSmall rootSmall,wordSmall metaSmall]
    rfl
  have slots := freshSlot rootNamed metaNamed
  have metaListed : (readSuperPage (mkfsPage root metaLba)).1.nm.lookup metaIno = some ⟨true,false,metaIno,metaIno,metaLba⟩ := by
    rw [cache]
    exact slotLookup ((slots metaIno).trans (if_pos rfl))
  have rootListed : (readSuperPage (mkfsPage root metaLba)).1.nm.lookup rootIno = some ⟨true,false,rootIno,rootIno,root⟩ := by
    rw [cache]
    exact slotLookup ((slots rootIno).trans ((if_neg (by decide)).trans (if_pos rfl)))
  have metaRead : env.nodeRead metaIno = .page mkfsMetaPage .ok := by
    rw [mounts.node (dev.written 0) (mkfsPage root metaLba) metaIno _ super metaListed written,← image.metaInode]
  have rootRead : env.nodeRead rootIno = .page (mkfsRootPage dot (dot + 1)) .ok := by
    rw [mounts.node (dev.written 0) (mkfsPage root metaLba) rootIno _ super rootListed written]
    exact congrArg (NodeRead.page · _) image.root
  have ran := fillRuns mounts table grabbed (mkfsMagic root metaLba) (mkfsSuperCounts root metaLba) metaListed metaRead rootRead zit
  generalize (readSuperPage (mkfsPage root metaLba)).1.nm = nm at ran cache
  refine ⟨_,ran,rfl,cache,?_,?_,?_,?_,?_,?_⟩
  · have inode : xcpfsFillInode FillState.newInode { mkfsRootInode.raw with iBlocks := 2 } = mkfsRootInode := rfl
    unfold mountedInodes
    dsimp only
    rw [Function.update_self,mkfsRootRaw,inode]
  · have inode : xcpfsFillInode FillState.newInode mkfsMetaInode.raw = mkfsMetaInode := rfl
    have other : metaIno ≠ rootIno := by decide
    unfold mountedInodes
    dsimp only
    rw [Function.update_of_ne other,Function.update_self,mkfsMetaRaw,inode]
  · unfold freshNodes
    rw [image.root,mkfsRootPointers (by omega) (by omega),Function.update_self]
  · have other : metaIno ≠ rootIno := by decide
    unfold freshNodes
    rw [image.metaInode,mkfsMetaPointers,Function.update_of_ne other]
  · rw [image.dot]
    exact (initDirPages rootIno).2.2.1.symm
  · rw [image.dotdot]
    exact (initDirPages rootIno).2.2.2.symm

end

/- A namespace whose zones are empty, and a mount of what `mkfs` leaves there. -/
def blankNamespace : ZnsNamespace := ⟨fun _ => true,fun _ n => decide (n < 2048),fun _ => 0,fun _ => allocPage⟩

def blankDevice : BlockDevice where
  nrZones := 8
  maxOpenZones := 8
  maxActiveZones := 8
  zones zone :=
    { start := zone * 16384, len := 16384, capacity := 16384, wp := zone * 16384 + blankNamespace.mkfs.written zone * 8
      cond := if blankNamespace.mkfs.written zone = 0 then .empty else .expOpen }

def mkfsEnv : MountEnv where
  sbInfo := true
  raw := blankTable blankDevice
  bdev := blankDevice
  kmalloc := fun _ _ => false
  grab := fun block => some (blankNamespace.mkfs.block block.toNat)
  inodeAlloc := fun _ => true
  nodeRead := fun nid => match (readSuperPage (blankNamespace.mkfs.block 0)).1.nm.lookup nid with
    | some ne => .page (blankNamespace.mkfs.block ne.blockAddr) .ok
    | none => .error
  zitPage := fun _ => none

theorem slotsEnough : (openZones blankDevice 8).length ≤ 8 ∧ (activeZones blankDevice 8).length ≤ 8 := by
  decide +kernel

/-- The root directory of the new file system. -/
theorem mkfsImageMountsBlank : ∃ t, xcpfsFillSuper mkfsEnv = some (some t,0) ∧ t.inodes rootIno = some mkfsRootInode := by
  have obeys : blankNamespace.Obeys := by
    refine ⟨fun _ _ => rfl,fun _ _ => rfl,rfl,fun zoneid n taken => ?_⟩
    exact of_decide_eq_true taken
  have written : blankNamespace.mkfs.written 0 = 1 := (mkfsMakes obeys).super.1
  have mounts : MountsOn mkfsEnv blankNamespace.mkfs := by
    refine ⟨fun block => rfl,rfl,⟨by decide +kernel,?_⟩,by decide +kernel,fun block page nid ne here listed last => ?_,rfl,fun _ => rfl,
      by decide,⟨rfl,?_⟩,⟨rfl,?_⟩,fun _ => rfl⟩
    · exact Nat.zero_add _
    · rw [written] at last
      obtain rfl : block = 0 := by omega
      unfold mkfsEnv
      dsimp only
      rw [here,listed]
    · exact slotsEnough.1
    · exact slotsEnough.2
  obtain ⟨t,ran,_,_,root,_⟩ := mkfsImageMounts obeys mounts
  exact ⟨t,ran,root⟩

end Xcpfs