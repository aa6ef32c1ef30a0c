import Xcpfs.NodeTree
import Xcpfs.NatSession
import Xcpfs.ZoneFlight

/-! Page I/O of xio.c: submission and completion over the NAT, the zone table and the
page cache, and a machine in which threads, the device and completions take turns. A
failed completion does all that a successful one does. -/
namespace Xcpfs

open EventRun

/-- `xcpfs_inode` without its two pointer arrays, which `NodePage` holds. -/
structure RawInode where
  iMode : Nat
  iUid : Nat
  iGid : Nat
  iLinks : Nat
  iSize : Nat
  iBlocks : Nat
  iAtime : Nat
  iCtime : Nat
  iMtime : Nat
  iAtimeNsec : Nat
  iCtimeNsec : Nat
  iMtimeNsec : Nat
  iGeneration : Nat
  deriving DecidableEq, Repr

def RawInode.zero : RawInode := ⟨0,0,0,0,0,0,0,0,0,0,0,0,0⟩

structure NodeImage where
  inode : RawInode
  page : NodePage

def NodeImage.zero : NodeImage := ⟨.zero,.zero⟩

structure PageFlags where
  uptodate : Bool
  dirty : Bool
  locked : Bool
  writeback : Bool
  deriving DecidableEq, Repr

def PageFlags.blank : PageFlags := ⟨false,false,false,false⟩

/-- The inode number of the mapping and the index in it. -/
abbrev PageKey := Nat × Nat

def nodeKey (nid : Nat) : PageKey := (nodeIno,nid)

/-- `xcpfs_io_info`; `dpage` is the nid of the dnode page. -/
structure Xio where
  op : ReqOp
  ino : Nat
  iblock : Nat
  type : PageType
  dpage : Option Nat
  oldBlkaddr : Nat
  newBlkaddr : Nat
  unlock : Bool
  deriving DecidableEq, Repr

def Xio.page (xio : Xio) : PageKey := (xio.ino,xio.iblock)

def Xio.isNode (xio : Xio) : Bool := xio.type = .metaNode ∨ xio.type = .regNode

inductive BlkStatus where | ok | ioerr
  deriving DecidableEq, Repr

structure Bio where
  sector : Nat
  status : BlkStatus

def Bio.blkaddr (bio : Bio) : Nat := bio.sector / 2 ^ pageSectorsShift

structure IoState where
  zones : ZoneSbi
  nat : NatMount
  cpPhase : Nat
  image : Nat → NodeImage
  flags : PageKey → PageFlags

def IoState.setFlags (s : IoState) (page : PageKey) (flags : PageFlags) : IoState :=
  { s with flags := Function.update s.flags page flags }

def IoState.setImage (s : IoState) (nid : Nat) (image : NodeImage) : IoState :=
  { s with image := Function.update s.image nid image }

/-- The word of the dnode page that points at a block. -/
def NodePage.dataAddr (p : NodePage) (iblock : Nat) : Nat :=
  let (len,offset) := getPath iblock
  if len = 0 then p.iAddr (offset len).toNat else p.slot (offset len).toNat

def NodePage.setDataAddr (p : NodePage) (iblock v : Nat) : NodePage :=
  let (len,offset) := getPath iblock
  if len = 0 then p.setAddr (offset len).toNat v else p.setSlot (offset len).toNat v

def PageFlags.unlockIf (flags : PageFlags) (unlock : Bool) : PageFlags := { flags with locked := flags.locked && !unlock }

def xcpfsReadEndIo (xio : Xio) (_bio : Bio) (s : IoState) : IoState :=
  s.setFlags xio.page { (s.flags xio.page).unlockIf xio.unlock with uptodate := true }

/- The first half of `xcpfs_write_end_io`. `set_page_dirty` of the dnode page also marks it
uptodate. -/
def writeIndex (xio : Xio) (bio : Bio) (s : IoState) : Option IoState :=
  if xio.isNode then
    let nat := { s.nat with nm := (updateNat s.nat.nm xio.iblock bio.blkaddr false).1 }
    if s.zones.cpSemLocked ∧ s.cpPhase = 2 then (cpAppendLookup nat xio.iblock).map fun nat => { s with nat := nat }
    else some { s with nat := nat }
  else xio.dpage.map fun dnode =>
    let image := s.image dnode
    (s.setImage dnode { image with page := image.page.setDataAddr xio.iblock bio.blkaddr }).setFlags (nodeKey dnode)
      { s.flags (nodeKey dnode) with uptodate := true, dirty := true, locked := false }

def xcpfsWriteEndIo (xio : Xio) (bio : Bio) (s : IoState) : Option IoState :=
  (writeIndex xio bio s).map fun s =>
    let zm := validateBlkaddr s.zones.zm bio.blkaddr
    let s := { s with zones := { s.zones with zm := endFlight zm (zm.blk2zone xio.newBlkaddr) } }
    s.setFlags xio.page { (s.flags xio.page).unlockIf xio.unlock with writeback := false, dirty := false }

def bioEndIo (xio : Xio) (bio : Bio) (s : IoState) : Option IoState :=
  match xio.op with
  | .read => some (xcpfsReadEndIo xio bio s)
  | .zoneAppend => xcpfsWriteEndIo xio bio s

/- `alloc_zone` and `__alloc_bio`. -/
def submitBio (xio : Xio) (answers : List Bool) (s : IoState) : Option (IoState × Option Xio) :=
  (allocZone xio.op xio.type xio.oldBlkaddr answers s.zones).map fun (zones,new) =>
    match xio.op with
    | .read => ({ s with zones := zones },some { xio with newBlkaddr := new })
    | .zoneAppend =>
      ({ s with zones := { zones with zm := startFlight zones.zm (zones.zm.blk2zone new) } },some { xio with newBlkaddr := new })

/-- The second part is the request that is now in flight, if there is one. -/
def submitNodeXio (xio : Xio) (answers : List Bool) (s : IoState) : Option (IoState × Option Xio) :=
  match lookupNat s.nat.file s.nat.nm xio.iblock with
  | (_,none) => none
  | (nm,some ne) =>
    let s := { s with nat := { s.nat with nm := nm } }
    if ne.blockAddr = 0 ∧ xio.op = .read then
      let flags := s.flags xio.page
      let s := if flags.uptodate then s else s.setImage xio.iblock .zero
      some (s.setFlags xio.page { flags.unlockIf xio.unlock with uptodate := true },none)
    else submitBio { xio with oldBlkaddr := ne.blockAddr } answers s

/-- `dnode` is what `get_dnode_page` found and locked. -/
def submitDataXio (xio : Xio) (dnode : Option Nat) (answers : List Bool) (s : IoState) : Option (IoState × Option Xio) :=
  match dnode with
  | none =>
    match xio.op with
    | .read => some (s,none)
    | .zoneAppend => some (s.setFlags xio.page { s.flags xio.page with writeback := false },none)
  | some nid =>
    let xio := { xio with oldBlkaddr := (s.image nid).page.dataAddr xio.iblock }
    match xio.op with
    | .read => submitBio xio answers (s.setFlags (nodeKey nid) { s.flags (nodeKey nid) with locked := false })
    | .zoneAppend => submitBio { xio with dpage := some nid } answers s

def xcpfsSubmitXio (xio : Xio) (dnode : Option Nat) (answers : List Bool) (s : IoState) : Option (IoState × Option Xio) :=
  if xio.isNode then submitNodeXio xio answers s else submitDataXio xio dnode answers s

/- What `do_prepare_page` and `do_write_single_page` fill in. -/
def pageXio (op : ReqOp) (page : PageKey) : Xio := ⟨op,page.1,page.2,getPageType page.1 page.2,none,0,0,true⟩

/-- The attributes that `xcpfs_update_inode_page` copies; `i_ctime` is not among them. -/
def RawInode.updated (ri vfs : RawInode) : RawInode := { vfs with iCtime := ri.iCtime, iCtimeNsec := ri.iCtimeNsec }

/- What a thread stores in a node page it has locked. -/
inductive NodeChange where
  | nid (i v : Nat)
  | slot (i v : Nat)
  | addr (i v : Nat)
  | inode (vfs : RawInode)

def NodeChange.apply (image : NodeImage) : NodeChange → NodeImage
  | .nid i v => { image with page := image.page.setNid i v }
  | .slot i v => { image with page := image.page.setSlot i v }
  | .addr i v => { image with page := image.page.setAddr i v }
  | .inode vfs => { image with inode := image.inode.updated vfs }

structure Flight where
  xio : Xio
  landed : Option Nat

/-- The pages that stay locked until the completion. -/
def Flight.held (f : Flight) : List PageKey := f.xio.page :: (f.xio.dpage.map nodeKey).toList

/- Beside the mount: the requests in flight, the blocks of the device and which of them are
written, the nids of the image or allocated since, and those invalidated. -/
structure NodeRun where
  io : IoState
  flights : List Flight
  disk : Nat → NodeImage
  written : Nat → Bool
  known : Nat → Bool
  invalid : Nat → Bool

namespace NodeRun

def flags (s : NodeRun) (page : PageKey) : PageFlags := s.io.flags page

def heldByIo (s : NodeRun) (page : PageKey) : Bool := s.flights.any fun f => f.held.contains page

/- The page lock belongs to a thread. -/
def owned (s : NodeRun) (page : PageKey) : Bool := (s.flags page).locked && !s.heldByIo page

def setFlags (s : NodeRun) (page : PageKey) (flags : PageFlags) : NodeRun := { s with io := s.io.setFlags page flags }

/- A submission by a thread that owns the page and, for a data page, its dnode page. -/
def submit (s : NodeRun) (op : ReqOp) (page : PageKey) (dnode : Option Nat) (answers : List Bool) :
    Option (NodeRun × Option Xio) :=
  if ∀ nid ∈ dnode, s.owned (nodeKey nid) ∧ (s.flags (nodeKey nid)).uptodate then
    (xcpfsSubmitXio (pageXio op page) dnode answers s.io).map fun (io,sent) =>
      ({ s with io := io, flights := (sent.map fun xio => ⟨xio,none⟩).toList ++ s.flights },sent)
  else none

end NodeRun

inductive IoEvent where
  | lock (page : PageKey)
  | unlock (page : PageKey)
  | change (nid : Nat) (change : NodeChange)
  | dirty (page : PageKey)
  | read (page : PageKey) (dnode : Option Nat)
  | begin (page : PageKey) (cleared : Bool)
  | submit (page : PageKey) (dnode : Option Nat) (answers : List Bool)
  | land (i blkaddr : Nat) (data : NodeImage)
  | complete (i : Nat) (status : BlkStatus)
  | prep (event : PrepEvent)
  | invalidate (nid : Nat)
  | flush (nid : Nat)
  | phase (cpSemLocked : Bool) (restart : Option Bool) (phase : Nat) (fresh : Bool)
  | release (page : PageKey)

/- The device fills a block that was not written before, in the zone asked for. -/
def landFlight (s : NodeRun) (f : Flight) (rest : List Flight) (blkaddr : Nat) (data : NodeImage) : Option NodeRun :=
  match f.landed,f.xio.op with
  | some _,_ => none
  | none,.read =>
    let s := { s with flights := { f with landed := some f.xio.newBlkaddr } :: rest }
    if f.xio.isNode then some { s with io := s.io.setImage f.xio.iblock (s.disk f.xio.newBlkaddr) } else some s
  | none,.zoneAppend =>
    let zm := s.io.zones.zm
    if s.written blkaddr = false ∧ zm.blk2zone blkaddr = zm.blk2zone f.xio.newBlkaddr then
      some { s with
        flights := { f with landed := some blkaddr } :: rest
        disk := Function.update s.disk blkaddr (if f.xio.isNode then s.io.image f.xio.iblock else data)
        written := Function.update s.written blkaddr true }
    else none

/- The bio of a failed request still names the sector it was submitted with. -/
def endFlightOf (s : NodeRun) (f : Flight) (rest : List Flight) (status : BlkStatus) : Option NodeRun :=
  if status = .ok ∧ f.landed = none then none
  else (bioEndIo f.xio ⟨f.landed.getD f.xio.newBlkaddr * 2 ^ pageSectorsShift,status⟩ s.io).map fun io =>
    { s with io := io, flights := rest }

def takenNid (nm : NatInfo) : PrepEvent → Option Nat
  | .load _ => none
  | .alloc isMeta _ => (freeNatEmpty nm isMeta).map fun (_,ne) => ne.nid

/- A thread stores and marks the page dirty before it gives up the lock, so both are one
step. Node pages are only asked for by a nid some page or directory entry named. -/
def nodeStep (s : NodeRun) : IoEvent → Option NodeRun
  | .lock page =>
    if (s.flags page).locked = false ∧ (page.1 = nodeIno → s.known page.2) then
      some (s.setFlags page { s.flags page with locked := true })
    else none
  | .unlock page =>
    if s.owned page ∧ (s.flags page).writeback = false then some (s.setFlags page { s.flags page with locked := false })
    else none
  | .change nid change =>
    let flags := s.flags (nodeKey nid)
    if s.owned (nodeKey nid) ∧ flags.uptodate ∧ flags.writeback = false then
      let io := s.io.setImage nid (change.apply (s.io.image nid))
      some { s with io := io.setFlags (nodeKey nid) { flags with dirty := true } }
    else none
  | .dirty page =>
    if page.1 ≠ nodeIno ∧ s.owned page then some (s.setFlags page { s.flags page with uptodate := true, dirty := true })
    else none
  | .read page dnode =>
    if s.owned page ∧ (s.flags page).uptodate = false then (s.submit .read page dnode []).map Prod.fst else none
  | .begin page cleared =>
    if s.owned page ∧ (s.flags page).uptodate ∧ (s.flags page).writeback = false then
      some (s.setFlags page { s.flags page with dirty := (s.flags page).dirty && !cleared, writeback := true })
    else none
  | .submit page dnode answers =>
    if s.owned page ∧ (s.flags page).writeback then
      (s.submit .zoneAppend page dnode answers).map fun
        | (s,some _) => s
        -- `xcpfs_write_data_page` gives the page back dirty
        | (s,none) => s.setFlags page { s.flags page with dirty := true, locked := false }
    else none
  | .land i blkaddr data => (s.flights[i]?).bind fun f => landFlight s f (s.flights.eraseIdx i) blkaddr data
  | .complete i status => (s.flights[i]?).bind fun f => endFlightOf s f (s.flights.eraseIdx i) status
  | .prep event =>
    (prepStep s.io.nat event).map fun nat =>
      { s with
        io := { s.io with nat := nat }
        known := fun nid => s.known nid || decide (takenNid s.io.nat.nm event = some nid) }
  | .invalidate nid =>
    if s.known nid then
      some { s with
        io := { s.io with nat := { s.io.nat with nm := (invalidateNat s.io.nat.file s.io.nat.nm nid).1 } }
        invalid := Function.update s.invalid nid true }
    else none
  | .flush nid =>
    (s.io.nat.nm.listed nid).map fun ne => { s with io := { s.io with nat := flushEntry s.io.nat nid ne } }
  | .phase cpSemLocked restart phase fresh =>
    let zones := { s.io.zones with cpSemLocked := cpSemLocked, cpcRestart := restart }
    let nat := { s.io.nat with metaNat := if fresh then [] else s.io.nat.metaNat }
    some { s with io := { s.io with zones := zones, nat := nat, cpPhase := phase } }
  | .release page =>
    let flags := s.flags page
    if flags.locked = false ∧ flags.dirty = false ∧ flags.writeback = false then some (s.setFlags page .blank) else none

/- A mount with nothing cached. `referenced` are the nids the image names. -/
def nodeStart (nat : NatDisk) (zm : ZmInfo) (disk : Nat → NodeImage) (written referenced : Nat → Bool) : NodeRun where
  io := {
    zones := { zm := zm, cpSemLocked := false, cpcRestart := none }
    nat := mountNat nat
    cpPhase := 0
    image := fun _ => .zero
    flags := fun _ => .blank }
  flights := []
  disk := disk
  written := written
  known := referenced
  invalid := fun _ => false

/- What a failed completion should leave as it was. -/
structure WriteIntact (xio : Xio) (s t : IoState) : Prop where
  nat : xio.isNode → natAddr t.nat.file t.nat.nm xio.iblock = natAddr s.nat.file s.nat.nm xio.iblock
  pointer : ∀ dnode ∈ xio.dpage, (t.image dnode).page.dataAddr xio.iblock = (s.image dnode).page.dataAddr xio.iblock
  validMap : ∀ zone, (t.zones.zm.zoneInfo zone).validMap = (s.zones.zm.zoneInfo zone).validMap
  vblocks : ∀ zone, (t.zones.zm.zoneInfo zone).vblocks = (s.zones.zm.zoneInfo zone).vblocks
  wp : ∀ zone, (t.zones.zm.zoneInfo zone).wp = (s.zones.zm.zoneInfo zone).wp
  dirty : (t.flags xio.page).dirty = true

def IoIntact (xio : Xio) (s t : IoState) : Prop :=
  match xio.op with
  | .read => (t.flags xio.page).uptodate = false
  | .zoneAppend => WriteIntact xio s t

@[simp] theorem setFlagsSelf (s : IoState) (page : PageKey) (flags : PageFlags) : (s.setFlags page flags).flags page = flags :=
  Function.update_self ..

theorem setFlagsOther (s : IoState) {page other : PageKey} (flags : PageFlags) (differ : other ≠ page) :
    (s.setFlags page flags).flags other = s.flags other := Function.update_of_ne differ ..

/- Whatever the status was, the handlers end with the page uptodate or clean. -/
theorem endIoFlags {xio : Xio} {bio : Bio} {s t : IoState} (ran : bioEndIo xio bio s = some t) :
    match xio.op with
    | .read => (t.flags xio.page).uptodate = true
    | .zoneAppend => (t.flags xio.page).dirty = false := by
  unfold bioEndIo at ran
  cases op : xio.op with
  | read =>
    rw [op] at ran
    cases ran
    simp only [xcpfsReadEndIo,setFlagsSelf]
  | zoneAppend =>
    rw [op] at ran
    obtain ⟨u,_,same⟩ := Option.map_eq_some_iff.mp ran
    rw [← same]
    simp only [setFlagsSelf]

theorem endIoLoses {xio : Xio} {bio : Bio} {s t : IoState} (ran : bioEndIo xio bio s = some t) : ¬IoIntact xio s t := by
  intro intact
  have flags := endIoFlags ran
  unfold IoIntact at intact
  cases op : xio.op with
  | read =>
    rw [op] at flags intact
    exact absurd (flags.symm.trans intact) (by decide)
  | zoneAppend =>
    rw [op] at flags intact
    exact absurd (flags.symm.trans intact.dirty) (by decide)

theorem completeIs {s t : NodeRun} {i : Nat} {f : Flight} {status : BlkStatus} (flying : s.flights[i]? = some f)
    (ran : nodeStep s (.complete i status) = some t) :
    ∃ bio : Bio, bio.status = status ∧ bioEndIo f.xio bio s.io = some t.io := by
  obtain ⟨g,there,ended⟩ := Option.bind_eq_some_iff.mp ran
  cases flying.symm.trans there
  unfold endFlightOf at ended
  split at ended
  · contradiction
  · obtain ⟨io,done,same⟩ := Option.map_eq_some_iff.mp ended
    refine ⟨⟨f.landed.getD f.xio.newBlkaddr * 2 ^ pageSectorsShift,status⟩,rfl,?_⟩
    rw [← same]
    exact done

theorem failedIoNeverIntact {s t : NodeRun} {i : Nat} {f : Flight} (flying : s.flights[i]? = some f)
    (failed : nodeStep s (.complete i .ioerr) = some t) : ¬IoIntact f.xio s.io t.io := by
  obtain ⟨bio,_,done⟩ := completeIs flying failed
  exact endIoLoses done

/- The image mkfs leaves: the root inode at block 20 and the meta inode at block 12. -/
def mkfsNat : NatDisk := ⟨fun _ _ => ⟨0,0⟩,[⟨3,3,20⟩,⟨1,1,12⟩]⟩

def mkfsRun : NodeRun :=
  nodeStart mkfsNat mkfsTable (fun _ => .zero) (fun blkaddr => decide (blkaddr ∈ [0,12,20])) fun nid => decide (nid = 1 ∨ nid = 3)

def readRoot : List IoEvent := [.lock (nodeKey 3),.read (nodeKey 3) none,.land 0 0 .zero,.complete 0 .ok]

/- The root inode is read, changed and submitted as `xcpfs_write_inode` does for a sync. -/
def writeRoot : List IoEvent :=
  readRoot ++ [.lock (nodeKey 3),.change 3 (.inode { RawInode.zero with iSize := 8 }),.begin (nodeKey 3) false,
    .submit (nodeKey 3) none []]

theorem writeRootFlies : ∃ s f t, exec nodeStep mkfsRun writeRoot = some s ∧ s.flights[0]? = some f ∧
    nodeStep s (.complete 0 .ioerr) = some t := by
  have flies : ((exec nodeStep mkfsRun writeRoot).any fun s => (s.flights[0]?).isSome &&
      (nodeStep s (.complete 0 .ioerr)).isSome) = true := by decide +kernel
  obtain ⟨s,ran,both⟩ := (Option.any_eq_true ..).mp flies
  obtain ⟨flying,failed⟩ := Bool.and_eq_true_iff.mp both
  obtain ⟨f,flying⟩ := Option.isSome_iff_exists.mp flying
  obtain ⟨t,failed⟩ := Option.isSome_iff_exists.mp failed
  exact ⟨s,f,t,ran,flying,failed⟩

/-- The write of the root inode fails. -/
theorem failedIoNeverIntactRoot : ∃ s f t, exec nodeStep mkfsRun writeRoot = some s ∧ s.flights[0]? = some f ∧
    nodeStep s (.complete 0 .ioerr) = some t ∧ ¬IoIntact f.xio s.io t.io := by
  obtain ⟨s,f,t,ran,flying,failed⟩ := writeRootFlies
  exact ⟨s,f,t,ran,flying,failed,failedIoNeverIntact flying failed⟩

/-- After its write failed the root inode's page is clean, so nothing writes it again. -/
theorem failedWriteClean : ¬∀ (mem : RawMemory) (bdev : BlockDevice) (page : Nat → Option ZitBlock) (zm : ZmInfo)
    (nat : NatDisk) (disk : Nat → NodeImage) (written referenced : Nat → Bool) (events : List IoEvent) (s t : NodeRun)
    (i : Nat) (f : Flight), mountOver mem bdev page = some zm →
      exec nodeStep (nodeStart nat zm disk written referenced) events = some s → s.flights[i]? = some f →
        nodeStep s (.complete i .ioerr) = some t → IoIntact f.xio s.io t.io := by
  intro claim
  obtain ⟨s,f,t,ran,flying,failed⟩ := writeRootFlies
  obtain ⟨bio,_,done⟩ := completeIs flying failed
  exact endIoLoses done (claim _ _ _ _ _ _ _ _ _ _ _ _ _ mkfsMounts ran flying failed)

end Xcpfs
