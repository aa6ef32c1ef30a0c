import Xcpfs.Lib.RefMarks
import Xcpfs.BlockWrites
import Xcpfs.TruncateAccount
import Xcpfs.TruncateFs
import Xcpfs.ZoneCount
import Xcpfs.ZoneRoute

/-! The valid maps of the zones beside the blocks that are in use, over runs of node writes,
data writes, truncates and evictions. A write takes the old block off the map when it is
submitted and enters the new one when it completes; a truncate takes off the data blocks it
reaches, and the blocks of the nodes that it gives back stay on the map. -/
namespace Xcpfs
open PointerForest EventRun RefMarks

/- `nodeFlights` are the nids of the node pages under writeback, `written` the blocks of the
device that are filled. -/
structure LiveRun where
  run : FsRun
  zones : ZoneSbi
  nodeFlights : List Nat
  written : Nat → Bool

inductive LiveEvent where
  | read (fuel ino iblock : Nat)
  | prepare (fuel ino iblock : Nat)
  | submitData (fuel ino iblock : Nat) (answers : List Bool)
  | completeData (ino iblock blkaddr : Nat)
  | submitNode (fuel nid : Nat) (answers : List Bool)
  | completeNode (nid blkaddr : Nat)
  | truncate (fuel ino freeFrom : Nat)
  | evict (fuel ino nlink : Nat)

namespace LiveRun

def setFs (s : LiveRun) (fs : Fs) : LiveRun := { s with run := { s.run with fs := fs } }

/- The device fills a block that was not filled before. -/
def validate (s : LiveRun) (blkaddr : Nat) : LiveRun :=
  { s with
    zones := { s.zones with zm := validateBlkaddr s.zones.zm blkaddr }
    written := Function.update s.written blkaddr true }

def applyCall (fuel : Nat) (s : LiveRun) : Call → Option LiveRun
  | .blkaddr addr => some { s with zones := { s.zones with zm := invalidateBlkaddr s.zones.zm addr } }
  | .nat nid => (Fs.invalidateNat fuel nid s.run.fs).map s.setFs

def applyCalls (fuel : Nat) : List Call → LiveRun → Option LiveRun
  | [],s => some s
  | call :: calls,s => (s.applyCall fuel call).bind (applyCalls fuel calls)

def truncate (fuel ino freeFrom : Nat) (s : LiveRun) : Option LiveRun :=
  (s.run.fs.truncate ino freeFrom).bind fun (fs,calls) => applyCalls fuel calls (s.setFs fs)

end LiveRun

/- The kernel waits for the pages behind the new size, and for all pages of an inode that it
evicts. An inode that still has links only leaves the memory. -/
def liveStep (s : LiveRun) : LiveEvent → Option LiveRun
  | .read fuel ino iblock =>
    if s.run.inodes ino then
      (Fs.getDnodePage (Fs.readRawNatBlock fuel) false fuel ino iblock s.run.fs).map fun (fs,_) => s.setFs fs
    else none
  | .prepare fuel ino iblock => (fsStep s.run (.prepare fuel ino iblock)).map fun run => { s with run := run }
  | .submitData fuel ino iblock answers =>
    (fsStep s.run (.submit fuel ino iblock)).bind fun run =>
      match run.flights.find? (DataFlight.of ino iblock) with
      | none => some { s with run := run }
      | some f =>
        (allocZone .zoneAppend (getPageType ino iblock) ((run.fs.nodes f.dnode).dataAddr iblock) answers s.zones).map
          fun (zones,_) => { s with run := run, zones := zones }
  | .completeData ino iblock blkaddr =>
    if s.written blkaddr then none
    else (fsStep s.run (.complete ino iblock blkaddr)).map fun run => { s with run := run }.validate blkaddr
  | .submitNode fuel nid answers =>
    if s.run.fs.cached nid ∧ nid ∉ s.nodeFlights then
      (Fs.lookupNat (Fs.readRawNatBlock fuel) nid s.run.fs).bind fun (fs,ne) =>
        (allocZone .zoneAppend (getPageType nodeIno nid) ne.blockAddr answers s.zones).map fun (zones,_) =>
          { s.setFs fs with zones := zones, nodeFlights := nid :: s.nodeFlights }
    else none
  | .completeNode nid blkaddr =>
    if nid ∈ s.nodeFlights ∧ blkaddr ≠ 0 ∧ s.written blkaddr = false then
      let fs := s.run.fs
      some ({ s.setFs { fs with nat := { fs.nat with nm := (updateNat fs.nat.nm nid blkaddr false).1 } } with
        nodeFlights := s.nodeFlights.filter fun other => other ≠ nid }.validate blkaddr)
    else none
  | .truncate fuel ino freeFrom =>
    if s.run.inodes ino ∧ ∀ f ∈ s.run.flights, f.ino = ino → f.iblock < freeFrom then s.truncate fuel ino freeFrom else none
  | .evict fuel ino nlink =>
    if s.run.inodes ino ∧ ∀ f ∈ s.run.flights, f.ino ≠ ino then
      if ino ≤ 2 ∨ nlink ≠ 0 then some s
      else (s.truncate fuel ino 0).map fun s => { s with run := { s.run with inodes := Function.update s.run.inodes ino false } }
    else none

/-- A block is live as the address of a NAT entry or as a data pointer of a live inode. -/
def LiveRun.Live (s : LiveRun) (blkaddr : Nat) : Prop :=
  blkaddr ≠ 0 ∧ ((∃ nid, s.run.fs.addr nid = some blkaddr) ∨
    ∃ ino p, s.run.inodes ino = true ∧ blockAt s.run.fs.content ino p = blkaddr)

def LiveRun.Quiet (s : LiveRun) : Prop := s.run.flights = [] ∧ s.nodeFlights = []

/- Zones 0 and 1 hold the superblocks. -/
def LiveRun.MapsLive (s : LiveRun) : Prop :=
  ∀ z idx, 2 ≤ z → z < s.zones.zm.nrZones → idx < s.zones.zm.blocksPerZone →
    ((s.zones.zm.zoneInfo z).validMap idx = true ↔ s.Live (z * s.zones.zm.blocksPerZone + idx))

/- A truncate at `cut` gives back no node that has a block, unless it is being written
elsewhere, drops no data block that it does not hand to the zone table, and keeps the places
of the writes in flight. -/
structure CutFits (s : LiveRun) (ino : Nat) (cut : TreePath) : Prop where
  nodes : ∀ q nid, NodePlace q → nodeReleased (cut.topCut (presentIn s.run.fs.content ino)) q →
    follow (child s.run.fs.content) ino q = some nid → (s.run.fs.addr nid).getD 0 = 0 ∨ nid ∈ s.nodeFlights
  blocks : ∀ p, blockAt s.run.fs.content ino p ≠ 0 →
    survives cut.addrStart (cut.topCut (presentIn s.run.fs.content ino)) p ∨
      releases cut.addrStart (cut.topCut (presentIn s.run.fs.content ino)) p
  flights : ∀ f ∈ s.run.flights, f.ino = ino → ∀ p : TreePath, p.index = f.iblock →
    survives cut.addrStart (cut.topCut (presentIn s.run.fs.content ino)) p

def liveFits (s : LiveRun) : LiveEvent → Prop
  | .truncate _ ino freeFrom => ∀ cut : TreePath, cut.index = freeFrom → CutFits s ino cut
  | .evict _ ino nlink => 3 ≤ ino → nlink = 0 → ∀ cut : TreePath, cut.index = 0 → CutFits s ino cut
  | _ => True

inductive BlockRef where
  | nat (nid : Nat)
  | data (ino : Nat) (p : TreePath)

def LiveRun.cell (s : LiveRun) : BlockRef → Option Nat
  | .nat nid => (s.run.fs.addr nid).bind ptr
  | .data ino p => if s.run.inodes ino then ptr (blockAt s.run.fs.content ino p) else none

def LiveRun.flying (s : LiveRun) : BlockRef → Prop
  | .nat nid => nid ∈ s.nodeFlights
  | .data ino p => ∃ f ∈ s.run.flights, DataFlight.of ino p.index f = true

def LiveRun.marks (s : LiveRun) : Marks BlockRef Nat where
  cell := s.cell
  moving := {r | s.flying r}
  marked := {a | isValid s.zones.zm a = true}
  used := {a | s.written a = true}

def mapScope (zm : ZmInfo) : Set Nat := {a | 2 ≤ zm.blk2zone a ∧ zm.blk2zone a < zm.nrZones}

/- A mount at rest: no two references name one block, and the blocks they name are written. -/
structure LiveStart (known : Nat → Bool) (s : LiveRun) : Prop where
  fs : FsOk {n | s.run.inodes n = true} known s.run.fs
  metaIn : s.run.inodes metaIno = true
  quiet : s.Quiet
  unnamed : s.run.fs.addr 0 = none
  single : ∀ r r' a, s.cell r = some a → s.cell r' = some a → r = r'
  filled : ∀ r a, s.cell r = some a → s.written a = true
  maps : s.MapsLive

structure LiveInv (known : Nat → Bool) (s : LiveRun) : Prop where
  ok : FsRunOk known s.run
  unnamed : s.run.fs.addr 0 = none
  held : ∀ nid ∈ s.nodeFlights, s.run.fs.cached nid = true ∧ ∃ ne, s.run.fs.nat.nm.slot nid = some (true,ne)
  alone : s.run.flights.Pairwise fun f g => ¬(f.ino = g.ino ∧ f.iblock = g.iblock)
  sound : Sound (mapScope s.zones.zm) s.marks

section
variable {zm other : ZmInfo} {a b : Nat}

theorem blkaddrSame (zone : zm.blk2zone a = zm.blk2zone b) (idx : a % zm.blocksPerZone = b % zm.blocksPerZone) : a = b := by
  unfold ZmInfo.blk2zone at zone
  rw [← Nat.div_add_mod a zm.blocksPerZone,← Nat.div_add_mod b zm.blocksPerZone,zone,idx]

theorem isValidFlip {zi : ZoneInfo} {bit : Bool} (size : other.zoneSize = zm.zoneSize)
    (info : other.zoneInfo = Function.update zm.zoneInfo (zm.blk2zone a) zi)
    (map : zi.validMap = Function.update (zm.zoneInfo (zm.blk2zone a)).validMap (a % zm.blocksPerZone) bit) :
    isValid other b = if b = a then bit else isValid zm b := by
  have blocks : other.blocksPerZone = zm.blocksPerZone := by
    unfold ZmInfo.blocksPerZone
    rw [size]
  unfold isValid
  rw [blk2zoneSize size,blocks,info]
  by_cases zone : zm.blk2zone b = zm.blk2zone a
  · rw [zone,Function.update_self,map]
    by_cases same : b = a
    · rw [same,if_pos rfl,Function.update_self]
    · rw [if_neg same,Function.update_of_ne fun idx => same (blkaddrSame zone idx)]
  · rw [Function.update_of_ne zone,if_neg]
    rintro rfl
    exact zone rfl

theorem isValidInvalidate (a b : Nat) : isValid (invalidateBlkaddr zm a) b = if b = a then false else isValid zm b :=
  isValidFlip rfl rfl rfl

theorem isValidValidate (a b : Nat) : isValid (validateBlkaddr zm a) b = if b = a then true else isValid zm b := by
  unfold validateBlkaddr
  dsimp only
  split
  · exact isValidFlip rfl rfl rfl
  · exact isValidFlip rfl rfl rfl

theorem scopeSame (size : other.zoneSize = zm.zoneSize) (zones : other.nrZones = zm.nrZones) : mapScope other = mapScope zm := by
  unfold mapScope
  rw [zones]
  simp only [blk2zoneSize size]

theorem scopeValidate (a : Nat) : mapScope (validateBlkaddr zm a) = mapScope zm := by
  refine scopeSame (validateSize a) ?_
  unfold validateBlkaddr
  dsimp only
  split <;> rfl

theorem allocValid {s t : ZoneSbi} {type : PageType} {oldBlkaddr new : Nat} {answers : List Bool}
    (ran : allocZone .zoneAppend type oldBlkaddr answers s = some (t,new)) :
    mapScope t.zm = mapScope s.zm ∧ ∀ b, isValid t.zm b = if b = oldBlkaddr then false else isValid s.zm b := by
  obtain ⟨u,zone,same,_,kept,_⟩ := allocZoneIs ran
  subst same
  refine ⟨scopeSame kept.size kept.nrZones,fun b => ?_⟩
  rw [isValidInvalidate,isValidSame kept]

theorem scopePositive (inside : a ∈ mapScope zm) : a ≠ 0 := by
  rintro rfl
  have low : 2 ≤ 0 / zm.blocksPerZone := inside.1
  rw [Nat.zero_div] at low
  omega

end

section
variable {known : Nat → Bool} {s t : LiveRun} {ino iblock nid blkaddr fuel : Nat} {r : BlockRef} {fs : Fs}

theorem flightOf {f : DataFlight} : DataFlight.of ino iblock f = true ↔ f.ino = ino ∧ f.iblock = iblock := by
  simp only [DataFlight.of,Bool.decide_and,Bool.and_eq_true,decide_eq_true_eq]

theorem natCell (addr : t.run.fs.addr nid = s.run.fs.addr nid) : t.cell (.nat nid) = s.cell (.nat nid) :=
  congrArg (fun found => found.bind ptr) addr

theorem dataCell {p : TreePath} (inodes : t.run.inodes = s.run.inodes)
    (block : s.run.inodes ino = true → blockAt t.run.fs.content ino p = blockAt s.run.fs.content ino p) :
    t.cell (.data ino p) = s.cell (.data ino p) := by
  change (if t.run.inodes ino = true then ptr (blockAt t.run.fs.content ino p) else none) =
    if s.run.inodes ino = true then ptr (blockAt s.run.fs.content ino p) else none
  rw [inodes]
  split
  · rename_i live
    rw [block live]
  · rfl

theorem cellSame (inodes : t.run.inodes = s.run.inodes) (addr : ∀ n, t.run.fs.addr n = s.run.fs.addr n)
    (blocks : ∀ ino, s.run.inodes ino = true → ∀ p, blockAt t.run.fs.content ino p = blockAt s.run.fs.content ino p) :
    t.cell = s.cell := by
  funext r
  cases r with
  | nat nid => exact natCell (addr nid)
  | data ino p => exact dataCell inodes fun live => blocks ino live p

theorem liveLeaves {old new : Nat} {type : PageType} {answers : List Bool} (sound : Sound (mapScope s.zones.zm) s.marks)
    (here : s.cell r = ptr old) (ran : allocZone .zoneAppend type old answers s.zones = some (t.zones,new))
    (cell : t.cell = s.cell) (flying : ∀ x, t.flying x ↔ x = r ∨ s.flying x) (written : t.written = s.written) :
    Sound (mapScope t.zones.zm) t.marks := by
  obtain ⟨scope,valid⟩ := allocValid ran
  rw [scope]
  have leaves : Leaves (mapScope s.zones.zm) r s.marks t.marks := by
    refine ⟨cell,flying,?_,fun b inside => ?_⟩
    · change {b | t.written b = true} = {b | s.written b = true}
      rw [written]
    change isValid t.zones.zm b = true ↔ isValid s.zones.zm b = true ∧ s.cell r ≠ some b
    have at_ : s.cell r = some b ↔ b = old := by
      rw [here,ptrSome]
      exact ⟨fun both => both.1.symm,fun same => ⟨same.symm,scopePositive inside⟩⟩
    rw [valid b,Ne,at_]
    by_cases same : b = old
    · simp [same]
    · simp [same]
  exact soundLeaves sound leaves

theorem liveLands (sound : Sound (mapScope s.zones.zm) s.marks) (moved : s.flying r) (fresh : s.written blkaddr = false)
    (here : t.cell r = some blkaddr) (others : ∀ x, x ≠ r → t.cell x = s.cell x) (flying : ∀ x, t.flying x ↔ s.flying x ∧ x ≠ r)
    (zones : t.zones.zm = validateBlkaddr s.zones.zm blkaddr) (written : t.written = Function.update s.written blkaddr true) :
    Sound (mapScope t.zones.zm) t.marks := by
  rw [zones,scopeValidate]
  have unused : blkaddr ∉ s.marks.used := by
    intro used
    rw [show s.written blkaddr = true from used] at fresh
    contradiction
  have lands : Lands (mapScope s.zones.zm) r blkaddr s.marks t.marks := by
    refine ⟨moved,unused,here,others,flying,fun b => ?_,fun b _ => ?_⟩
    · change t.written b = true ↔ b = blkaddr ∨ s.written b = true
      rw [written]
      by_cases same : b = blkaddr
      · simp [same]
      · simp [same]
    · change isValid t.zones.zm b = true ↔ b = blkaddr ∨ isValid s.zones.zm b = true
      rw [zones,isValidValidate]
      by_cases same : b = blkaddr
      · simp [same]
      · simp [same]
  exact soundLands sound lands

theorem liveAdvance (inv : LiveInv known s) (advances : Advances {n | s.run.inodes n = true} known s.run.fs fs)
    (steady : AddrSteady s.run.fs fs) : ∃ now, LiveInv now (s.setFs fs) := by
  obtain ⟨now,_,okT,grown⟩ := advances
  have cell : (s.setFs fs).cell = s.cell :=
    cellSame rfl (fun n => steady.addr n) fun ino live p => grown.blocks ino live p
  refine ⟨now,⟨okT,inv.ok.metaIn,fun f flying => @heldGrown s.run fs f grown (inv.ok.held f flying)⟩,?_,fun nid member => ?_,inv.alone,?_⟩
  · exact (steady.addr 0).trans inv.unnamed
  · obtain ⟨held,ne,here⟩ := inv.held nid member
    exact ⟨grown.cached nid held,steady.used nid ne here⟩
  · exact soundSame inv.sound cell (fun _ => Iff.rfl) rfl fun _ _ => Iff.rfl

theorem walkAdvances (inv : LiveInv known s) {create : Bool} {found : Option Nat} (inside : s.run.inodes ino = true)
    (walked : Fs.getDnodePage (Fs.readRawNatBlock fuel) create fuel ino iblock s.run.fs = some (fs,found)) :
    ∃ now, LiveInv now (s.setFs fs) := by
  have advances := (dnodePageAdvances (rawBlockLoading inv.ok.metaIn fuel) inside inv.ok.fs walked).1
  exact liveAdvance inv advances (addrSteady inv.ok.fs.nat (dnodePagePrepares (rawBlockPrepares fuel) walked))

theorem readLive (inv : LiveInv known s) (ran : liveStep s (.read fuel ino iblock) = some t) : ∃ now, LiveInv now t := by
  simp only [liveStep] at ran
  split at ran
  · rename_i inside
    obtain ⟨⟨fs,found⟩,walked,rfl⟩ := Option.map_eq_some_iff.mp ran
    exact walkAdvances inv inside walked
  · contradiction

theorem prepareLive (inv : LiveInv known s) (ran : liveStep s (.prepare fuel ino iblock) = some t) : ∃ now, LiveInv now t := by
  obtain ⟨run,made,rfl⟩ := Option.map_eq_some_iff.mp ran
  simp only [fsStep] at made
  split at made
  · rename_i inside
    obtain ⟨⟨fs,found⟩,walked,rest⟩ := Option.bind_eq_some_iff.mp made
    obtain ⟨dnode,_,rfl⟩ := Option.map_eq_some_iff.mp rest
    exact walkAdvances inv inside walked
  · contradiction

theorem submitDataLive (inv : LiveInv known s) {answers : List Bool}
    (ran : liveStep s (.submitData fuel ino iblock answers) = some t) : ∃ now, LiveInv now t := by
  obtain ⟨run,made,rest⟩ := Option.bind_eq_some_iff.mp ran
  simp only [fsStep] at made
  split at made
  · rename_i guard
    obtain ⟨⟨fs,found⟩,walked,rfl⟩ := Option.map_eq_some_iff.mp made
    obtain ⟨now,invFs⟩ := walkAdvances inv guard.1 walked
    obtain ⟨_,q,named,path,_⟩ := dnodePageAdvances (rawBlockLoading inv.ok.metaIn fuel) guard.1 inv.ok.fs walked
    cases found with
    | none =>
      dsimp only [Option.map_none,Option.toList_none,List.nil_append] at rest
      rw [guard.2] at rest
      cases rest
      exact ⟨now,invFs⟩
    | some dnode =>
      have first : (⟨ino,iblock,dnode⟩ :: s.run.flights).find? (DataFlight.of ino iblock) = some ⟨ino,iblock,dnode⟩ :=
        List.find?_cons_of_pos (flightOf.mpr ⟨rfl,rfl⟩)
      dsimp only [Option.map_some,Option.toList_some,List.cons_append,List.nil_append] at rest
      rw [first] at rest
      obtain ⟨⟨zones,new⟩,sent,rfl⟩ := Option.map_eq_some_iff.mp rest
      obtain ⟨here,cached⟩ := path dnode rfl
      refine ⟨now,⟨invFs.ok.fs,invFs.ok.metaIn,fun f flying => ?_⟩,invFs.unnamed,invFs.held,?_,?_⟩
      · rcases List.mem_cons.mp flying with rfl | old
        · exact ⟨guard.1,cached,q,named,here⟩
        · exact invFs.ok.held f old
      · refine List.pairwise_cons.mpr ⟨fun f old same => ?_,inv.alone⟩
        have none_ := List.find?_eq_none.mp guard.2 f old
        exact none_ (flightOf.mpr ⟨same.1.symm,same.2.symm⟩)
      · have word : (fs.nodes dnode).dataAddr iblock = blockAt fs.content ino q := by
          rw [blockAtFound here,contentHeld cached,← named,dataAddrWord]
        rw [word] at sent
        refine @liveLeaves (s.setFs fs) _ (.data ino q) _ _ _ _ invFs.sound ?_ sent rfl (fun x => ?_) rfl
        · unfold LiveRun.cell
          exact if_pos guard.1
        · cases x with
          | nat nid =>
            constructor
            · exact .inr
            · rintro (bad | there)
              · cases bad
              · exact there
          | data other p =>
            constructor
            · rintro ⟨f,flying,of⟩
              rcases List.mem_cons.mp flying with rfl | old
              · obtain ⟨rfl,index⟩ := flightOf.mp of
                obtain rfl : q = p := TreePath.indexInjective (named.trans index)
                exact .inl rfl
              · exact .inr ⟨f,old,of⟩
            · rintro (same | ⟨f,old,of⟩)
              · cases same
                exact ⟨_,List.mem_cons_self,flightOf.mpr ⟨rfl,named.symm⟩⟩
              · exact ⟨f,List.mem_cons_of_mem _ old,of⟩
  · contradiction

theorem flightErased {flights : List DataFlight} (alone : flights.Pairwise fun f g => ¬(f.ino = g.ino ∧ f.iblock = g.iblock))
    (i b : Nat) : (∃ g ∈ flights.eraseP (DataFlight.of ino iblock), DataFlight.of i b g = true) ↔
      (∃ g ∈ flights, DataFlight.of i b g = true) ∧ ¬(i = ino ∧ b = iblock) := by
  induction flights with
  | nil => simp
  | cons f rest ih =>
    obtain ⟨apart,restAlone⟩ := List.pairwise_cons.mp alone
    by_cases page : DataFlight.of ino iblock f = true
    · rw [List.eraseP_cons_of_pos page]
      obtain ⟨fIno,fBlock⟩ := flightOf.mp page
      constructor
      · rintro ⟨g,member,of⟩
        obtain ⟨gIno,gBlock⟩ := flightOf.mp of
        refine ⟨⟨g,List.mem_cons_of_mem _ member,of⟩,fun same => apart g member ?_⟩
        exact ⟨fIno.trans (same.1.symm.trans gIno.symm),fBlock.trans (same.2.symm.trans gBlock.symm)⟩
      · rintro ⟨⟨g,member,of⟩,differ⟩
        rcases List.mem_cons.mp member with rfl | later
        · obtain ⟨gIno,gBlock⟩ := flightOf.mp of
          exact absurd ⟨gIno.symm.trans fIno,gBlock.symm.trans fBlock⟩ differ
        · exact ⟨g,later,of⟩
    · rw [List.eraseP_cons_of_neg page]
      have inner := ih restAlone
      constructor
      · rintro ⟨g,member,of⟩
        rcases List.mem_cons.mp member with rfl | later
        · refine ⟨⟨g,List.mem_cons_self,of⟩,?_⟩
          rintro ⟨rfl,rfl⟩
          exact page of
        · obtain ⟨⟨h,there,also⟩,differ⟩ := inner.mp ⟨g,later,of⟩
          exact ⟨⟨h,List.mem_cons_of_mem _ there,also⟩,differ⟩
      · rintro ⟨⟨g,member,of⟩,differ⟩
        rcases List.mem_cons.mp member with rfl | later
        · exact ⟨g,List.mem_cons_self,of⟩
        · obtain ⟨h,there,also⟩ := inner.mpr ⟨⟨g,later,of⟩,differ⟩
          exact ⟨h,List.mem_cons_of_mem _ there,also⟩

theorem completeDataLive (inv : LiveInv known s) (ran : liveStep s (.completeData ino iblock blkaddr) = some t) :
    ∃ now, LiveInv now t := by
  simp only [liveStep] at ran
  split at ran
  · contradiction
  · rename_i unwritten
    have fresh : s.written blkaddr = false := eq_false_of_ne_true unwritten
    obtain ⟨run,made,rfl⟩ := Option.map_eq_some_iff.mp ran
    obtain ⟨now,_,okT,inodes,blocks⟩ := completeStores inv.ok made
    simp only [fsStep] at made
    split at made
    · contradiction
    · rename_i nonzero
      obtain ⟨f,flying,rfl⟩ := Option.map_eq_some_iff.mp made
      have page := flightOf.mp (List.find?_some flying)
      have member := List.mem_of_find?_eq_some flying
      obtain ⟨live,cached,q,named,path⟩ := inv.ok.held f member
      rw [page.1] at live
      rw [page.2] at named
      have stored : WriteEvent.stored ino q.index (.complete ino iblock blkaddr) = some blkaddr := if_pos ⟨rfl,named.symm⟩
      refine ⟨now,okT,inv.unnamed,inv.held,inv.alone.sublist List.eraseP_sublist,?_⟩
      refine @liveLands s _ blkaddr (.data ino q) inv.sound ⟨f,member,?_⟩ fresh ?_ (fun x differ => ?_) (fun x => ?_) rfl rfl
      · exact flightOf.mpr ⟨page.1,page.2.trans named.symm⟩
      · have word := blocks ino live q
        rw [stored] at word
        exact (if_pos live).trans ((congrArg ptr word).trans (ptrSome.mpr ⟨rfl,nonzero⟩))
      · cases x with
        | nat nid => rfl
        | data other p =>
          have away : WriteEvent.stored other p.index (.complete ino iblock blkaddr) = none := by
            refine if_neg ?_
            rintro ⟨rfl,index⟩
            obtain rfl : q = p := TreePath.indexInjective (named.trans index)
            exact differ rfl
          refine dataCell rfl fun member => ?_
          have word := blocks other member p
          rw [away] at word
          exact word
      · cases x with
        | nat nid => exact ⟨fun here => ⟨here,fun bad => by cases bad⟩,fun both => both.1⟩
        | data other p =>
          refine (flightErased inv.alone other p.index).trans (and_congr_right fun _ => not_congr ?_)
          constructor
          · rintro ⟨rfl,index⟩
            rw [TreePath.indexInjective (index.trans named.symm)]
          · intro same
            cases same
            exact ⟨rfl,named⟩

theorem submitNodeLive (inv : LiveInv known s) {answers : List Bool}
    (ran : liveStep s (.submitNode fuel nid answers) = some t) : ∃ now, LiveInv now t := by
  simp only [liveStep] at ran
  split at ran
  · rename_i guard
    obtain ⟨⟨fs,ne⟩,looked,rest⟩ := Option.bind_eq_some_iff.mp ran
    obtain ⟨⟨zones,new⟩,sent,rfl⟩ := Option.map_eq_some_iff.mp rest
    obtain ⟨advances,found⟩ := lookupAdvances (rawBlockLoading inv.ok.metaIn fuel) inv.ok.fs looked
    have steady := addrSteady inv.ok.fs.nat (lookupPrepares (rawBlockPrepares fuel) looked)
    obtain ⟨now,invFs⟩ := liveAdvance inv advances steady
    obtain ⟨_,_,_,grown⟩ := advances
    have held : fs.cached nid = true := grown.cached nid guard.1
    have member : now nid = true := by
      by_contra unknown
      have missing : fs.cached nid = false := invFs.ok.fs.fresh nid (eq_false_of_ne_true unknown)
      rw [held] at missing
      contradiction
    have used : ∃ ne, fs.nat.nm.slot nid = some (true,ne) := by
      rcases invFs.ok.fs.nat.used nid member with here | ⟨none_,_⟩
      · exact here
      · cases (slotNone.mp none_).symm.trans found
    refine ⟨now,invFs.ok,invFs.unnamed,fun other flying => ?_,invFs.alone,?_⟩
    · rcases List.mem_cons.mp flying with rfl | old
      · exact ⟨held,used⟩
      · exact invFs.held other old
    · refine @liveLeaves (s.setFs fs) _ (.nat nid) _ _ _ _ invFs.sound ?_ sent rfl (fun x => ?_) rfl
      · exact congrArg (fun found => found.bind ptr) (lookupAddr found)
      · cases x with
        | nat other =>
          refine List.mem_cons.trans (or_congr_left ?_)
          exact ⟨fun same => by rw [same],fun same => by cases same; rfl⟩
        | data other p => exact ⟨.inr,fun bad => bad.elim (fun same => by cases same) id⟩
  · contradiction

theorem completeNodeLive (inv : LiveInv known s) (ran : liveStep s (.completeNode nid blkaddr) = some t) : ∃ now, LiveInv now t := by
  simp only [liveStep] at ran
  split at ran
  · rename_i guard
    obtain ⟨flying,nonzero,fresh⟩ := guard
    cases ran
    obtain ⟨held,ne,here⟩ := inv.held nid flying
    obtain ⟨fs,state⟩ : ∃ fs : Fs, fs = { s.run.fs with
      nat := { s.run.fs.nat with nm := (updateNat s.run.fs.nat.nm nid blkaddr false).1 } } := ⟨_,rfl⟩
    rw [← state]
    obtain ⟨content,ok,self,others⟩ := writtenOk inv.ok.fs here held blkaddr state
    have cached : fs.cached = s.run.fs.cached := by rw [state]
    have named : nid ≠ 0 := by
      rintro rfl
      have address : natAddr s.run.fs.nat.file s.run.fs.nat.nm 0 = some _ := addrUsed here
      exact Option.some_ne_none _ (address.symm.trans inv.unnamed)
    refine ⟨known,⟨ok,inv.ok.metaIn,fun f there => ?_⟩,?_,fun other member => ?_,inv.alone,?_⟩
    · obtain ⟨live,hold,q,index,path⟩ := inv.ok.held f there
      refine ⟨live,?_,q,index,?_⟩
      · exact cached ▸ hold
      · exact content ▸ path
    · exact (others 0 named.symm).trans inv.unnamed
    · obtain ⟨hold,entry,there⟩ := inv.held other (List.mem_filter.mp member).1
      refine ⟨cached ▸ hold,?_⟩
      have after := @keepsUsedUpdate _ nid blkaddr false other entry there
      rw [state]
      exact after
    · refine @liveLands s _ blkaddr (.nat nid) inv.sound flying fresh ?_ (fun x differ => ?_) (fun x => ?_) rfl rfl
      · refine (congrArg (fun found => found.bind ptr) self).trans ?_
        exact ptrSome.mpr ⟨rfl,nonzero⟩
      · cases x with
        | nat other => exact natCell (others other fun same => differ (same ▸ rfl))
        | data ino p => exact dataCell rfl fun _ => congrArg (fun nodes => blockAt nodes ino p) content
      · cases x with
        | nat other =>
          refine List.mem_filter.trans (and_congr_right fun _ => ?_)
          rw [decide_eq_true_eq]
          exact not_congr ⟨fun same => by rw [same],fun same => by cases same; rfl⟩
        | data ino p => exact ⟨fun there => ⟨there,fun bad => by cases bad⟩,fun both => both.1⟩
  · contradiction

end

end Xcpfs
