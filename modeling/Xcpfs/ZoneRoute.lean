import Xcpfs.ZoneMount

/-! The zone a write goes to, over any run of mounts, writes and completions. A block
written since the mount lies in an open zone of its type or in a full one; for a block
from before, the condition is on the table as the mount found it. -/
namespace Xcpfs

open EventRun

def getPageType (ino iblock : Nat) : PageType :=
  if ino = metaIno then .metaData
  else if ino = nodeIno then if isMetaNid iblock then .metaNode else .regNode
  else .regData

structure RouteRun where
  sbi : ZoneSbi
  atMount : ZmInfo
  written : Nat → Option PageType
  flying : List (PageType × Nat)

inductive RouteEvent where
  | mount (mem : RawMemory) (bdev : BlockDevice) (page : Nat → Option ZitBlock)
  | submit (type : PageType) (oldBlkaddr : Nat) (answers : List Bool)
  | complete (type : PageType) (blkaddr : Nat)
  | invalidate (blkaddr : Nat)
  | checkpoint (locked : Bool) (restart : Option Bool)

def mountRun (zm : ZmInfo) : RouteRun where
  sbi := { zm := zm, cpSemLocked := false, cpcRestart := none }
  atMount := zm
  written := fun _ => none
  flying := []

/- An append completes at an address of the zone it was submitted to. -/
def routeStep (s : RouteRun) : RouteEvent → Option RouteRun
  | .mount mem bdev page => (mountOver mem bdev page).map mountRun
  | .submit type oldBlkaddr answers =>
    (allocZone .zoneAppend type oldBlkaddr answers s.sbi).map fun (sbi,new) =>
      { s with sbi := sbi, flying := (type,sbi.zm.blk2zone new) :: s.flying }
  | .complete type blkaddr =>
    if (type,s.sbi.zm.blk2zone blkaddr) ∈ s.flying then
      some { s with
        sbi := { s.sbi with zm := validateBlkaddr s.sbi.zm blkaddr }
        written := Function.update s.written blkaddr (some type)
        flying := s.flying.erase (type,s.sbi.zm.blk2zone blkaddr) }
    else none
  | .invalidate blkaddr => some { s with sbi := { s.sbi with zm := invalidateBlkaddr s.sbi.zm blkaddr } }
  | .checkpoint locked restart => some { s with sbi := { s.sbi with cpSemLocked := locked, cpcRestart := restart } }

/- A zone that writes of the type may go on using, or that is used up. -/
def Usable (zm : ZmInfo) (zone type : Nat) : Prop :=
  (zm.zoneInfo zone).cond = .full ∨ ((zm.zoneInfo zone).zoneType = type ∧ (zm.zoneInfo zone).cond.isOpen = true)

def routeFits (s : RouteRun) : RouteEvent → Prop
  | .mount mem bdev _ => NullSlots mem ∧ ∃ blocks, Reported bdev blocks
  | .submit type oldBlkaddr answers =>
    (Searches s.sbi.zm oldBlkaddr → searchTwice type.code answers s.sbi = false) ∧
      (¬Searches s.sbi.zm oldBlkaddr →
        s.written oldBlkaddr = some type ∨ Usable s.atMount (s.sbi.zm.blk2zone oldBlkaddr) type.code)
  | _ => True

/- Conditions and types move on only from empty zones, or to full ones. -/
structure Settles (zm other : ZmInfo) : Prop where
  size : other.zoneSize = zm.zoneSize
  settled : ∀ zone ≠ 0, ∀ type, Usable zm zone type → Usable other zone type

structure Routed (s : RouteRun) : Prop where
  laid : Laid s.sbi.zm
  accounted : Accounted s.sbi.zm
  since : Settles s.atMount s.sbi.zm
  written : ∀ blkaddr type, s.written blkaddr = some type → s.sbi.zm.blk2zone blkaddr ≠ 0 →
    Usable s.sbi.zm (s.sbi.zm.blk2zone blkaddr) type.code
  flying : ∀ write ∈ s.flying, write.2 ≠ 0 → Usable s.sbi.zm write.2 write.1.code

section
variable {zm other : ZmInfo}

theorem settlesRefl (zm : ZmInfo) : Settles zm zm := ⟨rfl,fun _ _ _ settled => settled⟩

theorem settlesTrans {mid : ZmInfo} (first : Settles zm mid) (second : Settles mid other) : Settles zm other :=
  ⟨second.size.trans first.size,fun zone zero type settled => second.settled zone zero type (first.settled zone zero type settled)⟩

theorem blk2zoneSize (same : other.zoneSize = zm.zoneSize) (blkaddr : Nat) : other.blk2zone blkaddr = zm.blk2zone blkaddr := by
  unfold ZmInfo.blk2zone ZmInfo.blocksPerZone
  rw [same]

theorem settlesInvalidate (blkaddr : Nat) : Settles zm (invalidateBlkaddr zm blkaddr) := by
  refine ⟨rfl,?_⟩
  intro zone _ type settled
  have same := invalidateSame zm blkaddr zone
  unfold Usable
  rw [same.1,same.2]
  exact settled

theorem validateCond (blkaddr zone : Nat) : ((validateBlkaddr zm blkaddr).zoneInfo zone).cond = .full ∨
    ((validateBlkaddr zm blkaddr).zoneInfo zone).cond = (zm.zoneInfo zone).cond := by
  unfold validateBlkaddr
  dsimp only
  split
  · rw [removeOpenedInfo,removeActiveInfo]
    refine setZoneEach (fun z zi => zi.cond = .full ∨ zi.cond = (zm.zoneInfo z).cond) (fun _ => .inr rfl) ?_ zone
    exact .inl rfl
  · refine setZoneEach (fun z zi => zi.cond = .full ∨ zi.cond = (zm.zoneInfo z).cond) (fun _ => .inr rfl) ?_ zone
    exact .inr rfl

theorem validateElse {blkaddr zone : Nat} (other : zone ≠ zm.blk2zone blkaddr) : (validateBlkaddr zm blkaddr).zoneInfo zone = zm.zoneInfo zone := by
  unfold validateBlkaddr
  dsimp only
  split
  · rw [removeOpenedInfo,removeActiveInfo,setZoneInfo,Function.update_of_ne other]
  · rw [setZoneInfo,Function.update_of_ne other]

theorem validateSize (blkaddr : Nat) : (validateBlkaddr zm blkaddr).zoneSize = zm.zoneSize := by
  unfold validateBlkaddr
  dsimp only
  split <;> rfl

theorem settlesValidate (blkaddr : Nat) : Settles zm (validateBlkaddr zm blkaddr) := by
  refine ⟨validateSize blkaddr,?_⟩
  intro zone _ type settled
  obtain full | same := @validateCond zm blkaddr zone
  · exact .inl full
  · unfold Usable
    rw [same,validateType]
    exact settled

theorem settlesSearch {s t : ZoneSbi} {type zone : Nat} {answers : List Bool} (ok : Laid s.zm)
    (ran : getZone type answers s = some (t,zone)) : Settles s.zm t.zm := by
  refine ⟨(searchBlocks ran).size,?_⟩
  intro place notZero typed settled
  obtain ⟨cond,same,_⟩ | ⟨_,empty⟩ := searchTouches ok ran place notZero
  · unfold Usable
    rw [cond,same]
    exact settled
  · obtain full | ⟨_,open_⟩ := settled
    · rw [empty] at full
      cases full
    · rw [empty] at open_
      cases open_

theorem blk2zoneStart (ok : Laid zm) (zone : Nat) : zm.blk2zone ((zm.zoneInfo zone).start / 2 ^ pageSectorsShift) = zone := by
  have shift : 2 ^ pageSectorsShift = 8 := rfl
  rw [ok.start zone,ok.aligned,shift,← Nat.mul_assoc,Nat.mul_div_cancel _ (by decide)]
  exact Nat.mul_div_cancel zone ok.positive

theorem invalidateAccounted (ok : Accounted zm) (blkaddr : Nat) : Accounted (invalidateBlkaddr zm blkaddr) :=
  accountedTouch ok rfl

end

section
variable {s t : RouteRun} {event : RouteEvent}

theorem routeFound {type : PageType} {oldBlkaddr new : Nat} {answers : List Bool} {u : ZoneSbi} (routed : Routed s)
    (fits : routeFits s (.submit type oldBlkaddr answers))
    (ran : allocZone .zoneAppend type oldBlkaddr answers s.sbi = some (u,new)) :
    Laid u.zm ∧ Accounted u.zm ∧ Settles s.sbi.zm u.zm ∧ (u.zm.zoneInfo (u.zm.blk2zone new)).zoneType = type.code ∧
      (u.zm.zoneInfo (u.zm.blk2zone new)).cond.isOpen = true := by
  obtain ⟨v,zone,same,start,blocks,chosen⟩ := allocZoneIs ran
  have found : Laid v.zm ∧ Accounted v.zm ∧ Settles s.sbi.zm v.zm ∧ (v.zm.zoneInfo zone).zoneType = type.code ∧
      (v.zm.zoneInfo zone).cond.isOpen = true := by
    by_cases searches : Searches s.sbi.zm oldBlkaddr
    · have chosen := chosen.1 searches
      have kept := searchKeeps routed.accounted (fits.1 searches) chosen
      obtain ⟨listed,typed⟩ := searchListed routed.laid chosen
      exact ⟨laidSearch routed.laid chosen,kept,settlesSearch routed.laid chosen,typed,(kept.openedIs zone).mp listed⟩
    · obtain ⟨stays,here⟩ := chosen.2 searches
      obtain ⟨notFull,notZero⟩ := not_or.mp searches
      have settled : Usable s.sbi.zm zone type.code := by
        rw [here]
        obtain written | before := fits.2 searches
        · exact routed.written oldBlkaddr type written notZero
        · exact routed.since.settled _ notZero _ before
      rw [stays]
      refine ⟨routed.laid,routed.accounted,settlesRefl _,?_⟩
      obtain full | open_ := settled
      · rw [here] at full
        exact absurd (decide_eq_true full) notFull
      · exact open_
  obtain ⟨laid,accounted,settles,typed,open_⟩ := found
  have place : u.zm.blk2zone new = zone := by
    rw [same,start]
    exact blk2zoneStart laid zone
  have kept : (u.zm.zoneInfo zone).cond = (v.zm.zoneInfo zone).cond ∧
      (u.zm.zoneInfo zone).zoneType = (v.zm.zoneInfo zone).zoneType := by
    rw [same]
    exact invalidateSame v.zm oldBlkaddr zone
  rw [place,kept.2,kept.1]
  refine ⟨?_,?_,?_,typed,open_⟩
  · rw [same]
    exact laidInvalidate laid oldBlkaddr
  · rw [same]
    exact invalidateAccounted accounted oldBlkaddr
  · rw [same]
    exact settlesTrans settles (settlesInvalidate oldBlkaddr)

theorem routedMove (routed : Routed s) (sbi : ZoneSbi) (laid : Laid sbi.zm) (accounted : Accounted sbi.zm)
    (settles : Settles s.sbi.zm sbi.zm) : Routed { s with sbi := sbi } := by
  refine ⟨laid,accounted,settlesTrans routed.since settles,?_,?_⟩
  · intro blkaddr type written notZero
    change sbi.zm.blk2zone blkaddr ≠ 0 at notZero
    change Usable sbi.zm (sbi.zm.blk2zone blkaddr) type.code
    rw [blk2zoneSize settles.size] at notZero ⊢
    exact settles.settled _ notZero _ (routed.written blkaddr type written notZero)
  · intro write member notZero
    exact settles.settled _ notZero _ (routed.flying write member notZero)

theorem routedMount {zm : ZmInfo} (laid : Laid zm) (accounted : Accounted zm) : Routed (mountRun zm) := by
  refine ⟨laid,accounted,settlesRefl zm,?_,?_⟩
  · intro blkaddr type written
    cases written
  · intro write member
    cases member

theorem routeStepKeeps (s : RouteRun) (event : RouteEvent) (next : RouteRun) (routed : Routed s) (fits : routeFits s event)
    (ran : routeStep s event = some next) : Routed next := by
  cases event with
  | mount mem bdev page =>
    obtain ⟨null,blocks,reported⟩ := fits
    obtain ⟨zm,mounted,same⟩ := Option.map_eq_some_iff.mp ran
    subst same
    exact routedMount (mountMounted reported mounted).laid (mountAccounted reported null mounted)
  | submit type oldBlkaddr answers =>
    obtain ⟨⟨u,new⟩,chosen,same⟩ := Option.map_eq_some_iff.mp ran
    obtain ⟨laid,accounted,settles,typed,open_⟩ := routeFound routed fits chosen
    have moved := routedMove routed u laid accounted settles
    rw [← same]
    refine ⟨moved.laid,moved.accounted,moved.since,moved.written,?_⟩
    intro write member notZero
    obtain here | old := List.mem_cons.mp member
    · rw [here]
      exact .inr ⟨typed,open_⟩
    · exact moved.flying write old notZero
  | complete type blkaddr =>
    dsimp only [routeStep] at ran
    split at ran
    case isTrue flies =>
      have moved := routedMove routed { s.sbi with zm := validateBlkaddr s.sbi.zm blkaddr }
        (laidValidate routed.laid blkaddr) (validateKeeps routed.accounted blkaddr) (settlesValidate blkaddr)
      rw [← Option.some.inj ran]
      refine ⟨moved.laid,moved.accounted,moved.since,?_,?_⟩
      · intro other kind written notZero
        change Function.update s.written blkaddr (some type) other = some kind at written
        by_cases same : other = blkaddr
        · subst same
          rw [Function.update_self] at written
          cases Option.some.inj written
          change (validateBlkaddr s.sbi.zm other).blk2zone other ≠ 0 at notZero
          change Usable (validateBlkaddr s.sbi.zm other) ((validateBlkaddr s.sbi.zm other).blk2zone other) type.code
          rw [blk2zoneSize (validateSize other)] at notZero ⊢
          exact moved.flying _ flies notZero
        · rw [Function.update_of_ne same] at written
          exact moved.written other kind written notZero
      · intro write member
        exact moved.flying write (List.mem_of_mem_erase member)
    case isFalse => cases ran
  | invalidate blkaddr =>
    rw [← Option.some.inj ran]
    exact routedMove routed _ (laidInvalidate routed.laid blkaddr) (invalidateAccounted routed.accounted blkaddr)
      (settlesInvalidate blkaddr)
  | checkpoint locked restart =>
    rw [← Option.some.inj ran]
    exact routedMove routed _ routed.laid routed.accounted (settlesRefl _)

/- In every run from a mount over zeroed slots whose steps meet the condition, a further write that
meets it gets a zone of its type that is open, and counted among the open ones. -/
theorem allocZoneRoutes {mem : RawMemory} {bdev : BlockDevice} {blocks : Nat} {page : Nat → Option ZitBlock}
    {zm : ZmInfo} {events : List RouteEvent} {type : PageType} {oldBlkaddr new : Nat} {answers : List Bool} {u : ZoneSbi}
    (reported : Reported bdev blocks) (null : NullSlots mem) (mounted : mountOver mem bdev page = some zm)
    (run : Run routeFits routeStep (mountRun zm) events t) (fits : routeFits t (.submit type oldBlkaddr answers))
    (ran : allocZone .zoneAppend type oldBlkaddr answers t.sbi = some (u,new)) :
    (u.zm.zoneInfo (u.zm.blk2zone new)).zoneType = type.code ∧
      (u.zm.zoneInfo (u.zm.blk2zone new)).cond.isOpen = true ∧ some (u.zm.blk2zone new) ∈ u.zm.zoneOpened := by
  have routed := EventRun.invariant Routed routeStepKeeps run
    (routedMount (mountMounted reported mounted).laid (mountAccounted reported null mounted))
  obtain ⟨_,accounted,_,typed,open_⟩ := routeFound routed fits ran
  exact ⟨typed,open_,(accounted.openedIs _).mpr open_⟩

end

/- Eight zones of four blocks as mkfs leaves them: the super block in zone 0, the meta
inode in zone 3, the root inode in zone 5 and its two blocks in zone 6. -/
def mkfsDevice : BlockDevice where
  nrZones := 8
  maxOpenZones := 8
  maxActiveZones := 8
  zones := fun zone =>
    { start := zone * 32, len := 32, capacity := 32
      wp := zone * 32 + if zone = 6 then 16 else if zone = 0 ∨ zone = 3 ∨ zone = 5 then 8 else 0
      cond := if zone = 0 ∨ zone = 3 ∨ zone = 5 ∨ zone = 6 then .expOpen else .empty }

theorem mkfsReported : Reported mkfsDevice 4 := by
  refine ⟨by decide,by decide,by decide,fun _ => rfl,fun _ => rfl,fun _ => Nat.le_add_right ..,?_⟩
  intro zone
  apply Nat.add_le_add_left
  change (if zone = 6 then 16 else if zone = 0 ∨ zone = 3 ∨ zone = 5 then 8 else 0) ≤ 32
  split
  · decide
  · split <;> decide

def mkfsMemory : RawMemory := zeroMemory mkfsDevice fun _ _ => false

def mkfsTable : ZmInfo := (mountOver mkfsMemory mkfsDevice fun _ => none).getD (blankTable mkfsDevice)

theorem mkfsMounts : mountOver mkfsMemory mkfsDevice (fun _ => none) = some mkfsTable := rfl

theorem mkfsNull : NullSlots mkfsMemory := nullZero mkfsDevice _

example : mkfsTable.zoneOpened = [some 0,some 3,some 5,some 6,none,none,none,none] := by decide

/-- A new data block opens zone 2; its rewrite stays there. -/
theorem allocZoneRoutesRewrite : ∃ u new t, exec routeStep (mountRun mkfsTable) [.submit .regData 0 [true],.complete .regData 8] = some t ∧
    allocZone .zoneAppend .regData 8 [] t.sbi = some (u,new) ∧ (u.zm.zoneInfo (u.zm.blk2zone new)).zoneType = PageType.regData.code ∧
      (u.zm.zoneInfo (u.zm.blk2zone new)).cond.isOpen = true ∧ some (u.zm.blk2zone new) ∈ u.zm.zoneOpened := by
  obtain ⟨t,ran⟩ : ∃ t, exec routeStep (mountRun mkfsTable) [.submit .regData 0 [true],.complete .regData 8] = some t := ⟨_,rfl⟩
  have guarded : Guarded routeFits routeStep (mountRun mkfsTable) [.submit .regData 0 [true],.complete .regData 8] :=
    ⟨⟨fun _ => rfl,fun stays => absurd (.inr rfl) stays⟩,fun _ _ => ⟨trivial,fun _ _ => trivial⟩⟩
  obtain ⟨⟨u,new⟩,chosen⟩ : ∃ found, allocZone .zoneAppend .regData 8 [] t.sbi = some found := by
    cases ran
    exact ⟨_,rfl⟩
  have fits : routeFits t (.submit .regData 8 []) := by
    cases ran
    exact ⟨fun _ => rfl,fun _ => .inl rfl⟩
  exact ⟨u,new,t,ran,chosen,allocZoneRoutes mkfsReported mkfsNull mkfsMounts (ofExec ran guarded) fits chosen⟩

/-- The root inode is written as a metadata node and stays in zone 5, a zone for regular nodes. -/
theorem rootInodeMisrouted : ¬∀ (type : PageType) (oldBlkaddr new : Nat) (answers : List Bool) (u : ZoneSbi),
    allocZone .zoneAppend type oldBlkaddr answers (mountRun mkfsTable).sbi = some (u,new) →
      (u.zm.zoneInfo (u.zm.blk2zone new)).zoneType = type.code := by
  intro claim
  have typed := claim (getPageType nodeIno rootIno) 20 _ [] _ rfl
  contradiction

end Xcpfs
