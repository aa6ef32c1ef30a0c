import Xcpfs.ZoneFlight

/-! Write pointers of the table against those of the device. The device appends at its
own pointer and refuses what does not fit and the opening of a full zone; appends
complete in any order, between requests for any zone. -/
namespace Xcpfs

open EventRun

/- `tip` is the sector where the device appends next, `landed` are the sectors of
appends whose completion has not run. -/
structure PointerRun where
  zm : ZmInfo
  tip : Nat → Nat
  landed : List Nat

inductive PointerEvent where
  | request (zone : Nat) (op : ZoneOp) (accepted : Bool)
  | append (zone : Nat)
  | complete (sector : Nat)

def BlockDevice.endOf (bdev : BlockDevice) (zone : Nat) : Nat := (bdev.zones zone).start + (bdev.zones zone).capacity

def finishes (zm : ZmInfo) (zone : Nat) (op : ZoneOp) (accepted : Bool) : Bool :=
  decide (op = .finish) && decide ((zm.zoneInfo zone).cond ≠ .empty) && accepted

def resets (op : ZoneOp) (accepted : Bool) : Bool := decide (op = .reset) && accepted

def pointerStep (bdev : BlockDevice) (s : PointerRun) : PointerEvent → Option PointerRun
  | .request zone op accepted =>
    if zone < s.zm.nrZones ∧ (op = .open_ → accepted = true → s.tip zone < bdev.endOf zone) then
      let tip :=
        if finishes s.zm zone op accepted then bdev.endOf zone
        else if resets op accepted then (bdev.zones zone).start
        else s.tip zone
      some { s with zm := (xcpfsZoneMgmt s.zm zone op accepted).1, tip := Function.update s.tip zone tip }
    else none
  | .append zone =>
    if zone < s.zm.nrZones ∧ s.tip zone + 2 ^ pageSectorsShift ≤ bdev.endOf zone then
      some { s with tip := Function.update s.tip zone (s.tip zone + 2 ^ pageSectorsShift), landed := s.tip zone :: s.landed }
    else none
  | .complete sector =>
    if sector ∈ s.landed then
      some { s with zm := validateBlkaddr s.zm (sector / 2 ^ pageSectorsShift), landed := s.landed.erase sector }
    else none

def pointerStart (bdev : BlockDevice) (zm : ZmInfo) : PointerRun where
  zm := zm
  tip := fun zone => (bdev.zones zone).wp
  landed := []

/- The convention for one zone of the table. -/
structure Convention (zm : ZmInfo) (zone : Nat) : Prop where
  low : (zm.zoneInfo zone).start ≤ (zm.zoneInfo zone).wp
  high : (zm.zoneInfo zone).wp ≤ (zm.zoneInfo zone).start + zm.zoneCapacity
  full : (zm.zoneInfo zone).cond = .full ↔ (zm.zoneInfo zone).wp = (zm.zoneInfo zone).start + zm.zoneCapacity
  offset : ((zm.zoneInfo zone).wp + (zm.zoneInfo zone).writeInflight + 2 ^ 64 - (zm.zoneInfo zone).start) % 2 ^ 64 =
    (zm.zoneInfo zone).wp + (zm.zoneInfo zone).writeInflight - (zm.zoneInfo zone).start

def EmptyAtStart (zm : ZmInfo) (zone : Nat) : Prop :=
  (zm.zoneInfo zone).cond = .empty → (zm.zoneInfo zone).wp = (zm.zoneInfo zone).start

/- The device finishes or resets the zone at no request, and its blocks complete where the shift
of their address is exact. -/
def leavesZone (zone : Nat) (s : PointerRun) : PointerEvent → Prop
  | .request other op accepted => other = zone → finishes s.zm zone op accepted = false ∧ resets op accepted = false
  | .complete sector => s.zm.blk2zone (sector / 2 ^ pageSectorsShift) = zone → sector / 2 ^ pageSectorsShift + 1 < 2 ^ 28
  | _ => True

/- No append goes to the zone while the table takes it for empty. -/
def appendsOpen (zone : Nat) (s : PointerRun) : PointerEvent → Prop
  | .append other => other = zone → (s.zm.zoneInfo zone).cond ≠ .empty
  | _ => True

/- A device that reports a zone by the convention. -/
structure Told (bdev : BlockDevice) (zone : Nat) : Prop where
  high : (bdev.zones zone).wp ≤ bdev.endOf zone
  empty : (bdev.zones zone).cond = .empty → (bdev.zones zone).wp = (bdev.zones zone).start
  full : (bdev.zones zone).cond = .full ↔ (bdev.zones zone).wp = bdev.endOf zone

section
variable {zm : ZmInfo}

theorem mgmtEntry (zm : ZmInfo) (zone : Nat) (op : ZoneOp) (accepted : Bool) :
    ∃ zi, (xcpfsZoneMgmt zm zone op accepted).1.zoneInfo = Function.update zm.zoneInfo zone zi ∧
      (xcpfsZoneMgmt zm zone op accepted).1.zoneSize = zm.zoneSize ∧
      (xcpfsZoneMgmt zm zone op accepted).1.zoneCapacity = zm.zoneCapacity ∧
      (xcpfsZoneMgmt zm zone op accepted).1.nrZones = zm.nrZones ∧
      zi.start = (zm.zoneInfo zone).start ∧ zi.writeInflight = (zm.zoneInfo zone).writeInflight ∧
      (finishes zm zone op accepted = false → resets op accepted = false →
        zi.wp = (zm.zoneInfo zone).wp ∧
          (zi.cond = (zm.zoneInfo zone).cond ∨ (zi.cond = .expOpen ∧ op = .open_ ∧ accepted = true) ∨
            (zi.cond = .closed ∧ (zm.zoneInfo zone).cond = .expOpen))) := by
  have same : zm.zoneInfo = Function.update zm.zoneInfo zone (zm.zoneInfo zone) :=
    (Function.update_eq_self zone zm.zoneInfo).symm
  cases op with
  | open_ =>
    unfold xcpfsZoneMgmt xcpfsZoneOpen
    dsimp only
    split
    · exact ⟨_,same,rfl,rfl,rfl,rfl,rfl,fun _ _ => ⟨rfl,.inl rfl⟩⟩
    · split
      · exact ⟨_,same,rfl,rfl,rfl,rfl,rfl,fun _ _ => ⟨rfl,.inl rfl⟩⟩
      · split
        · exact ⟨_,same,rfl,rfl,rfl,rfl,rfl,fun _ _ => ⟨rfl,.inl rfl⟩⟩
        · split
          · exact ⟨_,same,rfl,rfl,rfl,rfl,rfl,fun _ _ => ⟨rfl,.inl rfl⟩⟩
          · rename_i taken
            have yes : accepted = true := eq_true_of_ne_false taken
            split
            · exact ⟨_,rfl,rfl,rfl,rfl,rfl,rfl,fun _ _ => ⟨rfl,.inr (.inl ⟨rfl,rfl,yes⟩)⟩⟩
            · exact ⟨_,rfl,rfl,rfl,rfl,rfl,rfl,fun _ _ => ⟨rfl,.inr (.inl ⟨rfl,rfl,yes⟩)⟩⟩
  | close =>
    unfold xcpfsZoneMgmt xcpfsZoneClose
    dsimp only
    split
    · exact ⟨_,same,rfl,rfl,rfl,rfl,rfl,fun _ _ => ⟨rfl,.inl rfl⟩⟩
    · rename_i exp
      split
      · exact ⟨_,same,rfl,rfl,rfl,rfl,rfl,fun _ _ => ⟨rfl,.inl rfl⟩⟩
      · exact ⟨_,rfl,rfl,rfl,rfl,rfl,rfl,fun _ _ => ⟨rfl,.inr (.inr ⟨rfl,not_not.mp exp⟩)⟩⟩
  | finish =>
    unfold xcpfsZoneMgmt xcpfsZoneFinish
    dsimp only
    split
    · exact ⟨_,same,rfl,rfl,rfl,rfl,rfl,fun _ _ => ⟨rfl,.inl rfl⟩⟩
    · rename_i notEmpty
      split
      · exact ⟨_,same,rfl,rfl,rfl,rfl,rfl,fun _ _ => ⟨rfl,.inl rfl⟩⟩
      · rename_i taken
        refine ⟨_,rfl,rfl,rfl,rfl,rfl,rfl,fun finished _ => ?_⟩
        unfold finishes at finished
        rw [decide_eq_true rfl,decide_eq_true notEmpty,eq_true_of_ne_false taken] at finished
        cases finished
  | reset =>
    unfold xcpfsZoneMgmt xcpfsZoneReset
    dsimp only
    split
    · exact ⟨_,same,rfl,rfl,rfl,rfl,rfl,fun _ _ => ⟨rfl,.inl rfl⟩⟩
    · rename_i taken
      refine ⟨_,rfl,rfl,rfl,rfl,rfl,rfl,fun _ reset => ?_⟩
      unfold resets at reset
      rw [decide_eq_true rfl,eq_true_of_ne_false taken] at reset
      cases reset
  | other => exact ⟨_,same,rfl,rfl,rfl,rfl,rfl,fun _ _ => ⟨rfl,.inl rfl⟩⟩

theorem validateEntry (zm : ZmInfo) (blkaddr : Nat) :
    ∃ zi, (validateBlkaddr zm blkaddr).zoneInfo = Function.update zm.zoneInfo (zm.blk2zone blkaddr) zi ∧
      zi.start = (zm.zoneInfo (zm.blk2zone blkaddr)).start ∧
      zi.writeInflight = (zm.zoneInfo (zm.blk2zone blkaddr)).writeInflight ∧
      zi.wp = validateWp (zm.zoneInfo (zm.blk2zone blkaddr)).wp blkaddr ∧
      zi.cond = if zi.wp = zm.zoneCapacity + zi.start then .full else (zm.zoneInfo (zm.blk2zone blkaddr)).cond := by
  unfold validateBlkaddr
  dsimp only
  split
  · rename_i reached
    exact ⟨_,rfl,rfl,rfl,rfl,(if_pos reached).symm⟩
  · rename_i short
    exact ⟨_,rfl,rfl,rfl,rfl,(if_neg short).symm⟩

end

/- What the run keeps about one zone that the device neither finishes nor resets. -/
structure Pointing (bdev : BlockDevice) (blocks capacity zone : Nat) (s : PointerRun) : Prop where
  size : s.zm.zoneSize = blocks * 8
  capacityIs : s.zm.zoneCapacity = capacity * 8
  start : (s.zm.zoneInfo zone).start = zone * (blocks * 8)
  quiet : (s.zm.zoneInfo zone).writeInflight = 0
  low : (s.zm.zoneInfo zone).start ≤ (s.zm.zoneInfo zone).wp
  below : (s.zm.zoneInfo zone).wp ≤ s.tip zone
  high : s.tip zone ≤ bdev.endOf zone
  full : (s.zm.zoneInfo zone).cond = .full ↔ (s.zm.zoneInfo zone).wp = bdev.endOf zone
  tips : ∀ other, other * (blocks * 8) ≤ s.tip other
  landed : ∀ sector ∈ s.landed, sector / (blocks * 8) = zone → sector + 8 ≤ s.tip zone

/- The zone holds nothing while the table takes it for empty. -/
def EmptyClean (blocks zone : Nat) (s : PointerRun) : Prop :=
  (s.zm.zoneInfo zone).cond = .empty →
    (s.zm.zoneInfo zone).wp = (s.zm.zoneInfo zone).start ∧ ∀ sector ∈ s.landed, sector / (blocks * 8) ≠ zone

section
variable {bdev : BlockDevice} {blocks capacity zone : Nat} {s t : PointerRun}

theorem endIs (roomy : Roomy bdev blocks capacity) (zone : Nat) : bdev.endOf zone = zone * (blocks * 8) + capacity * 8 := by
  unfold BlockDevice.endOf
  rw [roomy.reported.start,roomy.capacityIs]

theorem sectorZone (size : s.zm.zoneSize = blocks * 8) (sector : Nat) :
    s.zm.blk2zone (sector / 8) = sector / (blocks * 8) := by
  unfold ZmInfo.blk2zone ZmInfo.blocksPerZone
  rw [size,show (2 : Nat) ^ pageSectorsShift = 8 from rfl,Nat.mul_div_cancel blocks (by decide),Nat.div_div_eq_div_mul,Nat.mul_comm 8]

theorem appendZone (roomy : Roomy bdev blocks capacity) {other sector : Nat} (low : other * (blocks * 8) ≤ sector)
    (room : sector + 8 ≤ bdev.endOf other) : sector / (blocks * 8) = other := by
  rw [endIs roomy] at room
  have inside := roomy.inside
  apply Nat.div_eq_of_lt_le low
  rw [Nat.add_mul,Nat.one_mul]
  omega

theorem pointingConvention (roomy : Roomy bdev blocks capacity) (pointing : Pointing bdev blocks capacity zone s) :
    Convention s.zm zone := by
  obtain ⟨size,capacityIs,start,quiet,low,below,high,full,tips,landed⟩ := pointing
  have inside := roomy.inside
  have small := roomy.reported.small
  rw [endIs roomy,← start] at high full
  unfold longMax at small
  refine ⟨low,?_,?_,?_⟩
  · omega
  · rw [full,capacityIs]
  · rw [quiet]
    omega

theorem pointingRequest (roomy : Roomy bdev blocks capacity) (pointing : Pointing bdev blocks capacity zone s) {other : Nat}
    {op : ZoneOp} {accepted : Bool} (ran : pointerStep bdev s (.request other op accepted) = some t)
    (leaves : leavesZone zone s (.request other op accepted)) : Pointing bdev blocks capacity zone t := by
  obtain ⟨zi,info,size,capacityIs,_,start,quiet,kept⟩ := mgmtEntry s.zm other op accepted
  dsimp only [pointerStep] at ran
  split at ran
  case isFalse => cases ran
  case isTrue allowed =>
  cases ran
  have tips : ∀ z, z * (blocks * 8) ≤ Function.update s.tip other
      (if finishes s.zm other op accepted then bdev.endOf other
        else if resets op accepted then (bdev.zones other).start else s.tip other) z := by
    intro z
    by_cases here : z = other
    · subst here
      rw [Function.update_self]
      split
      · rw [endIs roomy]
        exact Nat.le_add_right _ _
      · split
        · exact Nat.le_of_eq (roomy.reported.start z).symm
        · exact pointing.tips z
    · rw [Function.update_of_ne here]
      exact pointing.tips z
  by_cases here : zone = other
  · subst here
    obtain ⟨unfinished,unreset⟩ := leaves rfl
    obtain ⟨wp,cond⟩ := kept unfinished unreset
    have entry : (xcpfsZoneMgmt s.zm zone op accepted).1.zoneInfo zone = zi := by rw [info,Function.update_self]
    rw [unfinished,unreset] at tips ⊢
    have tip : Function.update s.tip zone (s.tip zone) = s.tip := Function.update_eq_self zone s.tip
    refine ⟨size.trans pointing.size,capacityIs.trans pointing.capacityIs,?_,?_,?_,?_,?_,?_,tips,?_⟩
    · exact (congrArg ZoneInfo.start entry).trans (start.trans pointing.start)
    · exact (congrArg ZoneInfo.writeInflight entry).trans (quiet.trans pointing.quiet)
    · change ((xcpfsZoneMgmt s.zm zone op accepted).1.zoneInfo zone).start ≤ ((xcpfsZoneMgmt s.zm zone op accepted).1.zoneInfo zone).wp
      rw [entry,start,wp]
      exact pointing.low
    · change ((xcpfsZoneMgmt s.zm zone op accepted).1.zoneInfo zone).wp ≤ Function.update s.tip zone (s.tip zone) zone
      rw [entry,wp,tip]
      exact pointing.below
    · change Function.update s.tip zone (s.tip zone) zone ≤ bdev.endOf zone
      rw [tip]
      exact pointing.high
    · change ((xcpfsZoneMgmt s.zm zone op accepted).1.zoneInfo zone).cond = .full ↔
        ((xcpfsZoneMgmt s.zm zone op accepted).1.zoneInfo zone).wp = bdev.endOf zone
      rw [entry,wp]
      obtain same | ⟨exp,open_,yes⟩ | ⟨closed,exp⟩ := cond
      · rw [same]
        exact pointing.full
      · have short := allowed.2 open_ yes
        have below := pointing.below
        rw [exp]
        exact iff_of_false ZoneCond.noConfusion (by omega)
      · have notFull : (s.zm.zoneInfo zone).cond ≠ .full := by
          rw [exp]
          exact ZoneCond.noConfusion
        rw [closed]
        exact iff_of_false ZoneCond.noConfusion (fun reached => notFull (pointing.full.mpr reached))
    · change ∀ sector ∈ s.landed, sector / (blocks * 8) = zone → sector + 8 ≤ Function.update s.tip zone (s.tip zone) zone
      rw [tip]
      exact pointing.landed
  · have entry : (xcpfsZoneMgmt s.zm other op accepted).1.zoneInfo zone = s.zm.zoneInfo zone := by
      rw [info,Function.update_of_ne here]
    refine ⟨size.trans pointing.size,capacityIs.trans pointing.capacityIs,?_,?_,?_,?_,?_,?_,tips,?_⟩
    · exact (congrArg ZoneInfo.start entry).trans pointing.start
    · exact (congrArg ZoneInfo.writeInflight entry).trans pointing.quiet
    · change ((xcpfsZoneMgmt s.zm other op accepted).1.zoneInfo zone).start ≤ ((xcpfsZoneMgmt s.zm other op accepted).1.zoneInfo zone).wp
      rw [entry]
      exact pointing.low
    · dsimp only
      rw [entry,Function.update_of_ne here]
      exact pointing.below
    · dsimp only
      rw [Function.update_of_ne here]
      exact pointing.high
    · dsimp only
      rw [entry]
      exact pointing.full
    · dsimp only
      rw [Function.update_of_ne here]
      exact pointing.landed

theorem pointingAppend (roomy : Roomy bdev blocks capacity) (pointing : Pointing bdev blocks capacity zone s) {other : Nat}
    (ran : pointerStep bdev s (.append other) = some t) : Pointing bdev blocks capacity zone t := by
  dsimp only [pointerStep] at ran
  split at ran
  case isFalse => cases ran
  case isTrue allowed =>
  cases ran
  have room : s.tip other + 8 ≤ bdev.endOf other := allowed.2
  have placed := appendZone roomy (pointing.tips other) room
  have grows : ∀ z, s.tip z ≤ Function.update s.tip other (s.tip other + 8) z := by
    intro z
    by_cases here : z = other
    · subst here
      rw [Function.update_self]
      exact Nat.le_add_right _ _
    · exact Nat.le_of_eq (Function.update_of_ne here (s.tip other + 8) s.tip).symm
  refine ⟨pointing.size,pointing.capacityIs,pointing.start,pointing.quiet,pointing.low,?_,?_,pointing.full,?_,?_⟩
  · exact Nat.le_trans pointing.below (grows zone)
  · change Function.update s.tip other (s.tip other + 8) zone ≤ bdev.endOf zone
    by_cases here : zone = other
    · subst here
      rw [Function.update_self]
      exact room
    · rw [Function.update_of_ne here]
      exact pointing.high
  · exact fun z => Nat.le_trans (pointing.tips z) (grows z)
  · intro sector member within
    change sector + 8 ≤ Function.update s.tip other (s.tip other + 8) zone
    cases member with
    | head =>
      exact Nat.le_of_eq (by rw [placed.symm.trans within,Function.update_self])
    | tail _ earlier => exact Nat.le_trans (pointing.landed sector earlier within) (grows zone)

theorem pointingComplete (roomy : Roomy bdev blocks capacity) (pointing : Pointing bdev blocks capacity zone s) {sector : Nat}
    (ran : pointerStep bdev s (.complete sector) = some t) (leaves : leavesZone zone s (.complete sector)) : Pointing bdev blocks capacity zone t := by
  dsimp only [pointerStep] at ran
  split at ran
  case isFalse => cases ran
  case isTrue member =>
  cases ran
  have exact_ : s.zm.blk2zone (sector / 8) = zone → sector / 8 + 1 < 2 ^ 28 := leaves
  obtain ⟨zi,info,start,quiet,wp,cond⟩ := validateEntry s.zm (sector / 8)
  rw [sectorZone pointing.size] at exact_ info start quiet wp cond
  have size : (validateBlkaddr s.zm (sector / 8)).zoneSize = blocks * 8 := (validateSize (sector / 8)).trans pointing.size
  have capacityIs := (validateCapacity s.zm (sector / 8)).trans pointing.capacityIs
  have rest : ∀ later ∈ s.landed.erase sector, later / (blocks * 8) = zone → later + 8 ≤ s.tip zone :=
    fun later still => pointing.landed later (List.mem_of_mem_erase still)
  by_cases here : sector / (blocks * 8) = zone
  · rw [here] at info start quiet wp cond
    rw [validateWpExact (exact_ here),shiftSectorsNat] at wp
    have entry : (validateBlkaddr s.zm (sector / 8)).zoneInfo zone = zi := by rw [info,Function.update_self]
    have appended := pointing.landed sector member here
    have below := pointing.below
    have high := pointing.high
    have low := pointing.low
    have reaches : zi.wp ≤ s.tip zone := by omega
    have ends := endIs roomy zone
    rw [← pointing.start,← start,← pointing.capacityIs] at ends
    refine ⟨size,capacityIs,?_,?_,?_,?_,high,?_,pointing.tips,rest⟩
    · exact (congrArg ZoneInfo.start entry).trans (start.trans pointing.start)
    · exact (congrArg ZoneInfo.writeInflight entry).trans (quiet.trans pointing.quiet)
    · change ((validateBlkaddr s.zm (sector / 8)).zoneInfo zone).start ≤ ((validateBlkaddr s.zm (sector / 8)).zoneInfo zone).wp
      rw [entry,start]
      omega
    · change ((validateBlkaddr s.zm (sector / 8)).zoneInfo zone).wp ≤ s.tip zone
      rw [entry]
      exact reaches
    · change ((validateBlkaddr s.zm (sector / 8)).zoneInfo zone).cond = .full ↔
        ((validateBlkaddr s.zm (sector / 8)).zoneInfo zone).wp = bdev.endOf zone
      rw [entry,cond,ends,Nat.add_comm zi.start]
      split
      · rename_i reached
        exact iff_of_true rfl reached
      · rename_i short
        -- a zone that was full stays at its end: completions only raise the pointer
        refine iff_of_false (fun full => short ?_) short
        have reached := pointing.full.mp full
        omega
  · have entry : (validateBlkaddr s.zm (sector / 8)).zoneInfo zone = s.zm.zoneInfo zone := by
      rw [info,Function.update_of_ne (Ne.symm here)]
    refine ⟨size,capacityIs,?_,?_,?_,?_,pointing.high,?_,pointing.tips,rest⟩
    · exact (congrArg ZoneInfo.start entry).trans pointing.start
    · exact (congrArg ZoneInfo.writeInflight entry).trans pointing.quiet
    · change ((validateBlkaddr s.zm (sector / 8)).zoneInfo zone).start ≤ ((validateBlkaddr s.zm (sector / 8)).zoneInfo zone).wp
      rw [entry]
      exact pointing.low
    · change ((validateBlkaddr s.zm (sector / 8)).zoneInfo zone).wp ≤ s.tip zone
      rw [entry]
      exact pointing.below
    · change ((validateBlkaddr s.zm (sector / 8)).zoneInfo zone).cond = .full ↔
        ((validateBlkaddr s.zm (sector / 8)).zoneInfo zone).wp = bdev.endOf zone
      rw [entry]
      exact pointing.full

theorem pointingStep (roomy : Roomy bdev blocks capacity) (s : PointerRun) (event : PointerEvent) (next : PointerRun)
    (pointing : Pointing bdev blocks capacity zone s) (ran : pointerStep bdev s event = some next)
    (leaves : leavesZone zone s event) : Pointing bdev blocks capacity zone next := by
  cases event with
  | request other op accepted => exact pointingRequest roomy pointing ran leaves
  | append other => exact pointingAppend roomy pointing ran
  | complete sector => exact pointingComplete roomy pointing ran leaves

theorem emptyCleanStep (roomy : Roomy bdev blocks capacity) (s : PointerRun) (event : PointerEvent) (next : PointerRun)
    (pointing : Pointing bdev blocks capacity zone s) (clean : EmptyClean blocks zone s)
    (ran : pointerStep bdev s event = some next) (leaves : leavesZone zone s event) (opened : appendsOpen zone s event) :
    EmptyClean blocks zone next := by
  intro empty
  cases event with
  | request other op accepted =>
    obtain ⟨zi,info,_,_,_,start,_,kept⟩ := mgmtEntry s.zm other op accepted
    dsimp only [pointerStep] at ran
    split at ran
    case isFalse => cases ran
    case isTrue =>
    cases ran
    change ((xcpfsZoneMgmt s.zm other op accepted).1.zoneInfo zone).cond = .empty at empty
    change ((xcpfsZoneMgmt s.zm other op accepted).1.zoneInfo zone).wp =
      ((xcpfsZoneMgmt s.zm other op accepted).1.zoneInfo zone).start ∧ ∀ sector ∈ s.landed, sector / (blocks * 8) ≠ zone
    by_cases here : zone = other
    · subst here
      rw [info,Function.update_self] at empty ⊢
      obtain ⟨unfinished,unreset⟩ := leaves rfl
      obtain ⟨wp,same | ⟨exp,_⟩ | ⟨closed,_⟩⟩ := kept unfinished unreset
      · rw [wp,start]
        exact clean (same.symm.trans empty)
      · cases exp.symm.trans empty
      · cases closed.symm.trans empty
    · rw [info,Function.update_of_ne here] at empty ⊢
      exact clean empty
  | append other =>
    dsimp only [pointerStep] at ran
    split at ran
    case isFalse => cases ran
    case isTrue allowed =>
    cases ran
    have placed := appendZone roomy (pointing.tips other) allowed.2
    obtain ⟨atStart,none_⟩ := clean empty
    refine ⟨atStart,?_⟩
    intro sector member
    cases member with
    | head => exact fun within => opened (placed.symm.trans within) empty
    | tail _ earlier => exact none_ sector earlier
  | complete sector =>
    dsimp only [pointerStep] at ran
    split at ran
    case isFalse => cases ran
    case isTrue member =>
    cases ran
    obtain ⟨zi,info,start,_,wp,cond⟩ := validateEntry s.zm (sector / 8)
    rw [sectorZone pointing.size] at info start wp cond
    change ((validateBlkaddr s.zm (sector / 8)).zoneInfo zone).cond = .empty at empty
    change ((validateBlkaddr s.zm (sector / 8)).zoneInfo zone).wp = ((validateBlkaddr s.zm (sector / 8)).zoneInfo zone).start ∧
      ∀ later ∈ s.landed.erase sector, later / (blocks * 8) ≠ zone
    by_cases here : sector / (blocks * 8) = zone
    · rw [here] at info cond
      rw [info,Function.update_self,cond] at empty
      split at empty
      · cases empty
      · exact absurd here ((clean empty).2 sector member)
    · rw [info,Function.update_of_ne (Ne.symm here)] at empty ⊢
      obtain ⟨atStart,none_⟩ := clean empty
      exact ⟨atStart,fun later still => none_ later (List.mem_of_mem_erase still)⟩

theorem pointingStart {zm : ZmInfo} (roomy : Roomy bdev blocks capacity) (mounted : Mounted bdev zm)
    (inside : zone < bdev.nrZones) (told : Told bdev zone) :
    Pointing bdev blocks capacity zone (pointerStart bdev zm) ∧ EmptyClean blocks zone (pointerStart bdev zm) := by
  have size : zm.zoneSize = blocks * 8 := mounted.size.trans (roomy.reported.len _)
  have start : (zm.zoneInfo zone).start = (bdev.zones zone).start := by
    rw [mounted.laid.start,size,roomy.reported.start]
  have wp : (zm.zoneInfo zone).wp = (bdev.zones zone).wp := (mounted.wp zone).trans (if_pos inside)
  have cond : (zm.zoneInfo zone).cond = (bdev.zones zone).cond := (mounted.cond zone).trans (if_pos inside)
  refine ⟨⟨size,?_,?_,mounted.laid.quiet zone,mounted.pointed.wpLow zone,?_,told.high,?_,?_,?_⟩,?_⟩
  · exact mounted.capacity.trans (roomy.capacityIs _)
  · exact start.trans (roomy.reported.start zone)
  · exact Nat.le_of_eq wp
  · change (zm.zoneInfo zone).cond = .full ↔ (zm.zoneInfo zone).wp = bdev.endOf zone
    rw [cond,wp]
    exact told.full
  · intro other
    rw [← roomy.reported.start]
    exact roomy.reported.wpLow other
  · exact fun _ member => absurd member List.not_mem_nil
  · intro empty
    refine ⟨?_,fun _ member => absurd member List.not_mem_nil⟩
    change (zm.zoneInfo zone).wp = (zm.zoneInfo zone).start
    rw [wp,start]
    exact told.empty (cond.symm.trans empty)

/- Over every run from a mount, over any memory, in which the device finishes and resets the zone
at no request, its pointer is a sector of the zone, at the end exactly when it is full; and at the
start while it is empty, if appends go only to zones that are not. -/
theorem writePointersFollow {mem : RawMemory} {page : Nat → Option ZitBlock} {zm : ZmInfo} {events : List PointerEvent}
    (roomy : Roomy bdev blocks capacity) (mounted : mountOver mem bdev page = some zm) (inside : zone < bdev.nrZones)
    (told : Told bdev zone) (leaves : Meets (leavesZone zone) (pointerStep bdev) (pointerStart bdev zm) events) :
    Always (fun s => Convention s.zm zone) (pointerStep bdev) (pointerStart bdev zm) events ∧
    (Meets (appendsOpen zone) (pointerStep bdev) (pointerStart bdev zm) events →
      Always (fun s => EmptyAtStart s.zm zone) (pointerStep bdev) (pointerStart bdev zm) events) := by
  obtain ⟨pointing,clean⟩ := pointingStart roomy (mountMounted roomy.reported mounted) inside told
  constructor
  · exact alwaysMeets (Pointing bdev blocks capacity zone) (fun s pointing => pointingConvention roomy pointing)
      (pointingStep roomy) pointing leaves
  · intro opened
    refine alwaysMeets (fun s => Pointing bdev blocks capacity zone s ∧ EmptyClean blocks zone s)
      (fun s kept empty => (kept.2 empty).1) ?_ ⟨pointing,clean⟩ (meetsBoth leaves opened)
    intro s event next kept ran fits
    exact ⟨pointingStep roomy s event next kept.1 ran fits.1,emptyCleanStep roomy s event next kept.1 kept.2 ran fits.1 fits.2⟩

end

theorem mkfsTold : Told mkfsDevice 2 := ⟨by decide,fun _ => rfl,by decide⟩

/-- Zone 2 is opened and two blocks appended to it complete, the second one first. -/
theorem writePointersFollowOpened :
    Always (fun s => Convention s.zm 2) (pointerStep mkfsDevice) (pointerStart mkfsDevice mkfsTable)
      [.request 2 .open_ true,.append 2,.append 2,.complete 72,.complete 64] ∧
    (Meets (appendsOpen 2) (pointerStep mkfsDevice) (pointerStart mkfsDevice mkfsTable)
        [.request 2 .open_ true,.append 2,.append 2,.complete 72,.complete 64] →
      Always (fun s => EmptyAtStart s.zm 2) (pointerStep mkfsDevice) (pointerStart mkfsDevice mkfsTable)
        [.request 2 .open_ true,.append 2,.append 2,.complete 72,.complete 64]) := by
  refine writePointersFollow mkfsRoomy mkfsMounts (by decide) mkfsTold ?_
  have inside : ∀ sector < 128, sector / 2 ^ pageSectorsShift + 1 < 2 ^ 28 := by
    intro sector below
    rw [shiftSectorsNat]
    omega
  exact fun _ _ => ⟨fun _ => ⟨rfl,rfl⟩,fun _ _ => ⟨trivial,fun _ _ => ⟨trivial,fun _ _ => ⟨fun _ => inside 72 (by decide),
    fun _ _ => ⟨fun _ => inside 64 (by decide),trivial⟩⟩⟩⟩⟩

/-- The open request for the empty zone 2 leaves its pointer at the start of a zone that is not empty. -/
theorem openedAtStart : ¬∀ events : List PointerEvent,
    Always (fun s => (s.zm.zoneInfo 2).wp = (s.zm.zoneInfo 2).start ↔ (s.zm.zoneInfo 2).cond = .empty) (pointerStep mkfsDevice)
      (pointerStart mkfsDevice mkfsTable) events := by
  intro claim
  have always := claim [.request 2 .open_ true]
  have after := (always.2 _ rfl).mp rfl
  cases after

end Xcpfs
