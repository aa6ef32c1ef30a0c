import Xcpfs.ZoneTable
import Xcpfs.Lib.EventRun

/-! `alloc_zone` and the search for a zone behind it. Every pass of the retry loop
takes one answer of the device; no result means the loop has not returned yet, or
that the checkpoint context was missing when it was to be marked. -/
namespace Xcpfs

structure ZoneSbi where
  zm : ZmInfo
  cpSemLocked : Bool
  /-- `cpc->restart`, once there is a `cpc`. -/
  cpcRestart : Option Bool

def longMax : Nat := 2 ^ 63 - 1

def ZmInfo.isEmpty (zm : ZmInfo) (zone : Nat) : Bool := decide ((zm.zoneInfo zone).cond = .empty)

def getEmptyZone (zm : ZmInfo) : Nat :=
  match (List.range' 2 (zm.nrZones - 2)).find? zm.isEmpty with
  | some i => (zm.zoneInfo i).zoneId
  | none => 0

def scanOpened (zm : ZmInfo) (type : Nat) : List (Option Nat) → (inflight : Nat) → Option Nat → Option Nat
  | [],_,tar => tar
  | none :: rest,inflight,tar => scanOpened zm type rest inflight tar
  | some zone :: rest,inflight,tar =>
    let zi := zm.zoneInfo zone
    if zi.zoneType = type ∧ (zi.wp + zi.writeInflight + 2 ^ 64 - zi.start) % 2 ^ 64 < inflight then
      scanOpened zm type rest ((zi.wp + zi.writeInflight) % 2 ^ 64) (some zone)
    else scanOpened zm type rest inflight tar

/- The `open:` part of `get_zone`. -/
def openEmpty (type : Nat) (accepted : Bool) (s : ZoneSbi) : Option ZoneSbi :=
  if s.zm.zoneOpenedCount < s.zm.maxOpenZones then
    let zone := getEmptyZone s.zm
    let zm := (xcpfsZoneOpen s.zm zone accepted).1
    let zm := zm.setZone zone { zm.zoneInfo zone with zoneType := type }
    let zm := { zm with nrType := Function.update zm.nrType type (zm.nrType type + 1) }
    if s.cpSemLocked then s.cpcRestart.map fun _ => { s with zm := zm, cpcRestart := some true }
    else some { s with zm := zm }
  else some s

def retryZone (type : Nat) : List Bool → ZoneSbi → Option (ZoneSbi × Nat)
  | [],s => (scanOpened s.zm type s.zm.zoneOpened longMax none).map fun tar => (s,(s.zm.zoneInfo tar).zoneId)
  | accepted :: answers,s =>
    match scanOpened s.zm type s.zm.zoneOpened longMax none with
    | some tar => some (s,(s.zm.zoneInfo tar).zoneId)
    | none => (openEmpty type accepted s).bind (retryZone type answers)

def getZone (type : Nat) (answers : List Bool) (s : ZoneSbi) : Option (ZoneSbi × Nat) :=
  if s.zm.nrType type < s.zm.limitType type then
    match answers with
    | [] => none
    | accepted :: answers => (openEmpty type accepted s).bind (retryZone type answers)
  else retryZone type answers s

def zoneIsFull (zm : ZmInfo) (zone : Nat) : Bool := decide ((zm.zoneInfo zone).cond = .full)

inductive ReqOp where | read | zoneAppend
  deriving DecidableEq, Repr

def allocZone (op : ReqOp) (type : PageType) (oldBlkaddr : Nat) (answers : List Bool) (s : ZoneSbi) :
    Option (ZoneSbi × Nat) :=
  match op with
  | .read => some (s,oldBlkaddr)
  | .zoneAppend =>
    let zone := s.zm.blk2zone oldBlkaddr
    (if zoneIsFull s.zm zone ∨ zone = 0 then getZone type.code answers s else some (s,zone)).map fun (s,zone) =>
      ({ s with zm := invalidateBlkaddr s.zm oldBlkaddr },(s.zm.zoneInfo zone).start / 2 ^ pageSectorsShift)

/- The entries lie in the table as the device lays its zones out, whatever was opened or written. -/
structure Laid (zm : ZmInfo) : Prop where
  aligned : zm.zoneSize = zm.blocksPerZone * 8
  positive : 0 < zm.blocksPerZone
  zoneId : ∀ zone, (zm.zoneInfo zone).zoneId = zone
  start : ∀ zone, (zm.zoneInfo zone).start = zone * zm.zoneSize
  quiet : ∀ zone, (zm.zoneInfo zone).writeInflight = 0

structure Slotted (zm : ZmInfo) : Prop where
  slots : zm.zoneOpened.length = zm.maxOpenZones
  counted : zm.zoneOpenedCount = zm.zoneOpened.countP Option.isSome

/- Every write pointer lies in its zone. -/
structure Pointed (zm : ZmInfo) : Prop where
  small : zm.zoneSize < longMax
  wpLow : ∀ zone, (zm.zoneInfo zone).start ≤ (zm.zoneInfo zone).wp
  wpHigh : ∀ zone, (zm.zoneInfo zone).wp ≤ (zm.zoneInfo zone).start + zm.zoneSize

/- `zone_id` is the index, and no write pointer is 2^63 sectors or more past its zone's start. -/
structure Scannable (zm : ZmInfo) : Prop where
  zoneId : ∀ zone, (zm.zoneInfo zone).zoneId = zone
  near : ∀ zone, ((zm.zoneInfo zone).wp + (zm.zoneInfo zone).writeInflight + 2 ^ 64 - (zm.zoneInfo zone).start) % 2 ^ 64 < longMax

structure ZonesOk (zm : ZmInfo) : Prop extends Laid zm, Slotted zm, Pointed zm where
  superZero : (zm.zoneInfo 0).zoneType = zoneTypeFree
  superOne : (zm.zoneInfo 1).zoneType = zoneTypeFree

def HasEmpty (zm : ZmInfo) : Prop := ∃ zone, 2 ≤ zone ∧ zone < zm.nrZones ∧ (zm.zoneInfo zone).cond = .empty

def Selectable (type : Nat) (zm : ZmInfo) : Prop :=
  ∃ zone, some zone ∈ zm.zoneOpened ∧ (zm.zoneInfo zone).zoneType = type

section
variable {zm : ZmInfo} {s t : ZoneSbi} {zone type : Nat}

theorem emptyFound (zoneId : ∀ zone, (zm.zoneInfo zone).zoneId = zone) (has : HasEmpty zm) :
    2 ≤ getEmptyZone zm ∧ getEmptyZone zm < zm.nrZones ∧ (zm.zoneInfo (getEmptyZone zm)).cond = .empty := by
  unfold getEmptyZone
  cases found : (List.range' 2 (zm.nrZones - 2)).find? zm.isEmpty with
  | none =>
    obtain ⟨zone,low,high,empty⟩ := has
    have missed := List.find?_eq_none.mp found zone (List.mem_range'_1.mpr ⟨low,by omega⟩)
    simp [ZmInfo.isEmpty,empty] at missed
  | some i =>
    have range := List.mem_range'_1.mp (List.mem_of_find?_eq_some found)
    have cond := List.find?_some found
    simp only [ZmInfo.isEmpty,decide_eq_true_eq] at cond
    simp only [zoneId]
    exact ⟨range.1,by omega,cond⟩

theorem getEmptyFound (ok : Laid zm) (has : HasEmpty zm) :
    2 ≤ getEmptyZone zm ∧ getEmptyZone zm < zm.nrZones ∧ (zm.zoneInfo (getEmptyZone zm)).cond = .empty := emptyFound ok.zoneId has

theorem getEmptyMissing (none_ : ¬ HasEmpty zm) : getEmptyZone zm = 0 := by
  unfold getEmptyZone
  cases found : (List.range' 2 (zm.nrZones - 2)).find? zm.isEmpty with
  | none => rfl
  | some i =>
    have range := List.mem_range'_1.mp (List.mem_of_find?_eq_some found)
    have cond := List.find?_some found
    simp only [ZmInfo.isEmpty,decide_eq_true_eq] at cond
    exact absurd ⟨i,range.1,by omega,cond⟩ none_

theorem scanSound {list : List (Option Nat)} {inflight : Nat} {tar : Option Nat}
    (found : scanOpened zm type list inflight tar = some zone) :
    tar = some zone ∨ (some zone ∈ list ∧ (zm.zoneInfo zone).zoneType = type) := by
  induction list generalizing inflight tar with
  | nil => exact Or.inl found
  | cons entry rest ih =>
    cases entry with
    | none => exact (ih found).imp_right fun h => ⟨List.mem_cons_of_mem _ h.1,h.2⟩
    | some z =>
      simp only [scanOpened] at found
      split at found
      · rename_i chosen
        rcases ih found with same | later
        · cases same
          exact Or.inr ⟨List.mem_cons_self,chosen.1⟩
        · exact Or.inr ⟨List.mem_cons_of_mem _ later.1,later.2⟩
      · exact (ih found).imp_right fun h => ⟨List.mem_cons_of_mem _ h.1,h.2⟩

theorem scanKeeps (list : List (Option Nat)) (inflight : Nat) {tar : Option Nat} (some_ : tar.isSome) :
    (scanOpened zm type list inflight tar).isSome := by
  induction list generalizing inflight tar with
  | nil => exact some_
  | cons entry rest ih =>
    cases entry with
    | none => exact ih inflight some_
    | some z =>
      simp only [scanOpened]
      split
      · exact ih _ rfl
      · exact ih _ some_

theorem laidScannable (ok : Laid zm) (pointed : Pointed zm) : Scannable zm := by
  refine ⟨ok.zoneId,?_⟩
  intro zone
  have low := pointed.wpLow zone
  have high := pointed.wpHigh zone
  have small := pointed.small
  rw [ok.quiet zone]
  unfold longMax at small ⊢
  omega

theorem scanFinds (scannable : Scannable zm) {list : List (Option Nat)} (member : some zone ∈ list)
    (typed : (zm.zoneInfo zone).zoneType = type) : (scanOpened zm type list longMax none).isSome = true := by
  induction list with
  | nil => cases member
  | cons entry rest ih =>
    cases entry with
    | none =>
      obtain bad | later := List.mem_cons.mp member
      · cases bad
      · exact ih later
    | some z =>
      simp only [scanOpened]
      split
      · exact scanKeeps rest _ rfl
      · rename_i skipped
        obtain same | later := List.mem_cons.mp member
        · cases same
          exact absurd ⟨typed,scannable.near zone⟩ skipped
        · exact ih later

theorem setZoneEach {zi : ZoneInfo} (P : Nat → ZoneInfo → Prop) (all : ∀ z, P z (zm.zoneInfo z)) (here : P zone zi) (z : Nat) :
    P z ((zm.setZone zone zi).zoneInfo z) := by
  by_cases same : z = zone
  · subst same
    simpa only [setZoneInfo,Function.update_self] using here
  · simpa only [setZoneInfo,Function.update_of_ne same] using all z

theorem laidSetZone (ok : Laid zm) {zi : ZoneInfo} (id : zi.zoneId = zone)
    (start : zi.start = (zm.zoneInfo zone).start) (quiet : zi.writeInflight = 0) : Laid (zm.setZone zone zi) := by
  refine ⟨ok.aligned,ok.positive,?_,?_,?_⟩
  · exact setZoneEach (fun z zi => zi.zoneId = z) ok.zoneId id
  · exact setZoneEach (fun z zi => zi.start = z * zm.zoneSize) ok.start (start.trans (ok.start zone))
  · exact setZoneEach (fun _ zi => zi.writeInflight = 0) ok.quiet quiet

theorem pointedSetZone (ok : Pointed zm) {zi : ZoneInfo} (low : zi.start ≤ zi.wp) (high : zi.wp ≤ zi.start + zm.zoneSize) :
    Pointed (zm.setZone zone zi) := by
  refine ⟨ok.small,?_,?_⟩
  · exact setZoneEach (fun _ zi => zi.start ≤ zi.wp) ok.wpLow low
  · exact setZoneEach (fun _ zi => zi.wp ≤ zi.start + zm.zoneSize) ok.wpHigh high

theorem laidInfo {other : ZmInfo} (ok : Laid zm) (size : other.zoneSize = zm.zoneSize) (info : other.zoneInfo = zm.zoneInfo) :
    Laid other := by
  have perZone : other.blocksPerZone = zm.blocksPerZone := by
    unfold ZmInfo.blocksPerZone
    rw [size]
  refine ⟨?_,?_,?_,?_,?_⟩
  · rw [size,perZone]
    exact ok.aligned
  · rw [perZone]
    exact ok.positive
  · rw [info]
    exact ok.zoneId
  · rw [info,size]
    exact ok.start
  · rw [info]
    exact ok.quiet

theorem pointedInfo {other : ZmInfo} (ok : Pointed zm) (size : other.zoneSize = zm.zoneSize) (info : other.zoneInfo = zm.zoneInfo) :
    Pointed other := by
  refine ⟨?_,?_,?_⟩
  · rw [size]
    exact ok.small
  · rw [info]
    exact ok.wpLow
  · rw [info,size]
    exact ok.wpHigh

theorem slottedInsertOpened (ok : Slotted zm) (zone : Nat) : Slotted (zm.insertOpened zone) := by
  refine ⟨(insertZoneLength zone zm.zoneOpened).trans ok.slots,?_⟩
  have count := insertZoneCount zone zm.zoneOpened
  have before := ok.counted
  simp only [ZmInfo.insertOpened]
  cases done : (insertZone zone zm.zoneOpened).2 <;> simp only [done,if_true,if_false,Bool.false_eq_true] at count ⊢ <;> omega

theorem slottedRemoveOpened (ok : Slotted zm) (zone : Nat) : Slotted (zm.removeOpened zone) := by
  refine ⟨(removeZoneLength zone zm.zoneOpened).trans ok.slots,?_⟩
  have count := removeZoneCount zone zm.zoneOpened
  have before := ok.counted
  simp only [ZmInfo.removeOpened]
  cases done : (removeZone zone zm.zoneOpened).2 <;> simp only [done,if_true,if_false,Bool.false_eq_true] at count ⊢ <;> omega

theorem laidTouch (ok : Laid zm) (zone : Nat) {zi : ZoneInfo} (id : zi.zoneId = (zm.zoneInfo zone).zoneId)
    (start : zi.start = (zm.zoneInfo zone).start) (quiet : zi.writeInflight = (zm.zoneInfo zone).writeInflight) :
    Laid (zm.setZone zone zi) :=
  laidSetZone ok (id.trans (ok.zoneId zone)) start (quiet.trans (ok.quiet zone))

theorem pointedTouch (ok : Pointed zm) (zone : Nat) {zi : ZoneInfo} (start : zi.start = (zm.zoneInfo zone).start)
    (wp : zi.wp = (zm.zoneInfo zone).wp) : Pointed (zm.setZone zone zi) := by
  refine pointedSetZone ok ?_ ?_
  · rw [start,wp]
    exact ok.wpLow zone
  · rw [start,wp]
    exact ok.wpHigh zone

theorem blockInside (ok : Laid zm) (blkaddr : Nat) :
    (blkaddr + 1) * 8 ≤ zm.blk2zone blkaddr * zm.zoneSize + zm.zoneSize := by
  have split := Nat.div_add_mod blkaddr zm.blocksPerZone
  have room := Nat.mod_lt blkaddr ok.positive
  have size := ok.aligned
  unfold ZmInfo.blk2zone
  generalize blkaddr / zm.blocksPerZone = zone at split ⊢
  have whole : zone * zm.zoneSize = zm.blocksPerZone * zone * 8 := by
    rw [size,← Nat.mul_assoc,Nat.mul_comm zone]
  omega

theorem laidValidate (ok : Laid zm) (blkaddr : Nat) : Laid (validateBlkaddr zm blkaddr) := by
  unfold validateBlkaddr
  dsimp only
  split
  · refine laidInfo (laidTouch ok (zm.blk2zone blkaddr) ?_ ?_ ?_) rfl rfl <;> rfl
  · refine laidTouch ok (zm.blk2zone blkaddr) ?_ ?_ ?_ <;> rfl

theorem slottedValidate (ok : Slotted zm) (blkaddr : Nat) : Slotted (validateBlkaddr zm blkaddr) := by
  unfold validateBlkaddr
  dsimp only
  split
  · refine slottedRemoveOpened ⟨?_,?_⟩ _
    · exact ok.slots
    · exact ok.counted
  · exact ⟨ok.slots,ok.counted⟩

/- Below block 2^28 - 1 the shift is exact, and the pointer stays in its zone. -/
theorem pointedValidate (laid : Laid zm) (ok : Pointed zm) {blkaddr : Nat} (small : blkaddr + 1 < 2 ^ 28) :
    Pointed (validateBlkaddr zm blkaddr) := by
  have inside := blockInside laid blkaddr
  have low := ok.wpLow (zm.blk2zone blkaddr)
  have high := ok.wpHigh (zm.blk2zone blkaddr)
  have start := laid.start (zm.blk2zone blkaddr)
  have moved : ∀ zi : ZoneInfo, zi.start = (zm.zoneInfo (zm.blk2zone blkaddr)).start →
      zi.wp = validateWp (zm.zoneInfo (zm.blk2zone blkaddr)).wp blkaddr → Pointed (zm.setZone (zm.blk2zone blkaddr) zi) := by
    intro zi from_ wp
    rw [validateWpExact small,shiftSectorsNat] at wp
    exact pointedSetZone ok (by omega) (by omega)
  unfold validateBlkaddr
  dsimp only
  split
  · refine pointedInfo (moved _ ?_ ?_) rfl rfl <;> rfl
  · refine moved _ ?_ ?_ <;> rfl

theorem laidInvalidate (ok : Laid zm) (blkaddr : Nat) : Laid (invalidateBlkaddr zm blkaddr) :=
  laidTouch ok _ rfl rfl rfl

theorem pointedInvalidate (ok : Pointed zm) (blkaddr : Nat) : Pointed (invalidateBlkaddr zm blkaddr) :=
  pointedTouch ok _ rfl rfl

theorem setZoneType {zi : ZoneInfo} (typed : zi.zoneType = (zm.zoneInfo zone).zoneType) (z : Nat) :
    ((zm.setZone zone zi).zoneInfo z).zoneType = (zm.zoneInfo z).zoneType :=
  setZoneEach (fun z zi => zi.zoneType = (zm.zoneInfo z).zoneType) (fun _ => rfl) typed z

theorem validateType (blkaddr : Nat) (z : Nat) :
    ((validateBlkaddr zm blkaddr).zoneInfo z).zoneType = (zm.zoneInfo z).zoneType := by
  unfold validateBlkaddr
  simp only
  split
  · rw [removeOpenedInfo,removeActiveInfo]
    apply setZoneType
    rfl
  · apply setZoneType
    rfl

theorem okInvalidate (ok : ZonesOk zm) (blkaddr : Nat) : ZonesOk (invalidateBlkaddr zm blkaddr) := by
  have typed : ∀ z, ((invalidateBlkaddr zm blkaddr).zoneInfo z).zoneType = (zm.zoneInfo z).zoneType := by
    intro z
    apply setZoneType
    rfl
  exact ⟨laidInvalidate ok.toLaid blkaddr,⟨ok.slots,ok.counted⟩,pointedInvalidate ok.toPointed blkaddr,(typed 0).trans ok.superZero,
    (typed 1).trans ok.superOne⟩

theorem okValidate (ok : ZonesOk zm) {blkaddr : Nat} (small : blkaddr + 1 < 2 ^ 28) : ZonesOk (validateBlkaddr zm blkaddr) :=
  ⟨laidValidate ok.toLaid blkaddr,slottedValidate ok.toSlotted blkaddr,pointedValidate ok.toLaid ok.toPointed small,
    (validateType blkaddr 0).trans ok.superZero,(validateType blkaddr 1).trans ok.superOne⟩

theorem openCases (zm : ZmInfo) (zone : Nat) (accepted : Bool) (empty : (zm.zoneInfo zone).cond = .empty) :
    (xcpfsZoneOpen zm zone accepted).1 = zm ∨
    (xcpfsZoneOpen zm zone accepted).1 = ((zm.insertOpened zone).insertActive zone).setZone zone
      { zm.zoneInfo zone with cond := .expOpen, dirty := true } := by
  unfold xcpfsZoneOpen
  simp only [empty]
  split
  · exact Or.inl rfl
  · split
    · exact Or.inl rfl
    · split
      · exact Or.inl rfl
      · split
        · exact Or.inl rfl
        · exact Or.inr rfl

end

/- The geometry, and of each zone all but its condition, type and dirty flag. -/
structure SameBlocks (zm other : ZmInfo) : Prop where
  size : other.zoneSize = zm.zoneSize
  capacity : other.zoneCapacity = zm.zoneCapacity
  nrZones : other.nrZones = zm.nrZones
  zoneId : ∀ zone, (other.zoneInfo zone).zoneId = (zm.zoneInfo zone).zoneId
  start : ∀ zone, (other.zoneInfo zone).start = (zm.zoneInfo zone).start
  wp : ∀ zone, (other.zoneInfo zone).wp = (zm.zoneInfo zone).wp
  inflight : ∀ zone, (other.zoneInfo zone).writeInflight = (zm.zoneInfo zone).writeInflight
  vblocks : ∀ zone, (other.zoneInfo zone).vblocks = (zm.zoneInfo zone).vblocks
  validMap : ∀ zone, (other.zoneInfo zone).validMap = (zm.zoneInfo zone).validMap

namespace SameBlocks

variable {zm mid other : ZmInfo} {zone : Nat} {zi : ZoneInfo}

theorem refl (zm : ZmInfo) : SameBlocks zm zm :=
  ⟨rfl,rfl,rfl,fun _ => rfl,fun _ => rfl,fun _ => rfl,fun _ => rfl,fun _ => rfl,fun _ => rfl⟩

theorem trans (first : SameBlocks zm mid) (second : SameBlocks mid other) : SameBlocks zm other where
  size := second.size.trans first.size
  capacity := second.capacity.trans first.capacity
  nrZones := second.nrZones.trans first.nrZones
  zoneId zone := (second.zoneId zone).trans (first.zoneId zone)
  start zone := (second.start zone).trans (first.start zone)
  wp zone := (second.wp zone).trans (first.wp zone)
  inflight zone := (second.inflight zone).trans (first.inflight zone)
  vblocks zone := (second.vblocks zone).trans (first.vblocks zone)
  validMap zone := (second.validMap zone).trans (first.validMap zone)

theorem setZone (id : zi.zoneId = (zm.zoneInfo zone).zoneId) (start : zi.start = (zm.zoneInfo zone).start)
    (wp : zi.wp = (zm.zoneInfo zone).wp) (inflight : zi.writeInflight = (zm.zoneInfo zone).writeInflight)
    (vblocks : zi.vblocks = (zm.zoneInfo zone).vblocks)
    (validMap : zi.validMap = (zm.zoneInfo zone).validMap) : SameBlocks zm (zm.setZone zone zi) := by
  have each : ∀ P : ZoneInfo → ZoneInfo → Prop, (∀ zi, P zi zi) → P (zm.zoneInfo zone) zi →
      ∀ z, P (zm.zoneInfo z) ((zm.setZone zone zi).zoneInfo z) := by
    intro P same here
    exact setZoneEach (fun z zi => P (zm.zoneInfo z) zi) (fun z => same _) here
  exact ⟨rfl,rfl,rfl,each (fun a b => b.zoneId = a.zoneId) (fun _ => rfl) id,
    each (fun a b => b.start = a.start) (fun _ => rfl) start,each (fun a b => b.wp = a.wp) (fun _ => rfl) wp,
    each (fun a b => b.writeInflight = a.writeInflight) (fun _ => rfl) inflight,
    each (fun a b => b.vblocks = a.vblocks) (fun _ => rfl) vblocks,
    each (fun a b => b.validMap = a.validMap) (fun _ => rfl) validMap⟩

theorem opened (zm : ZmInfo) (zone : Nat) (accepted : Bool) : SameBlocks zm (xcpfsZoneOpen zm zone accepted).1 := by
  unfold xcpfsZoneOpen
  dsimp only
  split
  · exact refl zm
  · split
    · exact refl zm
    · split
      · exact refl zm
      · split
        · exact refl zm
        · split
          · have listed : SameBlocks zm ((zm.insertOpened zone).insertActive zone) :=
              ⟨rfl,rfl,rfl,fun _ => rfl,fun _ => rfl,fun _ => rfl,fun _ => rfl,fun _ => rfl,fun _ => rfl⟩
            exact listed.trans (setZone rfl rfl rfl rfl rfl rfl)
          · have listed : SameBlocks zm (zm.insertOpened zone) :=
              ⟨rfl,rfl,rfl,fun _ => rfl,fun _ => rfl,fun _ => rfl,fun _ => rfl,fun _ => rfl,fun _ => rfl⟩
            exact listed.trans (setZone rfl rfl rfl rfl rfl rfl)

end SameBlocks

section
variable {zm : ZmInfo} {s t : ZoneSbi} {zone type : Nat}

theorem openEmptyIs {accepted : Bool} (ran : openEmpty type accepted s = some t) :
    t.zm = s.zm ∧ ¬s.zm.zoneOpenedCount < s.zm.maxOpenZones ∨
    s.zm.zoneOpenedCount < s.zm.maxOpenZones ∧ ∃ zm nrType, zm = (xcpfsZoneOpen s.zm (getEmptyZone s.zm) accepted).1 ∧
      t.zm = { zm.setZone (getEmptyZone s.zm) { zm.zoneInfo (getEmptyZone s.zm) with zoneType := type } with nrType := nrType } := by
  unfold openEmpty at ran
  split at ran
  · rename_i room
    dsimp only at ran
    split at ran
    · obtain ⟨_,_,same⟩ := Option.map_eq_some_iff.mp ran
      exact .inr ⟨room,_,_,rfl,by rw [← same]⟩
    · cases ran
      exact .inr ⟨room,_,_,rfl,rfl⟩
  · rename_i full
    cases ran
    exact .inl ⟨rfl,full⟩

theorem openEmptyBlocks {s t : ZoneSbi} {type : Nat} {accepted : Bool} (ran : openEmpty type accepted s = some t) :
    SameBlocks s.zm t.zm := by
  obtain ⟨same,_⟩ | ⟨_,zm,nrType,opened,same⟩ := openEmptyIs ran
  · rw [same]
    exact .refl _
  · have typed : SameBlocks zm
        (zm.setZone (getEmptyZone s.zm) { zm.zoneInfo (getEmptyZone s.zm) with zoneType := type }) :=
      .setZone rfl rfl rfl rfl rfl rfl
    have before : SameBlocks s.zm zm := opened ▸ .opened s.zm (getEmptyZone s.zm) accepted
    rw [same]
    exact before.trans ⟨typed.size,typed.capacity,typed.nrZones,typed.zoneId,typed.start,typed.wp,
      typed.inflight,typed.vblocks,typed.validMap⟩

theorem laidBlocks {zm other : ZmInfo} (ok : Laid zm) (same : SameBlocks zm other) : Laid other := by
  have perZone : other.blocksPerZone = zm.blocksPerZone := by
    unfold ZmInfo.blocksPerZone
    rw [same.size]
  refine ⟨?_,?_,?_,?_,?_⟩
  · rw [same.size,perZone]
    exact ok.aligned
  · rw [perZone]
    exact ok.positive
  · exact fun zone => (same.zoneId zone).trans (ok.zoneId zone)
  · intro zone
    rw [same.start,same.size]
    exact ok.start zone
  · exact fun zone => (same.inflight zone).trans (ok.quiet zone)

theorem pointedBlocks {zm other : ZmInfo} (ok : Pointed zm) (same : SameBlocks zm other) : Pointed other := by
  refine ⟨?_,?_,?_⟩
  · rw [same.size]
    exact ok.small
  · intro zone
    rw [same.start,same.wp]
    exact ok.wpLow zone
  · intro zone
    rw [same.start,same.wp,same.size]
    exact ok.wpHigh zone

theorem slottedOpen {zm : ZmInfo} (ok : Slotted zm) (zone : Nat) (accepted : Bool) : Slotted (xcpfsZoneOpen zm zone accepted).1 := by
  have listed := slottedInsertOpened ok zone
  unfold xcpfsZoneOpen
  dsimp only
  split
  · exact ok
  · split
    · exact ok
    · split
      · exact ok
      · split
        · exact ok
        · split
          · exact ⟨listed.slots,listed.counted⟩
          · exact ⟨listed.slots,listed.counted⟩

theorem slottedPass {s t : ZoneSbi} {type : Nat} {accepted : Bool} (ok : Slotted s.zm) (ran : openEmpty type accepted s = some t) :
    Slotted t.zm := by
  obtain ⟨same,_⟩ | ⟨_,zm,nrType,opened,same⟩ := openEmptyIs ran
  · rw [same]
    exact ok
  · have before : Slotted zm := opened ▸ slottedOpen ok (getEmptyZone s.zm) accepted
    rw [same]
    exact ⟨before.slots,before.counted⟩

theorem laidPass {s t : ZoneSbi} {type : Nat} {accepted : Bool} (ok : Laid s.zm) (ran : openEmpty type accepted s = some t) :
    Laid t.zm := laidBlocks ok (openEmptyBlocks ran)

/- The loop cannot miss: an open zone of the type is there, or an empty one, or
no further zone may be opened. -/
def Ready (type : Nat) (zm : ZmInfo) : Prop :=
  ZonesOk zm ∧ (Selectable type zm ∨ HasEmpty zm ∨ zm.maxOpenZones ≤ zm.zoneOpenedCount)

theorem openReady {accepted : Bool} (ok : ZonesOk s.zm) (room : HasEmpty s.zm ∨ s.zm.maxOpenZones ≤ s.zm.zoneOpenedCount)
    (ran : openEmpty type accepted s = some t) : Ready type t.zm := by
  have blocks := openEmptyBlocks ran
  have laid := laidBlocks ok.toLaid blocks
  have slotted := slottedPass ok.toSlotted ran
  have pointed := pointedBlocks ok.toPointed blocks
  obtain ⟨same,full⟩ | ⟨free,zm,nrType,opened,same⟩ := openEmptyIs ran
  · rw [same]
    exact ⟨ok,.inr (.inr (by omega))⟩
  · obtain ⟨low,high,empty⟩ := getEmptyFound ok.toLaid (room.resolve_right (by omega))
    generalize getEmptyZone s.zm = zone at *
    have kept : (∀ z, (zm.zoneInfo z).zoneType = (s.zm.zoneInfo z).zoneType) ∧
        (some zone ∈ zm.zoneOpened ∨ (zm.zoneInfo zone).cond = .empty) := by
      rcases openCases s.zm zone accepted empty with refused | listed
      · rw [opened,refused]
        exact ⟨fun _ => rfl,.inr empty⟩
      · rw [opened,listed]
        have slots := ok.slots
        have counted := ok.counted
        exact ⟨setZoneType rfl,.inl (insertZoneFound zone (by omega))⟩
    obtain ⟨types,found⟩ := kept
    have info : t.zm.zoneInfo = Function.update zm.zoneInfo zone { zm.zoneInfo zone with zoneType := type } := by
      rw [same]
      rfl
    have super : ∀ z < 2, (t.zm.zoneInfo z).zoneType = (s.zm.zoneInfo z).zoneType := by
      intro z below
      rw [info,Function.update_of_ne (by omega)]
      exact types z
    have here : t.zm.zoneInfo zone = { zm.zoneInfo zone with zoneType := type } := by
      rw [info,Function.update_self]
    refine ⟨⟨laid,slotted,pointed,(super 0 (by omega)).trans ok.superZero,(super 1 (by omega)).trans ok.superOne⟩,?_⟩
    rcases found with listed | still
    · exact .inl ⟨zone,by rw [same]; exact listed,congrArg ZoneInfo.zoneType here⟩
    · exact .inr (.inl ⟨zone,low,blocks.nrZones ▸ high,(congrArg ZoneInfo.cond here).trans still⟩)

theorem retryFound {answers : List Bool} (typed : type ≠ zoneTypeFree) (ready : Ready type s.zm)
    (ran : retryZone type answers s = some (t,zone)) : 2 ≤ zone ∧ ZonesOk t.zm := by
  have picked : ∀ {u : ZoneSbi} {tar : Nat}, ZonesOk u.zm → scanOpened u.zm type u.zm.zoneOpened longMax none = some tar →
      2 ≤ (u.zm.zoneInfo tar).zoneId := by
    intro u tar ok found
    rcases scanSound found with bad | ⟨_,same⟩
    · contradiction
    · rw [ok.zoneId]
      by_contra low
      rcases (by omega : tar = 0 ∨ tar = 1) with rfl | rfl
      · exact typed (same.symm.trans ok.superZero)
      · exact typed (same.symm.trans ok.superOne)
  induction answers generalizing s with
  | nil =>
    obtain ⟨tar,found,same⟩ := Option.map_eq_some_iff.mp ran
    cases same
    exact ⟨picked ready.1 found,ready.1⟩
  | cons accepted answers ih =>
    simp only [retryZone] at ran
    split at ran
    · rename_i tar found
      cases ran
      exact ⟨picked ready.1 found,ready.1⟩
    · rename_i missing
      obtain ⟨u,opened,rest⟩ := Option.bind_eq_some_iff.mp ran
      have room : HasEmpty s.zm ∨ s.zm.maxOpenZones ≤ s.zm.zoneOpenedCount := by
        rcases ready.2 with ⟨z,listed,same⟩ | room
        · have hit := scanFinds (laidScannable ready.1.toLaid ready.1.toPointed) listed same
          rw [missing] at hit
          contradiction
        · exact room
      exact ih (openReady ready.1 room opened) rest

/- The condition under which one write request finds a zone: when the search has
to open a zone and may, an empty zone from 2 on is left. -/
def EmptyLeft (type : Nat) (zm : ZmInfo) : Prop :=
  (zm.nrType type < zm.limitType type ∨ ¬ Selectable type zm) → zm.zoneOpenedCount < zm.maxOpenZones → HasEmpty zm

theorem getZoneFound {answers : List Bool} (typed : type ≠ zoneTypeFree) (ok : ZonesOk s.zm)
    (left : EmptyLeft type s.zm) (ran : getZone type answers s = some (t,zone)) : 2 ≤ zone ∧ ZonesOk t.zm := by
  unfold getZone at ran
  split at ran
  · rename_i below
    cases answers with
    | nil => contradiction
    | cons accepted answers =>
      obtain ⟨u,opened,rest⟩ := Option.bind_eq_some_iff.mp ran
      have room : HasEmpty s.zm ∨ s.zm.maxOpenZones ≤ s.zm.zoneOpenedCount := by
        by_cases free : s.zm.zoneOpenedCount < s.zm.maxOpenZones
        · exact Or.inl (left (Or.inl below) free)
        · exact Or.inr (by omega)
      exact retryFound typed (openReady ok room opened) rest
  · refine retryFound typed ⟨ok,?_⟩ ran
    by_cases listed : Selectable type s.zm
    · exact Or.inl listed
    · by_cases free : s.zm.zoneOpenedCount < s.zm.maxOpenZones
      · exact Or.inr (Or.inl (left (Or.inr listed) free))
      · exact Or.inr (Or.inr (by omega))

/- Events of the zone table between mount and unmount. -/
inductive ZoneEvent where
  | alloc (op : ReqOp) (type : PageType) (oldBlkaddr : Nat) (answers : List Bool)
  | complete (blkaddr : Nat)
  | invalidate (blkaddr : Nat)
  | checkpoint (locked : Bool) (restart : Option Bool)

def zoneStep (s : ZoneSbi) : ZoneEvent → Option ZoneSbi
  | .alloc op type oldBlkaddr answers => (allocZone op type oldBlkaddr answers s).map Prod.fst
  | .complete blkaddr => some { s with zm := validateBlkaddr s.zm blkaddr }
  | .invalidate blkaddr => some { s with zm := invalidateBlkaddr s.zm blkaddr }
  | .checkpoint locked restart => some { s with cpSemLocked := locked, cpcRestart := restart }

/- What a write request may look like and the condition on its search; blocks complete where the
shift of their address is exact. -/
def zoneGuard (s : ZoneSbi) : ZoneEvent → Prop
  | .alloc .zoneAppend type oldBlkaddr _ =>
    (oldBlkaddr = 0 ∨ 2 ≤ s.zm.blk2zone oldBlkaddr) ∧
      ((zoneIsFull s.zm (s.zm.blk2zone oldBlkaddr) = true ∨ oldBlkaddr = 0) → EmptyLeft type.code s.zm)
  | .complete blkaddr => blkaddr + 1 < 2 ^ 28
  | _ => True

theorem allocFound {type : PageType} {oldBlkaddr new : Nat} {answers : List Bool} (ok : ZonesOk s.zm)
    (guard : zoneGuard s (.alloc .zoneAppend type oldBlkaddr answers))
    (ran : allocZone .zoneAppend type oldBlkaddr answers s = some (t,new)) :
    (∃ zone, 2 ≤ zone ∧ new = (t.zm.zoneInfo zone).start / 2 ^ pageSectorsShift) ∧ ZonesOk t.zm := by
  obtain ⟨⟨u,zone⟩,chosen,same⟩ := Option.map_eq_some_iff.mp ran
  cases same
  obtain ⟨place,left⟩ := guard
  have found : 2 ≤ zone ∧ ZonesOk u.zm := by
    split at chosen
    · rename_i search
      refine getZoneFound (codeNotFree type) ok (left ?_) chosen
      rcases search with full | zero
      · exact Or.inl full
      · refine Or.inr (place.resolve_right fun high => ?_)
        rw [zero] at high
        omega
    · rename_i stay
      cases chosen
      refine ⟨place.resolve_left fun zero => ?_,ok⟩
      refine stay (Or.inr ?_)
      rw [zero]
      exact Nat.zero_div _
  refine ⟨⟨zone,found.1,?_⟩,okInvalidate found.2 oldBlkaddr⟩
  rw [(okInvalidate found.2 oldBlkaddr).start zone,found.2.start zone]
  rfl

theorem okStep (s : ZoneSbi) (event : ZoneEvent) (next : ZoneSbi) (ok : ZonesOk s.zm) (guard : zoneGuard s event)
    (ran : zoneStep s event = some next) : ZonesOk next.zm := by
  cases event with
  | alloc op type oldBlkaddr answers =>
    obtain ⟨⟨u,new⟩,chosen,rfl⟩ := Option.map_eq_some_iff.mp ran
    cases op with
    | read => cases chosen; exact ok
    | zoneAppend => exact (allocFound ok guard chosen).2
  | complete blkaddr => cases ran; exact okValidate ok guard
  | invalidate blkaddr => cases ran; exact okInvalidate ok blkaddr
  | checkpoint locked restart => cases ran; exact ok

/-- In every run whose write requests meet the guard, a further such request gets
the start of a zone from 2 on, and the superblock zones keep their type. -/
theorem allocZoneAvoidsSuper {s t u : ZoneSbi} {events : List ZoneEvent} {type : PageType} {oldBlkaddr new : Nat}
    {answers : List Bool} (mounted : ZonesOk s.zm) (run : EventRun.Run zoneGuard zoneStep s events t)
    (guard : zoneGuard t (.alloc .zoneAppend type oldBlkaddr answers))
    (ran : allocZone .zoneAppend type oldBlkaddr answers t = some (u,new)) :
    (∃ zone, 2 ≤ zone ∧ new = (u.zm.zoneInfo zone).start / 2 ^ pageSectorsShift) ∧
      (∀ zone < 2, (t.zm.zoneInfo zone).zoneType = (s.zm.zoneInfo zone).zoneType) ∧
      ∀ zone < 2, (u.zm.zoneInfo zone).zoneType = (s.zm.zoneInfo zone).zoneType := by
  have ok := EventRun.invariant (fun s => ZonesOk s.zm) okStep run mounted
  obtain ⟨found,after⟩ := allocFound ok guard ran
  have same : ∀ {zm : ZmInfo}, ZonesOk zm → ∀ zone < 2, (zm.zoneInfo zone).zoneType = (s.zm.zoneInfo zone).zoneType := by
    intro zm okZm zone low
    rcases (by omega : zone = 0 ∨ zone = 1) with rfl | rfl
    · rw [okZm.superZero,mounted.superZero]
    · rw [okZm.superOne,mounted.superOne]
  exact ⟨found,same ok,same after⟩

/- The condition cannot be dropped: without an empty zone the superblock zone is
opened and retyped. -/
theorem openTakesSuper {accepted : Bool} (none_ : ¬ HasEmpty s.zm) (free : s.zm.zoneOpenedCount < s.zm.maxOpenZones)
    (ran : openEmpty type accepted s = some t) : (t.zm.zoneInfo 0).zoneType = type := by
  unfold openEmpty at ran
  rw [if_pos free,getEmptyMissing none_] at ran
  dsimp only at ran
  split at ran
  · obtain ⟨_,_,rfl⟩ := Option.map_eq_some_iff.mp ran
    simp only [setZoneInfo,Function.update_self]
  · cases ran
    simp only [setZoneInfo,Function.update_self]

end

/- Eight zones of two blocks with the limits and types a mount sets; the superblock zone is the only open one. -/
def superTable (cond : Nat → ZoneCond) : ZoneSbi where
  zm :=
    { zoneSize := 16, zoneCapacity := 16, nrZones := 8, maxOpenZones := 8, maxActiveZones := 8
      nrType := fun _ => 0
      limitType := fun type => if type = PageType.metaData.code then 1 else if type = PageType.metaNode.code then 0 else 2
      zoneInfo := fun zone =>
        { zoneId := zone, cond := cond zone, start := zone * 16
          wp := zone * 16 + match cond zone with | .full => 16 | .impOpen => 8 | _ => 0
          writeInflight := 0, dirty := false, vblocks := 0, validMap := fun _ => false
          zoneType := if zone = 3 then PageType.metaNode.code else if zone = 5 then PageType.regNode.code
            else if zone = 6 then PageType.regData.code else zoneTypeFree }
      zoneOpened := some 0 :: List.replicate 7 none, zoneOpenedCount := 1
      zoneActive := some 0 :: List.replicate 7 none, zoneActiveCount := 1 }
  cpSemLocked := false
  cpcRestart := none

theorem superTableBlocks (cond : Nat → ZoneCond) : (superTable cond).zm.blocksPerZone = 2 := by
  change 16 / 2 ^ 3 = 2
  decide

theorem superTableOk (cond : Nat → ZoneCond) : ZonesOk (superTable cond).zm where
  aligned := by
    rw [superTableBlocks]
    rfl
  positive := by
    rw [superTableBlocks]
    decide
  small := (by decide : 16 < longMax)
  zoneId := fun _ => rfl
  start := fun _ => rfl
  wpLow := fun zone => Nat.le_add_right ..
  wpHigh := fun zone => by
    simp only [superTable]
    split <;> omega
  quiet := fun _ => rfl
  slots := rfl
  counted := rfl
  superZero := rfl
  superOne := rfl

def superCond (rest : ZoneCond) (zone : Nat) : ZoneCond :=
  if zone = 0 then .impOpen else if zone = 1 then .empty else rest

/- The table after a first metadata page took an empty zone. -/
def superTableOpened : ZoneSbi :=
  ((zoneStep (superTable (superCond .empty)) (.alloc .zoneAppend .metaData 0 [true])).getD (superTable (superCond .empty)))

def superTableAgain : ZoneSbi := { superTableOpened with zm := invalidateBlkaddr superTableOpened.zm 0 }

/-- Two metadata pages in a row, the second found by the scan over the open zones. -/
theorem allocZoneAvoidsSuperTwice :
    (∃ zone, 2 ≤ zone ∧ 4 = (superTableAgain.zm.zoneInfo zone).start / 2 ^ pageSectorsShift) ∧
      (∀ zone < 2, (superTableOpened.zm.zoneInfo zone).zoneType = ((superTable (superCond .empty)).zm.zoneInfo zone).zoneType) ∧
      ∀ zone < 2, (superTableAgain.zm.zoneInfo zone).zoneType = ((superTable (superCond .empty)).zm.zoneInfo zone).zoneType := by
  have first : zoneGuard (superTable (superCond .empty)) (.alloc .zoneAppend .metaData 0 [true]) :=
    ⟨Or.inl rfl,fun _ _ _ => ⟨2,by decide,by decide,rfl⟩⟩
  have second : zoneGuard superTableOpened (.alloc .zoneAppend .metaData 0 []) :=
    ⟨Or.inl rfl,fun _ _ _ => ⟨3,by decide,by decide,rfl⟩⟩
  have run : EventRun.Run zoneGuard zoneStep (superTable (superCond .empty)) [.alloc .zoneAppend .metaData 0 [true]]
      superTableOpened := EventRun.single first rfl
  have again : allocZone .zoneAppend .metaData 0 [] superTableOpened = some (superTableAgain,4) := rfl
  exact allocZoneAvoidsSuper (superTableOk _) run second again

/-- With the last empty zone gone a data page is sent to the superblock zone. -/
theorem allocZoneTakesSuper :
    ¬ ∀ s : ZoneSbi, ZonesOk s.zm → ∀ t new, allocZone .zoneAppend .regData 0 [true] s = some (t,new) →
      (∃ zone, 2 ≤ zone ∧ new = (t.zm.zoneInfo zone).start / 2 ^ pageSectorsShift) ∧
        (t.zm.zoneInfo 0).zoneType = (s.zm.zoneInfo 0).zoneType := by
  intro claim
  have ran : ((allocZone .zoneAppend .regData 0 [true] (superTable (superCond .full))).map fun r => (r.1.zm.zoneInfo 0).zoneType) = some 4 := rfl
  obtain ⟨⟨t,new⟩,here,typed⟩ := Option.map_eq_some_iff.mp ran
  have same := (claim _ (superTableOk _) t new here).2
  rw [typed] at same
  contradiction

end Xcpfs
