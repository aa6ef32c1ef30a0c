import Xcpfs.ZoneMgmt
import Xcpfs.Zit

/-! The zone table a mount builds over memory that `kmalloc` did not clear:
`xcpfs_report_zones_cb` for every zone of the device, the types `xcpfs_fill_super` sets,
then the entries of the ZIT. What none of them assigns is still what the memory held. -/
namespace Xcpfs

structure BlkZone where
  start : Nat
  len : Nat
  capacity : Nat
  wp : Nat
  cond : ZoneCond

structure BlockDevice where
  nrZones : Nat
  maxOpenZones : Nat
  maxActiveZones : Nat
  zones : Nat → BlkZone

/- The contents of `zm_info`, of its three arrays and of the valid maps at allocation. -/
structure RawMemory where
  zoneSize : Nat
  zoneCapacity : Nat
  nrType : Nat → Int
  limitType : Nat → Int
  zoneInfo : Nat → ZoneInfo
  zoneOpenedCount : Int
  zoneOpened : Nat → Option Nat
  zoneActiveCount : Int
  zoneActive : Nat → Option Nat
  validMap : Nat → Nat → Bool

def blankZone (bdev : BlockDevice) (zone : Nat) : ZoneInfo where
  zoneId := zone
  cond := .notWp
  wp := (bdev.zones zone).start
  start := (bdev.zones zone).start
  writeInflight := 0
  dirty := false
  zoneType := zoneTypeFree
  vblocks := 0
  validMap := fun _ => false

/- The arrays have `nr_zones` entries and `max_open_zones` and `max_active_zones` slots; past the
last zone, where no address of the device leads, the table goes on in the same layout. -/
def rawTable (mem : RawMemory) (bdev : BlockDevice) : ZmInfo where
  zoneSize := mem.zoneSize
  zoneCapacity := mem.zoneCapacity
  nrZones := bdev.nrZones
  maxOpenZones := bdev.maxOpenZones
  maxActiveZones := bdev.maxActiveZones
  nrType := mem.nrType
  limitType := mem.limitType
  zoneInfo := fun zone => if zone < bdev.nrZones then mem.zoneInfo zone else blankZone bdev zone
  zoneOpened := (List.range bdev.maxOpenZones).map mem.zoneOpened
  zoneOpenedCount := mem.zoneOpenedCount
  zoneActive := (List.range bdev.maxActiveZones).map mem.zoneActive
  zoneActiveCount := mem.zoneActiveCount

/- `list[count++] = zone`; no result when that is outside the array. -/
def listZone (zone : Nat) (list : List (Option Nat)) (count : Int) : Option (List (Option Nat) × Int) :=
  if 0 ≤ count ∧ count < list.length then some (list.set count.toNat (some zone),count + 1) else none

def ZmInfo.listOpened (zm : ZmInfo) (zone : Nat) : Option ZmInfo :=
  (listZone zone zm.zoneOpened zm.zoneOpenedCount).map fun (list,count) => { zm with zoneOpened := list, zoneOpenedCount := count }

def ZmInfo.listActive (zm : ZmInfo) (zone : Nat) : Option ZmInfo :=
  (listZone zone zm.zoneActive zm.zoneActiveCount).map fun (list,count) => { zm with zoneActive := list, zoneActiveCount := count }

def xcpfsReportZonesCb (zone : BlkZone) (idx : Nat) (zm : ZmInfo) : Option ZmInfo :=
  let zm := { zm with zoneSize := zone.len, zoneCapacity := zone.capacity }
  let zm := zm.setZone idx { zm.zoneInfo idx with cond := zone.cond, wp := zone.wp, zoneId := idx, start := zone.start }
  if zone.cond = .impOpen ∨ zone.cond = .expOpen then (zm.listOpened idx).bind fun zm => zm.listActive idx
  else if zone.cond = .closed then zm.listActive idx
  else some zm

def xcpfsInitZmInfo (raw : ZmInfo) (bdev : BlockDevice) : Option ZmInfo :=
  (CountedLoop.forLoop 0 bdev.nrZones (fun zm idx => xcpfsReportZonesCb (bdev.zones idx) idx zm) raw).map fun zm =>
    { zm with
      limitType := Function.update (Function.update (Function.update zm.limitType PageType.metaData.code 1)
        PageType.regNode.code 2) PageType.regData.code (zm.maxOpenZones - 1 - 1 - 2 - 1 - 1) }

def ZmInfo.typeZone (zm : ZmInfo) (zone : Nat) (type : PageType) : ZmInfo :=
  zm.setZone zone { zm.zoneInfo zone with zoneType := type.code, dirty := true }

/- `xcpfs_get_zit_info` where blocks may be missing: they are passed over, as all of
them are on the first mount. -/
def xcpfsGetZitPages (kmalloc : Nat → Nat → Bool) (page : Nat → Option ZitBlock) (zm : ZmInfo) : Option ZmInfo :=
  CountedLoop.forLoop 0 ((zm.nrZones + zitEntryPerBlock - 1) / zitEntryPerBlock)
    (fun zm i =>
      match page (i + zitStart) with
      | none => some zm
      | some ze => getZitBlock ze i zitEntryPerBlock 0 zm) (allocMaps kmalloc zm)

/- The part of `xcpfs_fill_super` that fills the zone table; no result when it writes
past the end of an array. -/
def mountTable (raw : ZmInfo) (bdev : BlockDevice) (kmalloc : Nat → Nat → Bool) (page : Nat → Option ZitBlock) : Option ZmInfo :=
  (xcpfsInitZmInfo raw bdev).bind fun zm =>
    if 6 < zm.nrZones then
      xcpfsGetZitPages kmalloc page (((zm.typeZone 3 .metaNode).typeZone 5 .regNode).typeZone 6 .regData)
    else none

def mountOver (mem : RawMemory) (bdev : BlockDevice) (page : Nat → Option ZitBlock) : Option ZmInfo :=
  mountTable (rawTable mem bdev) bdev mem.validMap page

/- Memory whose slot arrays and counters of slots read as zero. -/
structure NullSlots (mem : RawMemory) : Prop where
  opened : ∀ i, mem.zoneOpened i = none
  openedCount : mem.zoneOpenedCount = 0
  active : ∀ i, mem.zoneActive i = none
  activeCount : mem.zoneActiveCount = 0

/- Memory that reads as zero, the valid maps apart, and the table in it. -/
def zeroMemory (bdev : BlockDevice) (kmalloc : Nat → Nat → Bool) : RawMemory where
  zoneSize := 0
  zoneCapacity := 0
  nrType := fun _ => 0
  limitType := fun _ => 0
  zoneInfo := blankZone bdev
  zoneOpenedCount := 0
  zoneOpened := fun _ => none
  zoneActiveCount := 0
  zoneActive := fun _ => none
  validMap := kmalloc

def blankTable (bdev : BlockDevice) : ZmInfo := rawTable (zeroMemory bdev fun _ _ => false) bdev

theorem nullZero (bdev : BlockDevice) (kmalloc : Nat → Nat → Bool) : NullSlots (zeroMemory bdev kmalloc) :=
  ⟨fun _ => rfl,rfl,fun _ => rfl,rfl⟩

/- What the device promises of its report: zones of one size, one after the other. -/
structure Reported (bdev : BlockDevice) (blocks : Nat) : Prop where
  zones : 0 < bdev.nrZones
  positive : 0 < blocks
  small : blocks * 8 < longMax
  len : ∀ zone, (bdev.zones zone).len = blocks * 8
  start : ∀ zone, (bdev.zones zone).start = zone * (blocks * 8)
  wpLow : ∀ zone, (bdev.zones zone).start ≤ (bdev.zones zone).wp
  wpHigh : ∀ zone, (bdev.zones zone).wp ≤ (bdev.zones zone).start + blocks * 8

/- What a mount leaves over any memory: zones as reported. -/
structure Mounted (bdev : BlockDevice) (zm : ZmInfo) : Prop where
  laid : Laid zm
  pointed : Pointed zm
  size : zm.zoneSize = (bdev.zones (bdev.nrZones - 1)).len
  capacity : zm.zoneCapacity = (bdev.zones (bdev.nrZones - 1)).capacity
  nrZones : zm.nrZones = bdev.nrZones
  wp : ∀ zone, (zm.zoneInfo zone).wp = if zone < bdev.nrZones then (bdev.zones zone).wp else (bdev.zones zone).start
  cond : ∀ zone, (zm.zoneInfo zone).cond = if zone < bdev.nrZones then (bdev.zones zone).cond else .notWp

/- What the ZIT says of a zone: its entry and the map copied for it. -/
def zitTold (cond : ZoneCond) (page : Nat → Option ZitBlock) (zone : Nat) : Option (ZitEntry × (Nat → Bool)) :=
  if cond = .empty then none
  else (page (zone / zitEntryPerBlock + zitStart)).map fun ze => (ze (zone % zitEntryPerBlock),(ze 0).validMap)

def ZoneInfo.read (zi : ZoneInfo) (told : Option (ZitEntry × (Nat → Bool))) : ZoneInfo :=
  match told with
  | none => zi
  | some (ze,map) =>
    { zi with zoneType := ze.zoneType.val, vblocks := ze.vblocks.val, dirty := true, validMap := memcpyMap zi.validMap map }

def ofType (told : Option (ZitEntry × (Nat → Bool))) (type : Nat) : Bool := told.any fun told => decide (told.1.zoneType.val = type)

/- How many entries of the ZIT a mount counts for a type. -/
def zitCount (cond : Nat → ZoneCond) (page : Nat → Option ZitBlock) (k type : Nat) : Nat :=
  (List.range k).countP fun zone => ofType (zitTold (cond zone) page zone) type

/- The type `xcpfs_fill_super` gives a zone before it reads the ZIT. -/
def presetType (zone : Nat) : Option PageType :=
  if zone = 3 then some .metaNode else if zone = 5 then some .regNode else if zone = 6 then some .regData else none

def openZones (bdev : BlockDevice) (k : Nat) : List Nat := (List.range k).filter fun zone => (bdev.zones zone).cond.isOpen

def activeZones (bdev : BlockDevice) (k : Nat) : List Nat := (List.range k).filter fun zone => (bdev.zones zone).cond.isActive

/- A slot array with `zones` written from index `first` on. -/
structure SlotsHold (raw : List (Option Nat)) (first : Int) (zones : List Nat) (list : List (Option Nat)) (count : Int) : Prop where
  slots : list = raw.take first.toNat ++ zones.map some ++ raw.drop (first.toNat + zones.length)
  counted : count = first + zones.length
  inside : zones ≠ [] → 0 ≤ first ∧ first.toNat + zones.length ≤ raw.length

theorem listedNone (raw : List (Option Nat)) (first : Int) : SlotsHold raw first [] raw first := by
  refine ⟨?_,?_,fun bad => absurd rfl bad⟩
  · rw [List.map_nil,List.append_nil,List.length_nil,Nat.add_zero,List.take_append_drop]
  · rw [List.length_nil]
    exact (Int.add_zero first).symm

theorem listedLength {raw list : List (Option Nat)} {first count : Int} {zones : List Nat} (listed : SlotsHold raw first zones list count) :
    list.length = raw.length := by
  rw [listed.slots,List.length_append,List.length_append,List.length_take,List.length_map,List.length_drop]
  by_cases none_ : zones = []
  · rw [none_,List.length_nil]
    omega
  · have bound := (listed.inside none_).2
    omega

theorem listedNext {raw list rest : List (Option Nat)} {first count next : Int} {zones : List Nat} {zone : Nat}
    (listed : SlotsHold raw first zones list count) (ran : listZone zone list count = some (rest,next)) :
    SlotsHold raw first (zones ++ [zone]) rest next := by
  have lengths := listedLength listed
  obtain ⟨slots,counted,inside⟩ := listed
  unfold listZone at ran
  split at ran
  case isFalse => cases ran
  case isTrue room =>
  cases ran
  have low : 0 ≤ first := by
    by_cases none_ : zones = []
    · rw [counted,none_] at room
      simpa using room.1
    · exact (inside none_).1
  obtain ⟨k,same⟩ : ∃ k : Nat, first = k := ⟨first.toNat,(Int.toNat_of_nonneg low).symm⟩
  subst same
  rw [Int.toNat_natCast] at slots inside
  have place : count.toNat = k + zones.length := by omega
  have more : k + zones.length < raw.length := by omega
  refine ⟨?_,?_,fun _ => ⟨low,?_⟩⟩
  · have before : (raw.take k ++ zones.map some).length = k + zones.length := by
      rw [List.length_append,List.length_take,List.length_map]
      omega
    rw [slots,place,List.set_append_right _ _ (Nat.le_of_eq before),before,Nat.sub_self,
      List.drop_eq_getElem_cons more,List.set_cons_zero,List.map_append,List.length_append,List.append_assoc,List.append_assoc,
      List.append_assoc]
    rfl
  · rw [List.length_append,counted]
    rfl
  · rw [List.length_append]
    exact more

section
variable {bdev : BlockDevice} {raw zm next : ZmInfo} {page : Nat → Option ZitBlock} {k : Nat}

theorem isOpenIff {cond : ZoneCond} : cond.isOpen = true ↔ cond = .impOpen ∨ cond = .expOpen := by
  cases cond <;> simp [ZoneCond.isOpen]

theorem isActiveIff {cond : ZoneCond} : cond.isActive = true ↔ cond.isOpen = true ∨ cond = .closed := by
  cases cond <;> simp [ZoneCond.isOpen,ZoneCond.isActive]

theorem reportedLater {α : Type} {zone : Nat} {here there : α} (other : zone ≠ k) :
    (if zone < k then here else there) = if zone < k + 1 then here else there := by
  have same : zone < k + 1 ↔ zone < k := by omega
  simp only [same]

theorem reportCb {zone : BlkZone} (ran : xcpfsReportZonesCb zone k zm = some next) :
    (next.zoneSize = zone.len ∧ next.zoneCapacity = zone.capacity ∧ next.maxActiveZones = zm.maxActiveZones) ∧
      next.nrZones = zm.nrZones ∧ next.maxOpenZones = zm.maxOpenZones ∧ next.nrType = zm.nrType ∧ next.limitType = zm.limitType ∧
      next.zoneInfo = Function.update zm.zoneInfo k
        { zm.zoneInfo k with cond := zone.cond, wp := zone.wp, zoneId := k, start := zone.start } ∧
      (if zone.cond.isOpen then listZone k zm.zoneOpened zm.zoneOpenedCount = some (next.zoneOpened,next.zoneOpenedCount)
        else next.zoneOpened = zm.zoneOpened ∧ next.zoneOpenedCount = zm.zoneOpenedCount) ∧
      (if zone.cond.isActive then listZone k zm.zoneActive zm.zoneActiveCount = some (next.zoneActive,next.zoneActiveCount)
        else next.zoneActive = zm.zoneActive ∧ next.zoneActiveCount = zm.zoneActiveCount) := by
  unfold xcpfsReportZonesCb at ran
  dsimp only at ran
  split at ran
  case isTrue isOpen =>
    obtain ⟨mid,first,second⟩ := Option.bind_eq_some_iff.mp ran
    obtain ⟨⟨opened,openedCount⟩,openAt,same⟩ := Option.map_eq_some_iff.mp first
    subst same
    obtain ⟨⟨active,activeCount⟩,activeAt,same⟩ := Option.map_eq_some_iff.mp second
    subst same
    have open_ : zone.cond.isOpen = true := isOpenIff.mpr isOpen
    have activated : zone.cond.isActive = true := isActiveIff.mpr (.inl open_)
    rw [if_pos open_,if_pos activated]
    exact ⟨⟨rfl,rfl,rfl⟩,rfl,rfl,rfl,rfl,rfl,openAt,activeAt⟩
  case isFalse notOpen =>
    have shut : ¬zone.cond.isOpen = true := fun open_ => notOpen (isOpenIff.mp open_)
    rw [if_neg shut]
    split at ran
    case isTrue isClosed =>
      obtain ⟨⟨active,activeCount⟩,activeAt,same⟩ := Option.map_eq_some_iff.mp ran
      subst same
      rw [if_pos (isActiveIff.mpr (.inr isClosed))]
      exact ⟨⟨rfl,rfl,rfl⟩,rfl,rfl,rfl,rfl,rfl,⟨rfl,rfl⟩,activeAt⟩
    case isFalse notClosed =>
      cases ran
      rw [if_neg (fun active => (isActiveIff.mp active).elim shut notClosed)]
      exact ⟨⟨rfl,rfl,rfl⟩,rfl,rfl,rfl,rfl,rfl,⟨rfl,rfl⟩,⟨rfl,rfl⟩⟩

/- The table after the report of the zones below `k`. -/
structure ReportedOver (raw : ZmInfo) (bdev : BlockDevice) (k : Nat) (zm : ZmInfo) : Prop where
  size : 0 < k → zm.zoneSize = (bdev.zones (k - 1)).len
  capacity : 0 < k → zm.zoneCapacity = (bdev.zones (k - 1)).capacity
  maxActiveZones : zm.maxActiveZones = raw.maxActiveZones
  nrZones : zm.nrZones = raw.nrZones
  maxOpenZones : zm.maxOpenZones = raw.maxOpenZones
  nrType : zm.nrType = raw.nrType
  limitType : zm.limitType = raw.limitType
  zoneInfo : ∀ zone, zm.zoneInfo zone = if zone < k then
      { raw.zoneInfo zone with
        cond := (bdev.zones zone).cond, wp := (bdev.zones zone).wp, zoneId := zone, start := (bdev.zones zone).start }
    else raw.zoneInfo zone
  opened : SlotsHold raw.zoneOpened raw.zoneOpenedCount (openZones bdev k) zm.zoneOpened zm.zoneOpenedCount
  active : SlotsHold raw.zoneActive raw.zoneActiveCount (activeZones bdev k) zm.zoneActive zm.zoneActiveCount

theorem reportedStart (raw : ZmInfo) (bdev : BlockDevice) : ReportedOver raw bdev 0 raw :=
  ⟨fun bad => absurd bad (Nat.lt_irrefl 0),fun bad => absurd bad (Nat.lt_irrefl 0),rfl,rfl,rfl,rfl,rfl,
    fun _ => (if_neg (Nat.not_lt_zero _)).symm,listedNone _ _,listedNone _ _⟩

theorem filterNext (holds : Nat → Bool) (k : Nat) :
    (List.range (k + 1)).filter holds = (List.range k).filter holds ++ if holds k then [k] else [] := by
  rw [List.range_succ,List.filter_append,List.filter_singleton]
  cases holds k <;> rfl

theorem listedStep {list rest slots : List (Option Nat)} {first count next : Int} {holds : Nat → Bool}
    (listed : SlotsHold slots first ((List.range k).filter holds) list count)
    (ran : if holds k then listZone k list count = some (rest,next) else rest = list ∧ next = count) :
    SlotsHold slots first ((List.range (k + 1)).filter holds) rest next := by
  rw [filterNext]
  cases held : holds k with
  | true =>
    rw [held,if_pos rfl] at ran
    rw [if_pos rfl]
    exact listedNext listed ran
  | false =>
    rw [held,if_neg Bool.false_ne_true] at ran
    rw [if_neg Bool.false_ne_true,List.append_nil,ran.1,ran.2]
    exact listed

theorem reportedOverNext (reported : ReportedOver raw bdev k zm) (ran : xcpfsReportZonesCb (bdev.zones k) k zm = some next) :
    ReportedOver raw bdev (k + 1) next := by
  obtain ⟨⟨size,capacity,maxActiveZones⟩,nrZones,maxOpenZones,nrType,limitType,info,opened,active⟩ := reportCb ran
  refine ⟨fun _ => size,fun _ => capacity,maxActiveZones.trans reported.maxActiveZones,nrZones.trans reported.nrZones,maxOpenZones.trans reported.maxOpenZones,nrType.trans reported.nrType,
    limitType.trans reported.limitType,?_,listedStep reported.opened opened,listedStep reported.active active⟩
  intro zone
  rw [info]
  by_cases here : zone = k
  · subst here
    rw [Function.update_self,if_pos (Nat.lt_succ_self zone),reported.zoneInfo,if_neg (Nat.lt_irrefl zone)]
  · rw [Function.update_of_ne here,reported.zoneInfo,reportedLater here]

theorem listRuns {list slots : List (Option Nat)} {first count : Int} {holds : Nat → Bool} {n : Nat} (below : k < n)
    (listed : SlotsHold slots first ((List.range k).filter holds) list count) (held : holds k = true) (low : 0 ≤ first)
    (room : first.toNat + ((List.range n).filter holds).length ≤ slots.length) : ∃ rest next, listZone k list count = some (rest,next) := by
  have more : ((List.range k).filter holds).length + 1 ≤ ((List.range n).filter holds).length := by
    have sub := ((List.range_sublist.mpr (Nat.succ_le_of_lt below)).filter holds).length_le
    rw [filterNext,held,if_pos rfl,List.length_append] at sub
    exact sub
  have counted := listed.counted
  have lengths := listedLength listed
  refine ⟨list.set count.toNat (some k),count + 1,if_pos ⟨?_,?_⟩⟩ <;> omega

theorem reportCbRuns {zone : BlkZone} (opened : zone.cond.isOpen = true → ∃ rest next, listZone k zm.zoneOpened zm.zoneOpenedCount = some (rest,next))
    (active : zone.cond.isActive = true → ∃ rest next, listZone k zm.zoneActive zm.zoneActiveCount = some (rest,next)) :
    ∃ next, xcpfsReportZonesCb zone k zm = some next := by
  unfold xcpfsReportZonesCb
  dsimp only
  split
  case isTrue isOpen =>
    have open_ := isOpenIff.mpr isOpen
    obtain ⟨list,count,here⟩ := opened open_
    obtain ⟨listToo,countToo,there⟩ := active (isActiveIff.mpr (.inl open_))
    exact ⟨_,Option.bind_eq_some_iff.mpr ⟨_,congrArg (Option.map _) here,congrArg (Option.map _) there⟩⟩
  case isFalse notOpen =>
    split
    case isTrue isClosed =>
      obtain ⟨list,count,there⟩ := active (isActiveIff.mpr (.inr isClosed))
      exact ⟨_,congrArg (Option.map _) there⟩
    case isFalse notClosed => exact ⟨_,rfl⟩

theorem initRuns (lowOpened : 0 ≤ raw.zoneOpenedCount) (lowActive : 0 ≤ raw.zoneActiveCount)
    (roomOpened : raw.zoneOpenedCount.toNat + (openZones bdev bdev.nrZones).length ≤ raw.zoneOpened.length)
    (roomActive : raw.zoneActiveCount.toNat + (activeZones bdev bdev.nrZones).length ≤ raw.zoneActive.length) :
    ∃ zm, xcpfsInitZmInfo raw bdev = some zm := by
  obtain ⟨last,loop,_⟩ := CountedLoop.forLoopInvariant (fun k zm => ReportedOver raw bdev k zm) (Nat.zero_le bdev.nrZones)
    (fun k zm _ below reported => by
      obtain ⟨next,here⟩ := reportCbRuns (fun held => listRuns below reported.opened held lowOpened roomOpened)
        fun held => listRuns below reported.active held lowActive roomActive
      exact ⟨next,here,reportedOverNext reported here⟩) (reportedStart raw bdev)
  exact ⟨_,congrArg (Option.map _) loop⟩

theorem initOver (ran : xcpfsInitZmInfo raw bdev = some zm) : ∃ last, ReportedOver raw bdev bdev.nrZones last ∧
    zm = { last with limitType := Function.update (Function.update (Function.update raw.limitType PageType.metaData.code 1)
        PageType.regNode.code 2) PageType.regData.code (raw.maxOpenZones - 1 - 1 - 2 - 1 - 1) } := by
  obtain ⟨last,loop,same⟩ := Option.map_eq_some_iff.mp ran
  have done := CountedLoop.stepsSound (fun k zm => ReportedOver raw bdev k zm) (bdev.nrZones - 0) 0
    (fun k _ _ _ _ reported here => reportedOverNext reported here) (reportedStart raw bdev) loop
  rw [Nat.sub_zero,Nat.zero_add] at done
  refine ⟨last,done,?_⟩
  rw [← same,done.limitType,done.maxOpenZones]

/- The two loops over the ZIT visit the zones one after the other. -/
def getPageZone (page : Nat → Option ZitBlock) (zm : ZmInfo) (zone : Nat) : Option ZmInfo :=
  match page (zone / zitEntryPerBlock + zitStart) with
  | none => some zm
  | some ze => getZitEntry ze zone (zone % zitEntryPerBlock) zm

theorem getPageZones {zone : Nat} (ran : getPageZone page zm zone = some next) : next.nrZones = zm.nrZones := by
  unfold getPageZone at ran
  split at ran
  · cases ran
    rfl
  · exact getZitEntryZones ran

theorem stepsIdle {body : ZmInfo → Nat → Option ZmInfo} (count start : Nat)
    (idle : ∀ i s, start ≤ i → i < start + count → body s i = some s) (s : ZmInfo) : CountedLoop.steps body count start s = some s := by
  induction count generalizing start with
  | zero => rfl
  | succ count ih =>
    rw [CountedLoop.steps,idle start s (Nat.le_refl _) (by omega)]
    exact ih (start + 1) fun i t low high => idle i t (by omega) (by omega)

theorem getPagesFlat (kmalloc : Nat → Nat → Bool) (page : Nat → Option ZitBlock) (zm : ZmInfo) :
    xcpfsGetZitPages kmalloc page zm = CountedLoop.steps (getPageZone page) zm.nrZones 0 (allocMaps kmalloc zm) := by
  have steps : CountedLoop.steps
      (fun zm i =>
        match page (i + zitStart) with
        | none => some zm
        | some ze => getZitBlock ze i zitEntryPerBlock 0 zm)
      ((zm.nrZones + zitEntryPerBlock - 1) / zitEntryPerBlock) 0 (allocMaps kmalloc zm) =
      CountedLoop.steps (getPageZone page) (zm.nrZones - 0 * zitEntryPerBlock) (0 * zitEntryPerBlock) (allocMaps kmalloc zm) := by
    refine CountedLoop.stepsBlocks (fun t => t.nrZones = zm.nrZones) (fun _ _ _ same here => (getPageZones here).trans same) ?_ _ 0
      (by omega) ?_ ?_ rfl
    · intro i s same inside
      have div : ∀ zone, i * zitEntryPerBlock ≤ zone → zone < i * zitEntryPerBlock + zitEntryPerBlock → zone / zitEntryPerBlock = i := by
        intro zone low high
        rw [zitEntryPerBlockValue] at *
        omega
      cases found : page (i + zitStart) with
      | none =>
        symm
        refine stepsIdle _ _ (fun zone t low high => ?_) s
        unfold getPageZone
        rw [div zone low (by omega),found]
      | some ze =>
        rw [← same] at inside ⊢
        have flat := getZitBlockSteps (fun _ => ze) s i zitEntryPerBlock 0 (by omega) (by omega)
        refine flat.trans (CountedLoop.stepsCongr _ _ (fun zone t low high => ?_) s)
        unfold getPageZone
        rw [div zone low (by omega),found]
        rfl
    · rw [Nat.zero_add,zitEntryPerBlockValue]
      omega
    · rw [Nat.zero_add,zitEntryPerBlockValue]
      omega
  rwa [Nat.zero_mul,Nat.sub_zero] at steps

/- The table after the entries of the zones below `k`. -/
structure ReadOver (start : ZmInfo) (page : Nat → Option ZitBlock) (k : Nat) (zm : ZmInfo) : Prop where
  size : zm.zoneSize = start.zoneSize
  capacity : zm.zoneCapacity = start.zoneCapacity
  nrZones : zm.nrZones = start.nrZones
  maxOpenZones : zm.maxOpenZones = start.maxOpenZones
  maxActiveZones : zm.maxActiveZones = start.maxActiveZones
  limitType : zm.limitType = start.limitType
  zoneOpened : zm.zoneOpened = start.zoneOpened
  zoneOpenedCount : zm.zoneOpenedCount = start.zoneOpenedCount
  zoneActive : zm.zoneActive = start.zoneActive
  zoneActiveCount : zm.zoneActiveCount = start.zoneActiveCount
  zoneInfo : ∀ zone, zm.zoneInfo zone = if zone < k then (start.zoneInfo zone).read (zitTold (start.zoneInfo zone).cond page zone)
    else start.zoneInfo zone
  nrType : ∀ type, zm.nrType type = start.nrType type + zitCount (fun zone => (start.zoneInfo zone).cond) page k type

theorem zitCountNext (cond : Nat → ZoneCond) (page : Nat → Option ZitBlock) (k type : Nat) :
    zitCount cond page (k + 1) type = zitCount cond page k type + (ofType (zitTold (cond k) page k) type).toNat := by
  unfold zitCount
  rw [List.range_succ,List.countP_append,List.countP_singleton]
  cases ofType (zitTold (cond k) page k) type <;> rfl

theorem readOverNext {start : ZmInfo} (read : ReadOver start page k zm) (ran : getPageZone page zm k = some next) :
    ReadOver start page (k + 1) next := by
  have here : zm.zoneInfo k = start.zoneInfo k := (read.zoneInfo k).trans (if_neg (Nat.lt_irrefl k))
  have idle : next = zm → zitTold (start.zoneInfo k).cond page k = none → ReadOver start page (k + 1) next := by
    intro same untold
    rw [same]
    refine ⟨read.size,read.capacity,read.nrZones,read.maxOpenZones,read.maxActiveZones,read.limitType,read.zoneOpened,
      read.zoneOpenedCount,read.zoneActive,read.zoneActiveCount,?_,?_⟩
    · intro zone
      by_cases at_ : zone = k
      · rw [at_,if_pos (Nat.lt_succ_self k),untold]
        exact here
      · rw [read.zoneInfo,reportedLater at_]
    · intro type
      rw [zitCountNext,untold]
      exact read.nrType type
  unfold getPageZone at ran
  split at ran
  case h_1 missing =>
    refine idle (Option.some.inj ran).symm ?_
    unfold zitTold
    rw [missing]
    exact ite_self none
  case h_2 ze found =>
    unfold getZitEntry at ran
    dsimp only at ran
    rw [here] at ran
    split at ran
    case isTrue empty =>
      refine idle (Option.some.inj ran).symm ?_
      unfold zitTold
      rw [if_pos empty]
    case isFalse used =>
      have told : zitTold (start.zoneInfo k).cond page k = some (ze (k % zitEntryPerBlock),(ze 0).validMap) := by
        unfold zitTold
        rw [if_neg used,found]
        rfl
      split at ran
      case isFalse => cases ran
      case isTrue small =>
      cases ran
      refine ⟨read.size,read.capacity,read.nrZones,read.maxOpenZones,read.maxActiveZones,read.limitType,read.zoneOpened,
      read.zoneOpenedCount,read.zoneActive,read.zoneActiveCount,?_,?_⟩
      · intro zone
        change Function.update zm.zoneInfo k _ zone = _
        by_cases at_ : zone = k
        · rw [at_,Function.update_self,if_pos (Nat.lt_succ_self k),told]
          rfl
        · rw [Function.update_of_ne at_,read.zoneInfo,reportedLater at_]
      · intro type
        rw [zitCountNext,told]
        change Function.update zm.nrType (ze (k % zitEntryPerBlock)).zoneType.val _ type = _
        by_cases same : (ze (k % zitEntryPerBlock)).zoneType.val = type
        · rw [same,Function.update_self,read.nrType]
          have counted : ofType (some (ze (k % zitEntryPerBlock),(ze 0).validMap)) type = true := decide_eq_true same
          rw [counted,Bool.toNat_true]
          push_cast
          omega
        · have counted : ofType (some (ze (k % zitEntryPerBlock),(ze 0).validMap)) type = false := decide_eq_false same
          rw [counted,Bool.toNat_false,Function.update_of_ne (Ne.symm same)]
          exact read.nrType type

theorem readOver {kmalloc : Nat → Nat → Bool} (ran : xcpfsGetZitPages kmalloc page zm = some next) :
    ReadOver (allocMaps kmalloc zm) page zm.nrZones next := by
  rw [getPagesFlat] at ran
  have start : ReadOver (allocMaps kmalloc zm) page 0 (allocMaps kmalloc zm) :=
    ⟨rfl,rfl,rfl,rfl,rfl,rfl,rfl,rfl,rfl,rfl,fun _ => (if_neg (Nat.not_lt_zero _)).symm,fun _ => (Int.add_zero _).symm⟩
  have done := CountedLoop.stepsSound (fun k zm' => ReadOver (allocMaps kmalloc zm) page k zm') zm.nrZones 0
    (fun k _ _ _ _ read here => readOverNext read here) start ran
  rwa [Nat.zero_add] at done

theorem zitCountCongr {cond other : Nat → ZoneCond} (same : ∀ zone < k, cond zone = other zone) (type : Nat) :
    zitCount cond page k type = zitCount other page k type := by
  unfold zitCount
  refine List.countP_congr fun zone member => ?_
  rw [same zone (List.mem_range.mp member)]

/- The entry of a zone before the ZIT is read. -/
def mountedZone (raw : ZmInfo) (bdev : BlockDevice) (kmalloc : Nat → Nat → Bool) (zone : Nat) : ZoneInfo :=
  { raw.zoneInfo zone with
    cond := (bdev.zones zone).cond, wp := (bdev.zones zone).wp, zoneId := zone, start := (bdev.zones zone).start
    zoneType := (presetType zone).elim (raw.zoneInfo zone).zoneType PageType.code
    dirty := (presetType zone).isSome || (raw.zoneInfo zone).dirty
    validMap := kmalloc zone, writeInflight := 0 }

/- The table a mount leaves, field by field. -/
structure MountedOver (raw : ZmInfo) (bdev : BlockDevice) (kmalloc : Nat → Nat → Bool) (page : Nat → Option ZitBlock)
    (zm : ZmInfo) : Prop where
  size : 0 < bdev.nrZones → zm.zoneSize = (bdev.zones (bdev.nrZones - 1)).len
  capacity : 0 < bdev.nrZones → zm.zoneCapacity = (bdev.zones (bdev.nrZones - 1)).capacity
  nrZones : zm.nrZones = raw.nrZones
  maxOpenZones : zm.maxOpenZones = raw.maxOpenZones
  maxActiveZones : zm.maxActiveZones = raw.maxActiveZones
  limitType : zm.limitType = Function.update (Function.update (Function.update raw.limitType PageType.metaData.code 1)
    PageType.regNode.code 2) PageType.regData.code (raw.maxOpenZones - 1 - 1 - 2 - 1 - 1)
  opened : SlotsHold raw.zoneOpened raw.zoneOpenedCount (openZones bdev bdev.nrZones) zm.zoneOpened zm.zoneOpenedCount
  active : SlotsHold raw.zoneActive raw.zoneActiveCount (activeZones bdev bdev.nrZones) zm.zoneActive zm.zoneActiveCount
  zoneInfo : ∀ zone < bdev.nrZones,
    zm.zoneInfo zone = (mountedZone raw bdev kmalloc zone).read (zitTold (bdev.zones zone).cond page zone)
  past : ∀ zone, ¬zone < bdev.nrZones → zm.zoneInfo zone = { raw.zoneInfo zone with validMap := kmalloc zone, writeInflight := 0 }
  nrType : ∀ type, zm.nrType type = raw.nrType type + zitCount (fun zone => (bdev.zones zone).cond) page bdev.nrZones type

/- The three zones typed by `xcpfs_fill_super`. -/
theorem typedZones (zm : ZmInfo) (zone : Nat) :
    (((zm.typeZone 3 .metaNode).typeZone 5 .regNode).typeZone 6 .regData).zoneInfo zone =
      { zm.zoneInfo zone with
        zoneType := (presetType zone).elim (zm.zoneInfo zone).zoneType PageType.code
        dirty := (presetType zone).isSome || (zm.zoneInfo zone).dirty } := by
  unfold ZmInfo.typeZone presetType
  simp only [setZoneInfo]
  by_cases six : zone = 6
  · subst six
    rfl
  · rw [Function.update_of_ne six]
    by_cases five : zone = 5
    · subst five
      rfl
    · rw [Function.update_of_ne five]
      by_cases three : zone = 3
      · subst three
        rfl
      · rw [Function.update_of_ne three,if_neg three,if_neg five,if_neg six]
        rfl

theorem mountedOver {kmalloc : Nat → Nat → Bool} (zones : raw.nrZones = bdev.nrZones)
    (ran : mountTable raw bdev kmalloc page = some zm) : MountedOver raw bdev kmalloc page zm := by
  obtain ⟨init,inited,rest⟩ := Option.bind_eq_some_iff.mp ran
  obtain ⟨last,reported,same⟩ := initOver inited
  split at rest
  case isFalse => cases rest
  case isTrue enough =>
  have read := readOver rest
  have start : ∀ zone < bdev.nrZones,
      (allocMaps kmalloc (((init.typeZone 3 .metaNode).typeZone 5 .regNode).typeZone 6 .regData)).zoneInfo zone =
        mountedZone raw bdev kmalloc zone := by
    intro zone inside
    have info : init.zoneInfo zone = { raw.zoneInfo zone with
        cond := (bdev.zones zone).cond, wp := (bdev.zones zone).wp, zoneId := zone, start := (bdev.zones zone).start } := by
      rw [same]
      exact (reported.zoneInfo zone).trans (if_pos inside)
    change ({ (((init.typeZone 3 .metaNode).typeZone 5 .regNode).typeZone 6 .regData).zoneInfo zone with
      validMap := kmalloc zone, writeInflight := 0 } : ZoneInfo) = _
    rw [typedZones,info]
    rfl
  have total : (((init.typeZone 3 .metaNode).typeZone 5 .regNode).typeZone 6 .regData).nrZones = bdev.nrZones := by
    change init.nrZones = bdev.nrZones
    rw [same]
    exact reported.nrZones.trans zones
  rw [total] at read
  refine ⟨fun positive => ?_,fun positive => ?_,?_,?_,?_,?_,?_,?_,?_,?_,?_⟩
  · rw [read.size]
    change init.zoneSize = _
    rw [same]
    exact reported.size positive
  · rw [read.capacity]
    change init.zoneCapacity = _
    rw [same]
    exact reported.capacity positive
  · rw [read.nrZones]
    exact total.trans zones.symm
  · rw [read.maxOpenZones]
    change init.maxOpenZones = _
    rw [same]
    exact reported.maxOpenZones
  · rw [read.maxActiveZones]
    change init.maxActiveZones = _
    rw [same]
    exact reported.maxActiveZones
  · rw [read.limitType]
    change init.limitType = _
    rw [same]
  · rw [read.zoneOpened,read.zoneOpenedCount]
    change SlotsHold _ _ _ init.zoneOpened init.zoneOpenedCount
    rw [same]
    exact reported.opened
  · rw [read.zoneActive,read.zoneActiveCount]
    change SlotsHold _ _ _ init.zoneActive init.zoneActiveCount
    rw [same]
    exact reported.active
  · intro zone inside
    rw [read.zoneInfo,if_pos inside,start zone inside]
    rfl
  · intro zone outside
    rw [read.zoneInfo,if_neg outside]
    change ({ (((init.typeZone 3 .metaNode).typeZone 5 .regNode).typeZone 6 .regData).zoneInfo zone with
      validMap := kmalloc zone, writeInflight := 0 } : ZoneInfo) = _
    have info : init.zoneInfo zone = raw.zoneInfo zone := by
      rw [same]
      exact (reported.zoneInfo zone).trans (if_neg outside)
    have inside : 6 < bdev.nrZones := by
      rw [← total]
      exact enough
    have plain : presetType zone = none := by
      unfold presetType
      rw [if_neg (by omega),if_neg (by omega),if_neg (by omega)]
    rw [typedZones,info,plain]
    rfl
  · intro type
    rw [read.nrType]
    have counted := @zitCountCongr page bdev.nrZones _ (fun zone => (bdev.zones zone).cond)
      (fun zone inside => congrArg ZoneInfo.cond (start zone inside)) type
    rw [counted]
    change init.nrType type + _ = _
    rw [same]
    change last.nrType type + _ = _
    rw [reported.nrType]

/- The table of a mount has the zones of the report, whatever the memory held. -/
theorem tableMounted {blocks : Nat} {kmalloc : Nat → Nat → Bool} (reported : Reported bdev blocks)
    (zones : raw.nrZones = bdev.nrZones) (past : ∀ zone, ¬zone < bdev.nrZones → raw.zoneInfo zone = blankZone bdev zone)
    (ran : mountTable raw bdev kmalloc page = some zm) : Mounted bdev zm := by
  have holds := mountedOver zones ran
  have size : zm.zoneSize = blocks * 8 := (holds.size reported.zones).trans (reported.len _)
  have perZone : zm.blocksPerZone = blocks := by
    unfold ZmInfo.blocksPerZone
    rw [size]
    exact Nat.mul_div_cancel blocks (by decide)
  have entry : ∀ zone, (zm.zoneInfo zone).zoneId = zone ∧ (zm.zoneInfo zone).start = (bdev.zones zone).start ∧
      (zm.zoneInfo zone).writeInflight = 0 ∧
      ((zm.zoneInfo zone).wp = if zone < bdev.nrZones then (bdev.zones zone).wp else (bdev.zones zone).start) ∧
      (zm.zoneInfo zone).cond = if zone < bdev.nrZones then (bdev.zones zone).cond else .notWp := by
    intro zone
    by_cases inside : zone < bdev.nrZones
    · rw [holds.zoneInfo zone inside,if_pos inside,if_pos inside]
      cases zitTold (bdev.zones zone).cond page zone <;> exact ⟨rfl,rfl,rfl,rfl,rfl⟩
    · rw [holds.past zone inside,past zone inside,if_neg inside,if_neg inside]
      exact ⟨rfl,rfl,rfl,rfl,rfl⟩
  have bounds : ∀ zone, (zm.zoneInfo zone).start ≤ (zm.zoneInfo zone).wp ∧
      (zm.zoneInfo zone).wp ≤ (zm.zoneInfo zone).start + blocks * 8 := by
    intro zone
    obtain ⟨_,start,_,wp,_⟩ := entry zone
    rw [start,wp]
    split
    · exact ⟨reported.wpLow zone,reported.wpHigh zone⟩
    · exact ⟨Nat.le_refl _,Nat.le_add_right ..⟩
  refine ⟨⟨?_,?_,fun zone => (entry zone).1,?_,fun zone => (entry zone).2.2.1⟩,⟨?_,fun zone => (bounds zone).1,?_⟩,
    holds.size reported.zones,holds.capacity reported.zones,holds.nrZones.trans zones,fun zone => (entry zone).2.2.2.1,
    fun zone => (entry zone).2.2.2.2⟩
  · rw [size,perZone]
  · rw [perZone]
    exact reported.positive
  · rw [size]
    exact fun zone => (entry zone).2.1.trans (reported.start zone)
  · rw [size]
    exact reported.small
  · rw [size]
    exact fun zone => (bounds zone).2

theorem mountMounted {blocks : Nat} {mem : RawMemory} (reported : Reported bdev blocks) (ran : mountOver mem bdev page = some zm) :
    Mounted bdev zm := tableMounted reported rfl (fun _ outside => if_neg outside) ran

theorem heldTally {list : List (Option Nat)} {count : Int} {size : Nat} {zones : List Nat} {holds : Nat → Bool}
    (held : SlotsHold (List.replicate size none) 0 zones list count) (nodup : zones.Nodup)
    (each : ∀ zone, holds zone = decide (zone ∈ zones)) : Tally list count size holds := by
  have bound : zones.length ≤ size := by
    by_cases none_ : zones = []
    · rw [none_]
      exact Nat.zero_le _
    · have inside := (held.inside none_).2
      rwa [Int.toNat_zero,Nat.zero_add,List.length_replicate] at inside
  have slots : list = zones.map some ++ List.replicate (size - zones.length) none := by
    rw [held.slots,Int.toNat_zero,Nat.zero_add,List.take_zero,List.nil_append,List.drop_replicate]
  have total : (zones.map some).countP Option.isSome = zones.length := by
    rw [List.countP_map,List.countP_eq_length]
    exact fun _ _ => rfl
  refine ⟨?_,?_,?_⟩
  · rw [slots,List.length_append,List.length_map,List.length_replicate]
    omega
  · intro zone
    rw [slots,List.count_append,List.count_replicate,List.count_map_of_injective zones some (Option.some_injective Nat),each,
      nodup.count]
    by_cases member : zone ∈ zones
    · rw [if_pos member,decide_eq_true member]
      rfl
    · rw [if_neg member,decide_eq_false member]
      rfl
  · rw [held.counted,slots,List.countP_append,total,List.countP_replicate]
    exact Int.zero_add _

theorem nullMap {slots : Nat → Option Nat} (null : ∀ i, slots i = none) (size : Nat) :
    (List.range size).map slots = List.replicate size none := by
  rw [show slots = fun _ => none from funext null,List.map_const',List.length_range]

theorem filterEach (k : Nat) {zone : Nat} {reported : Nat → Bool} {now : Bool} (same : now = (decide (zone < k) && reported zone)) :
    now = decide (zone ∈ (List.range k).filter reported) := by
  rw [same,Bool.eq_iff_iff,decide_eq_true_eq,List.mem_filter,List.mem_range,Bool.and_eq_true,decide_eq_true_eq]

theorem mountAccounted {blocks : Nat} {mem : RawMemory} (reported : Reported bdev blocks) (null : NullSlots mem)
    (ran : mountOver mem bdev page = some zm) : Accounted zm := by
  have holds := mountedOver rfl ran
  have mounted := mountMounted reported ran
  have opened := holds.opened
  have active := holds.active
  change SlotsHold ((List.range bdev.maxOpenZones).map mem.zoneOpened) mem.zoneOpenedCount _ _ _ at opened
  change SlotsHold ((List.range bdev.maxActiveZones).map mem.zoneActive) mem.zoneActiveCount _ _ _ at active
  rw [nullMap null.opened,null.openedCount] at opened
  rw [nullMap null.active,null.activeCount] at active
  have isOpen : ∀ zone, openIn zm zone = decide (zone ∈ openZones bdev bdev.nrZones) := by
    refine fun zone => filterEach bdev.nrZones ?_
    unfold openIn
    rw [mounted.cond]
    by_cases inside : zone < bdev.nrZones
    · rw [if_pos inside,decide_eq_true inside,Bool.true_and]
    · rw [if_neg inside,decide_eq_false inside]
      rfl
  have isActive : ∀ zone, activeIn zm zone = decide (zone ∈ activeZones bdev bdev.nrZones) := by
    refine fun zone => filterEach bdev.nrZones ?_
    unfold activeIn
    rw [mounted.cond]
    by_cases inside : zone < bdev.nrZones
    · rw [if_pos inside,decide_eq_true inside,Bool.true_and]
    · rw [if_neg inside,decide_eq_false inside]
      rfl
  have openTally := heldTally opened (List.nodup_range.filter _) isOpen
  have activeTally := heldTally active (List.nodup_range.filter _) isActive
  have opens : zm.maxOpenZones = bdev.maxOpenZones := holds.maxOpenZones
  have actives : zm.maxActiveZones = bdev.maxActiveZones := holds.maxActiveZones
  rw [← opens] at openTally
  rw [← actives] at activeTally
  exact accountedIff.mpr ⟨openTally,activeTally⟩

end

end Xcpfs
