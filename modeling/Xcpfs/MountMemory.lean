import Xcpfs.ZoneRoute

/-! Two mounts of one device over different memory. -/
namespace Xcpfs

def validMapBits : Nat := zoneValidMapSize * 4 * 8

/- What two mounts of one device have in common. -/
structure SameTable (bdev : BlockDevice) (zm other : ZmInfo) : Prop where
  opened : zm.zoneOpened = other.zoneOpened ∧ zm.zoneOpenedCount = other.zoneOpenedCount ∧
    zm.zoneOpened.countP Option.isSome = (openZones bdev bdev.nrZones).length
  active : zm.zoneActive = other.zoneActive ∧ zm.zoneActiveCount = other.zoneActiveCount ∧
    zm.zoneActive.countP Option.isSome = (activeZones bdev bdev.nrZones).length
  nrType : ∀ type : PageType, zm.nrType type.code = other.nrType type.code
  limitType : ∀ type : PageType, zm.limitType type.code = other.limitType type.code
  zoneType : ∀ zone < bdev.nrZones, (zm.zoneInfo zone).zoneType = (other.zoneInfo zone).zoneType
  vblocks : ∀ zone < bdev.nrZones, (zm.zoneInfo zone).vblocks = (other.zoneInfo zone).vblocks
  dirty : ∀ zone < bdev.nrZones, (zm.zoneInfo zone).dirty = (other.zoneInfo zone).dirty
  validMap : ∀ zone < bdev.nrZones, ∀ idx < validMapBits, (zm.zoneInfo zone).validMap idx = (other.zoneInfo zone).validMap idx

/- The memory of an array has NULL in the slots that the report does not fill. -/
def UnusedNull (first : Int) (zones : List Nat) (size : Nat) (slots : Nat → Option Nat) : Prop :=
  ∀ i < size, i < first.toNat ∨ first.toNat + zones.length ≤ i → slots i = none

/- Two memories agree on everything a mount uses and does not assign. -/
structure Agree (bdev : BlockDevice) (page : Nat → Option ZitBlock) (mem other : RawMemory) : Prop where
  opened : mem.zoneOpenedCount = other.zoneOpenedCount ∧
    UnusedNull mem.zoneOpenedCount (openZones bdev bdev.nrZones) bdev.maxOpenZones mem.zoneOpened ∧
    UnusedNull mem.zoneOpenedCount (openZones bdev bdev.nrZones) bdev.maxOpenZones other.zoneOpened
  active : mem.zoneActiveCount = other.zoneActiveCount ∧
    UnusedNull mem.zoneActiveCount (activeZones bdev bdev.nrZones) bdev.maxActiveZones mem.zoneActive ∧
    UnusedNull mem.zoneActiveCount (activeZones bdev bdev.nrZones) bdev.maxActiveZones other.zoneActive
  nrType : ∀ type : PageType, mem.nrType type.code = other.nrType type.code
  limitType : mem.limitType PageType.metaNode.code = other.limitType PageType.metaNode.code
  zoneType : ∀ zone < bdev.nrZones, zitTold (bdev.zones zone).cond page zone = none → presetType zone = none →
    (mem.zoneInfo zone).zoneType = (other.zoneInfo zone).zoneType
  vblocks : ∀ zone < bdev.nrZones, zitTold (bdev.zones zone).cond page zone = none →
    (mem.zoneInfo zone).vblocks = (other.zoneInfo zone).vblocks
  dirty : ∀ zone < bdev.nrZones, zitTold (bdev.zones zone).cond page zone = none → presetType zone = none →
    (mem.zoneInfo zone).dirty = (other.zoneInfo zone).dirty
  validMap : ∀ zone < bdev.nrZones, ∀ idx < validMapBits,
    zitTold (bdev.zones zone).cond page zone = none ∨ zoneValidMapSize * 8 ≤ idx → mem.validMap zone idx = other.validMap zone idx

section
variable {first firstToo count countToo : Int} {zones : List Nat} {size : Nat} {slots slotsToo : Nat → Option Nat}
  {list listToo : List (Option Nat)}

theorem listedNull (listed : SlotsHold ((List.range size).map slots) first zones list count) :
    list.countP Option.isSome = zones.length ↔ UnusedNull first zones size slots := by
  have all : zones.countP (Option.isSome ∘ some) = zones.length := by
    rw [List.countP_eq_length]
    exact fun _ _ => rfl
  have total : list.countP Option.isSome = (((List.range size).map slots).take first.toNat).countP Option.isSome + zones.length +
      (((List.range size).map slots).drop (first.toNat + zones.length)).countP Option.isSome := by
    rw [listed.slots,List.countP_append,List.countP_append,List.countP_map,all]
  rw [total]
  constructor
  · intro same i inside unused
    have front : (((List.range size).map slots).take first.toNat).countP Option.isSome = 0 := by omega
    have back : (((List.range size).map slots).drop (first.toNat + zones.length)).countP Option.isSome = 0 := by omega
    have entry : ((List.range size).map slots)[i]? = some (slots i) := by
      rw [List.getElem?_map,List.getElem?_range inside]
      rfl
    apply Option.not_isSome_iff_eq_none.mp
    obtain low | high := unused
    · refine List.countP_eq_zero.mp front (slots i) (List.mem_of_getElem? (i := i) ?_)
      rw [List.getElem?_take_of_lt low]
      exact entry
    · refine List.countP_eq_zero.mp back (slots i) (List.mem_of_getElem? (i := i - (first.toNat + zones.length)) ?_)
      rw [List.getElem?_drop,Nat.add_sub_cancel' high]
      exact entry
  · intro null
    have front : (((List.range size).map slots).take first.toNat).countP Option.isSome = 0 := by
      refine List.countP_eq_zero.mpr fun entry member => ?_
      obtain ⟨i,place,same⟩ := List.mem_take_iff_getElem.mp member
      rw [List.length_map,List.length_range] at place
      rw [List.getElem_map,List.getElem_range] at same
      rw [← same,null i (by omega) (.inl (by omega))]
      exact Bool.false_ne_true
    have back : (((List.range size).map slots).drop (first.toNat + zones.length)).countP Option.isSome = 0 := by
      refine List.countP_eq_zero.mpr fun entry member => ?_
      obtain ⟨i,place,same⟩ := List.mem_drop_iff_getElem.mp member
      rw [List.length_map,List.length_range] at place
      rw [List.getElem_map,List.getElem_range] at same
      rw [← same,null (first.toNat + zones.length + i) (by omega) (.inr (by omega))]
      exact Bool.false_ne_true
    omega

theorem listedSame (listed : SlotsHold ((List.range size).map slots) first zones list count)
    (listedToo : SlotsHold ((List.range size).map slotsToo) firstToo zones listToo countToo) :
    (list = listToo ∧ count = countToo ∧ list.countP Option.isSome = zones.length) ↔
      first = firstToo ∧ UnusedNull first zones size slots ∧ UnusedNull first zones size slotsToo := by
  constructor
  · intro ⟨same,counts,null⟩
    have firsts : first = firstToo := by
      have here := listed.counted
      have there := listedToo.counted
      omega
    refine ⟨firsts,(listedNull listed).mp null,?_⟩
    rw [firsts]
    exact (listedNull listedToo).mp (same ▸ null)
  · intro ⟨firsts,null,nullToo⟩
    subst firsts
    refine ⟨?_,listed.counted.trans listedToo.counted.symm,(listedNull listed).mpr null⟩
    have front : ((List.range size).map slots).take first.toNat = ((List.range size).map slotsToo).take first.toNat := by
      rw [← List.map_take,← List.map_take]
      refine List.map_congr_left fun i member => ?_
      rw [List.take_range,List.mem_range] at member
      rw [null i (by omega) (.inl (by omega)),nullToo i (by omega) (.inl (by omega))]
    have back : ((List.range size).map slots).drop (first.toNat + zones.length) =
        ((List.range size).map slotsToo).drop (first.toNat + zones.length) := by
      rw [← List.map_drop,← List.map_drop]
      refine List.map_congr_left fun i member => ?_
      obtain ⟨j,place,same⟩ := List.mem_drop_iff_getElem.mp member
      rw [List.length_range] at place
      rw [List.getElem_range] at same
      rw [null i (by omega) (.inr (by omega)),nullToo i (by omega) (.inr (by omega))]
    rw [listed.slots,listedToo.slots,front,back]

end

section
variable {bdev : BlockDevice} {page : Nat → Option ZitBlock} {mem other : RawMemory} {zm zmToo : ZmInfo} {zone : Nat}

theorem readFields (zi : ZoneInfo) (told : Option (ZitEntry × (Nat → Bool))) :
    (zi.read told).zoneType = told.elim zi.zoneType (fun told => told.1.zoneType.val) ∧
      (zi.read told).vblocks = told.elim zi.vblocks (fun told => told.1.vblocks.val) ∧
      (zi.read told).dirty = (told.isSome || zi.dirty) ∧
      (zi.read told).validMap = told.elim zi.validMap (fun told => memcpyMap zi.validMap told.2) := by
  cases told with
  | none => exact ⟨rfl,rfl,rfl,rfl⟩
  | some told => exact ⟨rfl,rfl,rfl,rfl⟩

/- A field that two runs assign alike where `assigned` is some, and leave otherwise. -/
theorem elimSame {α β : Type} (assigned : Option β) (value : β → α) (here there : α) :
    assigned.elim here value = assigned.elim there value ↔ (assigned = none → here = there) := by
  cases assigned with
  | none => exact ⟨fun same _ => same,fun same => same rfl⟩
  | some _ => exact iff_of_true rfl fun bad => absurd bad (Option.some_ne_none _)

theorem orSame {β : Type} (assigned : Option β) (here there : Bool) :
    (assigned.isSome || here) = (assigned.isSome || there) ↔ (assigned = none → here = there) := by
  cases assigned with
  | none => exact ⟨fun same _ => same,fun same => same rfl⟩
  | some _ => exact iff_of_true rfl fun bad => absurd bad (Option.some_ne_none _)

theorem mapSame (told : Option (ZitEntry × (Nat → Bool))) (here there : Nat → Bool) (idx : Nat) :
    told.elim here (fun told => memcpyMap here told.2) idx = told.elim there (fun told => memcpyMap there told.2) idx ↔
      (told = none ∨ zoneValidMapSize * 8 ≤ idx → here idx = there idx) := by
  cases told with
  | none => exact ⟨fun same _ => same,fun same => same (.inl rfl)⟩
  | some told =>
    change memcpyMap here told.2 idx = memcpyMap there told.2 idx ↔ _
    unfold memcpyMap
    by_cases low : idx < zoneValidMapSize * 8
    · rw [if_pos low,if_pos low]
      exact iff_of_true rfl fun bad => bad.elim (fun bad => absurd bad (Option.some_ne_none _)) fun high => absurd low (Nat.not_lt.mpr high)
    · rw [if_neg low,if_neg low]
      exact ⟨fun same _ => same,fun same => same (.inr (Nat.not_lt.mp low))⟩

theorem limitsSame {limit limitToo : Nat → Int} (top : Int) :
    (∀ type : PageType, Function.update (Function.update (Function.update limit PageType.metaData.code 1) PageType.regNode.code 2)
        PageType.regData.code top type.code =
      Function.update (Function.update (Function.update limitToo PageType.metaData.code 1) PageType.regNode.code 2)
        PageType.regData.code top type.code) ↔ limit PageType.metaNode.code = limitToo PageType.metaNode.code := by
  constructor
  · exact fun same => same .metaNode
  · intro same type
    cases type with
    | metaNode => exact same
    | metaData => rfl
    | regNode => rfl
    | regData => rfl

/- Over any two memories, two mounts of one device leave the same zone table exactly
when the memories agree on what a mount uses and does not assign. -/
theorem mountsAgree (mounted : mountOver mem bdev page = some zm) (mountedToo : mountOver other bdev page = some zmToo) :
    SameTable bdev zm zmToo ↔ Agree bdev page mem other := by
  have holds := mountedOver rfl mounted
  have holdsToo := mountedOver rfl mountedToo
  have opened := listedSame holds.opened holdsToo.opened
  have active := listedSame holds.active holdsToo.active
  have nrType : (∀ type : PageType, zm.nrType type.code = zmToo.nrType type.code) ↔
      ∀ type : PageType, mem.nrType type.code = other.nrType type.code := by
    refine forall_congr' fun type => ?_
    rw [holds.nrType,holdsToo.nrType]
    exact Int.add_left_inj _
  have limitType : (∀ type : PageType, zm.limitType type.code = zmToo.limitType type.code) ↔
      mem.limitType PageType.metaNode.code = other.limitType PageType.metaNode.code := by
    rw [holds.limitType,holdsToo.limitType]
    exact limitsSame _
  have each : ∀ {P : ZoneInfo → ZoneInfo → Prop} {Q : Nat → Prop},
      (∀ zone, (rawTable mem bdev).zoneInfo zone = mem.zoneInfo zone → (rawTable other bdev).zoneInfo zone = other.zoneInfo zone →
        (P ((mountedZone (rawTable mem bdev) bdev mem.validMap zone).read (zitTold (bdev.zones zone).cond page zone))
          ((mountedZone (rawTable other bdev) bdev other.validMap zone).read (zitTold (bdev.zones zone).cond page zone)) ↔ Q zone)) →
      ((∀ zone < bdev.nrZones, P (zm.zoneInfo zone) (zmToo.zoneInfo zone)) ↔ ∀ zone < bdev.nrZones, Q zone) := by
    intro P Q field
    refine forall_congr' fun zone => forall_congr' fun inside => ?_
    rw [holds.zoneInfo zone inside,holdsToo.zoneInfo zone inside]
    exact field zone (if_pos inside) (if_pos inside)
  have zoneType := @each (fun zi there => zi.zoneType = there.zoneType) (fun zone => zitTold (bdev.zones zone).cond page zone = none →
      presetType zone = none → (mem.zoneInfo zone).zoneType = (other.zoneInfo zone).zoneType) fun zone here there => by
    rw [(readFields _ _).1,(readFields _ _).1,elimSame,← here,← there]
    exact imp_congr_right fun _ => elimSame (presetType zone) PageType.code _ _
  have vblocks := @each (fun zi there => zi.vblocks = there.vblocks) (fun zone => zitTold (bdev.zones zone).cond page zone = none →
      (mem.zoneInfo zone).vblocks = (other.zoneInfo zone).vblocks) fun zone here there => by
    rw [(readFields _ _).2.1,(readFields _ _).2.1,← here,← there]
    exact elimSame _ _ _ _
  have dirty := @each (fun zi there => zi.dirty = there.dirty) (fun zone => zitTold (bdev.zones zone).cond page zone = none →
      presetType zone = none → (mem.zoneInfo zone).dirty = (other.zoneInfo zone).dirty) fun zone here there => by
    rw [(readFields _ _).2.2.1,(readFields _ _).2.2.1,orSame,← here,← there]
    exact imp_congr_right fun _ => orSame (presetType zone) _ _
  have validMap := @each (fun zi there => ∀ idx < validMapBits, zi.validMap idx = there.validMap idx) (fun zone => ∀ idx < validMapBits,
      zitTold (bdev.zones zone).cond page zone = none ∨ zoneValidMapSize * 8 ≤ idx → mem.validMap zone idx = other.validMap zone idx)
      fun zone _ _ => by
    rw [(readFields _ _).2.2.2,(readFields _ _).2.2.2]
    exact forall_congr' fun idx => forall_congr' fun _ => mapSame _ _ _ idx
  constructor
  · intro same
    exact ⟨opened.mp same.opened,active.mp same.active,nrType.mp same.nrType,limitType.mp same.limitType,zoneType.mp same.zoneType,
      vblocks.mp same.vblocks,dirty.mp same.dirty,validMap.mp same.validMap⟩
  · intro agree
    exact ⟨opened.mpr agree.opened,active.mpr agree.active,nrType.mpr agree.nrType,limitType.mpr agree.limitType,
      zoneType.mpr agree.zoneType,vblocks.mpr agree.vblocks,dirty.mpr agree.dirty,validMap.mpr agree.validMap⟩

end

/- Memory that last held other limits and other conditions of zones. -/
def usedMemory : RawMemory :=
  { zeroMemory mkfsDevice (fun _ _ => false) with
    limitType := fun type => if type = PageType.metaNode.code then 0 else 7
    zoneInfo := fun zone => { blankZone mkfsDevice zone with cond := .offline, wp := 7 } }

def usedTable : ZmInfo := (mountOver usedMemory mkfsDevice fun _ => none).getD (blankTable mkfsDevice)

/-- Both leave the same table: the limits of three types and the conditions are assigned. -/
theorem mountsAgreeUsed : SameTable mkfsDevice mkfsTable usedTable := by
  refine (mountsAgree mkfsMounts (rfl : mountOver usedMemory mkfsDevice (fun _ => none) = some usedTable)).mpr ?_
  exact ⟨⟨rfl,fun _ _ _ => rfl,fun _ _ _ => rfl⟩,⟨rfl,fun _ _ _ => rfl,fun _ _ _ => rfl⟩,fun _ => rfl,rfl,fun _ _ _ _ => rfl,
    fun _ _ _ => rfl,fun _ _ _ _ => rfl,fun _ _ _ _ _ => rfl⟩

def staleMemory : RawMemory := { zeroMemory mkfsDevice (fun _ _ => false) with nrType := fun _ => 7 }

def staleTable : ZmInfo := (mountOver staleMemory mkfsDevice fun _ => none).getD (blankTable mkfsDevice)

/-- The first mount after mkfs counts zones from whatever `nr_type` held. -/
theorem mountKeepsStale : ¬∀ (bdev : BlockDevice) (page : Nat → Option ZitBlock) (mem other : RawMemory) (zm zmToo : ZmInfo),
    mountOver mem bdev page = some zm → mountOver other bdev page = some zmToo → SameTable bdev zm zmToo := by
  intro claim
  have same := claim mkfsDevice (fun _ => none) (zeroMemory mkfsDevice fun _ _ => false) staleMemory mkfsTable staleTable
    mkfsMounts rfl
  have counts := same.nrType .regData
  cases counts

end Xcpfs
