import Xcpfs.ZoneRoute

/-! Appends under way. A zone is chosen at submission, its write pointer in the table
moves at completion, and `start_flight` and `end_flight` leave `write_inflight` alone.
The device places appends of a zone one after the other; they complete in any order. -/
namespace Xcpfs

open EventRun

def ZmInfo.capacityBlocks (zm : ZmInfo) : Nat := zm.zoneCapacity / 2 ^ pageSectorsShift

/- `waiting` appends are submitted and not placed, `landed` are placed blocks of a zone
whose completion has not run, `finished` counts the other blocks of a zone. -/
structure FlightRun where
  sbi : ZoneSbi
  waiting : Nat → Nat
  landed : List (Nat × Nat)
  finished : Nat → Nat

namespace FlightRun

def landedIn (s : FlightRun) (zone : Nat) : Nat := s.landed.countP fun block => block.1 = zone

def flying (s : FlightRun) (zone : Nat) : Nat := s.waiting zone + s.landedIn zone

/- The next block of the zone, where the device places an append. -/
def placed (s : FlightRun) (zone : Nat) : Nat := s.landedIn zone + s.finished zone

end FlightRun

inductive FlightEvent where
  | submit (type : PageType) (oldBlkaddr : Nat) (answers : List Bool)
  | land (zone : Nat)
  | complete (zone idx : Nat)
  | invalidate (blkaddr : Nat)
  | checkpoint (locked : Bool) (restart : Option Bool)

def startFlight (zm : ZmInfo) (_zone : Nat) : ZmInfo := zm
def endFlight (zm : ZmInfo) (_zone : Nat) : ZmInfo := zm

def flightStart (zm : ZmInfo) : FlightRun where
  sbi := { zm := zm, cpSemLocked := false, cpcRestart := none }
  waiting := fun _ => 0
  landed := []
  finished := fun zone =>
    if (zm.zoneInfo zone).cond = .full then zm.capacityBlocks
    else ((zm.zoneInfo zone).wp - (zm.zoneInfo zone).start) / 2 ^ pageSectorsShift

def flightStep (s : FlightRun) : FlightEvent → Option FlightRun
  | .submit type oldBlkaddr answers =>
    (allocZone .zoneAppend type oldBlkaddr answers s.sbi).map fun (sbi,new) =>
      let zone := sbi.zm.blk2zone new
      { s with
        sbi := { sbi with zm := startFlight sbi.zm zone }
        waiting := Function.update s.waiting zone (s.waiting zone + 1) }
  | .land zone =>
    if 0 < s.waiting zone ∧ s.placed zone < s.sbi.zm.capacityBlocks then
      some { s with
        waiting := Function.update s.waiting zone (s.waiting zone - 1)
        landed := (zone,s.placed zone) :: s.landed }
    else none
  | .complete zone idx =>
    if (zone,idx) ∈ s.landed then
      some { s with
        sbi := { s.sbi with zm := endFlight (validateBlkaddr s.sbi.zm (zone * s.sbi.zm.blocksPerZone + idx)) zone }
        landed := s.landed.erase (zone,idx)
        finished := Function.update s.finished zone (s.finished zone + 1) }
    else none
  | .invalidate blkaddr => some { s with sbi := { s.sbi with zm := invalidateBlkaddr s.sbi.zm blkaddr } }
  | .checkpoint locked restart => some { s with sbi := { s.sbi with cpSemLocked := locked, cpcRestart := restart } }

/- The appends in flight and the blocks already there fit into the zone. -/
def Fits (s : FlightRun) : Prop := ∀ zone, s.flying zone + s.finished zone ≤ s.sbi.zm.capacityBlocks

/- Not every block that the zone has left is taken by an append in flight. -/
def Spare (s : FlightRun) (zone : Nat) : Prop :=
  s.flying zone = 0 ∨ s.flying zone + s.finished zone < s.sbi.zm.capacityBlocks

/- A search sends an open request. -/
def Opens (zm : ZmInfo) (type : Nat) : Prop := zm.nrType type < zm.limitType type ∨ ¬Selectable type zm

def flightFits (s : FlightRun) : FlightEvent → Prop
  | .submit type oldBlkaddr answers =>
    (¬Searches s.sbi.zm oldBlkaddr → Spare s (s.sbi.zm.blk2zone oldBlkaddr)) ∧
      (Searches s.sbi.zm oldBlkaddr →
        searchTwice type.code answers s.sbi = false ∧
          (∀ zone, some zone ∈ s.sbi.zm.zoneOpened → (s.sbi.zm.zoneInfo zone).zoneType = type.code → Spare s zone) ∧
          (Opens s.sbi.zm type.code → ∀ zone, OpenPlace s.sbi.zm zone →
            Spare s zone ∧ (s.sbi.zm.zoneInfo zone).cond ≠ .full))
  | .complete zone idx => zone * s.sbi.zm.blocksPerZone + idx + 1 < 2 ^ 28
  | _ => True

/- The room the device promises: zones of one capacity, full when their last block is written. -/
structure Roomy (bdev : BlockDevice) (blocks capacity : Nat) : Prop where
  reported : Reported bdev blocks
  capacityIs : ∀ zone, (bdev.zones zone).capacity = capacity * 8
  positive : 0 < capacity
  inside : capacity ≤ blocks
  room : ∀ zone, (bdev.zones zone).cond ≠ .full → (bdev.zones zone).wp < (bdev.zones zone).start + capacity * 8

structure Flights (capacity : Nat) (s : FlightRun) : Prop where
  laid : Laid s.sbi.zm
  pointed : Pointed s.sbi.zm
  accounted : Accounted s.sbi.zm
  capacityIs : s.sbi.zm.zoneCapacity = capacity * 8
  inside : capacity ≤ s.sbi.zm.blocksPerZone
  bounded : ∀ zone, s.flying zone + s.finished zone ≤ capacity
  landed : ∀ block ∈ s.landed, block.2 < capacity
  room : ∀ zone, (s.sbi.zm.zoneInfo zone).cond ≠ .full → (s.sbi.zm.zoneInfo zone).wp < (s.sbi.zm.zoneInfo zone).start + capacity * 8
  below : ∀ zone, (s.sbi.zm.zoneInfo zone).cond ≠ .full → ∀ idx < s.placed zone,
    (zone,idx) ∈ s.landed ∨ (s.sbi.zm.zoneInfo zone).start + (idx + 1) * 8 ≤ (s.sbi.zm.zoneInfo zone).wp

section

theorem invalidatePointers (zm : ZmInfo) (blkaddr zone : Nat) :
    ((invalidateBlkaddr zm blkaddr).zoneInfo zone).start = (zm.zoneInfo zone).start ∧
      ((invalidateBlkaddr zm blkaddr).zoneInfo zone).wp = (zm.zoneInfo zone).wp := by
  refine setZoneEach (fun z zi => zi.start = (zm.zoneInfo z).start ∧ zi.wp = (zm.zoneInfo z).wp) ?_ ?_ zone
  · exact fun _ => ⟨rfl,rfl⟩
  · exact ⟨rfl,rfl⟩

theorem validateHere (zm : ZmInfo) (blkaddr : Nat) :
    ((validateBlkaddr zm blkaddr).zoneInfo (zm.blk2zone blkaddr)).start = (zm.zoneInfo (zm.blk2zone blkaddr)).start ∧
      ((validateBlkaddr zm blkaddr).zoneInfo (zm.blk2zone blkaddr)).wp =
        validateWp (zm.zoneInfo (zm.blk2zone blkaddr)).wp blkaddr ∧
      (((validateBlkaddr zm blkaddr).zoneInfo (zm.blk2zone blkaddr)).cond ≠ .full →
        (zm.zoneInfo (zm.blk2zone blkaddr)).cond ≠ .full ∧
          validateWp (zm.zoneInfo (zm.blk2zone blkaddr)).wp blkaddr ≠
            zm.zoneCapacity + (zm.zoneInfo (zm.blk2zone blkaddr)).start) := by
  unfold validateBlkaddr
  dsimp only
  split
  · rw [removeOpenedInfo,removeActiveInfo,setZoneInfo,Function.update_self]
    exact ⟨rfl,rfl,fun full => absurd rfl full⟩
  · rename_i short
    rw [setZoneInfo,Function.update_self]
    exact ⟨rfl,rfl,fun open_ => ⟨open_,short⟩⟩

theorem validateCapacity (zm : ZmInfo) (blkaddr : Nat) : (validateBlkaddr zm blkaddr).zoneCapacity = zm.zoneCapacity := by
  unfold validateBlkaddr
  dsimp only
  split <;> rfl

theorem searchStays {s t : ZoneSbi} {type zone : Nat} {answers : List Bool} (ok : Laid s.zm) (pointed : Pointed s.zm)
    (stays : ¬Opens s.zm type) (ran : getZone type answers s = some (t,zone)) : t = s := by
  obtain ⟨reached,listed⟩ := not_or.mp stays
  obtain ⟨tar,member,typed⟩ := not_not.mp listed
  have found := scanFinds (laidScannable ok pointed) member typed
  unfold getZone at ran
  rw [if_neg reached] at ran
  cases answers with
  | nil =>
    obtain ⟨_,_,same⟩ := Option.map_eq_some_iff.mp ran
    cases same
    rfl
  | cons accepted answers =>
    unfold retryZone at ran
    cases scanned : scanOpened s.zm type s.zm.zoneOpened longMax none with
    | some tar =>
      rw [scanned] at ran
      cases ran
      rfl
    | none =>
      rw [scanned] at found
      cases found

end

section
variable {capacity : Nat} {s t : FlightRun}

theorem capacityBlocksIs (flights : Flights capacity s) : s.sbi.zm.capacityBlocks = capacity := by
  unfold ZmInfo.capacityBlocks
  rw [flights.capacityIs]
  exact Nat.mul_div_cancel capacity (by decide)

theorem spareRoom {zone : Nat} (flights : Flights capacity s) (notFull : (s.sbi.zm.zoneInfo zone).cond ≠ .full)
    (spare : Spare s zone) : s.flying zone + s.finished zone < capacity := by
  obtain quiet | room := spare
  · have none_ : ∀ idx, (zone,idx) ∉ s.landed := by
      intro idx member
      have counted : 0 < s.landedIn zone := List.countP_pos_iff.mpr ⟨(zone,idx),member,decide_eq_true rfl⟩
      unfold FlightRun.flying at quiet
      omega
    have room := flights.room zone notFull
    have low := flights.pointed.wpLow zone
    rw [quiet,Nat.zero_add]
    cases done : s.finished zone with
    | zero => omega
    | succ last =>
      have placed : last < s.placed zone := by
        unfold FlightRun.placed
        omega
      have written := (flights.below zone notFull last placed).resolve_left (none_ last)
      omega
  · rwa [capacityBlocksIs flights] at room

theorem flightsMove {sbi : ZoneSbi} (flights : Flights capacity s) (laid : Laid sbi.zm) (pointed : Pointed sbi.zm) (accounted : Accounted sbi.zm)
    (size : sbi.zm.zoneSize = s.sbi.zm.zoneSize) (cap : sbi.zm.zoneCapacity = s.sbi.zm.zoneCapacity)
    (same : ∀ zone, (sbi.zm.zoneInfo zone).start = (s.sbi.zm.zoneInfo zone).start ∧
      (sbi.zm.zoneInfo zone).wp = (s.sbi.zm.zoneInfo zone).wp)
    (full : ∀ zone, (sbi.zm.zoneInfo zone).cond ≠ .full → (s.sbi.zm.zoneInfo zone).cond ≠ .full) :
    Flights capacity { s with sbi := sbi } := by
  have perZone : sbi.zm.blocksPerZone = s.sbi.zm.blocksPerZone := by
    unfold ZmInfo.blocksPerZone
    rw [size]
  refine ⟨laid,pointed,accounted,cap.trans flights.capacityIs,perZone ▸ flights.inside,flights.bounded,flights.landed,?_,?_⟩
  · intro zone notFull
    change (sbi.zm.zoneInfo zone).wp < (sbi.zm.zoneInfo zone).start + capacity * 8
    rw [(same zone).1,(same zone).2]
    exact flights.room zone (full zone notFull)
  · intro zone notFull idx placed
    change (zone,idx) ∈ s.landed ∨ (sbi.zm.zoneInfo zone).start + (idx + 1) * 8 ≤ (sbi.zm.zoneInfo zone).wp
    rw [(same zone).1,(same zone).2]
    exact flights.below zone (full zone notFull) idx placed

theorem invalidateFlights (flights : Flights capacity s) (blkaddr : Nat) :
    Flights capacity { s with sbi := { s.sbi with zm := invalidateBlkaddr s.sbi.zm blkaddr } } := by
  refine flightsMove flights (laidInvalidate flights.laid blkaddr) (pointedInvalidate flights.pointed blkaddr)
    (invalidateAccounted flights.accounted blkaddr) rfl rfl ?_ ?_
  · exact invalidatePointers s.sbi.zm blkaddr
  · intro zone notFull
    rwa [(invalidateSame s.sbi.zm blkaddr zone).1] at notFull

theorem flightFound {type : PageType} {oldBlkaddr new : Nat} {answers : List Bool} {u : ZoneSbi} (flights : Flights capacity s)
    (fits : flightFits s (.submit type oldBlkaddr answers))
    (ran : allocZone .zoneAppend type oldBlkaddr answers s.sbi = some (u,new)) :
    Flights capacity { s with sbi := u } ∧
      s.flying (u.zm.blk2zone new) + s.finished (u.zm.blk2zone new) < capacity := by
  obtain ⟨v,zone,same,start,blocks,chosen⟩ := allocZoneIs ran
  have found : Flights capacity { s with sbi := v } ∧ s.flying zone + s.finished zone < capacity := by
    by_cases searches : Searches s.sbi.zm oldBlkaddr
    · obtain ⟨once,listedSpare,openSpare⟩ := fits.2 searches
      have chosen := chosen.1 searches
      have places := searchPlaces flights.laid ⟨flights.accounted.openedSlots,flights.accounted.openedCount⟩ flights.pointed chosen
      obtain ⟨listed,typed⟩ := searchListed flights.laid chosen
      have opened : v = s.sbi ∨ ∀ z, OpenPlace s.sbi.zm z → Spare s z ∧ (s.sbi.zm.zoneInfo z).cond ≠ .full := by
        by_cases opens : Opens s.sbi.zm type.code
        · exact .inr (openSpare opens)
        · exact .inl (searchStays flights.laid flights.pointed opens chosen)
      have stayed : ∀ z, Untouched s.sbi.zm v.zm z ∨ Spare s z ∧ (s.sbi.zm.zoneInfo z).cond ≠ .full := by
        intro z
        obtain same | may := opened
        · rw [same]
          exact .inl ⟨rfl,rfl,id⟩
        · exact (places z).imp_right (may z)
      constructor
      · refine flightsMove flights (laidSearch flights.laid chosen) (pointedBlocks flights.pointed blocks) (searchKeeps flights.accounted once chosen)
          blocks.size blocks.capacity (fun z => ⟨blocks.start z,blocks.wp z⟩) ?_
        intro z notFull
        obtain ⟨cond,_⟩ | ⟨_,other⟩ := stayed z
        · rwa [cond] at notFull
        · exact other
      · obtain ⟨cond,same,before⟩ | ⟨spare,notFull⟩ := stayed zone
        · have open_ := (flights.accounted.openedIs zone).mp (before listed)
          have notFull : (s.sbi.zm.zoneInfo zone).cond ≠ .full := by
            intro full
            rw [full] at open_
            cases open_
          exact spareRoom flights notFull (listedSpare zone (before listed) (same.symm.trans typed))
        · exact spareRoom flights notFull spare
    · obtain ⟨stays,here⟩ := chosen.2 searches
      have notFull : (s.sbi.zm.zoneInfo (s.sbi.zm.blk2zone oldBlkaddr)).cond ≠ .full := by
        intro full
        exact searches (.inl (decide_eq_true full))
      rw [stays,here]
      exact ⟨flights,spareRoom flights notFull (fits.1 searches)⟩
  have place : u.zm.blk2zone new = zone := by
    rw [same,start]
    exact blk2zoneStart found.1.laid zone
  rw [place,same]
  exact ⟨invalidateFlights found.1 oldBlkaddr,found.2⟩

theorem submitFlights {zone : Nat} (flights : Flights capacity s) (room : s.flying zone + s.finished zone < capacity) :
    Flights capacity { s with waiting := Function.update s.waiting zone (s.waiting zone + 1) } := by
  refine ⟨flights.laid,flights.pointed,flights.accounted,flights.capacityIs,flights.inside,?_,flights.landed,flights.room,flights.below⟩
  intro other
  change Function.update s.waiting zone (s.waiting zone + 1) other + s.landedIn other + s.finished other ≤ capacity
  have before := flights.bounded other
  unfold FlightRun.flying at before room
  by_cases same : other = zone
  · subst same
    rw [Function.update_self]
    omega
  · rwa [Function.update_of_ne same]

theorem landFlights {zone : Nat} (flights : Flights capacity s) (submitted : 0 < s.waiting zone) (room : s.placed zone < capacity) :
    Flights capacity { s with
      waiting := Function.update s.waiting zone (s.waiting zone - 1)
      landed := (zone,s.placed zone) :: s.landed } := by
  have counted : ∀ other, List.countP (fun block => decide (block.1 = other)) ((zone,s.placed zone) :: s.landed) =
      s.landedIn other + if zone = other then 1 else 0 := by
    intro other
    rw [List.countP_cons]
    simp only [decide_eq_true_eq]
    rfl
  refine ⟨flights.laid,flights.pointed,flights.accounted,flights.capacityIs,flights.inside,?_,?_,flights.room,?_⟩
  · intro other
    change Function.update s.waiting zone (s.waiting zone - 1) other + List.countP _ _ + s.finished other ≤ capacity
    rw [counted]
    have before := flights.bounded other
    unfold FlightRun.flying at before
    by_cases same : other = zone
    · subst same
      rw [Function.update_self,if_pos rfl]
      omega
    · rwa [Function.update_of_ne same,if_neg (Ne.symm same),Nat.add_zero]
  · intro block member
    obtain here | old := List.mem_cons.mp member
    · rw [here]
      exact room
    · exact flights.landed block old
  · intro other notFull idx placed
    change idx < List.countP _ _ + s.finished other at placed
    rw [counted] at placed
    have old : idx < s.placed other → (other,idx) ∈ (zone,s.placed zone) :: s.landed ∨
        (s.sbi.zm.zoneInfo other).start + (idx + 1) * 8 ≤ (s.sbi.zm.zoneInfo other).wp :=
      fun before => (flights.below other notFull idx before).imp_left (List.mem_cons_of_mem _)
    unfold FlightRun.placed at old ⊢
    by_cases same : zone = other
    · subst same
      rw [if_pos rfl] at placed
      obtain before | last := Nat.lt_or_eq_of_le (Nat.le_of_lt_succ (by omega : idx < s.landedIn zone + s.finished zone + 1))
      · exact old before
      · rw [last]
        exact .inl List.mem_cons_self
    · rw [if_neg same] at placed
      exact old placed

theorem completeFlights {zone idx : Nat} (flights : Flights capacity s) (member : (zone,idx) ∈ s.landed)
    (small : zone * s.sbi.zm.blocksPerZone + idx + 1 < 2 ^ 28) :
    Flights capacity { s with
      sbi := { s.sbi with zm := validateBlkaddr s.sbi.zm (zone * s.sbi.zm.blocksPerZone + idx) }
      landed := s.landed.erase (zone,idx)
      finished := Function.update s.finished zone (s.finished zone + 1) } := by
  obtain ⟨blkaddr,addressed⟩ : ∃ blkaddr, blkaddr = zone * s.sbi.zm.blocksPerZone + idx := ⟨_,rfl⟩
  have inside := flights.landed _ member
  have place : s.sbi.zm.blk2zone blkaddr = zone := by
    unfold ZmInfo.blk2zone
    rw [addressed,Nat.mul_comm,Nat.mul_add_div flights.laid.positive,
      Nat.div_eq_of_lt (Nat.lt_of_lt_of_le inside flights.inside),Nat.add_zero]
  have end_ : (blkaddr + 1) * 8 = (s.sbi.zm.zoneInfo zone).start + (idx + 1) * 8 := by
    rw [flights.laid.start,flights.laid.aligned,addressed,← Nat.mul_assoc,Nat.add_assoc,Nat.add_mul]
  have counted : ∀ other, s.landedIn other =
      List.countP (fun block => decide (block.1 = other)) (s.landed.erase (zone,idx)) + if zone = other then 1 else 0 := by
    intro other
    unfold FlightRun.landedIn
    rw [(List.perm_cons_erase member).countP_eq,List.countP_cons]
    simp only [decide_eq_true_eq]
  have samePlaced : ∀ other, List.countP (fun block => decide (block.1 = other)) (s.landed.erase (zone,idx)) +
      Function.update s.finished zone (s.finished zone + 1) other = s.placed other := by
    intro other
    have before := counted other
    unfold FlightRun.placed
    by_cases same : other = zone
    · subst same
      rw [if_pos rfl] at before
      rw [Function.update_self]
      omega
    · rw [if_neg (Ne.symm same)] at before
      rw [Function.update_of_ne same]
      omega
  rw [← addressed] at small
  have here := validateHere s.sbi.zm blkaddr
  rw [place,validateWpExact small,shiftSectorsNat] at here
  have there : ∀ other ≠ zone, (validateBlkaddr s.sbi.zm blkaddr).zoneInfo other = s.sbi.zm.zoneInfo other := by
    intro other away
    exact validateElse (fun same => away (same.trans place))
  rw [← addressed]
  refine ⟨laidValidate flights.laid blkaddr,pointedValidate flights.laid flights.pointed small,
    validateKeeps flights.accounted blkaddr,(validateCapacity ..).trans flights.capacityIs,?_,?_,?_,?_,?_⟩
  · change capacity ≤ (validateBlkaddr s.sbi.zm blkaddr).blocksPerZone
    unfold ZmInfo.blocksPerZone
    rw [validateSize]
    exact flights.inside
  · intro other
    have before := flights.bounded other
    have same := samePlaced other
    unfold FlightRun.flying at before
    unfold FlightRun.placed at same
    change s.waiting other + List.countP (fun block => decide (block.1 = other)) (s.landed.erase (zone,idx)) +
      Function.update s.finished zone (s.finished zone + 1) other ≤ capacity
    omega
  · exact fun block member => flights.landed block (List.mem_of_mem_erase member)
  · intro other notFull
    change ((validateBlkaddr s.sbi.zm blkaddr).zoneInfo other).cond ≠ .full at notFull
    change ((validateBlkaddr s.sbi.zm blkaddr).zoneInfo other).wp <
      ((validateBlkaddr s.sbi.zm blkaddr).zoneInfo other).start + capacity * 8
    by_cases same : other = zone
    · subst same
      obtain ⟨before,short⟩ := here.2.2 notFull
      have room := flights.room other before
      have total := flights.capacityIs
      rw [here.1,here.2.1]
      omega
    · rw [there other same] at notFull ⊢
      exact flights.room other notFull
  · intro other notFull k placed
    change ((validateBlkaddr s.sbi.zm blkaddr).zoneInfo other).cond ≠ .full at notFull
    change k < List.countP _ _ + Function.update s.finished zone _ other at placed
    change (other,k) ∈ s.landed.erase (zone,idx) ∨ ((validateBlkaddr s.sbi.zm blkaddr).zoneInfo other).start + (k + 1) * 8 ≤
      ((validateBlkaddr s.sbi.zm blkaddr).zoneInfo other).wp
    rw [samePlaced] at placed
    by_cases same : other = zone
    · subst same
      rw [here.1,here.2.1]
      by_cases this : k = idx
      · subst this
        exact .inr (end_ ▸ Nat.le_max_right ..)
      · have other_ : (other,k) ≠ (other,idx) := fun equal => this (Prod.mk.inj equal).2
        obtain flying | written := flights.below other (here.2.2 notFull).1 k placed
        · exact .inl ((List.mem_erase_of_ne other_).mpr flying)
        · exact .inr (Nat.le_trans written (Nat.le_max_left ..))
    · rw [there other same] at notFull ⊢
      have other_ : (other,k) ≠ (zone,idx) := fun equal => same (Prod.mk.inj equal).1
      exact (flights.below other notFull k placed).imp_left (List.mem_erase_of_ne other_).mpr

theorem flightStepKeeps (s : FlightRun) (event : FlightEvent) (next : FlightRun) (flights : Flights capacity s)
    (fits : flightFits s event) (ran : flightStep s event = some next) : Flights capacity next := by
  cases event with
  | submit type oldBlkaddr answers =>
    obtain ⟨⟨u,new⟩,chosen,same⟩ := Option.map_eq_some_iff.mp ran
    obtain ⟨moved,room⟩ := flightFound flights fits chosen
    rw [← same]
    exact submitFlights moved room
  | land zone =>
    dsimp only [flightStep] at ran
    split at ran
    case isTrue may =>
      rw [capacityBlocksIs flights] at may
      rw [← Option.some.inj ran]
      exact landFlights flights may.1 may.2
    case isFalse => cases ran
  | complete zone idx =>
    dsimp only [flightStep] at ran
    split at ran
    case isTrue member =>
      rw [← Option.some.inj ran]
      exact completeFlights flights member fits
    case isFalse => cases ran
  | invalidate blkaddr =>
    rw [← Option.some.inj ran]
    exact invalidateFlights flights blkaddr
  | checkpoint locked restart =>
    rw [← Option.some.inj ran]
    exact flightsMove flights flights.laid flights.pointed flights.accounted rfl rfl (fun _ => ⟨rfl,rfl⟩) (fun _ => id)

theorem flightStartHolds {bdev : BlockDevice} {blocks : Nat} {zm : ZmInfo} (roomy : Roomy bdev blocks capacity)
    (mounted : Mounted bdev zm) (accounted : Accounted zm) : Flights capacity (flightStart zm) := by
  have total : zm.zoneCapacity = capacity * 8 := mounted.capacity.trans (roomy.capacityIs _)
  have blocksIs : zm.capacityBlocks = capacity := by
    unfold ZmInfo.capacityBlocks
    rw [total]
    exact Nat.mul_div_cancel capacity (by decide)
  have perZone : zm.blocksPerZone = blocks := by
    unfold ZmInfo.blocksPerZone
    rw [mounted.size,roomy.reported.len]
    exact Nat.mul_div_cancel blocks (by decide)
  have startIs : ∀ zone, (zm.zoneInfo zone).start = (bdev.zones zone).start := by
    intro zone
    rw [mounted.laid.start,mounted.size,roomy.reported.len,roomy.reported.start]
  have room : ∀ zone, (zm.zoneInfo zone).cond ≠ .full → (zm.zoneInfo zone).wp < (zm.zoneInfo zone).start + capacity * 8 := by
    intro zone notFull
    rw [mounted.cond] at notFull
    rw [mounted.wp,startIs]
    split at notFull
    case isTrue inside =>
      rw [if_pos inside]
      exact roomy.room zone notFull
    case isFalse outside =>
      have positive := roomy.positive
      rw [if_neg outside]
      omega
  have shift : 2 ^ pageSectorsShift = 8 := rfl
  refine ⟨mounted.laid,mounted.pointed,accounted,total,perZone ▸ roomy.inside,?_,?_,room,?_⟩
  · intro zone
    change 0 + 0 + (if (zm.zoneInfo zone).cond = .full then zm.capacityBlocks
      else ((zm.zoneInfo zone).wp - (zm.zoneInfo zone).start) / 2 ^ pageSectorsShift) ≤ capacity
    split
    · omega
    · rename_i notFull
      have here := room zone notFull
      rw [shift]
      omega
  · intro block member
    cases member
  · intro zone notFull idx placed
    change (zm.zoneInfo zone).cond ≠ .full at notFull
    change idx < 0 + (if (zm.zoneInfo zone).cond = .full then zm.capacityBlocks
      else ((zm.zoneInfo zone).wp - (zm.zoneInfo zone).start) / 2 ^ pageSectorsShift) at placed
    change (zone,idx) ∈ [] ∨ (zm.zoneInfo zone).start + (idx + 1) * 8 ≤ (zm.zoneInfo zone).wp
    rw [if_neg notFull,shift] at placed
    exact .inr (by omega)

/- In every run from a mount over zeroed slots in which no write goes to a zone whose blocks left
are all taken by appends in flight, no zone gets more appends than it has blocks. -/
theorem zonesNeverOvercommit {mem : RawMemory} {bdev : BlockDevice} {blocks : Nat} {page : Nat → Option ZitBlock}
    {zm : ZmInfo} {events : List FlightEvent} (roomy : Roomy bdev blocks capacity) (null : NullSlots mem)
    (mounted : mountOver mem bdev page = some zm) (run : Run flightFits flightStep (flightStart zm) events t) : Fits t := by
  have start := flightStartHolds roomy (mountMounted roomy.reported mounted) (mountAccounted roomy.reported null mounted)
  have flights := EventRun.invariant (Flights capacity) flightStepKeeps run start
  intro zone
  rw [capacityBlocksIs flights]
  exact flights.bounded zone

end

theorem mkfsRoomy : Roomy mkfsDevice 4 4 := by
  refine ⟨mkfsReported,fun _ => rfl,by decide,by decide,?_⟩
  intro zone _
  apply Nat.add_lt_add_left
  change (if zone = 6 then 16 else if zone = 0 ∨ zone = 3 ∨ zone = 5 then 8 else 0) < 32
  split
  · decide
  · split <;> decide

/-- Two appends to zone 6, which has two blocks left, complete out of order. -/
theorem zonesNeverOvercommitPair : ∃ t, exec flightStep (flightStart mkfsTable)
    [.submit .regData 24 [],.submit .regData 25 [],.land 6,.land 6,.complete 6 3,.complete 6 2] = some t ∧ Fits t := by
  obtain ⟨t,ran⟩ : ∃ t, exec flightStep (flightStart mkfsTable)
    [.submit .regData 24 [],.submit .regData 25 [],.land 6,.land 6,.complete 6 3,.complete 6 2] = some t := ⟨_,rfl⟩
  refine ⟨t,ran,zonesNeverOvercommit mkfsRoomy mkfsNull mkfsMounts (ofExec ran ?_)⟩
  refine ⟨⟨fun _ => .inl rfl,fun searches => ?_⟩,?_⟩
  · obtain full | zero := searches
    · cases full
    · cases zero
  · intro second ran
    cases ran
    refine ⟨⟨fun _ => .inr (by decide),fun searches => ?_⟩,?_⟩
    · obtain full | zero := searches
      · cases full
      · cases zero
    · intro third ran
      cases ran
      refine ⟨trivial,fun fourth ran => ?_⟩
      cases ran
      refine ⟨trivial,fun fifth ran => ?_⟩
      cases ran
      refine ⟨(by decide : 6 * 4 + 3 + 1 < 2 ^ 28),fun last ran => ?_⟩
      cases ran
      exact ⟨(by decide : 6 * 4 + 2 + 1 < 2 ^ 28),fun _ _ => trivial⟩

/- The same device with one block left in zone 6. -/
def nearFullDevice : BlockDevice :=
  { mkfsDevice with zones := fun zone => if zone = 6 then { mkfsDevice.zones 6 with wp := 6 * 32 + 24 } else mkfsDevice.zones zone }

def nearFullTable : ZmInfo := (mountOver (zeroMemory nearFullDevice fun _ _ => false) nearFullDevice fun _ => none).getD (blankTable nearFullDevice)

/-- Two blocks of zone 6 are written again before the first write completes. -/
theorem lastBlockTakenTwice : ¬∀ (events : List FlightEvent) (t : FlightRun),
    exec flightStep (flightStart nearFullTable) events = some t → Fits t := by
  intro claim
  have fits := claim [.submit .regData 24 [],.submit .regData 25 []] _ rfl 6
  contradiction

end Xcpfs
