import Xcpfs.ZoneRoute

/-! Whether `get_zone` returns. The device answers one open command after the other for
ever; each pass takes the next answer, and the search returns when finitely many do. -/
namespace Xcpfs

def Returns (type : Nat) (answers : Nat → Bool) (s : ZoneSbi) : Prop :=
  ∃ n, (getZone type ((List.range n).map answers) s).isSome = true

def RoomLeft (zm : ZmInfo) : Prop := zm.zoneOpenedCount < zm.maxOpenZones

/- `cpc` is there if `cp_sem` is held. -/
def Marked (s : ZoneSbi) : Prop := s.cpSemLocked = true → s.cpcRestart.isSome = true

/- A pass lists the zone it asks for: zone 0, when it is listed already and no empty
zone is left, or any zone when an open command goes out and succeeds in the end. -/
def Lists (answers : Nat → Bool) (zm : ZmInfo) : Prop :=
  ¬HasEmpty zm ∧ some 0 ∈ zm.zoneOpened ∨ zm.zoneActiveCount ≠ zm.maxActiveZones ∧ ∃ k, answers k = true

def ReturnsWhen (type : Nat) (answers : Nat → Bool) (s : ZoneSbi) : Prop :=
  (s.zm.nrType type < s.zm.limitType type ∨ ¬Selectable type s.zm → RoomLeft s.zm → Marked s) ∧
    (Selectable type s.zm ∨ RoomLeft s.zm ∧ Lists answers s.zm)

/- The table after one pass that found room. -/
def passTable (type : Nat) (accepted : Bool) (zm : ZmInfo) : ZmInfo :=
  let zone := getEmptyZone zm
  let zm := (xcpfsZoneOpen zm zone accepted).1
  let zm := zm.setZone zone { zm.zoneInfo zone with zoneType := type }
  { zm with nrType := Function.update zm.nrType type (zm.nrType type + 1) }

section
variable {zm : ZmInfo} {s t : ZoneSbi} {type zone : Nat} {accepted : Bool} {answers : Nat → Bool}

theorem scannableSame {other : ZmInfo} (scannable : Scannable zm) (same : SameBlocks zm other) : Scannable other := by
  constructor
  · intro zone
    rw [same.zoneId]
    exact scannable.zoneId zone
  · intro zone
    rw [same.wp,same.inflight,same.start]
    exact scannable.near zone

theorem scanIff (scannable : Scannable zm) :
    (scanOpened zm type zm.zoneOpened longMax none).isSome = true ↔ Selectable type zm := by
  constructor
  · intro found
    obtain ⟨zone,scanned⟩ := Option.isSome_iff_exists.mp found
    obtain bad | ⟨listed,typed⟩ := scanSound scanned
    · cases bad
    · exact ⟨zone,listed,typed⟩
  · intro ⟨zone,listed,typed⟩
    exact scanFinds scannable listed typed

theorem openEmptyRoom (room : RoomLeft s.zm) : openEmpty type accepted s =
    if s.cpSemLocked then s.cpcRestart.map fun _ => { s with zm := passTable type accepted s.zm, cpcRestart := some true }
    else some { s with zm := passTable type accepted s.zm } := if_pos room

theorem openEmptyFull (full : ¬RoomLeft s.zm) : openEmpty type accepted s = some s := if_neg full

theorem passIs (room : RoomLeft s.zm) (ran : openEmpty type accepted s = some t) :
    Marked s ∧ Marked t ∧ t.zm = passTable type accepted s.zm := by
  rw [openEmptyRoom room] at ran
  split at ran
  · obtain ⟨restart,found,same⟩ := Option.map_eq_some_iff.mp ran
    rw [← same]
    refine ⟨fun _ => ?_,fun _ => rfl,rfl⟩
    rw [found]
    rfl
  · rename_i free
    cases ran
    exact ⟨fun locked => absurd locked free,fun locked => absurd locked free,rfl⟩

theorem passRuns (type : Nat) (accepted : Bool) (room : RoomLeft s.zm) (marked : Marked s) :
    ∃ t, openEmpty type accepted s = some t := by
  rw [openEmptyRoom room]
  split
  · rename_i locked
    obtain ⟨restart,found⟩ := Option.isSome_iff_exists.mp (marked locked)
    rw [found]
    exact ⟨_,rfl⟩
  · exact ⟨_,rfl⟩

theorem passHere : ((passTable type accepted zm).zoneInfo (getEmptyZone zm)).zoneType = type := by
  change (Function.update (xcpfsZoneOpen zm (getEmptyZone zm) accepted).1.zoneInfo _ _ _).zoneType = type
  rw [Function.update_self]

theorem passSelectable (slots : zm.zoneOpened.length = zm.maxOpenZones)
    (counted : zm.zoneOpenedCount = zm.zoneOpened.countP Option.isSome)
    (lists : some (getEmptyZone zm) ∈ zm.zoneOpened ∨ opensZone zm (getEmptyZone zm) accepted = true) :
    Selectable type (passTable type accepted zm) := by
  refine ⟨getEmptyZone zm,?_,passHere⟩
  change some (getEmptyZone zm) ∈ (xcpfsZoneOpen zm (getEmptyZone zm) accepted).1.zoneOpened
  obtain listed | takes := lists
  · have grown : zm.zoneOpened.count _ ≤ (xcpfsZoneOpen zm (getEmptyZone zm) accepted).1.zoneOpened.count _ :=
      openGrows (getEmptyZone zm)
    have before := List.count_pos_iff.mpr listed
    exact List.count_pos_iff.mp (Nat.lt_of_lt_of_le before grown)
  · obtain ⟨_,room,_⟩ := opensZoneIff.mp takes
    have bound := List.countP_le_length (p := Option.isSome) (l := zm.zoneOpened)
    have found := insertZoneFound (getEmptyZone zm) (by omega : zm.zoneOpened.countP Option.isSome < zm.zoneOpened.length)
    rw [zoneOpenTakes takes]
    split
    · exact found
    · exact found

theorem passSkips (skips : opensZone zm (getEmptyZone zm) accepted = false) : passTable type accepted zm =
    { zm.setZone (getEmptyZone zm) { zm.zoneInfo (getEmptyZone zm) with zoneType := type } with
      nrType := Function.update zm.nrType type (zm.nrType type + 1) } := by
  unfold passTable
  dsimp only
  rw [zoneOpenSkips skips]
  rfl

theorem skippedCond (skips : opensZone zm (getEmptyZone zm) accepted = false) (zone : Nat) :
    ((passTable type accepted zm).zoneInfo zone).cond = (zm.zoneInfo zone).cond := by
  rw [passSkips skips]
  refine setZoneEach (fun z zi => zi.cond = (zm.zoneInfo z).cond) (fun _ => rfl) ?_ zone
  exact (rfl : ({ zm.zoneInfo (getEmptyZone zm) with zoneType := type } : ZoneInfo).cond = _)

theorem skippedOpened (skips : opensZone zm (getEmptyZone zm) accepted = false) :
    (passTable type accepted zm).zoneOpened = zm.zoneOpened := by
  rw [passSkips skips]
  rfl

theorem emptyZoneSame {other : ZmInfo} (zones : other.nrZones = zm.nrZones)
    (cond : ∀ zone, (other.zoneInfo zone).cond = (zm.zoneInfo zone).cond)
    (zoneId : ∀ zone, (other.zoneInfo zone).zoneId = (zm.zoneInfo zone).zoneId) : getEmptyZone other = getEmptyZone zm := by
  have isEmpty : other.isEmpty = zm.isEmpty := by
    funext zone
    unfold ZmInfo.isEmpty
    rw [cond]
  unfold getEmptyZone
  rw [zones,isEmpty]
  cases (List.range' 2 (zm.nrZones - 2)).find? zm.isEmpty with
  | none => rfl
  | some i => exact zoneId i

theorem skippedPlace (skips : opensZone zm (getEmptyZone zm) accepted = false) :
    getEmptyZone (passTable type accepted zm) = getEmptyZone zm := by
  refine emptyZoneSame ?_ (skippedCond skips) ?_
  · rw [passSkips skips]
    rfl
  · intro zone
    rw [passSkips skips]
    refine setZoneEach (fun z zi => zi.zoneId = (zm.zoneInfo z).zoneId) (fun _ => rfl) ?_ zone
    exact (rfl : ({ zm.zoneInfo (getEmptyZone zm) with zoneType := type } : ZoneInfo).zoneId = _)

theorem skippedHasEmpty (skips : opensZone zm (getEmptyZone zm) accepted = false) :
    HasEmpty (passTable type accepted zm) ↔ HasEmpty zm := by
  have zones : (passTable type accepted zm).nrZones = zm.nrZones := by
    rw [passSkips skips]
    rfl
  unfold HasEmpty
  rw [zones]
  simp only [skippedCond skips]

theorem skippedAccounted (skips : opensZone zm (getEmptyZone zm) accepted = false) (accounted : Accounted zm) :
    Accounted (passTable type accepted zm) := by
  rw [passSkips skips]
  apply accountedNrType
  exact accountedTouch accounted rfl

theorem skippedSelectable (skips : opensZone zm (getEmptyZone zm) accepted = false)
    (selectable : Selectable type (passTable type accepted zm)) : Selectable type zm ∨ some (getEmptyZone zm) ∈ zm.zoneOpened := by
  obtain ⟨zone,listed,typed⟩ := selectable
  rw [skippedOpened skips] at listed
  by_cases here : zone = getEmptyZone zm
  · exact .inr (here ▸ listed)
  · refine .inl ⟨zone,listed,?_⟩
    rw [passSkips skips] at typed
    change (Function.update zm.zoneInfo _ _ zone).zoneType = type at typed
    rwa [Function.update_of_ne here] at typed

theorem listedPlace (scannable : Scannable zm) (accounted : Accounted zm) (listed : some (getEmptyZone zm) ∈ zm.zoneOpened) :
    ¬HasEmpty zm ∧ some 0 ∈ zm.zoneOpened := by
  have none_ : ¬HasEmpty zm := by
    intro has
    obtain ⟨_,_,empty⟩ := emptyFound scannable.zoneId has
    have open_ := (accounted.openedIs _).mp listed
    rw [empty] at open_
    cases open_
  rw [getEmptyMissing none_] at listed
  exact ⟨none_,listed⟩

theorem retrySelectable (scannable : Scannable s.zm) (selectable : Selectable type s.zm) (list : List Bool) :
    (retryZone type list s).isSome = true := by
  obtain ⟨tar,scanned⟩ := Option.isSome_iff_exists.mp ((scanIff scannable).mpr selectable)
  cases list with
  | nil =>
    unfold retryZone
    rw [scanned]
    rfl
  | cons accepted list =>
    unfold retryZone
    rw [scanned]
    rfl

theorem retryStep (scannable : Scannable s.zm) (missing : ¬Selectable type s.zm) (list : List Bool) :
    retryZone type (accepted :: list) s = (openEmpty type accepted s).bind (retryZone type list) := by
  cases scanned : scanOpened s.zm type s.zm.zoneOpened longMax none with
  | some tar => exact absurd ((scanIff scannable).mp (by rw [scanned]; rfl)) missing
  | none => rw [retryZone,scanned]

theorem answersSucc (answers : Nat → Bool) (n : Nat) :
    (List.range (n + 1)).map answers = answers 0 :: (List.range n).map fun k => answers (k + 1) := by
  rw [List.range_succ_eq_map,List.map_cons,List.map_map]
  rfl

theorem skippedReturns (scannable : Scannable s.zm) (accounted : Accounted s.zm) (missing : ¬Selectable type s.zm)
    (room : RoomLeft s.zm) (ran : openEmpty type (answers 0) s = some t)
    (skips : opensZone s.zm (getEmptyZone s.zm) (answers 0) = false)
    (rest : Selectable type t.zm ∨ RoomLeft t.zm ∧ Marked t ∧ Lists (fun k => answers (k + 1)) t.zm) :
    Marked s ∧ Lists answers s.zm := by
  obtain ⟨marked,_,same⟩ := passIs room ran
  refine ⟨marked,?_⟩
  rw [same] at rest
  obtain selectable | ⟨_,_,zero | ⟨active,k,yes⟩⟩ := rest
  · exact .inl (listedPlace scannable accounted ((skippedSelectable skips selectable).resolve_left missing))
  · rw [skippedHasEmpty skips,skippedOpened skips] at zero
    exact .inl zero
  · refine .inr ⟨?_,k + 1,yes⟩
    rw [passSkips skips] at active
    exact active

theorem retryNeeds (n : Nat) (scannable : Scannable s.zm) (accounted : Accounted s.zm)
    (ran : (retryZone type ((List.range n).map answers) s).isSome = true) :
    Selectable type s.zm ∨ RoomLeft s.zm ∧ Marked s ∧ Lists answers s.zm := by
  induction n generalizing s answers with
  | zero =>
    rw [List.range_zero,List.map_nil,retryZone,Option.isSome_map] at ran
    exact .inl ((scanIff scannable).mp ran)
  | succ n ih =>
    by_cases selectable : Selectable type s.zm
    · exact .inl selectable
    rw [answersSucc,retryStep scannable selectable] at ran
    obtain ⟨found,returned⟩ := Option.isSome_iff_exists.mp ran
    obtain ⟨t,passed,rest⟩ := Option.bind_eq_some_iff.mp returned
    have later : (retryZone type ((List.range n).map fun k => answers (k + 1)) t).isSome = true := by
      rw [rest]
      rfl
    have scannableNext : Scannable t.zm := scannableSame scannable (openEmptyBlocks passed)
    by_cases room : RoomLeft s.zm
    · right
      refine ⟨room,?_⟩
      cases opens : opensZone s.zm (getEmptyZone s.zm) (answers 0) with
      | true =>
        obtain ⟨_,_,active,yes⟩ := opensZoneIff.mp opens
        exact ⟨(passIs room passed).1,.inr ⟨active,0,yes⟩⟩
      | false =>
        have accountedNext : Accounted t.zm := by
          rw [(passIs room passed).2.2]
          exact skippedAccounted opens accounted
        exact skippedReturns scannable accounted selectable room passed opens (ih scannableNext accountedNext later)
    · rw [openEmptyFull room] at passed
      cases passed
      obtain here | ⟨has,_⟩ := ih scannable accounted later
      · exact .inl here
      · exact absurd has room

theorem passReturns (type : Nat) (scannable : Scannable s.zm) (accounted : Accounted s.zm) (room : RoomLeft s.zm) (marked : Marked s)
    (lists : some (getEmptyZone s.zm) ∈ s.zm.zoneOpened ∨ opensZone s.zm (getEmptyZone s.zm) accepted = true) (list : List Bool) :
    ∃ t, openEmpty type accepted s = some t ∧ (retryZone type list t).isSome = true := by
  obtain ⟨t,passed⟩ := passRuns type accepted room marked
  refine ⟨t,passed,retrySelectable (scannableSame scannable (openEmptyBlocks passed)) ?_ list⟩
  rw [(passIs room passed).2.2]
  exact passSelectable accounted.openedSlots accounted.openedCount lists

theorem listedOrOpens (accounted : Accounted zm) (room : RoomLeft zm) (active : zm.zoneActiveCount ≠ zm.maxActiveZones)
    (yes : accepted = true) (zone : Nat) : some zone ∈ zm.zoneOpened ∨ opensZone zm zone accepted = true := by
  by_cases exp : (zm.zoneInfo zone).cond = .expOpen
  · left
    apply (accounted.openedIs zone).mpr
    rw [exp]
    rfl
  · exact .inr (opensZoneIff.mpr ⟨exp,Int.ne_of_lt room,active,yes⟩)

theorem passesReturn (k : Nat) (scannable : Scannable s.zm) (accounted : Accounted s.zm) (room : RoomLeft s.zm) (marked : Marked s)
    (active : s.zm.zoneActiveCount ≠ s.zm.maxActiveZones) (yes : answers k = true) :
    ∃ t n, openEmpty type (answers 0) s = some t ∧
      (retryZone type ((List.range n).map fun k => answers (k + 1)) t).isSome = true := by
  induction k generalizing s answers with
  | zero =>
    obtain ⟨t,passed,returned⟩ := passReturns type scannable accounted room marked
      (listedOrOpens accounted room active yes (getEmptyZone s.zm)) []
    exact ⟨t,0,passed,returned⟩
  | succ k ih =>
    cases opens : opensZone s.zm (getEmptyZone s.zm) (answers 0) with
    | true =>
      obtain ⟨t,passed,returned⟩ := passReturns type scannable accounted room marked (.inr opens) []
      exact ⟨t,0,passed,returned⟩
    | false =>
      obtain ⟨t,passed⟩ := passRuns type (answers 0) room marked
      obtain ⟨_,markedNext,same⟩ := passIs room passed
      have scannableNext : Scannable t.zm := scannableSame scannable (openEmptyBlocks passed)
      by_cases selectable : Selectable type t.zm
      · exact ⟨t,0,passed,retrySelectable scannableNext selectable []⟩
      have accountedNext : Accounted t.zm := by
        rw [same]
        exact skippedAccounted opens accounted
      have roomNext : RoomLeft t.zm := by
        rw [same,passSkips opens]
        exact room
      have activeNext : t.zm.zoneActiveCount ≠ t.zm.maxActiveZones := by
        rw [same,passSkips opens]
        exact active
      obtain ⟨u,n,passedNext,returned⟩ := @ih t (fun k => answers (k + 1)) scannableNext accountedNext roomNext markedNext activeNext yes
      refine ⟨t,n + 1,passed,?_⟩
      rw [answersSucc,retryStep scannableNext selectable,passedNext]
      exact returned

theorem listsReturn (scannable : Scannable s.zm) (accounted : Accounted s.zm) (room : RoomLeft s.zm) (marked : Marked s)
    (lists : Lists answers s.zm) : ∃ t n, openEmpty type (answers 0) s = some t ∧
      (retryZone type ((List.range n).map fun k => answers (k + 1)) t).isSome = true := by
  obtain ⟨none_,zero⟩ | ⟨active,k,yes⟩ := lists
  · rw [← getEmptyMissing none_] at zero
    obtain ⟨t,passed,returned⟩ := passReturns type scannable accounted room marked (.inl zero) []
    exact ⟨t,0,passed,returned⟩
  · exact passesReturn k scannable accounted room marked active yes

theorem passKeepsSelectable (ran : openEmpty type accepted s = some t) (selectable : Selectable type s.zm) : Selectable type t.zm := by
  by_cases room : RoomLeft s.zm
  · obtain ⟨zone,listed,typed⟩ := selectable
    obtain ⟨_,_,same⟩ := passIs room ran
    refine ⟨zone,?_,?_⟩
    · have grown : s.zm.zoneOpened.count _ ≤ (xcpfsZoneOpen s.zm (getEmptyZone s.zm) accepted).1.zoneOpened.count _ := openGrows zone
      have before := List.count_pos_iff.mpr listed
      rw [same]
      exact List.count_pos_iff.mp (Nat.lt_of_lt_of_le before grown)
    · by_cases here : zone = getEmptyZone s.zm
      · rw [here,same]
        exact passHere
      · exact (passUntouched ran here).2.1.trans typed
  · rw [openEmptyFull room] at ran
    cases ran
    exact selectable

theorem openFirst (scannable : Scannable s.zm) (accounted : Accounted s.zm) :
    (∃ t n, openEmpty type (answers 0) s = some t ∧
        (retryZone type ((List.range n).map fun k => answers (k + 1)) t).isSome = true) ↔
      (RoomLeft s.zm → Marked s) ∧ (Selectable type s.zm ∨ RoomLeft s.zm ∧ Lists answers s.zm) := by
  constructor
  · intro ⟨t,n,passed,returned⟩
    by_cases room : RoomLeft s.zm
    · refine ⟨fun _ => (passIs room passed).1,?_⟩
      by_cases selectable : Selectable type s.zm
      · exact .inl selectable
      · right
        cases opens : opensZone s.zm (getEmptyZone s.zm) (answers 0) with
        | true =>
          obtain ⟨_,_,active,yes⟩ := opensZoneIff.mp opens
          exact ⟨room,.inr ⟨active,0,yes⟩⟩
        | false =>
          have accountedNext : Accounted t.zm := by
            rw [(passIs room passed).2.2]
            exact skippedAccounted opens accounted
          have needs := retryNeeds n (scannableSame scannable (openEmptyBlocks passed)) accountedNext returned
          exact ⟨room,(skippedReturns scannable accounted selectable room passed opens needs).2⟩
    · rw [openEmptyFull room] at passed
      cases passed
      refine ⟨fun has => absurd has room,.inl ?_⟩
      obtain here | ⟨has,_⟩ := retryNeeds n scannable accounted returned
      · exact here
      · exact absurd has room
  · intro ⟨marked,found⟩
    by_cases room : RoomLeft s.zm
    · obtain selectable | ⟨_,lists⟩ := found
      · obtain ⟨t,passed⟩ := passRuns type (answers 0) room (marked room)
        exact ⟨t,0,passed,retrySelectable (scannableSame scannable (openEmptyBlocks passed)) (passKeepsSelectable passed selectable) []⟩
      · exact listsReturn scannable accounted room (marked room) lists
    · obtain selectable | ⟨has,_⟩ := found
      · exact ⟨s,0,openEmptyFull room,retrySelectable scannable selectable []⟩
      · exact absurd has room

theorem getZoneBelow (below : s.zm.nrType type < s.zm.limitType type) : Returns type answers s ↔
    ∃ t n, openEmpty type (answers 0) s = some t ∧
      (retryZone type ((List.range n).map fun k => answers (k + 1)) t).isSome = true := by
  constructor
  · intro ⟨n,ran⟩
    unfold getZone at ran
    rw [if_pos below] at ran
    cases n with
    | zero => cases ran
    | succ n =>
      rw [answersSucc] at ran
      obtain ⟨found,returned⟩ := Option.isSome_iff_exists.mp ran
      obtain ⟨t,passed,rest⟩ := Option.bind_eq_some_iff.mp returned
      exact ⟨t,n,passed,Option.isSome_iff_exists.mpr ⟨found,rest⟩⟩
  · intro ⟨t,n,passed,returned⟩
    refine ⟨n + 1,?_⟩
    unfold getZone
    rw [if_pos below,answersSucc]
    dsimp only
    rw [passed]
    exact returned

theorem getZoneReached (reached : ¬s.zm.nrType type < s.zm.limitType type) (list : List Bool) :
    getZone type list s = retryZone type list s := if_neg reached

theorem searchReturns (scannable : Scannable s.zm) (accounted : Accounted s.zm) :
    Returns type answers s ↔ ReturnsWhen type answers s := by
  unfold ReturnsWhen
  by_cases below : s.zm.nrType type < s.zm.limitType type
  · rw [getZoneBelow below,openFirst scannable accounted]
    constructor
    · intro ⟨marked,found⟩
      exact ⟨fun _ => marked,found⟩
    · intro ⟨marked,found⟩
      exact ⟨marked (.inl below),found⟩
  · constructor
    · intro ⟨n,ran⟩
      rw [getZoneReached below] at ran
      by_cases selectable : Selectable type s.zm
      · refine ⟨fun opens => ?_,.inl selectable⟩
        exact absurd opens (not_or.mpr ⟨below,not_not.mpr selectable⟩)
      · obtain ⟨room,marked,lists⟩ := (retryNeeds n scannable accounted ran).resolve_left selectable
        exact ⟨fun _ _ => marked,.inr ⟨room,lists⟩⟩
    · intro ⟨marked,found⟩
      by_cases selectable : Selectable type s.zm
      · refine ⟨0,?_⟩
        rw [getZoneReached below]
        exact retrySelectable scannable selectable []
      · obtain ⟨room,lists⟩ := found.resolve_left selectable
        obtain ⟨t,n,passed,returned⟩ := listsReturn scannable accounted room (marked (.inr selectable) room) lists
        refine ⟨n + 1,?_⟩
        rw [getZoneReached below,answersSucc,retryStep scannable selectable,passed]
        exact returned

/- For every table whose zones are accounted for, every type and every outcome of the open
commands, the search returns exactly when an open zone of the type can be chosen now or
after a pass that lists one. -/
theorem getZoneReturns (type : Nat) (answers : Nat → Bool) (scannable : Scannable s.zm) (accounted : Accounted s.zm) :
    Returns type answers s ↔ ReturnsWhen type answers s := searchReturns scannable accounted

end

theorem mkfsScannable : Scannable mkfsTable :=
  have mounted := mountMounted mkfsReported mkfsMounts
  laidScannable mounted.laid mounted.pointed

theorem mkfsAccounted : Accounted mkfsTable := mountAccounted mkfsReported mkfsNull mkfsMounts

theorem mkfsRoomLeft : RoomLeft mkfsTable := (by decide : mkfsTable.zoneOpenedCount < mkfsTable.maxOpenZones)

/-- A first metadata page after mkfs: the second open command succeeds. -/
theorem getZoneReturnsSecond : Returns 2 (fun k => decide (k = 1)) (mountRun mkfsTable).sbi := by
  refine (getZoneReturns 2 _ mkfsScannable mkfsAccounted).mpr ⟨?_,.inr ⟨mkfsRoomLeft,.inr ⟨by decide,1,rfl⟩⟩⟩
  exact fun _ _ locked => Bool.noConfusion locked

/- A device whose four open zones are as many as it allows. -/
def fullSlotsDevice : BlockDevice := { mkfsDevice with maxOpenZones := 4 }

def fullSlotsTable : ZmInfo :=
  (mountOver (zeroMemory fullSlotsDevice fun _ _ => false) fullSlotsDevice fun _ => none).getD (blankTable fullSlotsDevice)

theorem fullSlotsReported : Reported fullSlotsDevice 4 :=
  ⟨mkfsReported.zones,mkfsReported.positive,mkfsReported.small,mkfsReported.len,mkfsReported.start,mkfsReported.wpLow,
    mkfsReported.wpHigh⟩

theorem fullSlotsMounts : mountOver (zeroMemory fullSlotsDevice fun _ _ => false) fullSlotsDevice (fun _ => none) =
    some fullSlotsTable := rfl

/-- All four slots hold zones of other types: a search for a metadata zone never returns. -/
theorem fullSlotsEndless : ¬∀ (s : ZoneSbi) (type : PageType) (answers : Nat → Bool), Scannable s.zm → Accounted s.zm →
    Returns type.code answers s := by
  intro claim
  have mounted := mountMounted fullSlotsReported fullSlotsMounts
  have scannable : Scannable fullSlotsTable := laidScannable mounted.laid mounted.pointed
  have accounted := mountAccounted fullSlotsReported (nullZero fullSlotsDevice _) fullSlotsMounts
  have returns := claim (mountRun fullSlotsTable).sbi .metaData (fun _ => true) scannable accounted
  obtain selectable | ⟨room,_⟩ := ((searchReturns scannable accounted).mp returns).2
  · have found := (scanIff scannable).mpr selectable
    revert found
    decide
  · revert room
    unfold RoomLeft
    decide

end Xcpfs
