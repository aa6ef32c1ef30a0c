import Xcpfs.ZoneSearch

/-! The requests of `xcpfs_zone_mgmt` and the bookkeeping of open and active zones
over any sequence of them, of `get_zone` and of `validate_blkaddr`. -/
namespace Xcpfs

open EventRun

def xcpfsZoneClose (zm : ZmInfo) (zone : Nat) (accepted : Bool) : ZmInfo × Except Errno Unit :=
  let zi := zm.zoneInfo zone
  if zi.cond ≠ .expOpen then (zm,.error .ezone)
  else if accepted = false then (zm,.error .eio)
  else ((zm.removeOpened zone).setZone zone { zi with cond := .closed, dirty := true },.ok ())

def xcpfsZoneFinish (zm : ZmInfo) (zone : Nat) (accepted : Bool) : ZmInfo × Except Errno Unit :=
  let zi := zm.zoneInfo zone
  if zi.cond = .empty then (zm,.error .ezone)
  else if accepted = false then (zm,.error .eio)
  else
    (((zm.removeOpened zone).removeActive zone).setZone zone
      { zi with cond := .full, wp := zm.zoneCapacity, dirty := true },.ok ())

def xcpfsZoneReset (zm : ZmInfo) (zone : Nat) (accepted : Bool) : ZmInfo × Except Errno Unit :=
  let zi := zm.zoneInfo zone
  if accepted = false then (zm,.error .eio)
  else
    (((zm.removeOpened zone).removeActive zone).setZone zone { zi with cond := .empty, wp := 0, dirty := true },.ok ())

inductive ZoneOp where | open_ | close | finish | reset | other
  deriving DecidableEq, Repr

def xcpfsZoneMgmt (zm : ZmInfo) (zone : Nat) (op : ZoneOp) (accepted : Bool) : ZmInfo × Except Errno Unit :=
  match op with
  | .open_ => xcpfsZoneOpen zm zone accepted
  | .close => xcpfsZoneClose zm zone accepted
  | .finish => xcpfsZoneFinish zm zone accepted
  | .reset => xcpfsZoneReset zm zone accepted
  | .other => (zm,.error .eio)

def ZoneCond.isOpen : ZoneCond → Bool
  | impOpen | expOpen => true
  | _ => false

def ZoneCond.isActive : ZoneCond → Bool
  | impOpen | expOpen | closed => true
  | _ => false

/- The open request gets as far as the device, and the device answers yes. -/
def opensZone (zm : ZmInfo) (zone : Nat) (accepted : Bool) : Bool :=
  (zm.zoneInfo zone).cond ≠ .expOpen && zm.zoneOpenedCount ≠ zm.maxOpenZones && zm.zoneActiveCount ≠ zm.maxActiveZones && accepted

def opensTwice (zm : ZmInfo) (zone : Nat) (accepted : Bool) : Bool :=
  opensZone zm zone accepted && (zm.zoneInfo zone).cond = .impOpen

/- The same for the open requests of one search for a zone, pass by pass. -/
def passTwice (accepted : Bool) (s : ZoneSbi) : Bool :=
  s.zm.zoneOpenedCount < s.zm.maxOpenZones && opensTwice s.zm (getEmptyZone s.zm) accepted

def retryTwice (type : Nat) : List Bool → ZoneSbi → Bool
  | [],_ => false
  | accepted :: answers,s =>
    match scanOpened s.zm type s.zm.zoneOpened longMax none with
    | some _ => false
    | none => passTwice accepted s || (openEmpty type accepted s).any (retryTwice type answers)

def searchTwice (type : Nat) (answers : List Bool) (s : ZoneSbi) : Bool :=
  if s.zm.nrType type < s.zm.limitType type then
    match answers with
    | [] => false
    | accepted :: answers => passTwice accepted s || (openEmpty type accepted s).any (retryTwice type answers)
  else retryTwice type answers s

inductive MgmtEvent where
  | request (zone : Nat) (op : ZoneOp) (accepted : Bool)
  | search (type : Nat) (answers : List Bool)
  | complete (blkaddr : Nat)

/- Requests and addresses name zones of the table; the device may answer anything. -/
def mgmtStep (s : ZoneSbi) : MgmtEvent → Option ZoneSbi
  | .request zone op accepted =>
    if zone < s.zm.nrZones then some { s with zm := (xcpfsZoneMgmt s.zm zone op accepted).1 } else none
  | .search type answers => (getZone type answers s).map Prod.fst
  | .complete blkaddr =>
    if s.zm.blk2zone blkaddr < s.zm.nrZones then some { s with zm := validateBlkaddr s.zm blkaddr } else none

structure Accounted (zm : ZmInfo) : Prop where
  openedSlots : zm.zoneOpened.length = zm.maxOpenZones
  activeSlots : zm.zoneActive.length = zm.maxActiveZones
  openedOnce : ∀ zone, zm.zoneOpened.count (some zone) ≤ 1
  openedIs : ∀ zone, some zone ∈ zm.zoneOpened ↔ (zm.zoneInfo zone).cond.isOpen
  activeOnce : ∀ zone, zm.zoneActive.count (some zone) ≤ 1
  activeIs : ∀ zone, some zone ∈ zm.zoneActive ↔ (zm.zoneInfo zone).cond.isActive
  openedCount : zm.zoneOpenedCount = zm.zoneOpened.countP Option.isSome
  activeCount : zm.zoneActiveCount = zm.zoneActive.countP Option.isSome
  openedMax : zm.zoneOpenedCount ≤ zm.maxOpenZones
  activeMax : zm.zoneActiveCount ≤ zm.maxActiveZones

/- No request that the device takes is for a zone it has opened implicitly. -/
def mgmtFits (s : ZoneSbi) : MgmtEvent → Prop
  | .request zone .open_ accepted => opensTwice s.zm zone accepted = false
  | .search type answers => searchTwice type answers s = false
  | _ => True

/- One slot array: its size, its counter and which zones it holds, each once. -/
structure Tally (list : List (Option Nat)) (count : Int) (size : Nat) (holds : Nat → Bool) : Prop where
  slots : list.length = size
  each : ∀ zone, list.count (some zone) = (holds zone).toNat
  counted : count = list.countP Option.isSome

section
variable {list : List (Option Nat)} {count : Int} {size : Nat} {holds : Nat → Bool} {zone : Nat}

theorem insertZoneEach (zone : Nat) (room : list.countP Option.isSome < list.length) (other : Nat) :
    (insertZone zone list).2 = true ∧
      (insertZone zone list).1.count (some other) = list.count (some other) + if other = zone then 1 else 0 := by
  induction list with
  | nil => simp at room
  | cons entry rest ih =>
    cases entry with
    | none =>
      refine ⟨rfl,?_⟩
      simp only [insertZone,List.count_cons]
      by_cases same : other = zone
      · subst same
        simp
      · simp [same,Ne.symm same]
    | some z =>
      simp only [List.countP_cons,Option.isSome_some,if_true,List.length_cons] at room
      obtain ⟨done,each⟩ := ih (by omega)
      refine ⟨done,?_⟩
      simp only [insertZone,List.count_cons,each]
      exact Nat.add_right_comm ..

theorem removeZoneEach (other : Nat) :
    (removeZone zone list).1.count (some other) =
      list.count (some other) - if other = zone ∧ (removeZone zone list).2 then 1 else 0 := by
  induction list with
  | nil => simp [removeZone]
  | cons entry rest ih =>
    simp only [removeZone]
    split
    case isTrue here =>
      subst here
      by_cases same : other = zone
      · subst same
        simp
      · simp [same,Ne.symm same]
    case isFalse away =>
      simp only [List.count_cons,ih]
      by_cases same : other = zone
      · subst same
        cases (removeZone other rest).2 with
        | false => simp
        | true => simp [away]
      · simp [same]

theorem removeZoneDone : (removeZone zone list).2 = true ↔ some zone ∈ list := by
  induction list with
  | nil => simp [removeZone]
  | cons entry rest ih =>
    simp only [removeZone,List.mem_cons]
    split
    case isTrue here => exact iff_of_true rfl (.inl here.symm)
    case isFalse away =>
      change (removeZone zone rest).2 = true ↔ _
      rw [ih]
      constructor
      · exact .inr
      · intro some_
        exact some_.resolve_left (fun same => away same.symm)

theorem tallyInsert (tally : Tally list count size holds) (absent : holds zone = false) (room : count ≠ size) :
    Tally (insertZone zone list).1 (count + if (insertZone zone list).2 then 1 else 0) size
      (Function.update holds zone true) := by
  have slots := tally.slots
  have counted := tally.counted
  have bound := List.countP_le_length (p := Option.isSome) (l := list)
  have free : list.countP Option.isSome < list.length := by omega
  have total := insertZoneCount zone list
  obtain ⟨done,_⟩ := insertZoneEach zone free zone
  rw [done] at total ⊢
  refine ⟨(insertZoneLength zone list).trans slots,?_,?_⟩
  · intro other
    rw [(insertZoneEach zone free other).2,tally.each]
    by_cases same : other = zone
    · subst same
      rw [Function.update_self,absent,if_pos rfl]
      rfl
    · rw [Function.update_of_ne same,if_neg same]
      rfl
  · rw [if_pos rfl] at total ⊢
    omega

theorem tallyRemove (tally : Tally list count size holds) :
    Tally (removeZone zone list).1 (count - if (removeZone zone list).2 then 1 else 0) size
      (Function.update holds zone false) := by
  have counted := tally.counted
  have total := removeZoneCount zone list
  refine ⟨(removeZoneLength zone list).trans tally.slots,?_,?_⟩
  · intro other
    rw [removeZoneEach,tally.each]
    by_cases same : other = zone
    · subst same
      rw [Function.update_self]
      cases held : holds other with
      | false => exact Nat.zero_sub _
      | true =>
        have member : some other ∈ list := List.count_pos_iff.mp (by rw [tally.each,held]; exact Nat.one_pos)
        rw [if_pos ⟨rfl,removeZoneDone.mpr member⟩]
        rfl
    · rw [Function.update_of_ne same,if_neg (fun both => same both.1),Nat.sub_zero]
  · cases done : (removeZone zone list).2 with
    | false =>
      rw [done,if_neg Bool.false_ne_true] at total
      rw [if_neg Bool.false_ne_true]
      omega
    | true =>
      rw [done,if_pos rfl] at total
      rw [if_pos rfl]
      omega

end

def openIn (zm : ZmInfo) (zone : Nat) : Bool := (zm.zoneInfo zone).cond.isOpen
def activeIn (zm : ZmInfo) (zone : Nat) : Bool := (zm.zoneInfo zone).cond.isActive

section
variable {zm : ZmInfo} {zone : Nat} {zi : ZoneInfo} {accepted : Bool}

theorem tallyOf {list : List (Option Nat)} {count : Int} {size : Nat} {holds : Nat → Bool} (slots : list.length = size)
    (once : ∀ zone, list.count (some zone) ≤ 1) (is : ∀ zone, some zone ∈ list ↔ holds zone = true)
    (counted : count = list.countP Option.isSome) : Tally list count size holds := by
  refine ⟨slots,?_,counted⟩
  intro zone
  have one := once zone
  cases held : holds zone with
  | true =>
    have member := List.count_pos_iff.mpr ((is zone).mpr held)
    exact Nat.le_antisymm one member
  | false =>
    apply List.count_eq_zero.mpr
    intro member
    rw [(is zone).mp member] at held
    cases held

theorem tallyMember {list : List (Option Nat)} {count : Int} {size : Nat} {holds : Nat → Bool}
    (tally : Tally list count size holds) : some zone ∈ list ↔ holds zone = true := by
  rw [← List.count_pos_iff,tally.each]
  cases holds zone <;> decide

theorem tallyOnce {list : List (Option Nat)} {count : Int} {size : Nat} {holds : Nat → Bool}
    (tally : Tally list count size holds) : list.count (some zone) ≤ 1 := by
  rw [tally.each]
  cases holds zone <;> decide

theorem tallyMax {list : List (Option Nat)} {count : Int} {size : Nat} {holds : Nat → Bool}
    (tally : Tally list count size holds) : count ≤ size := by
  have bound := List.countP_le_length (p := Option.isSome) (l := list)
  have slots := tally.slots
  have counted := tally.counted
  omega

theorem accountedIff : Accounted zm ↔
    Tally zm.zoneOpened zm.zoneOpenedCount zm.maxOpenZones (openIn zm) ∧
      Tally zm.zoneActive zm.zoneActiveCount zm.maxActiveZones (activeIn zm) := by
  constructor
  · intro ok
    exact ⟨tallyOf ok.openedSlots ok.openedOnce ok.openedIs ok.openedCount,
      tallyOf ok.activeSlots ok.activeOnce ok.activeIs ok.activeCount⟩
  · intro ⟨opened,active⟩
    exact ⟨opened.slots,active.slots,fun _ => tallyOnce opened,fun _ => tallyMember opened,fun _ => tallyOnce active,
      fun _ => tallyMember active,opened.counted,active.counted,tallyMax opened,tallyMax active⟩

theorem openInSet (zm : ZmInfo) (zone : Nat) (zi : ZoneInfo) :
    openIn (zm.setZone zone zi) = Function.update (openIn zm) zone zi.cond.isOpen := by
  funext other
  unfold openIn
  by_cases same : other = zone
  · subst same
    rw [setZoneInfo,Function.update_self,Function.update_self]
  · rw [setZoneInfo,Function.update_of_ne same,Function.update_of_ne same]

theorem activeInSet (zm : ZmInfo) (zone : Nat) (zi : ZoneInfo) :
    activeIn (zm.setZone zone zi) = Function.update (activeIn zm) zone zi.cond.isActive := by
  funext other
  unfold activeIn
  by_cases same : other = zone
  · subst same
    rw [setZoneInfo,Function.update_self,Function.update_self]
  · rw [setZoneInfo,Function.update_of_ne same,Function.update_of_ne same]

theorem accountedTouch (ok : Accounted zm) (cond : zi.cond = (zm.zoneInfo zone).cond) : Accounted (zm.setZone zone zi) := by
  obtain ⟨opened,active⟩ := accountedIff.mp ok
  have sameOpen : openIn (zm.setZone zone zi) = openIn zm := by
    rw [openInSet,cond]
    exact Function.update_eq_self zone (openIn zm)
  have sameActive : activeIn (zm.setZone zone zi) = activeIn zm := by
    rw [activeInSet,cond]
    exact Function.update_eq_self zone (activeIn zm)
  rw [accountedIff,sameOpen,sameActive]
  exact ⟨opened,active⟩

theorem accountedNrType (ok : Accounted zm) (nrType : Nat → Int) : Accounted { zm with nrType := nrType } :=
  ⟨ok.openedSlots,ok.activeSlots,ok.openedOnce,ok.openedIs,ok.activeOnce,ok.activeIs,ok.openedCount,ok.activeCount,
    ok.openedMax,ok.activeMax⟩

theorem accountedLeave (zone : Nat) (ok : Accounted zm) (inactive : zi.cond.isActive = false) :
    Accounted (((zm.removeOpened zone).removeActive zone).setZone zone zi) := by
  obtain ⟨opened,active⟩ := accountedIff.mp ok
  have closed : zi.cond.isOpen = false := by
    cases cond : zi.cond <;> rw [cond] at inactive <;> first | rfl | cases inactive
  rw [accountedIff,openInSet,activeInSet,closed,inactive]
  exact ⟨tallyRemove opened,tallyRemove active⟩

theorem opensZoneIff : opensZone zm zone accepted = true ↔
    (zm.zoneInfo zone).cond ≠ .expOpen ∧ zm.zoneOpenedCount ≠ zm.maxOpenZones ∧ zm.zoneActiveCount ≠ zm.maxActiveZones ∧
      accepted = true := by
  simp only [opensZone,Bool.and_eq_true,decide_eq_true_eq,and_assoc]

theorem zoneOpenSkips (skips : opensZone zm zone accepted = false) : (xcpfsZoneOpen zm zone accepted).1 = zm := by
  unfold xcpfsZoneOpen
  dsimp only
  split
  · rfl
  · split
    · rfl
    · split
      · rfl
      · split
        · rfl
        · rename_i exp opened active answer
          have all := opensZoneIff.mpr ⟨exp,opened,active,eq_true_of_ne_false answer⟩
          rw [skips] at all
          cases all

theorem zoneOpenTakes (takes : opensZone zm zone accepted = true) :
    (xcpfsZoneOpen zm zone accepted).1 =
      (if (zm.zoneInfo zone).cond ≠ .closed then (zm.insertOpened zone).insertActive zone else zm.insertOpened zone).setZone zone
        { zm.zoneInfo zone with cond := .expOpen, dirty := true } := by
  obtain ⟨exp,opened,active,answer⟩ := opensZoneIff.mp takes
  unfold xcpfsZoneOpen
  dsimp only
  rw [if_neg exp,if_neg opened,if_neg active,answer,if_neg (by decide)]

theorem openKeeps (ok : Accounted zm) (once : opensTwice zm zone accepted = false) :
    Accounted (xcpfsZoneOpen zm zone accepted).1 := by
  cases takes : opensZone zm zone accepted with
  | false => rw [zoneOpenSkips takes]; exact ok
  | true =>
    unfold opensTwice at once
    obtain ⟨exp,roomOpened,roomActive,_⟩ := opensZoneIff.mp takes
    rw [takes,Bool.true_and] at once
    obtain ⟨opened,active⟩ := accountedIff.mp ok
    have shut : openIn zm zone = false := by
      unfold openIn
      cases cond : (zm.zoneInfo zone).cond <;> rw [cond] at once exp <;> first | rfl | exact absurd once (by decide) | exact absurd rfl exp
    rw [zoneOpenTakes takes,accountedIff,openInSet,activeInSet]
    have withOpened := tallyInsert opened shut roomOpened
    by_cases closed : (zm.zoneInfo zone).cond = .closed
    · rw [if_neg (not_not.mpr closed)]
      have listed : activeIn zm zone = true := by rw [activeIn,closed]; rfl
      refine ⟨withOpened,?_⟩
      have same : Function.update (activeIn zm) zone true = activeIn zm := by
        rw [← listed]
        exact Function.update_eq_self zone (activeIn zm)
      change Tally zm.zoneActive zm.zoneActiveCount zm.maxActiveZones (Function.update (activeIn zm) zone true)
      rw [same]
      exact active
    · rw [if_pos closed]
      have idle : activeIn zm zone = false := by
        unfold activeIn
        cases cond : (zm.zoneInfo zone).cond <;> rw [cond] at once exp closed <;>
          first | rfl | exact absurd once (by decide) | exact absurd rfl exp | exact absurd rfl closed
      exact ⟨withOpened,tallyInsert active idle roomActive⟩

theorem closeKeeps (ok : Accounted zm) : Accounted (xcpfsZoneClose zm zone accepted).1 := by
  unfold xcpfsZoneClose
  dsimp only
  split
  · exact ok
  · rename_i exp
    split
    · exact ok
    · obtain ⟨opened,active⟩ := accountedIff.mp ok
      have listed : activeIn zm zone = true := by
        rw [activeIn,not_not.mp exp]
        rfl
      have same : Function.update (activeIn zm) zone true = activeIn zm := by
        rw [← listed]
        exact Function.update_eq_self zone (activeIn zm)
      rw [accountedIff,openInSet,activeInSet]
      refine ⟨tallyRemove opened,?_⟩
      change Tally zm.zoneActive zm.zoneActiveCount zm.maxActiveZones (Function.update (activeIn zm) zone true)
      rw [same]
      exact active

theorem validateKeeps (ok : Accounted zm) (blkaddr : Nat) : Accounted (validateBlkaddr zm blkaddr) := by
  unfold validateBlkaddr
  dsimp only
  split
  · exact accountedLeave _ ok rfl
  · exact accountedTouch ok rfl

theorem mgmtKeeps (ok : Accounted zm) {op : ZoneOp} (once : op = .open_ → opensTwice zm zone accepted = false) : Accounted (xcpfsZoneMgmt zm zone op accepted).1 := by
  cases op with
  | open_ => exact openKeeps ok (once rfl)
  | close => exact closeKeeps ok
  | finish =>
    unfold xcpfsZoneMgmt xcpfsZoneFinish
    dsimp only
    split
    · exact ok
    · split
      · exact ok
      · exact accountedLeave zone ok rfl
  | reset =>
    unfold xcpfsZoneMgmt xcpfsZoneReset
    dsimp only
    split
    · exact ok
    · exact accountedLeave zone ok rfl
  | other => exact ok

theorem openDoubles (twice : opensTwice zm zone accepted = true) (listed : some zone ∈ zm.zoneOpened)
    (slots : zm.zoneOpened.length = zm.maxOpenZones) (counted : zm.zoneOpenedCount = zm.zoneOpened.countP Option.isSome) :
    2 ≤ (xcpfsZoneOpen zm zone accepted).1.zoneOpened.count (some zone) := by
  unfold opensTwice at twice
  rw [Bool.and_eq_true,decide_eq_true_eq] at twice
  obtain ⟨takes,imp⟩ := twice
  obtain ⟨_,room,_⟩ := opensZoneIff.mp takes
  have bound := List.countP_le_length (p := Option.isSome) (l := zm.zoneOpened)
  have free : zm.zoneOpened.countP Option.isSome < zm.zoneOpened.length := by omega
  have before := List.count_pos_iff.mpr listed
  have after := (insertZoneEach zone free zone).2
  rw [if_pos rfl] at after
  rw [zoneOpenTakes takes,if_pos (by rw [imp]; decide)]
  change 2 ≤ (insertZone zone zm.zoneOpened).1.count (some zone)
  omega

theorem insertZoneGrows (other : Nat) (list : List (Option Nat)) :
    list.count (some other) ≤ (insertZone zone list).1.count (some other) := by
  induction list with
  | nil => exact Nat.le_refl _
  | cons entry rest ih =>
    cases entry with
    | none => simp [insertZone,List.count_cons]
    | some z =>
      simp only [insertZone,List.count_cons]
      exact Nat.add_le_add_right ih _

theorem openGrows (other : Nat) :
    zm.zoneOpened.count (some other) ≤ (xcpfsZoneOpen zm zone accepted).1.zoneOpened.count (some other) := by
  cases takes : opensZone zm zone accepted with
  | false => exact Nat.le_of_eq (by rw [zoneOpenSkips takes])
  | true =>
    rw [zoneOpenTakes takes]
    split
    · exact insertZoneGrows other zm.zoneOpened
    · exact insertZoneGrows other zm.zoneOpened

end

def Doubled (zm : ZmInfo) : Prop := ∃ zone, 2 ≤ zm.zoneOpened.count (some zone)

section
variable {s t : ZoneSbi} {type zone : Nat} {accepted : Bool} {answers : List Bool}

theorem doubledBreaks {zm : ZmInfo} (doubled : Doubled zm) : ¬Accounted zm := by
  intro ok
  obtain ⟨zone,two⟩ := doubled
  have one := ok.openedOnce zone
  omega

theorem passKeeps (ok : Accounted s.zm) (once : passTwice accepted s = false) (ran : openEmpty type accepted s = some t) :
    Accounted t.zm := by
  obtain ⟨same,_⟩ | ⟨room,zm,nrType,opened,same⟩ := openEmptyIs ran
  · rw [same]
    exact ok
  · unfold passTwice at once
    rw [decide_eq_true room,Bool.true_and] at once
    rw [same]
    have kept : Accounted zm := by
      rw [opened]
      exact openKeeps ok once
    have touched : Accounted (zm.setZone (getEmptyZone s.zm) { zm.zoneInfo (getEmptyZone s.zm) with zoneType := type }) :=
      accountedTouch kept rfl
    exact accountedNrType touched nrType

theorem passGrows (doubled : Doubled s.zm) (ran : openEmpty type accepted s = some t) : Doubled t.zm := by
  obtain ⟨zone,two⟩ := doubled
  obtain ⟨same,_⟩ | ⟨_,zm,nrType,opened,same⟩ := openEmptyIs ran
  · rw [same]
    exact ⟨zone,two⟩
  · rw [same]
    refine ⟨zone,Nat.le_trans two ?_⟩
    change s.zm.zoneOpened.count (some zone) ≤ zm.zoneOpened.count (some zone)
    rw [opened]
    exact openGrows zone

theorem passDoubles (ok : Accounted s.zm) (twice : passTwice accepted s = true) (ran : openEmpty type accepted s = some t) :
    Doubled t.zm := by
  unfold passTwice at twice
  rw [Bool.and_eq_true,decide_eq_true_eq] at twice
  obtain ⟨same,full⟩ | ⟨_,zm,nrType,opened,same⟩ := openEmptyIs ran
  · exact absurd twice.1 full
  · rw [same]
    refine ⟨getEmptyZone s.zm,?_⟩
    change 2 ≤ zm.zoneOpened.count (some (getEmptyZone s.zm))
    have imp := twice.2
    unfold opensTwice at imp
    rw [Bool.and_eq_true,decide_eq_true_eq] at imp
    rw [opened]
    exact openDoubles twice.2 ((ok.openedIs _).mpr (by rw [imp.2]; rfl)) ok.openedSlots ok.openedCount

theorem retryKeeps (ok : Accounted s.zm) (once : retryTwice type answers s = false)
    (ran : retryZone type answers s = some (t,zone)) : Accounted t.zm := by
  induction answers generalizing s with
  | nil =>
    obtain ⟨tar,_,same⟩ := Option.map_eq_some_iff.mp ran
    cases same
    exact ok
  | cons accepted answers ih =>
    unfold retryZone at ran
    unfold retryTwice at once
    cases scanned : scanOpened s.zm type s.zm.zoneOpened longMax none with
    | some tar =>
      rw [scanned] at ran
      cases ran
      exact ok
    | none =>
      rw [scanned] at ran once
      obtain ⟨u,opened,rest⟩ := Option.bind_eq_some_iff.mp ran
      obtain ⟨here,later⟩ := Bool.or_eq_false_iff.mp once
      rw [opened] at later
      exact ih (passKeeps ok here opened) later rest

theorem retryGrows (doubled : Doubled s.zm) (ran : retryZone type answers s = some (t,zone)) : Doubled t.zm :=
  retryRelated (fun s t => Doubled s.zm → Doubled t.zm) (fun _ doubled => doubled)
    (fun _ _ _ first second doubled => second (first doubled)) (fun _ _ _ opened doubled => passGrows doubled opened) ran doubled

theorem passThenRetry (ok : Accounted s.zm) (opened : openEmpty type accepted s = some t)
    (twice : (passTwice accepted s || (openEmpty type accepted s).any (retryTwice type answers)) = true) {u : ZoneSbi}
    (rest : retryZone type answers t = some (u,zone))
    (later : Accounted t.zm → retryTwice type answers t = true → Doubled u.zm) : Doubled u.zm := by
  cases here : passTwice accepted s with
  | true => exact retryGrows (passDoubles ok here opened) rest
  | false =>
    rw [here,opened,Bool.false_or] at twice
    exact later (passKeeps ok here opened) twice

theorem retryDoubles (ok : Accounted s.zm) (twice : retryTwice type answers s = true)
    (ran : retryZone type answers s = some (t,zone)) : Doubled t.zm := by
  induction answers generalizing s with
  | nil => cases twice
  | cons accepted answers ih =>
    unfold retryZone at ran
    unfold retryTwice at twice
    cases scanned : scanOpened s.zm type s.zm.zoneOpened longMax none with
    | some tar =>
      rw [scanned] at twice
      cases twice
    | none =>
      rw [scanned] at ran twice
      obtain ⟨u,opened,rest⟩ := Option.bind_eq_some_iff.mp ran
      exact passThenRetry ok opened twice rest (fun ok twice => ih ok twice rest)

theorem searchKeeps (ok : Accounted s.zm) (once : searchTwice type answers s = false)
    (ran : getZone type answers s = some (t,zone)) : Accounted t.zm := by
  unfold getZone at ran
  unfold searchTwice at once
  split at ran
  · rename_i below
    rw [if_pos below] at once
    cases answers with
    | nil => cases ran
    | cons accepted answers =>
      obtain ⟨u,opened,rest⟩ := Option.bind_eq_some_iff.mp ran
      obtain ⟨here,later⟩ := Bool.or_eq_false_iff.mp once
      rw [opened] at later
      exact retryKeeps (passKeeps ok here opened) later rest
  · rename_i reached
    rw [if_neg reached] at once
    exact retryKeeps ok once ran

theorem searchDoubles (ok : Accounted s.zm) (twice : searchTwice type answers s = true)
    (ran : getZone type answers s = some (t,zone)) : Doubled t.zm := by
  unfold getZone at ran
  unfold searchTwice at twice
  split at ran
  · rename_i below
    rw [if_pos below] at twice
    cases answers with
    | nil => cases ran
    | cons accepted answers =>
      obtain ⟨u,opened,rest⟩ := Option.bind_eq_some_iff.mp ran
      exact passThenRetry ok opened twice rest (fun ok twice => retryDoubles ok twice rest)
  · rename_i reached
    rw [if_neg reached] at twice
    exact retryDoubles ok twice ran

theorem mgmtStepKeeps {event : MgmtEvent} (ok : Accounted s.zm) (ran : mgmtStep s event = some t) (fits : mgmtFits s event) :
    Accounted t.zm := by
  cases event with
  | request zone op accepted =>
    dsimp only [mgmtStep] at ran
    split at ran
    · cases ran
      refine mgmtKeeps ok ?_
      intro open_
      subst open_
      exact fits
    · cases ran
  | search type answers =>
    obtain ⟨⟨u,zone⟩,found,same⟩ := Option.map_eq_some_iff.mp ran
    cases same
    exact searchKeeps ok fits found
  | complete blkaddr =>
    dsimp only [mgmtStep] at ran
    split at ran
    · cases ran
      exact validateKeeps ok blkaddr
    · cases ran

theorem mgmtStepFails {event : MgmtEvent} (ok : Accounted s.zm) (ran : mgmtStep s event = some t) (unfit : ¬mgmtFits s event) :
    ¬Accounted t.zm := by
  apply doubledBreaks
  cases event with
  | request zone op accepted =>
    cases op with
    | open_ =>
      have twice : opensTwice s.zm zone accepted = true := eq_true_of_ne_false unfit
      dsimp only [mgmtStep] at ran
      split at ran
      · cases ran
        have imp := twice
        unfold opensTwice at imp
        rw [Bool.and_eq_true,decide_eq_true_eq] at imp
        exact ⟨zone,openDoubles twice ((ok.openedIs _).mpr (by rw [imp.2]; rfl)) ok.openedSlots ok.openedCount⟩
      · cases ran
    | close => exact absurd trivial unfit
    | finish => exact absurd trivial unfit
    | reset => exact absurd trivial unfit
    | other => exact absurd trivial unfit
  | search type answers =>
    obtain ⟨⟨u,zone⟩,found,same⟩ := Option.map_eq_some_iff.mp ran
    cases same
    exact searchDoubles ok (eq_true_of_ne_false unfit) found
  | complete blkaddr => exact absurd trivial unfit

/- From a state whose zones are accounted for, they stay so over a run exactly when
no open that the device takes is for a zone recorded as implicitly open. -/
theorem zonesStayAccounted {events : List MgmtEvent} (ok : Accounted s.zm) :
    Always (fun s => Accounted s.zm) mgmtStep s events ↔ Meets mgmtFits mgmtStep s events :=
  alwaysIff (fun s => Accounted s.zm) (fun _ ok => ok) (fun _ _ _ ok ran fits => mgmtStepKeeps ok ran fits)
    (fun _ _ _ ok ran unfit => mgmtStepFails ok ran unfit) ok

end

/- Three zones of two blocks, zone 0 implicitly open with the first block in use. -/
def openTable : ZoneSbi where
  zm :=
    { zoneSize := 16, zoneCapacity := 16, nrZones := 3, maxOpenZones := 2, maxActiveZones := 2
      nrType := fun _ => 0, limitType := fun _ => 1
      zoneInfo := fun zone =>
        { zoneId := zone, cond := if zone = 0 then .impOpen else .empty, start := zone * 16
          wp := zone * 16 + if zone = 0 then 8 else 0
          writeInflight := 0, dirty := false, zoneType := zoneTypeFree, vblocks := 0, validMap := fun _ => false }
      zoneOpened := [some 0,none], zoneOpenedCount := 1
      zoneActive := [some 0,none], zoneActiveCount := 1 }
  cpSemLocked := false
  cpcRestart := none

theorem openTableAccounted : Accounted openTable.zm := by
  have first : ∀ zone, (openIn openTable.zm zone).toNat = if zone = 0 then 1 else 0 := by
    intro zone
    change (if zone = 0 then ZoneCond.impOpen else .empty).isOpen.toNat = _
    split <;> rfl
  have second : ∀ zone, (activeIn openTable.zm zone).toNat = if zone = 0 then 1 else 0 := by
    intro zone
    change (if zone = 0 then ZoneCond.impOpen else .empty).isActive.toNat = _
    split <;> rfl
  have listed : ∀ zone : Nat, [some 0,none].count (some zone) = if zone = 0 then 1 else 0 := by
    intro zone
    by_cases zero : zone = 0
    · subst zero
      rfl
    · simp [zero,Ne.symm zero]
  rw [accountedIff]
  exact ⟨⟨rfl,fun zone => (listed zone).trans (first zone).symm,rfl⟩,⟨rfl,fun zone => (listed zone).trans (second zone).symm,rfl⟩⟩

/-- A search opens zone 2, which is then closed and reset. -/
theorem zonesStayAccountedReset :
    Always (fun s => Accounted s.zm) mgmtStep openTable
      [.search 4 [true],.request 2 .close true,.request 2 .reset true] := by
  rw [zonesStayAccounted openTableAccounted]
  intro first ran
  refine ⟨rfl,?_⟩
  intro second closed
  refine ⟨trivial,?_⟩
  intro third reset
  exact ⟨trivial,trivial⟩

/-- An open request for the implicitly open zone 0 puts it in a second slot. -/
theorem openListsTwice : ¬∀ (s : ZoneSbi) (events : List MgmtEvent), Accounted s.zm →
    Always (fun s => Accounted s.zm) mgmtStep s events := by
  intro claim
  have always := claim openTable [.request 0 .open_ true] openTableAccounted
  have after := alwaysHead (always.2 _ rfl)
  apply mgmtStepFails openTableAccounted (rfl : mgmtStep openTable (.request 0 .open_ true) = some _) ?_ after
  intro fits
  have twice : opensTwice openTable.zm 0 true = true := rfl
  exact Bool.noConfusion (twice.symm.trans fits)

end Xcpfs
