import Xcpfs.ZoneRoute

/-! `do_checkpoint` and the ZIT. The writes of a checkpoint may open zones at any point
of a pass; an open under the semaphore asks for another pass. A ZIT page is written
under its lock, so the device gets it as it is. -/
namespace Xcpfs

open EventRun

inductive CpPc where
  | idle
  | again
  | phaseOne
  | flushZit (i : Nat)
  | phaseTwo
  deriving DecidableEq, Repr

structure CpRun where
  sbi : ZoneSbi
  pc : CpPc
  /-- The zones of the writes in flight. -/
  flying : List Nat
  page : ZitFile
  pageDirty : Nat → Bool
  disk : Nat → Option ZitBlock
  /-- The zones taken from EMPTY and opened since the mount. -/
  opened : Nat → Bool
  /-- The tables since the end of the last `flush_zit`, the present one first. -/
  since : List ZmInfo

def zitPage (zone : Nat) : Nat := zone / zitEntryPerBlock + zitStart

def zeroZit : ZitBlock := fun _ => .zero

def passStart (zm : ZmInfo) (disk : Nat → Option ZitBlock) : CpRun where
  sbi := { zm := zm, cpSemLocked := false, cpcRestart := none }
  pc := .idle
  flying := []
  page := fun iblock => (disk iblock).getD zeroZit
  pageDirty := fun _ => false
  disk := disk
  opened := fun _ => false
  since := []

inductive PassEvent where
  | submit (ino iblock oldBlkaddr : Nat) (answers : List Bool)
  | complete (blkaddr : Nat)
  | invalidate (blkaddr : Nat)
  | restart
  | flush
  | flushZone
  | flushed
  | writeZit (iblock : Nat)
  | finish

/- From `flush_nat` on only pages of the meta inode and nodes of metadata nids are written. -/
def CpPc.writes : CpPc → PageType → Bool
  | .flushZit _,type | .phaseTwo,type => type = .metaData || type = .metaNode
  | _,_ => true

def takes (before after : ZmInfo) (zone : Nat) : Bool :=
  (before.zoneInfo zone).cond = .empty && (after.zoneInfo zone).cond = .expOpen

def passStep (s : CpRun) : PassEvent → Option CpRun
  | .submit ino iblock oldBlkaddr answers =>
    if s.pc.writes (getPageType ino iblock) then
      (allocZone .zoneAppend (getPageType ino iblock) oldBlkaddr answers s.sbi).map fun (sbi,new) =>
        { s with
          sbi := sbi
          flying := sbi.zm.blk2zone new :: s.flying
          opened := fun zone => s.opened zone || takes s.sbi.zm sbi.zm zone
          since := sbi.zm :: s.since }
    else none
  | .complete blkaddr =>
    if s.sbi.zm.blk2zone blkaddr ∈ s.flying then
      some { s with
        sbi := { s.sbi with zm := validateBlkaddr s.sbi.zm blkaddr }
        flying := s.flying.erase (s.sbi.zm.blk2zone blkaddr)
        since := validateBlkaddr s.sbi.zm blkaddr :: s.since }
    else none
  -- a truncate; the checkpoint itself makes none
  | .invalidate blkaddr =>
    if s.pc = .idle ∨ s.pc = .again then some { s with sbi := { s.sbi with zm := invalidateBlkaddr s.sbi.zm blkaddr } } else none
  -- a new `cpc` starts as one whose flag was just cleared
  | .restart =>
    if s.pc = .idle ∨ s.pc = .again then
      some { s with sbi := { s.sbi with cpSemLocked := true, cpcRestart := some false }, pc := .phaseOne }
    else none
  | .flush => if s.pc = .phaseOne ∧ s.flying = [] then some { s with pc := .flushZit 0 } else none
  | .flushZone =>
    match s.pc with
    | .flushZit i =>
      if i < s.sbi.zm.nrZones then
        let (zm,page) := flushZitEntry (s.sbi.zm,s.page) i
        let dirtied := (s.sbi.zm.zoneInfo i).dirty
        some { s with
          sbi := { s.sbi with zm := zm }
          page := page
          pageDirty := Function.update s.pageDirty (zitPage i) (s.pageDirty (zitPage i) || dirtied)
          pc := .flushZit (i + 1) }
      else none
    | _ => none
  | .flushed =>
    if s.pc = .flushZit s.sbi.zm.nrZones then some { s with pc := .phaseTwo, since := [s.sbi.zm] } else none
  | .writeZit iblock =>
    some { s with
      pageDirty := Function.update s.pageDirty iblock false
      disk := Function.update s.disk iblock (some (s.page iblock)) }
  -- phase 2 has waited for its writes, the ZIT pages among them
  | .finish =>
    if s.pc = .phaseTwo ∧ s.flying = [] ∧ ((List.range s.sbi.zm.nrZones).all fun zone => !s.pageDirty (zitPage zone)) then
      some { s with
        sbi := { s.sbi with cpSemLocked := false }
        pc := if s.sbi.cpcRestart = some true then .again else .idle }
    else none

/- The ZIT entry of a zone as the device holds it. -/
def diskEntry (s : CpRun) (zone : Nat) : Option ZitEntry := (s.disk (zitPage zone)).map fun ze => ze (zone % zitEntryPerBlock)

/- What a search for a zone of a type does to zones and to the flag of the checkpoint. -/
structure Searched (type : Nat) (s t : ZoneSbi) : Prop where
  locked : t.cpSemLocked = s.cpSemLocked
  nrZones : t.zm.nrZones = s.zm.nrZones
  keep : ∀ zone ≠ 0, (s.zm.zoneInfo zone).cond ≠ .empty → t.zm.zoneInfo zone = s.zm.zoneInfo zone
  take : ∀ zone ≠ 0, (s.zm.zoneInfo zone).cond = .empty → (t.zm.zoneInfo zone).cond = .empty ∨
    (t.zm.zoneInfo zone).cond = .expOpen ∧ (t.zm.zoneInfo zone).dirty = true ∧ zone < s.zm.nrZones ∧
      (t.zm.zoneInfo zone).zoneType = type
  zero : (s.zm.zoneInfo 0).cond ≠ .empty → (t.zm.zoneInfo 0).cond ≠ .empty
  typed : ∀ zone, t.zm.zoneInfo zone = s.zm.zoneInfo zone ∨ (t.zm.zoneInfo zone).zoneType = type
  flagged : s.cpSemLocked = true → t.cpcRestart = some true ∨ t = s

section
variable {s t u : ZoneSbi} {type zone : Nat} {accepted : Bool} {answers : List Bool}

theorem searchedRefl (s : ZoneSbi) : Searched type s s :=
  ⟨rfl,rfl,fun _ _ _ => rfl,fun _ _ empty => .inl empty,id,fun _ => .inl rfl,fun _ => .inr rfl⟩

theorem searchedTrans (first : Searched type s t) (second : Searched type t u) : Searched type s u := by
  refine ⟨second.locked.trans first.locked,second.nrZones.trans first.nrZones,?_,?_,fun used => second.zero (first.zero used),?_,?_⟩
  · intro zone notZero used
    have same := first.keep zone notZero used
    rw [← same] at used
    exact (second.keep zone notZero used).trans same
  · intro zone notZero empty
    obtain still | opened := first.take zone notZero empty
    · have later := second.take zone notZero still
      rwa [first.nrZones] at later
    · have used : (t.zm.zoneInfo zone).cond ≠ .empty := by
        rw [opened.1]
        decide
      rw [second.keep zone notZero used]
      exact .inr opened
  · intro zone
    obtain same | typed := second.typed zone
    · rw [same]
      exact first.typed zone
    · exact .inr typed
  · intro held
    obtain flag | same := second.flagged (first.locked.trans held)
    · exact .inl flag
    · rw [same]
      exact first.flagged held

theorem openEmptyMoves (ran : openEmpty type accepted s = some t) : t = s ∨
    t.cpSemLocked = s.cpSemLocked ∧ (s.cpSemLocked = true → t.cpcRestart = some true) := by
  unfold openEmpty at ran
  split at ran
  · dsimp only at ran
    split at ran
    · obtain ⟨_,_,same⟩ := Option.map_eq_some_iff.mp ran
      rw [← same]
      exact .inr ⟨rfl,fun _ => rfl⟩
    · rename_i free
      cases ran
      exact .inr ⟨rfl,fun held => absurd held free⟩
  · cases ran
    exact .inl rfl

theorem zoneOpenInfo (zm : ZmInfo) (zone : Nat) (accepted : Bool) :
    (xcpfsZoneOpen zm zone accepted).1.nrZones = zm.nrZones ∧
      (∀ other ≠ zone, (xcpfsZoneOpen zm zone accepted).1.zoneInfo other = zm.zoneInfo other) ∧
      ((xcpfsZoneOpen zm zone accepted).1.zoneInfo zone = zm.zoneInfo zone ∨
        (xcpfsZoneOpen zm zone accepted).1.zoneInfo zone = { zm.zoneInfo zone with cond := .expOpen, dirty := true }) := by
  cases takes : opensZone zm zone accepted with
  | false =>
    rw [zoneOpenSkips takes]
    exact ⟨rfl,fun _ _ => rfl,.inl rfl⟩
  | true =>
    rw [zoneOpenTakes takes]
    split
    · exact ⟨rfl,fun other away => Function.update_of_ne away ..,.inr (Function.update_self ..)⟩
    · exact ⟨rfl,fun other away => Function.update_of_ne away ..,.inr (Function.update_self ..)⟩

theorem passSearched (ok : Laid s.zm) (ran : openEmpty type accepted s = some t) : Searched type s t := by
  obtain same | ⟨locked,flag⟩ := openEmptyMoves ran
  · rw [same]
    exact searchedRefl s
  obtain ⟨_,full⟩ | ⟨_,zm,nrType,opened,same⟩ := openEmptyIs ran
  · unfold openEmpty at ran
    rw [if_neg full] at ran
    rw [← Option.some.inj ran]
    exact searchedRefl s
  obtain ⟨nrZones,there,here⟩ := zoneOpenInfo s.zm (getEmptyZone s.zm) accepted
  rw [← opened] at nrZones there here
  have place : getEmptyZone s.zm ≠ 0 → getEmptyZone s.zm < s.zm.nrZones ∧ (s.zm.zoneInfo (getEmptyZone s.zm)).cond = .empty := by
    intro notZero
    by_cases has : HasEmpty s.zm
    · exact (getEmptyFound ok has).2
    · exact absurd (getEmptyMissing has) notZero
  have other : ∀ zone ≠ getEmptyZone s.zm, t.zm.zoneInfo zone = s.zm.zoneInfo zone := by
    intro zone away
    rw [same]
    exact (Function.update_of_ne away ..).trans (there zone away)
  have self : t.zm.zoneInfo (getEmptyZone s.zm) = { zm.zoneInfo (getEmptyZone s.zm) with zoneType := type } := by
    rw [same]
    exact Function.update_self ..
  refine ⟨locked,?_,?_,?_,?_,?_,fun held => .inl (flag held)⟩
  · rw [same]
    exact nrZones
  · intro zone notZero used
    apply other
    intro at_
    subst at_
    exact used (place notZero).2
  · intro zone notZero empty
    by_cases at_ : zone = getEmptyZone s.zm
    · subst at_
      rw [self]
      obtain same | opened := here
      · rw [same]
        exact .inl empty
      · rw [opened]
        exact .inr ⟨rfl,rfl,(place notZero).1,rfl⟩
    · rw [other zone at_]
      exact .inl empty
  · intro used
    by_cases at_ : 0 = getEmptyZone s.zm
    · rw [at_] at used ⊢
      rw [self]
      obtain same | opened := here
      · rw [same]
        exact used
      · rw [opened]
        exact fun bad => ZoneCond.noConfusion bad
    · rw [other 0 at_]
      exact used
  · intro zone
    by_cases at_ : zone = getEmptyZone s.zm
    · subst at_
      rw [self]
      exact .inr rfl
    · exact .inl (other zone at_)

theorem searchSearched (ok : Laid s.zm) (ran : getZone type answers s = some (t,zone)) : Searched type s t := by
  refine (searchRelated (fun s t => Laid s.zm → Laid t.zm ∧ Searched type s t) ?_ ?_ ?_ ran ok).2
  · exact fun s ok => ⟨ok,searchedRefl s⟩
  · intro s t u first second ok
    obtain ⟨mid,before⟩ := first ok
    obtain ⟨last,after⟩ := second mid
    exact ⟨last,searchedTrans before after⟩
  · exact fun s t accepted opened ok => ⟨laidPass ok opened,passSearched ok opened⟩

end

/- The page of a zone has its type, and what is not on the device yet is marked dirty. -/
def Stored (s : CpRun) (zone : Nat) : Prop :=
  (s.page.entry zone).zoneType.val = (s.sbi.zm.zoneInfo zone).zoneType ∧
    (s.pageDirty (zitPage zone) = true ∨ s.disk (zitPage zone) = some (s.page (zitPage zone)))

/- The zones that the `flush_zit` of the pass has dealt with. -/
def CpPc.past : CpPc → Nat → Prop
  | .flushZit i,zone => zone < i
  | .phaseTwo,_ => True
  | _,_ => False

structure TypesKept (s : CpRun) : Prop where
  laid : Laid s.sbi.zm
  zero : (s.sbi.zm.zoneInfo 0).cond ≠ .empty
  locked : s.pc = .idle ∨ s.pc = .again ∨ s.sbi.cpSemLocked = true
  used : ∀ zone, s.opened zone = true → zone ≠ 0 ∧ zone < s.sbi.zm.nrZones ∧ (s.sbi.zm.zoneInfo zone).cond ≠ .empty
  typed : ∀ zone, s.opened zone = true → (s.sbi.zm.zoneInfo zone).zoneType < 64
  kept : ∀ zone, s.opened zone = true → (s.sbi.zm.zoneInfo zone).dirty = true ∨ Stored s zone
  past : s.sbi.cpcRestart ≠ some true → ∀ zone, s.opened zone = true → s.pc.past zone → Stored s zone

section
variable {s t : CpRun}

theorem pastLocked (kept : TypesKept s) {zone : Nat} (past : s.pc.past zone) : s.sbi.cpSemLocked = true := by
  obtain idle | again | locked := kept.locked
  · rw [idle] at past
    cases past
  · rw [again] at past
    cases past
  · exact locked

theorem typesTouch {zm : ZmInfo} (kept : TypesKept s) (laid : Laid zm) (nrZones : zm.nrZones = s.sbi.zm.nrZones)
    (same : ∀ zone, (zm.zoneInfo zone).zoneType = (s.sbi.zm.zoneInfo zone).zoneType ∧
      ((s.sbi.zm.zoneInfo zone).dirty = true → (zm.zoneInfo zone).dirty = true) ∧
      ((s.sbi.zm.zoneInfo zone).cond ≠ .empty → (zm.zoneInfo zone).cond ≠ .empty)) (flying : List Nat) (since : List ZmInfo) :
    TypesKept { s with sbi := { s.sbi with zm := zm }, flying := flying, since := since } := by
  have stored : ∀ zone, Stored s zone →
      Stored { s with sbi := { s.sbi with zm := zm }, flying := flying, since := since } zone := by
    intro zone stored
    exact ⟨stored.1.trans (same zone).1.symm,stored.2⟩
  refine ⟨laid,(same 0).2.2 kept.zero,kept.locked,?_,?_,?_,?_⟩
  · intro zone opened
    obtain ⟨notZero,inside,used⟩ := kept.used zone opened
    exact ⟨notZero,nrZones.symm ▸ inside,(same zone).2.2 used⟩
  · intro zone opened
    exact Nat.lt_of_le_of_lt (Nat.le_of_eq (same zone).1) (kept.typed zone opened)
  · intro zone opened
    exact (kept.kept zone opened).imp (same zone).2.1 (stored zone)
  · intro quiet zone opened past
    exact stored zone (kept.past quiet zone opened past)

theorem invalidateTypes (zm : ZmInfo) (blkaddr zone : Nat) :
    ((invalidateBlkaddr zm blkaddr).zoneInfo zone).zoneType = (zm.zoneInfo zone).zoneType ∧
      ((zm.zoneInfo zone).dirty = true → ((invalidateBlkaddr zm blkaddr).zoneInfo zone).dirty = true) ∧
      ((zm.zoneInfo zone).cond ≠ .empty → ((invalidateBlkaddr zm blkaddr).zoneInfo zone).cond ≠ .empty) := by
  refine setZoneEach (fun z zi => zi.zoneType = (zm.zoneInfo z).zoneType ∧ ((zm.zoneInfo z).dirty = true → zi.dirty = true) ∧
    ((zm.zoneInfo z).cond ≠ .empty → zi.cond ≠ .empty)) ?_ ?_ zone
  · exact fun _ => ⟨rfl,id,id⟩
  · exact ⟨rfl,fun _ => rfl,id⟩

theorem validateTypes (zm : ZmInfo) (blkaddr zone : Nat) :
    ((validateBlkaddr zm blkaddr).zoneInfo zone).zoneType = (zm.zoneInfo zone).zoneType ∧
      ((zm.zoneInfo zone).dirty = true → ((validateBlkaddr zm blkaddr).zoneInfo zone).dirty = true) ∧
      ((zm.zoneInfo zone).cond ≠ .empty → ((validateBlkaddr zm blkaddr).zoneInfo zone).cond ≠ .empty) := by
  refine ⟨validateType ..,?_,?_⟩
  · unfold validateBlkaddr
    dsimp only
    split
    · rw [removeOpenedInfo,removeActiveInfo]
      exact setZoneEach (fun z zi => (zm.zoneInfo z).dirty = true → zi.dirty = true) (fun _ => id) (fun _ => rfl) zone
    · exact setZoneEach (fun z zi => (zm.zoneInfo z).dirty = true → zi.dirty = true) (fun _ => id) (fun _ => rfl) zone
  · intro used
    obtain full | same := validateCond blkaddr zone
    · rw [full]
      decide
    · rwa [same]

theorem validateZones (zm : ZmInfo) (blkaddr : Nat) : (validateBlkaddr zm blkaddr).nrZones = zm.nrZones := by
  unfold validateBlkaddr
  dsimp only
  split <;> rfl

theorem typesSearch {type : Nat} {v : ZoneSbi} (kept : TypesKept s) (small : type < 64) (laid : Laid v.zm)
    (searched : Searched type s.sbi v) :
    TypesKept { s with sbi := v, opened := fun zone => s.opened zone || takes s.sbi.zm v.zm zone } := by
  have split_ : ∀ zone, (s.opened zone || takes s.sbi.zm v.zm zone) = true →
      s.opened zone = true ∧ v.zm.zoneInfo zone = s.sbi.zm.zoneInfo zone ∨
      v ≠ s.sbi ∧ zone ≠ 0 ∧ (v.zm.zoneInfo zone).cond = .expOpen ∧ (v.zm.zoneInfo zone).dirty = true ∧
        zone < s.sbi.zm.nrZones ∧ (v.zm.zoneInfo zone).zoneType = type := by
    intro zone opened
    obtain before | taken := Bool.or_eq_true_iff.mp opened
    · obtain ⟨notZero,_,used⟩ := kept.used zone before
      exact .inl ⟨before,searched.keep zone notZero used⟩
    · obtain ⟨empty,opened⟩ := Bool.and_eq_true_iff.mp taken
      have empty := of_decide_eq_true empty
      have opened := of_decide_eq_true opened
      have notZero : zone ≠ 0 := by
        intro zero
        rw [zero] at empty
        exact kept.zero empty
      right
      refine ⟨?_,notZero,opened,?_⟩
      · intro same
        rw [same,empty] at opened
        cases opened
      · obtain still | taken := searched.take zone notZero empty
        · rw [opened] at still
          cases still
        · exact taken.2
  refine ⟨laid,searched.zero kept.zero,?_,?_,?_,?_,?_⟩
  · exact kept.locked.imp_right fun other => other.imp_right searched.locked.trans
  · intro zone opened
    obtain ⟨before,same⟩ | ⟨_,notZero,now,_,inside,_⟩ := split_ zone opened
    · obtain ⟨notZero,inside,used⟩ := kept.used zone before
      exact ⟨notZero,searched.nrZones.symm ▸ inside,fun empty => used (same ▸ empty)⟩
    · refine ⟨notZero,searched.nrZones.symm ▸ inside,?_⟩
      intro empty
      rw [now] at empty
      cases empty
  · intro zone opened
    obtain ⟨before,same⟩ | ⟨_,_,_,_,_,typed⟩ := split_ zone opened
    · rw [same]
      exact kept.typed zone before
    · rw [typed]
      exact small
  · intro zone opened
    obtain ⟨before,same⟩ | ⟨_,_,_,dirty,_⟩ := split_ zone opened
    · unfold Stored
      rw [same]
      exact kept.kept zone before
    · exact .inl dirty
  · intro quiet zone opened past
    have locked := pastLocked kept past
    obtain flag | still := searched.flagged locked
    · exact absurd flag quiet
    · obtain ⟨before,same⟩ | ⟨moved,_⟩ := split_ zone opened
      · rw [still] at quiet
        have stored := kept.past quiet zone before past
        unfold Stored
        rw [same]
        exact stored
      · exact absurd still moved

theorem typesSubmit {ino iblock oldBlkaddr new : Nat} {answers : List Bool} {u : ZoneSbi} (kept : TypesKept s)
    (ran : allocZone .zoneAppend (getPageType ino iblock) oldBlkaddr answers s.sbi = some (u,new)) :
    TypesKept { s with
      sbi := u
      flying := u.zm.blk2zone new :: s.flying
      opened := fun zone => s.opened zone || takes s.sbi.zm u.zm zone
      since := u.zm :: s.since } := by
  obtain ⟨v,zone,same,_,blocks,chosen⟩ := allocZoneIs ran
  have found : Laid v.zm ∧ Searched (getPageType ino iblock).code s.sbi v := by
    by_cases searches : Searches s.sbi.zm oldBlkaddr
    · have chosen := chosen.1 searches
      exact ⟨laidSearch kept.laid chosen,searchSearched kept.laid chosen⟩
    · rw [(chosen.2 searches).1]
      exact ⟨kept.laid,searchedRefl s.sbi⟩
  have small : (getPageType ino iblock).code < 64 := by
    cases getPageType ino iblock <;> decide
  have before := typesSearch kept small found.1 found.2
  have conds : takes s.sbi.zm u.zm = takes s.sbi.zm v.zm := by
    funext z
    unfold takes
    rw [same,(invalidateSame v.zm oldBlkaddr z).1]
  rw [conds,same]
  exact typesTouch before (laidInvalidate found.1 oldBlkaddr) rfl (invalidateTypes v.zm oldBlkaddr) _ _

/- One zone of `flush_zit`: its entry goes to the page, which is dirty then. -/
theorem typesFlush {i : Nat} (kept : TypesKept s) (at_ : s.pc = .flushZit i) :
    TypesKept { s with
      sbi := { s.sbi with zm := (flushZitEntry (s.sbi.zm,s.page) i).1 }
      page := (flushZitEntry (s.sbi.zm,s.page) i).2
      pageDirty := Function.update s.pageDirty (zitPage i) (s.pageDirty (zitPage i) || (s.sbi.zm.zoneInfo i).dirty)
      pc := .flushZit (i + 1) } := by
  have locked := kept.locked
  rw [at_] at locked
  have held : s.sbi.cpSemLocked = true := by
    obtain bad | bad | held := locked
    · cases bad
    · cases bad
    · exact held
  have before : ∀ zone < i + 1, zone ≠ i → s.pc.past zone := by
    intro zone below other
    rw [at_]
    exact Nat.lt_of_le_of_ne (Nat.le_of_lt_succ below) other
  cases dirty : (s.sbi.zm.zoneInfo i).dirty with
  | false =>
    have skips : flushZitEntry (s.sbi.zm,s.page) i = (s.sbi.zm,s.page) := if_pos dirty
    rw [skips,Bool.or_false,Function.update_eq_self]
    refine ⟨kept.laid,kept.zero,.inr (.inr held),kept.used,kept.typed,kept.kept,?_⟩
    intro quiet zone opened past
    by_cases here : zone = i
    · rw [here] at opened ⊢
      refine (kept.kept i opened).resolve_left ?_
      rw [dirty]
      decide
    · exact kept.past quiet zone opened (before zone past here)
  | true =>
    obtain ⟨zi,made⟩ : ∃ zi : ZoneInfo, zi = { s.sbi.zm.zoneInfo i with dirty := false } := ⟨_,rfl⟩
    obtain ⟨ze,entry⟩ : ∃ ze : ZitEntry, ze = (s.sbi.zm.zoneInfo i).store (s.page.entry i) := ⟨_,rfl⟩
    obtain ⟨page,paged⟩ : ∃ page : ZitFile, page =
      Function.update s.page (zitPage i) (Function.update (s.page (zitPage i)) (i % zitEntryPerBlock) ze) := ⟨_,rfl⟩
    have writes : flushZitEntry (s.sbi.zm,s.page) i = (s.sbi.zm.setZone i zi,page) := by
      rw [made,paged,entry]
      exact if_neg (by rw [dirty]; decide)
    rw [writes,Bool.or_true]
    have info : ∀ zone, ((s.sbi.zm.setZone i zi).zoneInfo zone).zoneType = (s.sbi.zm.zoneInfo zone).zoneType ∧
        ((s.sbi.zm.setZone i zi).zoneInfo zone).cond = (s.sbi.zm.zoneInfo zone).cond := by
      intro zone
      refine setZoneEach (fun z zi => zi.zoneType = (s.sbi.zm.zoneInfo z).zoneType ∧ zi.cond = (s.sbi.zm.zoneInfo z).cond) ?_ ?_ zone
      · exact fun _ => ⟨rfl,rfl⟩
      · rw [made]
        exact ⟨rfl,rfl⟩
    have self : page.entry i = ze := by
      unfold ZitFile.entry
      rw [paged,show i / zitEntryPerBlock + zitStart = zitPage i from rfl,Function.update_self,Function.update_self]
    have other : ∀ zone ≠ i, page.entry zone = s.page.entry zone := by
      intro zone away
      rw [paged]
      exact entryOther away ze
    have elsewhere : ∀ iblock ≠ zitPage i, page iblock = s.page iblock := by
      intro iblock away
      rw [paged,Function.update_of_ne away]
    -- the page of the zone is dirty now, the others are as before
    have stored : ∀ zone, s.opened zone = true → zone = i ∨ Stored s zone → Stored { s with
        sbi := { s.sbi with zm := s.sbi.zm.setZone i zi }, page := page
        pageDirty := Function.update s.pageDirty (zitPage i) true, pc := .flushZit (i + 1) } zone := by
      intro zone opened which
      constructor
      · change (page.entry zone).zoneType.val = ((s.sbi.zm.setZone i zi).zoneInfo zone).zoneType
        rw [(info zone).1]
        by_cases here : zone = i
        · subst here
          rw [self,entry]
          exact Nat.mod_eq_of_lt (kept.typed zone opened)
        · rw [other zone here]
          exact (which.resolve_left here).1
      · dsimp only
        by_cases same : zitPage zone = zitPage i
        · rw [same,Function.update_self]
          exact .inl rfl
        · rw [Function.update_of_ne same,elsewhere _ same]
          have away : zone ≠ i := fun here => same (congrArg zitPage here)
          exact (which.resolve_left away).2
    refine ⟨laidTouch kept.laid i ?_ ?_ ?_,?_,.inr (.inr held),?_,?_,?_,?_⟩
    · rw [made]
    · rw [made]
    · rw [made]
    · exact fun empty => kept.zero ((info 0).2.symm.trans empty)
    · intro zone opened
      obtain ⟨notZero,inside,used⟩ := kept.used zone opened
      exact ⟨notZero,inside,fun empty => used ((info zone).2.symm.trans empty)⟩
    · intro zone opened
      exact Nat.lt_of_le_of_lt (Nat.le_of_eq (info zone).1) (kept.typed zone opened)
    · intro zone opened
      by_cases here : zone = i
      · exact .inr (stored zone opened (.inl here))
      · obtain dirty | old := kept.kept zone opened
        · left
          change ((s.sbi.zm.setZone i zi).zoneInfo zone).dirty = true
          rwa [setZoneInfo,Function.update_of_ne here]
        · exact .inr (stored zone opened (.inr old))
    · intro quiet zone opened past
      by_cases here : zone = i
      · exact stored zone opened (.inl here)
      · exact stored zone opened (.inr (kept.past quiet zone opened (before zone past here)))

theorem passStepTypes (s : CpRun) (event : PassEvent) (next : CpRun) (kept : TypesKept s) (ran : passStep s event = some next) :
    TypesKept next := by
  cases event with
  | submit ino iblock oldBlkaddr answers =>
    dsimp only [passStep] at ran
    split at ran
    · obtain ⟨⟨u,new⟩,chosen,same⟩ := Option.map_eq_some_iff.mp ran
      rw [← same]
      exact typesSubmit kept chosen
    · cases ran
  | complete blkaddr =>
    dsimp only [passStep] at ran
    split at ran
    · rw [← Option.some.inj ran]
      exact typesTouch kept (laidValidate kept.laid blkaddr) (validateZones ..) (validateTypes s.sbi.zm blkaddr) _ _
    · cases ran
  | invalidate blkaddr =>
    dsimp only [passStep] at ran
    split at ran
    · rw [← Option.some.inj ran]
      exact typesTouch kept (laidInvalidate kept.laid blkaddr) rfl (invalidateTypes s.sbi.zm blkaddr) s.flying s.since
    · cases ran
  | restart =>
    dsimp only [passStep] at ran
    split at ran
    · rw [← Option.some.inj ran]
      exact ⟨kept.laid,kept.zero,.inr (.inr rfl),kept.used,kept.typed,kept.kept,fun _ _ _ past => past.elim⟩
    · cases ran
  | flush =>
    dsimp only [passStep] at ran
    split at ran
    · rename_i done
      have locked := kept.locked
      rw [done.1] at locked
      have held : s.sbi.cpSemLocked = true := by
        obtain bad | bad | held := locked
        · cases bad
        · cases bad
        · exact held
      rw [← Option.some.inj ran]
      exact ⟨kept.laid,kept.zero,.inr (.inr held),kept.used,kept.typed,kept.kept,fun _ _ _ past => absurd past (Nat.not_lt_zero _)⟩
    · cases ran
  | flushZone =>
    dsimp only [passStep] at ran
    split at ran
    · rename_i i at_
      split at ran
      · rw [← Option.some.inj ran]
        exact typesFlush kept at_
      · cases ran
    · cases ran
  | flushed =>
    dsimp only [passStep] at ran
    split at ran
    · rename_i at_
      have all : ∀ zone, s.opened zone = true → s.pc.past zone := by
        intro zone opened
        rw [at_]
        exact (kept.used zone opened).2.1
      have locked := kept.locked
      rw [at_] at locked
      have held : s.sbi.cpSemLocked = true := by
        obtain bad | bad | held := locked
        · cases bad
        · cases bad
        · exact held
      rw [← Option.some.inj ran]
      exact ⟨kept.laid,kept.zero,.inr (.inr held),kept.used,kept.typed,kept.kept,
        fun quiet zone opened _ => kept.past quiet zone opened (all zone opened)⟩
    · cases ran
  | writeZit iblock =>
    rw [← Option.some.inj ran]
    have stored : ∀ zone, Stored s zone → Stored { s with
        pageDirty := Function.update s.pageDirty iblock false
        disk := Function.update s.disk iblock (some (s.page iblock)) } zone := by
      intro zone stored
      refine ⟨stored.1,?_⟩
      dsimp only
      by_cases same : zitPage zone = iblock
      · rw [same,Function.update_self,Function.update_self]
        exact .inr rfl
      · rw [Function.update_of_ne same,Function.update_of_ne same]
        exact stored.2
    exact ⟨kept.laid,kept.zero,kept.locked,kept.used,kept.typed,fun zone opened => (kept.kept zone opened).imp_right (stored zone),
      fun quiet zone opened past => stored zone (kept.past quiet zone opened past)⟩
  | finish =>
    dsimp only [passStep] at ran
    split at ran
    · rw [← Option.some.inj ran]
      refine ⟨kept.laid,kept.zero,?_,kept.used,kept.typed,kept.kept,?_⟩
      · dsimp only
        split
        · exact .inr (.inl rfl)
        · exact .inl rfl
      · intro _ zone _ past
        dsimp only at past
        split at past <;> cases past
    · cases ran

/- When a checkpoint returns, the device holds the type of every zone that was taken
from EMPTY and opened since the mount, whatever passes it took. -/
theorem checkpointKeepsTypes {mem : RawMemory} {bdev : BlockDevice} {blocks : Nat} {disk : Nat → Option ZitBlock}
    {zm : ZmInfo} {events : List PassEvent} (reported : Reported bdev blocks) (superBlock : (bdev.zones 0).cond ≠ .empty)
    (mounted : mountOver mem bdev disk = some zm) (run : exec passStep (passStart zm disk) events = some s)
    (ran : passStep s .finish = some t) (returns : t.pc = .idle) (zone : Nat) (opened : t.opened zone = true) :
    ∃ ze, diskEntry t zone = some ze ∧ ze.zoneType.val = (t.sbi.zm.zoneInfo zone).zoneType := by
  have mounted := mountMounted reported mounted
  have start : TypesKept (passStart zm disk) := by
    refine ⟨mounted.laid,?_,.inl rfl,?_,?_,?_,?_⟩
    · change (zm.zoneInfo 0).cond ≠ .empty
      rw [mounted.cond,if_pos reported.zones]
      exact superBlock
    · exact fun _ bad => Bool.noConfusion bad
    · exact fun _ bad => Bool.noConfusion bad
    · exact fun _ bad => Bool.noConfusion bad
    · exact fun _ _ bad => Bool.noConfusion bad
  have kept := EventRun.execInvariant TypesKept (fun s event next kept ran => passStepTypes s event next kept ran) run start
  dsimp only [passStep] at ran
  split at ran
  · rename_i done
    obtain ⟨at_,_,clean⟩ := done
    rw [← Option.some.inj ran] at returns opened ⊢
    have quiet : s.sbi.cpcRestart ≠ some true := by
      intro flag
      rw [flag] at returns
      cases returns
    have stored := kept.past quiet zone opened (by rw [at_]; trivial)
    have page := List.all_eq_true.mp clean zone (List.mem_range.mpr (kept.used zone opened).2.1)
    have written := stored.2.resolve_left (by rw [Bool.not_eq_true'] at page; rw [page]; decide)
    refine ⟨s.page (zitPage zone) (zone % zitEntryPerBlock),?_,stored.1⟩
    unfold diskEntry
    dsimp only
    rw [written]
    rfl
  · cases ran

end

def zitPass : List PassEvent := [.restart,.flush] ++ List.replicate 8 .flushZone ++ [.flushed]

/- The ZIT page of the first pass opens zone 4, so there is a second pass. -/
def flushTwice : List PassEvent :=
  [.submit 7 0 0 [true],.complete 8] ++ zitPass ++ [.submit metaIno 600000 0 [true],.complete 16,.writeZit 600000,.finish] ++
    zitPass ++ [.submit metaIno 600000 16 [],.complete 17,.writeZit 600000]

theorem flushTwiceReturns : ∃ s t, exec passStep (passStart mkfsTable fun _ => none) flushTwice = some s ∧
    passStep s .finish = some t ∧ t.pc = .idle ∧ t.opened 4 = true := by
  have runs : ((exec passStep (passStart mkfsTable fun _ => none) flushTwice).bind fun s => passStep s .finish).any
      (fun t => t.pc = .idle && t.opened 4) = true := by decide +kernel
  obtain ⟨t,whole,done⟩ := (Option.any_eq_true ..).mp runs
  obtain ⟨s,run,ran⟩ := Option.bind_eq_some_iff.mp whole
  obtain ⟨returns,opened⟩ := Bool.and_eq_true_iff.mp done
  exact ⟨s,t,run,ran,of_decide_eq_true returns,opened⟩

/-- The second pass stores the type of zone 4. -/
theorem checkpointKeepsTypesTwice : ∃ t, (exec passStep (passStart mkfsTable fun _ => none) flushTwice).bind (passStep · .finish) = some t ∧
    ∃ ze, diskEntry t 4 = some ze ∧ ze.zoneType.val = (t.sbi.zm.zoneInfo 4).zoneType := by
  obtain ⟨s,t,run,ran,returns,opened⟩ := flushTwiceReturns
  exact ⟨t,Option.bind_eq_some_iff.mpr ⟨s,run,ran⟩,
    checkpointKeepsTypes mkfsReported (by decide) mkfsMounts run ran returns 4 opened⟩

end Xcpfs
