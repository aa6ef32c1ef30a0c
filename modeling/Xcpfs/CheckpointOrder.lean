import Xcpfs.Checkpoint

/-! The order of a checkpoint: `flush_zit` stores what is known of the zones, and only
metadata is written after it. Zones of regular blocks stay as stored as long as no
metadata page lives in one. -/
namespace Xcpfs

open EventRun

def Regular (zm : ZmInfo) (zone : Nat) : Prop :=
  (zm.zoneInfo zone).zoneType = PageType.regNode.code ∨ (zm.zoneInfo zone).zoneType = PageType.regData.code

def SameMap (before after : ZmInfo) (zone : Nat) : Prop :=
  (after.zoneInfo zone).validMap = (before.zoneInfo zone).validMap ∧ (after.zoneInfo zone).vblocks = (before.zoneInfo zone).vblocks ∧
    (after.zoneInfo zone).dirty = (before.zoneInfo zone).dirty

/- In the part of a pass that writes metadata only. -/
def CpPc.late : CpPc → Bool
  | .flushZit _ | .phaseTwo => true
  | _ => false

/- What is written then does not replace a block of a zone for regular blocks. -/
def orderFits (s : CpRun) : PassEvent → Prop
  | .submit _ _ oldBlkaddr _ => s.pc.late = true → ¬Regular s.sbi.zm (s.sbi.zm.blk2zone oldBlkaddr)
  | _ => True

structure Steady (s : CpRun) : Prop where
  laid : Laid s.sbi.zm
  flying : s.pc.late = true → ∀ zone ∈ s.flying, ¬Regular s.sbi.zm zone
  since : s.pc = .phaseTwo → ∀ before ∈ s.since, ∀ zone, Regular s.sbi.zm zone → SameMap before s.sbi.zm zone

section
variable {s t : CpRun} {zm : ZmInfo}

theorem sameMapRefl (zm : ZmInfo) (zone : Nat) : SameMap zm zm zone := ⟨rfl,rfl,rfl⟩

theorem steadyMove (steady : Steady s) {sbi : ZoneSbi} (laid : Laid sbi.zm) {flying : List Nat} {opened : Nat → Bool}
    (same : s.pc.late = true → ∀ zone, Regular sbi.zm zone → sbi.zm.zoneInfo zone = s.sbi.zm.zoneInfo zone)
    (flies : s.pc.late = true → ∀ zone ∈ flying, ¬Regular sbi.zm zone) :
    Steady { s with sbi := sbi, flying := flying, opened := opened, since := sbi.zm :: s.since } := by
  refine ⟨laid,flies,?_⟩
  intro phase before member zone regular
  have late : s.pc.late = true := by
    rw [show s.pc = .phaseTwo from phase]
    rfl
  obtain now | earlier := List.mem_cons.mp member
  · rw [now]
    exact sameMapRefl ..
  · have unchanged := same late zone regular
    have was : Regular s.sbi.zm zone := by
      unfold Regular
      rw [← unchanged]
      exact regular
    have old := steady.since phase before earlier zone was
    unfold SameMap
    dsimp only
    rw [unchanged]
    exact old

theorem metaNotRegular {type : PageType} {pc : CpPc} (late : pc.late = true) (writes : pc.writes type = true)
    {zone : Nat} (typed : (zm.zoneInfo zone).zoneType = type.code) : ¬Regular zm zone := by
  have metadata : type = .metaData ∨ type = .metaNode := by
    cases pc with
    | idle => cases late
    | again => cases late
    | phaseOne => cases late
    | flushZit i => exact (Bool.or_eq_true_iff.mp writes).imp of_decide_eq_true of_decide_eq_true
    | phaseTwo => exact (Bool.or_eq_true_iff.mp writes).imp of_decide_eq_true of_decide_eq_true
  unfold Regular
  rw [typed]
  obtain same | same := metadata <;> rw [same] <;> decide

theorem submitSteady {ino iblock oldBlkaddr new : Nat} {answers : List Bool} {u : ZoneSbi} {opened : Nat → Bool} (steady : Steady s)
    (writes : s.pc.writes (getPageType ino iblock) = true) (fits : orderFits s (.submit ino iblock oldBlkaddr answers))
    (ran : allocZone .zoneAppend (getPageType ino iblock) oldBlkaddr answers s.sbi = some (u,new)) :
    Steady { s with sbi := u, flying := u.zm.blk2zone new :: s.flying, opened := opened, since := u.zm :: s.since } := by
  obtain ⟨v,zone,same,start,blocks,chosen⟩ := allocZoneIs ran
  have found : Laid v.zm ∧ (∀ z, v.zm.zoneInfo z = s.sbi.zm.zoneInfo z ∨ (v.zm.zoneInfo z).zoneType = (getPageType ino iblock).code) ∧
      ((v.zm.zoneInfo zone).zoneType = (getPageType ino iblock).code ∨ zone = s.sbi.zm.blk2zone oldBlkaddr) := by
    by_cases searches : Searches s.sbi.zm oldBlkaddr
    · have chosen := chosen.1 searches
      exact ⟨laidSearch steady.laid chosen,(searchSearched steady.laid chosen).typed,.inl (searchListed steady.laid chosen).2⟩
    · obtain ⟨stays,here⟩ := chosen.2 searches
      rw [stays]
      exact ⟨steady.laid,fun _ => .inl rfl,.inr here⟩
  obtain ⟨laid,typed,where_⟩ := found
  have place : u.zm.blk2zone new = zone := by
    rw [same,start]
    exact blk2zoneStart laid zone
  have types : ∀ z, (u.zm.zoneInfo z).zoneType = (v.zm.zoneInfo z).zoneType := by
    intro z
    rw [same]
    exact (invalidateSame v.zm oldBlkaddr z).2
  have searched : s.pc.late = true → ∀ z, Regular u.zm z → v.zm.zoneInfo z = s.sbi.zm.zoneInfo z := by
    intro late z regular
    refine (typed z).resolve_right fun metadata => ?_
    exact metaNotRegular late writes ((types z).trans metadata) regular
  have kept : s.pc.late = true → ∀ z, Regular u.zm z → u.zm.zoneInfo z = s.sbi.zm.zoneInfo z := by
    intro late z regular
    have before := searched late z regular
    have other : z ≠ v.zm.blk2zone oldBlkaddr := by
      intro here
      have old : z = s.sbi.zm.blk2zone oldBlkaddr := here.trans (blk2zoneSize blocks.size oldBlkaddr)
      apply fits late
      rw [← old]
      unfold Regular
      rw [← before,← types z]
      exact regular
    rw [same]
    exact (Function.update_of_ne other ..).trans before
  have was : s.pc.late = true → ∀ z, Regular u.zm z → Regular s.sbi.zm z := by
    intro late z regular
    unfold Regular
    rw [← kept late z regular]
    exact regular
  refine steadyMove steady ?_ kept ?_
  · rw [same]
    exact laidInvalidate laid oldBlkaddr
  · intro late z member
    obtain here | earlier := List.mem_cons.mp member
    · rw [here,place]
      obtain metadata | old := where_
      · exact metaNotRegular late writes ((types zone).trans metadata)
      · rw [old]
        exact fun regular => fits late (was late _ regular)
    · exact fun regular => steady.flying late z earlier (was late z regular)

theorem completeSteady {blkaddr : Nat} (steady : Steady s) (flies : s.sbi.zm.blk2zone blkaddr ∈ s.flying) :
    Steady { s with
      sbi := { s.sbi with zm := validateBlkaddr s.sbi.zm blkaddr }
      flying := s.flying.erase (s.sbi.zm.blk2zone blkaddr)
      since := validateBlkaddr s.sbi.zm blkaddr :: s.since } := by
  have types : ∀ zone, Regular (validateBlkaddr s.sbi.zm blkaddr) zone → Regular s.sbi.zm zone := by
    intro zone regular
    unfold Regular
    rw [← validateType]
    exact regular
  apply steadyMove steady (laidValidate steady.laid blkaddr)
  · intro late zone regular
    apply validateElse
    intro here
    exact steady.flying late _ flies (here ▸ types zone regular)
  · intro late zone member regular
    exact steady.flying late zone (List.mem_of_mem_erase member) (types zone regular)

theorem passStepSteady (s : CpRun) (event : PassEvent) (next : CpRun) (steady : Steady s) (fits : orderFits s event)
    (ran : passStep s event = some next) : Steady next := by
  have early : ∀ {pc : CpPc}, pc.late = false → ∀ {p : Prop}, pc.late = true → p := by
    intro pc early p late
    rw [early] at late
    cases late
  cases event with
  | submit ino iblock oldBlkaddr answers =>
    dsimp only [passStep] at ran
    split at ran
    · rename_i writes
      obtain ⟨⟨u,new⟩,chosen,same⟩ := Option.map_eq_some_iff.mp ran
      rw [← same]
      exact submitSteady steady writes fits chosen
    · cases ran
  | complete blkaddr =>
    dsimp only [passStep] at ran
    split at ran
    · rename_i flies
      rw [← Option.some.inj ran]
      exact completeSteady steady flies
    · cases ran
  | invalidate blkaddr =>
    dsimp only [passStep] at ran
    split at ran
    · rename_i between
      have notLate : s.pc.late = false := by
        obtain at_ | at_ := between <;> rw [at_] <;> rfl
      rw [← Option.some.inj ran]
      refine ⟨laidInvalidate steady.laid blkaddr,early notLate,?_⟩
      intro phase
      have late : s.pc.late = true := congrArg CpPc.late phase
      exact early notLate late
    · cases ran
  | restart =>
    dsimp only [passStep] at ran
    split at ran
    · rw [← Option.some.inj ran]
      exact ⟨steady.laid,early rfl,fun phase => CpPc.noConfusion phase⟩
    · cases ran
  | flush =>
    dsimp only [passStep] at ran
    split at ran
    · rename_i done
      rw [← Option.some.inj ran]
      refine ⟨steady.laid,?_,fun phase => CpPc.noConfusion phase⟩
      intro _ zone member
      dsimp only at member
      rw [done.2] at member
      cases member
    · cases ran
  | flushZone =>
    dsimp only [passStep] at ran
    split at ran
    · rename_i i at_
      split at ran
      · rw [← Option.some.inj ran]
        have types : ∀ zone, ((flushZitEntry (s.sbi.zm,s.page) i).1.zoneInfo zone).zoneType = (s.sbi.zm.zoneInfo zone).zoneType := by
          intro zone
          unfold flushZitEntry
          dsimp only
          split
          · rfl
          · refine setZoneEach (fun z zi => zi.zoneType = (s.sbi.zm.zoneInfo z).zoneType) (fun _ => rfl) ?_ zone
            rfl
        refine ⟨?_,?_,fun phase => CpPc.noConfusion phase⟩
        · dsimp only
          unfold flushZitEntry
          dsimp only
          split
          · exact steady.laid
          · apply laidTouch steady.laid <;> rfl
        · intro _ zone member regular
          unfold Regular at regular
          dsimp only at regular
          rw [types zone] at regular
          exact steady.flying (congrArg CpPc.late at_) zone member regular
      · cases ran
    · cases ran
  | flushed =>
    dsimp only [passStep] at ran
    split at ran
    · rename_i at_
      rw [← Option.some.inj ran]
      refine ⟨steady.laid,fun _ => steady.flying (congrArg CpPc.late at_),?_⟩
      intro _ before member zone _
      rw [List.mem_singleton.mp member]
      exact sameMapRefl ..
    · cases ran
  | writeZit iblock =>
    rw [← Option.some.inj ran]
    exact ⟨steady.laid,steady.flying,steady.since⟩
  | finish =>
    dsimp only [passStep] at ran
    split at ran
    · rw [← Option.some.inj ran]
      have notLate : (if s.sbi.cpcRestart = some true then CpPc.again else .idle).late = false := by
        split <;> rfl
      refine ⟨steady.laid,early notLate,?_⟩
      intro phase
      have late : (if s.sbi.cpcRestart = some true then CpPc.again else .idle).late = true := congrArg CpPc.late phase
      exact early notLate late
    · cases ran

/- In every run in which no write of phase 2 replaces a block in a zone for regular
blocks, all tables since the last `flush_zit` agree on those zones. -/
theorem phaseTwoKeepsRegular {mem : RawMemory} {bdev : BlockDevice} {blocks : Nat} {disk : Nat → Option ZitBlock}
    {events : List PassEvent} (reported : Reported bdev blocks) (mounted : mountOver mem bdev disk = some zm)
    (run : Run orderFits passStep (passStart zm disk) events s) (ran : passStep s .finish = some t) :
    ∀ before ∈ t.since, ∀ zone, Regular t.sbi.zm zone → SameMap before t.sbi.zm zone := by
  have start : Steady (passStart zm disk) :=
    ⟨(mountMounted reported mounted).laid,fun late => Bool.noConfusion late,fun phase => CpPc.noConfusion phase⟩
  have steady := EventRun.invariant Steady passStepSteady run start
  dsimp only [passStep] at ran
  split at ran
  · rename_i done
    rw [← Option.some.inj ran]
    exact steady.since done.1
  · cases ran

end

/-- A pass that writes the ZIT page into a new zone. -/
theorem phaseTwoKeepsRegularZit : ∃ s t, exec passStep (passStart mkfsTable fun _ => none) zitPass = some s ∧
    exec passStep s [.submit metaIno 600000 0 [true],.complete 8,.writeZit 600000,.finish] = some t ∧
      ∀ before ∈ t.since, ∀ zone, Regular t.sbi.zm zone → SameMap before t.sbi.zm zone := by
  have runs : (exec passStep (passStart mkfsTable fun _ => none) zitPass).any (fun s => (s.sbi.zm.zoneInfo 0).zoneType = 0 &&
      (exec passStep s [.submit metaIno 600000 0 [true],.complete 8,.writeZit 600000,.finish]).isSome) = true := by decide +kernel
  obtain ⟨s,first,done⟩ := (Option.any_eq_true ..).mp runs
  obtain ⟨free,more⟩ := Bool.and_eq_true_iff.mp done
  obtain ⟨t,rest⟩ := Option.isSome_iff_exists.mp more
  have quiet : ∀ event ∈ zitPass, ∀ s, orderFits s event := by
    intro event member s
    simp only [zitPass,List.replicate,List.cons_append,List.nil_append,List.mem_cons,List.not_mem_nil,or_false] at member
    obtain same | same | same | same | same | same | same | same | same | same | same := member <;> rw [same] <;> trivial
  obtain ⟨first',opened,rest⟩ := Option.bind_eq_some_iff.mp rest
  obtain ⟨second,completed,rest⟩ := Option.bind_eq_some_iff.mp rest
  obtain ⟨third,stored,rest⟩ := Option.bind_eq_some_iff.mp rest
  obtain ⟨last,finished,same⟩ := Option.bind_eq_some_iff.mp rest
  cases same
  have fits : orderFits s (.submit metaIno 600000 0 [true]) := by
    intro _ regular
    unfold Regular at regular
    rw [show s.sbi.zm.blk2zone 0 = 0 from Nat.zero_div _,of_decide_eq_true free] at regular
    obtain bad | bad := regular <;> cases bad
  have run : Run orderFits passStep (passStart mkfsTable fun _ => none) 
      (zitPass ++ [.submit metaIno 600000 0 [true],.complete 8,.writeZit 600000]) third :=
    EventRun.append (ofExec first (guardedAll quiet _))
      (.cons fits opened (.cons trivial completed (EventRun.single trivial stored)))
  refine ⟨s,t,first,?_,phaseTwoKeepsRegular mkfsReported mkfsMounts run finished⟩
  exact Option.bind_eq_some_iff.mpr ⟨first',opened,Option.bind_eq_some_iff.mpr ⟨second,completed,
    Option.bind_eq_some_iff.mpr ⟨third,stored,Option.bind_eq_some_iff.mpr ⟨t,finished,rfl⟩⟩⟩⟩

/- The last pass of a checkpoint that also finds the root inode dirty. -/
def flushRoot : List PassEvent := flushTwice ++ [.submit nodeIno rootIno 20 [],.complete 21]

/-- The root inode is a metadata node, and its block is in zone 5. -/
theorem rootInodeMovesRegular : ¬∀ (events : List PassEvent) (s t : CpRun),
    exec passStep (passStart mkfsTable fun _ => none) events = some s → passStep s .finish = some t → t.pc = .idle →
      ∀ before ∈ t.since, ∀ zone, Regular t.sbi.zm zone → SameMap before t.sbi.zm zone := by
  intro claim
  have runs : ((exec passStep (passStart mkfsTable fun _ => none) flushRoot).bind fun s => passStep s .finish).any
      (fun t => t.pc = .idle && (t.sbi.zm.zoneInfo 5).zoneType = 3 &&
        t.since.any fun before => (t.sbi.zm.zoneInfo 5).dirty ≠ (before.zoneInfo 5).dirty) = true := by decide +kernel
  obtain ⟨t,whole,done⟩ := (Option.any_eq_true ..).mp runs
  obtain ⟨s,run,ran⟩ := Option.bind_eq_some_iff.mp whole
  obtain ⟨returns,moved⟩ := Bool.and_eq_true_iff.mp done
  obtain ⟨idle,typed⟩ := Bool.and_eq_true_iff.mp returns
  obtain ⟨before,member,differs⟩ := List.any_eq_true.mp moved
  have kept := claim flushRoot s t run ran (of_decide_eq_true idle) before member 5 (.inl (of_decide_eq_true typed))
  exact of_decide_eq_true differs kept.2.2

end Xcpfs
