import Xcpfs.Evict
import Xcpfs.DirTree
import Xcpfs.NatKnown

/-! One call of `xcpfs_mknod` or `xcpfs_mkdir`, with pages that may fail to be prepared:
the nid that `xcpfs_new_inode` takes, the parent's pages and link count, and what the
failing paths undo. -/
namespace Xcpfs

open CBytes PointerForest

/- What preparing the pages of one call answers: the parent's pages in the scan, the
page of the new entry, the pages of a new directory. `prep` is what it does to the NAT. -/
structure PageAccess where
  scan : Nat → Option Errno
  entry : Option Errno
  init : Nat → Option Errno
  prep : List PrepEvent

structure Making where
  io : IoState
  dir : Dir
  nlink : Int

/- `steps` is what `xcpfs_init_dir` and `xcpfs_add_link` answered, `ret` what the call returns. -/
structure Made where
  state : Making
  ino : Nat
  steps : Except Errno Unit
  ret : Except Errno Unit

def addScanWith (a : PageAccess) (dir : Dir) (name : List UInt8) (npages : Nat) : Nat → Nat → Nat → Except Errno Nat
  | 0,_,tar => .ok tar
  | count + 1,i,tar =>
    match a.scan i with
    | some err => .error err
    | none =>
      let tar := if entryIno (dir.page i) = 0 ∧ tar = npages then i else tar
      if sameName name (dir.page i) then .error .eexist
      else addScanWith a dir name npages count (i + 1) tar

/-- `xcpfs_add_link`. -/
def addLinkWith (a : PageAccess) (dir : Dir) (name : List UInt8) (ino : Nat) : Dir × Except Errno Unit :=
  match addScanWith a dir name dir.npages dir.npages 0 dir.npages with
  | .error err => (dir,.error err)
  | .ok tar =>
    match a.entry with
    | some err => (dir,.error err)
    | none => (commitWrite dir tar (linkPage (dir.page tar) name ino),.ok ())

/-- `xcpfs_init_dir`: page 0, then page 1. -/
def initDirWith (a : PageAccess) : Except Errno Unit :=
  match a.init 0,a.init 1 with
  | some err,_ => .error err
  | none,some err => .error err
  | none,none => .ok ()

/-- `xcpfs_new_inode`. The nid has no address, so its node page is zero when it is first read. -/
def xcpfsNewInode (s : IoState) (rounds : Nat) : Option (IoState × Nat) :=
  (allocFreeNat s.nat.file s.nat.nm false rounds).map fun (nm,ne) =>
    ({ s with nat := { s.nat with nm := nm.modify ne.nid NatUse.inode.mark } }.setImage ne.nid .zero,ne.nid)

def preparePages (s : IoState) (a : PageAccess) : Option IoState :=
  (EventRun.exec prepStep s.nat a.prep).map fun nat => { s with nat := nat }

/- `iput` of an inode whose link count has gone to 0. -/
def dropInode (ino : Nat) (attrs : RawInode) (reads : List Nat) (s : IoState) : Option IoState :=
  xcpfsEvictInode ⟨ino,{ attrs with iLinks := 0 },true⟩ reads s

inductive MakeCall where | mknod | mkdir
  deriving DecidableEq

structure MakeArgs where
  call : MakeCall
  name : Name
  attrs : RawInode
  access : PageAccess
  rounds : Nat
  reads : List Nat

/-- The steps that can fail. -/
def makeSteps (args : MakeArgs) (dir : Dir) (ino : Nat) : Dir × Except Errno Unit :=
  match args.call with
  | .mknod => addLinkWith args.access dir args.name.bytes ino
  | .mkdir =>
    match initDirWith args.access with
    | .error err => (dir,.error err)
    | .ok () => addLinkWith args.access dir args.name.bytes ino

/-- What follows them: `xcpfs_mknod` returns the error, `xcpfs_mkdir` goes to `fail` and returns 0. -/
def makeEnd (args : MakeArgs) (io : IoState) (ino : Nat) (nlink : Int) (dir : Dir) (steps : Except Errno Unit) : Option Made :=
  match steps with
  | .ok () => some ⟨⟨io,dir,nlink⟩,ino,steps,.ok ()⟩
  | .error err =>
    (dropInode ino args.attrs args.reads io).map fun io =>
      ⟨⟨io,dir,nlink⟩,ino,steps,match args.call with | .mknod => .error err | .mkdir => .ok ()⟩

def makeEntry (s : Making) (args : MakeArgs) : Option Made :=
  (xcpfsNewInode s.io args.rounds).bind fun (io,ino) =>
    (preparePages io args.access).bind fun io =>
      -- `xcpfs_mkdir` counts the new directory in its parent before anything can fail
      let nlink := match args.call with | .mknod => s.nlink | .mkdir => s.nlink + 1
      let (dir,steps) := makeSteps args s.dir ino
      makeEnd args io ino nlink dir steps

/- The nid is free again, or its entry is as `invalidate_nat` leaves one. -/
def NidReleased (nm : NatInfo) (nid : Nat) : Prop :=
  (∃ ne, nm.slot nid = some (false,ne)) ∨ ∃ ne, nm.slot nid = some (true,ne) ∧ ne.invalidated = ne

structure MakesClean (s : Making) (name : Name) (made : Made) : Prop where
  fails : ∀ err, made.steps = .error err → (∃ err, made.ret = .error err) ∧ made.state.dir = s.dir ∧
    made.state.nlink = s.nlink ∧ NidReleased made.state.io.nat.nm made.ino
  binds : made.ret = .ok () → xcpfsInodeByName made.state.dir name.bytes = made.ino

/- Every page can be prepared, the name is new, and the entry can be read back. -/
structure MakeFits (s : Making) (args : MakeArgs) (ino : Nat) : Prop where
  init : args.call = .mkdir → args.access.init 0 = none ∧ args.access.init 1 = none
  scan : ∀ i < s.dir.npages, args.access.scan i = none
  absent : ∀ i < s.dir.npages, sameName args.name.bytes (s.dir.page i) = false
  entry : args.access.entry = none
  reads : args.name.bytes.length < maxFnameLen ∨ ino % 256 = 0
  room : HasRoom s.dir

section
variable {a : PageAccess} {dir : Dir} {name : Name} {ino tar npages count start : Nat}

theorem addScanReads (reads : ∀ i, start ≤ i → i < start + count → a.scan i = none) :
    addScanWith a dir name.bytes npages count start tar = addScan dir name.bytes npages count start tar := by
  induction count generalizing start tar with
  | zero => rfl
  | succ count ih =>
    unfold addScanWith addScan
    rw [reads start (Nat.le_refl _) (by omega)]
    dsimp only
    split
    · rfl
    · exact ih fun i low high => reads i (by omega) (by omega)

theorem addScanUnread {i : Nat} {err : Errno} (low : start ≤ i) (high : i < start + count) (unread : a.scan i = some err) :
    ∃ err, addScanWith a dir name.bytes npages count start tar = .error err := by
  induction count generalizing start tar with
  | zero => omega
  | succ count ih =>
    unfold addScanWith
    cases here : a.scan start with
    | some err => exact ⟨err,rfl⟩
    | none =>
      dsimp only
      split
      · exact ⟨_,rfl⟩
      · have other : i ≠ start := by
          intro same
          rw [← same,unread] at here
          contradiction
        exact ih (by omega) (by omega)

/- `xcpfs_add_link` succeeds just if it can read every page, finds no such name and can
prepare the page of the entry. -/
theorem addLinkCases (a : PageAccess) (dir : Dir) (name : Name) (ino : Nat) :
    (∃ err, addLinkWith a dir name.bytes ino = (dir,.error err) ∧
      ¬((∀ i < dir.npages, a.scan i = none) ∧ (∀ i < dir.npages, sameName name.bytes (dir.page i) = false) ∧ a.entry = none)) ∨
    (∃ tar, addLinkWith a dir name.bytes ino = (commitWrite dir tar (linkPage (dir.page tar) name.bytes ino),.ok ()) ∧
      (∀ i < dir.npages, a.scan i = none) ∧ (∀ i < dir.npages, sameName name.bytes (dir.page i) = false) ∧ a.entry = none ∧
      (tar < dir.npages ∧ entryIno (dir.page tar) = 0 ∨ tar = dir.npages ∧ ∀ i < dir.npages, entryIno (dir.page i) ≠ 0)) := by
  unfold addLinkWith
  by_cases reads : ∀ i < dir.npages, a.scan i = none
  · rw [addScanReads fun i _ high => reads i (by omega)]
    obtain ⟨ran,i,_,inside,same⟩ | ⟨tar,ran,none_,slot,full⟩ :=
      addScanSpec dir name.bytes (.inl rfl) (Nat.le_of_eq (Nat.zero_add dir.npages))
    · rw [ran]
      refine .inl ⟨_,rfl,fun good => ?_⟩
      rw [Nat.zero_add] at inside
      rw [good.2.1 i inside] at same
      contradiction
    · rw [ran]
      rw [Nat.zero_add] at none_ full
      have absent : ∀ i < dir.npages, sameName name.bytes (dir.page i) = false := fun i inside => none_ i (Nat.zero_le _) inside
      cases writes : a.entry with
      | some err => exact .inl ⟨err,rfl,fun good => Option.some_ne_none err good.2.2⟩
      | none =>
        refine .inr ⟨tar,rfl,reads,absent,rfl,?_⟩
        rcases slot with last | free
        · exact .inr ⟨last,fun i inside => (full last).2 i (Nat.zero_le _) inside⟩
        · exact .inl free
  · obtain ⟨i,inside,unread⟩ : ∃ i, i < dir.npages ∧ a.scan i ≠ none := by
      by_contra all
      exact reads fun i inside => by_contra fun bad => all ⟨i,inside,bad⟩
    obtain ⟨err,some_⟩ := Option.ne_none_iff_exists'.mp unread
    obtain ⟨err,ran⟩ := @addScanUnread a dir name dir.npages dir.npages dir.npages 0 i err (Nat.zero_le _) (by omega) some_
    rw [ran]
    exact .inl ⟨err,rfl,fun good => reads good.1⟩

/- The new entry is found again just if its page counts and its name ends. -/
theorem linkFound (size : dir.iSize = dir.npages * 4096) (room : dir.npages < 2 ^ 19) (positive : 0 < ino) (int : ino < 2 ^ 31)
    (absent : ∀ i < dir.npages, sameName name.bytes (dir.page i) = false)
    (place : tar < dir.npages ∧ entryIno (dir.page tar) = 0 ∨ tar = dir.npages ∧ ∀ i < dir.npages, entryIno (dir.page i) ≠ 0) :
    xcpfsInodeByName (commitWrite dir tar (linkPage (dir.page tar) name.bytes ino)) name.bytes = ino ↔
      (name.bytes.length < maxFnameLen ∨ ino % 256 = 0) ∧ HasRoom dir := by
  obtain ⟨next,wrote⟩ : ∃ next, next = commitWrite dir tar (linkPage (dir.page tar) name.bytes ino) := ⟨_,rfl⟩
  rw [← wrote]
  have here : next.page tar = linkPage (dir.page tar) name.bytes ino := by rw [wrote]; exact Function.update_self ..
  have away : ∀ i, i ≠ tar → next.page i = dir.page i := fun i other => by rw [wrote]; exact Function.update_of_ne other ..
  have value : entryIno (next.page tar) = ino := by rw [here,linkPageIno _ _ _ (by omega)]
  have counted : (tar < next.npages ↔ HasRoom dir) ∧ ∀ i, i ≠ tar → i < next.npages → i < dir.npages := by
    rw [wrote]
    rcases place with ⟨inside,zero⟩ | ⟨last,full⟩
    · rw [commitNpages _ size room (.inl inside)]
      exact ⟨iff_of_true inside (.inl ⟨tar,inside,zero⟩),fun i _ small => small⟩
    · by_cases space : dir.npages < 2 ^ 19 - 1
      · rw [last,(commitGrows _ size space).2]
        exact ⟨iff_of_true (Nat.lt_succ_self _) (.inr space),fun i other small => by omega⟩
      · rw [commitNpages _ size room (.inr (by omega))]
        refine ⟨iff_of_false (by omega) fun more => ?_,fun i _ small => small⟩
        rcases more with ⟨i,inside,zero⟩ | more
        · exact full i inside zero
        · exact space more
  have reads : sameName name.bytes (next.page tar) = true ↔ name.bytes.length < maxFnameLen ∨ ino % 256 = 0 := by
    rw [here]
    exact linkPageSame _ _ _ name.fits
  unfold xcpfsInodeByName xcpfsFindEntry
  cases found : findScan next name.bytes next.npages 0 with
  | some i =>
    obtain ⟨_,inside,_,same⟩ := findScanFound found
    rw [Nat.zero_add] at inside
    have target : i = tar := by
      by_contra other
      rw [away i other,absent i (counted.2 i other inside)] at same
      contradiction
    rw [target] at same inside ⊢
    exact iff_of_true value ⟨reads.mp same,counted.1.mp inside⟩
  | none =>
    refine iff_of_false (fun zero => Nat.ne_of_gt positive zero.symm) fun fits => ?_
    have missed := findScanMissed found tar (Nat.zero_le _) (by rw [Nat.zero_add]; exact counted.1.mpr fits.2)
      (by rw [value]; exact Nat.ne_of_gt positive)
    rw [reads.mpr fits.1] at missed
    contradiction

end

section
variable {s t : IoState} {nid n ino : Nat}

theorem prepEntry {nat next : NatMount} {prep : List PrepEvent} {ne : NatEntry} (distinct : nat.nm.Distinct)
    (here : nat.nm.slot n = some (true,ne)) (ran : EventRun.exec prepStep nat prep = some next) :
    next.nm.Distinct ∧ next.nm.slot n = some (true,ne) := by
  refine EventRun.execInvariant (fun nat => nat.nm.Distinct ∧ nat.nm.slot n = some (true,ne)) ?_ ran ⟨distinct,here⟩
  intro nat event next ⟨distinct,here⟩ step
  cases event with
  | load iblock =>
    have kept := distinctBlock distinct (nat.file iblock) iblock
    have slot : (insertBlock nat.nm (nat.file iblock) iblock).slot n = some (true,ne) := by
      rw [slotBlock,here]
      exact Option.some_or ..
    have same : next.nm = insertBlock nat.nm (nat.file iblock) iblock := by rw [← Option.some.inj step]
    rw [same]
    exact ⟨kept,slot⟩
  | alloc isMeta use =>
    obtain ⟨⟨nm,taken⟩,found,same⟩ := Option.map_eq_some_iff.mp step
    cases same
    obtain ⟨was,_,_⟩ := @slotTake _ n _ _ _ distinct found
    have other : taken.nid ≠ n := by
      intro same
      rw [same,here] at was
      cases was
    refine ⟨distinctModify use.markNid (distinctTake distinct found),?_⟩
    dsimp only
    rw [slotModify use.markNid,if_neg other,(@slotTake _ n _ _ _ distinct found).2.2,if_neg other]
    exact here

/- What `xcpfs_new_inode` leaves: a regular nid with its entry in use and an empty node page. -/
structure NewInode (s : IoState) (ino : Nat) : Prop where
  distinct : s.nat.nm.Distinct
  regular : 3 ≤ ino
  entry : ∃ ne, s.nat.nm.slot ino = some (true,ne) ∧ ne.ino = ino
  page : s.nodes ino = .zero

theorem newInode {rounds : Nat} (distinct : s.nat.nm.Distinct) (ran : xcpfsNewInode s rounds = some (t,ino)) : NewInode t ino := by
  obtain ⟨⟨nm,ne⟩,found,same⟩ := Option.map_eq_some_iff.mp ran
  obtain ⟨loaded,loads,taken,_⟩ := allocRoundsLoad found
  cases same
  obtain ⟨_,kind,_⟩ := @slotTake _ 0 _ _ _ (loads.distinct distinct) taken
  have now : nm.slot ne.nid = some (true,ne) := by rw [(@slotTake _ ne.nid _ _ _ (loads.distinct distinct) taken).2.2,if_pos rfl]
  refine ⟨distinctModify (NatUse.markNid .inode) (distinctTake (loads.distinct distinct) taken),?_,⟨NatUse.inode.mark ne,?_,rfl⟩,?_⟩
  · rw [isMetaNid,decide_eq_false_iff_not,Nat.not_lt] at kind
    exact Nat.le_trans (by decide) kind
  · have slot := @slotModify nm ne.nid ne.nid _ (NatUse.markNid .inode)
    rw [if_pos rfl,now] at slot
    exact slot
  · unfold IoState.nodes IoState.setImage
    dsimp only
    rw [Function.update_self]
    rfl

theorem preparedInode {a : PageAccess} (new : NewInode s ino) (ran : preparePages s a = some t) : NewInode t ino := by
  obtain ⟨nat,prepared,same⟩ := Option.map_eq_some_iff.mp ran
  obtain ⟨ne,here,mark⟩ := new.entry
  obtain ⟨distinct,kept⟩ := prepEntry new.distinct here prepared
  rw [← same]
  exact ⟨distinct,new.regular,⟨ne,kept,mark⟩,new.page⟩

theorem dropKeepsNid {attrs : RawInode} {reads : List Nat} (new : NewInode s ino) (ran : dropInode ino attrs reads s = some t) :
    ¬NidReleased t.nat.nm ino := by
  obtain ⟨ne,here,mark⟩ := new.entry
  have regular := new.regular
  have tree : Owned nodeShape {ino} (child s.nodes) := by
    refine ownedChildless fun r member e => ?_
    rw [Set.mem_singleton_iff.mp member]
    unfold child
    rw [new.page]
    exact zeroChild e
  obtain ⟨ne',used⟩ := (evictUsed ran).1 ino ne here
  obtain ⟨u,again,entry⟩ := @evictEntry s ⟨ino,{ attrs with iLinks := 0 },true⟩ regular rfl tree reads
  cases ran.symm.trans again
  have same : ne' = ne := by
    unfold IoState.natEntry at entry
    dsimp only at entry
    rw [lookupNatEntry,lookupNatEntry,used,here] at entry
    simpa using entry
  rintro (⟨free,bad⟩ | ⟨last,found,cleared⟩)
  · rw [used] at bad
    cases bad
  · rw [used] at found
    cases found
    have zero : ne'.ino = 0 := (congrArg NatEntry.ino cleared).symm
    rw [same,mark] at zero
    omega

end

section
variable {s : Making} {args : MakeArgs} {made : Made}

/- The steps succeed just if every page can be prepared and the name is new. -/
theorem stepsCases (args : MakeArgs) (dir : Dir) (ino : Nat) :
    (∃ err, (makeSteps args dir ino).2 = .error err ∧
      ¬((args.call = .mkdir → args.access.init 0 = none ∧ args.access.init 1 = none) ∧ (∀ i < dir.npages, args.access.scan i = none) ∧
        (∀ i < dir.npages, sameName args.name.bytes (dir.page i) = false) ∧ args.access.entry = none)) ∨
    (∃ tar, makeSteps args dir ino = (commitWrite dir tar (linkPage (dir.page tar) args.name.bytes ino),.ok ()) ∧
      (args.call = .mkdir → args.access.init 0 = none ∧ args.access.init 1 = none) ∧ (∀ i < dir.npages, args.access.scan i = none) ∧
      (∀ i < dir.npages, sameName args.name.bytes (dir.page i) = false) ∧ args.access.entry = none ∧
      (tar < dir.npages ∧ entryIno (dir.page tar) = 0 ∨ tar = dir.npages ∧ ∀ i < dir.npages, entryIno (dir.page i) ≠ 0)) := by
  have linked := addLinkCases args.access dir args.name ino
  unfold makeSteps
  cases call : args.call with
  | mknod =>
    rcases linked with ⟨err,ran,bad⟩ | ⟨tar,ran,good⟩
    · exact .inl ⟨err,by rw [ran],fun all => bad all.2⟩
    · exact .inr ⟨tar,ran,fun none_ => by contradiction,good⟩
  | mkdir =>
    dsimp only
    cases init : initDirWith args.access with
    | error err =>
      refine .inl ⟨err,rfl,fun all => ?_⟩
      obtain ⟨first,second⟩ := all.1 rfl
      rw [initDirWith,first,second] at init
      contradiction
    | ok _ =>
      have pages : args.access.init 0 = none ∧ args.access.init 1 = none := by
        unfold initDirWith at init
        split at init
        · contradiction
        · contradiction
        · exact ⟨by assumption,by assumption⟩
      dsimp only
      rcases linked with ⟨err,ran,bad⟩ | ⟨tar,ran,good⟩
      · exact .inl ⟨err,by rw [ran],fun all => bad all.2⟩
      · exact .inr ⟨tar,ran,fun _ => pages,good⟩

/- A call is clean exactly if all its pages can be prepared, the name is new and the
entry can be read back: no failing path is. -/
theorem makeEntryClean (distinct : s.io.nat.nm.Distinct) (size : s.dir.iSize = s.dir.npages * 4096) (room : s.dir.npages < 2 ^ 19)
    (ran : makeEntry s args = some made) (int : made.ino < 2 ^ 31) :
    MakesClean s args.name made ↔ MakeFits s args made.ino := by
  obtain ⟨⟨io,ino⟩,taken,rest⟩ := Option.bind_eq_some_iff.mp ran
  obtain ⟨ready,prepared,last⟩ := Option.bind_eq_some_iff.mp rest
  have new := preparedInode (newInode distinct taken) prepared
  have regular := new.regular
  dsimp only at last
  rcases stepsCases args s.dir ino with ⟨err,failed,bad⟩ | ⟨tar,done,init,scan,absent,entry,place⟩
  · generalize makeSteps args s.dir ino = result at failed last
    obtain ⟨dir,steps⟩ := result
    change steps = .error err at failed
    rw [failed] at last
    obtain ⟨io,dropped,same⟩ := Option.map_eq_some_iff.mp last
    rw [← same]
    refine iff_of_false (fun clean => ?_) fun fits => bad ⟨fits.init,fits.scan,fits.absent,fits.entry⟩
    exact dropKeepsNid new dropped (clean.fails err rfl).2.2.2
  · rw [done] at last
    have same := Option.some.inj last
    rw [← same] at int ⊢
    have found := @linkFound s.dir args.name ino tar size room (by omega) int absent place
    constructor
    · intro clean
      obtain ⟨reads,space⟩ := found.mp (clean.binds rfl)
      exact ⟨init,scan,absent,entry,reads,space⟩
    · intro fits
      exact ⟨fun err bad => by contradiction,fun _ => found.mpr ⟨fits.reads,fits.room⟩⟩

end
def letterA : Name := ⟨[97],by simp,by decide,by decide,by decide,by decide⟩

/- An empty root and the two regular nids that are taken first. -/
def emptyRoot : Making where
  io := { emptyFile with nat := ⟨⟨[],[⟨false,false,2730454,0,0⟩,⟨false,false,2730453,0,0⟩]⟩,fun _ _ => ⟨0,0⟩,[]⟩ }
  dir := xcpfsInitDir rootIno
  nlink := 2

def mkdirA : MakeArgs := ⟨.mkdir,letterA,.zero,⟨fun _ => none,none,fun _ => none,[]⟩,0,[]⟩

/-- A directory "a" is made in the empty root, and found there. -/
theorem makeEntryCleanOnce : ∃ made, makeEntry emptyRoot mkdirA = some made ∧ MakesClean emptyRoot letterA made := by
  have runs : ((makeEntry emptyRoot mkdirA).any fun made => made.ino = 2730454) = true := by decide +kernel
  obtain ⟨made,ran,value⟩ := (Option.any_eq_true _ _).mp runs
  have ino : made.ino = 2730454 := of_decide_eq_true value
  obtain ⟨size,count,first,second⟩ := initDirPages rootIno
  have size : emptyRoot.dir.iSize = emptyRoot.dir.npages * 4096 := size.trans (congrArg (fun n : Nat => (n : Int) * 4096) count.symm)
  have room : emptyRoot.dir.npages < 2 ^ 19 := Nat.lt_of_le_of_lt (Nat.le_of_eq count) (by decide)
  have absent : ∀ i < emptyRoot.dir.npages, sameName letterA.bytes (emptyRoot.dir.page i) = false := by
    intro i inside
    match i,Nat.lt_of_lt_of_eq inside count with
    | 0,_ => decide +kernel
    | 1,_ => decide +kernel
  have distinct : emptyRoot.io.nat.nm.Distinct := by
    unfold NatInfo.Distinct
    decide
  have clean := makeEntryClean distinct size room ran (by rw [ino]; decide)
  exact ⟨made,ran,clean.mpr ⟨fun _ => ⟨rfl,rfl⟩,fun _ _ => rfl,absent,rfl,.inl (by decide),.inr (Nat.lt_of_le_of_lt (Nat.le_of_eq count) (by decide))⟩⟩

/-- "a" is made a second time: the parent has the name, and the call returns 0 all the same. -/
theorem mkdirHidesFailure : ∃ first second, makeEntry emptyRoot mkdirA = some first ∧ makeEntry first.state mkdirA = some second ∧
    second.steps = .error .eexist ∧ second.ret = .ok () ∧ second.state.nlink = first.state.nlink + 1 ∧
      ¬MakesClean first.state letterA second := by
  have runs : ((makeEntry emptyRoot mkdirA).any fun first => (makeEntry first.state mkdirA).any fun second =>
      decide (second.steps = .error .eexist) && (decide (second.ret = .ok ()) &&
        decide (second.state.nlink = first.state.nlink + 1))) = true := by
    decide +kernel
  obtain ⟨first,made,again⟩ := (Option.any_eq_true _ _).mp runs
  obtain ⟨second,ran,value⟩ := (Option.any_eq_true _ _).mp again
  simp only [Bool.and_eq_true,decide_eq_true_eq] at value
  obtain ⟨failed,hidden,counted⟩ := value
  refine ⟨first,second,made,ran,failed,hidden,counted,fun clean => ?_⟩
  obtain ⟨⟨err,reported⟩,_⟩ := clean.fails _ failed
  have same := hidden.symm.trans reported
  cases same

end Xcpfs
