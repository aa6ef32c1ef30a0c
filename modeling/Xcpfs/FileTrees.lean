import Xcpfs.FilePages

/-! The tree of one inode while a mount goes on. Every step that neither cuts this inode nor stores
one of its block pointers leaves its blocks where they are, and its dnodes where they are found. -/
namespace Xcpfs
open PointerForest EventRun

structure FileKept (ino : Nat) (s t : Fs) : Prop where
  paths : ∀ q n, NodePlace q → follow (child s.content) ino q = some n → follow (child t.content) ino q = some n
  blocks : ∀ p, blockAt t.content ino p = blockAt s.content ino p

section
variable {inodes : Set Nat} {known : Nat → Bool} {s t u : Fs} {ino nid fuel rounds iblock : Nat} {ne : NatEntry}

theorem keptRefl (ino : Nat) (s : Fs) : FileKept ino s s := ⟨fun _ _ _ => id,fun _ => rfl⟩

theorem keptTrans (first : FileKept ino s t) (second : FileKept ino t u) : FileKept ino s u where
  paths q n place path := second.paths q n place (first.paths q n place path)
  blocks p := (second.blocks p).trans (first.blocks p)

theorem keptGrown (grown : Grown inodes s t) (inside : ino ∈ inodes) : FileKept ino s t :=
  ⟨fun q n place => grown.paths ino inside q n place,fun p => grown.blocks ino inside p⟩

theorem keptContent (content : t.content = s.content) : FileKept ino s t :=
  ⟨fun _ _ _ path => content ▸ path,fun p => by rw [content]⟩

theorem keptApart (apart : ∀ q n, NodePlace q → follow (child s.content) ino q = some n → t.content n = s.content n) :
    FileKept ino s t := by
  have same : ∀ q, NodePlace q → follow (child t.content) ino q = follow (child s.content) ino q := by
    intro q place
    refine followAgree (fun p n valid path e => ?_) (show nodeShape.valid q from place)
    unfold child
    rw [apart p n valid path]
  refine ⟨fun q n place path => (same q place).trans path,fun p => ?_⟩
  have whole := same p.nodes p.nodesPlace
  cases path : follow (child s.content) ino p.nodes with
  | none => rw [blockAtMissing path,blockAtMissing (whole.trans path)]
  | some n => rw [blockAtFound path,blockAtFound (whole.trans path),apart p.nodes n p.nodesPlace path]

theorem natPageGrown (metaIn : metaIno ∈ inodes) (ok : FsOk inodes known s) (ran : s.natBlockPage fuel iblock = some t) :
    Grown inodes s t := by
  unfold Fs.natBlockPage at ran
  split at ran
  · cases ran
    exact grownSame rfl fun _ => id
  · obtain ⟨⟨v,found⟩,walked,rest⟩ := Option.bind_eq_some_iff.mp ran
    obtain ⟨d,_,rfl⟩ := Option.map_eq_some_iff.mp rest
    obtain ⟨⟨now,_,_,grown⟩,_⟩ := dnodePageAdvances (rawBlockLoading metaIn fuel) metaIn ok walked
    exact grownTrans grown (grownSame rfl fun _ => id)

theorem flushGrown (metaIn : metaIno ∈ inodes) (enough : natFuel ≤ fuel) (range : nid / natEntryPerBlock < natBlocks)
    (ok : FsOk inodes known s) (sound : MetaSound inodes s) (ran : s.flushEntry fuel nid = some t) : Grown inodes s t := by
  obtain ⟨ne,_,rest⟩ := Option.bind_eq_some_iff.mp ran
  split at rest
  · obtain ⟨u,prepared,last⟩ := Option.bind_eq_some_iff.mp rest
    obtain ⟨entry,found,same⟩ := Option.map_eq_some_iff.mp last
    have grown := natPageGrown metaIn ok prepared
    obtain ⟨q,index⟩ : ∃ q : TreePath, q.index = nid / natEntryPerBlock :=
      ⟨_,TreePath.indexOfIndex _ (range.trans (by decide))⟩
    rw [← index] at prepared range
    obtain ⟨⟨now,okU⟩,_⟩ := natPageSound metaIn enough range ok sound prepared
    obtain ⟨content,_⟩ := entryCleaned okU found same.symm
    refine grownTrans grown (grownSame content fun n held => ?_)
    rw [← same]
    exact held
  · cases rest
    exact grownSame rfl fun _ => id

/- The pages of `storeBlock` and `newInode` are all in memory as before. -/
theorem keptStore {d : Nat} {p : TreePath} {other : Nat} (ok : FsOk inodes known s) (inside : ino ∈ inodes) (member : other ∈ inodes)
    (held : s.cached d = true) (here : follow (child s.content) ino p.nodes = some d) (blkaddr : Nat) (apart : other ≠ ino) :
    FileKept other s (s.storeBlock d p.index blkaddr) := by
  obtain ⟨_,paths,blocks⟩ := storeKeepsTree ok inside held here blkaddr
  refine ⟨fun q n place path => (paths other member q place).trans path,fun q => ?_⟩
  rw [blocks other member q,if_neg]
  exact fun both => apart both.1

end

section
variable {s t : MountState} {ino fuel nid : Nat}

theorem walkKept (inv : MountInv s) (member : s.inodes ino = true) {create : Bool} {rounds root iblock : Nat} {found : Option Nat} {fs : Fs}
    (inside : s.inodes root = true)
    (ran : Fs.getDnodePage (Fs.readRawNatBlock fuel) create rounds root iblock s.fs = some (fs,found)) :
    FileKept ino s.fs fs ∧ ∀ n, s.fs.cached n = true → fs.cached n = true := by
  obtain ⟨known,ok⟩ := inv.ok
  obtain ⟨⟨now,_,_,grown⟩,_⟩ := dnodePageAdvances (@rawBlockLoading {n | s.inodes n = true} inv.metaIn fuel) inside ok ran
  exact ⟨keptGrown grown member,grown.cached⟩

theorem newInodeKept (inv : MountInv s) (member : s.inodes ino = true) {rounds : Nat}
    (ran : mountStep s (.newInode fuel rounds) = some t) :
    FileKept ino s.fs t.fs ∧ (∀ n, s.fs.cached n = true → t.fs.cached n = true) ∧
      ∃ new, s.inodes new = false ∧ t.inodes = Function.update s.inodes new true := by
  obtain ⟨known,ok⟩ := inv.ok
  obtain ⟨⟨fs,ne⟩,alloc,same⟩ := Option.map_eq_some_iff.mp ran
  obtain ⟨u,nm,⟨now,more,okU,grown⟩,taken,rfl⟩ := allocAdvances (@rawBlockLoading {n | s.inodes n = true} inv.metaIn fuel) ok alloc
  obtain ⟨content,_⟩ := takenOk okU taken rfl
  rw [← same]
  refine ⟨keptTrans (keptGrown grown member) (keptContent content),grown.cached,ne.nid,?_,rfl⟩
  cases old : s.inodes ne.nid with
  | false => rfl
  | true =>
    have unknown := (takenZero okU taken).2.1
    rw [more ne.nid (ok.reached ne.nid ⟨ne.nid,old,[],trivial,rfl⟩)] at unknown
    contradiction

theorem mountStepKept {event : MountEvent} (inv : MountInv s) (fits : mountFits s event) (restored : Restored s event)
    (keeps : event.releases = false)
    (member : s.inodes ino = true) (apart : ∀ iblock blkaddr, event ≠ .storeAddr ino iblock blkaddr)
    (ran : mountStep s event = some t) :
    FileKept ino s.fs t.fs ∧ (event.remounts = false → ∀ n, event ≠ .dropPage n → s.fs.cached n = true → t.fs.cached n = true) := by
  obtain ⟨known,ok⟩ := inv.ok
  have loading := @rawBlockLoading {n | s.inodes n = true} inv.metaIn
  cases event with
  | nodePage fuel nid =>
    obtain ⟨fs,read,rfl⟩ := Option.map_eq_some_iff.mp ran
    obtain ⟨⟨_,_,_,grown⟩,_⟩ := getNodePageAdvances (loading fuel) ok (ok.reached nid fits.2) read
    exact ⟨keptGrown grown member,fun _ n _ => grown.cached n⟩
  | walk fuel rounds root iblock create =>
    simp only [mountStep] at ran
    split at ran
    · rename_i inside
      obtain ⟨⟨fs,found⟩,walked,rfl⟩ := Option.map_eq_some_iff.mp ran
      obtain ⟨tree,cached⟩ := walkKept inv member inside walked
      exact ⟨tree,fun _ n _ => cached n⟩
    · contradiction
  | metaPage fuel iblock =>
    obtain ⟨fs,prepared,rfl⟩ := Option.map_eq_some_iff.mp ran
    have grown := natPageGrown inv.metaIn ok prepared
    exact ⟨keptGrown grown member,fun _ n _ => grown.cached n⟩
  | newInode fuel rounds =>
    obtain ⟨tree,cached,_⟩ := newInodeKept inv member ran
    exact ⟨tree,fun _ n _ => cached n⟩
  | storeAddr root iblock blkaddr =>
    simp only [mountStep] at ran
    obtain ⟨dnode,found,rfl⟩ := Option.map_eq_some_iff.mp ran
    obtain ⟨inside,low,held⟩ := fits
    obtain ⟨q,rfl⟩ : ∃ q : TreePath, q.index = iblock := ⟨_,TreePath.indexOfIndex iblock low⟩
    have here := (getDnodeAt s.fs.content root q).symm.trans found
    have other : ino ≠ root := by
      rintro rfl
      exact apart q.index blkaddr rfl
    exact ⟨keptStore ok inside member (held dnode found) here blkaddr other,fun _ n _ => id⟩
  | updateNat nid blkaddr =>
    cases ran
    obtain ⟨held,ne,here⟩ := fits
    exact ⟨keptContent (writtenOk ok here held blkaddr rfl).1,fun _ n _ => id⟩
  | flushNat fuel nid =>
    obtain ⟨fs,flushed,rfl⟩ := Option.map_eq_some_iff.mp ran
    have grown := flushGrown inv.metaIn fits.1 fits.2 ok inv.sound flushed
    exact ⟨keptGrown grown member,fun _ n _ => grown.cached n⟩
  | dropPage nid =>
    cases ran
    refine ⟨keptContent (droppedOk fits ok rfl).1,fun _ n other held => ?_⟩
    refine (Function.update_of_ne (fun same => other (congrArg _ same.symm)) ..).trans held
  | truncate ino freeFrom => cases keeps
  | evict ino => cases keeps
  | invalidateNat fuel nid => cases keeps
  | remount disk nodes =>
    cases ran
    exact ⟨keptContent restored.content,fun stays => by cases stays⟩

end

section
variable {s t : OwnRun} {ino fuel : Nat} {calls : List Call}

theorem callKept {nid : Nat} {fs : Fs} {s : MountState} (inv : MountInv s) (enough : natFuel ≤ fuel) (outside : Outside s nid)
    (member : s.inodes ino = true) (ran : s.fs.invalidateNat fuel nid = some fs) :
    FileKept ino s.fs fs ∧ ∀ n, s.fs.cached n = true → fs.cached n = true := by
  obtain ⟨known,ok⟩ := inv.ok
  obtain ⟨u,now,loaded,made,more,grown,new,okU,okT,emptied⟩ := invalidateSplits inv.metaIn (useOk ok) ran
  have apart : ∀ q n, NodePlace q → follow (child u.content) ino q = some n → n ≠ nid := by
    rintro q n place path rfl
    have reached : Reached nodeShape {n | s.inodes n = true} (child u.content) n := ⟨ino,member,q,place,path⟩
    rcases outside with rfl | ⟨used,out,_⟩
    · have soundU : MetaSound {n | s.inodes n = true} u := by
        rcases loaded with same | loaded
        · rw [same]
          exact inv.sound
        · exact loadSound inv.metaIn enough (.inl (by decide)) ok inv.sound loaded
      exact reachedNamed (s := s.setFs u) ⟨inv.metaIn,⟨now,okU⟩,soundU⟩ reached rfl
    · rcases new n reached with old | unused
      · exact out old
      · rw [used] at unused
        contradiction
  refine ⟨keptTrans (keptGrown grown member) (keptApart fun q n place path => emptied.others n (apart q n place path)),fun n held => ?_⟩
  have cached := grown.cached n held
  rw [made]
  exact cached

theorem callsKept (own : OwnInv s) (enough : natFuel ≤ fuel) (outside : ∀ nid, Call.nat nid ∈ calls → Outside s.mount nid)
    (member : s.mount.inodes ino = true) (ran : OwnRun.applyCalls fuel calls s = some t) :
    FileKept ino s.mount.fs t.mount.fs ∧ ∀ n, s.mount.fs.cached n = true → t.mount.fs.cached n = true := by
  induction calls generalizing s with
  | nil =>
    cases ran
    exact ⟨keptRefl ino _,fun _ => id⟩
  | cons call calls ih =>
    obtain ⟨mid,here,rest⟩ := Option.bind_eq_some_iff.mp ran
    have first : OwnRun.applyCalls fuel [call] s = some mid := by
      unfold OwnRun.applyCalls
      rw [here]
      rfl
    have mine : ∀ nid, Call.nat nid ∈ [call] → Outside s.mount nid := by
      intro nid only
      obtain rfl := List.mem_singleton.mp only
      exact outside nid List.mem_cons_self
    obtain ⟨ownMid,inodes⟩ := callsOwned own enough mine first
    have later := fun nid there => outside nid (List.mem_cons_of_mem call there)
    cases call with
    | blkaddr a =>
      cases here
      exact ih own later member rest
    | nat nid =>
      obtain ⟨fs,done,rfl⟩ := Option.map_eq_some_iff.mp here
      obtain ⟨_,out⟩ := callOut own.mount (mine nid List.mem_cons_self) enough done
      obtain ⟨kept,cached⟩ := callKept own.mount enough (mine nid List.mem_cons_self) member done
      have outer : ∀ other, Call.nat other ∈ calls → Outside (s.mount.setFs fs) other := by
        intro other there
        rcases later other there with zero | ⟨used,apart,allotted⟩
        · exact .inl zero
        · obtain ⟨usedT,outT⟩ := out other used apart
          exact .inr ⟨usedT,outT,allotted⟩
      obtain ⟨keptT,cachedT⟩ := ih ownMid outer member rest
      exact ⟨keptTrans kept keptT,fun n held => cachedT n (cached n held)⟩

end

/- The steps after which the tree of an inode is another one. -/
def OwnEvent.works (ino : Nat) : OwnEvent → Prop
  | .step (.storeAddr root _ _) => root = ino
  | .truncate _ root _ => root = ino
  | .evict _ root _ => root = ino
  | _ => False

section
variable {s t : OwnRun} {ino root fuel freeFrom : Nat} {cut : TreePath}

theorem truncateKept (own : OwnInv s) (enough : natFuel ≤ fuel) (regular : root ≠ metaIno) (inside : s.mount.inodes root = true)
    (at_ : cut.index = freeFrom) (clean : CutsClean s.mount.fs.content root cut) (member : s.mount.inodes ino = true)
    (other : ino ≠ root) (ran : s.truncate fuel root freeFrom = some t) :
    FileKept ino s.mount.fs t.mount.fs ∧ ∀ n, s.mount.fs.cached n = true → t.mount.fs.cached n = true := by
  obtain ⟨fs,calls,cuts,mid,outside,called⟩ := truncateSplits own regular inside at_ clean ran
  obtain ⟨kept,cached⟩ := @callsKept ⟨s.mount.setFs fs,s.freed⟩ t ino fuel calls mid enough outside member called
  obtain ⟨known,ok⟩ := own.mount.ok
  obtain ⟨trunc,content,_,done⟩ := cuts.done
  have first : FileKept ino s.mount.fs fs := by
    refine ⟨fun q n place path => ?_,fun p => ?_⟩
    · rw [← content]
      exact (otherFollow ok.owned done inside member other place).trans path
    · rw [← content]
      exact otherBlock ok.owned done inside member other p
  refine ⟨keptTrans first kept,fun n held => cached n ?_⟩
  change fs.cached n = true
  rw [cuts.cached]
  exact held

theorem truncateBlocksAt (own : OwnInv s) (enough : natFuel ≤ fuel) (regular : ino ≠ metaIno) (inside : s.mount.inodes ino = true)
    (at_ : cut.index = freeFrom) (clean : CutsClean s.mount.fs.content ino cut) (where_ : CutsWhere s.mount.fs.content ino cut)
    (ran : s.truncate fuel ino freeFrom = some t) (q : TreePath) :
    blockAt t.mount.fs.content ino q = if q.index < freeFrom then blockAt s.mount.fs.content ino q else 0 := by
  obtain ⟨fs,calls,cuts,mid,outside,called⟩ := truncateSplits own regular inside at_ clean ran
  obtain ⟨kept,_⟩ := @callsKept ⟨s.mount.setFs fs,s.freed⟩ t ino fuel calls mid enough outside inside called
  obtain ⟨known,ok⟩ := own.mount.ok
  obtain ⟨trunc,content,_,done⟩ := cuts.done
  refine (kept.blocks q).trans ?_
  change blockAt fs.content ino q = _
  rw [← content,← at_]
  have tree := inodeTree ok.owned inside
  have survivor := @blockSurvives ino _ _ ⟨s.mount.fs.content,[]⟩ trunc tree done q
  have lost := @blockLost ino _ _ ⟨s.mount.fs.content,[]⟩ trunc done q
  by_cases stays : survives cut.addrStart (cut.topCut (presentIn s.mount.fs.content ino)) q
  · rw [survivor stays]
    split
    · rfl
    · rename_i late
      exact where_ q ((survivesMisplaced _ cut q).mpr fun same => late (same.mp stays))
  · rw [lost stays]
    split
    · rename_i early
      exact (where_ q ((survivesMisplaced _ cut q).mpr fun same => stays (same.mpr early))).symm
    · rfl

theorem ownStepKept {event : OwnEvent} (own : OwnInv s) (takes : ownTakes s event) (clean : ownClean s event)
    (member : s.mount.inodes ino = true) (apart : ¬event.works ino) (ran : ownStep s event = some t) :
    FileKept ino s.mount.fs t.mount.fs ∧
      ∀ f : DataFlight, FileRun.waits event f = false → s.mount.fs.cached f.dnode = true → t.mount.fs.cached f.dnode = true := by
  cases event with
  | step event =>
    obtain ⟨keeps,stepped,_⟩ := stepMounts ran
    have stores : ∀ iblock blkaddr, event ≠ .storeAddr ino iblock blkaddr := by
      rintro iblock blkaddr rfl
      exact apart rfl
    obtain ⟨kept,cached⟩ := mountStepKept own.mount takes.1 takes.2 keeps member stores stepped
    refine ⟨kept,fun f free held => cached ?_ f.dnode ?_ held⟩
    · cases event <;> first | rfl | cases free
    · rintro rfl
      exact of_decide_eq_false free rfl
  | truncate fuel root freeFrom =>
    simp only [ownStep] at ran
    split at ran
    · rename_i inside
      have low : freeFrom < maxBlocks := by
        by_contra high
        unfold OwnRun.truncate Fs.truncate at ran
        rw [if_neg high] at ran
        contradiction
      have at_ := TreePath.indexOfIndex freeFrom low
      obtain ⟨kept,cached⟩ := truncateKept own takes.1.1 takes.1.2 inside at_ (clean _ at_) member (Ne.symm apart) ran
      exact ⟨kept,fun f _ => cached f.dnode⟩
    · contradiction
  | evict fuel root nlink =>
    simp only [ownStep] at ran
    split at ran
    · rename_i inside
      split at ran
      · cases ran
        exact ⟨keptRefl ino _,fun _ _ => id⟩
      · rename_i gone
        have regular : root ≠ metaIno := by
          rintro rfl
          exact gone (.inl (by decide))
        obtain ⟨u,cut,rfl⟩ := Option.map_eq_some_iff.mp ran
        have at_ : (TreePath.inode 0).index = 0 := rfl
        have clean : CutsClean s.mount.fs.content root (.inode 0) := by
          intro i low a boundary
          contradiction
        obtain ⟨kept,cached⟩ := truncateKept own takes.1 regular inside at_ clean member (Ne.symm apart) cut
        exact ⟨kept,fun f _ => cached f.dnode⟩
    · contradiction

end
end Xcpfs
