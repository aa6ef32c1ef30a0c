import Xcpfs.OwnRuns

/-! Truncates over the owners of the nids. What a truncate gives back has left the trees when the
calls are made, and each call changes no other page; a pointer that stays at the cut leads to a
nid that is given back. -/
namespace Xcpfs
open PointerForest EventRun

section
variable {inodes : Set Nat} {known : Nat → Bool} {s t : Fs} {nid n m fuel : Nat} {e : Edge}

/- Only the content of the page whose address is lost may go. -/
structure Emptied (nid : Nat) (s t : Fs) : Prop where
  others : ∀ n, n ≠ nid → t.content n = s.content n
  page : t.content nid = s.content nid ∨ t.content nid = .zero

theorem emptiedChild (emptied : Emptied nid s t) (edge : child t.content n e = some m) : child s.content n e = some m := by
  by_cases here : n = nid
  · subst here
    rcases emptied.page with same | zero
    · unfold child at edge ⊢
      rw [← same]
      exact edge
    · unfold child at edge
      rw [zero,zeroChild] at edge
      contradiction
  · unfold child at edge ⊢
    rw [← emptied.others n here]
    exact edge

theorem invalidateEmpties (low : s.nat.nm.slot nid = none → nid < 3)
    (made : t = { s with nat := { s.nat with nm := s.nat.nm.modify nid NatEntry.invalidated } }) : Emptied nid s t := by
  obtain ⟨self,others⟩ := invalidateAddrs low made
  have nodes : t.nodes = s.nodes := by rw [made]
  have cached : t.cached = s.cached := by rw [made]
  refine ⟨fun n differ => contentSame (by rw [nodes]) (by rw [cached]) (others n differ),?_⟩
  cases held : s.cached nid with
  | true =>
    left
    rw [contentHeld held,contentHeld ((congrFun cached nid).trans held),nodes]
  | false =>
    cases address : s.addr nid with
    | none =>
      left
      refine contentSame (by rw [nodes]) (by rw [cached]) ?_
      rw [self,address]
      rfl
    | some a =>
      right
      refine if_neg ?_
      rw [self,address,cached,held]
      simp

/- `invalidate_nat` loads the block of the nid if it has to, and then takes the address away. -/
theorem invalidateSplits (metaIn : metaIno ∈ inodes) (ok : FsOk inodes known s) (ran : s.invalidateNat fuel nid = some t) :
    ∃ u now, (u = s ∨ Fs.readRawNatBlock fuel (nid / natEntryPerBlock) s = some u) ∧
      t = { u with nat := { u.nat with nm := u.nat.nm.modify nid NatEntry.invalidated } } ∧
      (∀ n, known n = true → now n = true) ∧ Grown inodes s u ∧ OnlyNew inodes known s u ∧ FsOk inodes now u ∧ FsOk inodes now t ∧
      Emptied nid u t := by
  obtain ⟨u,made,loaded,low⟩ := invalidateLooks ran
  have before : Advances inodes known s u ∧ OnlyNew inodes known s u := by
    rcases loaded with same | loaded
    · rw [same]
      exact ⟨advancesRefl ok,onlyNewSame rfl⟩
    · exact ⟨rawBlockLoading metaIn fuel known _ s u ok loaded,rawBlockNew metaIn fuel known _ s u ok loaded⟩
  obtain ⟨⟨now,more,okU,grown⟩,new⟩ := before
  have emptied := invalidateEmpties low made
  refine ⟨u,now,loaded,made,more,grown,new,okU,⟨?_,invalidateNamed okU made,?_,?_,?_⟩,emptied⟩
  · rw [made]
    exact natOkModify NatEntry.invalidatedNid (fun _ _ => rfl) okU.nat
  · rintro n ⟨r,root,p,place,path⟩
    exact okU.reached n ⟨r,root,p,place,followSub (fun n e m => emptiedChild emptied) path⟩
  · exact ownedSub (fun n e m => emptiedChild emptied) okU.owned
  · rw [made]
    exact okU.fresh

end

/- A nid that a call may get: none at all, or one in use that left the trees. -/
def Outside (s : MountState) (nid : Nat) : Prop := nid = 0 ∨ s.fs.inUse nid = true ∧ ¬s.Reaches nid ∧ Allotted nid

section
variable {s t : MountState} {fs : Fs} {nid fuel : Nat}

theorem reachedNamed (inv : MountInv s) (reached : s.Reaches nid) : nid ≠ 0 := by
  rintro rfl
  rcases inv.sound.placed 0 reached with bad | allotted
  · cases bad
  · exact absurd allotted.1 (by decide)

theorem callOut (inv : MountInv s) (outside : Outside s nid) (enough : natFuel ≤ fuel) (ran : s.fs.invalidateNat fuel nid = some fs) :
    MountInv (s.setFs fs) ∧ StaysOut s (s.setFs fs) := by
  obtain ⟨known,ok⟩ := inv.ok
  obtain ⟨u,now,loaded,made,more,grown,new,okU,okT,emptied⟩ := invalidateSplits inv.metaIn (useOk ok) ran
  have place : NatPlace (nid / natEntryPerBlock) := by
    rcases outside with rfl | ⟨_,_,allotted⟩
    · exact .inl (by decide)
    · exact allotted.2
  have soundU : MetaSound {n | s.inodes n = true} u := by
    rcases loaded with same | loaded
    · rw [same]
      exact inv.sound
    · exact loadSound inv.metaIn enough place ok inv.sound loaded
  have apart : ∀ n, Reached nodeShape {n | s.inodes n = true} (child u.content) n → n ≠ nid := by
    rintro n reached rfl
    rcases outside with rfl | ⟨used,out,_⟩
    · exact reachedNamed (s := s.setFs u) ⟨inv.metaIn,⟨now,okU⟩,soundU⟩ reached rfl
    · rcases new n reached with old | unused
      · exact out old
      · rw [used] at unused
        contradiction
  have paths : ∀ q, NodePlace q → follow (child fs.content) metaIno q = follow (child u.content) metaIno q := by
    intro q valid
    refine followAgree (fun p n below path e => ?_) (show nodeShape.valid q from valid)
    unfold child
    rw [emptied.others n (apart n ⟨metaIno,inv.metaIn,p,below,path⟩)]
  have fewer : ∀ n, Reached nodeShape {n | s.inodes n = true} (child fs.content) n →
      Reached nodeShape {n | s.inodes n = true} (child u.content) n := by
    rintro n ⟨r,root,p,below,path⟩
    exact ⟨r,root,p,below,followSub (fun n e m => emptiedChild emptied) path⟩
  refine ⟨invFs inv.metaIn ⟨⟨now,okT⟩,changedSound soundU ?_ paths (fun n reached => soundU.placed n (fewer n reached)) (fun n => ?_)
    fun n changed => ?_⟩,outNew okT more fun n reached => new n (fewer n reached)⟩
  · rw [made]
  · rw [made]
    exact modifyFst u.nat.nm nid NatEntry.invalidatedNid n
  · rw [made] at changed
    exact absurd rfl changed

end

section
variable {s t : OwnRun} {fuel : Nat} {calls : List Call}

theorem callsOwned (own : OwnInv s) (enough : natFuel ≤ fuel) (outside : ∀ nid, Call.nat nid ∈ calls → Outside s.mount nid)
    (ran : OwnRun.applyCalls fuel calls s = some t) : OwnInv t ∧ t.mount.inodes = s.mount.inodes := by
  induction calls generalizing s with
  | nil =>
    cases ran
    exact ⟨own,rfl⟩
  | cons call calls ih =>
    obtain ⟨mid,here,rest⟩ := Option.bind_eq_some_iff.mp ran
    have later := fun nid member => outside nid (List.mem_cons_of_mem call member)
    cases call with
    | blkaddr a =>
      cases here
      exact ih own later rest
    | nat nid =>
      obtain ⟨fs,done,rfl⟩ := Option.map_eq_some_iff.mp here
      have mine := outside nid List.mem_cons_self
      obtain ⟨inv,out⟩ := callOut own.mount mine enough done
      have next : OwnInv ⟨s.mount.setFs fs,Function.update s.freed nid true⟩ := by
        refine ⟨inv,fun n named gone => ?_⟩
        dsimp only at gone
        rw [Function.update_apply] at gone
        split at gone
        · rename_i same
          subst same
          rcases mine with zero | ⟨used,outside,_⟩
          · exact absurd zero named
          · exact out n used outside
        · obtain ⟨used,outside⟩ := own.freed n named gone
          exact out n used outside
      refine @ih ⟨s.mount.setFs fs,Function.update s.freed nid true⟩ next (fun other member => ?_) rest
      rcases later other member with zero | ⟨used,outside,allotted⟩
      · exact .inl zero
      · obtain ⟨usedT,outT⟩ := out other used outside
        exact .inr ⟨usedT,outT,allotted⟩

end

/- What a clean cut releases is out of the tree. -/
section
variable {nodes : NodeStore} {ino start i a : Nat} {plan : Nat → Option TopCut} {t t' : Trunc} {q rest : List Edge} {cut : TreePath}

theorem pastUnkept (after : past (plan i) a) : ¬keeps (plan i) a := by
  obtain ⟨c,planned,high⟩ := pastCut after
  rw [planned]
  exact fun kept => Nat.not_le.mpr kept.2 high

theorem pastGone (done : Truncated start plan ino t t' 5) (low : i < 5) (bound : a < 1018) (after : past (plan i) a) :
    follow (child t'.nodes) ino (.nid i :: .slot a :: rest) = none := by
  refine Option.eq_none_iff_forall_ne_some.mpr fun x path => ?_
  obtain ⟨used,edge,_⟩ := followSlots.mp path
  by_cases absent : (t.nodes ino).iNid i = 0
  · exact used (fewerAbsent done absent)
  · rcases topDropped done low absent bound (pastUnkept after) with zero | ⟨same,zero⟩
    · exact used zero
    · rw [same] at edge
      exact edge zero

theorem droppedGone (done : Truncated start plan ino t t' 5) (low : i < 5) (drops : dropsTop (plan i)) :
    follow (child t'.nodes) ino (.nid i :: rest) = none := by
  cases planned : plan i with
  | none =>
    rw [planned] at drops
    exact drops.elim
  | some cut =>
    rw [planned] at drops
    have edge : child t'.nodes ino (.nid i) = ptr ((t'.nodes ino).iNid i) := rfl
    exact childUnused edge.symm (done.dropped i low cut planned drops) rest

theorem releasedGone (clean : CutsClean t.nodes ino cut)
    (done : Truncated start (cut.topCut (presentIn t.nodes ino)) ino t t' 5) (place : NodePlace q)
    (gone : nodeReleased (cut.topCut (presentIn t.nodes ino)) q) : follow (child t'.nodes) ino q = none := by
  obtain rfl | ⟨i,low,rfl⟩ | ⟨i,a,deep,low,bound,rfl⟩ | ⟨a,b,boundA,boundB,rfl⟩ := nodePlaceCases place
  · exact gone.elim
  · exact droppedGone done low gone
  · rcases gone with after | boundary
    · exact pastGone done low bound after
    · by_cases drops : dropsTop (cut.topCut (presentIn t.nodes ino) i)
      · exact droppedGone done low drops
      · refine Option.eq_none_iff_forall_ne_some.mpr fun x path => ?_
        have before := followSub (fun n e m => fewerChild done.fewer) path
        rw [boundaryCut _ cut i low] at boundary
        rw [clean i low a boundary drops] at before
        contradiction
  · exact pastGone done (by decide) boundA gone.1

theorem boundaryBefore {present : Nat → Bool} (boundary : cut.boundaryAt present i = some a) : ¬past (cut.topCut present i) a := by
  cases cut with
  | inode slot => contradiction
  | direct top slot => contradiction
  | indirect top mid slot =>
    simp only [TreePath.boundaryAt] at boundary
    simp only [TreePath.topCut]
    split at boundary
    · contradiction
    · split at boundary
      · rename_i here
        rw [if_neg (by omega : ¬ i < 2 + (top : Nat)),if_pos here,pastWithin,Option.some.inj boundary]
        exact Nat.lt_irrefl a
      · split at boundary
        · rename_i second
          rw [if_neg (by omega : ¬ i < 2 + (top : Nat)),if_neg (by omega : ¬ i = 2 + (top : Nat)),if_pos second.2,
            pastSecondIndirect,Option.some.inj boundary]
          exact Nat.lt_irrefl a
        · contradiction
  | double top mid slot =>
    simp only [TreePath.boundaryAt] at boundary
    simp only [TreePath.topCut]
    split at boundary
    · rename_i here
      rw [if_neg (by omega : ¬ i < 4),pastWithin,Option.some.inj boundary]
      exact Nat.lt_irrefl a
    · contradiction

theorem boundaryKeeps {present : Nat → Bool} (boundary : cut.boundaryAt present i = some a) (stays : ¬dropsTop (cut.topCut present i)) :
    keeps (cut.topCut present i) a := by
  have before := boundaryBefore boundary
  cases planned : cut.topCut present i with
  | none => trivial
  | some c =>
    rw [planned] at before stays
    exact ⟨eq_false_of_ne_true stays,Nat.not_le.mp before⟩

end

section
variable {s t : OwnRun} {fs : Fs} {known : Nat → Bool} {fuel ino freeFrom nid : Nat} {calls : List Call} {cut : TreePath}

theorem calledNodes (inv : MountInv s.mount) (ok : FsOk {n | s.mount.inodes n = true} known s.mount.fs)
    (inside : s.mount.inodes ino = true) (other : ino ≠ metaIno)
    (cuts : CutFs {n | s.mount.inodes n = true} ino cut s.mount.fs fs calls) (member : Call.nat nid ∈ calls) : nid = 0 ∨
      ∃ q, NodePlace q ∧ nodeReleased (cut.topCut (presentIn s.mount.fs.content ino)) q ∧
        follow (child s.mount.fs.content) ino q = some nid ∧ Allotted nid := by
  obtain ⟨trunc,_,rfl,done⟩ := cuts.done
  rcases (natPlaces (cutBoundarySound _ cut)).mp ((natTruncated rfl done).mp member) with ⟨q,place,gone,path⟩ | ⟨zero,_⟩
  · right
    refine ⟨q,place,gone,path,?_⟩
    rcases inv.sound.placed nid ⟨ino,inside,q,place,path⟩ with rfl | allotted
    · exact absurd (ok.owned ino inside metaIno inv.metaIn q [] metaIno place trivial path rfl).1 other
    · exact allotted
  · exact .inl zero

theorem truncateSplits (own : OwnInv s) (other : ino ≠ metaIno) (inside : s.mount.inodes ino = true)
    (at_ : cut.index = freeFrom) (clean : CutsClean s.mount.fs.content ino cut) (ran : s.truncate fuel ino freeFrom = some t) :
    ∃ fs calls, CutFs {n | s.mount.inodes n = true} ino cut s.mount.fs fs calls ∧ OwnInv { s with mount := s.mount.setFs fs } ∧
      (∀ nid, Call.nat nid ∈ calls → Outside (s.mount.setFs fs) nid) ∧
      OwnRun.applyCalls fuel calls { s with mount := s.mount.setFs fs } = some t := by
  obtain ⟨⟨fs,calls⟩,made,ran⟩ := Option.bind_eq_some_iff.mp ran
  obtain ⟨known,ok⟩ := own.mount.ok
  obtain ⟨_,cuts,_⟩ := truncateCuts ok inside at_ made
  obtain ⟨okT,soundT⟩ := cutSound own.mount.metaIn inside other ok own.mount.sound made
  obtain ⟨trunc,content,_,done⟩ := cuts.done
  have before : ∀ {n p r}, follow (child fs.content) r p = some n → follow (child s.mount.fs.content) r p = some n := by
    intro n p r path
    rw [← content] at path
    exact followSub (fun n e m => fewerChild done.fewer) path
  have out : StaysOut s.mount (s.mount.setFs fs) := by
    refine outSame cuts.nat ?_
    rintro n ⟨r,root,p,place,path⟩
    exact ⟨r,root,p,place,before path⟩
  refine ⟨fs,calls,cuts,ownKept own (invFs own.mount.metaIn ⟨⟨known,okT⟩,soundT⟩) rfl out,fun nid called => ?_,ran⟩
  rcases calledNodes own.mount ok inside other cuts called with zero | ⟨q,place,gone,path,allotted⟩
  · exact .inl zero
  · refine .inr ⟨knownUse okT (ok.reached nid ⟨ino,inside,q,place,path⟩),?_,allotted⟩
    rintro ⟨r,root,p,valid,still⟩
    change follow (child fs.content) r p = some nid at still
    have old := before still
    obtain ⟨rfl,rfl⟩ := ok.owned r root ino inside p q nid valid place old path
    have absent := releasedGone (t := ⟨s.mount.fs.content,[]⟩) clean done place gone
    rw [content] at absent
    cases absent.symm.trans still

theorem truncateOwned (own : OwnInv s) (enough : natFuel ≤ fuel) (other : ino ≠ metaIno) (inside : s.mount.inodes ino = true)
    (at_ : cut.index = freeFrom) (clean : CutsClean s.mount.fs.content ino cut) (ran : s.truncate fuel ino freeFrom = some t) :
    OwnInv t ∧ t.mount.inodes = s.mount.inodes := by
  obtain ⟨fs,calls,_,mid,outside,ran⟩ := truncateSplits own other inside at_ clean ran
  exact @callsOwned ⟨s.mount.setFs fs,s.freed⟩ t fuel calls mid enough outside ran

theorem evictOwned {nlink : Nat} (own : OwnInv s) (enough : natFuel ≤ fuel) (ran : ownStep s (.evict fuel ino nlink) = some t) :
    OwnInv t := by
  simp only [ownStep] at ran
  split at ran
  · rename_i inside
    split at ran
    · cases ran
      exact own
    · rename_i gone
      have other : ino ≠ metaIno := by
        rintro rfl
        exact gone (.inl (by decide))
      obtain ⟨u,cut,rfl⟩ := Option.map_eq_some_iff.mp ran
      have at_ : (TreePath.inode 0).index = 0 := rfl
      have clean : CutsClean s.mount.fs.content ino (.inode 0) := by
        intro i low a boundary
        contradiction
      obtain ⟨ownU,_⟩ := truncateOwned own enough other inside at_ clean cut
      refine ownKept ownU (evictInv ownU.mount other) rfl (outSame rfl ?_)
      rintro n ⟨r,root,rest⟩
      exact ⟨r,fewerInodes root,rest⟩
  · contradiction

end

/- A nid in a slot below a node of pointers of an inode, while other nids are given back. -/
structure Dangles (s : OwnRun) (ino i n a nid : Nat) : Prop where
  metaIn : s.mount.inodes metaIno = true
  ok : ∃ known, FsOk {n | s.mount.inodes n = true} known s.mount.fs
  inside : s.mount.inodes ino = true
  top : follow (child s.mount.fs.content) ino [.nid i] = some n
  slot : child s.mount.fs.content n (.slot a) = some nid

section
variable {s t : OwnRun} {fs : Fs} {fuel ino i n a nid other freeFrom : Nat} {calls : List Call} {cut : TreePath}

theorem callDangles (dangles : Dangles s ino i n a nid) (place : NodePlace [.nid i,.slot a]) (root : other ≠ ino) (top : other ≠ n)
    (ran : s.mount.fs.invalidateNat fuel other = some fs) (freed : Nat → Bool) : Dangles ⟨s.mount.setFs fs,freed⟩ ino i n a nid := by
  obtain ⟨known,ok⟩ := dangles.ok
  obtain ⟨u,now,_,_,_,grown,_,_,okT,emptied⟩ := invalidateSplits dangles.metaIn ok ran
  have low : i < 5 := place.2.1
  have here := grown.paths ino dangles.inside [.nid i] n low dangles.top
  have whole : follow (child s.mount.fs.content) ino ([.nid i] ++ [.slot a]) = some nid := by
    rw [followConcat,dangles.top]
    exact dangles.slot
  have edge := grown.paths ino dangles.inside [.nid i,.slot a] nid place whole
  rw [show [Edge.nid i,.slot a] = [.nid i] ++ [.slot a] from rfl] at edge
  rw [followConcat,here] at edge
  refine ⟨dangles.metaIn,⟨now,okT⟩,dangles.inside,?_,?_⟩
  · obtain ⟨used,same⟩ := followNid.mp here
    refine followNid.mpr ?_
    dsimp only [MountState.setFs]
    rw [emptied.others ino root.symm]
    exact ⟨used,same⟩
  · unfold child
    dsimp only [MountState.setFs]
    rw [emptied.others n top.symm]
    exact edge

theorem callsDangle (dangles : Dangles s ino i n a nid) (place : NodePlace [.nid i,.slot a])
    (apart : ∀ other, Call.nat other ∈ calls → other ≠ ino ∧ other ≠ n) (ran : OwnRun.applyCalls fuel calls s = some t) :
    Dangles t ino i n a nid ∧ ∀ m, s.freed m = true ∨ Call.nat m ∈ calls → t.freed m = true := by
  induction calls generalizing s with
  | nil =>
    cases ran
    exact ⟨dangles,fun m either => either.resolve_right List.not_mem_nil⟩
  | cons call calls ih =>
    obtain ⟨mid,here,rest⟩ := Option.bind_eq_some_iff.mp ran
    have later := fun other member => apart other (List.mem_cons_of_mem call member)
    cases call with
    | blkaddr b =>
      cases here
      obtain ⟨last,gone⟩ := ih dangles later rest
      refine ⟨last,fun m either => gone m (either.imp_right fun member => ?_)⟩
      rcases List.mem_cons.mp member with bad | member
      · cases bad
      · exact member
    | nat other =>
      obtain ⟨fs,done,rfl⟩ := Option.map_eq_some_iff.mp here
      obtain ⟨root,top⟩ := apart other List.mem_cons_self
      obtain ⟨last,gone⟩ := ih (callDangles dangles place root top done _) later rest
      refine ⟨last,fun m either => gone m ?_⟩
      dsimp only
      rw [Function.update_apply]
      split
      · exact .inl rfl
      · rename_i differ
        refine either.imp_right fun member => ?_
        rcases List.mem_cons.mp member with same | member
        · cases same
          exact absurd rfl differ
        · exact member

theorem calledApart {known : Nat → Bool} (inv : MountInv s.mount) (ok : FsOk {n | s.mount.inodes n = true} known s.mount.fs)
    (inside : s.mount.inodes ino = true) (regular : ino ≠ metaIno)
    (cuts : CutFs {n | s.mount.inodes n = true} ino cut s.mount.fs fs calls) (low : i < 5)
    (top : follow (child s.mount.fs.content) ino [.nid i] = some n)
    (stays : ¬dropsTop (cut.topCut (presentIn s.mount.fs.content ino) i)) (member : Call.nat other ∈ calls) :
    other ≠ ino ∧ other ≠ n := by
  rcases calledNodes inv ok inside regular cuts member with rfl | ⟨q,valid,gone,here,_⟩
  · have named := reachedNamed inv ⟨ino,inside,[],trivial,rfl⟩
    exact ⟨named.symm,(reachedNamed inv ⟨ino,inside,[.nid i],low,top⟩).symm⟩
  · refine ⟨?_,?_⟩
    · rintro rfl
      obtain ⟨_,rfl⟩ := ok.owned other inside other inside q [] other valid trivial here rfl
      exact gone.elim
    · rintro rfl
      obtain ⟨_,rfl⟩ := ok.owned ino inside ino inside q [.nid i] other valid low here top
      exact stays gone

theorem cutDangles {known : Nat → Bool} (inv : MountInv s.mount) (ok : FsOk {n | s.mount.inodes n = true} known s.mount.fs)
    (okT : FsOk {n | s.mount.inodes n = true} known fs) (inside : s.mount.inodes ino = true)
    (cuts : CutFs {n | s.mount.inodes n = true} ino cut s.mount.fs fs calls) (low : i < 5) (bound : a < 1018)
    (top : follow (child s.mount.fs.content) ino [.nid i] = some n) (edge : child s.mount.fs.content n (.slot a) = some nid)
    (kept : keeps (cut.topCut (presentIn s.mount.fs.content ino) i) a) :
    Dangles { s with mount := s.mount.setFs fs } ino i n a nid := by
  obtain ⟨trunc,content,_,done⟩ := cuts.done
  obtain ⟨used,same⟩ := followNid.mp top
  refine ⟨inv.metaIn,⟨known,okT⟩,inside,?_,?_⟩
  · refine followNid.mpr ?_
    dsimp only [MountState.setFs]
    rw [← content,topSurvives done kept]
    exact ⟨used,same⟩
  · unfold child at edge ⊢
    dsimp only [MountState.setFs]
    rw [← content,same]
    rw [same] at edge
    refine Eq.trans (congrArg ptr ?_) edge
    exact slotSurvives (inodeTree ok.owned inside) done low used bound kept

theorem truncateDangles (own : OwnInv s) (regular : ino ≠ metaIno) (inside : s.mount.inodes ino = true)
    (at_ : cut.index = freeFrom) (dirty : ¬CutsClean s.mount.fs.content ino cut) (ran : s.truncate fuel ino freeFrom = some t) :
    ¬SingleOwner t := by
  obtain ⟨⟨fs,calls⟩,made,ran⟩ := Option.bind_eq_some_iff.mp ran
  obtain ⟨known,ok⟩ := own.mount.ok
  obtain ⟨_,cuts,okT⟩ := truncateCuts ok inside at_ made
  simp only [CutsClean,not_forall] at dirty
  obtain ⟨i,low,a,boundary,stays,some_⟩ := dirty
  obtain ⟨nid,path⟩ := Option.ne_none_iff_exists'.mp some_
  have handed := (boundaryCut _ cut i low).trans boundary
  obtain ⟨deep,bound⟩ := cutBoundarySound _ cut i low a handed
  have place : NodePlace [.nid i,.slot a] := ⟨deep,low,bound⟩
  obtain ⟨n,top,edge⟩ := followLast (p := [Edge.nid i]) path
  have released : Call.nat nid ∈ calls := by
    obtain ⟨trunc,_,rfl,done⟩ := cuts.done
    exact (natTruncated rfl done).mpr ((natPlaces (cutBoundarySound _ cut)).mpr (.inl ⟨_,place,.inr handed,path⟩))
  have dangles := cutDangles own.mount ok okT inside cuts low bound top edge (boundaryKeeps boundary stays)
  obtain ⟨last,freed⟩ := callsDangle dangles place (fun m => calledApart own.mount ok inside regular cuts low top stays) ran
  intro single
  have slot : NidSlot t.mount n (.slot a) nid := ⟨ino,[.nid i],last.inside,place,last.top,last.slot⟩
  have unfreed := (single.used n (.slot a) nid slot).2
  rw [freed nid (.inr released)] at unfreed
  contradiction

end

theorem ownKeeps {s t : OwnRun} {event : OwnEvent} (own : OwnInv s) (takes : ownTakes s event) (ran : ownStep s event = some t)
    (clean : ownClean s event) : OwnInv t := by
  cases event with
  | step event => exact stepOwned own takes ran
  | truncate fuel ino freeFrom =>
    simp only [ownStep] at ran
    split at ran
    · rename_i inside
      have low : freeFrom < maxBlocks := by
        by_contra high
        unfold OwnRun.truncate Fs.truncate at ran
        rw [if_neg high] at ran
        contradiction
      have at_ := TreePath.indexOfIndex freeFrom low
      exact (truncateOwned own takes.1.1 takes.1.2 inside at_ (clean _ at_) ran).1
    · contradiction
  | evict fuel ino nlink => exact evictOwned own takes.1 ran

theorem ownFails {s t : OwnRun} {event : OwnEvent} (own : OwnInv s) (takes : ownTakes s event) (ran : ownStep s event = some t)
    (dirty : ¬ownClean s event) : ¬SingleOwner t := by
  cases event with
  | step event => exact absurd trivial dirty
  | truncate fuel ino freeFrom =>
    simp only [ownStep] at ran
    split at ran
    · rename_i inside
      simp only [ownClean,not_forall] at dirty
      obtain ⟨cut,at_,unclean⟩ := dirty
      exact truncateDangles own takes.1.2 inside at_ unclean ran
    · contradiction
  | evict fuel ino nlink => exact absurd trivial dirty

section
variable {rootAddr metaAddr dot dotdot : Nat}

theorem freshOwned (root : rootAddr ≠ 0) (inode : metaAddr ≠ 0) : OwnInv (freshOwn rootAddr metaAddr dot dotdot) :=
  ⟨freshInv root inode,fun n _ bad => by cases bad⟩

/-- In a run since `mkfs` whose mounts find the NAT as it was, every nid of the trees has one owner
and is neither free nor given back, exactly when no truncate hands over a pointer that it keeps. -/
theorem nidsSingleOwner {events : List OwnEvent} (root : rootAddr ≠ 0) (inode : metaAddr ≠ 0)
    (fits : Meets ownFits ownStep (freshOwn rootAddr metaAddr dot dotdot) events)
    (restored : Meets ownRestored ownStep (freshOwn rootAddr metaAddr dot dotdot) events) :
    Always SingleOwner ownStep (freshOwn rootAddr metaAddr dot dotdot) events ↔
      Meets ownClean ownStep (freshOwn rootAddr metaAddr dot dotdot) events :=
  alwaysExact OwnInv (fun _ => ownSingle) (fun _ _ _ own takes ran clean => ownKeeps own takes ran clean)
    (fun _ _ _ own takes ran dirty => ownFails own takes ran dirty) (freshOwned root inode) (meetsBoth fits restored)

end

/-- A file is created, written and truncated to nothing, and another one created after it. -/
theorem nidsSingleOwnerEmptied : Always SingleOwner ownStep (freshOwn 20 12 30 31)
    [.step (.newInode natFuel 900),.step (.walk natFuel 900 2730454 2936 true),.truncate natFuel 2730454 0,
      .step (.newInode natFuel 900)] := by
  refine (nidsSingleOwner (by decide) (by decide) ?_ ?_).mpr ?_
  · exact fun _ _ => ⟨⟨le_rfl,by decide⟩,fun _ _ => ⟨⟨le_rfl,fun bad => absurd bad (by decide),fun _ _ => by decide⟩,
      fun _ _ => ⟨⟨le_rfl,by decide⟩,fun _ _ => ⟨⟨le_rfl,by decide⟩,trivial⟩⟩⟩⟩
  · exact fun _ _ => ⟨trivial,fun _ _ => ⟨trivial,fun _ _ => ⟨trivial,fun _ _ => ⟨trivial,trivial⟩⟩⟩⟩
  · refine fun _ _ => ⟨trivial,fun _ _ => ⟨trivial,fun _ _ => ⟨fun cut at_ => ?_,fun _ _ => ⟨trivial,trivial⟩⟩⟩⟩
    obtain rfl : cut = .inode 0 := TreePath.indexInjective at_
    intro i low a boundary
    cases boundary

/- NAT blocks read with less work, to run the code on a fresh image. -/
section
variable {nm : NatInfo} {nid : Nat} {held : List Nat}

def pushNat (nm : NatInfo) (nid : Nat) (raw : RawNat) : NatInfo :=
  if raw.blockAddr ≠ 0 then { nm with natList := ⟨false,false,nid,raw.ino,raw.blockAddr⟩ :: nm.natList }
  else { nm with freeNat := ⟨false,false,nid,raw.ino,raw.blockAddr⟩ :: nm.freeNat }

/- `insertBlock` with one look at the lists for all entries of the block. -/
def insertOnce (nm : NatInfo) (rawNats : NatBlock) (iblock : Nat) : NatInfo :=
  let held := ((nm.natList ++ nm.freeNat).map NatEntry.nid).filter fun nid => nid / natEntryPerBlock = iblock
  (List.range natEntryPerBlock).foldl (fun nm i =>
    if iblock * natEntryPerBlock + i < 3 then nm
    else if iblock * natEntryPerBlock + i ∈ held then nm else pushNat nm (iblock * natEntryPerBlock + i) (rawNats i)) nm

theorem insertPush (raw : RawNat) (same : nid ∈ held ↔ (nm.lookup nid).isSome = true) :
    (insertNat nm nid raw.ino raw.blockAddr false false).1 = if nid ∈ held then nm else pushNat nm nid raw := by
  unfold insertNat pushNat
  simp only [same]
  cases nm.lookup nid with
  | some ne => rfl
  | none =>
    dsimp only [Option.isSome_none]
    split <;> rfl

theorem lookupHeld : (nm.lookup nid).isSome = true ↔ nid ∈ (nm.natList ++ nm.freeNat).map NatEntry.nid := by
  have whole : nm.lookup nid = (nm.natList ++ nm.freeNat).find? fun ne => ne.nid = nid := List.find?_append.symm
  rw [whole,List.find?_isSome,List.mem_map]
  simp only [decide_eq_true_eq]

theorem pushesOnce (rawNats : NatBlock) (base : Nat) {offsets : List Nat} (distinct : offsets.Nodup)
    (same : ∀ i ∈ offsets, base + i ∈ held ↔ (nm.lookup (base + i)).isSome = true) :
    offsets.foldl (fun nm i => if base + i < 3 then nm
      else (insertNat nm (base + i) (rawNats i).ino (rawNats i).blockAddr false false).1) nm =
    offsets.foldl (fun nm i => if base + i < 3 then nm
      else if base + i ∈ held then nm else pushNat nm (base + i) (rawNats i)) nm := by
  induction offsets generalizing nm with
  | nil => rfl
  | cons i rest ih =>
    obtain ⟨apart,distinctRest⟩ := List.nodup_cons.mp distinct
    rw [List.foldl_cons,List.foldl_cons,← insertPush (rawNats i) (same i List.mem_cons_self)]
    refine ih distinctRest fun j member => (same j (List.mem_cons_of_mem i member)).trans ?_
    split
    · rfl
    · have other : base + i ≠ base + j := by
        intro both
        exact apart (Nat.add_left_cancel both ▸ member)
      rw [lookupSlot,lookupSlot,slotInsert,if_neg fun both => other both.1]

theorem insertsOnce (nm : NatInfo) (rawNats : NatBlock) (iblock : Nat) : insertOnce nm rawNats iblock = insertBlock nm rawNats iblock := by
  refine (pushesOnce rawNats _ List.nodup_range fun i member => ?_).symm
  have inside : (iblock * natEntryPerBlock + i) / natEntryPerBlock = iblock := by
    have small := List.mem_range.mp member
    rw [natEntryPerBlockValue] at *
    omega
  rw [lookupHeld,List.mem_filter,decide_eq_true_eq]
  exact and_iff_left inside

def readOnce : (fuel iblock : Nat) → Fs → Option Fs
  | 0,_,_ => none
  | fuel + 1,iblock,s =>
    let prepared := if s.metaPages iblock then some s else
      (Fs.getDnodePage (readOnce fuel) true fuel metaIno iblock s).bind fun (s,found) =>
        found.map fun _ => { s with metaPages := Function.update s.metaPages iblock true }
    prepared.map fun s => { s with nat := { s.nat with nm := insertOnce s.nat.nm (s.nat.file iblock) iblock } }

theorem readsOnce (fuel : Nat) : readOnce fuel = Fs.readRawNatBlock fuel := by
  induction fuel with
  | zero => rfl
  | succ fuel ih =>
    funext iblock s
    simp only [readOnce,Fs.readRawNatBlock,ih,insertsOnce]

end

/- A file gets its block 2936, the first one below the first node of pointers, and is truncated to
the blocks before it. -/
def danglingRun : List OwnEvent :=
  [.step (.newInode natFuel 900),.step (.walk natFuel 900 2730454 2936 true),.truncate natFuel 2730454 2936]

def danglingEnd (t : OwnRun) : Bool :=
  t.mount.inodes 2730454 && t.freed 2730452 && decide ((t.mount.fs.content 2730454).iNid 2 = 2730453) &&
    decide ((t.mount.fs.content 2730453).slot 0 = 2730452)

theorem danglingRuns : (exec ownStep (freshOwn 20 12 30 31) danglingRun).any danglingEnd = true := by
  unfold danglingRun
  simp only [exec,ownStep,mountStep,← readsOnce]
  decide +kernel

/-- The node of pointers keeps nid 2730452 in its first slot, and the NAT entry is given back. -/
theorem truncateKeepsGivenNid : ¬∀ (rootAddr metaAddr dot dotdot : Nat) (events : List OwnEvent), rootAddr ≠ 0 → metaAddr ≠ 0 →
    Meets ownFits ownStep (freshOwn rootAddr metaAddr dot dotdot) events →
    Meets ownRestored ownStep (freshOwn rootAddr metaAddr dot dotdot) events →
    Always SingleOwner ownStep (freshOwn rootAddr metaAddr dot dotdot) events := by
  intro claim
  have fits : Meets ownFits ownStep (freshOwn 20 12 30 31) danglingRun :=
    fun _ _ => ⟨⟨le_rfl,by decide⟩,fun _ _ => ⟨⟨le_rfl,fun bad => absurd bad (by decide),fun _ _ => by decide⟩,
      fun _ _ => ⟨⟨le_rfl,by decide⟩,trivial⟩⟩⟩
  have restored : Meets ownRestored ownStep (freshOwn 20 12 30 31) danglingRun :=
    fun _ _ => ⟨trivial,fun _ _ => ⟨trivial,fun _ _ => ⟨trivial,trivial⟩⟩⟩
  have runs := danglingRuns
  cases ran : exec ownStep (freshOwn 20 12 30 31) danglingRun with
  | none =>
    rw [ran] at runs
    contradiction
  | some t =>
    rw [ran,Option.any_some] at runs
    simp only [danglingEnd,Bool.and_eq_true,decide_eq_true_eq] at runs
    obtain ⟨⟨⟨inside,freed⟩,top⟩,slot⟩ := runs
    have single := alwaysEnd (claim 20 12 30 31 danglingRun (by decide) (by decide) fits restored) ran
    have path : follow (child t.mount.fs.content) 2730454 [.nid 2] = some 2730453 := followNid.mpr ⟨by rw [top]; decide,top.symm⟩
    have edge : child t.mount.fs.content 2730453 (.slot 0) = some 2730452 := ptrSome.mpr ⟨slot,by decide⟩
    have held : NidSlot t.mount 2730453 (.slot 0) 2730452 := ⟨2730454,[.nid 2],inside,⟨by decide,by decide,by decide⟩,path,edge⟩
    have unfreed := (single.used _ _ _ held).2
    rw [freed] at unfreed
    cases unfreed

end Xcpfs
