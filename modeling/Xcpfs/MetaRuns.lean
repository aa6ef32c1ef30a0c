import Xcpfs.BlockWrites
import Xcpfs.LookupEnds
import Xcpfs.NatFlush
import Xcpfs.TruncateFs

/-! The tree of the meta file over the runs of a mount, and lookups in them. Only the walks of
the meta file add to it, and they do as in a lookup; everything else takes other nids. -/
namespace Xcpfs
open PointerForest EventRun

/- Fuel for a block with those of the nodes on its path in it, and the search for a free nid. -/
def natFuel : Nat := defAddrsPerInode + 1

section
variable {inodes : Set Nat} {known : Nat → Bool} {s t u : Fs} {n nid ino fuel rounds searches iblock : Nat} {ne : NatEntry}

theorem enoughFuel (enough : natFuel ≤ fuel) : ∃ f, fuel = f + 1 ∧ defAddrsPerInode ≤ f := by
  obtain ⟨f,rfl⟩ := Nat.exists_eq_add_of_le enough
  exact ⟨defAddrsPerInode + f,by unfold natFuel; omega,Nat.le_add_right ..⟩

theorem loadSound (metaIn : metaIno ∈ inodes) (enough : natFuel ≤ fuel) (place : NatPlace iblock) (ok : FsOk inodes known s)
    (sound : MetaSound inodes s) (ran : Fs.readRawNatBlock fuel iblock s = some t) : MetaSound inodes t := by
  obtain ⟨f,rfl,fuelled⟩ := enoughFuel enough
  have range : iblock < natBlocks := place.elim (fun low => low.trans (by decide)) And.right
  have unlocked : Unlocked [] iblock := ⟨by simp,by simp,fun _ => ⟨by simp,by simp⟩⟩
  obtain ⟨v,ends⟩ := @rawBlockEnds inodes known s [] metaIn iblock range unlocked defAddrsPerInode f le_rfl fuelled 0 ok sound
  cases ran.symm.trans ends.plain
  exact ends.sound place

theorem nodePageSound (metaIn : metaIno ∈ inodes) (enough : natFuel ≤ fuel) (ok : FsOk inodes known s) (sound : MetaSound inodes s)
    (reached : Reached nodeShape inodes (child s.content) n) (ran : Fs.getNodePage (Fs.readRawNatBlock fuel) n s = some t) :
    MetaSound inodes t := by
  obtain ⟨f,rfl,fuelled⟩ := enoughFuel enough
  obtain ⟨v,kept,_,_,bare⟩ := nodeEnds metaIn (le_refl defAddrsPerInode) fuelled 0 ok sound reached
  cases ran.symm.trans bare
  exact kept.sound

theorem fileAllocSound (metaIn : metaIno ∈ inodes) (enough : natFuel ≤ fuel) {isMeta : Bool} (high : regNatStart ≤ iblock)
    (range : iblock + rounds ≤ natBlocks) (ok : FsOk inodes known s) (sound : MetaSound inodes s)
    (ran : Fs.allocFreeNat (Fs.readRawNatBlock fuel) isMeta rounds iblock s = some (t,ne)) :
    ∃ u nm now, MetaSound inodes u ∧ FsOk inodes now u ∧ Grown inodes s u ∧ freeNatEmpty u.nat.nm isMeta = some (nm,ne) ∧
      t = { u with nat := { u.nat with nm := nm } } := by
  induction rounds generalizing iblock s known with
  | zero =>
    unfold Fs.allocFreeNat at ran
    cases here : freeNatEmpty s.nat.nm isMeta with
    | none =>
      rw [here] at ran
      contradiction
    | some found =>
      rw [here] at ran
      cases ran
      exact ⟨s,found.1,known,sound,ok,grownSame rfl fun _ => id,here,rfl⟩
  | succ rounds ih =>
    unfold Fs.allocFreeNat at ran
    cases here : freeNatEmpty s.nat.nm isMeta with
    | none =>
      rw [here] at ran
      obtain ⟨v,loaded,rest⟩ := Option.bind_eq_some_iff.mp ran
      have soundV := loadSound metaIn enough (.inr ⟨high,by omega⟩) ok sound loaded
      obtain ⟨now,_,okV,grown⟩ := rawBlockLoading metaIn fuel known iblock s v ok loaded
      obtain ⟨u,nm,last,soundU,okU,further,taken,same⟩ := ih (by omega) (by omega) okV soundV rest
      exact ⟨u,nm,last,soundU,okU,grownTrans grown further,taken,same⟩
    | some found =>
      rw [here] at ran
      cases ran
      exact ⟨s,found.1,known,sound,ok,grownSame rfl fun _ => id,here,rfl⟩

theorem fileNodeSound (metaIn : metaIno ∈ inodes) (enough : natFuel ≤ fuel) (inside : ino ∈ inodes) (other : ino ≠ metaIno)
    (range : regNatStart + rounds ≤ natBlocks) {q : TreePath} {i m : Nat} (level : i < q.depth) (ok : FsOk inodes known s)
    (sound : MetaSound inodes s) (here : follow (child s.content) ino (q.nodes.take i) = some n) (held : s.cached n = true)
    (null : (s.nodes n).cell (Fs.levelEdge q.offsets i) = 0)
    (made : Fs.newNode (Fs.readRawNatBlock fuel) rounds ino n (Fs.levelEdge q.offsets i) s = some (t,m)) :
    (∃ now, FsOk inodes now t) ∧ MetaSound inodes t ∧ follow (child t.content) ino (q.nodes.take (i + 1)) = some m := by
  have whole := levelTake q level
  have place : NodePlace (q.nodes.take i ++ [Fs.levelEdge q.offsets i]) := whole ▸ levelPlace q (i + 1)
  obtain ⟨⟨now,_,okT,_⟩,step⟩ := newNodeAdvances (rawBlockLoading metaIn fuel) ok inside place here held null made
  obtain ⟨⟨w,ne⟩,alloc,same⟩ := Option.map_eq_some_iff.mp made
  rw [if_neg (by simp [other])] at alloc
  obtain ⟨x,nm,later,soundX,okX,grown,taken,rfl⟩ := fileAllocSound metaIn enough le_rfl range ok sound alloc
  cases same
  have attached := newNodeSound okX metaIn soundX inside place (grown.paths ino inside _ n (levelPlace q i) here)
    (grown.cached n held) taken fun bad => absurd bad other
  exact ⟨⟨now,okT⟩,attached,whole ▸ step⟩

theorem fileWalkSound (metaIn : metaIno ∈ inodes) (enough : natFuel ≤ fuel) (inside : ino ∈ inodes) (other : ino ≠ metaIno)
    {create : Bool} (range : create = true → regNatStart + rounds ≤ natBlocks) {q : TreePath} {left i : Nat} {found : Option Nat}
    (ok : FsOk inodes known s) (sound : MetaSound inodes s) (level : i ≤ q.depth) (deep : q.depth < i + left)
    (here : follow (child s.content) ino (q.nodes.take i) = some n)
    (ran : Fs.dnodeLoop (Fs.readRawNatBlock fuel) create rounds ino q.depth q.offsets left i n s = some (t,found)) :
    MetaSound inodes t := by
  induction left generalizing i n s known with
  | zero => omega
  | succ left ih =>
    unfold Fs.dnodeLoop at ran
    obtain ⟨u,read,rest⟩ := Option.bind_eq_some_iff.mp ran
    have loading := rawBlockLoading metaIn fuel
    have reached : Reached nodeShape inodes (child s.content) n := ⟨ino,inside,_,levelPlace q i,here⟩
    have soundU := nodePageSound metaIn enough ok sound reached read
    obtain ⟨⟨now,_,okU,grown⟩,held⟩ := getNodePageAdvances loading ok (ok.reached n reached) read
    have hereU := grown.paths ino inside _ n (levelPlace q i) here
    split at rest
    · cases rest
      exact soundU
    · have below : i < q.depth := by omega
      dsimp only at rest
      split at rest
      · rename_i next
        have step := (levelStep below hereU held).trans (ptrSome.mpr ⟨rfl,next⟩)
        exact ih okU soundU (by omega) (by omega) step rest
      · rename_i null
        split at rest
        · cases rest
          exact soundU
        · rename_i some_
          obtain ⟨⟨v,m⟩,made,rest⟩ := Option.bind_eq_some_iff.mp rest
          obtain ⟨⟨last,okV⟩,soundV,step⟩ := fileNodeSound metaIn enough inside other (range (by simpa using some_)) below okU soundU
            hereU held (not_not.mp null) made
          exact ih okV soundV (by omega) (by omega) step rest

theorem walkSound (metaIn : metaIno ∈ inodes) (enough : natFuel ≤ fuel) (inside : ino ∈ inodes) {create : Bool}
    (rounded : ino = metaIno → defAddrsPerInode ≤ rounds ∧ iblock < natBlocks)
    (range : ino ≠ metaIno → create = true → regNatStart + rounds ≤ natBlocks) {found : Option Nat} (ok : FsOk inodes known s)
    (sound : MetaSound inodes s) (ran : Fs.getDnodePage (Fs.readRawNatBlock fuel) create rounds ino iblock s = some (t,found)) :
    MetaSound inodes t := by
  have low : iblock < maxBlocks := by
    by_contra high
    unfold Fs.getDnodePage at ran
    rw [if_neg high] at ran
    contradiction
  obtain ⟨q,rfl⟩ : ∃ q : TreePath, q.index = iblock := ⟨_,TreePath.indexOfIndex iblock low⟩
  rw [(@getPathAt s [] (fun _ _ _ => .error .depth) (Fs.readRawNatBlock fuel) q create rounds ino).2] at ran
  by_cases own : ino = metaIno
  · subst own
    obtain ⟨f,rfl,fuelled⟩ := enoughFuel enough
    obtain ⟨f,rfl⟩ := Nat.exists_eq_succ_of_ne_zero (show f ≠ 0 by unfold defAddrsPerInode at fuelled; omega)
    have direct := @directReads inodes metaIn defAddrsPerInode 0 (f + 1)
    obtain ⟨v,_,kept,_,_,bare⟩ := @walkEnds inodes known s metaIno [] _ _ direct metaIn ⟨by simp,by simp⟩
      defAddrsPerInode rounds le_rfl (rounded rfl).1 create q (rounded rfl).2 4 0 ok sound (Nat.zero_le _) (depthFour q) rfl
    cases ran.symm.trans bare
    exact kept.sound
  · exact fileWalkSound metaIn enough inside own (range own) ok sound (Nat.zero_le _) (depthFour q) rfl ran

theorem readWalkEnds (metaIn : metaIno ∈ inodes) (enough : defAddrsPerInode ≤ rounds) (fuelled : defAddrsPerInode ≤ fuel)
    (inside : ino ∈ inodes) (depth searches : Nat) {q : TreePath} {left i : Nat} (ok : FsOk inodes known s) (sound : MetaSound inodes s)
    (level : i ≤ q.depth) (deep : q.depth < i + left) (here : follow (child s.content) ino (q.nodes.take i) = some n) :
    ∃ t, Quiet s t ∧ (∀ d, follow (child s.content) ino q.nodes = some d → t.cached d = true) ∧
      Locked.dnodeLoop (Locked.readRawNatBlock rounds (depth + 2)) [] false searches ino q.depth q.offsets left i n s =
        .ok (t,follow (child s.content) ino q.nodes) ∧
      Fs.dnodeLoop (Fs.readRawNatBlock (fuel + 1)) false searches ino q.depth q.offsets left i n s =
        some (t,follow (child s.content) ino q.nodes) := by
  induction left generalizing i n s known with
  | zero => omega
  | succ left ih =>
    have reached : Reached nodeShape inodes (child s.content) n := ⟨ino,inside,_,levelPlace q i,here⟩
    obtain ⟨u,kept,cached,locked,bare⟩ := nodeEnds metaIn enough fuelled depth ok sound reached
    obtain ⟨⟨now,_,okU,_⟩,_⟩ := getNodePageAdvances (rawBlockLoading metaIn _) ok (ok.reached n reached) bare
    have quiet := kept.quiet trivial
    have hereU : follow (child u.content) ino (q.nodes.take i) = some n := quiet.content ▸ here
    unfold Locked.dnodeLoop Fs.dnodeLoop
    rw [locked,bare]
    by_cases bottom : i = q.depth
    · have whole : q.nodes.take i = q.nodes := List.take_of_length_le (by rw [← TreePath.depthOfNodes]; omega)
      rw [whole] at here
      refine ⟨u,quiet,fun d path => ?_,?_⟩
      · cases here.symm.trans path
        exact cached
      · rw [here]
        exact ⟨if_pos bottom,if_pos bottom⟩
    · have edge := levelStep (show i < q.depth by omega) hereU cached
      by_cases null : (u.nodes n).cell (Fs.levelEdge q.offsets i) = 0
      · have missing : follow (child s.content) ino q.nodes = none := by
          rw [null] at edge
          rw [← quiet.content,← List.take_append_drop (i + 1) q.nodes,followAppend,edge]
          rfl
        rw [missing]
        have stops := not_not.mpr null
        refine ⟨u,quiet,fun d path => ?_,(if_neg bottom).trans ((if_neg stops).trans (if_pos rfl)),
          (if_neg bottom).trans ((if_neg stops).trans (if_pos rfl))⟩
        contradiction
      · have further := edge.trans (ptrSome.mpr ⟨rfl,null⟩)
        obtain ⟨t,quietT,heldT,walked,bareT⟩ := ih okU kept.sound (by omega) (by omega) further
        rw [quiet.content] at heldT walked bareT
        exact ⟨t,quietTrans quiet quietT,heldT,(if_neg bottom).trans ((if_pos null).trans walked),
          (if_neg bottom).trans ((if_pos null).trans bareT)⟩

theorem readReturns (metaIn : metaIno ∈ inodes) (enough : defAddrsPerInode ≤ rounds) (fuelled : defAddrsPerInode ≤ fuel)
    (inside : ino ∈ inodes) (depth searches : Nat) (q : TreePath) (ok : FsOk inodes known s) (sound : MetaSound inodes s) :
    ∃ t, Quiet s t ∧ (∀ d, follow (child s.content) ino q.nodes = some d → t.cached d = true) ∧
      Locked.getDnodePage (Locked.readRawNatBlock rounds (depth + 2)) [] false searches ino q.index s =
        .ok (t,follow (child s.content) ino q.nodes) ∧
      Fs.getDnodePage (Fs.readRawNatBlock (fuel + 1)) false searches ino q.index s =
        some (t,follow (child s.content) ino q.nodes) := by
  obtain ⟨t,quiet,held,walked,bare⟩ := readWalkEnds metaIn enough fuelled inside depth searches ok sound (Nat.zero_le _)
    (depthFour q) rfl
  have path := @getPathAt s [] (Locked.readRawNatBlock rounds (depth + 2)) (Fs.readRawNatBlock (fuel + 1)) q false searches ino
  exact ⟨t,quiet,held,path.1.trans walked,path.2.trans bare⟩

theorem updateFst (nm : NatInfo) (nid blkaddr : Nat) (pinned : Bool) (n : Nat) :
    ((updateNat nm nid blkaddr pinned).1.slot n).map Prod.fst = (nm.slot n).map Prod.fst := by
  rw [slotUpdate]
  cases found : nm.listed nid with
  | none => rfl
  | some ne =>
    dsimp only
    split
    · rename_i here
      rw [← here.1,slotListed.mpr found]
      rfl
    · rfl

theorem modifyFst (nm : NatInfo) (nid : Nat) {f : NatEntry → NatEntry} (keeps : ∀ ne, (f ne).nid = ne.nid) (n : Nat) :
    ((nm.modify nid f).slot n).map Prod.fst = (nm.slot n).map Prod.fst := by
  rw [slotModify keeps]
  split
  · cases nm.slot n <;> rfl
  · rfl

/- The tree of the meta file stays, the entries change in their lists, and NAT blocks that the
meta file has are written. -/
theorem changedSound {others : Set Nat} (sound : MetaSound inodes s) (pages : t.metaPages = s.metaPages)
    (paths : ∀ q, NodePlace q → follow (child t.content) metaIno q = follow (child s.content) metaIno q)
    (placed : ∀ n, Reached nodeShape others (child t.content) n → n = metaIno ∨ Allotted n)
    (slots : ∀ n, (t.nat.nm.slot n).map Prod.fst = (s.nat.nm.slot n).map Prod.fst)
    (blocks : ∀ n, t.nat.file.raw n ≠ s.nat.file.raw n → s.nat.nm.slot n ≠ none ∧
      ∀ q : TreePath, q.index = n / natEntryPerBlock → ∃ d, follow (child s.content) metaIno q.nodes = some d) :
    MetaSound others t := by
  have same : ∀ n used ne, s.nat.nm.slot n = some (used,ne) → ∃ ne, t.nat.nm.slot n = some (used,ne) := by
    intro n used ne here
    have flag := slots n
    rw [here] at flag
    obtain ⟨⟨other,entry⟩,there,rfl⟩ := Option.map_eq_some_iff.mp flag
    exact ⟨entry,there⟩
  have back : ∀ n used ne, t.nat.nm.slot n = some (used,ne) → ∃ ne, s.nat.nm.slot n = some (used,ne) := by
    intro n used ne here
    have flag := (slots n).symm
    rw [here] at flag
    obtain ⟨⟨other,entry⟩,there,rfl⟩ := Option.map_eq_some_iff.mp flag
    exact ⟨entry,there⟩
  refine ⟨?_,fun n ne free => ?_,placed,fun p n some_ place path => sound.nodes p n some_ place ((paths p place).symm.trans path),
    fun n high low notRoot apart => ?_,fun n high used q index => ?_,fun q here => ?_⟩
  · obtain ⟨ne,here⟩ := sound.cached
    exact same metaIno true ne here
  · obtain ⟨ne,there⟩ := back n false ne free
    exact sound.free n ne there
  · have before := sound.spare n high low notRoot fun p place path => apart p place ((paths p place).trans path)
    rcases before with ⟨ne,free⟩ | ⟨absent,zero⟩
    · exact .inl (same n false ne free)
    · refine .inr ⟨?_,?_⟩
      · have flag := slots n
        rw [absent] at flag
        exact Option.map_eq_none_iff.mp flag
      · by_cases kept : t.nat.file.raw n = s.nat.file.raw n
        · rw [kept]
          exact zero
        · exact absurd absent (blocks n kept).1
  · rw [paths q.nodes q.nodesPlace]
    by_cases kept : t.nat.file.raw n = s.nat.file.raw n
    · rw [kept] at used
      exact sound.stored n high used q index
    · exact (blocks n kept).2 q index
  · rw [pages] at here
    rw [paths q.nodes q.nodesPlace]
    exact sound.pages q here

theorem entrySound (sound : MetaSound inodes s) (content : t.content = s.content) (pages : t.metaPages = s.metaPages)
    (slots : ∀ n, (t.nat.nm.slot n).map Prod.fst = (s.nat.nm.slot n).map Prod.fst)
    (blocks : ∀ n, t.nat.file.raw n ≠ s.nat.file.raw n → s.nat.nm.slot n ≠ none ∧
      ∀ q : TreePath, q.index = n / natEntryPerBlock → ∃ d, follow (child s.content) metaIno q.nodes = some d) :
    MetaSound inodes t :=
  changedSound sound pages (fun q _ => by rw [content]) (content ▸ sound.placed) slots blocks

theorem treeSound {others : Set Nat} (sound : MetaSound inodes s) (nat : t.nat = s.nat) (pages : t.metaPages = s.metaPages)
    (paths : ∀ q, NodePlace q → follow (child t.content) metaIno q = follow (child s.content) metaIno q)
    (placed : ∀ n, Reached nodeShape others (child t.content) n → n = metaIno ∨ Allotted n) : MetaSound others t :=
  changedSound sound pages paths placed (fun n => by rw [nat]) fun n changed => absurd (by rw [nat]) changed

/- A page of the meta file, and the NAT block that `flush_nat` writes through it. -/
theorem natPageSound (metaIn : metaIno ∈ inodes) (enough : natFuel ≤ fuel) {q : TreePath} (range : q.index < natBlocks)
    (ok : FsOk inodes known s) (sound : MetaSound inodes s) (ran : s.natBlockPage fuel q.index = some t) :
    (∃ now, FsOk inodes now t) ∧ MetaSound inodes t ∧ ∃ d, follow (child t.content) metaIno q.nodes = some d := by
  unfold Fs.natBlockPage at ran
  split at ran
  · rename_i uptodate
    cases ran
    exact ⟨⟨known,ok⟩,sound,sound.pages q uptodate⟩
  · obtain ⟨⟨v,found⟩,walked,rest⟩ := Option.bind_eq_some_iff.mp ran
    obtain ⟨d,found,same⟩ := Option.map_eq_some_iff.mp rest
    rw [← same]
    have soundV := walkSound metaIn enough metaIn (fun _ => ⟨by unfold natFuel at enough; omega,range⟩)
      (fun bad => absurd rfl bad) ok sound walked
    obtain ⟨⟨now,_,okV,_⟩,path,index,facts,_⟩ := dnodePageAdvances (rawBlockLoading metaIn fuel) metaIn ok walked
    cases TreePath.indexInjective index
    obtain ⟨here,_⟩ := facts d found
    refine ⟨⟨now,okSame okV rfl okV.nat okV.named okV.fresh⟩,quietSound soundV (quietPage v _) (fun n absent new => absurd absent new)
      fun r set => ?_,d,here⟩
    by_cases own : r.index = q.index
    · rw [TreePath.indexInjective own]
      exact ⟨d,here⟩
    · dsimp only at set
      rw [Function.update_of_ne own] at set
      exact soundV.pages r set

theorem entryCleaned (ok : FsOk inodes known s) (found : s.nat.nm.listed nid = some ne)
    (made : t = { s with nat := flushEntry s.nat nid ne }) : t.content = s.content ∧ FsOk inodes known t := by
  obtain ⟨nat,_,addr⟩ := natOkFlush ok.nat s.nat.metaNat found
  have keeps : ∀ ne : NatEntry, { ne with dirty := false }.nid = ne.nid := fun _ => rfl
  have flags := @modifyFst s.nat.nm nid _ keeps
  have content : t.content = s.content := by
    rw [made]
    funext n
    exact contentSame rfl rfl (addr n)
  refine ⟨content,okSame ok content ?_ (fun bad free => ?_) ?_⟩
  · rw [made]
    exact nat
  · rw [made] at free
    have zero := flags 0
    rw [show (s.nat.nm.modify nid _).slot 0 = some (false,bad) from free] at zero
    obtain ⟨⟨used,other⟩,there,flag⟩ := Option.map_eq_some_iff.mp zero.symm
    cases flag
    exact ok.named other there
  · rw [made]
    exact ok.fresh

theorem flushSound (metaIn : metaIno ∈ inodes) (enough : natFuel ≤ fuel) (range : nid / natEntryPerBlock < natBlocks)
    (ok : FsOk inodes known s) (sound : MetaSound inodes s) (ran : s.flushEntry fuel nid = some t) :
    (∃ now, FsOk inodes now t) ∧ MetaSound inodes t := by
  obtain ⟨ne,listed,rest⟩ := Option.bind_eq_some_iff.mp ran
  split at rest
  · obtain ⟨q,index⟩ : ∃ q : TreePath, q.index = nid / natEntryPerBlock :=
      ⟨_,TreePath.indexOfIndex _ (range.trans (by decide))⟩
    rw [← index] at rest range
    obtain ⟨u,prepared,last⟩ := Option.bind_eq_some_iff.mp rest
    obtain ⟨⟨now,okU⟩,soundU,dnode⟩ := natPageSound metaIn enough range ok sound prepared
    obtain ⟨entry,found,same⟩ := Option.map_eq_some_iff.mp last
    obtain ⟨content,okT⟩ := entryCleaned okU found same.symm
    refine ⟨⟨now,okT⟩,entrySound soundU content ?_ (fun n => ?_) fun n changed => ?_⟩
    · rw [← same]
    · have keeps : ∀ ne : NatEntry, { ne with dirty := false }.nid = ne.nid := fun _ => rfl
      rw [← same]
      exact modifyFst u.nat.nm nid keeps n
    · rw [← same] at changed
      have here : nid = n := by
        by_contra differ
        refine changed ?_
        refine (rawWrite u.nat.file _).trans ?_
        exact if_neg differ
      subst here
      refine ⟨?_,fun r block => ?_⟩
      · rw [slotListed.mpr found]
        simp
      · rw [← index] at block
        rw [TreePath.indexInjective block]
        exact dnode
  · cases rest
    exact ⟨⟨known,ok⟩,sound⟩

theorem invalidateSound (metaIn : metaIno ∈ inodes) (enough : natFuel ≤ fuel) (allotted : Allotted nid) (held : s.cached nid = true)
    (ok : FsOk inodes known s) (sound : MetaSound inodes s) (ran : s.invalidateNat fuel nid = some t) :
    (∃ now, FsOk inodes now t) ∧ MetaSound inodes t := by
  obtain ⟨⟨now,_,okT,_⟩,_⟩ := invalidateAdvances metaIn ok (.inl held) ran
  obtain ⟨u,loaded,same⟩ := Option.map_eq_some_iff.mp ran
  have soundU : MetaSound inodes u := by
    split at loaded
    · cases loaded
      exact sound
    · exact loadSound metaIn enough allotted.2 ok sound loaded
  have heldU : u.cached nid = true := by
    split at loaded
    · cases loaded
      exact held
    · obtain ⟨_,_,_,grown⟩ := rawBlockLoading metaIn fuel known _ s u ok loaded
      exact grown.cached nid held
  refine ⟨⟨now,okT⟩,entrySound soundU ?_ ?_ (fun n => ?_) fun n changed => ?_⟩
  · rw [← same]
    funext n
    by_cases here : n = nid
    · subst here
      rw [contentHeld heldU]
      exact contentHeld heldU
    · exact contentSame rfl rfl (modifyAddrOther NatEntry.invalidatedNid (Ne.symm here))
  · rw [← same]
  · rw [← same]
    exact modifyFst u.nat.nm nid NatEntry.invalidatedNid n
  · rw [← same] at changed
    exact absurd rfl changed

theorem cutSound {freeFrom : Nat} {calls : List Call} (metaIn : metaIno ∈ inodes) (inside : ino ∈ inodes) (other : ino ≠ metaIno)
    (ok : FsOk inodes known s) (sound : MetaSound inodes s) (ran : s.truncate ino freeFrom = some (t,calls)) :
    FsOk inodes known t ∧ MetaSound inodes t := by
  have low : freeFrom < maxBlocks := by
    by_contra high
    unfold Fs.truncate at ran
    rw [if_neg high] at ran
    contradiction
  obtain ⟨_,cuts,okT⟩ := truncateCuts ok inside (TreePath.indexOfIndex freeFrom low) ran
  obtain ⟨trunc,content,_,done⟩ := cuts.done
  have pages : t.metaPages = s.metaPages := by
    unfold Fs.truncate at ran
    rw [if_pos low] at ran
    obtain ⟨_,_,same⟩ := Option.map_eq_some_iff.mp ran
    cases same
    rfl
  refine ⟨okT,treeSound sound cuts.nat pages (fun q place => ?_) fun n reached => ?_⟩
  · rw [← content]
    exact otherFollow ok.owned done inside metaIn (Ne.symm other) place
  · obtain ⟨r,root,p,place,path⟩ := reached
    refine sound.placed n ⟨r,root,p,place,followSub (fun n e m edge => ?_) path⟩
    rw [← content] at edge
    exact fewerChild done.fewer edge

theorem storeSound {d : Nat} {p : TreePath} (metaIn : metaIno ∈ inodes) (inside : ino ∈ inodes) (held : s.cached d = true)
    (here : follow (child s.content) ino p.nodes = some d) (ok : FsOk inodes known s) (sound : MetaSound inodes s)
    (blkaddr : Nat) : FsOk inodes known (s.storeBlock d p.index blkaddr) ∧ MetaSound inodes (s.storeBlock d p.index blkaddr) := by
  obtain ⟨okT,paths,_⟩ := storeKeepsTree ok inside held here blkaddr
  refine ⟨okT,treeSound sound rfl rfl (paths metaIno metaIn) fun n reached => sound.placed n ?_⟩
  obtain ⟨r,root,q,place,path⟩ := reached
  exact ⟨r,root,q,place,(paths r root q place).symm.trans path⟩

theorem writtenSound {blkaddr : Nat} (here : s.nat.nm.slot nid = some (true,ne)) (held : s.cached nid = true)
    (ok : FsOk inodes known s) (sound : MetaSound inodes s)
    (written : t = { s with nat := { s.nat with nm := (updateNat s.nat.nm nid blkaddr false).1 } }) :
    FsOk inodes known t ∧ MetaSound inodes t := by
  obtain ⟨content,okT,_⟩ := writtenOk ok here held blkaddr written
  refine ⟨okT,entrySound sound content (by rw [written]) (fun n => ?_) fun n changed => ?_⟩
  · rw [written]
    exact updateFst s.nat.nm nid blkaddr false n
  · rw [written] at changed
    exact absurd rfl changed

theorem takenOk {isMeta : Bool} {nm : NatInfo} (ok : FsOk inodes known s) (taken : freeNatEmpty s.nat.nm isMeta = some (nm,ne))
    (made : t = { s with nat := { s.nat with nm := nm.modify ne.nid NatUse.inode.mark } }) :
    t.content = s.content ∧ FsOk (insert ne.nid inodes) (fun n => known n || decide (ne.nid = n)) t ∧
      ∀ n, Reached nodeShape (insert ne.nid inodes) (child s.content) n →
        n = ne.nid ∨ Reached nodeShape inodes (child s.content) n := by
  obtain ⟨nonzero,unknown,zero⟩ := takenZero ok taken
  obtain ⟨natNow,_,natZero,_,natOther⟩ := natOkTake ok.nat taken .inode
  obtain ⟨free,_⟩ := @slotTake _ ne.nid _ _ _ ok.nat.distinct taken
  have content : t.content = s.content := by
    rw [made]
    funext n
    refine contentSame rfl rfl ?_
    by_cases same : ne.nid = n
    · subst same
      refine natZero.trans ?_
      unfold Fs.addr
      rw [natAddrSlot,free]
      exact congrArg some (ok.nat.unused ne.nid ne free).symm
    · exact natOther n same
  have leaf : ∀ e, child s.content ne.nid e = none := fun e => by
    unfold child
    rw [zero,zeroChild]
  have fresh : ¬Reached nodeShape inodes (child s.content) ne.nid := by
    intro reached
    rw [ok.reached _ reached] at unknown
    contradiction
  have reached : ∀ n, Reached nodeShape (insert ne.nid inodes) (child s.content) n →
      n = ne.nid ∨ Reached nodeShape inodes (child s.content) n := by
    rintro n ⟨r,rfl | root,p,place,path⟩
    · left
      cases p with
      | nil => exact (Option.some.inj path).symm
      | cons e rest =>
        obtain ⟨x,edge,_⟩ := Option.bind_eq_some_iff.mp path
        rw [leaf] at edge
        contradiction
    · exact .inr ⟨r,root,p,place,path⟩
  refine ⟨content,⟨?_,fun entry bad => ?_,fun n below => ?_,?_,fun n unknown => ?_⟩,reached⟩
  · rw [made]
    exact natNow
  · rw [made] at bad
    dsimp only at bad
    rw [takenSlot ok.nat.distinct taken .inode,if_neg nonzero] at bad
    exact ok.named entry bad
  · rw [content] at below
    rcases reached n below with rfl | old
    · simp
    · exact Bool.or_eq_true_iff.mpr (.inl (ok.reached n old))
  · rw [content]
    exact ownedInsert ok.owned fresh leaf
  · rw [made]
    exact ok.fresh n (Bool.or_eq_false_iff.mp unknown).1

theorem takenInode {nm : NatInfo} (ok : FsOk inodes known s) (sound : MetaSound inodes s)
    (taken : freeNatEmpty s.nat.nm false = some (nm,ne))
    (made : t = { s with nat := { s.nat with nm := nm.modify ne.nid NatUse.inode.mark } }) :
    (∃ now, FsOk (insert ne.nid inodes) now t) ∧ MetaSound (insert ne.nid inodes) t := by
  obtain ⟨content,okT,reached⟩ := takenOk ok taken made
  obtain ⟨free,kind,_⟩ := @slotTake _ ne.nid _ _ _ ok.nat.distinct taken
  have slots : ∀ x, t.nat.nm.slot x = if ne.nid = x then some (true,NatUse.inode.mark ne) else s.nat.nm.slot x := by
    rw [made]
    exact takenSlot ok.nat.distinct taken .inode
  refine ⟨⟨_,okT⟩,?_,fun n entry there => ?_,fun n below => ?_,content ▸ sound.nodes,fun n high low notRoot apart => ?_,?_,?_⟩
  · obtain ⟨entry,there⟩ := sound.cached
    refine ⟨entry,?_⟩
    rw [slots,if_neg,there]
    intro same
    rw [same,there] at free
    cases free
  · rw [slots] at there
    split at there
    · cases there
    · exact sound.free n entry there
  · rw [content] at below
    rcases reached n below with rfl | old
    · exact .inr (sound.free _ _ free)
    · exact sound.placed n old
  · have other : ne.nid ≠ n := by
      rintro rfl
      rw [(natDiv _).mpr (low.trans (by decide))] at kind
      contradiction
    have before := sound.spare n high low notRoot (content ▸ apart)
    unfold SpareNid
    rw [slots,if_neg other,made]
    exact before
  · rw [content,made]
    exact sound.stored
  · rw [content,made]
    exact sound.pages

theorem droppedOk (kept : s.addr nid ≠ some 0) (ok : FsOk inodes known s)
    (dropped : t = { s with cached := Function.update s.cached nid false }) : t.content = s.content ∧ FsOk inodes known t := by
  have content : t.content = s.content := by
    funext n
    rw [dropped]
    by_cases here : n = nid
    · subst here
      unfold Fs.content
      rw [if_pos (.inr kept),if_pos (.inr kept)]
    · exact contentSame rfl (Function.update_of_ne here ..) rfl
  refine ⟨content,okSame ok content ?_ ?_ fun n unknown => ?_⟩
  · rw [dropped]
    exact ok.nat
  · rw [dropped]
    exact ok.named
  · rw [dropped]
    dsimp only
    rw [Function.update_apply]
    split
    · rfl
    · exact ok.fresh n unknown

theorem dropSound (kept : s.addr nid ≠ some 0) (ok : FsOk inodes known s) (sound : MetaSound inodes s)
    (dropped : t = { s with cached := Function.update s.cached nid false }) : FsOk inodes known t ∧ MetaSound inodes t := by
  obtain ⟨content,okT⟩ := droppedOk kept ok dropped
  refine ⟨okT,treeSound sound ?_ ?_ (fun q _ => by rw [content]) (content ▸ sound.placed)⟩
  · rw [dropped]
  · rw [dropped]

/- What the next mount finds when the last checkpoint was complete: every node has its block, the
NAT gives each nid the address it had, and the superblock has the entry of inode 1. -/
structure Restores (inodes : Set Nat) (s : Fs) (disk : NatDisk) (nodes : NodeStore) : Prop where
  content : (mountFs disk nodes).content = s.content
  file : disk.file = s.nat.file
  written : ∀ m ∈ disk.metaNat, m.blockAddr ≠ 0
  inode : ∃ m ∈ disk.metaNat, m.nid = metaIno
  addr : ∀ n, 3 ≤ n → natAddr disk.file (xcpfsReadNats disk.metaNat) n = s.addr n
  reached : ∀ n, Reached nodeShape inodes (child s.content) n → ∃ a, natAddr disk.file (xcpfsReadNats disk.metaNat) n = some a ∧ a ≠ 0

theorem restoreSound {disk : NatDisk} {nodes : NodeStore} (ok : FsOk inodes known s) (sound : MetaSound inodes s)
    (restores : Restores inodes s disk nodes) :
    (∃ now, FsOk inodes now (mountFs disk nodes)) ∧ MetaSound inodes (mountFs disk nodes) := by
  have metaOk : MetaOk disk.metaNat := by
    refine ⟨?_,fun m member _ _ => restores.written m member⟩
    exact List.pairwise_iff_forall_sublist.mpr fun pair _ => restores.written _ (pair.subset (by simp))
  have listed : ∀ n, n ≠ 0 → ∀ used ne, (xcpfsReadNats disk.metaNat).slot n = some (used,ne) → used = true ∧ ne.blockAddr ≠ 0 := by
    intro n named used ne here
    obtain ⟨absent,present⟩ := readSlot metaOk named
    cases last : lastMeta disk.metaNat n with
    | none =>
      rw [absent last] at here
      contradiction
    | some m =>
      obtain ⟨member,_,flag,entry,there,address,unused⟩ := present m last
      rw [there] at here
      cases here
      have nonzero := restores.written m member
      refine ⟨?_,address ▸ nonzero⟩
      cases used with
      | true => rfl
      | false => exact absurd (unused rfl) nonzero
  have unfree : ∀ n ne, (xcpfsReadNats disk.metaNat).slot n ≠ some (false,ne) := by
    intro n ne free
    by_cases named : n = 0
    · subst named
      have absent : (xcpfsReadNats disk.metaNat).slot 0 = none := readUnnamed disk.metaNat
      rw [absent] at free
      contradiction
    · cases (listed n named false ne free).1
  classical
  refine ⟨⟨fun n => decide (Reached nodeShape inodes (child s.content) n),mountOk disk nodes (fun n member => ?_) (fun n below => ?_) ?_⟩,
    ?_,fun n ne free => absurd free (unfree n ne),restores.content ▸ sound.placed,restores.content ▸ sound.nodes,
    fun n high low notRoot apart => ?_,?_,fun q bad => by cases bad⟩
  · exact restores.reached n (of_decide_eq_true member)
  · rw [restores.content] at below
    exact decide_eq_true below
  · rw [restores.content]
    exact ok.owned
  · obtain ⟨m,member,named⟩ := restores.inode
    obtain ⟨_,present⟩ := readSlot metaOk (show metaIno ≠ 0 by decide)
    cases last : lastMeta disk.metaNat metaIno with
    | none => exact absurd named (lastMetaNone.mp last m member)
    | some found =>
      obtain ⟨_,_,used,ne,here,_⟩ := present found last
      obtain ⟨rfl,_⟩ := listed metaIno (by decide) used ne here
      exact ⟨ne,here⟩
  · have zero : natAddr disk.file (xcpfsReadNats disk.metaNat) n = some 0 := by
      rw [restores.addr n high]
      unfold Fs.addr
      rw [natAddrSlot]
      rcases sound.spare n high low notRoot (restores.content ▸ apart) with ⟨ne,free⟩ | ⟨absent,unused⟩
      · rw [free]
        exact congrArg some (ok.nat.unused n ne free)
      · rw [absent]
        dsimp only
        rw [if_pos high,unused]
    rw [natAddrSlot] at zero
    cases here : (xcpfsReadNats disk.metaNat).slot n with
    | some pair =>
      rw [here] at zero
      exact absurd (Option.some.inj zero) (listed n (by omega) pair.1 pair.2 here).2
    | none =>
      rw [here] at zero
      dsimp only at zero
      rw [if_pos high] at zero
      exact .inr ⟨here,Option.some.inj zero⟩
  · rw [restores.content]
    change ∀ n, 3 ≤ n → (disk.file.raw n).blockAddr ≠ 0 → _
    rw [restores.file]
    exact sound.stored

end

/- A mount with the inodes of its trees. -/
structure MountState where
  fs : Fs
  inodes : Nat → Bool

inductive MountEvent where
  | nodePage (fuel nid : Nat)
  | walk (fuel rounds ino iblock : Nat) (create : Bool)
  | metaPage (fuel iblock : Nat)
  | newInode (fuel rounds : Nat)
  | evict (ino : Nat)
  | storeAddr (ino iblock blkaddr : Nat)
  | updateNat (nid blkaddr : Nat)
  | flushNat (fuel nid : Nat)
  | truncate (ino freeFrom : Nat)
  | invalidateNat (fuel nid : Nat)
  | dropPage (nid : Nat)
  | remount (disk : NatDisk) (nodes : NodeStore)

def MountState.setFs (s : MountState) (fs : Fs) : MountState := { s with fs := fs }

/- `walk` is `get_dnode_page` for a data page and `metaPage` the same for a page of the meta file;
`storeAddr` and `updateNat` are the ends of a data and of a node write. -/
def mountStep (s : MountState) : MountEvent → Option MountState
  | .nodePage fuel nid => (Fs.getNodePage (Fs.readRawNatBlock fuel) nid s.fs).map s.setFs
  | .walk fuel rounds ino iblock create =>
    if s.inodes ino then
      (Fs.getDnodePage (Fs.readRawNatBlock fuel) create rounds ino iblock s.fs).map fun (fs,_) => s.setFs fs
    else none
  | .metaPage fuel iblock => (s.fs.natBlockPage fuel iblock).map s.setFs
  | .newInode fuel rounds =>
    (Fs.allocFreeNat (Fs.readRawNatBlock fuel) false rounds regNatStart s.fs).map fun (fs,ne) =>
      { fs := { fs with nat := { fs.nat with nm := fs.nat.nm.modify ne.nid NatUse.inode.mark } }
        inodes := Function.update s.inodes ne.nid true }
  | .evict ino => some { s with inodes := Function.update s.inodes ino false }
  | .storeAddr ino iblock blkaddr =>
    (getDnode s.fs.content ino iblock).map fun dnode => s.setFs (s.fs.storeBlock dnode iblock blkaddr)
  | .updateNat nid blkaddr =>
    some (s.setFs { s.fs with nat := { s.fs.nat with nm := (Xcpfs.updateNat s.fs.nat.nm nid blkaddr false).1 } })
  | .flushNat fuel nid => (s.fs.flushEntry fuel nid).map s.setFs
  | .truncate ino freeFrom => if s.inodes ino then (s.fs.truncate ino freeFrom).map fun (fs,_) => s.setFs fs else none
  | .invalidateNat fuel nid => (s.fs.invalidateNat fuel nid).map s.setFs
  | .dropPage nid => some (s.setFs { s.fs with cached := Function.update s.fs.cached nid false })
  | .remount disk nodes => some (s.setFs (mountFs disk nodes))

/- When the code takes these steps. Nids fit into an int; the inode of the meta file is neither
truncated nor evicted; a page that is written or whose nid is given back is in memory, and one
that leaves the memory has its block. -/
def mountFits (s : MountState) : MountEvent → Prop
  | .nodePage fuel nid => natFuel ≤ fuel ∧ Reached nodeShape {n | s.inodes n = true} (child s.fs.content) nid
  | .walk fuel rounds ino iblock create =>
    natFuel ≤ fuel ∧ (ino = metaIno → defAddrsPerInode ≤ rounds ∧ iblock < natBlocks) ∧
      (ino ≠ metaIno → create = true → regNatStart + rounds ≤ natBlocks)
  | .metaPage fuel iblock => natFuel ≤ fuel ∧ iblock < natBlocks
  | .newInode fuel rounds => natFuel ≤ fuel ∧ regNatStart + rounds ≤ natBlocks
  | .evict ino => ino ≠ metaIno
  | .storeAddr ino iblock _ => s.inodes ino = true ∧ iblock < maxBlocks ∧
      ∀ dnode, getDnode s.fs.content ino iblock = some dnode → s.fs.cached dnode = true
  | .updateNat nid _ => s.fs.cached nid = true ∧ ∃ ne, s.fs.nat.nm.slot nid = some (true,ne)
  | .flushNat fuel nid => natFuel ≤ fuel ∧ nid / natEntryPerBlock < natBlocks
  | .truncate ino _ => ino ≠ metaIno
  | .invalidateNat fuel nid => natFuel ≤ fuel ∧ Allotted nid ∧ s.fs.cached nid = true
  | .dropPage nid => s.fs.addr nid ≠ some 0
  | .remount .. => True

/- No mount comes after a checkpoint that dropped a NAT entry. -/
def Restored (s : MountState) : MountEvent → Prop
  | .remount disk nodes => Restores {n | s.inodes n = true} s.fs disk nodes
  | _ => True

/- The image of `mkfs`: a root directory with two blocks, an empty meta file, no NAT block. -/
def freshDisk (rootAddr metaAddr : Nat) : NatDisk := ⟨fun _ _ => ⟨0,0⟩,[⟨rootIno,rootIno,rootAddr⟩,⟨metaIno,metaIno,metaAddr⟩]⟩

def freshNodes (dot dotdot : Nat) : NodeStore :=
  Function.update (fun _ => .zero) rootIno ((NodePage.zero.setAddr 0 dot).setAddr 1 dotdot)

def freshMount (rootAddr metaAddr dot dotdot : Nat) : MountState :=
  ⟨mountFs (freshDisk rootAddr metaAddr) (freshNodes dot dotdot),fun n => n = metaIno ∨ n = rootIno⟩

structure MountInv (s : MountState) : Prop where
  metaIn : s.inodes metaIno = true
  ok : ∃ known, FsOk {n | s.inodes n = true} known s.fs
  sound : MetaSound {n | s.inodes n = true} s.fs

section
variable {s t : MountState} {rootAddr metaAddr dot dotdot : Nat}

theorem invFs (metaIn : s.inodes metaIno = true) {fs : Fs}
    (both : (∃ known, FsOk {n | s.inodes n = true} known fs) ∧ MetaSound {n | s.inodes n = true} fs) : MountInv (s.setFs fs) :=
  ⟨metaIn,both.1,both.2⟩

theorem insertInodes (inodes : Nat → Bool) (ino : Nat) :
    {n | Function.update inodes ino true n = true} = insert ino {n | inodes n = true} := by
  ext n
  simp only [Set.mem_ofPred_eq,Set.mem_insert_iff,Function.update_apply]
  by_cases here : n = ino
  · simp [here]
  · simp [here]

theorem fewerInodes {inodes : Nat → Bool} {ino n : Nat} (member : Function.update inodes ino false n = true) : inodes n = true := by
  rw [Function.update_apply] at member
  split at member
  · contradiction
  · exact member

theorem evictInv (inv : MountInv s) {ino : Nat} (other : ino ≠ metaIno) :
    MountInv { s with inodes := Function.update s.inodes ino false } := by
  obtain ⟨known,ok⟩ := inv.ok
  have below : ∀ n, Reached nodeShape {n | Function.update s.inodes ino false n = true} (child s.fs.content) n →
      Reached nodeShape {n | s.inodes n = true} (child s.fs.content) n := by
    rintro n ⟨r,root,rest⟩
    exact ⟨r,fewerInodes root,rest⟩
  refine ⟨(Function.update_of_ne (Ne.symm other) ..).trans inv.metaIn,⟨known,ok.nat,ok.named,fun n reached => ?_,?_,ok.fresh⟩,
    treeSound inv.sound rfl rfl (fun _ _ => rfl) fun n reached => inv.sound.placed n (below n reached)⟩
  · exact ok.reached n (below n reached)
  · exact ownedRoots (fun _ => fewerInodes) ok.owned

theorem newInodeInv (inv : MountInv s) {fuel rounds : Nat} (enough : natFuel ≤ fuel) (range : regNatStart + rounds ≤ natBlocks)
    (ran : mountStep s (.newInode fuel rounds) = some t) : MountInv t := by
  obtain ⟨known,ok⟩ := inv.ok
  obtain ⟨⟨fs,ne⟩,alloc,same⟩ := Option.map_eq_some_iff.mp ran
  obtain ⟨u,nm,now,soundU,okU,_,taken,rfl⟩ := fileAllocSound inv.metaIn enough le_rfl range ok inv.sound alloc
  obtain ⟨okT,soundT⟩ := takenInode okU soundU taken rfl
  have roots := insertInodes s.inodes ne.nid
  rw [← same]
  refine ⟨?_,?_,?_⟩
  · dsimp only
    rw [Function.update_apply]
    split
    · rfl
    · exact inv.metaIn
  · rw [roots]
    exact okT
  · rw [roots]
    exact soundT

theorem mountStepKeeps {event : MountEvent} (inv : MountInv s) (ran : mountStep s event = some t) (fits : mountFits s event)
    (restored : Restored s event) : MountInv t := by
  obtain ⟨known,ok⟩ := inv.ok
  have metaIn : metaIno ∈ {n | s.inodes n = true} := inv.metaIn
  cases event with
  | nodePage fuel nid =>
    simp only [mountStep] at ran
    obtain ⟨fs,read,rfl⟩ := Option.map_eq_some_iff.mp ran
    obtain ⟨⟨now,_,okT,_⟩,_⟩ := getNodePageAdvances (rawBlockLoading metaIn fuel) ok (ok.reached nid fits.2) read
    exact invFs inv.metaIn ⟨⟨now,okT⟩,nodePageSound metaIn fits.1 ok inv.sound fits.2 read⟩
  | walk fuel rounds ino iblock create =>
    simp only [mountStep] at ran
    split at ran
    · rename_i inside
      obtain ⟨⟨fs,found⟩,walked,rfl⟩ := Option.map_eq_some_iff.mp ran
      obtain ⟨⟨now,_,okT,_⟩,_⟩ := dnodePageAdvances (rawBlockLoading metaIn fuel) inside ok walked
      exact invFs inv.metaIn ⟨⟨now,okT⟩,walkSound metaIn fits.1 inside fits.2.1 fits.2.2 ok inv.sound walked⟩
    · contradiction
  | metaPage fuel iblock =>
    simp only [mountStep] at ran
    obtain ⟨fs,prepared,rfl⟩ := Option.map_eq_some_iff.mp ran
    obtain ⟨q,rfl⟩ : ∃ q : TreePath, q.index = iblock := ⟨_,TreePath.indexOfIndex iblock (fits.2.trans (by decide))⟩
    obtain ⟨okT,soundT,_⟩ := natPageSound metaIn fits.1 fits.2 ok inv.sound prepared
    exact invFs inv.metaIn ⟨okT,soundT⟩
  | newInode fuel rounds => exact newInodeInv inv fits.1 fits.2 ran
  | evict ino =>
    cases ran
    exact evictInv inv fits
  | storeAddr ino iblock blkaddr =>
    simp only [mountStep] at ran
    obtain ⟨dnode,found,rfl⟩ := Option.map_eq_some_iff.mp ran
    obtain ⟨inside,low,held⟩ := fits
    obtain ⟨q,rfl⟩ : ∃ q : TreePath, q.index = iblock := ⟨_,TreePath.indexOfIndex iblock low⟩
    have here := (getDnodeAt s.fs.content ino q).symm.trans found
    obtain ⟨okT,soundT⟩ := storeSound metaIn inside (held dnode found) here ok inv.sound blkaddr
    exact invFs inv.metaIn ⟨⟨known,okT⟩,soundT⟩
  | updateNat nid blkaddr =>
    cases ran
    obtain ⟨held,ne,here⟩ := fits
    obtain ⟨okT,soundT⟩ := writtenSound here held ok inv.sound rfl
    exact invFs inv.metaIn ⟨⟨known,okT⟩,soundT⟩
  | flushNat fuel nid =>
    simp only [mountStep] at ran
    obtain ⟨fs,flushed,rfl⟩ := Option.map_eq_some_iff.mp ran
    exact invFs inv.metaIn (flushSound metaIn fits.1 fits.2 ok inv.sound flushed)
  | truncate ino freeFrom =>
    simp only [mountStep] at ran
    split at ran
    · rename_i inside
      obtain ⟨⟨fs,calls⟩,cut,rfl⟩ := Option.map_eq_some_iff.mp ran
      obtain ⟨okT,soundT⟩ := cutSound metaIn inside fits ok inv.sound cut
      exact invFs inv.metaIn ⟨⟨known,okT⟩,soundT⟩
    · contradiction
  | invalidateNat fuel nid =>
    simp only [mountStep] at ran
    obtain ⟨fs,done,rfl⟩ := Option.map_eq_some_iff.mp ran
    exact invFs inv.metaIn (invalidateSound metaIn fits.1 fits.2.1 fits.2.2 ok inv.sound done)
  | dropPage nid =>
    cases ran
    obtain ⟨okT,soundT⟩ := dropSound fits ok inv.sound rfl
    exact invFs inv.metaIn ⟨⟨known,okT⟩,soundT⟩
  | remount disk nodes =>
    cases ran
    exact invFs inv.metaIn (restoreSound ok inv.sound restored)

theorem freshLeaf (n : Nat) (e : Edge) : child (freshMount rootAddr metaAddr dot dotdot).fs.content n e = none := by
  have plain : child (freshNodes dot dotdot) n e = none := by
    unfold child freshNodes
    rw [Function.update_apply]
    split
    · cases e <;> rfl
    · exact zeroChild e
  unfold child Fs.content
  split
  · exact plain
  · exact zeroChild e

theorem freshSlot (root : rootAddr ≠ 0) (inode : metaAddr ≠ 0) (n : Nat) :
    (xcpfsReadNats (freshDisk rootAddr metaAddr).metaNat).slot n =
      if n = metaIno then some (true,⟨true,false,metaIno,metaIno,metaAddr⟩)
      else if n = rootIno then some (true,⟨true,false,rootIno,rootIno,rootAddr⟩) else none := by
  have cache : xcpfsReadNats (freshDisk rootAddr metaAddr).metaNat =
      ⟨[⟨true,false,metaIno,metaIno,metaAddr⟩,⟨true,false,rootIno,rootIno,rootAddr⟩],[]⟩ := by
    simp [xcpfsReadNats,freshDisk,readMetaNat,insertNat,updateNat,NatInfo.lookup,NatInfo.listed,NatInfo.free,root,inode,rootIno,metaIno]
  rw [cache]
  simp only [NatInfo.slot,NatInfo.listed,NatInfo.free,List.find?_nil,Option.map_none,Option.or_none]
  by_cases top : n = metaIno
  · rw [top]
    rfl
  · rw [if_neg top,List.find?_cons_of_neg (by simpa using Ne.symm top)]
    by_cases dir : n = rootIno
    · rw [dir]
      rfl
    · rw [if_neg dir,List.find?_cons_of_neg (by simpa using Ne.symm dir)]
      rfl

/- A mount of inodes that have no nodes, with the entries of exactly these in its superblock. -/
theorem leafInv {disk : NatDisk} {nodes : NodeStore} (mounted : s.fs = mountFs disk nodes) (metaIn : s.inodes metaIno = true)
    (leaf : ∀ n e, child s.fs.content n e = none) (blank : ∀ n, (disk.file.raw n).blockAddr = 0)
    (listed : ∀ n, s.inodes n = true → (n = metaIno ∨ Allotted n) ∧
      ∃ ne, (xcpfsReadNats disk.metaNat).slot n = some (true,ne) ∧ ne.blockAddr ≠ 0)
    (absent : ∀ n, s.inodes n = false → (xcpfsReadNats disk.metaNat).slot n = none)
    (few : ∀ n, s.inodes n = true → n / natEntryPerBlock < defAddrsPerInode → n = metaIno ∨ n = rootIno) : MountInv s := by
  have reached : ∀ n, Reached nodeShape {n | s.inodes n = true} (child s.fs.content) n → s.inodes n = true := by
    rintro n ⟨r,member,p,_,path⟩
    obtain ⟨_,rfl⟩ := followLeaf leaf path
    exact member
  have nat : s.fs.nat = mountNat disk := by rw [mounted,mountFs]
  refine ⟨metaIn,⟨s.inodes,?_⟩,?_,fun n ne free => ?_,fun n below => (listed n (reached n below)).1,fun p n some_ _ path => ?_,
    fun n high low notRoot apart => ?_,fun n _ used => ?_,fun q bad => ?_⟩
  · have roots : Owned nodeShape {n | s.inodes n = true} (child s.fs.content) := ownedLeaf leaf
    rw [mounted] at reached roots ⊢
    refine mountOk disk nodes (fun n member => ?_) reached roots
    obtain ⟨_,ne,here,address⟩ := listed n member
    rw [natAddrSlot,here]
    exact ⟨ne.blockAddr,rfl,address⟩
  · obtain ⟨_,ne,here,_⟩ := listed metaIno metaIn
    rw [nat]
    exact ⟨ne,here⟩
  · rw [nat] at free
    cases inside : s.inodes n with
    | false => exact absurd ((absent n inside).symm.trans free) (by simp)
    | true =>
      obtain ⟨_,entry,here,_⟩ := listed n inside
      cases here.symm.trans free
  · exact absurd (followLeaf leaf path).1 some_
  · have outside : s.inodes n = false := by
      cases inside : s.inodes n with
      | false => rfl
      | true =>
        have small : metaIno < 3 := by decide
        exact absurd (few n inside low) (by omega)
    refine .inr ⟨?_,?_⟩
    · rw [nat]
      exact absent n outside
    · rw [nat]
      exact blank n
  · rw [nat] at used
    exact absurd (blank n) used
  · rw [mounted] at bad
    cases bad

theorem freshInv (root : rootAddr ≠ 0) (inode : metaAddr ≠ 0) : MountInv (freshMount rootAddr metaAddr dot dotdot) := by
  have slots := freshSlot root inode
  refine leafInv rfl rfl freshLeaf (fun _ => rfl) (fun n member => ?_) (fun n outside => ?_) fun n member _ => of_decide_eq_true member
  · rw [slots]
    rcases of_decide_eq_true member with rfl | rfl
    · exact ⟨.inl rfl,_,rfl,inode⟩
    · exact ⟨.inr ⟨by decide,.inl (by decide)⟩,_,rfl,root⟩
  · have neither : ¬(n = metaIno ∨ n = rootIno) := of_decide_eq_false outside
    rw [not_or] at neither
    rw [slots,if_neg neither.1,if_neg neither.2]

end

end Xcpfs
