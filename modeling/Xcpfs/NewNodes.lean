import Xcpfs.TruncateFs

/-! The nodes that the way to a dnode page adds to the trees. They are taken from the free list,
so none of them was in use before, also where a NAT block is read for one and gets nodes itself. -/
namespace Xcpfs
open PointerForest

/- Every node of the trees was in them before, or its nid was not in use. -/
def OnlyNew (inodes : Set Nat) (known : Nat → Bool) (s t : Fs) : Prop :=
  ∀ n, Reached nodeShape inodes (child t.content) n → Reached nodeShape inodes (child s.content) n ∨ known n = false

def LoadsNew (inodes : Set Nat) (load : Nat → Fs → Option Fs) : Prop :=
  ∀ known iblock s t, FsOk inodes known s → load iblock s = some t → OnlyNew inodes known s t

section
variable {inodes : Set Nat} {known now : Nat → Bool} {load : Nat → Fs → Option Fs} {s t u : Fs} {nid ino n : Nat} {ne : NatEntry}
  {e : Edge} {p : List Edge}

theorem onlyNewSame (content : t.content = s.content) : OnlyNew inodes known s t := by
  intro n reached
  rw [content] at reached
  exact .inl reached

theorem onlyNewTrans (first : OnlyNew inodes known s t) (more : ∀ n, known n = true → now n = true)
    (second : OnlyNew inodes now t u) : OnlyNew inodes known s u := by
  intro n reached
  rcases second n reached with old | unknown
  · exact first n old
  · right
    cases member : known n with
    | false => rfl
    | true => exact (more n member).symm.trans unknown

theorem lookupNew (loads : LoadsNew inodes load) (ok : FsOk inodes known s) (ran : Fs.lookupNat load nid s = some (t,ne)) :
    OnlyNew inodes known s t := by
  unfold Fs.lookupNat at ran
  cases here : s.nat.nm.lookup nid with
  | some found =>
    rw [here] at ran
    cases ran
    exact onlyNewSame rfl
  | none =>
    rw [here] at ran
    obtain ⟨u,loaded,rest⟩ := Option.bind_eq_some_iff.mp ran
    obtain ⟨found,_,same⟩ := Option.map_eq_some_iff.mp rest
    cases same
    exact loads known _ s t ok loaded

theorem nodePageNew (loading : Loading inodes load) (loads : LoadsNew inodes load) (ok : FsOk inodes known s)
    (ran : Fs.getNodePage load nid s = some t) : OnlyNew inodes known s t := by
  unfold Fs.getNodePage at ran
  split at ran
  · cases ran
    exact onlyNewSame rfl
  · obtain ⟨⟨u,ne⟩,looked,same⟩ := Option.map_eq_some_iff.mp ran
    obtain ⟨⟨now,more,_⟩,found⟩ := lookupAdvances loading ok looked
    rw [← same]
    exact onlyNewTrans (lookupNew loads ok looked) more (onlyNewSame (holdContent found))

theorem allocNew (loading : Loading inodes load) (loads : LoadsNew inodes load) {isMeta : Bool} {rounds iblock : Nat}
    (ok : FsOk inodes known s) (ran : Fs.allocFreeNat load isMeta rounds iblock s = some (t,ne)) :
    ∃ u nm, Advances inodes known s u ∧ OnlyNew inodes known s u ∧ freeNatEmpty u.nat.nm isMeta = some (nm,ne) ∧
      t = { u with nat := { u.nat with nm := nm } } := by
  induction rounds generalizing iblock s known with
  | zero =>
    unfold Fs.allocFreeNat at ran
    cases here : freeNatEmpty s.nat.nm isMeta with
    | none =>
      rw [here] at ran
      contradiction
    | some found =>
      rw [here] at ran
      cases ran
      exact ⟨s,found.1,advancesRefl ok,onlyNewSame rfl,here,rfl⟩
  | succ rounds ih =>
    unfold Fs.allocFreeNat at ran
    cases here : freeNatEmpty s.nat.nm isMeta with
    | none =>
      rw [here] at ran
      obtain ⟨v,loaded,rest⟩ := Option.bind_eq_some_iff.mp ran
      obtain ⟨now,more,okV,grown⟩ := loading known _ s v ok loaded
      obtain ⟨u,nm,further,new,taken,same⟩ := ih okV rest
      exact ⟨u,nm,advancesThen more grown further,onlyNewTrans (loads known _ s v ok loaded) more new,taken,same⟩
    | some found =>
      rw [here] at ran
      cases ran
      exact ⟨s,found.1,advancesRefl ok,onlyNewSame rfl,here,rfl⟩

theorem newNodeNew (loading : Loading inodes load) (loads : LoadsNew inodes load) {rounds m : Nat} (ok : FsOk inodes known s)
    (inside : ino ∈ inodes) (place : NodePlace (p ++ [e])) (here : follow (child s.content) ino p = some n)
    (held : s.cached n = true) (ran : Fs.newNode load rounds ino n e s = some (t,m)) : OnlyNew inodes known s t := by
  obtain ⟨⟨v,ne⟩,alloc,same⟩ := Option.map_eq_some_iff.mp ran
  obtain ⟨u,nm,⟨now,more,okU,grown⟩,new,taken,rfl⟩ := allocNew loading loads ok alloc
  obtain ⟨rfl,rfl⟩ := Prod.mk.inj same
  obtain ⟨nonzero,unknown,zero⟩ := takenZero okU taken
  have parent := nodePlaceParent p e place
  have hereU := grown.paths ino inside p n parent here
  have fresh : ¬Reached nodeShape inodes (child u.content) ne.nid := by
    intro reached
    rw [okU.reached _ reached] at unknown
    contradiction
  have leaf : ∀ y, child u.content ne.nid y = none := fun y => by
    unfold child
    rw [zero,zeroChild]
  have attached := takenContent okU (grown.cached n held) taken ino e
  refine onlyNewTrans new more fun x reached => ?_
  obtain ⟨r,root,q,valid,path⟩ := reached
  dsimp only at path
  rw [attached,storeAttach nonzero] at path
  rcases attachPaths okU.owned inside parent hereU fresh leaf root valid path with old | ⟨_,_,rfl⟩
  · exact .inl ⟨r,root,q,valid,old⟩
  · exact .inr unknown

theorem dnodeLoopNew (loading : Loading inodes load) (loads : LoadsNew inodes load) {create : Bool} {rounds left i : Nat}
    {found : Option Nat} {q : TreePath} (inside : ino ∈ inodes) (ok : FsOk inodes known s) (level : i ≤ q.depth)
    (enough : q.depth < i + left) (here : follow (child s.content) ino (q.nodes.take i) = some n)
    (ran : Fs.dnodeLoop load create rounds ino q.depth q.offsets left i n s = some (t,found)) : OnlyNew inodes known s t := by
  induction left generalizing i n s known with
  | zero => omega
  | succ left ih =>
    unfold Fs.dnodeLoop at ran
    obtain ⟨u,read,rest⟩ := Option.bind_eq_some_iff.mp ran
    have member := ok.reached n ⟨ino,inside,_,levelPlace q i,here⟩
    obtain ⟨⟨now,more,okU,grown⟩,held⟩ := getNodePageAdvances loading ok member read
    have first := nodePageNew loading loads ok read
    have hereU := grown.paths ino inside _ n (levelPlace q i) here
    split at rest
    · cases rest
      exact first
    · have below : i < q.depth := by omega
      have whole := levelTake q below
      dsimp only at rest
      split at rest
      · rename_i next
        have step := (levelStep below hereU held).trans (ptrSome.mpr ⟨rfl,next⟩)
        exact onlyNewTrans first more (ih okU (by omega) (by omega) step rest)
      · rename_i null
        split at rest
        · cases rest
          exact first
        · obtain ⟨⟨v,m⟩,made,rest⟩ := Option.bind_eq_some_iff.mp rest
          have place : NodePlace (q.nodes.take i ++ [Fs.levelEdge q.offsets i]) := whole ▸ levelPlace q (i + 1)
          have second := newNodeNew loading loads okU inside place hereU held made
          obtain ⟨⟨last,later,okV,_⟩,step⟩ := newNodeAdvances loading okU inside place hereU held (not_not.mp null) made
          rw [← whole] at step
          exact onlyNewTrans (onlyNewTrans first more second) (fun n known => later n (more n known))
            (ih okV (by omega) (by omega) step rest)

theorem dnodePageNew (loading : Loading inodes load) (loads : LoadsNew inodes load) {create : Bool} {rounds iblock : Nat}
    {found : Option Nat} (inside : ino ∈ inodes) (ok : FsOk inodes known s)
    (ran : Fs.getDnodePage load create rounds ino iblock s = some (t,found)) : OnlyNew inodes known s t := by
  unfold Fs.getDnodePage at ran
  split at ran
  · rename_i range
    obtain ⟨q,named⟩ : ∃ q : TreePath, q.index = iblock := ⟨_,TreePath.indexOfIndex iblock range⟩
    obtain ⟨path,decoded⟩ : ∃ path, path = getPath iblock := ⟨_,rfl⟩
    rw [← decoded] at ran
    rw [← named,q.getPathIndex] at decoded
    rw [decoded] at ran
    have enough : q.depth < 0 + 4 := by cases q <;> simp only [TreePath.depth] <;> omega
    exact dnodeLoopNew loading loads inside ok (Nat.zero_le _) enough rfl ran
  · contradiction

theorem loadsNew {nm : NatInfo} (loads : Loads s.nat.file s.nat.nm nm) :
    OnlyNew inodes known s { s with nat := { s.nat with nm := nm } } :=
  onlyNewSame (funext fun n => contentSame rfl rfl (loadsAddr loads n))

theorem rawBlockNew (metaIn : metaIno ∈ inodes) (fuel : Nat) : LoadsNew inodes (Fs.readRawNatBlock fuel) := by
  induction fuel with
  | zero =>
    intro known iblock s t ok ran
    contradiction
  | succ fuel ih =>
    intro known iblock s t ok ran
    unfold Fs.readRawNatBlock at ran
    obtain ⟨u,prepared,same⟩ := Option.map_eq_some_iff.mp ran
    rw [← same]
    split at prepared
    · cases prepared
      exact loadsNew (loadsBlock iblock)
    · obtain ⟨⟨v,found⟩,walked,rest⟩ := Option.bind_eq_some_iff.mp prepared
      obtain ⟨d,_,same⟩ := Option.map_eq_some_iff.mp rest
      rw [← same]
      have walk := dnodePageNew (rawBlockLoading metaIn fuel) ih metaIn ok walked
      have page : OnlyNew inodes known s { v with metaPages := Function.update v.metaPages iblock true } := walk
      exact onlyNewTrans page (fun _ => id) (loadsNew (loadsBlock iblock))

end
end Xcpfs
