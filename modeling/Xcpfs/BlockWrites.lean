import Xcpfs.Lib.EventRun
import Xcpfs.Prepare
import Xcpfs.Xio

/-! Block writes of any inodes in any order: a page is prepared, submitted and completed. The
node trees hold what was stored last, as one finite map from inode and block index. -/
namespace Xcpfs
open PointerForest EventRun

structure DataFlight where
  ino : Nat
  iblock : Nat
  dnode : Nat

def DataFlight.of (ino iblock : Nat) (f : DataFlight) : Bool := f.ino = ino ∧ f.iblock = iblock

structure FsRun where
  fs : Fs
  inodes : Nat → Bool
  flights : List DataFlight

inductive WriteEvent where
  | prepare (fuel ino iblock : Nat)
  | submit (fuel ino iblock : Nat)
  | complete (ino iblock blkaddr : Nat)

def Fs.storeBlock (s : Fs) (dnode iblock blkaddr : Nat) : Fs :=
  { s with nodes := Function.update s.nodes dnode ((s.nodes dnode).setDataAddr iblock blkaddr) }

/- A page in flight is locked, so it is not submitted twice. A submission without a dnode fails. -/
def fsStep (s : FsRun) : WriteEvent → Option FsRun
  | .prepare fuel ino iblock =>
    if s.inodes ino then
      (Fs.getDnodePage (Fs.readRawNatBlock fuel) true fuel ino iblock s.fs).bind fun (fs,found) =>
        found.map fun _ => { s with fs := fs }
    else none
  | .submit fuel ino iblock =>
    if s.inodes ino ∧ s.flights.find? (DataFlight.of ino iblock) = none then
      (Fs.getDnodePage (Fs.readRawNatBlock fuel) false fuel ino iblock s.fs).map fun (fs,found) =>
        { s with fs := fs, flights := (found.map fun dnode => ⟨ino,iblock,dnode⟩).toList ++ s.flights }
    else none
  | .complete ino iblock blkaddr =>
    if blkaddr = 0 then none
    else (s.flights.find? (DataFlight.of ino iblock)).map fun f =>
      { s with fs := s.fs.storeBlock f.dnode iblock blkaddr, flights := s.flights.eraseP (DataFlight.of ino iblock) }

/-- The walk of `submit_data_xio` and the word it reads; a missing node reads as 0. -/
def submitWalk (fuel ino iblock : Nat) (s : Fs) : Option (Fs × Nat) :=
  (Fs.getDnodePage (Fs.readRawNatBlock fuel) false fuel ino iblock s).map fun (s,found) =>
    (s,found.elim 0 fun dnode => (s.nodes dnode).dataAddr iblock)

def WriteEvent.stored (ino iblock : Nat) : WriteEvent → Option Nat
  | .complete i b blkaddr => if i = ino ∧ b = iblock then some blkaddr else none
  | _ => none

def lastStored (ino iblock : Nat) : List WriteEvent → Option Nat
  | [] => none
  | event :: events => (lastStored ino iblock events).or (event.stored ino iblock)

/- A request in flight still holds the dnode that its block index leads to. -/
structure FsRunOk (known : Nat → Bool) (s : FsRun) : Prop where
  fs : FsOk {n | s.inodes n = true} known s.fs
  metaIn : s.inodes metaIno = true
  held : ∀ f ∈ s.flights, s.inodes f.ino = true ∧ s.fs.cached f.dnode = true ∧
    ∃ q : TreePath, q.index = f.iblock ∧ follow (child s.fs.content) f.ino q.nodes = some f.dnode

section
variable {a c : NodeStore} {roots : Set Nat} {ino d v : Nat} {known : Nat → Bool} {s t : FsRun}

theorem dataAddrWord (q : TreePath) (page : NodePage) : page.dataAddr q.index = q.word page := by
  obtain ⟨path,decoded⟩ : ∃ path, path = getPath q.index := ⟨_,rfl⟩
  unfold NodePage.dataAddr
  rw [← decoded,decoded.trans q.getPathIndex]
  simp only [offsetLeaf,TreePath.word]

theorem setDataAddrIs (q : TreePath) (page : NodePage) (v : Nat) :
    page.setDataAddr q.index v = if q.depth = 0 then page.setAddr q.leaf v else page.setSlot q.leaf v := by
  obtain ⟨path,decoded⟩ : ∃ path, path = getPath q.index := ⟨_,rfl⟩
  unfold NodePage.setDataAddr
  rw [← decoded,decoded.trans q.getPathIndex]
  simp only [offsetLeaf]

theorem setDataAddrCell (q : TreePath) (page : NodePage) (v : Nat) (e : Edge) (other : e ≠ .slot q.leaf) :
    (page.setDataAddr q.index v).cell e = page.cell e := by
  rw [setDataAddrIs]
  split
  · cases e <;> rfl
  · cases e with
    | nid i => rfl
    | slot x => exact Function.update_of_ne (fun same => other (congrArg Edge.slot same)) ..

/- Of the paths that end in one node only the path itself reads the word. -/
theorem setDataAddrWord (p q : TreePath) (nodes : q.nodes = p.nodes) (page : NodePage) (v : Nat) :
    q.word (page.setDataAddr p.index v) = if q = p then v else q.word page := by
  have depth : q.depth = p.depth := by rw [TreePath.depthOfNodes,TreePath.depthOfNodes,nodes]
  have leaf : q = p ↔ q.leaf = p.leaf := ⟨fun same => same ▸ rfl,TreePath.eqOfNodesLeaf nodes⟩
  rw [setDataAddrIs]
  unfold TreePath.word
  rw [depth]
  by_cases top : p.depth = 0
  · simp only [top,if_true,NodePage.setAddr,Function.update_apply,leaf]
  · simp only [top,if_false,NodePage.setSlot,Function.update_apply,leaf]

/- Storing a block pointer moves no node and changes the block of one place only. -/
theorem storeWord (owned : Owned nodeShape roots (child a)) (inside : ino ∈ roots) {p : TreePath}
    (here : follow (child a) ino p.nodes = some d) (stored : c = Function.update a d ((a d).setDataAddr p.index v)) :
    (∀ r ∈ roots, ∀ q, nodeShape.valid q → follow (child c) r q = follow (child a) r q) ∧
      ∀ r ∈ roots, ∀ q, blockAt c r q = if r = ino ∧ q = p then v else blockAt a r q := by
  have same : ∀ r ∈ roots, ∀ q, nodeShape.valid q → follow (child c) r q = follow (child a) r q := by
    intro r root q place
    induction q using List.reverseRecOn with
    | nil => rfl
    | append_singleton q e ih =>
      have parent := nodePlaceParent q e place
      rw [followConcat,followConcat,ih parent]
      cases path : follow (child a) r q with
      | none => rfl
      | some n =>
        rw [Option.bind_some,Option.bind_some]
        unfold child
        rw [stored]
        by_cases cell : n = d
        · subst cell
          obtain ⟨rfl,nodes⟩ := owned r root ino inside q p.nodes n parent p.nodesPlace path here
          have other : e ≠ .slot p.leaf := by
            rintro rfl
            rw [nodes] at place
            exact leafNoPlace p _ place
          rw [Function.update_self,childCell,childCell,setDataAddrCell p _ v e other]
        · rw [Function.update_of_ne cell]
  refine ⟨same,fun r root q => ?_⟩
  have path := same r root q.nodes q.nodesPlace
  cases before : follow (child a) r q.nodes with
  | none =>
    rw [blockAtMissing before,blockAtMissing (path.trans before),if_neg]
    rintro ⟨rfl,rfl⟩
    rw [here] at before
    contradiction
  | some n =>
    rw [blockAtFound before,blockAtFound (path.trans before),stored]
    by_cases cell : n = d
    · subst cell
      obtain ⟨rfl,nodes⟩ := owned r root ino inside q.nodes p.nodes n q.nodesPlace p.nodesPlace before here
      rw [Function.update_self,setDataAddrWord p q nodes]
      simp only [true_and]
    · rw [Function.update_of_ne cell,if_neg]
      rintro ⟨rfl,rfl⟩
      exact cell (Option.some.inj (before.symm.trans here))

theorem storeKeepsTree {fs : Fs} {p : TreePath} (ok : FsOk roots known fs) (inside : ino ∈ roots) (cached : fs.cached d = true)
    (here : follow (child fs.content) ino p.nodes = some d) (v : Nat) :
    FsOk roots known (fs.storeBlock d p.index v) ∧
      (∀ r ∈ roots, ∀ q, NodePlace q → follow (child (fs.storeBlock d p.index v).content) r q = follow (child fs.content) r q) ∧
      ∀ r ∈ roots, ∀ q, blockAt (fs.storeBlock d p.index v).content r q = if r = ino ∧ q = p then v else blockAt fs.content r q := by
  have content : (fs.storeBlock d p.index v).content = Function.update fs.content d ((fs.content d).setDataAddr p.index v) := by
    funext n
    by_cases same : n = d
    · have held : (fs.storeBlock d p.index v).cached d = true := cached
      rw [same,Function.update_self,contentHeld held,contentHeld cached]
      exact Function.update_self ..
    · rw [Function.update_of_ne same]
      exact contentSame (Function.update_of_ne same ..) rfl rfl
  obtain ⟨paths,blocks⟩ := storeWord ok.owned inside here content
  refine ⟨⟨ok.nat,ok.named,?_,?_,ok.fresh⟩,paths,blocks⟩
  · rintro n ⟨r,root,q,place,below⟩
    exact ok.reached n ⟨r,root,q,place,(paths r root q place).symm.trans below⟩
  · intro r root s' root' q q' n place place' left right
    exact ok.owned r root s' root' q q' n place place' ((paths r root q place).symm.trans left)
      ((paths s' root' q' place').symm.trans right)

theorem heldGrown {fs : Fs} {f : DataFlight} (grown : Grown {n | s.inodes n = true} s.fs fs)
    (held : s.inodes f.ino = true ∧ s.fs.cached f.dnode = true ∧
      ∃ q : TreePath, q.index = f.iblock ∧ follow (child s.fs.content) f.ino q.nodes = some f.dnode) :
    s.inodes f.ino = true ∧ fs.cached f.dnode = true ∧
      ∃ q : TreePath, q.index = f.iblock ∧ follow (child fs.content) f.ino q.nodes = some f.dnode := by
  obtain ⟨inside,cached,q,named,path⟩ := held
  exact ⟨inside,grown.cached _ cached,q,named,grown.paths f.ino inside _ _ q.nodesPlace path⟩

/- What a step does to the blocks of all inodes. -/
def Stores (known : Nat → Bool) (event : WriteEvent) (s t : FsRun) : Prop :=
  ∃ now, (∀ n, known n = true → now n = true) ∧ FsRunOk now t ∧ t.inodes = s.inodes ∧ ∀ ino, s.inodes ino = true →
    ∀ q : TreePath, blockAt t.fs.content ino q = (event.stored ino q.index).getD (blockAt s.fs.content ino q)

theorem prepareStores {fuel iblock : Nat} (ok : FsRunOk known s) (ran : fsStep s (.prepare fuel ino iblock) = some t) :
    Stores known (.prepare fuel ino iblock) s t := by
  simp only [fsStep] at ran
  split at ran
  · rename_i inside
    obtain ⟨⟨fs,found⟩,walked,rest⟩ := Option.bind_eq_some_iff.mp ran
    obtain ⟨dnode,_,same⟩ := Option.map_eq_some_iff.mp rest
    obtain ⟨⟨now,more,okT,grown⟩,_⟩ := dnodePageAdvances (rawBlockLoading ok.metaIn fuel) inside ok.fs walked
    rw [← same]
    exact ⟨now,more,⟨okT,ok.metaIn,fun f flying => @heldGrown s fs f grown (ok.held f flying)⟩,rfl,
      fun ino inside q => grown.blocks ino inside q⟩
  · contradiction

theorem submitStores {fuel iblock : Nat} (ok : FsRunOk known s) (ran : fsStep s (.submit fuel ino iblock) = some t) :
    Stores known (.submit fuel ino iblock) s t := by
  simp only [fsStep] at ran
  split at ran
  · rename_i guard
    obtain ⟨⟨fs,found⟩,walked,same⟩ := Option.map_eq_some_iff.mp ran
    obtain ⟨⟨now,more,okT,grown⟩,q,named,path,_⟩ := dnodePageAdvances (rawBlockLoading ok.metaIn fuel) guard.1 ok.fs walked
    rw [← same]
    refine ⟨now,more,⟨okT,ok.metaIn,fun f flying => ?_⟩,rfl,fun ino inside q => grown.blocks ino inside q⟩
    rcases List.mem_append.mp flying with new | old
    · obtain ⟨dnode,found,rfl⟩ := Option.map_eq_some_iff.mp (Option.mem_toList.mp new)
      obtain ⟨here,cached⟩ := path dnode found
      exact ⟨guard.1,cached,q,named,here⟩
    · exact @heldGrown s fs f grown (ok.held f old)
  · contradiction

theorem completeStores {iblock blkaddr : Nat} (ok : FsRunOk known s) (ran : fsStep s (.complete ino iblock blkaddr) = some t) :
    Stores known (.complete ino iblock blkaddr) s t := by
  simp only [fsStep] at ran
  split at ran
  · contradiction
  · obtain ⟨f,flying,same⟩ := Option.map_eq_some_iff.mp ran
    have page := List.find?_some flying
    simp only [DataFlight.of,Bool.decide_and,Bool.and_eq_true,decide_eq_true_eq] at page
    obtain ⟨inside,cached,p,named,path⟩ := ok.held f (List.mem_of_find?_eq_some flying)
    rw [page.1] at inside path
    rw [page.2] at named
    subst named
    obtain ⟨okFs,paths,blocks⟩ := storeKeepsTree ok.fs inside cached path blkaddr
    rw [← same]
    refine ⟨known,fun _ => id,⟨okFs,ok.metaIn,fun g flying => ?_⟩,rfl,fun other live q => ?_⟩
    · obtain ⟨live,cached,q,named,below⟩ := ok.held g (List.mem_of_mem_eraseP flying)
      exact ⟨live,cached,q,named,(paths g.ino live q.nodes q.nodesPlace).trans below⟩
    · rw [blocks other live q]
      simp only [WriteEvent.stored]
      by_cases here : other = ino ∧ q = p
      · rw [if_pos here,here.1,here.2,if_pos ⟨rfl,rfl⟩]
        rfl
      · rw [if_neg here,if_neg]
        · rfl
        · rintro ⟨rfl,index⟩
          exact here ⟨rfl,TreePath.indexInjective index.symm⟩

theorem stepStores {event : WriteEvent} (ok : FsRunOk known s) (ran : fsStep s event = some t) : Stores known event s t := by
  cases event with
  | prepare fuel ino iblock => exact prepareStores ok ran
  | submit fuel ino iblock => exact submitStores ok ran
  | complete ino iblock blkaddr => exact completeStores ok ran

theorem runStores {events : List WriteEvent} (ok : FsRunOk known s) (ran : exec fsStep s events = some t) :
    ∃ now, FsRunOk now t ∧ t.inodes = s.inodes ∧ ∀ ino, s.inodes ino = true → ∀ q : TreePath,
      blockAt t.fs.content ino q = (lastStored ino q.index events).getD (blockAt s.fs.content ino q) := by
  induction events generalizing s known with
  | nil =>
    cases ran
    exact ⟨known,ok,rfl,fun _ _ _ => rfl⟩
  | cons event events ih =>
    obtain ⟨u,here,rest⟩ := Option.bind_eq_some_iff.mp ran
    obtain ⟨mid,_,okU,inodes,first⟩ := stepStores ok here
    obtain ⟨now,okT,same,later⟩ := ih okU rest
    refine ⟨now,okT,same.trans inodes,fun ino inside q => ?_⟩
    have last : lastStored ino q.index (event :: events) = (lastStored ino q.index events).or (event.stored ino q.index) := rfl
    rw [later ino (inodes ▸ inside) q,first ino inside q,last]
    cases lastStored ino q.index events <;> rfl

theorem walkReads {fuel iblock blkaddr : Nat} {fs u : Fs} {inodes : Set Nat} (ok : FsOk inodes known fs) (metaIn : metaIno ∈ inodes)
    (inside : ino ∈ inodes) (ran : submitWalk fuel ino iblock fs = some (u,blkaddr)) :
    blkaddr = oldBlkaddr fs.content ino iblock := by
  obtain ⟨⟨w,found⟩,walked,same⟩ := Option.map_eq_some_iff.mp ran
  obtain ⟨⟨now,_,_,grown⟩,q,named,path,missing⟩ := dnodePageAdvances (rawBlockLoading metaIn fuel) inside ok walked
  obtain ⟨rfl,rfl⟩ := Prod.mk.inj same
  rw [← named,oldBlkaddrAt,← grown.blocks ino inside q]
  cases found with
  | none => exact (blockAtMissing (missing rfl).2).symm
  | some dnode =>
    obtain ⟨here,cached⟩ := path dnode rfl
    rw [blockAtFound here,contentHeld cached,Option.elim_some,dataAddrWord]

theorem nodeTreeIsMap {events : List WriteEvent} {iblock : Nat} (ok : FsOk {n | s.inodes n = true} known s.fs)
    (metaIn : s.inodes metaIno = true) (idle : s.flights = []) (ran : exec fsStep s events = some t)
    (inside : s.inodes ino = true) (range : iblock < maxBlocks) :
    oldBlkaddr t.fs.content ino iblock = (lastStored ino iblock events).getD (oldBlkaddr s.fs.content ino iblock) ∧
      ∀ fuel u blkaddr, submitWalk fuel ino iblock t.fs = some (u,blkaddr) →
        blkaddr = (lastStored ino iblock events).getD (oldBlkaddr s.fs.content ino iblock) := by
  have start : FsRunOk known s := ⟨ok,metaIn,fun f flying => by rw [idle] at flying; contradiction⟩
  obtain ⟨now,okT,inodes,blocks⟩ := runStores start ran
  have map : oldBlkaddr t.fs.content ino iblock = (lastStored ino iblock events).getD (oldBlkaddr s.fs.content ino iblock) := by
    rw [← TreePath.indexOfIndex iblock range,oldBlkaddrAt,oldBlkaddrAt]
    exact blocks ino inside _
  refine ⟨map,fun fuel u blkaddr walked => ?_⟩
  rw [walkReads okT.fs okT.metaIn (inodes ▸ inside) walked]
  exact map

end

/- A mount of the fresh image with one more free nid in its journal. -/
def writesNat : NatDisk := ⟨fun _ _ => ⟨0,0⟩,[⟨3,3,20⟩,⟨1,1,12⟩,⟨2730454,0,0⟩]⟩

def writesStart : FsRun where
  fs := mountFs writesNat fun _ => .zero
  inodes := fun n => n = 1 ∨ n = 3
  flights := []

theorem writesStartOk : FsOk {n | writesStart.inodes n = true} writesStart.inodes writesStart.fs := by
  have leaf : ∀ n e, child writesStart.fs.content n e = none := by
    intro n e
    have zero : writesStart.fs.content n = .zero := by
      unfold Fs.content
      split <;> rfl
    unfold child
    rw [zero,zeroChild]
  refine mountOk writesNat _ (fun n member => ?_) ?_ (ownedLeaf leaf)
  · rcases of_decide_eq_true member with rfl | rfl
    · exact ⟨12,by decide,by decide⟩
    · exact ⟨20,by decide,by decide⟩
  · rintro n ⟨r,root,p,_,path⟩
    obtain ⟨_,rfl⟩ := followLeaf leaf path
    exact root

def writesRun : List WriteEvent := [.prepare 1 3 900,.submit 1 3 900,.complete 3 900 77]

/-- The first block behind the inode's own pointers is written once. -/
theorem nodeTreeIsMapOnce : ∃ t, exec fsStep writesStart writesRun = some t ∧ oldBlkaddr t.fs.content 3 900 = 77 ∧
    ∀ fuel u blkaddr, submitWalk fuel 3 900 t.fs = some (u,blkaddr) → blkaddr = 77 := by
  have runs : (exec fsStep writesStart writesRun).isSome = true := by decide +kernel
  obtain ⟨t,ran⟩ := Option.isSome_iff_exists.mp runs
  exact ⟨t,ran,nodeTreeIsMap writesStartOk (by decide) rfl ran (by decide) (by decide)⟩

end Xcpfs
