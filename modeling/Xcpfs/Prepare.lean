import Xcpfs.NatKnown
import Xcpfs.NodeTree

/-! `get_dnode_page` with the allocation of nodes, over the cached node pages and the NAT.
Looking a nid up may read a NAT block, which is a block of the meta inode and may itself need
nodes. Whatever is allocated on the way, no block pointer changes. -/
namespace Xcpfs
open PointerForest

/- A node page that is not cached has what its block holds, which is then `nodes` as well. -/
structure Fs where
  nodes : NodeStore
  cached : Nat → Bool
  nat : NatMount
  metaPages : Nat → Bool

def Fs.addr (s : Fs) (nid : Nat) : Option Nat := natAddr s.nat.file s.nat.nm nid

def Fs.content (s : Fs) (nid : Nat) : NodePage :=
  if s.cached nid = true ∨ s.addr nid ≠ some 0 then s.nodes nid else .zero

def NodePage.cell (p : NodePage) : Edge → Nat
  | .nid i => p.iNid i
  | .slot a => p.slot a

def NodePage.setCell (p : NodePage) (v : Nat) : Edge → NodePage
  | .nid i => p.setNid i v
  | .slot a => p.setSlot a v

namespace Fs

def lookupNat (load : Nat → Fs → Option Fs) (nid : Nat) (s : Fs) : Option (Fs × NatEntry) :=
  match s.nat.nm.lookup nid with
  | some ne => some (s,ne)
  | none => (load (nid / natEntryPerBlock) s).bind fun s => (s.nat.nm.lookup nid).map fun ne => (s,ne)

/-- A page without a block is filled with zeros. -/
def getNodePage (load : Nat → Fs → Option Fs) (nid : Nat) (s : Fs) : Option Fs :=
  if s.cached nid then some s
  else (lookupNat load nid s).map fun (s,ne) =>
    { s with
      nodes := if ne.blockAddr = 0 ∧ s.cached nid = false then Function.update s.nodes nid .zero else s.nodes
      cached := Function.update s.cached nid true }

def allocFreeNat (load : Nat → Fs → Option Fs) (isMeta : Bool) : (rounds iblock : Nat) → Fs → Option (Fs × NatEntry)
  | rounds,iblock,s =>
    match freeNatEmpty s.nat.nm isMeta,rounds with
    | some (nm,ne),_ => some ({ s with nat := { s.nat with nm := nm } },ne)
    | none,0 => none
    | none,rounds + 1 => (load iblock s).bind (allocFreeNat load isMeta rounds (iblock + 1))

/- The page `n` was unlocked while `alloc_free_nat` ran and takes the pointer afterwards. -/
def newNode (load : Nat → Fs → Option Fs) (rounds ino n : Nat) (e : Edge) (s : Fs) : Option (Fs × Nat) :=
  let isMeta := decide (ino = metaIno)
  (allocFreeNat load isMeta rounds (if isMeta then 0 else regNatStart) s).map fun (s,ne) =>
    ({ s with
      nodes := Function.update s.nodes n ((s.nodes n).setCell ne.nid e)
      nat := { s.nat with nm := s.nat.nm.modify ne.nid (NatUse.node ino).mark } },ne.nid)

def levelEdge (offset : Nat → Int) (i : Nat) : Edge :=
  if i = 0 then .nid (offset 0 - 900).toNat else .slot (offset i).toNat

/- The loop of `get_dnode_page`; a missing node ends it when nothing is to be created. -/
def dnodeLoop (load : Nat → Fs → Option Fs) (create : Bool) (rounds ino len : Nat) (offset : Nat → Int) :
    (left i nid : Nat) → Fs → Option (Fs × Option Nat)
  | 0,_,_,s => some (s,none)
  | left + 1,i,nid,s =>
    (getNodePage load nid s).bind fun s =>
    if i = len then some (s,some nid) else
    let next := (s.nodes nid).cell (levelEdge offset i)
    if next ≠ 0 then dnodeLoop load create rounds ino len offset left (i + 1) next s
    else if create = false then some (s,none)
    else (newNode load rounds ino nid (levelEdge offset i) s).bind fun (s,next) =>
      dnodeLoop load create rounds ino len offset left (i + 1) next s

/- Beyond the last block `get_path` leaves the arrays, and there is no result. -/
def getDnodePage (load : Nat → Fs → Option Fs) (create : Bool) (rounds ino iblock : Nat) (s : Fs) : Option (Fs × Option Nat) :=
  if iblock < maxBlocks then
    let (len,offset) := getPath iblock
    dnodeLoop load create rounds ino len offset 4 0 ino s
  else none

/-- The page of the NAT block is prepared as any data page, with `create`; its entries go into the cache. -/
def readRawNatBlock : (fuel iblock : Nat) → Fs → Option Fs
  | 0,_,_ => none
  | fuel + 1,iblock,s =>
    let prepared := if s.metaPages iblock then some s else
      (getDnodePage (readRawNatBlock fuel) true fuel metaIno iblock s).bind fun (s,found) =>
        found.map fun _ => { s with metaPages := Function.update s.metaPages iblock true }
    prepared.map fun s => { s with nat := { s.nat with nm := insertBlock s.nat.nm (s.nat.file iblock) iblock } }

end Fs

section
variable {a b c : NodeStore} {roots : Set Nat} {n m r : Nat} {e : Edge} {p : List Edge}

theorem childCell (p : NodePage) (e : Edge) : p.child e = ptr (p.cell e) := by
  cases e <;> rfl

theorem setCellCell (p : NodePage) (v : Nat) (e f : Edge) : (p.setCell v e).cell f = if f = e then v else p.cell f := by
  cases e with
  | nid i =>
    cases f with
    | nid j => simp only [NodePage.setCell,NodePage.cell,NodePage.setNid,Function.update_apply,Edge.nid.injEq]
    | slot j => rfl
  | slot i =>
    cases f with
    | nid j => rfl
    | slot j => simp only [NodePage.setCell,NodePage.cell,NodePage.setSlot,Function.update_apply,Edge.slot.injEq]

theorem storeAttach (named : m ≠ 0) : child (Function.update a n ((a n).setCell m e)) = attach (child a) n e m := by
  funext x f
  unfold child attach
  by_cases here : x = n
  · subst here
    rw [Function.update_self,childCell,setCellCell]
    by_cases same : f = e
    · rw [if_pos same,if_pos ⟨rfl,same⟩]
      exact ptrSome.mpr ⟨rfl,named⟩
    · rw [if_neg same,if_neg fun both => same both.2]
      exact (childCell ..).symm
  · rw [Function.update_of_ne here,if_neg fun both => here both.1]

/- The word that holds a block pointer is never a pointer to a node. -/
theorem leafNoPlace (p : TreePath) (x : Nat) : ¬NodePlace (p.nodes ++ [.slot x]) := by
  cases p with
  | inode slot => exact id
  | direct top slot =>
    intro place
    have low : 2 ≤ (top : Nat) := place.1
    omega
  | indirect top mid slot =>
    intro place
    have high : 2 + (top : Nat) = 4 := place.1
    omega
  | double top mid slot => exact id

theorem setCellWord {q : TreePath} (page : NodePage) (v : Nat) (place : NodePlace (q.nodes ++ [e])) :
    q.word (page.setCell v e) = q.word page := by
  have other : ∀ x, e ≠ .slot x := by
    rintro x rfl
    exact leafNoPlace q x place
  cases e with
  | nid i => rfl
  | slot x => exact absurd rfl (other x)

theorem zeroWord (q : TreePath) : q.word .zero = 0 := by
  unfold TreePath.word
  split <;> rfl

/- A new node hangs below a pointer that was null when the walk read it, in `a`; until the
pointer is stored, in `c`, the tree may have grown to `b`. -/
theorem storePointer (owned : Owned nodeShape roots (child b)) (grown : Extends nodeShape roots (child a) (child b))
    (blocks : ∀ r ∈ roots, ∀ q, blockAt b r q = blockAt a r q) (root : r ∈ roots) (place : NodePlace (p ++ [e]))
    (here : follow (child a) r p = some n) (empty : child a n e = none) (fresh : ¬Reached nodeShape roots (child b) m)
    (zero : b m = .zero) (named : m ≠ 0) (stored : c = Function.update b n ((b n).setCell m e)) :
    Owned nodeShape roots (child c) ∧ Extends nodeShape roots (child a) (child c) ∧
      (∀ r ∈ roots, ∀ q, blockAt c r q = blockAt a r q) ∧ follow (child c) r (p ++ [e]) = some m ∧
      ∀ x, Reached nodeShape roots (child c) x → Reached nodeShape roots (child b) x ∨ x = m := by
  have attached : child c = attach (child b) n e m := by rw [stored,storeAttach named]
  have parent : nodeShape.valid p := nodePlaceParent p e place
  have now := grown r root p n parent here
  have leaf : ∀ y, child b m y = none := fun y => by
    unfold child
    rw [zero,zeroChild]
  have ownedC : Owned nodeShape roots (child c) := attached ▸ attachOwned owned root parent now fresh leaf
  have extendsC : Extends nodeShape roots (child a) (child c) := attached ▸ attachExtends grown empty
  have paths : ∀ s ∈ roots, ∀ q x, nodeShape.valid q → follow (child c) s q = some x →
      follow (child b) s q = some x ∨ s = r ∧ q = p ++ [e] ∧ x = m := by
    intro s inside q x valid path
    rw [attached] at path
    exact attachPaths owned root parent now fresh leaf inside valid path
  have apart : m ≠ n := by
    rintro rfl
    exact fresh ⟨r,root,p,parent,now⟩
  refine ⟨ownedC,extendsC,fun s inside q => ?_,?_,?_⟩
  · rw [← blocks s inside q]
    cases path : follow (child c) s q.nodes with
    | some x =>
      rcases paths s inside q.nodes x q.nodesPlace path with old | ⟨rfl,same,rfl⟩
      · rw [blockAtFound path,blockAtFound old,stored]
        by_cases cell : x = n
        · subst cell
          obtain ⟨rfl,same⟩ := owned s inside r root q.nodes p x q.nodesPlace parent old now
          rw [Function.update_self,setCellWord _ _ (same ▸ place)]
        · rw [Function.update_of_ne cell]
      · rw [blockAtFound path,stored,Function.update_of_ne apart,zero,zeroWord,blocks s inside q]
        refine (blockAtMissing ?_).symm
        rw [same,followConcat,here,Option.bind_some,empty]
    | none =>
      rw [blockAtMissing path,blocks s inside q]
      cases before : follow (child a) s q.nodes with
      | none => exact (blockAtMissing before).symm
      | some x =>
        rw [extendsC s inside q.nodes x q.nodesPlace before] at path
        contradiction
  · rw [followConcat,extendsC r root p n parent here,Option.bind_some,attached,attachSelf]
  · rintro x ⟨s,inside,q,valid,path⟩
    rcases paths s inside q x valid path with old | ⟨_,_,same⟩
    · exact .inl ⟨s,inside,q,valid,old⟩
    · exact .inr same

end

/- `known` are the nids in use. Nothing of another nid is cached. -/
structure FsOk (inodes : Set Nat) (known : Nat → Bool) (s : Fs) : Prop where
  nat : NatOk known s.nat.file s.nat.nm
  named : ∀ ne, s.nat.nm.slot 0 ≠ some (false,ne)
  reached : ∀ n, Reached nodeShape inodes (child s.content) n → known n = true
  owned : Owned nodeShape inodes (child s.content)
  fresh : ∀ n, known n = false → s.cached n = false

structure Grown (inodes : Set Nat) (s t : Fs) : Prop where
  paths : Extends nodeShape inodes (child s.content) (child t.content)
  blocks : ∀ ino ∈ inodes, ∀ p, blockAt t.content ino p = blockAt s.content ino p
  cached : ∀ n, s.cached n = true → t.cached n = true

/- A mount with nothing cached; `nodes` is what the blocks hold. -/
def mountFs (disk : NatDisk) (nodes : NodeStore) : Fs := ⟨nodes,fun _ => false,mountNat disk,fun _ => false⟩

/- What every call on the way to a dnode page does. -/
def Advances (inodes : Set Nat) (known : Nat → Bool) (s t : Fs) : Prop :=
  ∃ now, (∀ n, known n = true → now n = true) ∧ FsOk inodes now t ∧ Grown inodes s t

def Loading (inodes : Set Nat) (load : Nat → Fs → Option Fs) : Prop :=
  ∀ known iblock s t, FsOk inodes known s → load iblock s = some t → Advances inodes known s t

section
variable {inodes : Set Nat} {known now : Nat → Bool} {load : Nat → Fs → Option Fs} {s t u : Fs} {nid ino n : Nat} {ne : NatEntry}
  {e : Edge} {p : List Edge}

theorem contentHeld (held : s.cached n = true) : s.content n = s.nodes n := if_pos (.inl held)

theorem contentSame (nodes : t.nodes n = s.nodes n) (cached : t.cached n = s.cached n) (addr : t.addr n = s.addr n) :
    t.content n = s.content n := by
  unfold Fs.content
  rw [nodes,cached,addr]

theorem grownSame (content : t.content = s.content) (cached : ∀ n, s.cached n = true → t.cached n = true) : Grown inodes s t where
  paths := by
    rw [content]
    exact extendsRefl
  blocks ino _ p := by rw [content]
  cached := cached

theorem grownTrans (first : Grown inodes s t) (second : Grown inodes t u) : Grown inodes s u where
  paths := extendsTrans first.paths second.paths
  blocks ino inside p := (second.blocks ino inside p).trans (first.blocks ino inside p)
  cached n held := second.cached n (first.cached n held)

theorem advancesRefl (ok : FsOk inodes known s) : Advances inodes known s s :=
  ⟨known,fun _ => id,ok,grownSame rfl fun _ => id⟩

theorem advancesThen (more : ∀ n, known n = true → now n = true) (grown : Grown inodes s t) (second : Advances inodes now t u) :
    Advances inodes known s u := by
  obtain ⟨last,later,okU,grownU⟩ := second
  exact ⟨last,fun n member => later n (more n member),okU,grownTrans grown grownU⟩

theorem okSame (ok : FsOk inodes known s) (content : t.content = s.content) (nat : NatOk known t.nat.file t.nat.nm)
    (named : ∀ ne, t.nat.nm.slot 0 ≠ some (false,ne)) (fresh : ∀ n, known n = false → t.cached n = false) :
    FsOk inodes known t where
  nat := nat
  named := named
  reached n below := ok.reached n (content ▸ below)
  owned := by
    rw [content]
    exact ok.owned
  fresh := fresh

theorem lookupAddr (found : s.nat.nm.lookup nid = some ne) : s.addr nid = some ne.blockAddr := by
  rw [lookupSlot] at found
  unfold Fs.addr
  rw [natAddrSlot]
  cases here : s.nat.nm.slot nid with
  | none =>
    rw [here] at found
    contradiction
  | some pair =>
    rw [here] at found
    cases found
    rfl

theorem lookupAdvances (loading : Loading inodes load) (ok : FsOk inodes known s)
    (ran : Fs.lookupNat load nid s = some (t,ne)) : Advances inodes known s t ∧ t.nat.nm.lookup nid = some ne := by
  unfold Fs.lookupNat at ran
  cases here : s.nat.nm.lookup nid with
  | some found =>
    rw [here] at ran
    cases ran
    exact ⟨advancesRefl ok,here⟩
  | none =>
    rw [here] at ran
    obtain ⟨u,loaded,rest⟩ := Option.bind_eq_some_iff.mp ran
    obtain ⟨found,there,same⟩ := Option.map_eq_some_iff.mp rest
    cases same
    exact ⟨loading known _ s t ok loaded,there⟩

theorem holdContent (found : s.nat.nm.lookup nid = some ne) :
    Fs.content { s with
      nodes := if ne.blockAddr = 0 ∧ s.cached nid = false then Function.update s.nodes nid .zero else s.nodes
      cached := Function.update s.cached nid true } = s.content := by
  have addr := lookupAddr found
  funext n
  by_cases here : n = nid
  · subst here
    rw [contentHeld (Function.update_self ..)]
    unfold Fs.content
    rw [addr]
    dsimp only
    cases held : s.cached n with
    | true => simp
    | false =>
      by_cases zero : ne.blockAddr = 0
      · simp [zero]
      · simp [zero]
  · refine contentSame ?_ (Function.update_of_ne here ..) rfl
    dsimp only
    split
    · exact Function.update_of_ne here ..
    · rfl

theorem getNodePageAdvances (loading : Loading inodes load) (ok : FsOk inodes known s) (member : known nid = true)
    (ran : Fs.getNodePage load nid s = some t) : Advances inodes known s t ∧ t.cached nid = true := by
  unfold Fs.getNodePage at ran
  split at ran
  · rename_i held
    cases ran
    exact ⟨advancesRefl ok,held⟩
  · obtain ⟨⟨u,ne⟩,looked,same⟩ := Option.map_eq_some_iff.mp ran
    obtain ⟨⟨now,more,okU,grown⟩,found⟩ := lookupAdvances loading ok looked
    rw [← same]
    refine ⟨advancesThen more grown ?_,Function.update_self ..⟩
    have content := holdContent found
    refine ⟨now,fun _ => id,okSame okU content okU.nat okU.named fun n unknown => ?_,grownSame content fun n held => ?_⟩
    · dsimp only
      rw [Function.update_of_ne]
      · exact okU.fresh n unknown
      · rintro rfl
        rw [more n member] at unknown
        contradiction
    · dsimp only
      by_cases here : n = nid
      · rw [here,Function.update_self]
      · rw [Function.update_of_ne here]
        exact held

theorem allocAdvances (loading : Loading inodes load) {isMeta : Bool} {rounds iblock : Nat} (ok : FsOk inodes known s)
    (ran : Fs.allocFreeNat load isMeta rounds iblock s = some (t,ne)) :
    ∃ u nm, Advances inodes known s u ∧ freeNatEmpty u.nat.nm isMeta = some (nm,ne) ∧ t = { u with nat := { u.nat with nm := nm } } := by
  induction rounds generalizing iblock s known with
  | zero =>
    unfold Fs.allocFreeNat at ran
    cases here : freeNatEmpty s.nat.nm isMeta with
    | none =>
      rw [here] at ran
      contradiction
    | some found =>
      rw [here] at ran
      cases ran
      exact ⟨s,found.1,advancesRefl ok,here,rfl⟩
  | succ rounds ih =>
    unfold Fs.allocFreeNat at ran
    cases here : freeNatEmpty s.nat.nm isMeta with
    | none =>
      rw [here] at ran
      obtain ⟨v,loaded,rest⟩ := Option.bind_eq_some_iff.mp ran
      obtain ⟨now,more,okV,grown⟩ := loading known _ s v ok loaded
      obtain ⟨u,nm,further,taken,same⟩ := ih okV rest
      exact ⟨u,nm,advancesThen more grown further,taken,same⟩
    | some found =>
      rw [here] at ran
      cases ran
      exact ⟨s,found.1,advancesRefl ok,here,rfl⟩

/- The allocated nid had no page and no address, so its page reads as zeros. -/
theorem takenZero (ok : FsOk inodes known s) {isMeta : Bool} {nm : NatInfo} (taken : freeNatEmpty s.nat.nm isMeta = some (nm,ne)) :
    ne.nid ≠ 0 ∧ known ne.nid = false ∧ s.content ne.nid = .zero := by
  have free := (@slotTake _ ne.nid _ _ _ ok.nat.distinct taken).1
  have unknown := (natOkTake ok.nat taken .inode).2.1
  refine ⟨?_,unknown,?_⟩
  · intro zero
    rw [zero] at free
    exact ok.named ne free
  · have address : s.addr ne.nid = some 0 := by
      unfold Fs.addr
      rw [natAddrSlot,free]
      exact congrArg some (ok.nat.unused ne.nid ne free)
    unfold Fs.content
    rw [address,ok.fresh _ unknown]
    exact if_neg (by simp)

theorem takenContent (ok : FsOk inodes known u) (held : u.cached n = true) {isMeta : Bool} {nm : NatInfo}
    (taken : freeNatEmpty u.nat.nm isMeta = some (nm,ne)) (ino : Nat) (e : Edge) :
    Fs.content { u with
      nodes := Function.update u.nodes n ((u.nodes n).setCell ne.nid e)
      nat := { u.nat with nm := nm.modify ne.nid (NatUse.node ino).mark } } =
    Function.update u.content n ((u.content n).setCell ne.nid e) := by
  obtain ⟨_,unknown,zero⟩ := takenZero ok taken
  obtain ⟨_,_,natZero,_,natOther⟩ := natOkTake ok.nat taken (.node ino)
  have apart : ne.nid ≠ n := by
    intro same
    rw [same] at unknown
    rw [ok.fresh n unknown] at held
    contradiction
  funext x
  by_cases cell : x = n
  · subst cell
    rw [contentHeld held,Function.update_self,contentHeld]
    · exact Function.update_self ..
    · exact held
  · rw [Function.update_of_ne cell]
    by_cases new : ne.nid = x
    · subst new
      rw [zero]
      refine if_neg fun read => ?_
      rcases read with bad | bad
      · rw [ok.fresh _ unknown] at bad
        contradiction
      · exact bad natZero
    · exact contentSame (Function.update_of_ne cell ..) rfl (natOther x new)

theorem newNodeAdvances (loading : Loading inodes load) {rounds m : Nat} (ok : FsOk inodes known s) (inside : ino ∈ inodes)
    (place : NodePlace (p ++ [e])) (here : follow (child s.content) ino p = some n) (held : s.cached n = true)
    (empty : (s.nodes n).cell e = 0) (ran : Fs.newNode load rounds ino n e s = some (t,m)) :
    Advances inodes known s t ∧ follow (child t.content) ino (p ++ [e]) = some m := by
  obtain ⟨⟨v,ne⟩,alloc,same⟩ := Option.map_eq_some_iff.mp ran
  obtain ⟨u,nm,⟨now,more,okU,grown⟩,taken,rfl⟩ := allocAdvances loading ok alloc
  obtain ⟨nonzero,unknown,zero⟩ := takenZero okU taken
  obtain ⟨natNow,_⟩ := natOkTake okU.nat taken (.node ino)
  obtain ⟨rfl,rfl⟩ := Prod.mk.inj same
  have heldU := grown.cached n held
  obtain ⟨t,state⟩ : ∃ t : Fs, t = { u with
    nodes := Function.update u.nodes n ((u.nodes n).setCell ne.nid e)
    nat := { u.nat with nm := nm.modify ne.nid (NatUse.node ino).mark } } := ⟨_,rfl⟩
  have content : t.content = Function.update u.content n ((u.content n).setCell ne.nid e) := by
    rw [state]
    exact takenContent okU heldU taken ino e
  have emptyChild : child s.content n e = none := by
    unfold child
    rw [childCell,contentHeld held,empty]
    rfl
  have fresh : ¬Reached nodeShape inodes (child u.content) ne.nid := by
    intro reached
    rw [okU.reached _ reached] at unknown
    contradiction
  obtain ⟨owned,extend,blocks,path,reached⟩ :=
    storePointer okU.owned grown.paths grown.blocks inside place here emptyChild fresh zero nonzero content
  have back : ({ u with
    nodes := Function.update u.nodes n ((u.nodes n).setCell ne.nid e)
    nat := { u.nat with nm := nm.modify ne.nid (NatUse.node ino).mark } } : Fs) = t := state.symm
  refine ⟨⟨fun x => now x || decide (ne.nid = x),?_,?_,?_⟩,?_⟩
  · intro x member
    exact Bool.or_eq_true_iff.mpr (.inl (more x member))
  · refine ⟨?_,?_,fun x below => ?_,?_,fun x other => ?_⟩
    · exact natNow
    · intro entry free
      dsimp only at free
      rw [slotModify (NatUse.node ino).markNid,if_neg nonzero,(slotTake okU.nat.distinct taken).2.2,if_neg nonzero] at free
      exact okU.named entry free
    · rw [back] at below
      rcases reached x below with old | same
      · exact Bool.or_eq_true_iff.mpr (.inl (okU.reached x old))
      · exact Bool.or_eq_true_iff.mpr (.inr (decide_eq_true same.symm))
    · rw [back]
      exact owned
    · exact okU.fresh x (Bool.or_eq_false_iff.mp other).1
  · rw [back]
    refine ⟨extend,blocks,fun x held => ?_⟩
    rw [state]
    exact grown.cached x held
  · rw [back]
    exact path

theorem writtenOk (ok : FsOk inodes known s) (here : s.nat.nm.slot nid = some (true,ne)) (held : s.cached nid = true)
    (blkaddr : Nat) (written : t = { s with nat := { s.nat with nm := (updateNat s.nat.nm nid blkaddr false).1 } }) :
    t.content = s.content ∧ FsOk inodes known t ∧ t.addr nid = some blkaddr ∧ ∀ n, n ≠ nid → t.addr n = s.addr n := by
  have self : t.addr nid = some blkaddr := by
    rw [written]
    exact updateAddr here blkaddr false
  have others : ∀ n, n ≠ nid → t.addr n = s.addr n := by
    intro n differ
    rw [written]
    exact updateAddrOther blkaddr false differ.symm
  have nodes : t.nodes = s.nodes := by rw [written]
  have cached : t.cached = s.cached := by rw [written]
  have content : t.content = s.content := by
    funext n
    by_cases same : n = nid
    · subst same
      rw [contentHeld held,contentHeld (cached ▸ held),nodes]
    · exact contentSame (by rw [nodes]) (by rw [cached]) (others n same)
  refine ⟨content,okSame ok content ?_ (fun entry free => ?_) ?_,self,others⟩
  · rw [written]
    exact natOkUpdate ok.nat blkaddr false
  · rw [written] at free
    dsimp only at free
    rw [slotUpdate] at free
    split at free
    · exact ok.named entry free
    · split at free
      · cases free
      · exact ok.named entry free
  · rw [cached]
    exact ok.fresh

theorem levelNodes (q : TreePath) : q.nodes = (List.range q.depth).map (Fs.levelEdge q.offsets) := by
  cases q with
  | inode slot => rfl
  | direct top slot =>
    simp [List.range_succ,TreePath.nodes,TreePath.depth,TreePath.offsets,offsetOf,Fs.levelEdge]
  | indirect top mid slot =>
    have key : ((902 : Int) + top - 900).toNat = 2 + top := by omega
    simp [List.range_succ,TreePath.nodes,TreePath.depth,TreePath.offsets,offsetOf,Fs.levelEdge,key]
  | double top mid slot =>
    simp [List.range_succ,TreePath.nodes,TreePath.depth,TreePath.offsets,offsetOf,Fs.levelEdge]

theorem levelTake (q : TreePath) {i : Nat} (low : i < q.depth) :
    q.nodes.take (i + 1) = q.nodes.take i ++ [Fs.levelEdge q.offsets i] := by
  rw [List.take_add_one]
  congr 1
  rw [levelNodes,List.getElem?_map,List.getElem?_range low]
  rfl

theorem levelPlace (q : TreePath) (i : Nat) : NodePlace (q.nodes.take i) := by
  have whole : ∀ (rest p : List Edge), NodePlace (p ++ rest) → NodePlace p := by
    intro rest
    induction rest using List.reverseRecOn with
    | nil =>
      intro p place
      rwa [List.append_nil] at place
    | append_singleton rest e ih =>
      intro p place
      rw [← List.append_assoc] at place
      exact ih p (nodePlaceParent _ e place)
  refine whole (q.nodes.drop i) _ ?_
  rw [List.take_append_drop]
  exact q.nodesPlace

theorem levelStep {q : TreePath} {i : Nat} (level : i < q.depth) (here : follow (child s.content) ino (q.nodes.take i) = some n)
    (held : s.cached n = true) :
    follow (child s.content) ino (q.nodes.take (i + 1)) = ptr ((s.nodes n).cell (Fs.levelEdge q.offsets i)) := by
  rw [levelTake q level,followConcat,here,Option.bind_some]
  unfold child
  rw [childCell,contentHeld held]

/- The walk keeps the path to the node it stands on; `left` suffices for the levels below. -/
theorem dnodeLoopAdvances (loading : Loading inodes load) {create : Bool} {rounds left i : Nat} {found : Option Nat} {q : TreePath}
    (inside : ino ∈ inodes) (ok : FsOk inodes known s) (level : i ≤ q.depth) (enough : q.depth < i + left)
    (here : follow (child s.content) ino (q.nodes.take i) = some n)
    (ran : Fs.dnodeLoop load create rounds ino q.depth q.offsets left i n s = some (t,found)) :
    Advances inodes known s t ∧ (∀ d, found = some d → follow (child t.content) ino q.nodes = some d ∧ t.cached d = true) ∧
      (found = none → create = false ∧ follow (child t.content) ino q.nodes = none) := by
  induction left generalizing i n s known with
  | zero => omega
  | succ left ih =>
    unfold Fs.dnodeLoop at ran
    obtain ⟨u,read,rest⟩ := Option.bind_eq_some_iff.mp ran
    have member := ok.reached n ⟨ino,inside,_,levelPlace q i,here⟩
    obtain ⟨⟨now,more,okU,grown⟩,held⟩ := getNodePageAdvances loading ok member read
    have hereU := grown.paths ino inside _ n (levelPlace q i) here
    split at rest
    · rename_i bottom
      cases rest
      refine ⟨⟨now,more,okU,grown⟩,fun d same => ?_,fun bad => by contradiction⟩
      cases same
      rw [bottom,List.take_of_length_le (by rw [← TreePath.depthOfNodes])] at hereU
      exact ⟨hereU,held⟩
    · rename_i above
      have low : i < q.depth := by omega
      have whole := levelTake q low
      dsimp only at rest
      split at rest
      · rename_i next
        have step := (levelStep low hereU held).trans (ptrSome.mpr ⟨rfl,next⟩)
        obtain ⟨advance,facts⟩ := ih okU (by omega) (by omega) step rest
        exact ⟨advancesThen more grown advance,facts⟩
      · rename_i null
        have zero : (u.nodes n).cell (Fs.levelEdge q.offsets i) = 0 := not_not.mp null
        split at rest
        · rename_i stay
          cases rest
          refine ⟨⟨now,more,okU,grown⟩,fun d bad => by contradiction,fun _ => ⟨stay,?_⟩⟩
          have missing : follow (child t.content) ino (q.nodes.take (i + 1)) = none := by
            rw [levelStep low hereU held,zero]
            rfl
          rw [← List.take_append_drop (i + 1) q.nodes,followAppend,missing]
          rfl
        · obtain ⟨⟨v,m⟩,made,rest⟩ := Option.bind_eq_some_iff.mp rest
          have place : NodePlace (q.nodes.take i ++ [Fs.levelEdge q.offsets i]) := whole ▸ levelPlace q (i + 1)
          obtain ⟨⟨last,later,okV,grownV⟩,step⟩ := newNodeAdvances loading okU inside place hereU held zero made
          rw [← whole] at step
          obtain ⟨advance,facts⟩ := ih okV (by omega) (by omega) step rest
          exact ⟨advancesThen more grown (advancesThen later grownV advance),facts⟩

theorem dnodePageAdvances (loading : Loading inodes load) {create : Bool} {rounds iblock : Nat} {found : Option Nat}
    (inside : ino ∈ inodes) (ok : FsOk inodes known s)
    (ran : Fs.getDnodePage load create rounds ino iblock s = some (t,found)) :
    Advances inodes known s t ∧ ∃ q : TreePath, q.index = iblock ∧
      (∀ d, found = some d → follow (child t.content) ino q.nodes = some d ∧ t.cached d = true) ∧
      (found = none → create = false ∧ follow (child t.content) ino q.nodes = none) := by
  unfold Fs.getDnodePage at ran
  split at ran
  · rename_i range
    obtain ⟨q,named⟩ : ∃ q : TreePath, q.index = iblock := ⟨_,TreePath.indexOfIndex iblock range⟩
    obtain ⟨path,decoded⟩ : ∃ path, path = getPath iblock := ⟨_,rfl⟩
    rw [← decoded] at ran
    rw [← named,q.getPathIndex] at decoded
    rw [decoded] at ran
    have enough : q.depth < 0 + 4 := by cases q <;> simp only [TreePath.depth] <;> omega
    obtain ⟨advance,facts⟩ := dnodeLoopAdvances loading inside ok (Nat.zero_le _) enough rfl ran
    exact ⟨advance,q,named,facts⟩
  · contradiction

theorem loadsAdvances (ok : FsOk inodes known s) {nm : NatInfo} (loads : Loads s.nat.file s.nat.nm nm) :
    Advances inodes known s { s with nat := { s.nat with nm := nm } } := by
  have content : Fs.content { s with nat := { s.nat with nm := nm } } = s.content := by
    funext n
    exact contentSame rfl rfl (loadsAddr loads n)
  refine ⟨known,fun _ => id,okSame ok content (natOkLoads ok.nat loads) (fun ne free => ?_) ok.fresh,grownSame content fun _ => id⟩
  rcases loads.slot 0 with same | ⟨_,bad,_⟩
  · exact ok.named ne (same.symm.trans free)
  · contradiction

theorem rawBlockLoading (meta_ : metaIno ∈ inodes) (fuel : Nat) : Loading inodes (Fs.readRawNatBlock fuel) := by
  induction fuel with
  | zero =>
    intro known iblock s t ok ran
    contradiction
  | succ fuel ih =>
    intro known iblock s t ok ran
    unfold Fs.readRawNatBlock at ran
    obtain ⟨u,prepared,same⟩ := Option.map_eq_some_iff.mp ran
    rw [← same]
    split at prepared
    · cases prepared
      exact loadsAdvances ok (loadsBlock iblock)
    · obtain ⟨⟨v,found⟩,walked,rest⟩ := Option.bind_eq_some_iff.mp prepared
      obtain ⟨d,_,same⟩ := Option.map_eq_some_iff.mp rest
      rw [← same]
      obtain ⟨⟨now,more,okV,grown⟩,_⟩ := dnodePageAdvances ih meta_ ok walked
      have okU : FsOk inodes now { v with metaPages := Function.update v.metaPages iblock true } :=
        okSame okV rfl okV.nat okV.named okV.fresh
      have same : Grown inodes v { v with metaPages := Function.update v.metaPages iblock true } := grownSame rfl fun _ => id
      exact advancesThen more (grownTrans grown same) (loadsAdvances okU (loadsBlock iblock))

theorem readUnnamed (metaNat : List MetaNat) : (xcpfsReadNats metaNat).slot 0 = none := by
  have whole : ∀ (list : List MetaNat) (nm : NatInfo), nm.slot 0 = none → (list.foldl readMetaNat nm).slot 0 = none := by
    intro list
    induction list with
    | nil => exact fun _ same => same
    | cons m rest ih =>
      intro nm absent
      refine ih _ ?_
      unfold readMetaNat
      split
      · exact absent
      · rename_i named
        have inserted : (insertNat nm m.nid m.ino m.blockAddr true true).1.slot 0 = none := by
          rw [slotInsert,if_neg fun both => named both.1]
          exact absent
        rw [slotUpdate]
        split
        · exact inserted
        · rw [if_neg fun both => named both.1]
          exact inserted
  exact whole metaNat ⟨[],[]⟩ rfl

theorem mountOk (disk : NatDisk) (nodes : NodeStore)
    (addressed : ∀ n, known n = true → ∃ a, natAddr disk.file (xcpfsReadNats disk.metaNat) n = some a ∧ a ≠ 0)
    (reached : ∀ n, Reached nodeShape inodes (child (mountFs disk nodes).content) n → known n = true)
    (owned : Owned nodeShape inodes (child (mountFs disk nodes).content)) : FsOk inodes known (mountFs disk nodes) where
  nat := natOkMount disk addressed
  named ne free := by
    have absent : (mountFs disk nodes).nat.nm.slot 0 = none := readUnnamed disk.metaNat
    rw [absent] at free
    contradiction
  reached := reached
  owned := owned
  fresh _ _ := rfl

end
end Xcpfs
