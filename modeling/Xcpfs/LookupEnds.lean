import Xcpfs.LookupLocks
import Xcpfs.MetaTree
import Xcpfs.NatSteady

/-! The lookup of a nid comes to an end. The NAT blocks of the nodes of the meta file are found
from inode 1, whose entry stays cached, so reading one asks for no other; a free nid for a new
node is in one of them too. -/
namespace Xcpfs
open PointerForest

/- What the nodes of the meta file cost the NAT: blocks that inode 1 addresses itself, and metadata nids. -/
def Direct : PrepEvent → Prop
  | .load iblock => iblock < defAddrsPerInode
  | .alloc isMeta _ => isMeta = true

/- A NAT block was read and nothing created; its entries are in the cache. -/
structure Serves (inodes : Set Nat) (iblock : Nat) (s t : Fs) : Prop where
  quiet : Quiet s t
  way : PreparesBy Direct s.nat t.nat
  sound : MetaSound inodes t
  served : ∀ n, 3 ≤ n → n / natEntryPerBlock = iblock → t.nat.nm.lookup n ≠ none

/- What the walks need of the reading of NAT blocks, with locks and without. -/
structure DirectReads (inodes : Set Nat) (load : LoadBlock) (plain : Nat → Fs → Option Fs) : Prop where
  loading : Loading inodes plain
  reads : ∀ s b, MetaSound inodes s → b < defAddrsPerInode → ∃ t, Serves inodes b s t ∧ plain b s = some t ∧
    ∀ held, .node metaIno ∉ held → .metaData b ∉ held → load held b s = .ok t

section
variable {inodes : Set Nat} {known : Nat → Bool} {s t : Fs} {n : Nat} {ne : NatEntry} {held : List LockedPage}

theorem lockFree {page : LockedPage} (free : page ∉ held) : lockPage held page = .ok (page :: held) := if_neg free

theorem metaLookup (sound : MetaSound inodes s) : ∃ ne, s.nat.nm.lookup metaIno = some ne := by
  obtain ⟨ne,here⟩ := sound.cached
  rw [lookupSlot,here]
  exact ⟨ne,rfl⟩

theorem nodeCached (cached : s.cached n = true) (load : LoadBlock) (plain : Nat → Fs → Option Fs) (free : .node n ∉ held) :
    Locked.getNodePage load held n s = .ok s ∧ Fs.getNodePage plain n s = some s := by
  unfold Locked.getNodePage Fs.getNodePage
  rw [lockFree free,cached]
  exact ⟨rfl,rfl⟩

theorem nodeHit (found : s.nat.nm.lookup n = some ne) : ∃ t, Quiet s t ∧ t.nat = s.nat ∧ t.metaPages = s.metaPages ∧
    t.cached n = true ∧ ∀ load plain held, .node n ∉ held →
      Locked.getNodePage load held n s = .ok t ∧ Fs.getNodePage plain n s = some t := by
  by_cases cached : s.cached n = true
  · exact ⟨s,quietRefl s,rfl,rfl,cached,fun load plain held free => nodeCached cached load plain free⟩
  · refine ⟨_,quietHold found,rfl,rfl,Function.update_self ..,fun load plain held free => ⟨?_,?_⟩⟩
    · unfold Locked.getNodePage Locked.lookupNat
      rw [lockFree free,found]
      exact if_neg cached
    · unfold Fs.getNodePage Fs.lookupNat
      rw [if_neg cached,found]
      rfl

theorem directPage {b : Nat} (low : b < defAddrsPerInode) (load : LoadBlock) (plain : Nat → Fs → Option Fs) (create : Bool)
    (rounds ino : Nat) :
    (Locked.getDnodePage load held create rounds ino b s = do
      let s ← Locked.getNodePage load held ino s
      .ok (s,some ino)) ∧
    Fs.getDnodePage plain create rounds ino b s = (Fs.getNodePage plain ino s).map fun s => (s,some ino) := by
  have path := TreePath.getPathIndex (.inode ⟨b,low⟩)
  have range : b < maxBlocks := (TreePath.inode ⟨b,low⟩).indexBound
  simp only [TreePath.index,TreePath.depth] at path
  unfold Locked.getDnodePage Fs.getDnodePage
  rw [if_pos range,if_pos range,path]
  unfold Locked.dnodeLoop Fs.dnodeLoop
  refine ⟨rfl,?_⟩
  cases Fs.getNodePage plain ino s <;> rfl

theorem prepareTwice {create : Bool} {rounds ino b d : Nat}
    (first : Locked.getDnodePage load held create rounds ino b s = .ok (t,some d))
    (second : Locked.getDnodePage load held false rounds ino b t = .ok (t,some d)) :
    ∃ blkaddr, Locked.preparePage load held create rounds ino b s = .ok (t,some blkaddr) := by
  unfold Locked.preparePage
  simp only [bind,Except.bind,first,second]
  split
  · exact ⟨_,rfl⟩
  · exact ⟨_,rfl⟩

theorem directWalk {b : Nat} (low : b < defAddrsPerInode) (found : s.nat.nm.lookup metaIno = some ne) :
    ∃ t, Quiet s t ∧ t.nat = s.nat ∧ t.metaPages = s.metaPages ∧
      (∀ plain create rounds, Fs.getDnodePage plain create rounds metaIno b s = some (t,some metaIno)) ∧
      ∀ load held create rounds, .node metaIno ∉ held → ∃ blkaddr,
        Locked.preparePage load held create rounds metaIno b s = .ok (t,some blkaddr) := by
  obtain ⟨t,quiet,nat,pages,cached,page⟩ := nodeHit found
  refine ⟨t,quiet,nat,pages,fun plain create rounds => ?_,fun load held create rounds free => ?_⟩
  · rw [(@directPage s [] b low (fun _ _ _ => .error .depth) plain create rounds metaIno).2,
      (page (fun _ _ _ => .error .depth) plain [] (by simp)).2]
    rfl
  · have plain : Nat → Fs → Option Fs := fun _ _ => none
    have first := (@directPage s held b low load plain create rounds metaIno).1
    have second := (@directPage t held b low load plain false rounds metaIno).1
    rw [(page load plain held free).1] at first
    rw [(nodeCached cached load plain free).1] at second
    exact prepareTwice first second

theorem directReads (metaIn : metaIno ∈ inodes) (rounds depth fuel : Nat) :
    DirectReads inodes (Locked.readRawNatBlock rounds (depth + 1)) (Fs.readRawNatBlock (fuel + 1)) where
  loading := rawBlockLoading metaIn (fuel + 1)
  reads s b sound low := by
    obtain ⟨ne,found⟩ := metaLookup sound
    obtain ⟨u,quiet,nat,pages,plain,locked⟩ := directWalk low found
    obtain ⟨v,state⟩ : ∃ v : Fs, v = if s.metaPages b = true then s else { u with metaPages := Function.update u.metaPages b true } :=
      ⟨_,rfl⟩
    have quietV : Quiet s v := by
      rw [state]
      split
      · exact quietRefl s
      · exact quietTrans quiet (quietPage u b)
    have natV : v.nat = s.nat := by
      rw [state]
      split
      · rfl
      · exact nat
    have pagesV : ∀ q : TreePath, v.metaPages q.index = true → ∃ d, follow (child s.content) metaIno q.nodes = some d := by
      intro q here
      by_cases same : q.index = b
      · have top := TreePath.indexInjective (same.trans (show b = (TreePath.inode ⟨b,low⟩).index from rfl))
        rw [top]
        exact ⟨metaIno,rfl⟩
      · refine sound.pages q ?_
        rw [state] at here
        split at here
        · exact here
        · dsimp only at here
          rwa [Function.update_of_ne same,pages] at here
    obtain ⟨nm,inserted⟩ : ∃ nm, nm = insertBlock v.nat.nm (v.nat.file b) b := ⟨_,rfl⟩
    have quietT := quietTrans quietV (quietLoads (inserted ▸ loadsBlock b : Loads v.nat.file v.nat.nm nm))
    have way : PreparesBy Direct v.nat { v.nat with nm := nm } := inserted ▸ preparesLoad v.nat low
    refine ⟨{ v with nat := { v.nat with nm := nm } },⟨quietT,natV ▸ way,quietSound sound quietT ?_ pagesV,?_⟩,?_,?_⟩
    · intro n absent new
      dsimp only at new
      rw [← natV] at absent
      rw [inserted] at new
      rw [((blockSlots absent).mp new).2]
      exact .inl low
    · intro n high block
      dsimp only
      rw [inserted]
      exact blockServes _ _ _ high block
    · unfold Fs.readRawNatBlock
      rw [inserted,state]
      split
      · rfl
      · rw [plain]
        rfl
    · intro held node block
      have inner : LockedPage.node metaIno ∉ LockedPage.metaData b :: held := by simp [node]
      obtain ⟨blkaddr,prepared⟩ := locked (Locked.readRawNatBlock rounds depth) _ true rounds inner
      unfold Locked.readRawNatBlock
      rw [lockFree block,inserted,state]
      simp only [bind,Except.bind]
      split
      · rfl
      · rw [prepared]

/- What an allocation with locks and one without both do. -/
structure Allocates (load : LoadBlock) (plain : Nat → Fs → Option Fs) (held : List LockedPage) (rounds fuel iblock : Nat)
    (s u : Fs) (nm : NatInfo) (ne : NatEntry) : Prop where
  quiet : Quiet s u
  way : PreparesBy Direct s.nat u.nat
  taken : freeNatEmpty u.nat.nm true = some (nm,ne)
  locked : Locked.allocFreeNat load held true rounds iblock s = .ok ({ u with nat := { u.nat with nm := nm } },ne)
  plain : Fs.allocFreeNat plain true fuel iblock s = some ({ u with nat := { u.nat with nm := nm } },ne)

variable {load : LoadBlock} {plain : Nat → Fs → Option Fs}

theorem allocHere {nm : NatInfo} (taken : freeNatEmpty s.nat.nm true = some (nm,ne)) (rounds fuel iblock : Nat) :
    Allocates load plain held rounds fuel iblock s s nm ne where
  quiet := quietRefl s
  way := preparesRefl s.nat
  taken := taken
  locked := by
    unfold Locked.allocFreeNat
    rw [taken]
  plain := by
    unfold Fs.allocFreeNat
    rw [taken]

theorem allocNext {nm : NatInfo} {u : Fs} {rounds fuel iblock : Nat} (none_ : freeNatEmpty s.nat.nm true = none)
    (quiet : Quiet s t) (way : PreparesBy Direct s.nat t.nat) (locked : load held iblock s = .ok t) (bare : plain iblock s = some t)
    (rest : Allocates load plain held rounds fuel (iblock + 1) t u nm ne) :
    Allocates load plain held (rounds + 1) (fuel + 1) iblock s u nm ne where
  quiet := quietTrans quiet rest.quiet
  way := preparesThen way rest.way
  taken := rest.taken
  locked := by
    unfold Locked.allocFreeNat
    rw [none_]
    dsimp only
    rw [locked]
    exact rest.locked
  plain := by
    unfold Fs.allocFreeNat
    rw [none_]
    dsimp only
    rw [bare]
    exact rest.plain

theorem allocEnds (reads : DirectReads inodes load plain) (ok : FsOk inodes known s) (sound : MetaSound inodes s)
    (node : .node metaIno ∉ held) (blocks : ∀ b, b < defAddrsPerInode → .metaData b ∉ held) {rounds fuel : Nat}
    (enough : defAddrsPerInode ≤ rounds) (fuelled : defAddrsPerInode ≤ fuel) :
    ∃ u nm ne, Allocates load plain held rounds fuel 0 s u nm ne ∧ MetaSound inodes u ∧ ∃ now, FsOk inodes now u := by
  obtain ⟨z,high,low,notRoot,apart⟩ := spareExists sound
  have kind : isMetaNid z = true := (natDiv z).mpr (low.trans (by decide))
  have whole : ∀ left iblock, iblock + left = defAddrsPerInode → ∀ known s, FsOk inodes known s → MetaSound inodes s →
      (∀ p, NodePlace p → follow (child s.content) metaIno p ≠ some z) →
      (z / natEntryPerBlock < iblock → s.nat.nm.slot z ≠ none) → ∀ rounds fuel, left ≤ rounds → left ≤ fuel →
      ∃ u nm ne, Allocates load plain held rounds fuel iblock s u nm ne ∧ MetaSound inodes u ∧ ∃ now, FsOk inodes now u := by
    intro left
    induction left with
    | zero =>
      intro iblock last known s ok sound apart passed rounds fuel _ _
      rcases sound.spare z high low notRoot apart with ⟨ne,free⟩ | ⟨absent,_⟩
      · obtain ⟨⟨nm,ne⟩,taken⟩ := Option.isSome_iff_exists.mp (freeFound free kind)
        exact ⟨s,nm,ne,allocHere taken rounds fuel iblock,sound,known,ok⟩
      · exact absurd absent (passed (by omega))
    | succ left ih =>
      intro iblock last known s ok sound apart passed rounds fuel enough fuelled
      cases found : freeNatEmpty s.nat.nm true with
      | some pair => exact ⟨s,pair.1,pair.2,allocHere found rounds fuel iblock,sound,known,ok⟩
      | none =>
        obtain ⟨t,serves,bare,locked⟩ := reads.reads s iblock sound (by omega)
        obtain ⟨rounds,rfl⟩ := Nat.exists_eq_succ_of_ne_zero (show rounds ≠ 0 by omega)
        obtain ⟨fuel,rfl⟩ := Nat.exists_eq_succ_of_ne_zero (show fuel ≠ 0 by omega)
        have passedT : z / natEntryPerBlock < iblock + 1 → t.nat.nm.slot z ≠ none := by
          intro before absent
          by_cases here : z / natEntryPerBlock = iblock
          · exact serves.served z high here (slotNone.mp absent)
          · rcases serves.quiet.loads.slot z with same | ⟨none_,_⟩
            · exact passed (by omega) (same.symm.trans absent)
            · exact passed (by omega) none_
        obtain ⟨now,_,okT,_⟩ := reads.loading known iblock s t ok bare
        obtain ⟨u,nm,ne,allocates,rest⟩ := ih (iblock + 1) (by omega) now t okT serves.sound (serves.quiet.content ▸ apart)
          passedT rounds fuel (by omega) (by omega)
        exact ⟨u,nm,ne,allocNext found serves.quiet serves.way (locked held node (blocks iblock (by omega))) bare allocates,rest⟩
  exact whole defAddrsPerInode 0 (Nat.zero_add _) known s ok sound apart (fun bad => absurd bad (Nat.not_lt_zero _)) rounds fuel
    enough fuelled

/- The call left the tree sound; under `still` it created nothing. -/
structure TreeKept (inodes : Set Nat) (allowed : PrepEvent → Prop) (still : Prop) (s t : Fs) : Prop where
  sound : MetaSound inodes t
  way : PreparesBy allowed s.nat t.nat
  quiet : still → Quiet s t

theorem treeKeptRefl {allowed : PrepEvent → Prop} {still : Prop} (sound : MetaSound inodes s) : TreeKept inodes allowed still s s :=
  ⟨sound,preparesRefl s.nat,fun _ => quietRefl s⟩

theorem treeKeptTrans {allowed : PrepEvent → Prop} {still : Prop} {u : Fs} (first : TreeKept inodes allowed still s t) (second : TreeKept inodes allowed still t u) :
    TreeKept inodes allowed still s u :=
  ⟨second.sound,preparesThen first.way second.way,fun holds => quietTrans (first.quiet holds) (second.quiet holds)⟩

theorem treeKeptQuiet {allowed : PrepEvent → Prop} {still : Prop} (sound : MetaSound inodes s) (quiet : Quiet s t) (nat : t.nat = s.nat)
    (pages : t.metaPages = s.metaPages) : TreeKept inodes allowed still s t := by
  refine ⟨quietSound sound quiet (fun n absent new => ?_) fun q here => ?_,by rw [nat]; exact preparesRefl s.nat,fun _ => quiet⟩
  · rw [nat,absent] at new
    contradiction
  · rw [pages] at here
    exact sound.pages q here

/- A call with locks and one without both come to `t` with the same value. -/
def Ends {A : Type} (locked : Except Stop (Fs × A)) (plain : Option (Fs × A)) (t : Fs) (a : A) : Prop :=
  locked = .ok (t,a) ∧ plain = some (t,a)

/- `P` is what a cache hit has and the reading of the block gives. -/
theorem lookupWith {P : Fs → Prop} (hit : P s)
    (loaded : s.nat.nm.lookup n = none → ∃ u, P u ∧ u.nat.nm.lookup n ≠ none ∧
      load held (n / natEntryPerBlock) s = .ok u ∧ plain (n / natEntryPerBlock) s = some u) :
    ∃ u ne, P u ∧ u.nat.nm.lookup n = some ne ∧ Ends (Locked.lookupNat load held n s) (Fs.lookupNat plain n s) u ne := by
  unfold Locked.lookupNat Fs.lookupNat
  cases found : s.nat.nm.lookup n with
  | some ne => exact ⟨s,ne,hit,found,rfl,rfl⟩
  | none =>
    obtain ⟨u,holds,served,locked,bare⟩ := loaded found
    obtain ⟨ne,here⟩ := Option.ne_none_iff_exists'.mp served
    refine ⟨u,ne,holds,here,?_,?_⟩
    · simp only [bind,Except.bind,locked,here]
    · simp only [bare,Option.bind_some,here,Option.map_some]

theorem nodeKeepsTree {allowed : PrepEvent → Prop} {still : Prop} (sound : MetaSound inodes s) (free : .node n ∉ held)
    (loaded : s.nat.nm.lookup n = none → ∃ u, TreeKept inodes allowed still s u ∧ u.nat.nm.lookup n ≠ none ∧
      load (.node n :: held) (n / natEntryPerBlock) s = .ok u ∧ plain (n / natEntryPerBlock) s = some u) :
    ∃ t, TreeKept inodes allowed still s t ∧ t.cached n = true ∧ Locked.getNodePage load held n s = .ok t ∧
      Fs.getNodePage plain n s = some t := by
  by_cases cached : s.cached n = true
  · exact ⟨s,treeKeptRefl sound,cached,nodeCached cached load plain free⟩
  · obtain ⟨u,ne,kept,found,locked,bare⟩ := lookupWith (treeKeptRefl sound) loaded
    refine ⟨_,treeKeptTrans kept (treeKeptQuiet kept.sound (quietHold found) rfl rfl),Function.update_self ..,?_,?_⟩
    · unfold Locked.getNodePage
      rw [lockFree free]
      simp only [bind,Except.bind,if_neg cached,locked]
    · unfold Fs.getNodePage
      rw [if_neg cached,bare]
      rfl

theorem metaNode (sound : MetaSound inodes s) (metaIn : metaIno ∈ inodes) {p : List Edge} (place : NodePlace p)
    (here : follow (child s.content) metaIno p = some n) : n / natEntryPerBlock < defAddrsPerInode ∧ (n = metaIno ∨ 3 ≤ n) := by
  rcases sound.placed n ⟨metaIno,metaIn,p,place,here⟩ with rfl | allotted
  · exact ⟨by decide,.inl rfl⟩
  · refine ⟨?_,.inr allotted.1⟩
    by_cases top : p = []
    · rw [top] at here
      cases here
      decide
    · exact metaDirect allotted (sound.nodes p n top place here).1

/- No page that the walk may ask for is locked by a caller. -/
structure Clear (held : List LockedPage) : Prop where
  nodes : ∀ n, n / natEntryPerBlock < defAddrsPerInode → .node n ∉ held
  blocks : ∀ b, b < defAddrsPerInode → .metaData b ∉ held

theorem metaNodeEnds {still : Prop} (reads : DirectReads inodes load plain) (sound : MetaSound inodes s) (clear : Clear held)
    (low : n / natEntryPerBlock < defAddrsPerInode) (named : n = metaIno ∨ 3 ≤ n) :
    ∃ t, TreeKept inodes Direct still s t ∧ t.cached n = true ∧ Locked.getNodePage load held n s = .ok t ∧
      Fs.getNodePage plain n s = some t := by
  refine nodeKeepsTree sound (clear.nodes n low) fun absent => ?_
  have other : n ≠ metaIno := by
    rintro rfl
    obtain ⟨ne,found⟩ := metaLookup sound
    rw [absent] at found
    contradiction
  obtain ⟨u,serves,bare,locked⟩ := reads.reads s (n / natEntryPerBlock) sound low
  refine ⟨u,⟨serves.sound,serves.way,fun _ => serves.quiet⟩,serves.served n (named.resolve_left other) rfl,locked _ ?_ ?_,bare⟩
  · rw [List.mem_cons,not_or]
    exact ⟨fun same => other (LockedPage.node.inj same).symm,clear.nodes metaIno (by decide)⟩
  · rw [List.mem_cons,not_or]
    exact ⟨by simp,clear.blocks _ low⟩

theorem newNodeEnds {rounds fuel : Nat} {p : List Edge} {e : Edge} (reads : DirectReads inodes load plain)
    (ok : FsOk inodes known s) (metaIn : metaIno ∈ inodes) (sound : MetaSound inodes s) (clear : Clear held)
    (enough : defAddrsPerInode ≤ rounds) (fuelled : defAddrsPerInode ≤ fuel) (place : NodePlace (p ++ [e]))
    (here : follow (child s.content) metaIno p = some n) (cached : s.cached n = true) (empty : (s.nodes n).cell e = 0)
    (listed : MetaPlace (p ++ [e])) :
    ∃ t m, MetaSound inodes t ∧ PreparesBy Direct s.nat t.nat ∧
      Ends (Locked.newNode load held rounds metaIno n e s) (Fs.newNode plain fuel metaIno n e s) t m := by
  obtain ⟨low,_⟩ := metaNode sound metaIn (nodePlaceParent p e place) here
  obtain ⟨u,nm,ne,allocates,soundU,now,okU⟩ :=
    allocEnds reads ok sound (clear.nodes metaIno (by decide)) clear.blocks enough fuelled
  refine ⟨_,ne.nid,newNodeSound okU metaIn soundU metaIn place (allocates.quiet.content ▸ here) (allocates.quiet.held n cached)
    allocates.taken fun _ => ⟨?_,listed⟩,preparesThen allocates.way (preparesAlloc (.node metaIno) rfl allocates.taken),?_,?_⟩
  · rw [allocates.quiet.content]
    unfold child
    rw [childCell,contentHeld cached,empty]
    rfl
  · unfold Locked.newNode
    simp only [bind,Except.bind,decide_true,if_true,allocates.locked,lockFree (clear.nodes n low)]
  · unfold Fs.newNode
    simp only [decide_true,if_true,allocates.plain,Option.map_some]

/- Nothing is to be created on the way to a block. -/
def NoneMissing (create : Bool) (q : TreePath) (s : Fs) : Prop :=
  create = false ∨ ∃ d, follow (child s.content) metaIno q.nodes = some d

/- From level `i` on the node pages of the path are in memory. -/
def PathHeld (q : TreePath) (i : Nat) (s : Fs) : Prop :=
  ∀ j, i ≤ j → ∀ m, follow (child s.content) metaIno (q.nodes.take j) = some m → s.cached m = true

theorem pathHeldFrom {q : TreePath} {i : Nat} (grown : Grown inodes s t) (metaIn : metaIno ∈ inodes)
    (here : follow (child s.content) metaIno (q.nodes.take i) = some n) (cached : s.cached n = true) (rest : PathHeld q (i + 1) t) :
    PathHeld q i t := by
  intro j above m path
  rcases Nat.eq_or_lt_of_le above with rfl | further
  · have there := grown.paths metaIno metaIn _ n (levelPlace q i) here
    rw [there] at path
    cases path
    exact grown.cached n cached
  · exact rest j further m path

/- The walk to a NAT block. Each node it stands on is found without another walk, and the nid
of a new one in the directly addressed blocks. -/
theorem walkEnds (reads : DirectReads inodes load plain) (metaIn : metaIno ∈ inodes) (clear : Clear held) {rounds fuel : Nat}
    (enough : defAddrsPerInode ≤ rounds) (fuelled : defAddrsPerInode ≤ fuel) {create : Bool} {q : TreePath}
    (bound : q.index < natBlocks) {left i : Nat} (ok : FsOk inodes known s) (sound : MetaSound inodes s) (level : i ≤ q.depth)
    (deep : q.depth < i + left) (here : follow (child s.content) metaIno (q.nodes.take i) = some n) :
    ∃ t found, TreeKept inodes Direct (NoneMissing create q s) s t ∧ PathHeld q i t ∧
      Ends (Locked.dnodeLoop load held create rounds metaIno q.depth q.offsets left i n s)
        (Fs.dnodeLoop plain create fuel metaIno q.depth q.offsets left i n s) t found := by
  induction left generalizing i n s known with
  | zero => omega
  | succ left ih =>
    have place := levelPlace q i
    obtain ⟨low,named⟩ := metaNode sound metaIn place here
    obtain ⟨u,kept,cached,locked,bare⟩ := @metaNodeEnds inodes s n held load plain (NoneMissing create q s) reads sound clear low named
    obtain ⟨⟨now,_,okU,grown⟩,_⟩ := getNodePageAdvances reads.loading ok (ok.reached n ⟨metaIno,metaIn,_,place,here⟩) bare
    have hereU := grown.paths metaIno metaIn _ n place here
    have full : NoneMissing create q s → NoneMissing create q u := by
      rintro (stay | ⟨d,path⟩)
      · exact .inl stay
      · exact .inr ⟨d,grown.paths metaIno metaIn _ d q.nodesPlace path⟩
    unfold Locked.dnodeLoop Fs.dnodeLoop
    by_cases bottom : i = q.depth
    · refine ⟨u,some n,kept,fun j above m path => ?_,?_,?_⟩
      · have whole : q.nodes.take j = q.nodes.take i := by
          rw [List.take_of_length_le (by rw [← TreePath.depthOfNodes]; omega),List.take_of_length_le (by rw [← TreePath.depthOfNodes]; omega)]
        rw [whole,hereU] at path
        cases path
        exact cached
      · rw [locked]
        exact if_pos bottom
      · rw [bare]
        exact if_pos bottom
    · have below : i < q.depth := by omega
      have whole := levelTake q below
      by_cases null : (u.nodes n).cell (Fs.levelEdge q.offsets i) = 0
      · have missing : follow (child u.content) metaIno (q.nodes.take (i + 1)) = none := by
          rw [levelStep below hereU cached,null]
          rfl
        cases create with
        | false =>
          refine ⟨u,none,kept,pathHeldFrom (grownSame rfl fun _ => id) metaIn hereU cached fun j above m path => ?_,?_,?_⟩
          · have split := List.take_append_drop (i + 1) (q.nodes.take j)
            rw [List.take_take,Nat.min_eq_left above] at split
            rw [← split,followAppend,missing] at path
            contradiction
          · rw [locked]
            exact (if_neg bottom).trans (if_neg (not_not.mpr null))
          · rw [bare]
            exact (if_neg bottom).trans (if_neg (not_not.mpr null))
        | true =>
          have listed : MetaPlace (q.nodes.take i ++ [Fs.levelEdge q.offsets i]) := ⟨q,bound,i + 1,whole.symm⟩
          have placeNext : NodePlace (q.nodes.take i ++ [Fs.levelEdge q.offsets i]) := whole ▸ levelPlace q (i + 1)
          obtain ⟨v,m,soundV,wayV,lockedNew,bareNew⟩ :=
            newNodeEnds reads okU metaIn kept.sound clear enough fuelled placeNext hereU cached null listed
          obtain ⟨⟨last,_,okV,grownV⟩,next⟩ := newNodeAdvances reads.loading okU metaIn placeNext hereU cached null bareNew
          rw [← whole] at next
          obtain ⟨t,found,keptT,heldT,lockedRest,bareRest⟩ := ih okV soundV (by omega) (by omega) next
          obtain ⟨⟨_,_,_,grownT⟩,_⟩ := dnodeLoopAdvances reads.loading metaIn okV (by omega) (by omega) next bareRest
          refine ⟨t,found,⟨keptT.sound,preparesThen kept.way (preparesThen wayV keptT.way),fun still => ?_⟩,
            pathHeldFrom (grownTrans grownV grownT) metaIn hereU cached heldT,?_,?_⟩
          · obtain stay | ⟨d,path⟩ := full still
            · contradiction
            · rw [← List.take_append_drop (i + 1) q.nodes,followAppend,missing] at path
              contradiction
          · rw [locked]
            refine (if_neg bottom).trans ((if_neg (not_not.mpr null)).trans ?_)
            simp only [bind,Except.bind,lockedNew]
            exact lockedRest
          · rw [bare]
            refine (if_neg bottom).trans ((if_neg (not_not.mpr null)).trans ?_)
            simp only [bareNew]
            exact bareRest
      · have next := (levelStep below hereU cached).trans (ptrSome.mpr ⟨rfl,null⟩)
        obtain ⟨t,found,keptT,heldT,lockedRest,bareRest⟩ := ih okU kept.sound (by omega) (by omega) next
        obtain ⟨⟨_,_,_,grownT⟩,_⟩ := dnodeLoopAdvances reads.loading metaIn okU (by omega) (by omega) next bareRest
        refine ⟨t,found,⟨keptT.sound,preparesThen kept.way keptT.way,fun still => quietTrans (kept.quiet still) (keptT.quiet (full still))⟩,
          pathHeldFrom grownT metaIn hereU cached heldT,?_,?_⟩
        · rw [locked]
          exact (if_neg bottom).trans ((if_pos null).trans lockedRest)
        · rw [bare]
          exact (if_neg bottom).trans ((if_pos null).trans bareRest)

theorem walkAgain {q : TreePath} {create : Bool} {rounds d left i : Nat} (held_ : PathHeld q i s)
    (free : ∀ p m, NodePlace p → follow (child s.content) metaIno p = some m → .node m ∉ held) (level : i ≤ q.depth)
    (deep : q.depth < i + left) (here : follow (child s.content) metaIno (q.nodes.take i) = some n)
    (whole : follow (child s.content) metaIno q.nodes = some d) :
    Locked.dnodeLoop load held create rounds metaIno q.depth q.offsets left i n s = .ok (s,some d) := by
  induction left generalizing i n with
  | zero => omega
  | succ left ih =>
    have cached := held_ i le_rfl n here
    unfold Locked.dnodeLoop
    rw [(nodeCached cached load (fun _ _ => none) (free _ n (levelPlace q i) here)).1]
    by_cases bottom : i = q.depth
    · rw [List.take_of_length_le (by rw [← TreePath.depthOfNodes]; omega),whole] at here
      cases here
      exact if_pos bottom
    · have path : ∃ m, follow (child s.content) metaIno (q.nodes.take (i + 1)) = some m := by
        rw [← List.take_append_drop (i + 1) q.nodes,followAppend] at whole
        obtain ⟨m,first,_⟩ := Option.bind_eq_some_iff.mp whole
        exact ⟨m,first⟩
      obtain ⟨m,first⟩ := path
      obtain ⟨word,used⟩ := ptrSome.mp ((levelStep (show i < q.depth by omega) here cached).symm.trans first)
      refine (if_neg bottom).trans ((if_pos (word ▸ used)).trans ?_)
      rw [word]
      exact ih (fun j above => held_ j (by omega)) (by omega) (by omega) first

theorem getPathAt (q : TreePath) (create : Bool) (rounds ino : Nat) :
    Locked.getDnodePage load held create rounds ino q.index s =
      Locked.dnodeLoop load held create rounds ino q.depth q.offsets 4 0 ino s ∧
    Fs.getDnodePage plain create rounds ino q.index s = Fs.dnodeLoop plain create rounds ino q.depth q.offsets 4 0 ino s := by
  obtain ⟨path,decoded⟩ : ∃ path, path = getPath q.index := ⟨_,rfl⟩
  unfold Locked.getDnodePage Fs.getDnodePage
  rw [if_pos q.indexBound,if_pos q.indexBound,← decoded,decoded.trans q.getPathIndex]
  exact ⟨rfl,rfl⟩

theorem depthFour (q : TreePath) : q.depth < 0 + 4 := by
  cases q <;> simp only [TreePath.depth] <;> omega

/- The page of a block of the meta file is prepared with the dnode on its path; none may be there
only where nothing is created. -/
theorem prepareEnds (reads : DirectReads inodes load plain) (metaIn : metaIno ∈ inodes) (clear : Clear held) {rounds fuel : Nat}
    (enough : defAddrsPerInode ≤ rounds) (fuelled : defAddrsPerInode ≤ fuel) {create : Bool} {q : TreePath}
    (bound : q.index < natBlocks) (ok : FsOk inodes known s) (sound : MetaSound inodes s) :
    ∃ t found, TreeKept inodes Direct (NoneMissing create q s) s t ∧ Fs.getDnodePage plain create fuel metaIno q.index s = some (t,found) ∧
      (∀ d, found = some d → follow (child t.content) metaIno q.nodes = some d ∧
        ∃ blkaddr, Locked.preparePage load held create rounds metaIno q.index s = .ok (t,some blkaddr)) ∧
      (found = none → create = false ∧ Locked.preparePage load held create rounds metaIno q.index s = .ok (t,none)) := by
  obtain ⟨t,found,kept,pathHeld,locked,bare⟩ := @walkEnds inodes known s metaIno held load plain reads metaIn clear rounds fuel
    enough fuelled create q bound 4 0 ok sound (Nat.zero_le _) (depthFour q) rfl
  have first := (@getPathAt s held load plain q create rounds metaIno).1.trans locked
  have plainWalk := (@getPathAt s held load plain q create fuel metaIno).2.trans bare
  obtain ⟨_,path,same,facts,missing⟩ := dnodePageAdvances reads.loading metaIn ok plainWalk
  cases TreePath.indexInjective same
  refine ⟨t,found,kept,plainWalk,fun d here => ?_,fun none_ => ⟨(missing none_).1,?_⟩⟩
  · obtain ⟨there,_⟩ := facts d here
    rw [here] at first
    refine ⟨there,prepareTwice first ?_⟩
    rw [(@getPathAt t held load plain q false rounds metaIno).1]
    refine @walkAgain t metaIno held load q false rounds d 4 0 pathHeld (fun p m place path => ?_) (Nat.zero_le _)
      (depthFour q) rfl there
    exact clear.nodes m (metaNode kept.sound metaIn place path).1
  · rw [none_] at first
    unfold Locked.preparePage
    simp only [bind,Except.bind,first]

/- The pages that the reading of a block may lock are not locked by its callers. -/
structure Unlocked (held : List LockedPage) (iblock : Nat) : Prop where
  page : .metaData iblock ∉ held
  inode : .node metaIno ∉ held
  others : defAddrsPerInode ≤ iblock → Clear held

/- What the reading of a block comes to. -/
structure BlockEnds (inodes : Set Nat) (load : LoadBlock) (plain : Nat → Fs → Option Fs) (held : List LockedPage) (iblock : Nat)
    (s t : Fs) : Prop where
  locked : load held iblock s = .ok t
  plain : plain iblock s = some t
  sound : NatPlace iblock → MetaSound inodes t
  served : ∀ n, 3 ≤ n → n / natEntryPerBlock = iblock → t.nat.nm.lookup n ≠ none
  way : PreparesBy (fun event => Direct event ∨ event = .load iblock) s.nat t.nat
  quiet : (∀ q : TreePath, q.index = iblock → ∃ d, follow (child s.content) metaIno q.nodes = some d) → Quiet s t

theorem farBlockEnds (reads : DirectReads inodes load plain) (metaIn : metaIno ∈ inodes) {q : TreePath} (bound : q.index < natBlocks)
    (page : .metaData q.index ∉ held) (clear : Clear (.metaData q.index :: held)) {rounds fuel depth : Nat}
    (enough : defAddrsPerInode ≤ rounds) (fuelled : defAddrsPerInode ≤ fuel)
    (isLoad : load = Locked.readRawNatBlock rounds depth) (isPlain : plain = Fs.readRawNatBlock fuel) (ok : FsOk inodes known s)
    (sound : MetaSound inodes s) :
    ∃ t, BlockEnds inodes (Locked.readRawNatBlock rounds (depth + 1)) (Fs.readRawNatBlock (fuel + 1)) held q.index s t := by
  obtain ⟨v,kept,extends_,locked,bare⟩ : ∃ v, TreeKept inodes Direct (NoneMissing true q s) s v ∧
      (∃ d, follow (child v.content) metaIno q.nodes = some d) ∧
      (∀ nm, nm = insertBlock v.nat.nm (v.nat.file q.index) q.index →
        Locked.readRawNatBlock rounds (depth + 1) held q.index s = .ok { v with nat := { v.nat with nm := nm } }) ∧
      ∀ nm, nm = insertBlock v.nat.nm (v.nat.file q.index) q.index →
        Fs.readRawNatBlock (fuel + 1) q.index s = some { v with nat := { v.nat with nm := nm } } := by
    by_cases uptodate : s.metaPages q.index = true
    · refine ⟨s,treeKeptRefl sound,sound.pages q uptodate,fun nm inserted => ?_,fun nm inserted => ?_⟩
      · unfold Locked.readRawNatBlock
        rw [lockFree page,inserted]
        simp only [bind,Except.bind,if_pos uptodate]
      · unfold Fs.readRawNatBlock
        rw [inserted,if_pos uptodate]
        rfl
    · obtain ⟨u,d,blkaddr,kept,here,prepared,walked⟩ : ∃ u d blkaddr, TreeKept inodes Direct (NoneMissing true q s) s u ∧
          follow (child u.content) metaIno q.nodes = some d ∧
          Locked.preparePage load (.metaData q.index :: held) true rounds metaIno q.index s = .ok (u,some blkaddr) ∧
          Fs.getDnodePage plain true fuel metaIno q.index s = some (u,some d) := by
        obtain ⟨u,found,kept,walked,some_,none_⟩ := @prepareEnds inodes known s _ load plain reads metaIn clear rounds fuel enough
          fuelled true q bound ok sound
        cases found with
        | none => cases (none_ rfl).1
        | some d =>
          obtain ⟨here,blkaddr,prepared⟩ := some_ d rfl
          exact ⟨u,d,blkaddr,kept,here,prepared,walked⟩
      have quiet := quietPage u q.index
      have pages : ∀ r : TreePath, Function.update u.metaPages q.index true r.index = true →
          ∃ d, follow (child u.content) metaIno r.nodes = some d := by
        intro r set
        by_cases same : r.index = q.index
        · rw [TreePath.indexInjective same]
          exact ⟨d,here⟩
        · rw [Function.update_of_ne same] at set
          exact kept.sound.pages r set
      have soundV := quietSound kept.sound quiet (fun n absent new => absurd absent new) pages
      refine ⟨_,⟨soundV,kept.way,fun still => quietTrans (kept.quiet still) quiet⟩,⟨d,here⟩,fun nm inserted => ?_,fun nm inserted => ?_⟩
      · unfold Locked.readRawNatBlock
        rw [lockFree page,inserted]
        rw [isLoad] at prepared
        simp only [bind,Except.bind,if_neg uptodate,prepared]
      · unfold Fs.readRawNatBlock
        rw [isPlain] at walked
        rw [inserted,if_neg uptodate,walked]
        rfl
  obtain ⟨nm,inserted⟩ : ∃ nm, nm = insertBlock v.nat.nm (v.nat.file q.index) q.index := ⟨_,rfl⟩
  have quiet := quietLoads (inserted ▸ loadsBlock q.index : Loads v.nat.file v.nat.nm nm)
  have load : PreparesBy (fun event => Direct event ∨ event = .load q.index) v.nat { v.nat with nm := nm } :=
    inserted ▸ preparesLoad v.nat (.inr rfl)
  refine ⟨{ v with nat := { v.nat with nm := nm } },locked nm inserted,bare nm inserted,fun place => ?_,fun n high block => ?_,
    preparesThen (preparesMore kept.way fun _ => .inl) load,fun exists_ => quietTrans (kept.quiet (.inr (exists_ q rfl))) quiet⟩
  · refine quietSound kept.sound quiet (fun n absent new => ?_) kept.sound.pages
    dsimp only at new
    rw [inserted] at new
    rw [((blockSlots absent).mp new).2]
    exact place
  · dsimp only
    rw [inserted]
    exact blockServes _ _ _ high block

theorem rawBlockEnds (metaIn : metaIno ∈ inodes) {iblock : Nat} (range : iblock < natBlocks) (unlocked : Unlocked held iblock)
    {rounds fuel : Nat} (enough : defAddrsPerInode ≤ rounds) (fuelled : defAddrsPerInode ≤ fuel) (depth : Nat)
    (ok : FsOk inodes known s) (sound : MetaSound inodes s) :
    ∃ t, BlockEnds inodes (Locked.readRawNatBlock rounds (depth + 2)) (Fs.readRawNatBlock (fuel + 1)) held iblock s t := by
  by_cases low : iblock < defAddrsPerInode
  · obtain ⟨t,serves,bare,locked⟩ := (directReads metaIn rounds (depth + 1) fuel).reads s iblock sound low
    exact ⟨t,locked held unlocked.inode unlocked.page,bare,fun _ => serves.sound,serves.served,preparesMore serves.way fun _ => .inl,
      fun _ => serves.quiet⟩
  · obtain ⟨q,rfl⟩ : ∃ q : TreePath, q.index = iblock := ⟨_,TreePath.indexOfIndex iblock (range.trans (by decide))⟩
    obtain ⟨fuel,rfl⟩ := Nat.exists_eq_succ_of_ne_zero (show fuel ≠ 0 by unfold defAddrsPerInode at fuelled; omega)
    have clear := unlocked.others (not_lt.mp low)
    have inner : Clear (.metaData q.index :: held) := by
      refine ⟨fun n direct => ?_,fun b direct => ?_⟩
      · simp [clear.nodes n direct]
      · rw [List.mem_cons,not_or]
        exact ⟨fun same => low (LockedPage.metaData.inj same ▸ direct),clear.blocks b direct⟩
    exact farBlockEnds (directReads metaIn rounds depth fuel) metaIn range unlocked.page inner enough fuelled rfl rfl ok sound

/- A lookup that holds no page, or the page of its own nid only. -/
theorem ownUnlocked (own : ∀ page ∈ held, page = .node n) (other : n ≠ metaIno) : Unlocked held (n / natEntryPerBlock) where
  page member := by cases own _ member
  inode member := other (LockedPage.node.inj (own _ member)).symm
  others far := by
    refine ⟨fun m low member => ?_,fun b _ member => by cases own _ member⟩
    cases own _ member
    exact absurd low (not_lt.mpr far)

theorem lookupEnds (metaIn : metaIno ∈ inodes) (own : ∀ page ∈ held, page = .node n) (high : 3 ≤ n)
    (range : n / natEntryPerBlock < natBlocks) {rounds fuel : Nat} (enough : defAddrsPerInode ≤ rounds)
    (fuelled : defAddrsPerInode ≤ fuel) (depth : Nat) (ok : FsOk inodes known s) (sound : MetaSound inodes s) :
    ∃ t ne, (NatPlace (n / natEntryPerBlock) → MetaSound inodes t) ∧ t.nat.nm.lookup n = some ne ∧
      Ends (Locked.lookupNat (Locked.readRawNatBlock rounds (depth + 2)) held n s)
        (Fs.lookupNat (Fs.readRawNatBlock (fuel + 1)) n s) t ne := by
  refine lookupWith (P := fun t => NatPlace (n / natEntryPerBlock) → MetaSound inodes t) (fun _ => sound) fun _ => ?_
  have other : n ≠ metaIno := by
    have low : metaIno < 3 := by decide
    omega
  obtain ⟨t,ends⟩ := @rawBlockEnds inodes known s held metaIn _ range (ownUnlocked own other) rounds fuel enough fuelled depth ok sound
  exact ⟨t,ends.sound,ends.served n high rfl,ends.locked,ends.plain⟩

theorem nodeEnds (metaIn : metaIno ∈ inodes) {rounds fuel : Nat} (enough : defAddrsPerInode ≤ rounds)
    (fuelled : defAddrsPerInode ≤ fuel) (depth : Nat) (ok : FsOk inodes known s) (sound : MetaSound inodes s)
    (reached : Reached nodeShape inodes (child s.content) n) :
    ∃ t, TreeKept inodes (fun _ => True) True s t ∧ t.cached n = true ∧
      Locked.getNodePage (Locked.readRawNatBlock rounds (depth + 2)) [] n s = .ok t ∧
      Fs.getNodePage (Fs.readRawNatBlock (fuel + 1)) n s = some t := by
  refine nodeKeepsTree sound List.not_mem_nil fun absent => ?_
  have other : n ≠ metaIno := by
    rintro rfl
    obtain ⟨ne,found⟩ := metaLookup sound
    rw [absent] at found
    contradiction
  have place := (sound.placed n reached).resolve_left other
  have range : n / natEntryPerBlock < natBlocks := by
    rcases place.2 with low | ⟨_,low⟩
    · exact low.trans (by decide)
    · exact low
  obtain ⟨t,ends⟩ := @rawBlockEnds inodes known s [.node n] metaIn _ range (ownUnlocked (by simp) other) rounds fuel enough fuelled
    depth ok sound
  refine ⟨t,⟨ends.sound place.2,preparesMore ends.way fun _ _ => trivial,fun _ => ends.quiet fun q index => ?_⟩,ends.served n place.1 rfl,ends.locked,ends.plain⟩
  rcases ok.nat.used n (ok.reached n reached) with ⟨ne,here⟩ | ⟨_,_,address⟩
  · rw [← slotNone,here] at absent
    contradiction
  · exact sound.stored n place.1 address q index

end
end Xcpfs
