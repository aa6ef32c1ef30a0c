import Xcpfs.FileTrees

/-! The bytes of the files over whole runs. A file is what was written to it, whichever of its
pages were written back, dropped and read again, and whatever happened to the rest of the mount. -/
namespace Xcpfs
open PointerForest EventRun WriteBack
open CBytes (Memory store)

def zeroPage : Memory := fun _ => 0

namespace FileRun

def backing (s : FileRun) : Store PageKey Nat Memory where
  cell key := ptr (oldBlkaddr s.mount.fs.content key.1 key.2)
  block := s.blocks
  held key := (s.pages key).map FilePage.bytes
  filled := {a | s.written a = true}

/- The page is newer than its block, or was when it was last looked at. -/
def Ahead (s : FileRun) (key : PageKey) : Prop := s.busy key = true ∨ ∃ page, s.pages key = some page ∧ page.dirty = true

def value (s : FileRun) (key : PageKey) : Memory := s.backing.value zeroPage key

def Good (s : FileRun) (key : PageKey) : Prop := Sound zeroPage (s.Ahead key) s.backing key

/- A data write in flight has its page and its dnode in memory, where the walk found it. -/
structure Held (s : FileRun) (f : DataFlight) : Prop where
  inside : s.mount.inodes f.ino = true
  regular : f.ino ≠ metaIno
  cached : s.mount.fs.cached f.dnode = true
  dnode : ∃ q : TreePath, q.index = f.iblock ∧ follow (child s.mount.fs.content) f.ino q.nodes = some f.dnode
  page : ∃ page, s.pages (f.ino,f.iblock) = some page

end FileRun

structure FileInv (s : FileRun) : Prop where
  own : OwnInv s.own
  held : ∀ f ∈ s.flights, s.Held f
  pages : ∀ key page, s.pages key = some page → s.mount.inodes key.1 = true ∧ key.1 ≠ metaIno ∧ key.2 < maxBlocks
  good : ∀ ino, s.mount.inodes ino = true → ino ≠ metaIno → ∀ q : TreePath, s.Good (ino,q.index)

/- What an event means for one page. -/
def FileEvent.page (key : PageKey) (bytes : Memory) : FileEvent → Memory
  | .write _ _ ino pos data | .mapped ino pos data =>
    if key = (ino,pos / pageSize) then store bytes (pos % pageSize) data else bytes
  | .zero _ _ ino iblock offset => if offset ≠ 0 ∧ key = (ino,iblock) then zeroUser bytes offset else bytes
  | .tree (.truncate _ ino freeFrom) => if key.1 = ino ∧ freeFrom ≤ key.2 then zeroPage else bytes
  | .tree (.evict _ ino nlink) => if (ino ≤ 2 ∨ nlink ≠ 0) ∨ key.1 ≠ ino then bytes else zeroPage
  | _ => bytes

/- A step that works on the page `key` at most. -/
structure Aside (key : PageKey) (s t : FileRun) : Prop where
  inodes : t.mount.inodes = s.mount.inodes
  pages : ∀ k, k ≠ key → t.pages k = s.pages k
  busy : ∀ k, k ≠ key → t.busy k = s.busy k
  cell : ∀ ino, s.mount.inodes ino = true → ∀ q : TreePath, (ino,q.index) ≠ key →
    blockAt t.mount.fs.content ino q = blockAt s.mount.fs.content ino q
  appends : Appends s.backing t.backing

/- Every inode's own pages after a step. -/
def Shows (event : FileEvent) (s t : FileRun) : Prop :=
  ∀ ino, s.mount.inodes ino = true → t.mount.inodes ino = true → ino ≠ metaIno → ∀ q : TreePath,
    t.value (ino,q.index) = event.page (ino,q.index) (s.value (ino,q.index))

section
variable {s t : FileRun} {key : PageKey} {ino : Nat} {q : TreePath}

theorem cellAt (s : FileRun) (ino : Nat) (q : TreePath) : s.backing.cell (ino,q.index) = ptr (blockAt s.mount.fs.content ino q) := by
  unfold FileRun.backing
  dsimp only
  rw [oldBlkaddrAt]

theorem pageCellSame (block : blockAt t.mount.fs.content ino q = blockAt s.mount.fs.content ino q) :
    t.backing.cell (ino,q.index) = s.backing.cell (ino,q.index) := by
  rw [cellAt,cellAt,block]

theorem heldSame (pages : t.pages key = s.pages key) : t.backing.held key = s.backing.held key := by
  unfold FileRun.backing
  dsimp only
  rw [pages]

theorem asideGood (aside : Aside key s t) (good : s.Good (ino,q.index)) (inside : s.mount.inodes ino = true)
    (other : (ino,q.index) ≠ key) : t.Good (ino,q.index) ∧ t.value (ino,q.index) = s.value (ino,q.index) := by
  refine valueKept good aside.appends (pageCellSame (aside.cell ino inside q other)) (heldSame (aside.pages _ other)) ?_
  unfold FileRun.Ahead
  rw [aside.busy _ other,aside.pages _ other]
  exact id

theorem asideAll (event : FileEvent) (inv : FileInv s) (aside : Aside key s t)
    (elsewhere : ∀ k bytes, k ≠ key → event.page k bytes = bytes)
    (here : ∀ q : TreePath, key = (key.1,q.index) → s.mount.inodes key.1 = true → key.1 ≠ metaIno →
      t.Good key ∧ t.value key = event.page key (s.value key)) :
    (∀ ino, t.mount.inodes ino = true → ino ≠ metaIno → ∀ q : TreePath, t.Good (ino,q.index)) ∧ Shows event s t := by
  have both : ∀ ino, s.mount.inodes ino = true → ino ≠ metaIno → ∀ q : TreePath,
      t.Good (ino,q.index) ∧ t.value (ino,q.index) = event.page (ino,q.index) (s.value (ino,q.index)) := by
    intro ino inside regular q
    by_cases same : (ino,q.index) = key
    · subst same
      exact here q rfl inside regular
    · rw [elsewhere _ _ same]
      exact asideGood aside (inv.good ino inside regular q) inside same
  refine ⟨fun ino inside regular q => (both ino (aside.inodes ▸ inside) regular q).1,fun ino inside _ regular q => ?_⟩
  exact (both ino inside regular q).2

end

/- The walk to a dnode, and the preparation of a page. -/
section
variable {s : MountState} {fs : Fs} {fuel rounds ino iblock : Nat} {create : Bool}

structure Walked (s : MountState) (create : Bool) (ino : Nat) (q : TreePath) (fs : Fs) (found : Option Nat) : Prop where
  inv : MountInv (s.setFs fs)
  grown : Grown {n | s.inodes n = true} s.fs fs
  dnode : ∀ d, found = some d → follow (child fs.content) ino q.nodes = some d ∧ fs.cached d = true ∧
    (fs.nodes d).dataAddr q.index = blockAt s.fs.content ino q
  missing : found = none → create = false ∧ follow (child fs.content) ino q.nodes = none

theorem walkIs (inv : MountInv s) (inside : s.inodes ino = true) (regular : ino ≠ metaIno) (enough : natFuel ≤ fuel)
    (range : create = true → regNatStart + rounds ≤ natBlocks) {found : Option Nat}
    (ran : Fs.getDnodePage (Fs.readRawNatBlock fuel) create rounds ino iblock s.fs = some (fs,found)) :
    ∃ q : TreePath, q.index = iblock ∧ Walked s create ino q fs found := by
  obtain ⟨known,ok⟩ := inv.ok
  have metaIn : metaIno ∈ {n | s.inodes n = true} := inv.metaIn
  obtain ⟨⟨now,_,okT,grown⟩,q,index,dnode,missing⟩ := dnodePageAdvances (rawBlockLoading metaIn fuel) inside ok ran
  have sound := walkSound metaIn enough inside (fun own => absurd own regular) (fun _ => range) ok inv.sound ran
  refine ⟨q,index,invFs inv.metaIn ⟨⟨now,okT⟩,sound⟩,grown,fun d here => ?_,missing⟩
  obtain ⟨path,cached⟩ := dnode d here
  refine ⟨path,cached,?_⟩
  rw [dataAddrWord,← contentHeld cached,← blockAtFound path]
  exact grown.blocks ino inside q

theorem preparePageIs (inv : MountInv s) (inside : s.inodes ino = true) (regular : ino ≠ metaIno) (enough : natFuel ≤ fuel)
    (range : create = true → regNatStart + rounds ≤ natBlocks) {found : Option Nat}
    (ran : s.fs.preparePage fuel create rounds ino iblock = some (fs,found)) :
    ∃ q : TreePath, q.index = iblock ∧ MountInv (s.setFs fs) ∧ Grown {n | s.inodes n = true} s.fs fs ∧
      (∀ b, found = some b → b = blockAt s.fs.content ino q) ∧
      (found = none → create = false ∧ follow (child s.fs.content) ino q.nodes = none) := by
  obtain ⟨⟨u,first⟩,walked,rest⟩ := Option.bind_eq_some_iff.mp ran
  obtain ⟨q,index,facts⟩ := walkIs inv inside regular enough range walked
  subst index
  refine ⟨q,rfl,?_⟩
  cases first with
  | none =>
    cases rest
    obtain ⟨plain,missing⟩ := facts.missing rfl
    refine ⟨facts.inv,facts.grown,fun b bad => (Option.some_ne_none b bad.symm).elim,fun _ => ⟨plain,?_⟩⟩
    cases before : follow (child s.fs.content) ino q.nodes with
    | none => rfl
    | some d => cases missing.symm.trans (facts.grown.paths ino inside q.nodes d q.nodesPlace before)
  | some d =>
    obtain ⟨path,cached,word⟩ := facts.dnode d rfl
    dsimp only at rest
    rw [word] at rest
    split at rest
    · rename_i zero
      cases rest
      exact ⟨facts.inv,facts.grown,fun b same => (Option.some.inj same).symm.trans zero.symm,fun bad => by cases bad⟩
    · obtain ⟨⟨v,second⟩,again,last⟩ := Option.bind_eq_some_iff.mp rest
      obtain ⟨e,rfl,same⟩ := Option.map_eq_some_iff.mp last
      cases same
      obtain ⟨p,index,more⟩ := walkIs (s := s.setFs u) facts.inv inside regular enough (fun bad => by cases bad) again
      cases TreePath.indexInjective index
      refine ⟨more.inv,grownTrans facts.grown more.grown,fun b same => ?_,fun bad => by cases bad⟩
      rw [← Option.some.inj same]
      exact (more.dnode e rfl).2.2.trans (facts.grown.blocks ino inside q)

theorem readPrepares (inv : MountInv s) (inside : s.inodes ino = true) (regular : ino ≠ metaIno) (enough : natFuel ≤ fuel) (rounds : Nat)
    (q : TreePath) : ∃ fs found, s.fs.preparePage fuel false rounds ino q.index = some (fs,found) := by
  obtain ⟨f,rfl,fuelled⟩ := enoughFuel enough
  obtain ⟨known,ok⟩ := inv.ok
  obtain ⟨t,quiet,_,_,walked⟩ := readReturns inv.metaIn (le_refl defAddrsPerInode) fuelled inside 0 rounds q ok inv.sound
  unfold Fs.preparePage
  rw [walked,Option.bind_some]
  cases path : follow (child s.fs.content) ino q.nodes with
  | none => exact ⟨t,none,rfl⟩
  | some d =>
    dsimp only
    split
    · exact ⟨t,some 0,rfl⟩
    · obtain ⟨p,index,facts⟩ := walkIs inv inside regular enough (fun bad => by cases bad) walked
      obtain ⟨now,okT⟩ := facts.inv.ok
      obtain ⟨u,_,_,_,again⟩ := readReturns inv.metaIn (le_refl defAddrsPerInode) fuelled inside 0 rounds q okT facts.inv.sound
      have there : follow (child (s.setFs t).fs.content) ino q.nodes = some d :=
        (congrArg (fun c => follow (child c) ino q.nodes) quiet.content).trans path
      rw [there] at again
      exact ⟨u,_,Option.bind_eq_some_iff.mpr ⟨_,again,rfl⟩⟩

end

section
variable {s t : FileRun} {fs : Fs} {fuel rounds ino iblock : Nat} {create : Bool} {q : TreePath}

theorem storedAt (s : FileRun) (ino : Nat) (q : TreePath) : s.backing.stored zeroPage (ino,q.index) =
    if blockAt s.mount.fs.content ino q = 0 then zeroPage else s.blocks (blockAt s.mount.fs.content ino q) := by
  unfold Store.stored
  rw [cellAt]
  unfold ptr
  split
  · rfl
  · rfl

theorem valueAbsent {key : PageKey} (absent : s.backing.held key = none) : s.value key = s.backing.stored zeroPage key := by
  unfold FileRun.value Store.value
  rw [absent,Option.getD_none]

theorem valueHeld {key : PageKey} {page : FilePage} (here : s.pages key = some page) : s.value key = page.bytes := by
  have held : s.backing.held key = some page.bytes := congrArg (Option.map FilePage.bytes) here
  unfold FileRun.value Store.value
  rw [held,Option.getD_some]

theorem appendsSame (blocks : t.blocks = s.blocks) (written : t.written = s.written) : Appends s.backing t.backing := by
  refine ⟨fun a there => ?_,fun a _ => congrFun blocks a⟩
  change t.written a = true
  rw [written]
  exact there

theorem busyIff {key : PageKey} : s.busy key = true ↔ ∃ f ∈ s.flights, f.ino = key.1 ∧ f.iblock = key.2 := by
  unfold FileRun.busy DataFlight.of
  rw [List.any_eq_true]
  simp only [decide_eq_true_eq]

theorem busyErased {key : PageKey} (flights : t.flights = s.flights.eraseP (DataFlight.of ino iblock))
    (differ : key ≠ (ino,iblock)) : t.busy key = s.busy key := by
  rw [Bool.eq_iff_iff,busyIff,busyIff,flights]
  constructor
  · intro busy
    obtain ⟨f,member,place⟩ := busy
    exact ⟨f,List.mem_of_mem_eraseP member,place⟩
  · intro busy
    obtain ⟨f,member,place⟩ := busy
    refine ⟨f,(List.mem_eraseP_of_neg fun bad => differ ?_).mpr member,place⟩
    simp only [DataFlight.of,Bool.decide_and,Bool.and_eq_true,decide_eq_true_eq] at bad
    exact Prod.ext (place.1.symm.trans bad.1) (place.2.symm.trans bad.2)

theorem busySame {key : PageKey} (flights : t.flights = s.flights) : t.busy key = s.busy key := by
  unfold FileRun.busy
  rw [flights]

theorem heldGrownPage {f : DataFlight} (held : s.Held f) (inodes : t.mount.inodes = s.mount.inodes)
    (grown : Grown {n | s.mount.inodes n = true} s.mount.fs t.mount.fs)
    (page : ∃ page, t.pages (f.ino,f.iblock) = some page) : t.Held f := by
  obtain ⟨q,index,path⟩ := held.dnode
  exact ⟨inodes ▸ held.inside,held.regular,grown.cached _ held.cached,
    ⟨q,index,grown.paths f.ino held.inside q.nodes f.dnode q.nodesPlace path⟩,page⟩

theorem ownWalked (own : OwnInv s.own) (inv : MountInv (s.mount.setFs fs)) (out : StaysOut s.mount (s.mount.setFs fs)) :
    OwnInv (s.setFs fs).own := ownKept own inv rfl out

theorem preparedOut (inv : MountInv s.mount) (inside : s.mount.inodes ino = true) (regular : ino ≠ metaIno) (enough : natFuel ≤ fuel)
    (range : create = true → regNatStart + rounds ≤ natBlocks) {found : Option Nat}
    (ran : s.mount.fs.preparePage fuel create rounds ino iblock = some (fs,found)) : StaysOut s.mount (s.mount.setFs fs) := by
  obtain ⟨⟨u,first⟩,walked,rest⟩ := Option.bind_eq_some_iff.mp ran
  have out := walkOut inv inside walked
  obtain ⟨q,_,facts⟩ := walkIs inv inside regular enough range walked
  cases first with
  | none =>
    cases rest
    exact out
  | some d =>
    dsimp only at rest
    split at rest
    · cases rest
      exact out
    · obtain ⟨⟨v,second⟩,again,last⟩ := Option.bind_eq_some_iff.mp rest
      obtain ⟨e,_,same⟩ := Option.map_eq_some_iff.mp last
      cases same
      exact outTrans out (walkOut (s := s.mount.setFs u) facts.inv inside again)

/- A page that nothing was written to is prepared, or is not. -/
structure Prepared (s : FileRun) (create : Bool) (key : PageKey) (t : FileRun) (found : Option FilePage) : Prop where
  inv : FileInv t
  low : key.2 < maxBlocks
  aside : Aside key s t
  flights : t.flights = s.flights
  same : t.value key = s.value key
  page : ∀ page, found = some page → t.pages key = some page ∧ page.bytes = s.value key
  failed : found = none → create = false ∧ s.pages key = none ∧ getDnode s.mount.fs.content key.1 key.2 = none

theorem preparedPage (inv : FileInv s) (inside : s.mount.inodes ino = true) (regular : ino ≠ metaIno) (enough : natFuel ≤ fuel)
    (range : create = true → regNatStart + rounds ≤ natBlocks) {found : Option FilePage}
    (ran : s.preparePage fuel rounds create (ino,iblock) = some (t,found)) : Prepared s create (ino,iblock) t found := by
  unfold FileRun.preparePage at ran
  cases here : s.pages (ino,iblock) with
  | some page =>
    rw [here] at ran
    cases ran
    refine ⟨inv,(inv.pages _ page here).2.2,⟨rfl,fun _ _ => rfl,fun _ _ => rfl,fun _ _ _ _ => rfl,appendsRefl _⟩,rfl,rfl,fun page same => ?_,
      fun bad => by cases bad⟩
    cases same
    exact ⟨here,(valueHeld here).symm⟩
  | none =>
    rw [here] at ran
    obtain ⟨⟨fs,answer⟩,prepared,same⟩ := Option.map_eq_some_iff.mp ran
    obtain ⟨q,rfl,mount,grown,word,missing⟩ := preparePageIs inv.own.mount inside regular enough range prepared
    have own := ownWalked inv.own mount (preparedOut inv.own.mount inside regular enough range prepared)
    have blocks : ∀ i, s.mount.inodes i = true → ∀ p : TreePath, blockAt fs.content i p = blockAt s.mount.fs.content i p :=
      fun i member p => grown.blocks i member p
    have absent : s.backing.held (ino,q.index) = none := congrArg (Option.map FilePage.bytes) here
    have good := inv.good ino inside regular q
    cases answer with
    | none =>
      cases same
      obtain ⟨plain,gone⟩ := missing rfl
      have aside : Aside (ino,q.index) s (s.setFs fs) :=
        ⟨rfl,fun _ _ => rfl,fun _ _ => rfl,fun i member p _ => blocks i member p,appendsSame rfl rfl⟩
      have kept : (s.setFs fs).Good (ino,q.index) ∧ (s.setFs fs).value (ino,q.index) = s.value (ino,q.index) :=
        valueKept good aside.appends (pageCellSame (t := s.setFs fs) (blocks ino inside q)) rfl id
      refine ⟨⟨own,fun f flying => heldGrownPage (inv.held f flying) rfl grown (inv.held f flying).page,inv.pages,?_⟩,q.indexBound,aside,rfl,
        kept.2,fun page bad => (Option.some_ne_none page bad.symm).elim,fun _ => ⟨plain,here,(getDnodeAt ..).trans gone⟩⟩
      refine (asideAll (.release 0 0) inv aside (fun _ _ _ => rfl) fun p index _ _ => ?_).1
      exact kept
    | some b =>
      obtain rfl := word b rfl
      obtain ⟨page,is_⟩ : ∃ page : FilePage, page =
          ⟨if blockAt s.mount.fs.content ino q = 0 then fun _ => 0 else s.blocks (blockAt s.mount.fs.content ino q),false⟩ := ⟨_,rfl⟩
      have bytes : page.bytes = s.backing.stored zeroPage (ino,q.index) := by
        rw [storedAt,is_]
        rfl
      obtain ⟨rfl,rfl⟩ : (s.setFs fs).setPage (ino,q.index) page = t ∧ some page = found := by
        rw [is_]
        exact Prod.mk.inj same
      have now : ((s.setFs fs).setPage (ino,q.index) page).pages (ino,q.index) = some page := Function.update_self ..
      have others : ∀ k, k ≠ (ino,q.index) → ((s.setFs fs).setPage (ino,q.index) page).pages k = s.pages k :=
        fun k other => Function.update_of_ne other ..
      have aside : Aside (ino,q.index) s ((s.setFs fs).setPage (ino,q.index) page) :=
        ⟨rfl,others,fun _ _ => rfl,fun i member p _ => blocks i member p,appendsSame rfl rfl⟩
      have loaded : ((s.setFs fs).setPage (ino,q.index) page).backing.held (ino,q.index) = some (s.backing.stored zeroPage (ino,q.index)) := by
        rw [← bytes]
        exact congrArg (Option.map FilePage.bytes) now
      have kept : ((s.setFs fs).setPage (ino,q.index) page).Good (ino,q.index) ∧
          ((s.setFs fs).setPage (ino,q.index) page).value (ino,q.index) = s.value (ino,q.index) := valueLoaded good
        aside.appends (pageCellSame (t := (s.setFs fs).setPage (ino,q.index) page) (blocks ino inside q)) absent loaded
      refine ⟨⟨own,fun f flying => ?_,fun k other there => ?_,?_⟩,q.indexBound,aside,rfl,kept.2,fun other same => ?_,fun bad => by cases bad⟩
      · refine heldGrownPage (inv.held f flying) rfl grown ?_
        obtain ⟨old,there⟩ := (inv.held f flying).page
        by_cases mine : (f.ino,f.iblock) = (ino,q.index)
        · rw [mine]
          exact ⟨page,now⟩
        · exact ⟨old,(others _ mine).trans there⟩
      · by_cases mine : k = (ino,q.index)
        · subst mine
          exact ⟨inside,regular,q.indexBound⟩
        · exact inv.pages k other ((others k mine).symm.trans there)
      · refine (asideAll (.release 0 0) inv aside (fun _ _ _ => rfl) fun p index _ _ => ?_).1
        exact kept
      · cases same
        exact ⟨now,bytes.trans (valueAbsent absent).symm⟩

end

/- The steps that work on one page. -/
section
variable {s t u : FileRun} {fuel rounds ino iblock pos blkaddr : Nat} {data : List UInt8} {key : PageKey}

theorem setPageSelf (s : FileRun) (key : PageKey) (page : FilePage) : (s.setPage key page).pages key = some page :=
  Function.update_self ..

theorem setPageOther (s : FileRun) {key other : PageKey} (page : FilePage) (differ : other ≠ key) :
    (s.setPage key page).pages other = s.pages other := Function.update_of_ne differ ..

theorem pagesSet {page : FilePage} (inv : FileInv s) (inodes : t.mount.inodes = s.mount.inodes)
    (pages : t.pages = Function.update s.pages (ino,iblock) (some page)) (inside : s.mount.inodes ino = true) (regular : ino ≠ metaIno)
    (low : iblock < maxBlocks) (k : PageKey) (other : FilePage) (there : t.pages k = some other) :
    t.mount.inodes k.1 = true ∧ k.1 ≠ metaIno ∧ k.2 < maxBlocks := by
  rw [inodes]
  by_cases mine : k = (ino,iblock)
  · subst mine
    exact ⟨inside,regular,low⟩
  · rw [pages,Function.update_of_ne mine] at there
    exact inv.pages k other there

theorem pageStays {page : FilePage} (pages : t.pages = Function.update s.pages (ino,iblock) (some page))
    (there : ∃ old, s.pages key = some old) : ∃ page, t.pages key = some page := by
  rw [pages]
  by_cases mine : key = (ino,iblock)
  · rw [mine,Function.update_self]
    exact ⟨page,rfl⟩
  · rw [Function.update_of_ne mine]
    exact there

theorem putKeeps (next : FilePage) (inv : FileInv s) (inside : s.mount.inodes ino = true) (regular : ino ≠ metaIno)
    (low : iblock < maxBlocks) (dirty : next.dirty = true) :
    FileInv (s.setPage (ino,iblock) next) ∧ Aside (ino,iblock) s (s.setPage (ino,iblock) next) ∧
      (s.setPage (ino,iblock) next).value (ino,iblock) = next.bytes := by
  have aside : Aside (ino,iblock) s (s.setPage (ino,iblock) next) :=
    ⟨rfl,fun k differ => setPageOther s next differ,fun _ _ => rfl,fun _ _ _ _ => rfl,appendsSame rfl rfl⟩
  have self := setPageSelf s (ino,iblock) next
  obtain ⟨q,rfl⟩ : ∃ q : TreePath, q.index = iblock := ⟨_,TreePath.indexOfIndex iblock low⟩
  have good : (s.setPage (ino,q.index) next).Good (ino,q.index) := by
    have held : (s.setPage (ino,q.index) next).backing.held (ino,q.index) = some next.bytes := congrArg (Option.map FilePage.bytes) self
    exact (valuePut (inv.good ino inside regular q) aside.appends rfl held (.inr ⟨next,self,dirty⟩)).1
  refine ⟨⟨inv.own,fun f flying => ?_,pagesSet inv rfl rfl inside regular low,fun i member other p => ?_⟩,aside,valueHeld self⟩
  · have held := inv.held f flying
    exact ⟨held.inside,held.regular,held.cached,held.dnode,pageStays rfl held.page⟩
  · by_cases mine : (i,p.index) = (ino,q.index)
    · rw [mine]
      exact good
    · exact (asideGood aside (inv.good i member other p) member mine).1

theorem changeKeeps {page : FilePage} (next : FilePage) (inv : FileInv s) (inside : s.mount.inodes ino = true) (regular : ino ≠ metaIno)
    (prepared : Prepared s create (ino,iblock) u (some page)) (dirty : next.dirty = true) :
    FileInv (u.setPage (ino,iblock) next) ∧ page.bytes = s.value (ino,iblock) ∧
      ∀ i, s.mount.inodes i = true → i ≠ metaIno → ∀ q : TreePath, (u.setPage (ino,iblock) next).value (i,q.index) =
        if (i,q.index) = (ino,iblock) then next.bytes else s.value (i,q.index) := by
  obtain ⟨here,bytes⟩ := prepared.page page rfl
  have low := (prepared.inv.pages _ page here).2.2
  obtain ⟨invT,aside,value⟩ := putKeeps next prepared.inv (prepared.aside.inodes ▸ inside) regular low dirty
  refine ⟨invT,bytes,fun i before other q => ?_⟩
  split
  · rename_i mine
    rw [mine]
    exact value
  · rename_i mine
    have first := asideGood prepared.aside (inv.good i before other q) before mine
    have second := asideGood aside first.1 (prepared.aside.inodes ▸ before) mine
    exact second.2.trans first.2

theorem readAnswers (inv : FileInv s) (inside : s.mount.inodes ino = true) (regular : ino ≠ metaIno) (enough : natFuel ≤ fuel)
    (rounds : Nat) (q : TreePath) : ∃ t found, s.preparePage fuel rounds false (ino,q.index) = some (t,found) := by
  unfold FileRun.preparePage
  cases s.pages (ino,q.index) with
  | some page => exact ⟨s,some page,rfl⟩
  | none =>
    obtain ⟨fs,found,prepared⟩ : ∃ fs found, s.mount.fs.preparePage fuel false rounds ino q.index = some (fs,found) :=
      readPrepares inv.own.mount inside regular enough rounds q
    dsimp only
    rw [prepared]
    exact ⟨_,_,rfl⟩

theorem readFileKeeps (inv : FileInv s) (takes : fileTakes s (.read fuel rounds ino iblock))
    (ran : fileStep s (.read fuel rounds ino iblock) = some t) : FileInv t ∧ Shows (.read fuel rounds ino iblock) s t := by
  simp only [fileStep] at ran
  split at ran
  · rename_i guard
    obtain ⟨⟨u,found⟩,prepares,rfl⟩ := Option.map_eq_some_iff.mp ran
    have prepared := preparedPage inv guard.1 guard.2.1 takes (fun bad => by cases bad) prepares
    refine ⟨prepared.inv,fun i before after other q => ?_⟩
    by_cases mine : (i,q.index) = (ino,iblock)
    · rw [mine]
      exact prepared.same
    · exact (asideGood prepared.aside (inv.good i before other q) before mine).2
  · contradiction

theorem writeFileKeeps (inv : FileInv s) (takes : fileTakes s (.write fuel rounds ino pos data))
    (ran : fileStep s (.write fuel rounds ino pos data) = some t) : FileInv t ∧ Shows (.write fuel rounds ino pos data) s t := by
  simp only [fileStep] at ran
  split at ran
  · rename_i guard
    obtain ⟨inside,regular,_⟩ := guard
    obtain ⟨⟨u,found⟩,prepares,rest⟩ := Option.bind_eq_some_iff.mp ran
    have prepared := preparedPage inv inside regular takes.1 (fun _ => takes.2) prepares
    obtain ⟨page,found,same⟩ := Option.map_eq_some_iff.mp rest
    rw [found] at prepared
    obtain ⟨invT,bytes,values⟩ := changeKeeps ⟨store page.bytes (pos % pageSize) data,true⟩ inv inside regular prepared rfl
    rw [← same]
    refine ⟨invT,fun i before _ other q => (values i before other q).trans ?_⟩
    rw [bytes]
    split
    · rename_i mine
      exact (congrArg (store · _ _) (congrArg s.value mine).symm).trans (if_pos mine).symm
    · rename_i mine
      exact (if_neg mine).symm
  · contradiction

theorem mappedFileKeeps (inv : FileInv s) (ran : fileStep s (.mapped ino pos data) = some t) :
    FileInv t ∧ Shows (.mapped ino pos data) s t := by
  simp only [fileStep] at ran
  split at ran
  · obtain ⟨page,here,same⟩ := Option.map_eq_some_iff.mp ran
    obtain ⟨inside,regular,low⟩ := inv.pages _ page here
    obtain ⟨invT,aside,value⟩ := putKeeps ⟨store page.bytes (pos % pageSize) data,true⟩ inv inside regular low rfl
    rw [← same]
    refine ⟨invT,fun i before _ other q => ?_⟩
    by_cases mine : (i,q.index) = (ino,pos / pageSize)
    · rw [mine,value,← valueHeld here]
      exact (if_pos rfl).symm
    · exact (asideGood aside (inv.good i before other q) before mine).2.trans (if_neg mine).symm
  · contradiction

/- A page that is not prepared here has only zeros. -/
theorem zeroFileKeeps {offset : Nat} (inv : FileInv s) (takes : fileTakes s (.zero fuel rounds ino iblock offset))
    (ran : fileStep s (.zero fuel rounds ino iblock offset) = some t) : FileInv t ∧ Shows (.zero fuel rounds ino iblock offset) s t := by
  simp only [fileStep] at ran
  split at ran
  · rename_i guard
    obtain ⟨inside,regular,_⟩ := guard
    unfold FileRun.truncatePartialBlock at ran
    split at ran
    · rename_i whole
      cases ran
      exact ⟨inv,fun i _ _ _ q => (if_neg fun both => both.1 whole).symm⟩
    · rename_i part
      obtain ⟨⟨u,found⟩,prepares,same⟩ := Option.map_eq_some_iff.mp ran
      have prepared := preparedPage inv inside regular takes (fun bad => by cases bad) prepares
      rw [← same]
      cases found with
      | none =>
        refine ⟨prepared.inv,fun i before _ other q => ?_⟩
        by_cases mine : (i,q.index) = (ino,iblock)
        · obtain ⟨_,absent,missing⟩ := prepared.failed rfl
          rw [mine]
          refine prepared.same.trans (Eq.trans ?_ (if_pos ⟨part,rfl⟩).symm)
          have zero : s.value (ino,iblock) = zeroPage := by
            rw [valueAbsent (congrArg (Option.map FilePage.bytes) absent)]
            obtain ⟨rfl,index⟩ := Prod.mk.inj mine
            rw [← index] at missing ⊢
            rw [storedAt,blockAtMissing ((getDnodeAt ..).symm.trans missing),if_pos rfl]
          rw [zero]
          funext k
          exact (ite_self _).symm
        · exact (asideGood prepared.aside (inv.good i before other q) before mine).2.trans (if_neg fun both => mine both.2).symm
      | some page =>
        obtain ⟨invT,bytes,values⟩ := changeKeeps ⟨zeroUser page.bytes offset,true⟩ inv inside regular prepared rfl
        refine ⟨invT,fun i before _ other q => (values i before other q).trans ?_⟩
        rw [bytes]
        split
        · rename_i mine
          exact (congrArg (zeroUser · _) (congrArg s.value mine).symm).trans (if_pos ⟨part,mine⟩).symm
        · rename_i mine
          exact (if_neg fun both => mine both.2).symm
  · contradiction

theorem walkedAside (inv : FileInv s) {fs : Fs} (mount : MountInv (s.mount.setFs fs)) (out : StaysOut s.mount (s.mount.setFs fs))
    (grown : Grown {n | s.mount.inodes n = true} s.mount.fs fs) (key : PageKey) : FileInv (s.setFs fs) ∧ Aside key s (s.setFs fs) := by
  have aside : ∀ key, Aside key s (s.setFs fs) := fun key =>
    ⟨rfl,fun _ _ => rfl,fun _ _ => rfl,fun i member q _ => grown.blocks i member q,appendsSame rfl rfl⟩
  refine ⟨⟨ownWalked inv.own mount out,fun f flying => ?_,inv.pages,fun i member other q => ?_⟩,aside key⟩
  · exact heldGrownPage (inv.held f flying) rfl grown (inv.held f flying).page
  · -- seen from any other page nothing happened
    have elsewhere : (i,q.index) ≠ (i,q.index + 1) := fun same => Nat.succ_ne_self _ (Prod.mk.inj same).2.symm
    exact (asideGood (aside (i,q.index + 1)) (inv.good i member other q) member elsewhere).1

theorem submitFileKeeps (inv : FileInv s) (takes : fileTakes s (.submit fuel rounds ino iblock))
    (ran : fileStep s (.submit fuel rounds ino iblock) = some t) : FileInv t ∧ Shows (.submit fuel rounds ino iblock) s t := by
  simp only [fileStep] at ran
  split at ran
  · rename_i guard
    obtain ⟨inside,regular,_⟩ := guard
    obtain ⟨page,here,walks⟩ := Option.bind_eq_some_iff.mp ran
    obtain ⟨⟨fs,found⟩,walked,same⟩ := Option.map_eq_some_iff.mp walks
    obtain ⟨q,rfl,facts⟩ := walkIs inv.own.mount inside regular takes (fun bad => by cases bad) walked
    obtain ⟨invU,first⟩ := walkedAside inv facts.inv (walkOut inv.own.mount inside walked) facts.grown (ino,q.index)
    have mount : t.mount = (s.setFs fs).mount := by rw [← same]; rfl
    have pages : t.pages = Function.update s.pages (ino,q.index) (some { page with dirty := found.isNone }) := by rw [← same]; rfl
    have flights : t.flights = (found.map fun dnode => ⟨ino,q.index,dnode⟩).toList ++ s.flights := by rw [← same]
    have self : t.pages (ino,q.index) = some { page with dirty := found.isNone } := by rw [pages,Function.update_self]
    have aside : Aside (ino,q.index) (s.setFs fs) t := by
      refine ⟨by rw [mount],fun k differ => by rw [pages,Function.update_of_ne differ]; rfl,fun k differ => ?_,fun i _ p _ => by rw [mount],
        appendsSame (by rw [← same]; rfl) (by rw [← same]; rfl)⟩
      rw [Bool.eq_iff_iff,busyIff,busyIff,flights]
      refine ⟨fun ⟨f,member,place⟩ => ?_,fun ⟨f,member,place⟩ => ⟨f,List.mem_append_right _ member,place⟩⟩
      rcases List.mem_append.mp member with new | old
      · obtain ⟨dnode,_,rfl⟩ := Option.map_eq_some_iff.mp (Option.mem_toList.mp new)
        exact absurd (Prod.ext place.1.symm place.2.symm) differ
      · exact ⟨f,old,place⟩
    have ahead : t.Ahead (ino,q.index) := by
      cases found with
      | none => exact .inr ⟨_,self,rfl⟩
      | some dnode =>
        refine .inl (busyIff.mpr ⟨⟨ino,q.index,dnode⟩,?_,rfl,rfl⟩)
        rw [flights]
        exact List.mem_append_left _ (List.mem_singleton.mpr rfl)
    have changed : t.Good (ino,q.index) ∧ t.value (ino,q.index) = page.bytes := valuePut (invU.good ino inside regular q) aside.appends
      (pageCellSame (by rw [mount])) (congrArg (Option.map FilePage.bytes) self) ahead
    refine ⟨⟨?_,fun f flying => ?_,pagesSet inv (by rw [mount]; rfl) pages inside regular q.indexBound,fun i member other p => ?_⟩,
      fun i before after other p => ?_⟩
    · rw [← same]
      exact invU.own
    · rw [flights] at flying
      rcases List.mem_append.mp flying with new | old
      · obtain ⟨dnode,found,rfl⟩ := Option.map_eq_some_iff.mp (Option.mem_toList.mp new)
        obtain ⟨path,cached,_⟩ := facts.dnode dnode found
        exact ⟨mount ▸ inside,regular,mount ▸ cached,⟨q,rfl,mount ▸ path⟩,⟨_,self⟩⟩
      · have held := invU.held f old
        exact ⟨mount ▸ held.inside,held.regular,mount ▸ held.cached,mount ▸ held.dnode,pageStays pages (inv.held f old).page⟩
    · by_cases mine : (i,p.index) = (ino,q.index)
      · rw [mine]
        exact changed.1
      · rw [mount] at member
        exact (asideGood aside (invU.good i member other p) member mine).1
    · by_cases mine : (i,p.index) = (ino,q.index)
      · rw [mine]
        exact changed.2.trans (valueHeld here).symm
      · have one := asideGood first (inv.good i before other p) before mine
        exact (asideGood aside one.1 before mine).2.trans one.2
  · contradiction

theorem releaseFileKeeps (inv : FileInv s) (ran : fileStep s (.release ino iblock) = some t) :
    FileInv t ∧ Shows (.release ino iblock) s t := by
  simp only [fileStep] at ran
  split at ran
  · rename_i free
    obtain ⟨page,here,rest⟩ := Option.bind_eq_some_iff.mp ran
    split at rest
    · contradiction
    · rename_i clean
      obtain ⟨inside,regular,low⟩ := inv.pages _ page here
      cases rest
      have level : ¬s.Ahead (ino,iblock) := by
        rintro (busy | ⟨other,there,dirty⟩)
        · cases busy.symm.trans free
        · cases here.symm.trans there
          exact clean dirty
      have aside : Aside (ino,iblock) s { s with pages := Function.update s.pages (ino,iblock) none } :=
        ⟨rfl,fun _ differ => Function.update_of_ne differ ..,fun _ _ => rfl,fun _ _ _ _ => rfl,appendsSame rfl rfl⟩
      have gone : FileRun.pages { s with pages := Function.update s.pages (ino,iblock) none } (ino,iblock) = none :=
        Function.update_self ..
      obtain ⟨goods,shows⟩ := asideAll (.release ino iblock) inv aside (fun _ _ _ => rfl) fun q index inside regular => by
        obtain rfl : iblock = q.index := (Prod.mk.inj index).2
        exact valueDropped (inv.good ino inside regular q) level aside.appends rfl (congrArg (Option.map FilePage.bytes) gone)
      refine ⟨⟨inv.own,fun f flying => ?_,fun k other there => ?_,goods⟩,shows⟩
      · have held := inv.held f flying
        refine ⟨held.inside,held.regular,held.cached,held.dnode,?_⟩
        obtain ⟨old,there⟩ := held.page
        refine ⟨old,(Function.update_of_ne ?_ ..).trans there⟩
        intro mine
        have busy : s.busy (ino,iblock) = true := busyIff.mpr ⟨f,flying,Prod.mk.inj mine⟩
        rw [free] at busy
        contradiction
      · by_cases mine : k = (ino,iblock)
        · rw [mine] at there
          cases gone.symm.trans there
        · exact inv.pages k other ((Function.update_of_ne mine ..).symm.trans there)
  · contradiction

theorem completeFileKeeps (inv : FileInv s) (ran : fileStep s (.complete ino iblock blkaddr) = some t) :
    FileInv t ∧ Shows (.complete ino iblock blkaddr) s t ∧ t.backing.cell (ino,iblock) = some blkaddr ∧
      t.blocks blkaddr = s.value (ino,iblock) := by
  simp only [fileStep] at ran
  split at ran
  · rename_i fresh
    obtain ⟨f,flying,ends⟩ := Option.bind_eq_some_iff.mp ran
    obtain ⟨page,here,same⟩ := Option.map_eq_some_iff.mp ends
    have place := List.find?_some flying
    simp only [DataFlight.of,Bool.decide_and,Bool.and_eq_true,decide_eq_true_eq] at place
    have held := inv.held f (List.mem_of_find?_eq_some flying)
    obtain ⟨inside,regular,cached,⟨p,index,path⟩,_⟩ := held
    obtain ⟨root,number,dnode⟩ := f
    obtain ⟨rfl,rfl⟩ : root = ino ∧ number = iblock := place
    obtain rfl : p.index = number := index
    dsimp only at *
    have low := p.indexBound
    obtain ⟨known,ok⟩ := inv.own.mount.ok
    obtain ⟨okT,paths,blocks⟩ := storeKeepsTree ok inside cached path blkaddr
    obtain ⟨okT,soundT⟩ := storeSound inv.own.mount.metaIn inside cached path ok inv.own.mount.sound blkaddr
    have mount : t.mount = s.mount.setFs (s.mount.fs.storeBlock dnode p.index blkaddr) := by rw [← same]; rfl
    have pages : t.pages = Function.update s.pages (root,p.index) (some { page with dirty := false }) := by rw [← same]; rfl
    have blocksT : t.blocks = Function.update s.blocks blkaddr page.bytes := by rw [← same]
    have writtenT : t.written = Function.update s.written blkaddr true := by rw [← same]
    have flights : t.flights = s.flights.eraseP (DataFlight.of root p.index) := by rw [← same]
    have self : t.pages (root,p.index) = some { page with dirty := false } := by rw [pages,Function.update_self]
    have aside : Aside (root,p.index) s t := by
      refine ⟨by rw [mount]; rfl,fun k differ => by rw [pages,Function.update_of_ne differ],fun k differ => ?_,fun i member q differ => ?_,?_⟩
      · exact busyErased flights differ
      · rw [mount]
        refine (blocks i member q).trans (if_neg fun both => differ ?_)
        rw [both.1,both.2]
      · refine ⟨fun a there => ?_,fun a there => ?_⟩
        · change t.written a = true
          rw [writtenT,Function.update_apply]
          split
          · rfl
          · exact there
        · change t.blocks a = s.blocks a
          rw [blocksT,Function.update_of_ne]
          rintro rfl
          cases there.symm.trans fresh.2
    have cell : t.backing.cell (root,p.index) = some blkaddr := by
      rw [cellAt,mount]
      refine (congrArg ptr ((blocks root inside p).trans (if_pos ⟨rfl,rfl⟩))).trans ?_
      exact ptrSome.mpr ⟨rfl,fresh.1⟩
    have landed : t.Good (root,p.index) ∧ t.value (root,p.index) = s.value (root,p.index) := valueLanded
      (congrArg (Option.map FilePage.bytes) here) (congrArg (Option.map FilePage.bytes) self) cell
      (show t.written blkaddr = true by rw [writtenT,Function.update_self])
      (show t.blocks blkaddr = page.bytes by rw [blocksT,Function.update_self])
    obtain ⟨goods,shows⟩ := asideAll (.complete root p.index blkaddr) inv aside (fun _ _ _ => rfl) fun _ _ _ _ => landed
    refine ⟨⟨?_,fun g flying => ?_,pagesSet inv (by rw [mount]; rfl) pages inside regular low,goods⟩,shows,cell,?_⟩
    · have own : t.own = ⟨s.mount.setFs (s.mount.fs.storeBlock dnode p.index blkaddr),s.own.freed⟩ := by rw [← same]; rfl
      rw [own]
      exact ownKept inv.own (invFs inv.own.mount.metaIn ⟨⟨known,okT⟩,soundT⟩) rfl (storeOut inv.own.mount inside cached path blkaddr)
    · rw [flights] at flying
      have old := inv.held g (List.mem_of_mem_eraseP flying)
      obtain ⟨q,at_,below⟩ := old.dnode
      refine ⟨mount ▸ old.inside,old.regular,mount ▸ old.cached,⟨q,at_,?_⟩,pageStays pages old.page⟩
      rw [mount]
      exact (paths g.ino old.inside q.nodes q.nodesPlace).trans below
    · rw [blocksT,Function.update_self]
      exact (valueHeld here).symm
  · contradiction

end

/- The steps of the rest of a mount. -/
section
variable {s t : FileRun} {own : OwnRun} {event : OwnEvent} {ino root : Nat} {key : PageKey} {q : TreePath}

theorem leavesWaits {f : DataFlight} (leaves : FileRun.leaves event (f.ino,f.iblock) = true) : FileRun.waits event f = true := by
  cases event with
  | step event => cases event <;> first | exact leaves | cases leaves
  | truncate fuel root freeFrom => exact decide_eq_true (of_decide_eq_true leaves).1
  | evict fuel root nlink => exact leaves

theorem stepInodes {s t : OwnRun} {event : MountEvent} (own : OwnInv s) (ran : ownStep s (.step event) = some t) :
    (∀ ino, s.mount.inodes ino = true → t.mount.inodes ino = true) ∧
      ∀ ino, t.mount.inodes ino = true → s.mount.inodes ino = true ∨ t.mount.fs.content ino = .zero := by
  obtain ⟨keeps,stepped,_⟩ := stepMounts ran
  have same : ∀ fs : Fs, t.mount = s.mount.setFs fs → (∀ ino, s.mount.inodes ino = true → t.mount.inodes ino = true) ∧
      ∀ ino, t.mount.inodes ino = true → s.mount.inodes ino = true ∨ t.mount.fs.content ino = .zero := by
    rintro fs made
    rw [made]
    exact ⟨fun _ => id,fun _ => .inl⟩
  cases event with
  | newInode fuel rounds =>
    obtain ⟨known,ok⟩ := own.mount.ok
    obtain ⟨⟨fs,ne⟩,alloc,made⟩ := Option.map_eq_some_iff.mp stepped
    obtain ⟨u,nm,⟨now,_,okU,_⟩,taken,rfl⟩ := allocAdvances (@rawBlockLoading {n | s.mount.inodes n = true} own.mount.metaIn fuel) ok alloc
    obtain ⟨content,_⟩ := takenOk okU taken rfl
    rw [← made]
    refine ⟨fun ino member => ?_,fun ino member => ?_⟩
    · exact (Function.update_apply ..).trans (by split <;> first | rfl | exact member)
    · by_cases new : ino = ne.nid
      · right
        rw [new]
        exact (congrFun content ne.nid).trans (takenZero okU taken).2.2
      · exact .inl ((Function.update_of_ne new ..).symm.trans member)
  | walk fuel rounds root iblock create =>
    simp only [mountStep] at stepped
    split at stepped
    · obtain ⟨⟨fs,found⟩,_,made⟩ := Option.map_eq_some_iff.mp stepped
      exact same fs made.symm
    · contradiction
  | nodePage fuel nid =>
    obtain ⟨fs,_,made⟩ := Option.map_eq_some_iff.mp stepped
    exact same fs made.symm
  | metaPage fuel iblock =>
    obtain ⟨fs,_,made⟩ := Option.map_eq_some_iff.mp stepped
    exact same fs made.symm
  | storeAddr root iblock blkaddr =>
    simp only [mountStep] at stepped
    obtain ⟨dnode,_,made⟩ := Option.map_eq_some_iff.mp stepped
    exact same (s.mount.fs.storeBlock dnode iblock blkaddr) made.symm
  | updateNat nid blkaddr => exact same _ (Option.some.inj stepped).symm
  | flushNat fuel nid =>
    obtain ⟨fs,_,made⟩ := Option.map_eq_some_iff.mp stepped
    exact same fs made.symm
  | dropPage nid => exact same _ (Option.some.inj stepped).symm
  | remount disk nodes => exact same _ (Option.some.inj stepped).symm
  | truncate root freeFrom => cases keeps
  | evict root => cases keeps
  | invalidateNat fuel nid => cases keeps

theorem ownInodes {s t : OwnRun} (own : OwnInv s) (takes : ownTakes s event) (clean : ownClean s event) (ran : ownStep s event = some t) :
    (∀ ino, s.mount.inodes ino = true → (∀ fuel nlink, event ≠ .evict fuel ino nlink) → t.mount.inodes ino = true) ∧
      ∀ ino, t.mount.inodes ino = true → s.mount.inodes ino = true ∨ t.mount.fs.content ino = .zero := by
  cases event with
  | step event =>
    obtain ⟨stays,new⟩ := stepInodes own ran
    exact ⟨fun ino member _ => stays ino member,new⟩
  | truncate fuel root freeFrom =>
    simp only [ownStep] at ran
    split at ran
    · rename_i inside
      have low : freeFrom < maxBlocks := by
        by_contra high
        unfold OwnRun.truncate Fs.truncate at ran
        rw [if_neg high] at ran
        contradiction
      have at_ := TreePath.indexOfIndex freeFrom low
      have same := (truncateOwned own takes.1.1 takes.1.2 inside at_ (clean _ at_) ran).2
      rw [same]
      exact ⟨fun _ member _ => member,fun _ => .inl⟩
    · contradiction
  | evict fuel root nlink =>
    simp only [ownStep] at ran
    split at ran
    · rename_i inside
      split at ran
      · cases ran
        exact ⟨fun _ member _ => member,fun _ => .inl⟩
      · rename_i gone
        have regular : root ≠ metaIno := by
          rintro rfl
          exact gone (.inl (by decide))
        obtain ⟨u,cut,rfl⟩ := Option.map_eq_some_iff.mp ran
        have at_ : (TreePath.inode 0).index = 0 := rfl
        have clean : CutsClean s.mount.fs.content root (.inode 0) := by
          intro i low a boundary
          contradiction
        have same := (truncateOwned own takes.1 regular inside at_ clean cut).2
        refine ⟨fun ino member other => ?_,fun ino member => .inl (same ▸ fewerInodes member)⟩
        refine (Function.update_of_ne ?_ ..).trans (same ▸ member)
        rintro rfl
        exact other fuel nlink rfl
    · contradiction

theorem zeroBlocks {nodes : NodeStore} (zero : nodes ino = .zero) (q : TreePath) : blockAt nodes ino q = 0 := by
  cases whole : q.nodes with
  | nil =>
    have path : follow (child nodes) ino q.nodes = some ino := by
      rw [whole]
      rfl
    rw [blockAtFound path,zero]
    exact zeroWord q
  | cons e rest =>
    refine blockAtMissing ?_
    have edge : child nodes ino e = none := by
      unfold child
      rw [zero]
      exact zeroChild e
    rw [whole,follow,edge]
    rfl

/- Whatever the event does to the trees, the blocks and the flights stay. -/
structure TreeStep (s : FileRun) (event : OwnEvent) (t : FileRun) : Prop where
  pages : t.pages = fun key => if FileRun.leaves event key then none else s.pages key
  flights : t.flights = s.flights
  appends : Appends s.backing t.backing
  ran : ownStep s.own event = some t.own
  waits : ∀ f ∈ s.flights, FileRun.waits event f = false

theorem treeStepOf (ran : fileStep s (.tree event) = some t) : TreeStep s event t := by
  simp only [fileStep] at ran
  split at ran
  · rename_i guard
    obtain ⟨own,stepped,rfl⟩ := Option.map_eq_some_iff.mp ran
    refine ⟨rfl,rfl,⟨fun a there => ?_,fun _ _ => rfl⟩,stepped,guard.1⟩
    exact Bool.or_eq_true_iff.mpr (.inl there)
  · contradiction

theorem treeAhead (step : TreeStep s event t) (stays : FileRun.leaves event key = false) :
    t.backing.held key = s.backing.held key ∧ (s.Ahead key → t.Ahead key) := by
  have pages : t.pages key = s.pages key := by
    rw [step.pages]
    exact if_neg (Bool.eq_false_iff.mp stays)
  refine ⟨heldSame pages,?_⟩
  unfold FileRun.Ahead
  rw [busySame step.flights,pages]
  exact id

theorem treeGone (step : TreeStep s event t) (leaves : FileRun.leaves event key = true) : t.backing.held key = none := by
  have pages : t.pages key = none := by
    rw [step.pages]
    exact if_pos leaves
  exact congrArg (Option.map FilePage.bytes) pages

theorem levelClean (step : TreeStep s event t) (leaves : FileRun.leaves event key = true)
    (clean : ∀ page, s.pages key = some page → page.dirty = false) : ¬s.Ahead key := by
  rintro (busy | ⟨page,here,dirty⟩)
  · obtain ⟨f,flying,place⟩ := busyIff.mp busy
    rw [← Prod.mk.eta (p := key),← place.1,← place.2] at leaves
    cases (leavesWaits leaves).symm.trans (step.waits f flying)
  · cases dirty.symm.trans (clean page here)

theorem treeAside (inv : FileInv s) (takes : fileTakes s (.tree event)) (clean : fileClean s (.tree event)) (step : TreeStep s event t)
    (inside : s.mount.inodes ino = true) (regular : ino ≠ metaIno) (apart : ¬event.works ino) (q : TreePath) :
    t.Good (ino,q.index) ∧ t.value (ino,q.index) = s.value (ino,q.index) := by
  have ownClean : ownClean s.own event := by
    cases event <;> first | exact clean.1 | trivial
  obtain ⟨kept,_⟩ := ownStepKept inv.own takes.1 ownClean inside apart step.ran
  have cell := @pageCellSame s t ino q (kept.blocks q)
  have good := inv.good ino inside regular q
  cases leaves : FileRun.leaves event (ino,q.index) with
  | false =>
    obtain ⟨held,still⟩ := treeAhead step leaves
    exact valueKept good step.appends cell held still
  | true =>
    have clean : ∀ page, s.pages (ino,q.index) = some page → page.dirty = false := by
      cases event with
      | step event =>
        cases event <;> first | exact fun page => takes.2 _ page | cases leaves
      | truncate fuel root freeFrom => exact absurd (of_decide_eq_true leaves).1.symm apart
      | evict fuel root nlink => exact absurd (of_decide_eq_true leaves).symm apart
    exact valueDropped good (levelClean step leaves clean) step.appends cell (treeGone step leaves)

theorem treeWorks (inv : FileInv s) (takes : fileTakes s (.tree event)) (clean : fileClean s (.tree event)) (step : TreeStep s event t)
    (inside : s.mount.inodes ino = true) (still : t.mount.inodes ino = true) (regular : ino ≠ metaIno) (works : event.works ino)
    (q : TreePath) : t.Good (ino,q.index) ∧ t.value (ino,q.index) = (FileEvent.tree event).page (ino,q.index) (s.value (ino,q.index)) := by
  have good := inv.good ino inside regular q
  have ran := step.ran
  cases event with
  | step event =>
    cases event <;> first | exact absurd (works.symm.trans takes.2) regular | cases works
  | truncate fuel root freeFrom =>
    obtain rfl : root = ino := works
    simp only [ownStep] at ran
    split at ran
    · have low : freeFrom < maxBlocks := by
        by_contra high
        unfold OwnRun.truncate Fs.truncate at ran
        rw [if_neg high] at ran
        contradiction
      have at_ := TreePath.indexOfIndex freeFrom low
      have block := truncateBlocksAt inv.own takes.1.1.1 takes.1.1.2 inside at_ (clean.1 _ at_) (clean.2 _ at_) ran q
      by_cases early : q.index < freeFrom
      · have leaves : FileRun.leaves (.truncate fuel root freeFrom) (root,q.index) = false :=
          decide_eq_false fun both => absurd both.2 (Nat.not_le.mpr early)
        obtain ⟨held,ahead⟩ := treeAhead step leaves
        rw [if_pos early] at block
        obtain ⟨good,value⟩ := valueKept good step.appends (pageCellSame (s := s) (t := t) block) held ahead
        exact ⟨good,value.trans (if_neg fun both => absurd both.2 (Nat.not_le.mpr early)).symm⟩
      · have late := Nat.not_lt.mp early
        have leaves : FileRun.leaves (.truncate fuel root freeFrom) (root,q.index) = true := decide_eq_true ⟨rfl,late⟩
        have cell : t.backing.cell (root,q.index) = none := by
          rw [cellAt]
          exact congrArg ptr (block.trans (if_neg early))
        have cleared : t.Good (root,q.index) ∧ t.value (root,q.index) = zeroPage := valueCleared cell (treeGone step leaves)
        exact ⟨cleared.1,cleared.2.trans (if_pos ⟨rfl,late⟩).symm⟩
    · contradiction
  | evict fuel root nlink =>
    obtain rfl : root = ino := works
    simp only [ownStep] at ran
    split at ran
    · split at ran
      · rename_i linked
        have leaves : FileRun.leaves (.evict fuel root nlink) (root,q.index) = true := decide_eq_true rfl
        have level := levelClean step leaves fun page => takes.2 linked _ page
        have own : t.own = s.own := (Option.some.inj ran).symm
        have cell := @pageCellSame s t root q (by unfold FileRun.mount; rw [own])
        obtain ⟨good,value⟩ := valueDropped good level step.appends cell (treeGone step leaves)
        exact ⟨good,value.trans (if_pos (.inl linked)).symm⟩
      · obtain ⟨u,_,made⟩ := Option.map_eq_some_iff.mp ran
        have gone : t.mount.inodes root = false := by
          unfold FileRun.mount
          rw [← made]
          exact Function.update_self ..
        cases gone.symm.trans still
    · contradiction

theorem treeFileKeeps (inv : FileInv s) (takes : fileTakes s (.tree event)) (clean : fileClean s (.tree event))
    (ran : fileStep s (.tree event) = some t) : FileInv t ∧ Shows (.tree event) s t ∧
      ∀ ino, t.mount.inodes ino = true → s.mount.inodes ino = false → ino ≠ metaIno → ∀ q : TreePath, t.value (ino,q.index) = zeroPage := by
  have step := treeStepOf ran
  have plain : ownClean s.own event := by
    cases event <;> first | exact clean.1 | trivial
  obtain ⟨stays,new⟩ := ownInodes inv.own takes.1 plain step.ran
  have pages : ∀ key page, t.pages key = some page → FileRun.leaves event key = false ∧ s.pages key = some page := by
    intro key page here
    rw [step.pages] at here
    cases leaves : FileRun.leaves event key with
    | true => cases (if_pos leaves).symm.trans here
    | false => exact ⟨rfl,(if_neg (Bool.eq_false_iff.mp leaves)).symm.trans here⟩
  have both : ∀ ino, s.mount.inodes ino = true → t.mount.inodes ino = true → ino ≠ metaIno → ∀ q : TreePath,
      t.Good (ino,q.index) ∧ t.value (ino,q.index) = (FileEvent.tree event).page (ino,q.index) (s.value (ino,q.index)) := by
    intro ino before after regular q
    by_cases works : event.works ino
    · exact treeWorks inv takes clean step before after regular works q
    · obtain ⟨good,value⟩ := treeAside inv takes clean step before regular works q
      refine ⟨good,value.trans ?_⟩
      cases event with
      | step event => rfl
      | truncate fuel root freeFrom => exact (if_neg fun both => works both.1.symm).symm
      | evict fuel root nlink => exact (if_pos (.inr (Ne.symm works))).symm
  have born : ∀ ino, t.mount.inodes ino = true → s.mount.inodes ino = false → ∀ q : TreePath,
      t.Good (ino,q.index) ∧ t.value (ino,q.index) = zeroPage := by
    intro ino after before q
    have zero : t.mount.fs.content ino = .zero := by
      rcases new ino after with old | zero
      · cases before.symm.trans old
      · exact zero
    have cell : t.backing.cell (ino,q.index) = none := by
      rw [cellAt]
      exact congrArg ptr (zeroBlocks zero q)
    have held : t.backing.held (ino,q.index) = none := by
      cases here : t.pages (ino,q.index) with
      | none => exact congrArg (Option.map FilePage.bytes) here
      | some page => cases before.symm.trans (inv.pages _ page (pages _ page here).2).1
    exact valueCleared cell held
  refine ⟨⟨ownKeeps inv.own takes.1 step.ran plain,fun f flying => ?_,fun key page here => ?_,fun ino after regular q => ?_⟩,
    fun ino before after regular q => (both ino before after regular q).2,fun ino after before _ q => (born ino after before q).2⟩
  · rw [step.flights] at flying
    have held := inv.held f flying
    have free := step.waits f flying
    have apart : ¬event.works f.ino := by
      cases event with
      | step event =>
        cases event <;> first | exact fun works => held.regular (works.symm.trans takes.2) | exact id
      | truncate fuel root freeFrom => exact fun works => of_decide_eq_false free works.symm
      | evict fuel root nlink => exact fun works => of_decide_eq_false free works.symm
    obtain ⟨kept,cached⟩ := ownStepKept inv.own takes.1 plain held.inside apart step.ran
    obtain ⟨q,index,path⟩ := held.dnode
    obtain ⟨page,here⟩ := held.page
    refine ⟨stays f.ino held.inside ?_,held.regular,cached f free held.cached,⟨q,index,kept.paths q.nodes f.dnode q.nodesPlace path⟩,page,?_⟩
    · rintro fuel nlink rfl
      exact apart rfl
    · rw [step.pages]
      refine (if_neg fun leaves => ?_).trans here
      cases (leavesWaits leaves).symm.trans free
  · obtain ⟨leaves,old⟩ := pages key page here
    obtain ⟨inside,regular,low⟩ := inv.pages key page old
    refine ⟨stays key.1 inside ?_,regular,low⟩
    rintro fuel nlink rfl
    cases leaves.symm.trans (decide_eq_true rfl)
  · cases before : s.mount.inodes ino with
    | true => exact (both ino before after regular q).1
    | false => exact (born ino after before q).1

end
end Xcpfs
