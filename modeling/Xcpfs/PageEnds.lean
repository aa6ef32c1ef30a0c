import Xcpfs.PageWalk

/-! The walks and preparations of a mount come back. What the calls with a list of held pages come
to, those with locks and references come to as well; and in the states of a mount only the search
for the nid of a file's new node may find none. -/
namespace Xcpfs
open PointerForest PageWalk

def LockedPage.key : LockedPage → PageKey
  | .node nid => nodeKey nid
  | .metaData iblock => (metaIno,iblock)

/- Of the pages that walks lock only those of the list may be locked. -/
def OnlyHeld (held : List LockedPage) (pages : HoldTable.Table PageKey) : Prop := ∀ page, page ∉ held → (pages page.key).locked = false

/- Where a call with a list of held pages comes back, the call with the pages does the same. -/
def Follows (loads : LoadPages) (load : LoadBlock) : Prop :=
  ∀ held iblock s fs, OnlyHeld held s.pages → load held iblock s.fs = .ok fs → loads iblock s = .ok { s with fs := fs }

namespace PageWalk

section
variable {load : LoadBlock} {loads : LoadPages} {late : Late} {held inner : List LockedPage} {page : PageKey}
  {pages : HoldTable.Table PageKey} {s u v : WalkFs} {fs : Fs} {nid rounds : Nat}

theorem exceptOk {A B : Type} {x : Except Stop A} {f : A → Except Stop B} {a : A} (came : x = .ok a) : (x >>= f) = f a := by
  rw [came]
  rfl

theorem exceptError {A B : Type} {x : Except Stop A} {f : A → Except Stop B} {why : Stop} (stopped : x = .error why) :
    (x >>= f) = .error why := by
  rw [stopped]
  rfl

theorem keyInjective {a b : LockedPage} (same : a.key = b.key) : a = b := by
  cases a <;> cases b <;> simp_all [LockedPage.key,nodeKey,metaIno,nodeIno]

theorem onlyHeldMore {page : LockedPage} {other : HoldTable.Table PageKey} (free : OnlyHeld held pages)
    (same : ∀ k, k ≠ page.key → other k = pages k) : OnlyHeld (page :: held) other := by
  intro p outside
  rw [List.mem_cons,not_or] at outside
  rw [same p.key fun equal => outside.1 (keyInjective equal)]
  exact free p outside.2

theorem onlyHeldGet (free : OnlyHeld held pages) : OnlyHeld held (HoldTable.get page pages) := by
  intro p outside
  rw [HoldTable.getLocked]
  exact free p outside

theorem lockPageOk {page : LockedPage} (ran : Xcpfs.lockPage held page = .ok inner) : page ∉ held ∧ inner = page :: held := by
  unfold Xcpfs.lockPage at ran
  split at ran
  · contradiction
  · rename_i outside
    exact ⟨outside,(Except.ok.inj ran).symm⟩

theorem bioRuns (late : Late) (busy : (pages page).locked = true) (taken : u.pages = HoldTable.get page pages) :
    ∃ v flight, submitBio late page u = .ok (v,flight) ∧
      waitBio page flight v = .ok { setUptodate page u with pages := HoldTable.freed page pages } := by
  have ended := readEndIoGet busy taken
  unfold submitBio
  split
  · exact ⟨u,true,rfl,ended⟩
  · exact ⟨_,false,by rw [ended]; rfl,rfl⟩

theorem readDiskRuns {submit : PageKey → WalkFs → Except Stop (WalkFs × Bool)} {flight : Bool} (busy : (s.pages page).locked = true)
    (submitted : submit page (getPage page s) = .ok (v,flight)) (waited : waitBio page flight v = .ok u)
    (freed : u.pages = HoldTable.freed page s.pages) : readDisk submit page s = .ok { u with pages := s.pages } := by
  unfold readDisk
  simp only [bind,Except.bind,submitted,waited]
  exact holdSome (by rw [freed,HoldTable.lockFreed busy])

theorem lookupFollows (follows : Follows loads load) (free : OnlyHeld held s.pages) {ne : NatEntry}
    (ran : Locked.lookupNat load held nid s.fs = .ok (fs,ne)) : lookupNat loads nid s = .ok ({ s with fs := fs },ne) := by
  unfold Locked.lookupNat at ran
  unfold lookupNat
  cases found : s.fs.nat.nm.lookup nid with
  | some entry =>
    rw [found] at ran
    cases ran
    rfl
  | none =>
    rw [found] at ran
    obtain ⟨g,loaded,rest⟩ := exceptBind.mp ran
    refine (exceptOk (follows held _ s g free loaded)).trans ?_
    dsimp only
    cases here : g.nat.nm.lookup nid with
    | some entry =>
      rw [here] at rest
      cases rest
      rfl
    | none =>
      rw [here] at rest
      cases rest

theorem uptodateNode : uptodate (nodeKey nid) s = s.fs.cached nid := rfl

theorem nodeReadRuns (late : Late) (busy : (s.pages (nodeKey nid)).locked = true) {ne : NatEntry}
    (looked : lookupNat loads nid (getPage (nodeKey nid) s) = .ok ({ getPage (nodeKey nid) s with fs := fs },ne)) :
    readDisk (submitNodeXio loads late) (nodeKey nid) s = .ok { s with fs := { fs with
      nodes := if ne.blockAddr = 0 ∧ fs.cached nid = false then Function.update fs.nodes nid .zero else fs.nodes
      cached := Function.update fs.cached nid true } } := by
  by_cases zero : ne.blockAddr = 0
  · have released : ∀ v : WalkFs, v.pages = HoldTable.get (nodeKey nid) s.pages →
        unlockPut (nodeKey nid) v = .ok { v with pages := HoldTable.freed (nodeKey nid) s.pages } :=
      fun v taken => unlockPutRelease (by rw [taken,HoldTable.releaseGet busy])
    have submitted : submitNodeXio loads late (nodeKey nid) (getPage (nodeKey nid) s) = .ok ({ s with
        fs := { fs with
          nodes := if fs.cached nid then fs.nodes else Function.update fs.nodes nid .zero
          cached := Function.update fs.cached nid true }
        pages := HoldTable.freed (nodeKey nid) s.pages },false) := by
      refine exceptBind.mpr ⟨_,looked,(if_pos zero).trans ?_⟩
      exact exceptBind.mpr ⟨_,released _ rfl,rfl⟩
    have nodes : (if ne.blockAddr = 0 ∧ fs.cached nid = false then Function.update fs.nodes nid .zero else fs.nodes) =
        if fs.cached nid then fs.nodes else Function.update fs.nodes nid .zero := by
      cases fs.cached nid <;> simp [zero]
    rw [nodes]
    exact readDiskRuns busy submitted rfl rfl
  · obtain ⟨v,flight,submitted,waited⟩ := @bioRuns (nodeKey nid) s.pages { getPage (nodeKey nid) s with fs := fs } late busy rfl
    rw [if_neg fun both => zero both.1]
    exact readDiskRuns busy (exceptBind.mpr ⟨_,looked,(if_neg zero).trans submitted⟩) waited rfl

theorem prepareNodeFollows (follows : Follows loads load) (free : OnlyHeld (.node nid :: held) s.pages)
    (busy : (s.pages (nodeKey nid)).locked = true) (ran : Locked.getNodePage load held nid s.fs = .ok fs) :
    prepareNode loads late (nodeKey nid) s = .ok ({ s with fs := fs },.ok ()) := by
  unfold Locked.getNodePage at ran
  obtain ⟨inner,locked,rest⟩ := exceptBind.mp ran
  obtain ⟨_,rfl⟩ := lockPageOk locked
  unfold prepareNode
  rw [uptodateNode]
  split at rest
  · rename_i cached
    cases rest
    exact if_pos cached
  · rename_i missing
    obtain ⟨⟨g,ne⟩,looked,same⟩ := exceptBind.mp rest
    cases same
    have pinned : OnlyHeld (.node nid :: held) (getPage (nodeKey nid) s).pages := onlyHeldGet free
    have read := nodeReadRuns late busy (lookupFollows follows pinned looked)
    rw [if_neg missing,read]
    rfl

theorem preparePageRuns {prepare : PageKey → WalkFs → Except Stop (WalkFs × Except Errno Unit)}
    (free : (s.pages page).locked = false) (same : uptodate page s = true → fs = s.fs)
    (prepared : uptodate page s = false → prepare page { s with pages := HoldTable.held page s.pages } =
      .ok ({ s with fs := fs, pages := HoldTable.held page s.pages },.ok ())) :
    preparePage prepare page s = .ok ({ s with fs := fs, pages := HoldTable.held page s.pages },.ok ()) := by
  refine exceptBind.mpr ⟨_,lockGetPage free,?_⟩
  cases ready : uptodate page s with
  | true =>
    rw [same ready]
    exact if_pos ready
  | false =>
    have missing : ¬uptodate page s = true := by simp [ready]
    exact (if_neg missing).trans (exceptBind.mpr ⟨_,prepared ready,rfl⟩)

theorem getNodePageFollows (follows : Follows loads load) (free : OnlyHeld held s.pages)
    (ran : Locked.getNodePage load held nid s.fs = .ok fs) :
    getNodePage loads late nid s = .ok ({ s with fs := fs, pages := HoldTable.held (nodeKey nid) s.pages },.ok ()) := by
  obtain ⟨inner,locked,rest⟩ := exceptBind.mp ran
  obtain ⟨outside,_⟩ := lockPageOk locked
  refine preparePageRuns (free _ outside) (fun ready => ?_) fun _ => ?_
  · exact (Except.ok.inj ((if_pos ready).symm.trans rest)).symm
  · have inside : OnlyHeld (.node nid :: held) (HoldTable.held (nodeKey nid) s.pages) := onlyHeldMore free fun _ => HoldTable.heldOther
    exact prepareNodeFollows follows inside (by dsimp only; rw [HoldTable.heldAt]) ran

theorem allocFollows (follows : Follows loads load) (free : OnlyHeld held s.pages) {isMeta : Bool} {iblock : Nat} {ne : NatEntry}
    (ran : Locked.allocFreeNat load held isMeta rounds iblock s.fs = .ok (fs,ne)) :
    allocFreeNat loads isMeta rounds iblock s = .ok ({ s with fs := fs },ne) := by
  induction rounds generalizing iblock s with
  | zero =>
    unfold Locked.allocFreeNat at ran
    unfold allocFreeNat
    cases found : freeNatEmpty s.fs.nat.nm isMeta with
    | none =>
      rw [found] at ran
      contradiction
    | some pair =>
      rw [found] at ran
      cases ran
      rfl
  | succ rounds ih =>
    unfold Locked.allocFreeNat at ran
    unfold allocFreeNat
    cases found : freeNatEmpty s.fs.nat.nm isMeta with
    | none =>
      rw [found] at ran
      obtain ⟨g,loaded,rest⟩ := exceptBind.mp ran
      exact exceptBind.mpr ⟨_,follows held iblock s g free loaded,ih (s := { s with fs := g }) free rest⟩
    | some pair =>
      rw [found] at ran
      cases ran
      rfl

theorem newNodeFollows (follows : Follows loads load) (free : OnlyHeld held s.pages) {ino n next : Nat} {e : Edge}
    (ran : Locked.newNode load held rounds ino n e s.fs = .ok (fs,next)) :
    newNode loads rounds ino n e s = .ok ({ s with fs := fs },next) := by
  obtain ⟨⟨g,ne⟩,allocated,rest⟩ := exceptBind.mp ran
  obtain ⟨inner,locked,last⟩ := exceptBind.mp rest
  obtain ⟨outside,_⟩ := lockPageOk locked
  cases last
  obtain ⟨p,taken⟩ := HoldTable.lockThenUnlock (free _ outside)
  refine exceptBind.mpr ⟨_,allocFollows follows free allocated,exceptBind.mpr ⟨_,holdSome taken.1,?_⟩⟩
  exact exceptBind.mpr ⟨_,holdSome taken.2,rfl⟩

/- What a walk comes to, with the page of its dnode. -/
def walkEnd (s : WalkFs) (fs : Fs) : Option Nat → WalkFs × Except Errno Nat
  | some dnode => ({ s with fs := fs, pages := HoldTable.held (nodeKey dnode) s.pages },.ok dnode)
  | none => ({ s with fs := fs },.error .eio)

theorem dnodeLoopPasses {create : Bool} {ino len left i : Nat} {offset : Nat → Int} (unlocked : (s.pages (nodeKey nid)).locked = false)
    (read : getNodePage loads late nid s = .ok ({ s with fs := fs, pages := HoldTable.held (nodeKey nid) s.pages },.ok ()))
    (above : i ≠ len) : dnodeLoop loads late rounds create ino len offset (left + 1) i nid s =
      if (fs.nodes nid).cell (Fs.levelEdge offset i) ≠ 0 then
        dnodeLoop loads late rounds create ino len offset left (i + 1) ((fs.nodes nid).cell (Fs.levelEdge offset i)) { s with fs := fs }
      else if create = false then .ok ({ s with fs := fs },.error .eio)
      else newNode loads rounds ino nid (Fs.levelEdge offset i) { s with fs := fs, pages := HoldTable.get (nodeKey nid) s.pages } >>=
        fun made => putPage (nodeKey nid) made.1 >>= dnodeLoop loads late rounds create ino len offset left (i + 1) made.2 := by
  have dropped : putPage (nodeKey nid) { s with fs := fs, pages := HoldTable.get (nodeKey nid) s.pages } = .ok { s with fs := fs } :=
    holdSome HoldTable.putGet
  refine (exceptOk read).trans ((if_neg above).trans ((exceptOk (holdSome (HoldTable.unlockHeld unlocked))).trans ?_))
  dsimp only
  split
  · exact exceptOk dropped
  · split
    · exact exceptOk dropped
    · rfl

theorem dnodeLoopFollows (follows : Follows loads load) (free : OnlyHeld held s.pages) {create : Bool} {ino len left i : Nat}
    {offset : Nat → Int} {found : Option Nat}
    (ran : Locked.dnodeLoop load held create rounds ino len offset left i nid s.fs = .ok (fs,found)) :
    dnodeLoop loads late rounds create ino len offset left i nid s = .ok (walkEnd s fs found) := by
  induction left generalizing i nid s with
  | zero =>
    cases ran
    rfl
  | succ left ih =>
    obtain ⟨g,read,rest⟩ := exceptBind.mp ran
    obtain ⟨inner,locked,_⟩ := exceptBind.mp read
    obtain ⟨outside,_⟩ := lockPageOk locked
    have page : getNodePage loads late nid s = .ok ({ s with fs := g, pages := HoldTable.held (nodeKey nid) s.pages },.ok ()) :=
      getNodePageFollows follows free read
    split at rest
    · rename_i bottom
      cases rest
      exact (exceptOk page).trans (if_pos bottom)
    · rename_i above
      rw [dnodeLoopPasses (free _ outside) page above]
      dsimp only at rest
      split at rest
      · rename_i next
        exact (if_pos next).trans (ih (s := { s with fs := g }) free rest)
      · rename_i null
        refine (if_neg null).trans ?_
        split at rest
        · rename_i stay
          cases rest
          exact if_pos stay
        · rename_i make
          obtain ⟨⟨h,next⟩,made,rest⟩ := exceptBind.mp rest
          have created :=
            newNodeFollows (s := { s with fs := g, pages := HoldTable.get (nodeKey nid) s.pages }) follows (onlyHeldGet free) made
          have dropped : putPage (nodeKey nid) { s with fs := h, pages := HoldTable.get (nodeKey nid) s.pages } = .ok { s with fs := h } :=
            holdSome HoldTable.putGet
          exact (if_neg make).trans ((exceptOk created).trans ((exceptOk dropped).trans (ih (s := { s with fs := h }) free rest)))

theorem getDnodePageFollows (follows : Follows loads load) (free : OnlyHeld held s.pages) {create : Bool} {ino iblock : Nat}
    {found : Option Nat} (ran : Locked.getDnodePage load held create rounds ino iblock s.fs = .ok (fs,found)) :
    getDnodePage loads late rounds create ino iblock s = .ok (walkEnd s fs found) := by
  obtain ⟨path,decoded⟩ : ∃ path, path = getPath iblock := ⟨_,rfl⟩
  unfold Locked.getDnodePage at ran
  unfold getDnodePage
  rw [← decoded] at ran ⊢
  split at ran
  · exact dnodeLoopFollows follows free ran
  · contradiction

/- What a preparation comes to. -/
def prepared (page : PageKey) (s : WalkFs) (fs : Fs) : Option Nat → WalkFs × Except Errno Unit
  | some _ => (setUptodate page { s with fs := fs },.ok ())
  | none => ({ s with fs := fs },.error .eio)

theorem dataReadRuns (late : Late) (keeps : LoadKeeps loads) (follows : Follows loads load) (free : OnlyHeld held s.pages)
    (busy : (s.pages page).locked = true) {d : Nat}
    (ran : Locked.getDnodePage load held false rounds page.1 page.2 s.fs = .ok (fs,some d)) :
    readDisk (submitDataXio loads late rounds) page s = .ok (setUptodate page { s with fs := fs }) := by
  have walk : getDnodePage loads late rounds false page.1 page.2 (getPage page s) = .ok (walkEnd (getPage page s) fs (some d)) :=
    getDnodePageFollows (s := getPage page s) follows (onlyHeldGet free) ran
  have dropped : unlockPut (nodeKey d) (walkEnd (getPage page s) fs (some d)).1 = .ok { getPage page s with fs := fs } :=
    unlockPutHeld (getDnodePageExit keeps walk).1 rfl
  obtain ⟨v,flight,submitted,waited⟩ := @bioRuns page s.pages { getPage page s with fs := fs } late busy rfl
  have handed : submitDataXio loads late rounds page (getPage page s) = .ok (v,flight) := by
    unfold submitDataXio
    exact exceptBind.mpr ⟨_,walk,exceptBind.mpr ⟨_,dropped,submitted⟩⟩
  rw [readDiskRuns busy handed waited rfl]
  refine congrArg Except.ok ?_
  unfold setUptodate getPage
  split
  · rfl
  · split
    · rfl
    · rfl

theorem doPreparePageFollows (keeps : LoadKeeps loads) (follows : Follows loads load) (free : OnlyHeld held s.pages) {create : Bool}
    {blkaddr : Option Nat} (busy : (s.pages page).locked = true) (file : page.1 ≠ nodeIno) (missing : uptodate page s = false)
    (ran : Locked.preparePage load held create rounds page.1 page.2 s.fs = .ok (fs,blkaddr)) :
    doPreparePage loads late rounds create page s = .ok (prepared page s fs blkaddr) := by
  obtain ⟨⟨g,found⟩,first,rest⟩ := exceptBind.mp ran
  have stale : ¬uptodate page s = true := by simp [missing]
  have walk : getDnodePage loads late rounds create page.1 page.2 s = .ok (walkEnd s g found) := getDnodePageFollows follows free first
  refine (if_neg file).trans ((if_neg stale).trans (exceptBind.mpr ⟨_,walk,?_⟩))
  cases found with
  | none =>
    cases rest
    rfl
  | some d =>
    have dropped : unlockPut (nodeKey d) { s with fs := g, pages := HoldTable.held (nodeKey d) s.pages } = .ok { s with fs := g } :=
      unlockPutHeld (getDnodePageExit keeps walk).1 rfl
    refine exceptBind.mpr ⟨_,dropped,?_⟩
    dsimp only at rest ⊢
    split at rest
    · rename_i hole
      cases rest
      exact if_pos (decide_eq_true hole)
    · rename_i stored
      obtain ⟨⟨h,again⟩,second,rest⟩ := exceptBind.mp rest
      cases again with
      | none => cases rest
      | some e =>
        cases rest
        have need : ¬decide ((g.nodes d).dataAddr page.2 = 0) = true := by simp [stored]
        have read := dataReadRuns (s := { s with fs := g }) late keeps follows free busy second
        exact (if_neg need).trans (exceptBind.mpr ⟨_,read,rfl⟩)

theorem rawBlockFollows (late : Late) (rounds depth : Nat) :
    Follows (readRawNatBlock late rounds depth) (Locked.readRawNatBlock rounds depth) := by
  induction depth with
  | zero =>
    intro held iblock s fs free ran
    contradiction
  | succ depth ih =>
    intro held iblock s fs free ran
    unfold Locked.readRawNatBlock at ran
    obtain ⟨inner,locked,rest⟩ := exceptBind.mp ran
    obtain ⟨outside,rfl⟩ := lockPageOk locked
    have unlocked : (s.pages (metaIno,iblock)).locked = false := free _ outside
    have inside : OnlyHeld (.metaData iblock :: held) (HoldTable.held (metaIno,iblock) s.pages) :=
      onlyHeldMore free fun _ => HoldTable.heldOther
    obtain ⟨g,nm,inserted,same,page⟩ : ∃ g nm, nm = insertBlock g.nat.nm (g.nat.file iblock) iblock ∧
        fs = { g with nat := { g.nat with nm := nm } } ∧
        preparePage (doPreparePage (readRawNatBlock late rounds depth) late rounds true) (metaIno,iblock) s =
          .ok ({ s with fs := g, pages := HoldTable.held (metaIno,iblock) s.pages },.ok ()) := by
      dsimp only at rest
      split at rest
      · rename_i ready
        refine ⟨s.fs,_,rfl,(Except.ok.inj rest).symm,preparePageRuns unlocked (fun _ => rfl) fun stale => ?_⟩
        exact absurd ready (by rw [show s.fs.metaPages iblock = false from stale]; simp)
      · rename_i stale
        obtain ⟨⟨h,blkaddr⟩,prepares,rest⟩ := exceptBind.mp rest
        cases blkaddr with
        | none => cases rest
        | some blkaddr =>
          refine ⟨_,_,rfl,(Except.ok.inj rest).symm,preparePageRuns unlocked (fun ready => absurd ready stale) fun missing => ?_⟩
          exact doPreparePageFollows (s := { s with pages := HoldTable.held (metaIno,iblock) s.pages }) (rawBlockKeeps late rounds depth) ih
            inside (by dsimp only; rw [HoldTable.heldAt]) (show metaIno ≠ nodeIno by decide) missing prepares
    rw [same]
    unfold readRawNatBlock
    refine exceptBind.mpr ⟨_,page,?_⟩
    dsimp only
    rw [← inserted]
    exact unlockPutHeld unlocked rfl

end
end PageWalk
section
variable {inodes : Set Nat} {known : Nat → Bool} {s t : Fs} {n ino rounds fuel searches : Nat} {q : TreePath} (late : Late)

/- With no other page held, the search reads all of its blocks and finds no free nid. -/
def RunsOut {A : Type} (s : Fs) (call : WalkFs → Except Stop A) : Prop :=
  ∀ w : WalkFs, w.fs = s → OnlyHeld [] w.pages → call w = .error .rounds

theorem fileAllocEnds (metaIn : metaIno ∈ inodes) (enough : defAddrsPerInode ≤ rounds) (fuelled : defAddrsPerInode ≤ fuel)
    (depth : Nat) (isMeta : Bool) {iblock : Nat} (high : regNatStart ≤ iblock) (range : iblock + searches ≤ natBlocks)
    (ok : FsOk inodes known s) (sound : MetaSound inodes s) :
    RunsOut s (PageWalk.allocFreeNat (PageWalk.readRawNatBlock late rounds (depth + 2)) isMeta searches iblock) ∨
      ∃ t ne, Ends (Locked.allocFreeNat (Locked.readRawNatBlock rounds (depth + 2)) [] isMeta searches iblock s)
        (Fs.allocFreeNat (Fs.readRawNatBlock (fuel + 1)) isMeta searches iblock s) t ne := by
  induction searches generalizing iblock s known with
  | zero =>
    unfold RunsOut Ends PageWalk.allocFreeNat Locked.allocFreeNat Fs.allocFreeNat
    cases free : freeNatEmpty s.nat.nm isMeta with
    | none =>
      refine .inl fun w same _ => ?_
      rw [same,free]
    | some found => exact .inr ⟨_,_,rfl,rfl⟩
  | succ searches ih =>
    unfold RunsOut Ends PageWalk.allocFreeNat Locked.allocFreeNat Fs.allocFreeNat
    cases free : freeNatEmpty s.nat.nm isMeta with
    | none =>
      have inside : iblock < natBlocks := by omega
      have unlocked : Unlocked [] iblock := ⟨by simp,by simp,fun _ => ⟨by simp,by simp⟩⟩
      obtain ⟨u,ends⟩ := @rawBlockEnds inodes known s [] metaIn iblock inside unlocked rounds fuel enough fuelled depth ok sound
      obtain ⟨now,_,okU,_⟩ := rawBlockLoading metaIn (fuel + 1) known iblock s u ok ends.plain
      dsimp only
      rw [ends.locked,ends.plain]
      rcases ih (show regNatStart ≤ iblock + 1 by omega) (by omega) okU (ends.sound (.inr ⟨high,inside⟩)) with stopped | found
      · refine .inl fun w same clear => ?_
        have loaded := PageWalk.rawBlockFollows late rounds (depth + 2) [] iblock w u clear (same ▸ ends.locked)
        rw [same,free]
        exact (exceptOk loaded).trans (stopped _ rfl clear)
      · obtain ⟨t,ne,locked,bare⟩ := found
        exact .inr ⟨t,ne,(exceptOk rfl).trans locked,bare⟩
    | some found => exact .inr ⟨_,_,rfl,rfl⟩

theorem fileNodeEnds (metaIn : metaIno ∈ inodes) (enough : defAddrsPerInode ≤ rounds) (fuelled : defAddrsPerInode ≤ fuel)
    (depth : Nat) (other : ino ≠ metaIno) (range : regNatStart + searches ≤ natBlocks) {e : Edge} (ok : FsOk inodes known s)
    (sound : MetaSound inodes s) :
    RunsOut s (PageWalk.newNode (PageWalk.readRawNatBlock late rounds (depth + 2)) searches ino n e) ∨
      ∃ t m, Ends (Locked.newNode (Locked.readRawNatBlock rounds (depth + 2)) [] searches ino n e s)
        (Fs.newNode (Fs.readRawNatBlock (fuel + 1)) searches ino n e s) t m := by
  have regular : decide (ino = metaIno) = false := decide_eq_false other
  unfold RunsOut Ends PageWalk.newNode Locked.newNode Fs.newNode
  simp only [regular,Bool.false_eq_true,if_false]
  rcases fileAllocEnds late metaIn enough fuelled depth false le_rfl range ok sound with stopped | ⟨t,ne,locked,bare⟩
  · exact .inl fun w same clear => exceptError (stopped w same clear)
  · simp only [bind,Except.bind,locked,bare,lockFree List.not_mem_nil,Option.map_some]
    exact .inr ⟨_,_,rfl,rfl⟩

theorem fileWalkEnds (metaIn : metaIno ∈ inodes) (enough : defAddrsPerInode ≤ rounds) (fuelled : defAddrsPerInode ≤ fuel)
    (depth : Nat) (inside : ino ∈ inodes) (other : ino ≠ metaIno) {create : Bool}
    (range : create = true → regNatStart + searches ≤ natBlocks) {left i : Nat} (ok : FsOk inodes known s)
    (sound : MetaSound inodes s) (level : i ≤ q.depth) (deep : q.depth < i + left)
    (here : follow (child s.content) ino (q.nodes.take i) = some n) :
    create = true ∧ RunsOut s (PageWalk.dnodeLoop (PageWalk.readRawNatBlock late rounds (depth + 2)) late searches create ino q.depth
        q.offsets left i n) ∨
      ∃ t found, Ends (Locked.dnodeLoop (Locked.readRawNatBlock rounds (depth + 2)) [] create searches ino q.depth q.offsets left i n s)
        (Fs.dnodeLoop (Fs.readRawNatBlock (fuel + 1)) create searches ino q.depth q.offsets left i n s) t found := by
  induction left generalizing i n s known with
  | zero => omega
  | succ left ih =>
    have reached : Reached nodeShape inodes (child s.content) n := ⟨ino,inside,_,levelPlace q i,here⟩
    obtain ⟨u,kept,cached,locked,bare⟩ := nodeEnds metaIn enough fuelled depth ok sound reached
    obtain ⟨⟨now,_,okU,grown⟩,_⟩ := getNodePageAdvances (rawBlockLoading metaIn _) ok (ok.reached n reached) bare
    have hereU := grown.paths ino inside _ n (levelPlace q i) here
    unfold Ends Locked.dnodeLoop Fs.dnodeLoop
    simp only [bind,Except.bind,locked,bare,Option.bind_some]
    by_cases bottom : i = q.depth
    · simp only [if_pos bottom]
      exact .inr ⟨u,_,rfl,rfl⟩
    · have below : i < q.depth := by omega
      have page : ∀ w : WalkFs, w.fs = s → OnlyHeld [] w.pages → PageWalk.getNodePage (PageWalk.readRawNatBlock late rounds (depth + 2))
          late n w = .ok ({ w with fs := u, pages := HoldTable.held (nodeKey n) w.pages },.ok ()) :=
        fun w same clear => getNodePageFollows (rawBlockFollows late rounds (depth + 2)) clear (same ▸ locked)
      have unlocked : ∀ w : WalkFs, OnlyHeld [] w.pages → (w.pages (nodeKey n)).locked = false :=
        fun w clear => clear (.node n) List.not_mem_nil
      simp only [if_neg bottom]
      by_cases null : (u.nodes n).cell (Fs.levelEdge q.offsets i) = 0
      · have empty := not_not.mpr null
        simp only [if_neg empty]
        cases create with
        | false => exact .inr ⟨u,none,rfl,rfl⟩
        | true =>
          have missing : ¬true = false := by simp
          rcases fileNodeEnds (n := n) (e := Fs.levelEdge q.offsets i) late metaIn enough fuelled depth other (range rfl) okU kept.sound
            with stopped | ⟨v,m,lockedNew,bareNew⟩
          · refine .inl ⟨rfl,fun w same clear => (dnodeLoopPasses (unlocked w clear) (page w same clear) bottom).trans ?_⟩
            exact (if_neg empty).trans ((if_neg missing).trans (exceptError (stopped _ rfl (onlyHeldGet clear))))
          · obtain ⟨⟨last,okV⟩,soundV,step⟩ := fileNodeSound metaIn (Nat.succ_le_succ fuelled) inside other (range rfl) below okU
              kept.sound hereU cached null bareNew
            simp only [if_neg missing,lockedNew,bareNew,Option.bind_some]
            rcases ih okV soundV (by omega) (by omega) step with stopped | ends
            · refine .inl ⟨trivial,fun w same clear => (dnodeLoopPasses (unlocked w clear) (page w same clear) bottom).trans ?_⟩
              have created := newNodeFollows (s := { w with fs := u, pages := HoldTable.get (nodeKey n) w.pages })
                (rawBlockFollows late rounds (depth + 2)) (onlyHeldGet clear) lockedNew
              have dropped : putPage (nodeKey n) { w with fs := v, pages := HoldTable.get (nodeKey n) w.pages } = .ok { w with fs := v } :=
                holdSome HoldTable.putGet
              exact (if_neg empty).trans ((if_neg missing).trans ((exceptOk created).trans ((exceptOk dropped).trans
                (stopped.2 _ rfl clear))))
            · exact .inr ends
      · simp only [if_pos null]
        rcases ih okU kept.sound (by omega) (by omega) ((levelStep below hereU cached).trans (ptrSome.mpr ⟨rfl,null⟩))
          with stopped | ends
        · refine .inl ⟨stopped.1,fun w same clear => (dnodeLoopPasses (unlocked w clear) (page w same clear) bottom).trans ?_⟩
          exact (if_pos null).trans (stopped.2 _ rfl clear)
        · exact .inr ends

theorem filePrepareEnds (metaIn : metaIno ∈ inodes) (enough : defAddrsPerInode ≤ rounds) (depth : Nat) (inside : ino ∈ inodes)
    (other : ino ≠ metaIno) {create : Bool} (range : create = true → regNatStart + searches ≤ natBlocks)
    (ok : FsOk inodes known s) (sound : MetaSound inodes s) :
    create = true ∧ RunsOut s (PageWalk.getDnodePage (PageWalk.readRawNatBlock late rounds (depth + 2)) late searches create ino q.index) ∨
      ∃ r, Locked.preparePage (Locked.readRawNatBlock rounds (depth + 2)) [] create searches ino q.index s = .ok r := by
  have walks := fun create u => (@getPathAt u [] (Locked.readRawNatBlock rounds (depth + 2)) (Fs.readRawNatBlock natFuel) q create
    searches ino).1
  have loading := @rawBlockLoading inodes metaIn natFuel
  rcases @fileWalkEnds inodes known s ino ino rounds defAddrsPerInode searches q late metaIn enough le_rfl depth inside other create
    range 4 0 ok sound (Nat.zero_le _) (depthFour q) rfl with ⟨made,stopped⟩ | ⟨t,found,locked,bare⟩
  · refine .inl ⟨made,fun w same clear => ?_⟩
    obtain ⟨path,decoded⟩ : ∃ path, path = getPath q.index := ⟨_,rfl⟩
    unfold PageWalk.getDnodePage
    rw [← decoded,decoded.trans q.getPathIndex]
    exact stopped w same clear
  · obtain ⟨⟨now,_,okT,_⟩,facts,_⟩ := dnodeLoopAdvances loading inside ok (Nat.zero_le _) (depthFour q) rfl bare
    have soundT := fileWalkSound metaIn le_rfl inside other range ok sound (Nat.zero_le _) (depthFour q) rfl bare
    have first := (walks create s).trans locked
    cases found with
    | none =>
      refine .inr ⟨(t,none),?_⟩
      unfold Locked.preparePage
      simp only [bind,Except.bind,first]
    | some d =>
      rcases @fileWalkEnds inodes now t ino ino rounds defAddrsPerInode searches q late metaIn enough le_rfl depth inside other false
        (by simp) 4 0 okT soundT (Nat.zero_le _) (depthFour q) rfl with ⟨made,_⟩ | ⟨u,again,lockedAgain,bareAgain⟩
      · cases made
      · obtain ⟨⟨_,_,_,grown⟩,_,missing⟩ := dnodeLoopAdvances loading inside okT (Nat.zero_le _) (depthFour q) rfl bareAgain
        have second := (walks false t).trans lockedAgain
        refine .inr ?_
        unfold Locked.preparePage
        simp only [bind,Except.bind,first,second]
        split
        · exact ⟨_,rfl⟩
        · cases again with
          | none =>
            have there := grown.paths ino inside q.nodes d q.nodesPlace (facts d rfl).1
            cases (missing rfl).2.symm.trans there
          | some e => exact ⟨_,rfl⟩

theorem metaPrepareEnds (metaIn : metaIno ∈ inodes) (enough : defAddrsPerInode ≤ rounds) (depth : Nat) {create : Bool}
    (bound : q.index < natBlocks) (ok : FsOk inodes known s) (sound : MetaSound inodes s) :
    ∃ r, Locked.preparePage (Locked.readRawNatBlock rounds (depth + 2)) [.metaData q.index] create rounds metaIno q.index s = .ok r := by
  by_cases low : q.index < defAddrsPerInode
  · obtain ⟨ne,found⟩ := metaLookup sound
    obtain ⟨t,_,_,_,_,prepares⟩ := directWalk low found
    obtain ⟨blkaddr,prepared⟩ := prepares (Locked.readRawNatBlock rounds (depth + 2)) [.metaData q.index] create rounds (by simp)
    exact ⟨_,prepared⟩
  · have clear : Clear [.metaData q.index] := by
      refine ⟨fun n _ => by simp,fun b direct member => low ?_⟩
      rw [← LockedPage.metaData.inj (List.mem_singleton.mp member)]
      exact direct
    obtain ⟨t,found,_,_,some_,none_⟩ := @prepareEnds inodes known s _ _ _ (directReads metaIn rounds (depth + 1) defAddrsPerInode)
      metaIn clear rounds defAddrsPerInode enough le_rfl create q bound ok sound
    cases found with
    | none => exact ⟨_,(none_ rfl).2⟩
    | some d =>
      obtain ⟨_,blkaddr,prepared⟩ := some_ d rfl
      exact ⟨_,prepared⟩

end
/- The caller has at most its own page locked. -/
def Alone (page : PageKey) (pages : HoldTable.Table PageKey) : Prop := ∀ other, other ≠ page → (pages other).locked = false

def ComesBack {A : Type} (call : Except Stop A) : Prop := ∃ a, call = .ok a

section
variable {inodes : Nat → Bool} {s : WalkFs} {ino n rounds depth : Nat} {q : TreePath} {create : Bool} {page : PageKey}

theorem inodeNamed (inv : MountInv ⟨s.fs,inodes⟩) (inside : inodes ino = true) : ino ≠ nodeIno := by
  have reached : Reached nodeShape {n | inodes n = true} (child s.fs.content) ino := ⟨ino,inside,[],trivial,rfl⟩
  rcases inv.sound.placed ino reached with rfl | allotted
  · decide
  · rintro rfl
    exact absurd allotted.1 (by decide)

theorem bothReturn (late : Late) {held : List LockedPage} {r : Fs × Option Nat} (file : ino ≠ nodeIno)
    (free : OnlyHeld held s.pages)
    (ran : Locked.preparePage (Locked.readRawNatBlock rounds depth) held create rounds ino q.index s.fs = .ok r) :
    ComesBack (getDnodePage (PageWalk.readRawNatBlock late rounds depth) late rounds create ino q.index s) ∧
      ((s.pages (ino,q.index)).locked = true →
        ComesBack (PageWalk.doPreparePage (PageWalk.readRawNatBlock late rounds depth) late rounds create (ino,q.index) s)) := by
  have follows := rawBlockFollows late rounds depth
  obtain ⟨⟨g,found⟩,first,_⟩ := exceptBind.mp ran
  refine ⟨⟨_,getDnodePageFollows follows free first⟩,fun busy => ?_⟩
  cases ready : uptodate (ino,q.index) s with
  | true => exact ⟨_,(if_neg file).trans (if_pos ready)⟩
  | false =>
    obtain ⟨page,key⟩ : ∃ page : PageKey, page = (ino,q.index) := ⟨_,rfl⟩
    rw [← key] at busy ready ⊢
    have at_ : Locked.preparePage (Locked.readRawNatBlock rounds depth) held create rounds page.1 page.2 s.fs = .ok r := by
      rw [key]
      exact ran
    exact ⟨_,doPreparePageFollows (rawBlockKeeps late rounds depth) follows free busy (by rw [key]; exact file) ready at_⟩

end

/-- On every exit of a walk only the dnode's page is held, and a preparation leaves the page to its
caller as it was. In the states of a mount both come back; where a new node of a file needs a nid,
unless all blocks of them were read and none is free. -/
theorem treeWalkReleases (late : Late) (rounds depth : Nat) (s : WalkFs) :
    (∀ create ino iblock t found,
      getDnodePage (PageWalk.readRawNatBlock late rounds depth) late rounds create ino iblock s = .ok (t,found) → WalkExit s t found) ∧
    (∀ create page t ret, (s.pages page).locked = true →
      PageWalk.doPreparePage (PageWalk.readRawNatBlock late rounds depth) late rounds create page s = .ok (t,ret) →
        t.pages = s.pages) ∧
    ∀ inodes, MountInv ⟨s.fs,inodes⟩ → 2 ≤ depth → defAddrsPerInode ≤ rounds → regNatStart + rounds ≤ natBlocks →
      (∀ n, Reached nodeShape {n | inodes n = true} (child s.fs.content) n → Alone (nodeKey n) s.pages →
        (s.pages (nodeKey n)).locked = true → ∀ create,
          ComesBack (PageWalk.doPreparePage (PageWalk.readRawNatBlock late rounds depth) late rounds create (nodeKey n) s)) ∧
      ∀ create ino (q : TreePath), inodes ino = true → (ino = metaIno → q.index < natBlocks) → Alone (ino,q.index) s.pages →
        ComesBack (getDnodePage (PageWalk.readRawNatBlock late rounds depth) late rounds create ino q.index s) ∧
            ((s.pages (ino,q.index)).locked = true →
              ComesBack (PageWalk.doPreparePage (PageWalk.readRawNatBlock late rounds depth) late rounds create (ino,q.index) s)) ∨
          create = true ∧ ino ≠ metaIno ∧
            getDnodePage (PageWalk.readRawNatBlock late rounds depth) late rounds create ino q.index s = .error .rounds := by
  refine ⟨fun create ino iblock t found => getDnodePageExit (rawBlockKeeps late rounds depth),
    fun create page t ret => doPreparePageKeeps (rawBlockKeeps late rounds depth),fun inodes inv deep enough range => ⟨?_,?_⟩⟩
  · intro n reached alone busy create
    obtain ⟨known,ok⟩ := inv.ok
    obtain ⟨depth,rfl⟩ := Nat.exists_eq_add_of_le' deep
    obtain ⟨t,_,_,locked,_⟩ := nodeEnds inv.metaIn enough le_rfl depth ok inv.sound reached
    have free : OnlyHeld [.node n] s.pages := fun page outside => alone page.key fun same => outside (by
      rw [keyInjective (b := .node n) same]
      exact List.mem_cons_self)
    exact ⟨_,prepareNodeFollows (rawBlockFollows late rounds (depth + 2)) free busy locked⟩
  · intro create ino q inside bound alone
    obtain ⟨known,ok⟩ := inv.ok
    obtain ⟨depth,rfl⟩ := Nat.exists_eq_add_of_le' deep
    have file := inodeNamed inv inside
    by_cases own : ino = metaIno
    · subst own
      have free : OnlyHeld [.metaData q.index] s.pages := fun page outside => alone page.key fun same => outside (by
        rw [keyInjective (b := .metaData q.index) same]
        exact List.mem_cons_self)
      obtain ⟨r,ran⟩ := metaPrepareEnds inv.metaIn enough depth (bound rfl) ok inv.sound
      exact .inl (bothReturn late file free ran)
    · have free : OnlyHeld [] s.pages := fun page _ => alone page.key fun same => by
        cases page with
        | node n => exact file (Prod.mk.inj same).1.symm
        | metaData b => exact own (Prod.mk.inj same).1.symm
      rcases filePrepareEnds late inv.metaIn enough depth inside own (fun _ => range) ok inv.sound with ⟨made,stopped⟩ | ⟨r,ran⟩
      · exact .inr ⟨made,own,stopped s rfl free⟩
      · exact .inl (bothReturn late file free ran)

/- A reader of a file's block has its page locked, and nothing else is. -/
def sparseWalk (iblock : Nat) : WalkFs :=
  ⟨sparseMount.fs,fun _ => false,fun page => if page = (2730454,iblock) then ⟨true,1⟩ else ⟨false,0⟩⟩

/-- The walk for its first block. -/
theorem treeWalkReleasesSparse : ∃ q : TreePath, q.index = 0 ∧ ∃ t found,
    getDnodePage (PageWalk.readRawNatBlock (fun _ _ => true) defAddrsPerInode 2) (fun _ _ => true) defAddrsPerInode false 2730454 q.index
      (sparseWalk q.index) = .ok (t,found) ∧ WalkExit (sparseWalk q.index) t found := by
  obtain ⟨q,first⟩ : ∃ q : TreePath, q.index = 0 := ⟨_,TreePath.indexOfIndex 0 (by decide)⟩
  obtain ⟨exits,_,returns⟩ := treeWalkReleases (fun _ _ => true) defAddrsPerInode 2 (sparseWalk q.index)
  have alone : Alone (2730454,q.index) (sparseWalk q.index).pages := fun other apart =>
    congrArg HoldTable.Hold.locked (if_neg apart)
  rcases (returns sparseMount.inodes sparseInv le_rfl le_rfl (by decide)).2 false 2730454 q rfl (fun bad => absurd bad (by decide)) alone
    with ⟨⟨⟨t,found⟩,walk⟩,_⟩ | ⟨bad,_⟩
  · exact ⟨q,first,t,found,walk,exits _ _ _ t found walk⟩
  · cases bad

end Xcpfs
