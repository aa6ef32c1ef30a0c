import Xcpfs.HoleRead
import Xcpfs.Lib.HoldTable

/-! Locks and references of the pages on the way to a dnode. A page is unlocked by whoever read
it, by a walk that passes it, or by the completion of its bio; the tree may be any, and what a
block index selects beyond an array is a word as any other. -/
namespace Xcpfs
open HoldTable (Table)

/- `data` are the pages of files that are uptodate; those of the node inode and of the meta inode
are in `fs`. -/
structure WalkFs where
  fs : Fs
  data : PageKey → Bool
  pages : Table PageKey

/- Whether a bio is still under way when its submitter comes to wait for the page. -/
abbrev Late := PageKey → WalkFs → Bool

/- `read_raw_nat_block` and the entry of its block into the cache. -/
abbrev LoadPages := Nat → WalkFs → Except Stop WalkFs

/- A call that leaves with `none` waits for ever, or gives back what is not held. -/
def WalkFs.hold (s : WalkFs) (why : Stop) (pages : Option (Table PageKey)) : Except Stop WalkFs :=
  match pages with
  | some pages => .ok { s with pages := pages }
  | none => .error why

namespace PageWalk

def lockPage (page : PageKey) (s : WalkFs) : Except Stop WalkFs := s.hold .deadlock (HoldTable.lock page s.pages)

def unlockPage (page : PageKey) (s : WalkFs) : Except Stop WalkFs := s.hold .fault (HoldTable.unlock page s.pages)

def putPage (page : PageKey) (s : WalkFs) : Except Stop WalkFs := s.hold .fault (HoldTable.put page s.pages)

def getPage (page : PageKey) (s : WalkFs) : WalkFs := { s with pages := HoldTable.get page s.pages }

def uptodate (page : PageKey) (s : WalkFs) : Bool :=
  if page.1 = nodeIno then s.fs.cached page.2 else if page.1 = metaIno then s.fs.metaPages page.2 else s.data page

def setUptodate (page : PageKey) (s : WalkFs) : WalkFs :=
  if page.1 = nodeIno then { s with fs := { s.fs with cached := Function.update s.fs.cached page.2 true } }
  else if page.1 = metaIno then { s with fs := { s.fs with metaPages := Function.update s.fs.metaPages page.2 true } }
  else { s with data := Function.update s.data page true }

def unlockPut (page : PageKey) (s : WalkFs) : Except Stop WalkFs := do putPage page (← unlockPage page s)

/-- A failed read ends as any other. -/
def xcpfsReadEndIo (page : PageKey) (s : WalkFs) : Except Stop WalkFs := unlockPut page (setUptodate page s)

def submitBio (late : Late) (page : PageKey) (s : WalkFs) : Except Stop (WalkFs × Bool) :=
  if late page s then .ok (s,true) else do .ok (← xcpfsReadEndIo page s,false)

def waitBio (page : PageKey) (flight : Bool) (s : WalkFs) : Except Stop WalkFs :=
  if flight then xcpfsReadEndIo page s else .ok s

/- From `read_disk`: `submit` takes over the lock and a reference of the page, and tells whether
its bio is under way; `lock_page` waits for that. -/
def readDisk (submit : PageKey → WalkFs → Except Stop (WalkFs × Bool)) (page : PageKey) (s : WalkFs) : Except Stop WalkFs := do
  let (s,flight) ← submit page (getPage page s)
  lockPage page (← waitBio page flight s)

/-- `__prepare_page` with its `do_prepare_page`. -/
def preparePage (prepare : PageKey → WalkFs → Except Stop (WalkFs × Except Errno Unit)) (page : PageKey) (s : WalkFs) :
    Except Stop (WalkFs × Except Errno Unit) := do
  let s ← lockPage page (getPage page s)
  if uptodate page s then .ok (s,.ok ())
  else
    let (s,ret) ← prepare page s
    match ret with
    | .ok () => .ok (s,.ok ())
    | .error e => .ok (← unlockPut page s,.error e)

section
variable (load : LoadPages) (late : Late) (rounds : Nat)

def lookupNat (nid : Nat) (s : WalkFs) : Except Stop (WalkFs × NatEntry) :=
  match s.fs.nat.nm.lookup nid with
  | some ne => .ok (s,ne)
  | none => do
    let s ← load (nid / natEntryPerBlock) s
    match s.fs.nat.nm.lookup nid with
    | some ne => .ok (s,ne)
    | none => .error .fault

/- A page of zeros comes back without a bio. -/
def submitNodeXio (page : PageKey) (s : WalkFs) : Except Stop (WalkFs × Bool) := do
  let (s,ne) ← lookupNat load page.2 s
  if ne.blockAddr = 0 then
    let nodes := if s.fs.cached page.2 then s.fs.nodes else Function.update s.fs.nodes page.2 .zero
    .ok (← unlockPut page (setUptodate page { s with fs := { s.fs with nodes := nodes } }),false)
  else submitBio late page s

/- `do_prepare_page` for a page of the node inode. -/
def prepareNode (page : PageKey) (s : WalkFs) : Except Stop (WalkFs × Except Errno Unit) :=
  if uptodate page s then .ok (s,.ok ())
  else do .ok (← readDisk (submitNodeXio load late) page s,.ok ())

def getNodePage (nid : Nat) (s : WalkFs) : Except Stop (WalkFs × Except Errno Unit) :=
  preparePage (prepareNode load late) (nodeKey nid) s

def allocFreeNat (isMeta : Bool) : (rounds iblock : Nat) → WalkFs → Except Stop (WalkFs × NatEntry)
  | rounds,iblock,s =>
    match freeNatEmpty s.fs.nat.nm isMeta,rounds with
    | some (nm,ne),_ => .ok ({ s with fs := { s.fs with nat := { s.fs.nat with nm := nm } } },ne)
    | none,0 => .error .rounds
    | none,rounds + 1 => do allocFreeNat isMeta rounds (iblock + 1) (← load iblock s)

/- The page `n` is unlocked while `alloc_free_nat` runs, and locked again for the pointer; the
reference to it stays. -/
def newNode (ino n : Nat) (e : Edge) (s : WalkFs) : Except Stop (WalkFs × Nat) := do
  let isMeta := decide (ino = metaIno)
  let (s,ne) ← allocFreeNat load isMeta rounds (if isMeta then 0 else regNatStart) s
  let s ← lockPage (nodeKey n) s
  let s ← unlockPage (nodeKey n) { s with
    fs := { s.fs with nodes := Function.update s.fs.nodes n ((s.fs.nodes n).setCell ne.nid e) } }
  .ok ({ s with fs := { s.fs with nat := { s.fs.nat with nm := s.fs.nat.nm.modify ne.nid (NatUse.node ino).mark } } },ne.nid)

def dnodeLoop (create : Bool) (ino len : Nat) (offset : Nat → Int) :
    (left i nid : Nat) → WalkFs → Except Stop (WalkFs × Except Errno Nat)
  | 0,_,_,s => .ok (s,.error .eio)
  | left + 1,i,nid,s => do
    let (s,ret) ← getNodePage load late nid s
    match ret with
    | .error e => .ok (s,.error e)
    | .ok () =>
      if i = len then .ok (s,.ok nid)
      else
        let next := (s.fs.nodes nid).cell (Fs.levelEdge offset i)
        let s ← unlockPage (nodeKey nid) s
        if next ≠ 0 then dnodeLoop create ino len offset left (i + 1) next (← putPage (nodeKey nid) s)
        else if create = false then .ok (← putPage (nodeKey nid) s,.error .eio)
        else
          let (s,next) ← newNode load rounds ino nid (Fs.levelEdge offset i) s
          dnodeLoop create ino len offset left (i + 1) next (← putPage (nodeKey nid) s)

/-- The page `(ino,iblock)` gives the inode and the index only; it is the caller's. -/
def getDnodePage (create : Bool) (ino iblock : Nat) (s : WalkFs) : Except Stop (WalkFs × Except Errno Nat) :=
  let (len,offset) := getPath iblock
  dnodeLoop load late rounds create ino len offset 4 0 ino s

/-- For a read. Where the walk fails the page stays as it is, and no bio is under way. -/
def submitDataXio (page : PageKey) (s : WalkFs) : Except Stop (WalkFs × Bool) := do
  let (s,found) ← getDnodePage load late rounds false page.1 page.2 s
  match found with
  | .error _ => .ok (s,false)
  | .ok dnode => submitBio late page (← unlockPut (nodeKey dnode) s)

def doPreparePage (create : Bool) (page : PageKey) (s : WalkFs) : Except Stop (WalkFs × Except Errno Unit) :=
  if page.1 = nodeIno then prepareNode load late page s
  else if uptodate page s then .ok (s,.ok ())
  else do
    let (s,found) ← getDnodePage load late rounds create page.1 page.2 s
    match found with
    | .error _ => .ok (s,.error .eio)
    | .ok dnode =>
      let need := decide ((s.fs.nodes dnode).dataAddr page.2 = 0)
      let s ← unlockPut (nodeKey dnode) s
      if need then .ok (setUptodate page s,.ok ())
      else .ok (← readDisk (submitDataXio load late rounds) page s,.ok ())

end

/-- With an error the caller goes on with no page. -/
def readRawNatBlock (late : Late) (rounds : Nat) : (depth : Nat) → LoadPages
  | 0,_,_ => .error .depth
  | depth + 1,iblock,s => do
    let (s,ret) ← preparePage (doPreparePage (readRawNatBlock late rounds depth) late rounds true) (metaIno,iblock) s
    match ret with
    | .error _ => .error .fault
    | .ok () => unlockPut (metaIno,iblock) { s with
        fs := { s.fs with nat := { s.fs.nat with nm := insertBlock s.fs.nat.nm (s.fs.nat.file iblock) iblock } } }

/- No page but the dnode's is held in the end. -/
def WalkExit (s t : WalkFs) : Except Errno Nat → Prop
  | .ok dnode => (s.pages (nodeKey dnode)).locked = false ∧ t.pages = HoldTable.held (nodeKey dnode) s.pages
  | .error _ => t.pages = s.pages

def PageExit (page : PageKey) (s t : WalkFs) : Except Errno Unit → Prop
  | .ok _ => (s.pages page).locked = false ∧ t.pages = HoldTable.held page s.pages
  | .error _ => t.pages = s.pages

def LoadKeeps (load : LoadPages) : Prop := ∀ iblock s t, load iblock s = .ok t → t.pages = s.pages

section
variable {load : LoadPages} {late : Late} {rounds : Nat} {page : PageKey} {pages : Table PageKey} {s t u : WalkFs}

theorem exceptBind {E A B : Type} {x : Except E A} {f : A → Except E B} {b : B} :
    (x >>= f) = .ok b ↔ ∃ a, x = .ok a ∧ f a = .ok b := by
  constructor
  · intro ran
    cases x with
    | error e => cases ran
    | ok a => exact ⟨a,rfl,ran⟩
  · intro ⟨a,done,rest⟩
    cases done
    exact rest

theorem holdOk {why : Stop} {found : Option (Table PageKey)} :
    s.hold why found = .ok t ↔ ∃ p, found = some p ∧ t = { s with pages := p } := by
  constructor
  · intro ran
    cases found with
    | none => cases ran
    | some p => exact ⟨p,rfl,(Except.ok.inj ran).symm⟩
  · intro ⟨p,some_,same⟩
    rw [some_,same]
    rfl

theorem holdSome {why : Stop} {found : Option (Table PageKey)} (some_ : found = some pages) :
    s.hold why found = .ok { s with pages := pages } := by
  rw [some_]
  rfl

theorem uptodatePages : (setUptodate page s).pages = s.pages := by
  unfold setUptodate
  split
  · rfl
  · split
    · rfl
    · rfl

theorem lockGetPage (free : (s.pages page).locked = false) :
    lockPage page (getPage page s) = .ok { s with pages := HoldTable.held page s.pages } :=
  holdSome (HoldTable.lockGet free)

theorem lockGetPageOk (ran : lockPage page (getPage page s) = .ok t) :
    (s.pages page).locked = false ∧ t = { s with pages := HoldTable.held page s.pages } := by
  cases state : (s.pages page).locked with
  | false => exact ⟨rfl,Except.ok.inj (ran.symm.trans (lockGetPage state))⟩
  | true =>
    obtain ⟨p,taken,_⟩ := holdOk.mp ran
    cases taken.symm.trans (HoldTable.lockGetBusy state)

theorem putPageGet (taken : s.pages = HoldTable.get page pages) (ran : putPage page s = .ok t) : t.pages = pages := by
  obtain ⟨p,dropped,rfl⟩ := holdOk.mp ran
  rw [taken,HoldTable.putGet] at dropped
  exact (Option.some.inj dropped).symm

theorem walkExitFrom {found : Except Errno Nat} (same : t.pages = s.pages) (exit : WalkExit t u found) : WalkExit s u found := by
  unfold WalkExit at exit ⊢
  rwa [same] at exit

theorem unlockPutRelease (released : HoldTable.release page s.pages = some pages) :
    unlockPut page s = .ok { s with pages := pages } := by
  obtain ⟨p,unlocked,dropped⟩ := Option.bind_eq_some_iff.mp released
  exact exceptBind.mpr ⟨{ s with pages := p },holdSome unlocked,holdSome dropped⟩

theorem unlockPutHeld (free : (pages page).locked = false) (taken : s.pages = HoldTable.held page pages) :
    unlockPut page s = .ok { s with pages := pages } :=
  unlockPutRelease (taken ▸ HoldTable.releaseHeld free)

theorem readEndIoGet (busy : (pages page).locked = true) (taken : s.pages = HoldTable.get page pages) :
    xcpfsReadEndIo page s = .ok { setUptodate page s with pages := HoldTable.freed page pages } :=
  unlockPutRelease (by rw [uptodatePages,taken,HoldTable.releaseGet busy])

/- What becomes of the lock and the reference that were handed over: they are given back, or are
still with the page. -/
def HandsOver (page : PageKey) (pages : Table PageKey) (t : WalkFs) (flight : Bool) : Prop :=
  t.pages = HoldTable.get page pages ∨ flight = false ∧ t.pages = HoldTable.freed page pages

theorem submitBioHands (busy : (pages page).locked = true) (taken : s.pages = HoldTable.get page pages) {flight : Bool}
    (ran : submitBio late page s = .ok (t,flight)) : HandsOver page pages t flight := by
  unfold submitBio at ran
  split at ran
  · cases ran
    exact .inl taken
  · obtain ⟨u,ended,same⟩ := exceptBind.mp ran
    cases same
    cases ended.symm.trans (readEndIoGet busy taken)
    exact .inr ⟨rfl,rfl⟩

theorem readDiskKeeps {submit : PageKey → WalkFs → Except Stop (WalkFs × Bool)} (busy : (s.pages page).locked = true)
    (hands : ∀ t flight, submit page (getPage page s) = .ok (t,flight) → HandsOver page s.pages t flight)
    (ran : readDisk submit page s = .ok t) : t.pages = s.pages := by
  unfold readDisk at ran
  obtain ⟨⟨u,flight⟩,submitted,rest⟩ := exceptBind.mp ran
  obtain ⟨v,ended,locked⟩ := exceptBind.mp rest
  obtain ⟨p,taken,rfl⟩ := holdOk.mp locked
  have kept : v.pages = HoldTable.freed page s.pages ∨ v.pages = HoldTable.get page s.pages := by
    rcases hands u flight submitted with here | ⟨rfl,freed⟩
    · cases flight with
      | true =>
        cases ended.symm.trans (readEndIoGet busy here)
        exact .inl rfl
      | false =>
        cases ended
        exact .inr here
    · cases ended
      exact .inl freed
  rcases kept with freed | still
  · rw [freed,HoldTable.lockFreed busy] at taken
    exact (Option.some.inj taken).symm
  · rw [still,HoldTable.lockGetBusy busy] at taken
    contradiction

theorem preparePageExit {prepare : PageKey → WalkFs → Except Stop (WalkFs × Except Errno Unit)} {ret : Except Errno Unit}
    (keeps : ∀ s t ret, (s.pages page).locked = true → prepare page s = .ok (t,ret) → t.pages = s.pages)
    (ran : preparePage prepare page s = .ok (t,ret)) : PageExit page s t ret := by
  unfold preparePage at ran
  obtain ⟨u,locked,rest⟩ := exceptBind.mp ran
  obtain ⟨free,rfl⟩ := lockGetPageOk locked
  split at rest
  · cases rest
    exact ⟨free,rfl⟩
  · obtain ⟨⟨v,answer⟩,prepared,last⟩ := exceptBind.mp rest
    have pages := keeps _ v answer (by dsimp only; rw [HoldTable.heldAt]) prepared
    cases answer with
    | ok done =>
      cases last
      exact ⟨free,pages⟩
    | error e =>
      obtain ⟨w,dropped,same⟩ := exceptBind.mp last
      cases same
      cases dropped.symm.trans (unlockPutHeld free pages)
      rfl

theorem lookupKeeps (keeps : LoadKeeps load) {nid : Nat} {ne : NatEntry} (ran : lookupNat load nid s = .ok (t,ne)) :
    t.pages = s.pages := by
  unfold lookupNat at ran
  split at ran
  · cases ran
    rfl
  · obtain ⟨u,loaded,rest⟩ := exceptBind.mp ran
    split at rest
    · cases rest
      exact keeps _ s t loaded
    · contradiction

theorem submitNodeHands (keeps : LoadKeeps load) (busy : (s.pages page).locked = true) {flight : Bool}
    (ran : submitNodeXio load late page (getPage page s) = .ok (t,flight)) : HandsOver page s.pages t flight := by
  unfold submitNodeXio at ran
  obtain ⟨⟨v,ne⟩,looked,rest⟩ := exceptBind.mp ran
  have taken : v.pages = HoldTable.get page s.pages := lookupKeeps keeps looked
  dsimp only at rest
  split at rest
  · obtain ⟨v,dropped,same⟩ := exceptBind.mp rest
    cases same
    cases dropped.symm.trans (unlockPutRelease (by rw [uptodatePages]; dsimp only; rw [taken,HoldTable.releaseGet busy]))
    exact .inr ⟨rfl,rfl⟩
  · exact submitBioHands busy taken rest

theorem prepareNodeKeeps (keeps : LoadKeeps load) {ret : Except Errno Unit} (busy : (s.pages page).locked = true)
    (ran : prepareNode load late page s = .ok (t,ret)) : t.pages = s.pages := by
  unfold prepareNode at ran
  split at ran
  · cases ran
    rfl
  · obtain ⟨u,read,same⟩ := exceptBind.mp ran
    cases same
    exact readDiskKeeps busy (fun _ _ => submitNodeHands keeps busy) read

theorem getNodePageExit (keeps : LoadKeeps load) {nid : Nat} {ret : Except Errno Unit}
    (ran : getNodePage load late nid s = .ok (t,ret)) : PageExit (nodeKey nid) s t ret :=
  preparePageExit (fun _ _ _ => prepareNodeKeeps keeps) ran

theorem allocKeeps (keeps : LoadKeeps load) {isMeta : Bool} {iblock : Nat} {ne : NatEntry}
    (ran : allocFreeNat load isMeta rounds iblock s = .ok (t,ne)) : t.pages = s.pages := by
  induction rounds generalizing iblock s with
  | zero =>
    unfold allocFreeNat at ran
    split at ran
    · cases ran
      rfl
    · contradiction
    · contradiction
  | succ rounds ih =>
    unfold allocFreeNat at ran
    split at ran
    · cases ran
      rfl
    · contradiction
    · rename_i same
      cases same
      obtain ⟨u,loaded,rest⟩ := exceptBind.mp ran
      exact (ih rest).trans (keeps _ s u loaded)

theorem newNodeKeeps (keeps : LoadKeeps load) {ino n next : Nat} {e : Edge}
    (ran : newNode load rounds ino n e s = .ok (t,next)) : t.pages = s.pages := by
  unfold newNode at ran
  obtain ⟨⟨u,ne⟩,allocated,rest⟩ := exceptBind.mp ran
  have pages : u.pages = s.pages := allocKeeps keeps allocated
  obtain ⟨v,locked,rest⟩ := exceptBind.mp rest
  obtain ⟨w,unlocked,rest⟩ := exceptBind.mp rest
  cases rest
  obtain ⟨p,taken,rfl⟩ := holdOk.mp locked
  obtain ⟨q,back,rfl⟩ := holdOk.mp unlocked
  rw [pages] at taken
  exact HoldTable.lockUnlock taken back

theorem dnodeLoopExit (keeps : LoadKeeps load) {create : Bool} {ino len left i nid : Nat} {offset : Nat → Int}
    {found : Except Errno Nat} (ran : dnodeLoop load late rounds create ino len offset left i nid s = .ok (t,found)) :
    WalkExit s t found := by
  induction left generalizing i nid s with
  | zero =>
    cases ran
    rfl
  | succ left ih =>
    unfold dnodeLoop at ran
    obtain ⟨⟨u,ret⟩,read,rest⟩ := exceptBind.mp ran
    have taken := getNodePageExit keeps read
    cases ret with
    | error e =>
      cases rest
      exact taken
    | ok done =>
      obtain ⟨free,pages⟩ := taken
      dsimp only at rest
      split at rest
      · cases rest
        exact ⟨free,pages⟩
      · obtain ⟨v,unlocked,rest⟩ := exceptBind.mp rest
        have pinned : v.pages = HoldTable.get (nodeKey nid) s.pages := by
          obtain ⟨p,opened,rfl⟩ := holdOk.mp unlocked
          rw [pages,HoldTable.unlockHeld free] at opened
          exact (Option.some.inj opened).symm
        split at rest
        · obtain ⟨w,dropped,rest⟩ := exceptBind.mp rest
          exact walkExitFrom (putPageGet pinned dropped) (ih rest)
        · split at rest
          · obtain ⟨w,dropped,same⟩ := exceptBind.mp rest
            cases same
            exact putPageGet pinned dropped
          · obtain ⟨⟨w,next⟩,made,rest⟩ := exceptBind.mp rest
            obtain ⟨x,dropped,rest⟩ := exceptBind.mp rest
            exact walkExitFrom (putPageGet ((newNodeKeeps keeps made).trans pinned) dropped) (ih rest)

theorem getDnodePageExit (keeps : LoadKeeps load) {create : Bool} {ino iblock : Nat} {found : Except Errno Nat}
    (ran : getDnodePage load late rounds create ino iblock s = .ok (t,found)) : WalkExit s t found := by
  obtain ⟨path,decoded⟩ : ∃ path, path = getPath iblock := ⟨_,rfl⟩
  unfold getDnodePage at ran
  rw [← decoded] at ran
  exact dnodeLoopExit keeps ran

theorem submitDataHands (keeps : LoadKeeps load) (busy : (s.pages page).locked = true) {flight : Bool}
    (ran : submitDataXio load late rounds page (getPage page s) = .ok (t,flight)) : HandsOver page s.pages t flight := by
  unfold submitDataXio at ran
  obtain ⟨⟨u,found⟩,walked,rest⟩ := exceptBind.mp ran
  have exit := getDnodePageExit keeps walked
  cases found with
  | error e =>
    cases rest
    exact .inl exit
  | ok dnode =>
    obtain ⟨v,dropped,rest⟩ := exceptBind.mp rest
    cases dropped.symm.trans (unlockPutHeld exit.1 exit.2)
    exact submitBioHands busy rfl rest

theorem doPreparePageKeeps (keeps : LoadKeeps load) {create : Bool} {ret : Except Errno Unit}
    (busy : (s.pages page).locked = true) (ran : doPreparePage load late rounds create page s = .ok (t,ret)) :
    t.pages = s.pages := by
  unfold doPreparePage at ran
  split at ran
  · exact prepareNodeKeeps keeps busy ran
  · split at ran
    · cases ran
      rfl
    · obtain ⟨⟨u,found⟩,walked,rest⟩ := exceptBind.mp ran
      have exit := getDnodePageExit keeps walked
      cases found with
      | error e =>
        cases rest
        exact exit
      | ok dnode =>
        obtain ⟨v,dropped,rest⟩ := exceptBind.mp rest
        cases dropped.symm.trans (unlockPutHeld exit.1 exit.2)
        split at rest
        · cases rest
          exact uptodatePages
        · obtain ⟨w,read,same⟩ := exceptBind.mp rest
          cases same
          obtain ⟨x,free⟩ : ∃ x : WalkFs, x = { u with pages := s.pages } := ⟨_,rfl⟩
          have still : x.pages = s.pages := by rw [free]
          rw [← free] at read
          rw [← still] at busy ⊢
          exact readDiskKeeps busy (fun _ _ => submitDataHands keeps busy) read

theorem rawBlockKeeps (late : Late) (rounds depth : Nat) : LoadKeeps (readRawNatBlock late rounds depth) := by
  induction depth with
  | zero =>
    intro iblock s t ran
    contradiction
  | succ depth ih =>
    intro iblock s t ran
    unfold readRawNatBlock at ran
    obtain ⟨⟨u,ret⟩,prepared,rest⟩ := exceptBind.mp ran
    have exit := preparePageExit (fun _ _ _ => doPreparePageKeeps ih) prepared
    cases ret with
    | error e => contradiction
    | ok done =>
      obtain ⟨nm,inserted⟩ : ∃ nm, nm = insertBlock u.fs.nat.nm (u.fs.nat.file iblock) iblock := ⟨_,rfl⟩
      dsimp only at rest
      rw [← inserted] at rest
      cases rest.symm.trans (unlockPutHeld exit.1 exit.2)
      rfl

end

end PageWalk
end Xcpfs
