import Xcpfs.Readdir

/-! The directory tree of a mounted image: `xcpfs_mknod`, `xcpfs_mkdir`, `xcpfs_unlink`
and `xcpfs_rmdir` over the pages and link counts of all inodes. The VFS creates names
that were not found, in live directories, and removes names that were found. -/
namespace Xcpfs

open EventRun

structure Vnode where
  isDir : Bool
  dir : Dir
  nlink : Int

/- `parent` records where an inode was created and `removed` the inodes that lost their name. -/
structure Tree where
  node : Nat → Option Vnode
  parent : Nat → Nat
  removed : List Vnode

def Tree.dirAt (t : Tree) (d : Nat) : Option Vnode := (t.node d).filter Vnode.isDir

/- An inode begins with one link. -/
def newFile : Vnode := ⟨false,⟨fun _ _ => 0,0⟩,1⟩

def Tree.put (t : Tree) (d : Nat) (v : Vnode) : Tree := { t with node := Function.update t.node d (some v) }

def Tree.link (t : Tree) (d ino : Nat) (inode : Vnode) : Tree :=
  { t with node := Function.update t.node ino (some inode), parent := Function.update t.parent ino d }

def Tree.remove (t : Tree) (ino : Nat) (inode : Vnode) : Tree :=
  { t with node := Function.update t.node ino none, removed := inode :: t.removed }

/-- `xcpfs_mknod` in directory `d`; a new inode that gets no name is put again. -/
def xcpfsMknod (t : Tree) (d : Nat) (dir : Vnode) (name : List UInt8) (ino : Nat) : Tree × Except Errno Unit :=
  match xcpfsAddLink dir.dir name ino with
  | (pages,.ok ()) => ((t.put d { dir with dir := pages }).link d ino newFile,.ok ())
  | (pages,.error err) =>
    ((t.put d { dir with dir := pages }).remove ino { newFile with nlink := newFile.nlink - 1 },.error err)

/-- `xcpfs_mkdir`. The parent is counted before the entry is there; the failing path returns 0. -/
def xcpfsMkdir (t : Tree) (d : Nat) (dir : Vnode) (name : List UInt8) (ino : Nat) : Tree × Except Errno Unit :=
  let dir := { dir with nlink := dir.nlink + 1 }
  let inode : Vnode := ⟨true,xcpfsInitDir ino,newFile.nlink + 1⟩
  match xcpfsAddLink dir.dir name ino with
  | (pages,.ok ()) => ((t.put d { dir with dir := pages }).link d ino inode,.ok ())
  | (pages,.error _) =>
    ((t.put d { dir with dir := pages }).remove ino { inode with nlink := inode.nlink - 1 - 1 },.ok ())

/-- `xcpfs_unlink` of the inode the VFS looked up. -/
def unlinkNode (t : Tree) (d : Nat) (dir : Vnode) (name : List UInt8) (ino : Nat) (inode : Vnode) : Tree × Except Errno Unit :=
  match xcpfsUnlink dir.dir name with
  | (pages,.ok ()) => ((t.put d { dir with dir := pages }).remove ino { inode with nlink := inode.nlink - 1 },.ok ())
  | (pages,.error err) => (t.put d { dir with dir := pages },.error err)

/-- `xcpfs_rmdir`: after `xcpfs_unlink` both link counts go down once more. -/
def rmdirNode (t : Tree) (d : Nat) (dir : Vnode) (name : List UInt8) (ino : Nat) (inode : Vnode) : Tree × Except Errno Unit :=
  if xcpfsEmptyDir inode.dir = false then (t,.error .enotempty)
  else match xcpfsUnlink dir.dir name with
  | (pages,.ok ()) =>
    ((t.put d { dir with dir := pages, nlink := dir.nlink - 1 }).remove ino { inode with nlink := inode.nlink - 1 - 1 },.ok ())
  | (pages,.error err) => (t.put d { dir with dir := pages },.error err)

inductive TreeOp where
  | mknod (d : Nat) (name : Name) (ino : Ino)
  | mkdir (d : Nat) (name : Name) (ino : Ino)
  | unlink (d : Nat) (name : Name)
  | rmdir (d : Nat) (name : Name)

/- The VFS calls a create only after a lookup that failed, with the ino of no inode. -/
def Tree.create (t : Tree) (d : Nat) (name : Name) (ino : Ino)
    (call : Tree → Nat → Vnode → List UInt8 → Nat → Tree × Except Errno Unit) : Option Tree :=
  match t.dirAt d with
  | none => none
  | some dir =>
    if name.bytes.length ≤ 255 ∧ xcpfsInodeByName dir.dir name.bytes = 0 ∧ (t.node ino.val).isNone then
      some (call t d dir name.bytes ino.val).1
    else none

/- It calls a remove only after a lookup that found an inode of the right kind. -/
def Tree.delete (t : Tree) (d : Nat) (name : Name) (isDir : Bool)
    (call : Tree → Nat → Vnode → List UInt8 → Nat → Vnode → Tree × Except Errno Unit) : Option Tree :=
  match t.dirAt d with
  | none => none
  | some dir =>
    let ino := xcpfsInodeByName dir.dir name.bytes
    match t.node ino with
    | none => none
    | some inode =>
      if name.bytes.length ≤ 255 ∧ ino ≠ 0 ∧ inode.isDir = isDir then some (call t d dir name.bytes ino inode).1 else none

def treeStep (t : Tree) : TreeOp → Option Tree
  | .mknod d name ino => t.create d name ino xcpfsMknod
  | .mkdir d name ino => t.create d name ino xcpfsMkdir
  | .unlink d name => t.delete d name false unlinkNode
  | .rmdir d name => t.delete d name true rmdirNode

/- The root that `init_root` of mkfs writes. -/
def mkfsRoot : Vnode := ⟨true,xcpfsInitDir rootIno,2⟩

def mkfsTree : Tree := ⟨Function.update (fun _ => none) rootIno (some mkfsRoot),fun _ => rootIno,[]⟩

/- The pages of directory `d` are in order. -/
structure DirOk (d : Nat) (dir : Dir) : Prop where
  holds : ∃ bound, HoldsMap ⟨dir,bound⟩
  two : 2 ≤ dir.npages
  dot : dir.page 0 = dotPage d [46]
  dots : dir.page 1 = dotPage d [46,46]
  positive : 0 < d
  word : d < 2 ^ 32
  names : ∀ i, 2 ≤ i → dir.Live i → ∃ name : Name, entryName (dir.page i) = name.bytes

/- From one state of the pages to the next: one slot becomes live, or stops to be. -/
structure Linked (dir next : Dir) (tar ino : Nat) : Prop where
  high : 2 ≤ tar
  fresh : ¬dir.Live tar
  live : next.Live tar
  value : entryIno (next.page tar) = ino
  other : ∀ i, i ≠ tar → (next.Live i ↔ dir.Live i)
  same : ∀ i, dir.Live i → next.page i = dir.page i

structure Unlinked (dir next : Dir) (tar : Nat) : Prop where
  high : 2 ≤ tar
  was : dir.Live tar
  gone : ¬next.Live tar
  other : ∀ i, i ≠ tar → (next.Live i ↔ dir.Live i)
  same : ∀ i, i ≠ tar → next.page i = dir.page i

section
variable {d tar : Nat} {dir next : Dir} {name : Name} {ino : Ino}

theorem dirOkNew (ino : Ino) : DirOk ino.val (xcpfsInitDir ino.val) := by
  obtain ⟨_,count,first,second⟩ := initDirPages ino.val
  refine ⟨⟨_,newDirHolds ino⟩,Nat.le_of_eq count.symm,first,second,ino.positive,?_,fun i high live => ?_⟩
  · have bound := ino.bound
    omega
  · have inside := live.1
    omega

theorem dotValue (ok : DirOk d dir) : entryIno (dir.page 0) = d ∧ entryIno (dir.page 1) = d := by
  rw [ok.dot,ok.dots]
  exact ⟨dotPageIno _ _ ok.word (by decide),dotPageIno _ _ ok.word (by decide)⟩

theorem dotLive (ok : DirOk d dir) {i : Nat} (low : i < 2) : dir.Live i ∧ entryIno (dir.page i) = d := by
  have two := ok.two
  obtain ⟨first,second⟩ := dotValue ok
  have positive := ok.positive
  match i,low with
  | 0,_ => exact ⟨⟨by omega,by omega⟩,first⟩
  | 1,_ => exact ⟨⟨by omega,by omega⟩,second⟩

theorem namedHigh (ok : DirOk d dir) {i : Nat} (carries : entryName (dir.page i) = name.bytes) : 2 ≤ i := by
  by_contra low
  match i,low with
  | 0,_ =>
    rw [ok.dot,dotPageName _ _ (by decide)] at carries
    exact name.notDot carries.symm
  | 1,_ =>
    rw [ok.dots,dotPageName _ _ (by decide)] at carries
    exact name.notDotDot carries.symm
  | i + 2,low => omega

theorem unbound {bound : Name → Option Nat} (holds : HoldsMap ⟨dir,bound⟩) (absent : xcpfsInodeByName dir name.bytes = 0) :
    bound name = none := by
  have found : xcpfsInodeByName dir name.bytes = (bound name).getD 0 := (finiteMapOf holds).found name
  cases here : bound name with
  | none => rfl
  | some value =>
    obtain ⟨i,live,_,same⟩ := (holds.tracks name value).mp here
    rw [here] at found
    exact absurd (same.trans (found.symm.trans absent)) live.2

theorem holdsInside {bound : Name → Option Nat} (holds : HoldsMap ⟨dir,bound⟩) (size : next.iSize = dir.iSize)
    (pages : ∀ i < dir.npages, next.page i = dir.page i) : HoldsMap ⟨next,bound⟩ := by
  have count : next.npages = dir.npages := by rw [Dir.npages,Dir.npages,size]
  have live : ∀ i, next.Live i → dir.Live i ∧ next.page i = dir.page i := by
    intro i taken_
    obtain ⟨inside,taken⟩ := taken_
    rw [count] at inside
    rw [pages i inside] at taken
    exact ⟨⟨inside,taken⟩,pages i inside⟩
  constructor
  case size =>
    dsimp only
    rw [size,count]
    exact holds.size
  case room =>
    dsimp only
    rw [count]
    exact holds.room
  case cleared =>
    intro i inside zero
    dsimp only at inside zero ⊢
    rw [count] at inside
    rw [pages i inside] at zero ⊢
    exact holds.cleared i inside zero
  case readable =>
    intro i taken called same
    obtain ⟨was,page⟩ := live i taken
    dsimp only at same ⊢
    rw [page] at same ⊢
    exact holds.readable i was called same
  case distinct =>
    intro i j first second same
    obtain ⟨left,page⟩ := live i first
    obtain ⟨right,other⟩ := live j second
    dsimp only at same
    rw [page,other] at same
    exact holds.distinct i j left right same
  case tracks =>
    intro called number
    rw [holds.tracks]
    constructor
    · intro stored
      obtain ⟨i,taken,same,value⟩ := stored
      have page := pages i taken.1
      refine ⟨i,⟨by dsimp only; rw [count]; exact taken.1,by dsimp only; rw [page]; exact taken.2⟩,?_,?_⟩
      · dsimp only
        rw [page]
        exact same
      · dsimp only
        rw [page]
        exact value
    · intro stored
      obtain ⟨i,taken,same,value⟩ := stored
      obtain ⟨was,page⟩ := live i taken
      dsimp only at same value
      rw [page] at same value
      exact ⟨i,was,same,value⟩

theorem dirOkInside (ok : DirOk d dir) (size : next.iSize = dir.iSize) (pages : ∀ i < dir.npages, next.page i = dir.page i) :
    DirOk d next := by
  obtain ⟨bound,holds⟩ := ok.holds
  have count : next.npages = dir.npages := by rw [Dir.npages,Dir.npages,size]
  have two := ok.two
  refine ⟨⟨bound,holdsInside holds size pages⟩,count.symm ▸ two,?_,?_,ok.positive,ok.word,fun i high live => ?_⟩
  · exact (pages 0 (by omega)).trans ok.dot
  · exact (pages 1 (by omega)).trans ok.dots
  · obtain ⟨inside,taken⟩ := live
    rw [count] at inside
    rw [pages i inside] at taken ⊢
    exact ok.names i high ⟨inside,taken⟩

/- A directory that is not full has a place for one more entry. -/
def HasRoom (dir : Dir) : Prop := (∃ i < dir.npages, entryIno (dir.page i) = 0) ∨ dir.npages < 2 ^ 19 - 1

theorem dirOkLinked {tar : Nat} (ok : DirOk d dir) (linked : Linked dir next tar ino.val) (holds : ∃ bound, HoldsMap ⟨next,bound⟩)
    (count : dir.npages ≤ next.npages) (carries : entryName (next.page tar) = name.bytes) : DirOk d next where
  holds := holds
  two := Nat.le_trans ok.two count
  dot := (linked.same 0 (dotLive ok (by decide)).1).trans ok.dot
  dots := (linked.same 1 (dotLive ok (by decide)).1).trans ok.dots
  positive := ok.positive
  word := ok.word
  names i high live := by
    by_cases here : i = tar
    · exact ⟨name,here ▸ carries⟩
    · have was := (linked.other i here).mp live
      rw [linked.same i was]
      exact ok.names i high was

theorem linkedWrite {bound : Name → Option Nat} (ok : DirOk d dir) (holds : HoldsMap ⟨dir,bound⟩) (none_ : bound name = none)
    (short : name.bytes.length ≤ 255) (below : tar ≤ dir.npages) (free : ¬dir.Live tar)
    (pages : next.page = Function.update dir.page tar (linkPage (dir.page tar) name.bytes ino.val))
    (count : next.npages = max dir.npages (tar + 1)) (size : next.iSize = next.npages * 4096) (room : next.npages < 2 ^ 19) :
    DirOk d next ∧ Linked dir next tar ino.val := by
  have word : ino.val < 2 ^ 32 := by
    have bound := ino.bound
    omega
  have here : next.page tar = linkPage (dir.page tar) name.bytes ino.val := by rw [pages,Function.update_self]
  have away : ∀ i, i ≠ tar → next.page i = dir.page i := fun i other => by rw [pages,Function.update_of_ne other]
  have value : entryIno (next.page tar) = ino.val := by rw [here,linkPageIno _ _ _ word]
  have linked : Linked dir next tar ino.val := by
    refine ⟨?_,free,⟨by omega,by rw [value]; exact Nat.ne_of_gt ino.positive⟩,value,fun i other => ?_,fun i live => ?_⟩
    · exact Nat.not_lt.mp fun low => free (dotLive ok low).1
    · unfold Dir.Live
      rw [away i other]
      refine and_congr_left fun _ => ?_
      rw [count]
      constructor
      · intro inside
        omega
      · intro inside
        omega
    · exact away i fun same => free (same ▸ live)
  have after := linkHolds holds ino none_ below free (.inl (Nat.lt_succ_of_le short)) pages count size room
  have carries : entryName (next.page tar) = name.bytes := by rw [here,linkPageName _ _ _ name.fits]
  exact ⟨dirOkLinked ok linked ⟨_,after⟩ (by omega) carries,linked⟩

/- `xcpfs_add_link` of a name that was not found: the entry gets a slot, or the page
it is written to stays behind the end of the directory. -/
theorem addLinkSpec (ok : DirOk d dir) (ino : Ino) (short : name.bytes.length ≤ 255) (absent : xcpfsInodeByName dir name.bytes = 0) :
    ∃ next, xcpfsAddLink dir name.bytes ino.val = (next,.ok ()) ∧ DirOk d next ∧
      ((HasRoom dir ∧ ∃ tar, Linked dir next tar ino.val) ∨
        (¬HasRoom dir ∧ next.npages = dir.npages ∧ ∀ i < dir.npages, next.page i = dir.page i)) := by
  obtain ⟨bound,holds⟩ := ok.holds
  have none_ := unbound holds absent
  have size : dir.iSize = dir.npages * 4096 := holds.size
  have room : dir.npages < 2 ^ 19 := holds.room
  obtain ⟨_,here⟩ | ⟨tar,ran,_,_,place⟩ := scanDecides holds name
  · change (bound name).isSome = true at here
    rw [none_] at here
    cases here
  · dsimp only at ran place
    unfold xcpfsAddLink
    rw [ran]
    dsimp only
    refine ⟨_,rfl,?_⟩
    have away : ∀ i, i ≠ tar → (commitWrite dir tar (linkPage (dir.page tar) name.bytes ino.val)).page i = dir.page i :=
      fun i other => Function.update_of_ne other ..
    rcases place with ⟨inside,zero⟩ | ⟨last,full⟩
    · have same := commitNpages (linkPage (dir.page tar) name.bytes ino.val) size room (.inl inside)
      have kept := commitSize (linkPage (dir.page tar) name.bytes ino.val) size room (.inl inside)
      obtain ⟨next,linked⟩ := linkedWrite ok holds none_ short (Nat.le_of_lt inside) (fun live => live.2 zero) rfl
        (by rw [same]; omega) (by rw [same,kept,size]) (by rw [same]; exact room)
      exact ⟨next,.inl ⟨.inl ⟨tar,inside,zero⟩,tar,linked⟩⟩
    · by_cases space : dir.npages < 2 ^ 19 - 1
      · obtain ⟨grown,count⟩ := commitGrows (linkPage (dir.page tar) name.bytes ino.val) size space
        rw [← last] at grown count
        obtain ⟨next,linked⟩ := linkedWrite ok holds none_ short (Nat.le_of_eq last) (fun live => by have := live.1; omega) rfl
          (by rw [count,last]; omega) (by rw [count,grown]) (by rw [count,last]; omega)
        exact ⟨next,.inl ⟨.inr space,tar,linked⟩⟩
      · -- the byte behind page 2^19 - 1 wraps, so the size stays
        have edge : tar = 2 ^ 19 - 1 := by omega
        have same := commitNpages (linkPage (dir.page tar) name.bytes ino.val) size room (.inr edge)
        have kept := commitSize (linkPage (dir.page tar) name.bytes ino.val) size room (.inr edge)
        have pages : ∀ i < dir.npages, (commitWrite dir tar (linkPage (dir.page tar) name.bytes ino.val)).page i = dir.page i :=
          fun i inside => away i (by omega)
        refine ⟨dirOkInside ok kept pages,.inr ⟨?_,same,pages⟩⟩
        · intro more
          rcases more with ⟨i,inside,zero⟩ | more
          · exact full i inside zero
          · exact space more

/- The entry a lookup finds is the one that `xcpfs_unlink` clears. -/
theorem unlinkSpec (ok : DirOk d dir) (present : xcpfsInodeByName dir name.bytes ≠ 0) :
    ∃ i next, xcpfsUnlink dir name.bytes = (next,.ok ()) ∧ DirOk d next ∧ Unlinked dir next i ∧
      entryIno (dir.page i) = xcpfsInodeByName dir name.bytes := by
  obtain ⟨bound,holds⟩ := ok.holds
  obtain ⟨i,found,live,carries,_⟩ | ⟨missed,_⟩ := findDecides holds name
  · dsimp only at found live carries
    have high := namedHigh ok carries
    have after := unlinkHolds (s := ⟨dir,bound⟩) holds live carries
    have count : (xcpfsDeleteEntry dir i).npages = dir.npages := commitNpages _ holds.size holds.room (.inl live.1)
    have here : (xcpfsDeleteEntry dir i).page i = clearPage (dir.page i) := Function.update_self ..
    have away : ∀ j, j ≠ i → (xcpfsDeleteEntry dir i).page j = dir.page j := fun j other => Function.update_of_ne other ..
    have unlinked : Unlinked dir (xcpfsDeleteEntry dir i) i := by
      refine ⟨high,live,fun still => still.2 (by rw [here,clearPageIno]),fun j other => ?_,away⟩
      unfold Dir.Live
      rw [count,away j other]
    refine ⟨i,xcpfsDeleteEntry dir i,?_,?_,unlinked,?_⟩
    · unfold xcpfsUnlink
      rw [found]
    · refine ⟨⟨_,after⟩,count.symm ▸ ok.two,(away 0 (by omega)).trans ok.dot,(away 1 (by omega)).trans ok.dots,ok.positive,ok.word,?_⟩
      intro j top taken
      have other : j ≠ i := by
        intro same
        subst same
        exact unlinked.gone taken
      rw [away j other]
      exact ok.names j top ((unlinked.other j other).mp taken)
    · unfold xcpfsInodeByName
      rw [found]
  · unfold xcpfsInodeByName at present
    rw [show xcpfsFindEntry dir name.bytes = none from missed] at present
    exact absurd rfl present

/- `xcpfs_empty_dir` scans the slots behind the first two. -/
theorem emptyDirIff (two : 2 ≤ dir.npages) : xcpfsEmptyDir dir = true ↔ ∀ i, 2 ≤ i → ¬dir.Live i := by
  unfold xcpfsEmptyDir
  rw [List.all_eq_true]
  constructor
  · intro all i high live
    have zero := all i (List.mem_range'_1.mpr ⟨high,by have := live.1; omega⟩)
    exact live.2 (beq_iff_eq.mp zero)
  · intro none_ i member
    obtain ⟨high,below⟩ := List.mem_range'_1.mp member
    rw [beq_iff_eq]
    by_contra taken
    exact none_ i high ⟨by omega,taken⟩

end

/- Slot `i` of directory `d` names inode `c`. -/
def Tree.Names (t : Tree) (d i c : Nat) : Prop := ∃ v, t.dirAt d = some v ∧ v.dir.Live i ∧ entryIno (v.dir.page i) = c

/- The directories of a tree are in order; only "." and ".." name the root. -/
structure DirsOk (t : Tree) : Prop where
  root : ∃ v, t.dirAt rootIno = some v
  dirs : ∀ d v, t.dirAt d = some v → DirOk d v.dir
  below : ∀ d i, 2 ≤ i → ¬t.Names d i rootIno

/- Every inode but the root has one name, in the directory it was created in. -/
structure TreeShape (t : Tree) : Prop where
  ok : DirsOk t
  named : ∀ d i c, 2 ≤ i → t.Names d i c → (t.node c).isSome ∧ t.parent c = d
  once : ∀ d i j c, 2 ≤ i → 2 ≤ j → t.Names d i c → t.Names d j c → i = j
  placed : ∀ c v, t.node c = some v → c ≠ rootIno → ∃ i, 2 ≤ i ∧ t.Names (t.parent c) i c

section
variable {t : Tree} {d c n i tar : Nat} {v w inode : Vnode} {dir : Dir}

theorem dirAtNode (here : t.dirAt d = some v) : t.node d = some v ∧ v.isDir = true := by
  obtain ⟨found,kind⟩ := Option.filter_eq_some_iff.mp here
  exact ⟨found,kind⟩

theorem dirAtLink (apart : d ≠ c) (isDir : w.isDir = true) (n : Nat) :
    ((t.put d w).link d c inode).dirAt n =
      if n = c then (if inode.isDir then some inode else none) else if n = d then some w else t.dirAt n := by
  unfold Tree.dirAt Tree.link Tree.put
  dsimp only
  by_cases new : n = c
  · subst new
    rw [if_pos rfl,Function.update_self]
    cases kind : inode.isDir <;> simp [kind]
  · rw [if_neg new,Function.update_of_ne new]
    by_cases here : n = d
    · subst here
      rw [if_pos rfl,Function.update_self]
      simp [isDir]
    · rw [if_neg here,Function.update_of_ne here]

theorem dirAtRemove (isDir : w.isDir = true) (n : Nat) :
    ((t.put d w).remove c inode).dirAt n = if n = c then none else if n = d then some w else t.dirAt n := by
  unfold Tree.dirAt Tree.remove Tree.put
  dsimp only
  by_cases gone : n = c
  · subst gone
    rw [if_pos rfl,Function.update_self]
    rfl
  · rw [if_neg gone,Function.update_of_ne gone]
    by_cases here : n = d
    · subst here
      rw [if_pos rfl,Function.update_self]
      simp [isDir]
    · rw [if_neg here,Function.update_of_ne here]

theorem namesLink (here : t.dirAt d = some v) (fresh : t.node c = none) (isDir : w.isDir = true) (linked : Linked v.dir w.dir tar c)
    (bare : inode.isDir = true → ∀ i, 2 ≤ i → ¬inode.dir.Live i) (high : 2 ≤ i) (e n : Nat) :
    ((t.put d w).link d c inode).Names e i n ↔ (e = d ∧ i = tar ∧ n = c) ∨ t.Names e i n := by
  have found := (dirAtNode here).1
  have apart : d ≠ c := by
    intro same
    rw [same,fresh] at found
    contradiction
  have absent : t.dirAt c = none := by rw [Tree.dirAt,fresh]; rfl
  unfold Tree.Names
  rw [dirAtLink apart isDir]
  by_cases new : e = c
  · subst new
    rw [if_pos rfl,absent]
    constructor
    · intro ⟨u,same,live,_⟩
      split at same
      · rename_i kind
        cases same
        exact absurd live (bare kind i high)
      · contradiction
    · rintro (⟨same,_⟩ | ⟨u,bad,_⟩)
      · exact absurd same.symm apart
      · contradiction
  · rw [if_neg new]
    by_cases home : e = d
    · subst home
      rw [if_pos rfl,here]
      constructor
      · intro ⟨u,same,live,value⟩
        cases same
        by_cases target : i = tar
        · exact .inl ⟨rfl,target,value.symm.trans (target ▸ linked.value)⟩
        · have was := (linked.other i target).mp live
          exact .inr ⟨v,rfl,was,by rw [← linked.same i was]; exact value⟩
      · rintro (⟨_,target,value⟩ | ⟨u,same,live,value⟩)
        · exact ⟨w,rfl,target ▸ linked.live,by rw [target,value]; exact linked.value⟩
        · cases same
          have target : i ≠ tar := fun same => linked.fresh (same ▸ live)
          exact ⟨w,rfl,(linked.other i target).mpr live,by rw [linked.same i live]; exact value⟩
    · rw [if_neg home]
      constructor
      · exact .inr
      · rintro (⟨same,_⟩ | rest)
        · exact absurd same home
        · exact rest

theorem namesRemove (here : t.dirAt d = some v) (isDir : w.isDir = true) (unlinked : Unlinked v.dir w.dir tar)
    (bare : ∀ u, t.dirAt c = some u → ∀ i, 2 ≤ i → ¬u.dir.Live i) (high : 2 ≤ i) (e n : Nat) :
    ((t.put d w).remove c inode).Names e i n ↔ ¬(e = d ∧ i = tar) ∧ t.Names e i n := by
  unfold Tree.Names
  rw [dirAtRemove isDir]
  by_cases gone : e = c
  · subst gone
    rw [if_pos rfl]
    constructor
    · intro ⟨u,bad,_⟩
      contradiction
    · intro ⟨_,u,same,live,_⟩
      exact absurd live (bare u same i high)
  · rw [if_neg gone]
    by_cases home : e = d
    · subst home
      rw [if_pos rfl,here]
      constructor
      · intro ⟨u,same,live,value⟩
        cases same
        have target : i ≠ tar := fun same => unlinked.gone (same ▸ live)
        exact ⟨fun both => target both.2,v,rfl,(unlinked.other i target).mp live,by rw [← unlinked.same i target]; exact value⟩
      · intro ⟨apart,u,same,live,value⟩
        cases same
        have target : i ≠ tar := fun same => apart ⟨rfl,same⟩
        exact ⟨w,rfl,(unlinked.other i target).mpr live,by rw [unlinked.same i target]; exact value⟩
    · rw [if_neg home]
      exact ⟨fun rest => ⟨fun both => home both.1,rest⟩,And.right⟩

/- What a create and a remove need of the directory they write. -/
structure Creates (t : Tree) (d c : Nat) (v w inode : Vnode) (tar : Nat) : Prop where
  here : t.dirAt d = some v
  fresh : t.node c = none
  isDir : w.isDir = true
  ok : DirOk d w.dir
  linked : Linked v.dir w.dir tar c
  inner : inode.isDir = true → DirOk c inode.dir
  bare : inode.isDir = true → ∀ i, 2 ≤ i → ¬inode.dir.Live i

structure Deletes (t : Tree) (d c : Nat) (v w u : Vnode) (tar : Nat) : Prop where
  here : t.dirAt d = some v
  was : t.node c = some u
  isDir : w.isDir = true
  ok : DirOk d w.dir
  unlinked : Unlinked v.dir w.dir tar
  value : entryIno (v.dir.page tar) = c
  bare : u.isDir = true → ∀ i, 2 ≤ i → ¬u.dir.Live i

theorem nodeLink (n : Nat) : ((t.put d w).link d c inode).node n =
    if n = c then some inode else if n = d then some w else t.node n := by
  unfold Tree.link Tree.put
  simp only [Function.update_apply]

theorem nodeRemove (n : Nat) : ((t.put d w).remove c inode).node n =
    if n = c then none else if n = d then some w else t.node n := by
  unfold Tree.remove Tree.put
  simp only [Function.update_apply]

theorem Creates.apart (creates : Creates t d c v w inode tar) : d ≠ c := by
  intro same
  have found := (dirAtNode creates.here).1
  rw [same,creates.fresh] at found
  contradiction

theorem Creates.notRoot (creates : Creates t d c v w inode tar) (ok : DirsOk t) : c ≠ rootIno := by
  intro same
  obtain ⟨root,found⟩ := ok.root
  have here := (dirAtNode found).1
  rw [← same,creates.fresh] at here
  contradiction

theorem Creates.names (creates : Creates t d c v w inode tar) (high : 2 ≤ i) (e n : Nat) :
    ((t.put d w).link d c inode).Names e i n ↔ (e = d ∧ i = tar ∧ n = c) ∨ t.Names e i n :=
  namesLink creates.here creates.fresh creates.isDir creates.linked creates.bare high e n

theorem dirsLink (ok : DirsOk t) (creates : Creates t d c v w inode tar) : DirsOk ((t.put d w).link d c inode) where
  root := by
    obtain ⟨root,found⟩ := ok.root
    rw [dirAtLink creates.apart creates.isDir,if_neg (creates.notRoot ok).symm]
    split
    · exact ⟨w,rfl⟩
    · exact ⟨root,found⟩
  dirs e u found := by
    rw [dirAtLink creates.apart creates.isDir] at found
    split at found
    · rename_i same
      split at found
      · rename_i kind
        cases found
        exact same ▸ creates.inner kind
      · contradiction
    · split at found
      · rename_i same
        cases found
        exact same ▸ creates.ok
      · exact ok.dirs e u found
  below e i high names := by
    rcases (creates.names high e rootIno).mp names with ⟨_,_,same⟩ | old
    · exact creates.notRoot ok same.symm
    · exact ok.below e i high old

theorem shapeLink (shape : TreeShape t) (creates : Creates t d c v w inode tar) : TreeShape ((t.put d w).link d c inode) where
  ok := dirsLink shape.ok creates
  named e i n high names := by
    rw [nodeLink]
    rcases (creates.names high e n).mp names with ⟨home,_,new⟩ | old
    · rw [if_pos new,home,new]
      exact ⟨rfl,Function.update_self ..⟩
    · obtain ⟨some_,parent⟩ := shape.named e i n high old
      have other : n ≠ c := by
        intro same
        rw [same,creates.fresh] at some_
        contradiction
      rw [if_neg other]
      refine ⟨?_,(Function.update_of_ne other ..).trans parent⟩
      split
      · rfl
      · exact some_
  once e i j n high top first second := by
    have absent : ∀ i, 2 ≤ i → ¬t.Names e i c := by
      intro i high names
      have some_ := (shape.named e i c high names).1
      rw [creates.fresh] at some_
      contradiction
    rcases (creates.names high e n).mp first with ⟨_,left,new⟩ | old
    · rcases (creates.names top e n).mp second with ⟨_,right,_⟩ | stale
      · rw [left,right]
      · exact absurd (new ▸ stale) (absent j top)
    · rcases (creates.names top e n).mp second with ⟨_,_,new⟩ | stale
      · exact absurd (new ▸ old) (absent i high)
      · exact shape.once e i j n high top old stale
  placed n u found other := by
    rw [nodeLink] at found
    by_cases new : n = c
    · refine ⟨tar,creates.linked.high,(creates.names creates.linked.high _ _).mpr (.inl ⟨?_,rfl,new⟩)⟩
      rw [new]
      exact Function.update_self ..
    · have parent : ((t.put d w).link d c inode).parent n = t.parent n := Function.update_of_ne new ..
      have before : ∃ u, t.node n = some u := by
        rw [if_neg new] at found
        split at found
        · rename_i same
          exact ⟨v,same ▸ (dirAtNode creates.here).1⟩
        · exact ⟨u,found⟩
      obtain ⟨u,was⟩ := before
      obtain ⟨i,high,names⟩ := shape.placed n u was other
      rw [parent]
      exact ⟨i,high,(creates.names high _ _).mpr (.inr names)⟩

theorem Deletes.names {u : Vnode} (deletes : Deletes t d c v w u tar) (high : 2 ≤ i) (e n : Nat) :
    ((t.put d w).remove c inode).Names e i n ↔ ¬(e = d ∧ i = tar) ∧ t.Names e i n := by
  refine namesRemove deletes.here deletes.isDir deletes.unlinked (fun x found => ?_) high e n
  obtain ⟨node,kind⟩ := dirAtNode found
  rw [deletes.was] at node
  cases node
  exact deletes.bare kind

theorem Deletes.named {u : Vnode} (deletes : Deletes t d c v w u tar) : t.Names d tar c :=
  ⟨v,deletes.here,deletes.unlinked.was,deletes.value⟩

/- A directory that is removed has no entries, so it is not its own parent. -/
theorem Deletes.apart {u : Vnode} (deletes : Deletes t d c v w u tar) : d ≠ c := by
  intro same
  obtain ⟨node,kind⟩ := dirAtNode deletes.here
  rw [same,deletes.was] at node
  cases node
  exact deletes.bare kind tar deletes.unlinked.high deletes.unlinked.was

theorem dirsRemove (ok : DirsOk t) {u : Vnode} (deletes : Deletes t d c v w u tar) : DirsOk ((t.put d w).remove c inode) where
  root := by
    obtain ⟨root,found⟩ := ok.root
    have other : rootIno ≠ c := fun same => ok.below d tar deletes.unlinked.high (same ▸ deletes.named)
    rw [dirAtRemove deletes.isDir,if_neg other]
    split
    · exact ⟨w,rfl⟩
    · exact ⟨root,found⟩
  dirs e x found := by
    rw [dirAtRemove deletes.isDir] at found
    split at found
    · contradiction
    · split at found
      · rename_i same
        cases found
        exact same ▸ deletes.ok
      · exact ok.dirs e x found
  below e i high names := ok.below e i high ((deletes.names high e rootIno).mp names).2

theorem shapeRemove (shape : TreeShape t) {u : Vnode} (deletes : Deletes t d c v w u tar) : TreeShape ((t.put d w).remove c inode) where
  ok := dirsRemove shape.ok deletes
  named e i n high names := by
    obtain ⟨other,old⟩ := (deletes.names high e n).mp names
    obtain ⟨some_,parent⟩ := shape.named e i n high old
    have lives : n ≠ c := by
      intro same
      subst same
      have home : e = d := parent.symm.trans (shape.named d tar n deletes.unlinked.high deletes.named).2
      subst home
      exact other ⟨rfl,shape.once e i tar n high deletes.unlinked.high old deletes.named⟩
    rw [nodeRemove,if_neg lives]
    refine ⟨?_,parent⟩
    split
    · rfl
    · exact some_
  once e i j n high top first second :=
    shape.once e i j n high top ((deletes.names high e n).mp first).2 ((deletes.names top e n).mp second).2
  placed n x found other := by
    rw [nodeRemove] at found
    split at found
    · contradiction
    · rename_i lives
      have before : ∃ x, t.node n = some x := by
        split at found
        · rename_i same
          exact ⟨v,same ▸ (dirAtNode deletes.here).1⟩
        · exact ⟨x,found⟩
      obtain ⟨x,was⟩ := before
      obtain ⟨i,high,names⟩ := shape.placed n x was other
      refine ⟨i,high,(deletes.names high _ _).mpr ⟨?_,names⟩⟩
      rintro ⟨home,target⟩
      subst target
      obtain ⟨y,found,_,value⟩ := names
      rw [show t.parent n = d from home,deletes.here] at found
      cases found
      exact lives (value.symm.trans deletes.value)

end

/- The pages of a directory with no place for one more entry stay as they are. -/
structure Overruns (t : Tree) (d c : Nat) (v w inode : Vnode) : Prop where
  here : t.dirAt d = some v
  fresh : t.node c = none
  isDir : w.isDir = true
  ok : DirOk d w.dir
  count : w.dir.npages = v.dir.npages
  pages : ∀ i < v.dir.npages, w.dir.page i = v.dir.page i
  inner : inode.isDir = true → DirOk c inode.dir
  bare : inode.isDir = true → ∀ i, 2 ≤ i → ¬inode.dir.Live i

section
variable {t : Tree} {d c i : Nat} {v w inode : Vnode}

theorem Overruns.apart (overruns : Overruns t d c v w inode) : d ≠ c := by
  intro same
  have found := (dirAtNode overruns.here).1
  rw [same,overruns.fresh] at found
  contradiction

theorem Overruns.names (overruns : Overruns t d c v w inode) (high : 2 ≤ i) (e n : Nat) :
    ((t.put d w).link d c inode).Names e i n ↔ t.Names e i n := by
  have apart := overruns.apart
  have absent : t.dirAt c = none := by rw [Tree.dirAt,overruns.fresh]; rfl
  unfold Tree.Names
  rw [dirAtLink apart overruns.isDir]
  by_cases new : e = c
  · rw [if_pos new,new,absent]
    constructor
    · intro ⟨u,same,live,_⟩
      split at same
      · rename_i kind
        cases same
        exact absurd live (overruns.bare kind i high)
      · contradiction
    · intro ⟨u,bad,_⟩
      contradiction
  · rw [if_neg new]
    by_cases home : e = d
    · rw [if_pos home,home,overruns.here]
      have live : w.dir.Live i ∧ entryIno (w.dir.page i) = n ↔ v.dir.Live i ∧ entryIno (v.dir.page i) = n := by
        unfold Dir.Live
        rw [overruns.count]
        constructor
        · intro ⟨⟨inside,taken⟩,value⟩
          rw [overruns.pages i inside] at taken value
          exact ⟨⟨inside,taken⟩,value⟩
        · intro ⟨⟨inside,taken⟩,value⟩
          rw [overruns.pages i inside]
          exact ⟨⟨inside,taken⟩,value⟩
      constructor
      · intro ⟨u,same,rest⟩
        cases same
        exact ⟨v,rfl,live.mp rest⟩
      · intro ⟨u,same,rest⟩
        cases same
        exact ⟨w,rfl,live.mpr rest⟩
    · rw [if_neg home]

theorem dirsOverrun (ok : DirsOk t) (overruns : Overruns t d c v w inode) : DirsOk ((t.put d w).link d c inode) := by
  have apart := overruns.apart
  refine ⟨?_,fun e u found => ?_,fun e i high names => ok.below e i high ((overruns.names high e rootIno).mp names)⟩
  · obtain ⟨root,found⟩ := ok.root
    have other : rootIno ≠ c := by
      intro same
      have here := (dirAtNode found).1
      rw [same,overruns.fresh] at here
      contradiction
    rw [dirAtLink apart overruns.isDir,if_neg other]
    split
    · exact ⟨w,rfl⟩
    · exact ⟨root,found⟩
  · rw [dirAtLink apart overruns.isDir] at found
    split at found
    · rename_i same
      split at found
      · rename_i kind
        cases found
        exact same ▸ overruns.inner kind
      · contradiction
    · split at found
      · rename_i same
        cases found
        exact same ▸ overruns.ok
      · exact ok.dirs e u found

/- A create writes the parent and adds the inode, whatever becomes of the entry. -/
theorem created (ok : DirsOk t) {name : Name} {ino : Ino} {inode : Vnode} (here : t.dirAt d = some v) (short : name.bytes.length ≤ 255)
    (absent : xcpfsInodeByName v.dir name.bytes = 0) (fresh : t.node ino.val = none) (links : Int)
    (inner : inode.isDir = true → inode.dir = xcpfsInitDir ino.val) :
    ∃ next, xcpfsAddLink v.dir name.bytes ino.val = (next,.ok ()) ∧
      ((HasRoom v.dir ∧ ∃ tar, Creates t d ino.val v ⟨true,next,links⟩ inode tar) ∨
        ¬HasRoom v.dir ∧ Overruns t d ino.val v ⟨true,next,links⟩ inode) := by
  obtain ⟨next,ran,after,place⟩ := addLinkSpec (ok.dirs d v here) ino short absent
  have dir : inode.isDir = true → DirOk ino.val inode.dir := fun kind => inner kind ▸ dirOkNew ino
  have bare : inode.isDir = true → ∀ i, 2 ≤ i → ¬inode.dir.Live i := by
    intro kind i high live
    have count := (initDirPages ino.val).2.1
    have inside := live.1
    rw [inner kind] at inside
    omega
  refine ⟨next,ran,?_⟩
  rcases place with ⟨room,tar,linked⟩ | ⟨full,count,pages⟩
  · exact .inl ⟨room,tar,here,fresh,rfl,after,linked,dir,bare⟩
  · exact .inr ⟨full,here,fresh,rfl,after,count,pages,dir,bare⟩

/- What each operation leaves. -/
inductive Effect (t : Tree) : TreeOp → Tree → Prop where
  | mknod {d name ino v w tar} (here : t.dirAt d = some v) (room : HasRoom v.dir) (links : w.nlink = v.nlink)
      (creates : Creates t d ino.val v w newFile tar) : Effect t (.mknod d name ino) ((t.put d w).link d ino.val newFile)
  | mknodOver {d name ino v w} (here : t.dirAt d = some v) (full : ¬HasRoom v.dir) (overruns : Overruns t d ino.val v w newFile) :
      Effect t (.mknod d name ino) ((t.put d w).link d ino.val newFile)
  | mkdir {d name ino v w inode tar} (here : t.dirAt d = some v) (room : HasRoom v.dir) (links : w.nlink = v.nlink + 1)
      (kind : inode.isDir = true) (two : inode.nlink = 2) (creates : Creates t d ino.val v w inode tar) :
      Effect t (.mkdir d name ino) ((t.put d w).link d ino.val inode)
  | mkdirOver {d name ino v w inode} (here : t.dirAt d = some v) (full : ¬HasRoom v.dir) (links : w.nlink = v.nlink + 1)
      (kind : inode.isDir = true) (overruns : Overruns t d ino.val v w inode) :
      Effect t (.mkdir d name ino) ((t.put d w).link d ino.val inode)
  | unlink {d name v w u c tar} (links : w.nlink = v.nlink) (kind : u.isDir = false) (deletes : Deletes t d c v w u tar) :
      Effect t (.unlink d name) ((t.put d w).remove c { u with nlink := u.nlink - 1 })
  | rmdir {d name v w u c tar} (links : w.nlink = v.nlink - 1) (kind : u.isDir = true) (deletes : Deletes t d c v w u tar) :
      Effect t (.rmdir d name) ((t.put d w).remove c { u with nlink := u.nlink - 1 - 1 })
  | refused {d name} : Effect t (.rmdir d name) t

theorem createCases {name : Name} {ino : Ino} {next : Tree}
    {call : Tree → Nat → Vnode → List UInt8 → Nat → Tree × Except Errno Unit} (ran : t.create d name ino call = some next) :
    ∃ v, t.dirAt d = some v ∧ name.bytes.length ≤ 255 ∧ xcpfsInodeByName v.dir name.bytes = 0 ∧ t.node ino.val = none ∧
      (call t d v name.bytes ino.val).1 = next := by
  unfold Tree.create at ran
  split at ran
  · contradiction
  · rename_i v here
    split at ran
    · rename_i guard
      exact ⟨v,here,guard.1,guard.2.1,Option.isNone_iff_eq_none.mp guard.2.2,Option.some.inj ran⟩
    · contradiction

theorem deleteCases {name : Name} {isDir : Bool} {next : Tree}
    {call : Tree → Nat → Vnode → List UInt8 → Nat → Vnode → Tree × Except Errno Unit} (ran : t.delete d name isDir call = some next) :
    ∃ v u, t.dirAt d = some v ∧ t.node (xcpfsInodeByName v.dir name.bytes) = some u ∧ xcpfsInodeByName v.dir name.bytes ≠ 0 ∧
      u.isDir = isDir ∧ (call t d v name.bytes (xcpfsInodeByName v.dir name.bytes) u).1 = next := by
  unfold Tree.delete at ran
  split at ran
  · contradiction
  · rename_i v here
    dsimp only at ran
    split at ran
    · contradiction
    · rename_i u found
      split at ran
      · rename_i guard
        exact ⟨v,u,here,found,guard.2.1,guard.2.2,Option.some.inj ran⟩
      · contradiction

theorem deleted (ok : DirsOk t) {name : Name} {u : Vnode} (here : t.dirAt d = some v)
    (found : t.node (xcpfsInodeByName v.dir name.bytes) = some u) (present : xcpfsInodeByName v.dir name.bytes ≠ 0)
    (bare : u.isDir = true → ∀ i, 2 ≤ i → ¬u.dir.Live i) (links : Int) :
    ∃ next tar, xcpfsUnlink v.dir name.bytes = (next,.ok ()) ∧
      Deletes t d (xcpfsInodeByName v.dir name.bytes) v ⟨true,next,links⟩ u tar := by
  obtain ⟨tar,next,ran,after,unlinked,value⟩ := unlinkSpec (ok.dirs d v here) present
  exact ⟨next,tar,ran,here,found,rfl,after,unlinked,value,bare⟩

theorem treeEffect (ok : DirsOk t) {op : TreeOp} {next : Tree} (ran : treeStep t op = some next) : Effect t op next := by
  cases op with
  | mknod d name ino =>
    obtain ⟨v,here,short,absent,fresh,same⟩ := createCases ran
    obtain ⟨pages,added,place⟩ := @created t d v ok name ino newFile here short absent fresh v.nlink (fun bad => by contradiction)
    unfold xcpfsMknod at same
    rw [added] at same
    dsimp only at same
    rw [(dirAtNode here).2] at same
    rw [← same]
    rcases place with ⟨room,tar,creates⟩ | ⟨full,overruns⟩
    · exact .mknod here room rfl creates
    · exact .mknodOver here full overruns
  | mkdir d name ino =>
    obtain ⟨v,here,short,absent,fresh,same⟩ := createCases ran
    obtain ⟨pages,added,place⟩ := @created t d v ok name ino ⟨true,xcpfsInitDir ino.val,newFile.nlink + 1⟩ here short absent fresh
      (v.nlink + 1) (fun _ => rfl)
    unfold xcpfsMkdir at same
    dsimp only at same
    rw [added] at same
    dsimp only at same
    rw [(dirAtNode here).2] at same
    rw [← same]
    rcases place with ⟨room,tar,creates⟩ | ⟨full,overruns⟩
    · exact .mkdir here room rfl rfl rfl creates
    · exact .mkdirOver here full rfl rfl overruns
  | unlink d name =>
    obtain ⟨v,u,here,found,present,kind,same⟩ := deleteCases ran
    obtain ⟨pages,tar,cleared,deletes⟩ := @deleted t d v ok name u here found present
      (fun bad => by rw [kind] at bad; contradiction) v.nlink
    unfold unlinkNode at same
    rw [cleared] at same
    dsimp only at same
    rw [(dirAtNode here).2] at same
    rw [← same]
    exact .unlink (v := v) rfl kind deletes
  | rmdir d name =>
    obtain ⟨v,u,here,found,present,kind,same⟩ := deleteCases ran
    have child := ok.dirs _ u (by rw [Tree.dirAt,found]; simp [kind])
    unfold rmdirNode at same
    cases bare : xcpfsEmptyDir u.dir with
    | false =>
      rw [bare,if_pos rfl] at same
      rw [← same]
      exact .refused
    | true =>
      obtain ⟨pages,tar,cleared,deletes⟩ := @deleted t d v ok name u here found present
        (fun _ => (emptyDirIff child.two).mp bare) (v.nlink - 1)
      rw [bare,if_neg (by decide),cleared] at same
      dsimp only at same
      rw [(dirAtNode here).2] at same
      rw [← same]
      exact .rmdir rfl kind deletes

theorem dirsEffect (ok : DirsOk t) {op : TreeOp} {next : Tree} (effect : Effect t op next) : DirsOk next := by
  cases effect with
  | mknod here room links creates => exact dirsLink ok creates
  | mknodOver here full overruns => exact dirsOverrun ok overruns
  | mkdir here room links kind two creates => exact dirsLink ok creates
  | mkdirOver here full links kind overruns => exact dirsOverrun ok overruns
  | unlink links kind deletes => exact dirsRemove ok deletes
  | rmdir links kind deletes => exact dirsRemove ok deletes
  | refused => exact ok

theorem mkfsNode (n : Nat) : mkfsTree.node n = if n = rootIno then some mkfsRoot else none := by
  unfold mkfsTree
  simp only [Function.update_apply]

theorem mkfsDirAt (d : Nat) : mkfsTree.dirAt d = if d = rootIno then some mkfsRoot else none := by
  unfold Tree.dirAt
  rw [mkfsNode]
  split
  · rfl
  · rfl

theorem mkfsNames {i : Nat} (high : 2 ≤ i) (d n : Nat) : ¬mkfsTree.Names d i n := by
  intro ⟨v,found,live,_⟩
  rw [mkfsDirAt] at found
  split at found
  · cases found
    have count : mkfsRoot.dir.npages = 2 := (initDirPages rootIno).2.1
    have inside := live.1
    omega
  · contradiction

theorem mkfsDirsOk : DirsOk mkfsTree where
  root := ⟨mkfsRoot,by rw [mkfsDirAt,if_pos rfl]⟩
  dirs d v found := by
    rw [mkfsDirAt] at found
    split at found
    · rename_i root
      cases found
      rw [root]
      exact dirOkNew ⟨rootIno,by decide,by decide⟩
    · contradiction
  below d i high := mkfsNames high d rootIno

end
end Xcpfs
