import Xcpfs.DirTree

/-! Link counts over the directory tree. `i_nlink` of a directory counts its
subdirectories, that of a file the entries that name it. -/
namespace Xcpfs

open EventRun

def Tree.subdirectories (t : Tree) (d : Nat) : Set Nat := {c | (t.dirAt c).isSome ∧ ∃ i, 2 ≤ i ∧ t.Names d i c}

def Tree.entries (t : Tree) (f : Nat) : Set (Nat × Nat) := {place | t.Names place.1 place.2 f}

structure LinkLaw (t : Tree) : Prop where
  dirs : ∀ d v, t.dirAt d = some v → v.nlink = 2 + (t.subdirectories d).ncard
  files : ∀ f v, t.node f = some v → v.isDir = false → v.nlink = (t.entries f).ncard
  removed : ∀ v ∈ t.removed, v.nlink = 0
  rmdir : ∀ d v (name : Name) w, t.dirAt d = some v → t.dirAt (xcpfsInodeByName v.dir name.bytes) = some w →
    ((rmdirNode t d v name.bytes (xcpfsInodeByName v.dir name.bytes) w).2 = .ok () ↔ ∀ i, 2 ≤ i → ¬w.dir.Live i)

/- A create finds a free slot or may append a page. -/
def TreeFits (t : Tree) : TreeOp → Prop
  | .mknod d _ _ | .mkdir d _ _ => ∀ v, t.dirAt d = some v → HasRoom v.dir
  | _ => True

/- The link counts of a tree in order. -/
structure TreeOk (t : Tree) : Prop where
  shape : TreeShape t
  dirs : ∀ d v, t.dirAt d = some v → v.nlink = 2 + (t.subdirectories d).ncard
  files : ∀ f v, t.node f = some v → v.isDir = false → v.nlink = 1
  removed : ∀ v ∈ t.removed, v.nlink = 0

section
variable {t : Tree} {d c n i tar : Nat} {v w u inode : Vnode}

theorem subdirectoriesFinite (here : t.dirAt d = some v) : (t.subdirectories d).Finite := by
  refine ((Finset.range v.dir.npages).image fun i => entryIno (v.dir.page i)).finite_toSet.subset fun c member => ?_
  obtain ⟨_,i,_,u,found,live,value⟩ := member
  rw [here] at found
  cases found
  exact Finset.mem_image.mpr ⟨i,Finset.mem_range.mpr live.1,value⟩

theorem dirAtNone (absent : t.node c = none) : t.dirAt c = none := by rw [Tree.dirAt,absent]; rfl

theorem subsLink (shape : TreeShape t) (creates : Creates t d c v w inode tar) (e n : Nat) :
    n ∈ ((t.put d w).link d c inode).subdirectories e ↔ (e = d ∧ n = c ∧ inode.isDir = true) ∨ n ∈ t.subdirectories e := by
  have absent : ∀ e i, 2 ≤ i → ¬t.Names e i c := by
    intro e i high names
    have some_ := (shape.named e i c high names).1
    rw [creates.fresh] at some_
    contradiction
  have at_ : ((t.put d w).link d c inode).dirAt n = _ := dirAtLink creates.apart creates.isDir n
  constructor
  · intro ⟨isSome,i,high,names⟩
    rcases (creates.names high e n).mp names with ⟨home,_,new⟩ | old
    · refine .inl ⟨home,new,?_⟩
      rw [at_,if_pos new] at isSome
      split at isSome
      · assumption
      · contradiction
    · refine .inr ⟨?_,i,high,old⟩
      have other : n ≠ c := fun same => absent e i high (same ▸ old)
      rw [at_,if_neg other] at isSome
      split at isSome
      · rename_i same
        rw [same,creates.here]
        rfl
      · exact isSome
  · rintro (⟨home,new,kind⟩ | ⟨isSome,i,high,old⟩)
    · refine ⟨?_,tar,creates.linked.high,(creates.names creates.linked.high e n).mpr (.inl ⟨home,rfl,new⟩)⟩
      rw [at_,if_pos new,if_pos kind]
      rfl
    · refine ⟨?_,i,high,(creates.names high e n).mpr (.inr old)⟩
      have other : n ≠ c := fun same => absent e i high (same ▸ old)
      rw [at_,if_neg other]
      split
      · rfl
      · exact isSome

theorem subsRemove (deletes : Deletes t d c v w u tar) (e n : Nat) :
    n ∈ ((t.put d w).remove c inode).subdirectories e ↔ n ≠ c ∧ n ∈ t.subdirectories e := by
  have at_ : ((t.put d w).remove c inode).dirAt n = _ := dirAtRemove deletes.isDir n
  constructor
  · intro ⟨isSome,i,high,names⟩
    have old := ((deletes.names high e n).mp names).2
    have other : n ≠ c := by
      intro same
      rw [at_,if_pos same] at isSome
      contradiction
    refine ⟨other,?_,i,high,old⟩
    rw [at_,if_neg other] at isSome
    split at isSome
    · rename_i same
      rw [same,deletes.here]
      rfl
    · exact isSome
  · intro ⟨other,isSome,i,high,old⟩
    refine ⟨?_,i,high,(deletes.names high e n).mpr ⟨?_,old⟩⟩
    · rw [at_,if_neg other]
      split
      · rfl
      · exact isSome
    · rintro ⟨home,target⟩
      obtain ⟨x,found,_,value⟩ := old
      rw [home,deletes.here] at found
      cases found
      rw [target] at value
      exact other (value.symm.trans deletes.value)

theorem treeOkLink (ok : TreeOk t) (creates : Creates t d c v w inode tar)
    (parent : w.nlink = v.nlink + if inode.isDir then 1 else 0) (links : inode.nlink = if inode.isDir then 2 else 1) :
    TreeOk ((t.put d w).link d c inode) where
  shape := shapeLink ok.shape creates
  dirs e x found := by
    have member := subsLink ok.shape creates e
    rw [dirAtLink creates.apart creates.isDir] at found
    split at found
    · rename_i new
      split at found
      · rename_i kind
        cases found
        have none_ : ((t.put d w).link d c inode).subdirectories e = ∅ := by
          refine Set.eq_empty_iff_forall_notMem.mpr fun n inside => ?_
          rcases (member n).mp inside with ⟨home,_⟩ | ⟨_,i,_,y,bad,_⟩
          · exact creates.apart (home.symm.trans new)
          · rw [new,dirAtNone creates.fresh] at bad
            contradiction
        rw [none_,Set.ncard_empty,links,if_pos kind]
        rfl
      · contradiction
    · split at found
      · rename_i new home
        cases found
        have before := ok.dirs d v creates.here
        cases kind : inode.isDir with
        | true =>
          have grown : ((t.put d w).link d c inode).subdirectories e = insert c (t.subdirectories d) := by
            refine Set.ext fun n => (member n).trans ?_
            rw [Set.mem_insert_iff,kind,home]
            simp
          have outside : c ∉ t.subdirectories d := by
            intro ⟨isSome,_⟩
            rw [dirAtNone creates.fresh] at isSome
            contradiction
          rw [grown,Set.ncard_insert_of_notMem outside (subdirectoriesFinite creates.here),parent,before,kind,if_pos rfl]
          omega
        | false =>
          have same : ((t.put d w).link d c inode).subdirectories e = t.subdirectories d := by
            refine Set.ext fun n => (member n).trans ?_
            rw [kind,home]
            simp
          rw [same,parent,before,kind]
          simp
      · rename_i new home
        have same : ((t.put d w).link d c inode).subdirectories e = t.subdirectories e := by
          refine Set.ext fun n => (member n).trans ?_
          simp [home]
        rw [same]
        exact ok.dirs e x found
  files f x found kind := by
    rw [nodeLink] at found
    split at found
    · cases found
      rw [links,kind]
      rfl
    · split at found
      · cases found
        rw [creates.isDir] at kind
        contradiction
      · exact ok.files f x found kind
  removed := ok.removed

theorem treeOkRemove (ok : TreeOk t) (deletes : Deletes t d c v w u tar)
    (parent : w.nlink = v.nlink - if u.isDir then 1 else 0) (links : inode.nlink = 0) :
    TreeOk ((t.put d w).remove c inode) where
  shape := shapeRemove ok.shape deletes
  dirs e x found := by
    have member : ∀ n, n ∈ ((t.put d w).remove c inode).subdirectories e ↔ _ := subsRemove deletes e
    have home := (ok.shape.named d tar c deletes.unlinked.high deletes.named).2
    have unchanged : c ∉ t.subdirectories e → ((t.put d w).remove c inode).subdirectories e = t.subdirectories e := by
      intro outside
      refine Set.ext fun n => (member n).trans ⟨And.right,fun inside => ⟨fun same => outside (same ▸ inside),inside⟩⟩
    rw [dirAtRemove deletes.isDir] at found
    split at found
    · contradiction
    · split at found
      · rename_i new here
        cases found
        have before := ok.dirs d v deletes.here
        cases kind : u.isDir with
        | true =>
          have inside : c ∈ t.subdirectories e := by
            refine ⟨?_,tar,deletes.unlinked.high,here ▸ deletes.named⟩
            rw [Tree.dirAt,deletes.was]
            simp [kind]
          have shrunk : ((t.put d w).remove c inode).subdirectories e = t.subdirectories e \ {c} := by
            refine Set.ext fun n => (member n).trans ?_
            rw [Set.mem_sdiff,Set.mem_singleton_iff]
            exact and_comm
          have count := Set.ncard_sdiff_singleton_add_one inside (subdirectoriesFinite (here ▸ deletes.here))
          rw [shrunk,parent,before,kind,if_pos rfl,← here]
          omega
        | false =>
          have outside : c ∉ t.subdirectories e := by
            intro listed
            have isSome := listed.1
            rw [Tree.dirAt,deletes.was] at isSome
            simp [kind] at isSome
          rw [unchanged outside,parent,before,kind,here]
          simp
      · rename_i new other
        have outside : c ∉ t.subdirectories e := by
          intro listed
          obtain ⟨_,i,high,names⟩ := listed
          exact other ((ok.shape.named e i c high names).2.symm.trans home)
        rw [unchanged outside]
        exact ok.dirs e x found
  files f x found kind := by
    rw [nodeRemove] at found
    split at found
    · contradiction
    · split at found
      · cases found
        rw [deletes.isDir] at kind
        contradiction
      · exact ok.files f x found kind
  removed := List.forall_mem_cons.mpr ⟨links,ok.removed⟩

theorem entriesOne (shape : TreeShape t) (here : t.node c = some v) (file : v.isDir = false) : (t.entries c).ncard = 1 := by
  have notRoot : c ≠ rootIno := by
    intro same
    obtain ⟨root,found⟩ := shape.ok.root
    obtain ⟨node,kind⟩ := dirAtNode found
    rw [← same,here] at node
    cases node
    rw [file] at kind
    contradiction
  obtain ⟨i,high,names⟩ := shape.placed c v here notRoot
  have only : t.entries c = {(t.parent c,i)} := by
    refine Set.eq_singleton_iff_unique_mem.mpr ⟨names,fun ⟨e,j⟩ other => ?_⟩
    change t.Names e j c at other
    have top : 2 ≤ j := by
      by_contra low
      obtain ⟨x,found,_,value⟩ := other
      have same := (dotLive (shape.ok.dirs e x found) (Nat.not_le.mp low)).2
      obtain ⟨node,kind⟩ := dirAtNode found
      rw [← same,value,here] at node
      cases node
      rw [file] at kind
      contradiction
    have home := (shape.named e j c top other).2
    subst home
    rw [shape.once _ j i c top high other names]
  rw [only,Set.ncard_singleton]

theorem linkLaw (ok : TreeOk t) : LinkLaw t where
  dirs := ok.dirs
  files f v here file := by
    rw [entriesOne ok.shape here file,ok.files f v here file]
    rfl
  removed := ok.removed
  rmdir d v name w here found := by
    have child := ok.shape.ok.dirs _ w found
    unfold rmdirNode
    cases bare : xcpfsEmptyDir w.dir with
    | false =>
      rw [if_pos rfl,← emptyDirIff child.two,bare]
      exact iff_of_false (fun bad => by contradiction) Bool.false_ne_true
    | true =>
      obtain ⟨i,next,ran,_⟩ := unlinkSpec (ok.shape.ok.dirs d v here) (Nat.ne_of_gt child.positive)
      rw [if_neg (by decide),ran]
      exact iff_of_true rfl ((emptyDirIff child.two).mp bare)

theorem treeKeeps (ok : TreeOk t) {op : TreeOp} {next : Tree} (ran : treeStep t op = some next) (fits : TreeFits t op) :
    TreeOk next := by
  cases treeEffect ok.shape.ok ran with
  | mknod here room links creates => exact treeOkLink ok creates (links.trans (Int.add_zero _).symm) rfl
  | mknodOver here full overruns => exact absurd (fits _ here) full
  | mkdir here room links kind two creates =>
    exact treeOkLink ok creates (by rw [kind]; exact links) (by rw [kind]; exact two)
  | mkdirOver here full links kind overruns => exact absurd (fits _ here) full
  | unlink links kind deletes =>
    refine treeOkRemove ok deletes (by rw [kind]; exact links.trans (Int.sub_zero _).symm) ?_
    dsimp only
    rw [ok.files _ _ deletes.was kind]
    rfl
  | rmdir links kind deletes =>
    refine treeOkRemove ok deletes (by rw [kind]; exact links) ?_
    rename_i d name v w u c tar
    have here : t.dirAt c = some u := by
      rw [Tree.dirAt,deletes.was]
      simp [kind]
    have none_ : t.subdirectories c = ∅ := by
      refine Set.eq_empty_iff_forall_notMem.mpr fun n listed => ?_
      obtain ⟨_,i,high,x,found,live,_⟩ := listed
      rw [here] at found
      cases found
      exact deletes.bare kind i high live
    have two := ok.dirs c u here
    rw [none_,Set.ncard_empty] at two
    dsimp only
    rw [two]
    rfl
  | refused => exact ok

theorem overrunUnnamed (ok : TreeOk t) (overruns : Overruns t d c v w inode) (i e : Nat) (high : 2 ≤ i) :
    ¬((t.put d w).link d c inode).Names e i c := by
  intro names
  have some_ := (ok.shape.named e i c high ((overruns.names high e c).mp names)).1
  rw [overruns.fresh] at some_
  contradiction

theorem treeFails (ok : TreeOk t) {op : TreeOp} {next : Tree} (ran : treeStep t op = some next) (overflows : ¬TreeFits t op) :
    ¬LinkLaw next := by
  intro law
  cases treeEffect ok.shape.ok ran with
  | mknod here room links creates =>
    refine overflows fun x found => ?_
    rw [here] at found
    cases found
    exact room
  | @mknodOver d name ino v w here full overruns =>
    have node : ((t.put d w).link d ino.val newFile).node ino.val = some newFile := by rw [nodeLink,if_pos rfl]
    have one := law.files ino.val newFile node rfl
    have none_ : ((t.put d w).link d ino.val newFile).entries ino.val = ∅ := by
      refine Set.eq_empty_iff_forall_notMem.mpr fun ⟨e,i⟩ names => ?_
      change ((t.put d w).link d ino.val newFile).Names e i ino.val at names
      by_cases high : 2 ≤ i
      · exact overrunUnnamed ok overruns i e high names
      · obtain ⟨x,found,_,value⟩ := names
        have own := (dotLive ((dirsOverrun ok.shape.ok overruns).dirs e x found) (Nat.not_le.mp high)).2
        obtain ⟨here,kind⟩ := dirAtNode found
        rw [← own,value,node] at here
        cases here
        contradiction
    rw [none_,Set.ncard_empty] at one
    contradiction
  | mkdir here room links kind two creates =>
    refine overflows fun x found => ?_
    rw [here] at found
    cases found
    exact room
  | @mkdirOver d name ino v w inode here full links kind overruns =>
    have apart := overruns.apart
    have found : ((t.put d w).link d ino.val inode).dirAt d = some w := by
      rw [dirAtLink apart overruns.isDir,if_neg apart,if_pos rfl]
    have counted := law.dirs d w found
    have same : ((t.put d w).link d ino.val inode).subdirectories d = t.subdirectories d := by
      refine Set.ext fun n => ?_
      have at_ : ((t.put d w).link d ino.val inode).dirAt n = _ := dirAtLink apart overruns.isDir n
      constructor
      · intro ⟨isSome,i,high,names⟩
        have other : n ≠ ino.val := fun same => overrunUnnamed ok overruns i d high (same ▸ names)
        refine ⟨?_,i,high,(overruns.names high d n).mp names⟩
        rw [at_,if_neg other] at isSome
        split at isSome
        · rename_i same
          rw [same,here]
          rfl
        · exact isSome
      · intro ⟨isSome,i,high,names⟩
        have other : n ≠ ino.val := fun same =>
          overrunUnnamed ok overruns i d high (same ▸ (overruns.names high d n).mpr names)
        refine ⟨?_,i,high,(overruns.names high d n).mpr names⟩
        rw [at_,if_neg other]
        split
        · rfl
        · exact isSome
    rw [same,links,ok.dirs d v here] at counted
    omega
  | unlink links kind deletes => exact overflows trivial
  | rmdir links kind deletes => exact overflows trivial
  | refused => exact overflows trivial

theorem mkfsTreeOk : TreeOk mkfsTree where
  shape := by
    refine ⟨mkfsDirsOk,fun d i c high names => absurd names (mkfsNames high d c),
      fun d i j c high _ names _ => absurd names (mkfsNames high d c),fun c v found other => ?_⟩
    have absent : mkfsTree.node c = none := by rw [mkfsNode,if_neg other]
    rw [absent] at found
    contradiction
  dirs d v found := by
    rw [mkfsDirAt] at found
    split at found
    · cases found
      have none_ : mkfsTree.subdirectories d = ∅ :=
        Set.eq_empty_iff_forall_notMem.mpr fun n ⟨_,i,high,names⟩ => mkfsNames high d n names
      rw [none_,Set.ncard_empty]
      rfl
    · contradiction
  files f v found kind := by
    have file : f ≠ rootIno := by
      intro root
      have here : mkfsTree.node f = some mkfsRoot := by rw [mkfsNode,if_pos root]
      rw [here] at found
      cases found
      contradiction
    have absent : mkfsTree.node f = none := by rw [mkfsNode,if_neg file]
    rw [absent] at found
    contradiction
  removed _ bad := absurd bad List.not_mem_nil

theorem linkCounts (ops : List TreeOp) : Always LinkLaw treeStep mkfsTree ops ↔ Meets TreeFits treeStep mkfsTree ops :=
  alwaysIff TreeOk (fun _ => linkLaw) (fun _ _ _ ok ran fits => treeKeeps ok ran fits)
    (fun _ _ _ ok ran overflows => treeFails ok ran overflows) mkfsTreeOk

end
/- Three letters that number the files of a directory. -/
def letter (k : Nat) : UInt8 := UInt8.ofNat (1 + k % 255)

theorem letterValue (k : Nat) : (letter k).toNat = 1 + k % 255 := by
  rw [letter,UInt8.toNat_ofNat']
  omega

def numbered (k : Nat) : Name where
  bytes := [letter k,letter (k / 255),letter (k / 65025)]
  nonempty := by simp
  fits := by simp only [List.length_cons,List.length_nil]; decide
  noNul := by
    intro nul
    have value : ∃ j, (letter j).toNat = 0 := by
      simp only [List.mem_cons,List.not_mem_nil,or_false] at nul
      rcases nul with same | same | same
      · exact ⟨_,congrArg UInt8.toNat same.symm⟩
      · exact ⟨_,congrArg UInt8.toNat same.symm⟩
      · exact ⟨_,congrArg UInt8.toNat same.symm⟩
    obtain ⟨j,zero⟩ := value
    rw [letterValue] at zero
    omega
  notDot := by simp
  notDotDot := by simp

theorem numberedLength (k : Nat) : (numbered k).bytes.length = 3 := rfl

theorem numberedInjective {j k : Nat} (small : j < 2 ^ 19) (bound : k < 2 ^ 19) (same : numbered j = numbered k) : j = k := by
  have bytes := congrArg Name.bytes same
  simp only [numbered,List.cons.injEq,and_true] at bytes
  obtain ⟨first,second,third⟩ := bytes
  have low := congrArg UInt8.toNat first
  have mid := congrArg UInt8.toNat second
  have high := congrArg UInt8.toNat third
  rw [letterValue,letterValue] at low mid high
  omega

def numberedIno (k : Nat) : Ino := ⟨4 + k % 2 ^ 19,by omega,by omega⟩

def fillOps (n : Nat) : List TreeOp := (List.range n).map fun k => .mknod rootIno (numbered k) (numberedIno k)

/- The root with `n` files, every slot taken. -/
structure FullRoot (n : Nat) (t : Tree) (s : DirRun) : Prop where
  ok : TreeOk t
  holds : HoldsMap s
  root : ∃ v, t.dirAt rootIno = some v ∧ v.dir = s.dir
  count : s.dir.npages = n + 2
  full : ∀ i < s.dir.npages, entryIno (s.dir.page i) ≠ 0
  later : ∀ k, n ≤ k → k < 2 ^ 19 → s.bound (numbered k) = none ∧ t.node (numberedIno k).val = none

section
variable {n : Nat} {t : Tree} {s : DirRun}

theorem fullRootFree (filled : FullRoot n t s) {v : Vnode} (same : v.dir = s.dir) (small : n < 2 ^ 19) :
    xcpfsInodeByName v.dir (numbered n).bytes = 0 := by
  rw [same,(finiteMapOf filled.holds).found,(filled.later n (Nat.le_refl n) small).1]
  rfl

theorem fullRootStep (filled : FullRoot n t s) (small : n < 2 ^ 19) :
    ∃ next, treeStep t (.mknod rootIno (numbered n) (numberedIno n)) = some next := by
  obtain ⟨v,here,same⟩ := filled.root
  have free := fullRootFree filled same small
  have fresh := (filled.later n (Nat.le_refl n) small).2
  refine ⟨(xcpfsMknod t rootIno v (numbered n).bytes (numberedIno n).val).1,?_⟩
  simp only [treeStep,Tree.create]
  rw [here]
  dsimp only
  exact if_pos ⟨by rw [numberedLength]; decide,free,by rw [fresh]; rfl⟩

theorem fullRootLink (filled : FullRoot n t s) (small : n + 3 < 2 ^ 19) :
    ∃ pages, xcpfsAddLink s.dir (numbered n).bytes (numberedIno n).val = (pages,.ok ()) ∧
      linkRun s (numbered n) (numberedIno n) = ⟨pages,Function.update s.bound (numbered n) (some (numberedIno n).val)⟩ ∧
      pages.npages = s.dir.npages + 1 ∧
      ∀ i < pages.npages, entryIno (pages.page i) ≠ 0 := by
  have free := (filled.later n (Nat.le_refl n) (by omega)).1
  obtain ⟨_,here⟩ | ⟨tar,ran,_,_,place⟩ := scanDecides filled.holds (numbered n)
  · rw [free] at here
    contradiction
  · have last : tar = s.dir.npages := by
      rcases place with ⟨inside,zero⟩ | ⟨last,_⟩
      · exact absurd zero (filled.full tar inside)
      · exact last
    have count := filled.count
    obtain ⟨_,grown⟩ := commitGrows (linkPage (s.dir.page tar) (numbered n).bytes (numberedIno n).val) filled.holds.size (by omega)
    rw [← last] at grown
    have added : xcpfsAddLink s.dir (numbered n).bytes (numberedIno n).val =
        (commitWrite s.dir tar (linkPage (s.dir.page tar) (numbered n).bytes (numberedIno n).val),.ok ()) := by
      unfold xcpfsAddLink
      rw [ran]
    refine ⟨_,added,?_,grown.trans (congrArg (· + 1) last),fun i inside => ?_⟩
    · unfold linkRun
      rw [added]
    · by_cases new : i = tar
      · have page : (commitWrite s.dir tar (linkPage (s.dir.page tar) (numbered n).bytes (numberedIno n).val)).page i =
            linkPage (s.dir.page tar) (numbered n).bytes (numberedIno n).val := by rw [new]; exact Function.update_self ..
        have bound := (numberedIno n).bound
        have positive := (numberedIno n).positive
        rw [page,linkPageIno _ _ _ (by omega)]
        omega
      · have page : (commitWrite s.dir tar (linkPage (s.dir.page tar) (numbered n).bytes (numberedIno n).val)).page i =
            s.dir.page i := Function.update_of_ne new ..
        rw [page]
        exact filled.full i (by omega)

theorem fullRootNext (filled : FullRoot n t s) (small : n + 3 < 2 ^ 19) :
    ∃ next, treeStep t (.mknod rootIno (numbered n) (numberedIno n)) = some next ∧
      FullRoot (n + 1) next (linkRun s (numbered n) (numberedIno n)) := by
  obtain ⟨next,ran⟩ := fullRootStep filled (by omega)
  obtain ⟨v,here,same⟩ := filled.root
  obtain ⟨pages,added,linked,count,full⟩ := fullRootLink filled small
  have room : HasRoom v.dir := .inr (by rw [same,filled.count]; omega)
  have after : next = (t.put rootIno { v with dir := pages }).link rootIno (numberedIno n).val newFile := by
    obtain ⟨x,found,_,_,_,result⟩ := createCases ran
    rw [here] at found
    cases found
    rw [← result,xcpfsMknod,same,added]
  have names : ∀ k, n + 1 ≤ k → k < 2 ^ 19 → numbered k ≠ numbered n ∧ (numberedIno k).val ≠ (numberedIno n).val ∧
      (numberedIno k).val ≠ rootIno := by
    intro k above bound
    refine ⟨fun bad => ?_,?_,?_⟩
    · have equal := numberedInjective bound (by omega) bad
      omega
    · unfold numberedIno
      dsimp only
      omega
    · unfold numberedIno rootIno
      dsimp only
      omega
  refine ⟨next,ran,treeKeeps filled.ok ran fun x found => ?_,?_,?_,?_,?_,?_⟩
  · rw [here] at found
    cases found
    exact room
  · refine linkRunKeeps filled.holds (.inr ⟨.inl (by rw [numberedLength]; decide),.inr ?_⟩)
    rw [filled.count]
    omega
  · refine ⟨{ v with dir := pages },?_,by rw [linked]⟩
    have apart : rootIno ≠ (numberedIno n).val := by
      unfold numberedIno rootIno
      dsimp only
      omega
    have kind : { v with dir := pages }.isDir = true := (dirAtNode here).2
    rw [after,dirAtLink apart kind,if_neg apart,if_pos rfl]
  · rw [linked]
    exact count.trans (congrArg (· + 1) filled.count)
  · rw [linked]
    exact full
  · intro k above bound
    obtain ⟨name,ino,root⟩ := names k above bound
    obtain ⟨free,fresh⟩ := filled.later k (by omega) bound
    rw [linked,after,nodeLink,if_neg ino,if_neg root]
    exact ⟨(Function.update_of_ne name ..).trans free,fresh⟩

theorem fullRootRun (small : n + 3 ≤ 2 ^ 19) :
    ∃ t s, exec treeStep mkfsTree (fillOps n) = some t ∧ FullRoot n t s := by
  induction n with
  | zero =>
    obtain ⟨_,count,first,second⟩ := initDirPages rootIno
    have root : DirOk rootIno mkfsRoot.dir := mkfsDirsOk.dirs rootIno mkfsRoot (by rw [mkfsDirAt,if_pos rfl])
    refine ⟨mkfsTree,newDir ⟨rootIno,by decide,by decide⟩,rfl,mkfsTreeOk,newDirHolds _,⟨mkfsRoot,by rw [mkfsDirAt,if_pos rfl],rfl⟩,
      count,fun i inside => ?_,fun k _ bound => ⟨rfl,?_⟩⟩
    · exact (dotLive root (Nat.lt_of_lt_of_eq inside count)).1.2
    · rw [mkfsNode,if_neg]
      unfold numberedIno rootIno
      dsimp only
      omega
  | succ n ih =>
    obtain ⟨t,s,ran,filled⟩ := ih (by omega)
    obtain ⟨next,step,more⟩ := fullRootNext filled (by omega)
    refine ⟨next,_,?_,more⟩
    rw [fillOps,List.range_succ,List.map_append]
    exact (execSnoc ran).trans step

end

/-- The root is filled up to 2^19 - 1 pages; the file after that gets no entry. -/
theorem linkCountsWrap : ¬∀ ops : List TreeOp, Always LinkLaw treeStep mkfsTree ops := by
  intro claim
  obtain ⟨n,last⟩ : ∃ n : Nat, n + 3 = 2 ^ 19 := ⟨524285,by decide⟩
  obtain ⟨t,s,ran,filled⟩ := fullRootRun (Nat.le_of_eq last)
  obtain ⟨next,step⟩ := fullRootStep filled (by omega)
  refine treeFails filled.ok step (fun fits => ?_) (alwaysEnd (claim _) ((execSnoc ran).trans step))
  obtain ⟨v,here,same⟩ := filled.root
  rcases fits v here with ⟨i,inside,zero⟩ | space
  · rw [same] at inside zero
    exact filled.full i inside zero
  · rw [same,filled.count] at space
    omega

end Xcpfs
