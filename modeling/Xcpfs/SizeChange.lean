import Xcpfs.DirMap
import Xcpfs.TruncateMap

/-! `xcpfs_setattr` with a new size, down to the partial block that `xcpfs_do_truncate` rewrites.
The commit of that block moves `i_size` to the end of its page. What the kernel does before and
after the truncate is a parameter. -/
namespace Xcpfs
open PointerForest CBytes

/- `pages` are the uptodate pages of the file, `blocks` what the device holds. -/
structure DataFile where
  ino : Nat
  iSize : Nat
  nodes : NodeStore
  pages : Nat → Option Memory
  blocks : Nat → Memory

/- `alloc_super` sets this `s_maxbytes`, and `xcpfs_fill_super` leaves it. -/
def maxNonLfs : Nat := 2 ^ 31 - 1

def zeroUser (page : Memory) (offset : Nat) : Memory := fun k => if offset ≤ k then 0 else page k

namespace DataFile

/- `do_prepare_page` without `create`; no result is -EIO. -/
def preparePage (f : DataFile) (index : Nat) : Option Memory :=
  match f.pages index with
  | some page => some page
  | none => (getDnode f.nodes f.ino index).map fun _ =>
    let blkaddr := oldBlkaddr f.nodes f.ino index
    if blkaddr = 0 then fun _ => 0 else f.blocks blkaddr

def commitWrite (f : DataFile) (index : Nat) (page : Memory) : DataFile :=
  { f with pages := Function.update f.pages index (some page), iSize := (sizeAfter f.iSize index).toNat }

def truncatePartialBlock (f : DataFile) (iblock offset : Nat) : DataFile :=
  if offset = 0 then f
  else match f.preparePage iblock with
    | none => f
    | some page => f.commitWrite iblock (zeroUser page offset)

end DataFile

structure Vfs where
  setattrPrepare : DataFile → Option Nat → Int
  inodeNewsizeOk : DataFile → Nat → Int
  truncateSetsize : DataFile → Nat → DataFile
  invalidateMappingPages : DataFile → Nat → DataFile

/- What the kernel documents of these calls: `truncate_setsize` zeroes the rest of a cached
partial page, and neither call touches a page below the new size. -/
structure Vfs.Documented (vfs : Vfs) : Prop where
  limit : ∀ f size, vfs.inodeNewsizeOk f size = 0 → f.iSize < size → size ≤ maxNonLfs
  setsize : ∀ f size, vfs.truncateSetsize f size =
    { f with iSize := size, pages := (vfs.truncateSetsize f size).pages }
  whole : ∀ f size index, (index + 1) * pageSize ≤ size → (vfs.truncateSetsize f size).pages index = f.pages index
  cut : ∀ f size, size % pageSize ≠ 0 → (vfs.truncateSetsize f size).pages (size / pageSize) =
    (f.pages (size / pageSize)).map fun page => zeroUser page (size % pageSize)
  invalidate : ∀ f start, vfs.invalidateMappingPages f start =
    { f with pages := (vfs.invalidateMappingPages f start).pages }
  below : ∀ f start index, index < start → (vfs.invalidateMappingPages f start).pages index = f.pages index

/- `int from`; sizes up to `maxNonLfs` survive the conversion. -/
def xcpfsDoTruncate (vfs : Vfs) (start : Int) (f : DataFile) : Option DataFile :=
  let freeFrom := ((start + (pageSize - 1)) / pageSize).toNat
  (xcpfsTruncateBlocks f.ino freeFrom ⟨f.nodes,[]⟩).map fun t =>
    let f := { f with nodes := t.nodes }
    let f := f.truncatePartialBlock (start / pageSize).toNat (start % pageSize).toNat
    vfs.invalidateMappingPages f freeFrom

def xcpfsTruncate (vfs : Vfs) (f : DataFile) : Option DataFile := xcpfsDoTruncate vfs (toInt32 f.iSize) f

def xcpfsSetattr (vfs : Vfs) (iaSize : Option Nat) (f : DataFile) : Option (DataFile × Int) :=
  let error := vfs.setattrPrepare f iaSize
  if error ≠ 0 then some (f,error) else
  match iaSize with
  | none => some (f,0)
  | some size =>
    if size = f.iSize then some (f,0) else
    let error := vfs.inodeNewsizeOk f size
    if error ≠ 0 then some (f,error)
    else (xcpfsTruncate vfs (vfs.truncateSetsize f size)).map fun f => (f,0)

namespace DataFile

/-- `xcpfs_read_data_folio` at the page of `pos`. -/
def byteAt (f : DataFile) (pos : Nat) : Option UInt8 := (f.preparePage (pos / pageSize)).map fun page => page (pos % pageSize)

inductive ReadByte where
  | eof
  | eio
  | byte (value : UInt8)
  deriving DecidableEq, Repr

def read (f : DataFile) (pos : Nat) : ReadByte :=
  if f.iSize ≤ pos then .eof else (f.byteAt pos).elim .eio .byte

end DataFile

/- A hole below a missing node has no byte to read; a later extension shows none either. -/
structure Resized (f g : DataFile) (size : Nat) : Prop where
  sized : g.iSize = size
  kept : ∀ pos, pos < min f.iSize size → g.read pos = f.read pos
  tail : size < f.iSize → size % pageSize ≠ 0 → ∀ pos, size ≤ pos → pos / pageSize = size / pageSize →
    ∀ b, g.byteAt pos = some b → b = 0

/- The block has to be read through a dnode that the truncate at `cut` drops. -/
def DataFile.Loses (f : DataFile) (cut q : TreePath) : Prop :=
  f.pages q.index = none ∧ (getDnode f.nodes f.ino q.index).isSome ∧ cut.misplaced (presentIn f.nodes f.ino) q

/- The rewrite of the partial block fails before it reaches the commit. -/
def DataFile.Unprepared (f : DataFile) (cut q : TreePath) : Prop :=
  f.pages q.index = none ∧ (getDnode f.nodes f.ino q.index = none ∨ cut.misplaced (presentIn f.nodes f.ino) q)

structure CutResizes (f : DataFile) (size : Nat) (cut : TreePath) : Prop where
  within : ¬cut.overruns (presentIn f.nodes f.ino)
  kept : ∀ q : TreePath, q.index * pageSize < min f.iSize size → ¬f.Loses cut q
  committed : pageSize ∣ size ∨ 2 ^ 31 - pageSize < size ∨ ∃ q : TreePath, q.index = size / pageSize ∧ f.Unprepared cut q

def ResizesWhen (f : DataFile) (size : Nat) : Prop :=
  size = f.iSize ∨ ∃ cut : TreePath, cut.index = (size + (pageSize - 1)) / pageSize ∧ CutResizes f size cut

section
variable {ino : Nat} {t t' : Trunc}

theorem dnodeDropped {cut p : TreePath} (done : Truncated cut.addrStart (cut.topCut (presentIn t.nodes ino)) ino t t' 5)
    (wrong : cut.misplaced (presentIn t.nodes ino) p) (early : p.index < cut.index) :
    follow (child t'.nodes) ino p.nodes = none := by
  have lost : ¬survives cut.addrStart (cut.topCut (presentIn t.nodes ino)) p := fun kept =>
    (survivesMisplaced _ cut p).mp wrong ⟨fun _ => early,fun _ => kept⟩
  cases p with
  | inode slot => cases cut <;> exact wrong.elim
  | direct top slot =>
    simp only [TreePath.nodes]
    rw [walkNid,if_pos]
    cases cut with
    | direct first at_ =>
      rcases wrong with ⟨same,one,_⟩ | ⟨low,high,_⟩
      · subst same
        refine done.dropped top (by omega) (directCut at_) ?_ (decide_eq_true one)
        simp only [TreePath.topCut,Nat.lt_irrefl,if_false,if_true]
      · simp only [TreePath.index] at early
        omega
    | inode _ => exact wrong.elim
    | indirect _ _ _ => exact wrong.elim
    | double _ _ _ => exact wrong.elim
  | indirect top mid slot =>
    simp only [TreePath.nodes]
    rw [walkNid]
    by_cases used : (t.nodes ino).iNid (2 + top) = 0
    · rw [if_pos (fewerAbsent done used)]
    · rcases topDropped done (by omega) used mid.isLt lost with zero | ⟨same,zero⟩
      · rw [if_pos zero]
      · rw [same,if_neg used,walkSlot,if_pos zero]
  | double top mid slot =>
    simp only [TreePath.nodes]
    rw [walkNid]
    by_cases used : (t.nodes ino).iNid 4 = 0
    · rw [if_pos (fewerAbsent done used)]
    · rcases topDropped done (by omega) used top.isLt lost with zero | ⟨same,zero⟩
      · rw [if_pos zero]
      · rw [same,if_neg used,walkSlot,if_pos zero]

end

/- The file once the blocks are cut and before the partial block is rewritten. -/
structure AfterCut (f h : DataFile) (size : Nat) (cut : TreePath) : Prop where
  ino : h.ino = f.ino
  blocks : h.blocks = f.blocks
  sized : h.iSize = size
  whole : ∀ index, (index + 1) * pageSize ≤ size → h.pages index = f.pages index
  cutPage : size % pageSize ≠ 0 → h.pages (size / pageSize) =
    (f.pages (size / pageSize)).map fun page => zeroUser page (size % pageSize)
  kept : ∀ q : TreePath, q.index < cut.index → ¬cut.misplaced (presentIn f.nodes f.ino) q →
    getDnode h.nodes f.ino q.index = getDnode f.nodes f.ino q.index ∧
      oldBlkaddr h.nodes f.ino q.index = oldBlkaddr f.nodes f.ino q.index
  lost : ∀ q : TreePath, q.index < cut.index → cut.misplaced (presentIn f.nodes f.ino) q →
    getDnode h.nodes f.ino q.index = none

section
variable {vfs : Vfs} {f h : DataFile} {size pos index : Nat} {cut : TreePath}

theorem setattrTruncates (accepted : vfs.setattrPrepare f (some size) = 0 ∧ vfs.inodeNewsizeOk f size = 0)
    (differs : size ≠ f.iSize) :
    xcpfsSetattr vfs (some size) f = (xcpfsTruncate vfs (vfs.truncateSetsize f size)).map fun f => (f,0) := by
  unfold xcpfsSetattr
  simp only [accepted.1,accepted.2,ne_eq,not_true_eq_false,if_false,if_neg differs]

theorem truncateIs (documented : vfs.Documented) (small : size ≤ maxNonLfs) (at_ : cut.index = (size + (pageSize - 1)) / pageSize) :
    xcpfsTruncate vfs (vfs.truncateSetsize f size) = (xcpfsTruncateBlocks f.ino cut.index ⟨f.nodes,[]⟩).map fun t =>
      vfs.invalidateMappingPages (({ f with
        iSize := size
        nodes := t.nodes
        pages := (vfs.truncateSetsize f size).pages } : DataFile).truncatePartialBlock
        (size / pageSize) (size % pageSize)) cut.index := by
  unfold maxNonLfs at small
  have start : toInt32 (size : Int) = size := toInt32Small (by omega) (by omega)
  have free : (((size : Int) + (pageSize - 1)) / pageSize).toNat = cut.index := by
    rw [at_]
    unfold pageSize
    omega
  have block : ((size : Int) / pageSize).toNat = size / pageSize := by
    unfold pageSize
    omega
  have offset : ((size : Int) % pageSize).toNat = size % pageSize := by
    unfold pageSize
    omega
  unfold xcpfsTruncate xcpfsDoTruncate
  rw [documented.setsize f size]
  dsimp only
  rw [start,free,block,offset]

/- The cut itself, with `kept` and `lost` as the walk sees them. -/
theorem setattrCuts (documented : vfs.Documented) (tree : Owned nodeShape {f.ino} (child f.nodes)) (small : size ≤ maxNonLfs)
    (at_ : cut.index = (size + (pageSize - 1)) / pageSize) (within : ¬cut.overruns (presentIn f.nodes f.ino)) :
    ∃ h, AfterCut f h size cut ∧ xcpfsTruncate vfs (vfs.truncateSetsize f size) =
      some (vfs.invalidateMappingPages (h.truncatePartialBlock (size / pageSize) (size % pageSize)) cut.index) := by
  have inode := inodeTree tree rfl
  obtain ⟨t,ran,done⟩ := truncateBlocks ⟨f.nodes,[]⟩ inode cut within
  refine ⟨{ f with iSize := size, nodes := t.nodes, pages := (vfs.truncateSetsize f size).pages },
    ⟨rfl,rfl,rfl,documented.whole f size,documented.cut f size,?_,?_⟩,?_⟩
  · intro q early right
    have stays : survives cut.addrStart (cut.topCut (presentIn f.nodes f.ino)) q :=
      (not_not.mp fun other => right ((survivesMisplaced _ cut q).mpr other)).mpr early
    rw [getDnodeAt,getDnodeAt,oldBlkaddrAt,oldBlkaddrAt]
    exact ⟨dnodeSurvives inode done q stays,blockSurvives inode done q stays⟩
  · intro q early wrong
    rw [getDnodeAt]
    exact dnodeDropped done wrong early
  · rw [truncateIs documented small at_,ran]
    rfl

theorem pathAt (low : index ≤ 2 ^ 19) : ∃ q : TreePath, q.index = index :=
  ⟨_,TreePath.indexOfIndex index (by unfold maxBlocks; omega)⟩

theorem prepareCached {page : Memory} (held : f.pages index = some page) : f.preparePage index = some page := by
  unfold DataFile.preparePage
  rw [held]

theorem prepareMissing (absent : f.pages index = none) (missing : getDnode f.nodes f.ino index = none) :
    f.preparePage index = none := by
  unfold DataFile.preparePage
  rw [absent,missing]
  rfl

theorem prepareFound (absent : f.pages index = none) (found : (getDnode f.nodes f.ino index).isSome) :
    (f.preparePage index).isSome := by
  unfold DataFile.preparePage
  rw [absent]
  simpa using found

theorem prepareKept (after : AfterCut f h size cut) (q : TreePath) (early : q.index < cut.index)
    (absent : f.pages q.index = none) (also : h.pages q.index = none)
    (right : ¬cut.misplaced (presentIn f.nodes f.ino) q) : h.preparePage q.index = f.preparePage q.index := by
  obtain ⟨dnode,blkaddr⟩ := after.kept q early right
  unfold DataFile.preparePage
  rw [absent,also,after.ino,dnode,blkaddr,after.blocks]

theorem prepareLost (after : AfterCut f h size cut) (q : TreePath) (early : q.index < cut.index)
    (also : h.pages q.index = none) (wrong : cut.misplaced (presentIn f.nodes f.ino) q) : h.preparePage q.index = none := by
  refine prepareMissing also ?_
  rw [after.ino]
  exact after.lost q early wrong

theorem pagesBelow (after : AfterCut f h size cut) (low : index * pageSize < size) :
    (f.pages index = none ↔ h.pages index = none) ∧
      ∀ page, f.pages index = some page → ∃ next, h.pages index = some next ∧
        ∀ k, index * pageSize + k < size → k < pageSize → next k = page k := by
  unfold pageSize at *
  by_cases whole : (index + 1) * 4096 ≤ size
  · have same := after.whole index whole
    rw [same]
    exact ⟨Iff.rfl,fun page held => ⟨page,held,fun _ _ _ => rfl⟩⟩
  · have here : size / 4096 = index := by omega
    have same := after.cutPage (by unfold pageSize; omega)
    unfold pageSize at same
    rw [here] at same
    rw [same]
    refine ⟨Option.map_eq_none_iff.symm,fun page held => ?_⟩
    rw [held]
    refine ⟨_,rfl,fun k below _ => ?_⟩
    unfold zeroUser
    exact if_neg (by omega)

/- Bytes below the new size after the cut: the ones of a dropped dnode are gone, unless cached. -/
theorem byteKept (after : AfterCut f h size cut) (at_ : cut.index = (size + (pageSize - 1)) / pageSize) (q : TreePath)
    (here : q.index = pos / pageSize) (low : pos < size) (held : ¬f.Loses cut q) : h.byteAt pos = f.byteAt pos := by
  have early : q.index < cut.index := by
    rw [at_,here]
    unfold pageSize
    omega
  have below : q.index * pageSize < size := by
    rw [here]
    unfold pageSize
    omega
  obtain ⟨both,same⟩ := pagesBelow after below
  unfold DataFile.byteAt
  rw [← here]
  cases cached : f.pages q.index with
  | some page =>
    obtain ⟨next,now,bytes⟩ := same page cached
    rw [prepareCached cached,prepareCached now]
    refine congrArg some (bytes _ ?_ ?_)
    · rw [here]
      unfold pageSize
      omega
    · unfold pageSize
      omega
  | none =>
    have also := both.mp cached
    by_cases wrong : cut.misplaced (presentIn f.nodes f.ino) q
    · have missing : getDnode f.nodes f.ino q.index = none := by
        cases found : getDnode f.nodes f.ino q.index with
        | none => rfl
        | some dnode => exact (held ⟨cached,by rw [found]; rfl,wrong⟩).elim
      rw [prepareLost after q early also wrong,prepareMissing cached missing]
    · rw [prepareKept after q early cached also wrong]

theorem byteLost (after : AfterCut f h size cut) (at_ : cut.index = (size + (pageSize - 1)) / pageSize) (q : TreePath)
    (below : q.index * pageSize < size) (gone : f.Loses cut q) :
    h.preparePage q.index = none ∧ (f.preparePage q.index).isSome := by
  have early : q.index < cut.index := by
    rw [at_]
    unfold pageSize at *
    omega
  obtain ⟨absent,found,wrong⟩ := gone
  exact ⟨prepareLost after q early ((pagesBelow after below).1.mp absent) wrong,prepareFound absent found⟩

/- The rewrite reaches the commit unless the page cannot be prepared. -/
theorem partialUnprepared (after : AfterCut f h size cut) (at_ : cut.index = (size + (pageSize - 1)) / pageSize) (q : TreePath)
    (here : q.index = size / pageSize) (partly : size % pageSize ≠ 0) :
    h.preparePage (size / pageSize) = none ↔ f.Unprepared cut q := by
  have early : q.index < cut.index := by
    rw [at_,here]
    unfold pageSize at *
    omega
  have below : q.index * pageSize < size := by
    rw [here]
    unfold pageSize at *
    omega
  obtain ⟨both,same⟩ := pagesBelow after below
  rw [← here]
  constructor
  · intro failed
    have absent : f.pages q.index = none := by
      cases cached : f.pages q.index with
      | none => rfl
      | some page =>
        obtain ⟨next,now,_⟩ := same page cached
        rw [prepareCached now] at failed
        contradiction
    refine ⟨absent,?_⟩
    by_cases wrong : cut.misplaced (presentIn f.nodes f.ino) q
    · exact .inr wrong
    · left
      rw [prepareKept after q early absent (both.mp absent) wrong] at failed
      cases found : getDnode f.nodes f.ino q.index with
      | none => rfl
      | some dnode =>
        have some_ := prepareFound absent (by rw [found]; rfl)
        rw [failed] at some_
        cases some_
  · rintro ⟨absent,missing | wrong⟩
    · by_cases wrong : cut.misplaced (presentIn f.nodes f.ino) q
      · exact prepareLost after q early (both.mp absent) wrong
      · rw [prepareKept after q early absent (both.mp absent) wrong]
        exact prepareMissing absent missing
    · exact prepareLost after q early (both.mp absent) wrong

end

section
variable {vfs : Vfs} {f g h : DataFile} {size pos : Nat}

theorem commitPrepares (page : Memory) (index k : Nat) :
    (h.commitWrite index page).preparePage k = if k = index then some page else h.preparePage k := by
  split
  · rename_i same
    subst same
    exact prepareCached (Function.update_self ..)
  · rename_i other
    unfold DataFile.preparePage DataFile.commitWrite
    dsimp only
    rw [Function.update_of_ne other]

/- The end of the last page below `maxNonLfs` does not fit in an int. -/
theorem commitSized (page : Memory) (sized : h.iSize = size) (small : size ≤ maxNonLfs) (partly : size % pageSize ≠ 0) :
    (h.commitWrite (size / pageSize) page).iSize = size ↔ 2 ^ 31 - pageSize < size := by
  unfold maxNonLfs at small
  have whole : size / pageSize * pageSize ≤ size := Nat.div_mul_le_self ..
  have pos_ : toInt32 ((size / pageSize : Nat) * (pageSize : Nat)) = (size / pageSize : Nat) * (pageSize : Nat) :=
    toInt32Small (by omega) (by omega)
  unfold DataFile.commitWrite sizeAfter
  dsimp only
  rw [pos_,sized]
  unfold pageSize at *
  by_cases high : 2 ^ 31 - 4096 < size
  · have last : toInt32 (((size / 4096 : Nat) : Int) * (4096 : Nat) + (4096 : Nat)) = -2 ^ 31 := by
      have edge : ((size / 4096 : Nat) : Int) * (4096 : Nat) + (4096 : Nat) = 2 ^ 31 := by omega
      rw [edge]
      decide
    rw [last,if_neg (by omega)]
    exact ⟨fun _ => high,fun _ => rfl⟩
  · have last : toInt32 (((size / 4096 : Nat) : Int) * (4096 : Nat) + (4096 : Nat)) =
        ((size / 4096 : Nat) : Int) * (4096 : Nat) + (4096 : Nat) := toInt32Small (by omega) (by omega)
    rw [last,if_pos (by omega)]
    constructor
    · intro same
      omega
    · intro bad
      exact (high bad).elim

theorem partialSized (sized : h.iSize = size) (small : size ≤ maxNonLfs) :
    (h.truncatePartialBlock (size / pageSize) (size % pageSize)).iSize = size ↔
      pageSize ∣ size ∨ 2 ^ 31 - pageSize < size ∨ h.preparePage (size / pageSize) = none := by
  unfold DataFile.truncatePartialBlock
  by_cases whole : size % pageSize = 0
  · rw [if_pos whole]
    exact ⟨fun _ => .inl (Nat.dvd_of_mod_eq_zero whole),fun _ => sized⟩
  · have partly : ¬pageSize ∣ size := fun divides => whole (Nat.mod_eq_zero_of_dvd divides)
    rw [if_neg whole]
    cases prepared : h.preparePage (size / pageSize) with
    | none => exact ⟨fun _ => .inr (.inr rfl),fun _ => sized⟩
    | some page =>
      dsimp only
      rw [commitSized _ sized small whole]
      simp [partly]

theorem partialBelow (low : pos < size) :
    (h.truncatePartialBlock (size / pageSize) (size % pageSize)).byteAt pos = h.byteAt pos := by
  unfold DataFile.truncatePartialBlock
  split
  · rfl
  · split
    · rfl
    · rename_i page prepared
      unfold DataFile.byteAt
      rw [commitPrepares]
      split
      · rename_i here
        rw [here,prepared]
        refine congrArg some (if_neg ?_)
        unfold pageSize at *
        omega
      · rfl

theorem partialTail (partly : size % pageSize ≠ 0) (past : size ≤ pos) (here : pos / pageSize = size / pageSize) (b : UInt8)
    (read : (h.truncatePartialBlock (size / pageSize) (size % pageSize)).byteAt pos = some b) : b = 0 := by
  unfold DataFile.truncatePartialBlock at read
  rw [if_neg partly] at read
  split at read
  · rename_i failed
    unfold DataFile.byteAt at read
    rw [here,failed] at read
    contradiction
  · unfold DataFile.byteAt at read
    rw [commitPrepares,if_pos here] at read
    refine (Option.some.inj read).symm.trans (if_pos ?_)
    unfold pageSize at *
    omega

theorem invalidateByte (documented : vfs.Documented) {start : Nat} (low : pos / pageSize < start) :
    (vfs.invalidateMappingPages g start).byteAt pos = g.byteAt pos := by
  have page := documented.below g start (pos / pageSize) low
  unfold DataFile.byteAt DataFile.preparePage
  rw [page,documented.invalidate]

theorem readKept (size_ : g.iSize = size) (low : pos < min f.iSize size) :
    g.read pos = f.read pos ↔ g.byteAt pos = f.byteAt pos := by
  unfold DataFile.read
  rw [if_neg (by omega),if_neg (by omega)]
  constructor
  · intro same
    cases left : g.byteAt pos with
    | none =>
      cases right : f.byteAt pos with
      | none => rfl
      | some b =>
        rw [left,right] at same
        cases same
    | some a =>
      cases right : f.byteAt pos with
      | none =>
        rw [left,right] at same
        cases same
      | some b =>
        rw [left,right] at same
        cases same
        rfl
  · intro same
    rw [same]

theorem resizedCut {cut : TreePath} (documented : vfs.Documented) (after : AfterCut f h size cut) (small : size ≤ maxNonLfs)
    (at_ : cut.index = (size + (pageSize - 1)) / pageSize) (within : ¬cut.overruns (presentIn f.nodes f.ino))
    (done : g = vfs.invalidateMappingPages (h.truncatePartialBlock (size / pageSize) (size % pageSize)) cut.index) :
    Resized f g size ↔ CutResizes f size cut := by
  have room : size / pageSize ≤ 2 ^ 19 := by
    unfold maxNonLfs at small
    unfold pageSize
    omega
  have iSize : g.iSize = (h.truncatePartialBlock (size / pageSize) (size % pageSize)).iSize := by
    rw [done,documented.invalidate]
  have committed : g.iSize = size ↔ pageSize ∣ size ∨ 2 ^ 31 - pageSize < size ∨
      ∃ q : TreePath, q.index = size / pageSize ∧ f.Unprepared cut q := by
    rw [iSize,partialSized after.sized small]
    by_cases whole : size % pageSize = 0
    · have divides := Nat.dvd_of_mod_eq_zero whole
      exact ⟨fun _ => .inl divides,fun _ => .inl divides⟩
    · obtain ⟨q,here⟩ := pathAt room
      rw [partialUnprepared after at_ q here whole]
      refine or_congr_right (or_congr_right ⟨fun failed => ⟨q,here,failed⟩,fun ⟨p,there,failed⟩ => ?_⟩)
      rwa [TreePath.indexInjective (here.trans there.symm)]
  have bytes : ∀ pos, pos < size → g.byteAt pos = h.byteAt pos := by
    intro pos low
    rw [done,invalidateByte documented ?_,partialBelow low]
    rw [at_]
    unfold pageSize
    omega
  constructor
  · intro resized
    refine ⟨within,fun q below gone => ?_,committed.mp resized.sized⟩
    -- the first byte of a lost block can no longer be read
    obtain ⟨failed,found⟩ := byteLost after at_ q (by omega) gone
    have first := (readKept resized.sized below).mp (resized.kept _ below)
    have page : q.index * pageSize / pageSize = q.index := Nat.mul_div_cancel _ (by decide)
    rw [bytes _ (by omega)] at first
    unfold DataFile.byteAt at first
    rw [page,failed] at first
    cases read : f.preparePage q.index with
    | none =>
      rw [read] at found
      cases found
    | some page =>
      rw [read] at first
      cases first
  · intro holds
    have size_ := committed.mpr holds.committed
    refine ⟨size_,fun pos low => (readKept size_ low).mpr ?_,fun _ partly pos past here b read => ?_⟩
    · have block : pos / pageSize ≤ 2 ^ 19 := by
        unfold pageSize at *
        omega
      obtain ⟨q,here⟩ := pathAt block
      rw [bytes pos (by omega)]
      refine byteKept after at_ q here (by omega) (holds.kept q ?_)
      rw [here]
      exact Nat.lt_of_le_of_lt (Nat.div_mul_le_self ..) low
    · rw [done,invalidateByte documented ?_] at read
      · exact partialTail partly past here b read
      · rw [at_,here]
        unfold pageSize at *
        omega

/-- A size change does all three things exactly when the size stays, or when the cut drops no
block that still has to be read and no partial block is committed below the last page. -/
theorem setattrResizes (documented : vfs.Documented) (tree : Owned nodeShape {f.ino} (child f.nodes)) (sized : f.iSize ≤ maxNonLfs)
    (accepted : vfs.setattrPrepare f (some size) = 0 ∧ vfs.inodeNewsizeOk f size = 0) :
    (∃ g, xcpfsSetattr vfs (some size) f = some (g,0) ∧ Resized f g size) ↔ ResizesWhen f size := by
  by_cases same : size = f.iSize
  · refine ⟨fun _ => .inl same,fun _ => ⟨f,?_,same.symm,fun _ _ => rfl,fun shrinks => by omega⟩⟩
    unfold xcpfsSetattr
    simp only [accepted.1,ne_eq,not_true_eq_false,if_false,if_pos same]
  · have small : size ≤ maxNonLfs := by
      by_cases grows : f.iSize < size
      · exact documented.limit f size accepted.2 grows
      · omega
    have room : (size + (pageSize - 1)) / pageSize ≤ 2 ^ 19 := by
      unfold maxNonLfs at small
      unfold pageSize
      omega
    obtain ⟨cut,at_⟩ := pathAt room
    have unique : ResizesWhen f size ↔ CutResizes f size cut := by
      constructor
      · rintro (stays | ⟨other,there,holds⟩)
        · exact (same stays).elim
        · rwa [TreePath.indexInjective (at_.trans there.symm)]
      · exact fun holds => .inr ⟨cut,at_,holds⟩
    rw [setattrTruncates accepted same,unique]
    by_cases outside : cut.overruns (presentIn f.nodes f.ino)
    · rw [truncateIs documented small at_,truncateOverruns ⟨f.nodes,[]⟩ (inodeTree tree rfl) cut outside]
      constructor
      · rintro ⟨_,bad,_⟩
        cases bad
      · exact fun holds => (holds.within outside).elim
    · obtain ⟨h,after,ran⟩ := setattrCuts documented tree small at_ outside
      rw [ran,Option.map_some]
      rw [← resizedCut documented after small at_ outside rfl]
      constructor
      · rintro ⟨g,is,resized⟩
        cases is
        exact resized
      · exact fun resized => ⟨_,rfl,resized⟩

end

def pageCacheVfs : Vfs where
  setattrPrepare _ _ := 0
  inodeNewsizeOk f size := if f.iSize < size ∧ maxNonLfs < size then -27 else 0
  truncateSetsize f size := { f with
    iSize := size
    pages := fun index => if (index + 1) * pageSize ≤ size then f.pages index
      else if index * pageSize < size then (f.pages index).map fun page => zeroUser page (size % pageSize) else none }
  invalidateMappingPages f start := { f with pages := fun index => if index < start then f.pages index else none }

theorem pageCacheDocumented : pageCacheVfs.Documented where
  limit f size accepted grows := by
    by_contra beyond
    have refused : pageCacheVfs.inodeNewsizeOk f size = -27 := if_pos ⟨grows,by omega⟩
    rw [refused] at accepted
    contradiction
  setsize _ _ := rfl
  whole _ _ _ fits := if_pos fits
  cut f size partly := by
    have beyond : ¬(size / pageSize + 1) * pageSize ≤ size := by
      unfold pageSize at *
      omega
    have under : size / pageSize * pageSize < size := by
      unfold pageSize at *
      omega
    exact (if_neg beyond).trans (if_pos under)
  invalidate _ _ := rfl
  below _ _ _ low := if_pos low

/- 905 blocks: the inode's 900 are holes, five more lie behind its direct node. -/
def fiveBlocks : DataFile where
  ino := 2730454
  iSize := 905 * pageSize
  nodes := oneDirect fun a => if a < 5 then 100 + a else 0
  pages _ := none
  blocks _ _ := 1

theorem fiveBlocksPlaced (q : TreePath) : ¬(TreePath.direct 0 2).misplaced (presentIn fiveBlocks.nodes fiveBlocks.ino) q := by
  intro wrong
  cases q with
  | direct top slot =>
    rcases wrong with ⟨_,bad,_⟩ | ⟨_,_,low⟩
    · contradiction
    · have present : presentIn fiveBlocks.nodes fiveBlocks.ino 0 = true := by decide
      rw [present] at low
      exact Nat.not_lt_zero _ low
  | inode slot => exact wrong.elim
  | indirect top mid slot => exact wrong.elim
  | double top mid slot => exact wrong.elim

/-- Dropping three whole blocks of five. -/
theorem setattrResizesTwoLeft : ∃ g, xcpfsSetattr pageCacheVfs (some (902 * pageSize)) fiveBlocks = some (g,0) ∧
    Resized fiveBlocks g (902 * pageSize) :=
  (setattrResizes pageCacheDocumented (oneDirectOwned _) (by decide) ⟨rfl,rfl⟩).mpr
    (.inr ⟨.direct 0 2,by decide,id,fun q _ lost => fiveBlocksPlaced q lost.2.2,.inl ⟨902,Nat.mul_comm ..⟩⟩)

/-- Cutting the second block of five to 100 bytes leaves its end as the size. -/
theorem setattrRoundsSize : ¬∃ g, xcpfsSetattr pageCacheVfs (some (901 * pageSize + 100)) fiveBlocks = some (g,0) ∧
    Resized fiveBlocks g (901 * pageSize + 100) := by
  rintro ⟨g,ran,resized⟩
  have at_ : (TreePath.direct 0 2).index = (901 * pageSize + 100 + (pageSize - 1)) / pageSize := by decide
  have tree : Owned nodeShape {fiveBlocks.ino} (child fiveBlocks.nodes) := oneDirectOwned _
  obtain ⟨h,after,cut⟩ := setattrCuts pageCacheDocumented tree (by decide) at_ id
  rw [setattrTruncates ⟨rfl,rfl⟩ (by decide)] at ran
  rw [cut] at ran
  cases ran
  have whole := (resizedCut pageCacheDocumented after (by decide) at_ id rfl).mp resized
  rcases whole.committed with divides | high | ⟨q,here,_,missing | wrong⟩
  · revert divides
    decide
  · revert high
    decide
  · have dnode : getDnode fiveBlocks.nodes fiveBlocks.ino (TreePath.direct 0 1).index = some 2730453 := by
      rw [getDnodeAt]
      rfl
    have same : q.index = (TreePath.direct 0 1).index := here.trans (by decide)
    rw [same,dnode] at missing
    cases missing
  · exact fiveBlocksPlaced q wrong

end Xcpfs
