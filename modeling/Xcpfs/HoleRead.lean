import Xcpfs.Lib.CBytes
import Xcpfs.MetaRuns

/-! Reading a block that has no address. The walk to it creates nothing, and whether the page is
filled with zeros depends on the dnode: where a node on the way is missing there is none. -/
namespace Xcpfs
open PointerForest
open CBytes (Memory)

structure DataPage where
  uptodate : Bool
  bytes : Memory

def zeroUserSegment (bytes : Memory) (start stop : Nat) : Memory := fun k => if start ≤ k ∧ k < stop then 0 else bytes k

/-- For an inode other than the node inode; `blocks` is what the device reads. -/
def doPreparePage (load : LoadBlock) (held : List LockedPage) (create : Bool) (rounds : Nat) (blocks : Nat → Memory)
    (ino index : Nat) (page : DataPage) (s : Fs) : Except Stop (Fs × DataPage × Except Errno Unit) :=
  if page.uptodate then .ok (s,page,.ok ())
  else do
    let (s,prepared) ← Locked.preparePage load held create rounds ino index s
    match prepared with
    | none => .ok (s,page,.error .eio)
    | some 0 => .ok (s,⟨true,zeroUserSegment page.bytes 0 pageSize⟩,.ok ())
    | some blkaddr => .ok (s,⟨true,blocks blkaddr⟩,.ok ())

/-- For a file: its pages are none that a walk asks for, so the lock on this one is left out. -/
def xcpfsReadDataFolio (rounds depth : Nat) (blocks : Nat → Memory) (ino index : Nat) (page : DataPage) (s : Fs) :
    Except Stop (Fs × DataPage × Except Errno Unit) :=
  doPreparePage (Locked.readRawNatBlock rounds depth) [] false rounds blocks ino index page s

def DataPage.Zero (page : DataPage) : Prop := ∀ k < pageSize, page.bytes k = 0

/- The read gives a page of zeros and creates nothing. -/
def ReadsAsHole (s : Fs) (read : Except Stop (Fs × DataPage × Except Errno Unit)) : Prop :=
  ∃ t page, read = .ok (t,page,.ok ()) ∧ page.uptodate = true ∧ page.Zero ∧ Quiet s t

section
variable {inodes : Set Nat} {known : Nat → Bool} {s : Fs} {n ino rounds fuel : Nat} {q : TreePath}

theorem zeroedPage (bytes : Memory) : DataPage.Zero ⟨true,zeroUserSegment bytes 0 pageSize⟩ :=
  fun k below => if_pos ⟨Nat.zero_le k,below⟩

theorem holeEnds (metaIn : metaIno ∈ inodes) (enough : defAddrsPerInode ≤ rounds) (inside : ino ∈ inodes) (ok : FsOk inodes known s)
    (sound : MetaSound inodes s) (hole : blockAt s.content ino q = 0) (depth : Nat) (blocks : Nat → Memory) (bytes : Memory) :
    ∃ t, Quiet s t ∧
      (follow (child s.content) ino q.nodes = none →
        xcpfsReadDataFolio rounds (depth + 2) blocks ino q.index ⟨false,bytes⟩ s = .ok (t,⟨false,bytes⟩,.error .eio)) ∧
      ∀ d, follow (child s.content) ino q.nodes = some d →
        xcpfsReadDataFolio rounds (depth + 2) blocks ino q.index ⟨false,bytes⟩ s =
          .ok (t,⟨true,zeroUserSegment bytes 0 pageSize⟩,.ok ()) := by
  obtain ⟨t,quiet,held,found,_⟩ := readReturns metaIn enough (le_refl defAddrsPerInode) inside depth rounds q ok sound
  refine ⟨t,quiet,fun missing => ?_,fun d path => ?_⟩
  · rw [missing] at found
    unfold xcpfsReadDataFolio doPreparePage Locked.preparePage
    simp only [bind,Except.bind,found]
    rfl
  · have word : (t.nodes d).dataAddr q.index = 0 := by
      rw [dataAddrWord,← contentHeld (held d path),quiet.content,← blockAtFound path]
      exact hole
    rw [path] at found
    unfold xcpfsReadDataFolio doPreparePage Locked.preparePage
    simp only [bind,Except.bind,found,if_pos word]
    rfl

end

/-- A block of a file that has no address reads as zeros exactly when its dnode is there, or when
the page was uptodate with zeros already. -/
theorem holesReadZero {s : MountState} (inv : MountInv s) {ino : Nat} (inside : s.inodes ino = true)
    (q : TreePath) (hole : blockAt s.fs.content ino q = 0) (rounds depth : Nat) (blocks : Nat → Memory) (page : DataPage) :
    ReadsAsHole s.fs (xcpfsReadDataFolio (defAddrsPerInode + rounds) (depth + 2) blocks ino q.index page s.fs) ↔
      if page.uptodate = true then page.Zero else ∃ d, follow (child s.fs.content) ino q.nodes = some d := by
  obtain ⟨uptodate,bytes⟩ := page
  cases uptodate with
  | true =>
    have kept : xcpfsReadDataFolio (defAddrsPerInode + rounds) (depth + 2) blocks ino q.index ⟨true,bytes⟩ s.fs =
        .ok (s.fs,⟨true,bytes⟩,.ok ()) := rfl
    rw [kept,if_pos rfl]
    constructor
    · rintro ⟨t,page,same,_,zero,_⟩
      cases same
      exact zero
    · intro zero
      exact ⟨s.fs,_,rfl,rfl,zero,quietRefl s.fs⟩
  | false =>
    obtain ⟨known,ok⟩ := inv.ok
    obtain ⟨t,quiet,missing,there⟩ :=
      holeEnds inv.metaIn (Nat.le_add_right defAddrsPerInode rounds) inside ok inv.sound hole depth blocks bytes
    rw [if_neg (by simp)]
    constructor
    · rintro ⟨u,page,read,_⟩
      cases path : follow (child s.fs.content) ino q.nodes with
      | none => cases read.symm.trans (missing path)
      | some d => exact ⟨d,rfl⟩
    · rintro ⟨d,path⟩
      exact ⟨t,_,there d path,rfl,zeroedPage bytes,quiet⟩

/- A new file after a mount: an inode without nodes, whose block is in the superblock's journal. -/
def sparseDisk : NatDisk := ⟨fun _ _ => ⟨0,0⟩,[⟨2730454,2730454,40⟩,⟨rootIno,rootIno,20⟩,⟨metaIno,metaIno,12⟩]⟩

def sparseMount : MountState where
  fs := mountFs sparseDisk fun _ => .zero
  inodes n := n = metaIno ∨ n = rootIno ∨ n = 2730454

theorem sparseLeaf (n : Nat) (e : Edge) : child sparseMount.fs.content n e = none := by
  unfold child Fs.content
  split
  · exact zeroChild e
  · exact zeroChild e

theorem sparseSlot (n : Nat) : (xcpfsReadNats sparseDisk.metaNat).slot n =
    if n = metaIno then some (true,⟨true,false,metaIno,metaIno,12⟩)
    else if n = rootIno then some (true,⟨true,false,rootIno,rootIno,20⟩)
    else if n = 2730454 then some (true,⟨true,false,2730454,2730454,40⟩) else none := by
  have cache : xcpfsReadNats sparseDisk.metaNat =
      ⟨[⟨true,false,metaIno,metaIno,12⟩,⟨true,false,rootIno,rootIno,20⟩,⟨true,false,2730454,2730454,40⟩],[]⟩ := by
    simp [sparseDisk,xcpfsReadNats,readMetaNat,insertNat,updateNat,NatInfo.lookup,NatInfo.listed,NatInfo.free,rootIno,metaIno]
  rw [cache]
  simp only [NatInfo.slot,NatInfo.listed,NatInfo.free,List.find?_nil,Option.map_none,Option.or_none]
  by_cases top : n = metaIno
  · rw [top]
    rfl
  · rw [if_neg top,List.find?_cons_of_neg (by simpa using Ne.symm top)]
    by_cases dir : n = rootIno
    · rw [dir]
      rfl
    · rw [if_neg dir,List.find?_cons_of_neg (by simpa using Ne.symm dir)]
      by_cases file : n = 2730454
      · rw [file]
        rfl
      · rw [if_neg file,List.find?_cons_of_neg (by simpa using Ne.symm file)]
        rfl

theorem sparseInv : MountInv sparseMount := by
  have slots := sparseSlot
  refine leafInv rfl rfl sparseLeaf (fun _ => rfl) (fun n member => ?_) (fun n outside => ?_) fun n member low => ?_
  · refine ⟨?_,?_⟩
    · rcases of_decide_eq_true member with rfl | rfl | rfl
      · exact .inl rfl
      · exact .inr ⟨by decide,.inl (by decide)⟩
      · exact .inr ⟨by decide,.inr (by decide)⟩
    · rw [slots]
      rcases of_decide_eq_true member with rfl | rfl | rfl
      · exact ⟨_,rfl,by decide⟩
      · exact ⟨_,rfl,by decide⟩
      · exact ⟨_,rfl,by decide⟩
  · have none_ : ¬(n = metaIno ∨ n = rootIno ∨ n = 2730454) := of_decide_eq_false outside
    rw [not_or,not_or] at none_
    exact (slots n).trans ((if_neg none_.1).trans ((if_neg none_.2.1).trans (if_neg none_.2.2)))
  · rcases of_decide_eq_true member with rfl | rfl | rfl
    · exact .inl rfl
    · exact .inr rfl
    · exact absurd low (by decide)

theorem sparseHole (q : TreePath) : blockAt sparseMount.fs.content 2730454 q = 0 := by
  cases path : follow (child sparseMount.fs.content) 2730454 q.nodes with
  | none => exact blockAtMissing path
  | some d =>
    rw [blockAtFound path]
    exact (congrArg q.word (ite_self _)).trans (zeroWord q)

/-- Its first block: the word for it is in the inode. -/
theorem holesReadZeroInode : ∃ q : TreePath, q.index = 0 ∧
    (ReadsAsHole sparseMount.fs (xcpfsReadDataFolio (defAddrsPerInode + 0) (0 + 2) (fun _ _ => 7) 2730454 q.index
      ⟨false,fun _ => 7⟩ sparseMount.fs) ↔
      if DataPage.uptodate ⟨false,fun _ => 7⟩ = true then DataPage.Zero ⟨false,fun _ => 7⟩
      else ∃ d, follow (child sparseMount.fs.content) 2730454 q.nodes = some d) := by
  obtain ⟨q,first⟩ : ∃ q : TreePath, q.index = 0 := ⟨_,TreePath.indexOfIndex 0 (by decide)⟩
  exact ⟨q,first,holesReadZero sparseInv rfl q (sparseHole q) 0 0 _ _⟩

/-- Extended to 901 blocks, with no direct node: reading the last of them fails. -/
theorem holeReadFails : MountInv sparseMount ∧ sparseMount.inodes 2730454 = true ∧ ∃ q : TreePath,
    q.index < (901 * pageSize + (pageSize - 1)) / pageSize ∧ blockAt sparseMount.fs.content 2730454 q = 0 ∧
      ∀ rounds depth blocks bytes, ¬ReadsAsHole sparseMount.fs
        (xcpfsReadDataFolio (defAddrsPerInode + rounds) (depth + 2) blocks 2730454 q.index ⟨false,bytes⟩ sparseMount.fs) := by
  obtain ⟨q,last⟩ : ∃ q : TreePath, q.index = 900 := ⟨_,TreePath.indexOfIndex 900 (by decide)⟩
  refine ⟨sparseInv,rfl,q,?_,sparseHole q,fun rounds depth blocks bytes => ?_⟩
  · rw [last]
    decide
  · have missing : follow (child sparseMount.fs.content) 2730454 q.nodes = none := by
      cases path : follow (child sparseMount.fs.content) 2730454 q.nodes with
      | none => rfl
      | some d =>
        obtain ⟨top,_⟩ := followLeaf sparseLeaf path
        cases q with
        | inode slot =>
          have low := slot.isLt
          simp only [TreePath.index] at last
          omega
        | direct top slot => cases top
        | indirect top mid slot => cases top
        | double top mid slot => cases top
    obtain ⟨known,ok⟩ := sparseInv.ok
    have inside : 2730454 ∈ {n | sparseMount.inodes n = true} := rfl
    obtain ⟨t,_,fails,_⟩ := holeEnds sparseInv.metaIn (Nat.le_add_right defAddrsPerInode rounds) inside ok sparseInv.sound
      (sparseHole q) depth blocks bytes
    rintro ⟨u,page,read,_⟩
    cases read.symm.trans (fails missing)

end Xcpfs
