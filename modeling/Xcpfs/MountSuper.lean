import Xcpfs.InodePage
import Xcpfs.MountMemory
import Xcpfs.SuperRound

/-! `xcpfs_fill_super` with what its callees may answer. Pointers are null, an error or an inode,
and the mount does not come back once it goes through one that is no inode. A node page whose
read failed is taken as any other: `xcpfs_read_end_io` does not look at the status. -/
namespace Xcpfs
open CBytes

inductive PtrError where | enomem | eio
  deriving DecidableEq, Repr

/- `struct inode *`; an inode is named by its number. -/
inductive InodePtr where
  | null
  | err (e : PtrError)
  | inode (ino : Nat)
  deriving DecidableEq, Repr

/- How `__prepare_page` ends for a node page: an error pointer, a page with its content and the
status its read ended with, or a null pointer that is followed. -/
inductive NodeRead where
  | error
  | page (content : Memory) (status : BlkStatus)
  | fault

/- What a mount meets. `grab` answers `xcpfs_grab_page` for a block, none is an error pointer; the
number at `inodeAlloc` tells the three calls of `xcpfs_iget` apart. -/
structure MountEnv where
  sbInfo : Bool
  raw : ZmInfo
  bdev : BlockDevice
  kmalloc : Nat → Nat → Bool
  grab : Int → Option Memory
  inodeAlloc : Nat → Bool
  nodeRead : Nat → NodeRead
  zitPage : Nat → Option ZitBlock

/- `sbi` with the inode hash of its super block. -/
structure FillState where
  zm : ZmInfo
  sbi : SuperCounts
  nm : NatInfo
  nodeInode : InodePtr
  metaInode : InodePtr
  rootInode : InodePtr
  inodes : Nat → Option KernelInode

namespace MountEnv

/-- The zone table before the superblock is read. -/
def zoneTable (env : MountEnv) : Option ZmInfo :=
  (xcpfsInitZmInfo env.raw env.bdev).bind fun zm =>
    if 6 < zm.nrZones then some (((zm.typeZone 3 .metaNode).typeZone 5 .regNode).typeZone 6 .regData) else none

end MountEnv

def superBlock (zm : ZmInfo) : Int :=
  let zone := zm.zoneInfo (pickSuperZone zm.zoneSize (zm.zoneInfo 0) (zm.zoneInfo 1))
  sectorToBlock ((zone.wp + 2 ^ 64 - 1) % 2 ^ 64)

namespace FillState

/-- `kzalloc` of `sbi`, and the NAT lists of `xcpfs_init_nat_info`. -/
def fresh (zm : ZmInfo) : FillState := ⟨zm,⟨0,0,0,0,0,0,0⟩,⟨[],[]⟩,.null,.null,.null,fun _ => none⟩

/-- `xcpfs_read_super` with what it returns. -/
def readSuper (env : MountEnv) (s : FillState) : FillState × Int :=
  match env.grab (superBlock s.zm) with
  | none => (s,0)
  | some page =>
    let (read,parsed) := readSuperPage page
    match parsed with
    | .error _ => (s,-5)
    | .ok () => ({ s with sbi := read.sbi, nm := read.nm },0)

/-- `get_node_page` goes through `sbi->node_inode`, and for a nid without an entry in the cache
through `sbi->meta_inode`. -/
def getNodePage (env : MountEnv) (nid : Nat) (s : FillState) : NodeRead :=
  match s.nodeInode,s.nm.lookup nid,s.metaInode with
  | .inode _,some _,_ => env.nodeRead nid
  | .inode _,none,.inode _ => env.nodeRead nid
  | _,_,_ => .fault

def newInode : KernelInode := ⟨0,0,0,0,0,0,⟨0,0⟩,⟨0,0⟩,⟨0,0⟩,0⟩

def hash (s : FillState) (ino : Nat) (inode : KernelInode) : FillState :=
  { s with inodes := Function.update s.inodes ino (some inode) }

def xcpfsIget (env : MountEnv) (call ino : Nat) (s : FillState) : Option (FillState × InodePtr) :=
  match s.inodes ino with
  | some _ => some (s,.inode ino)
  | none =>
    if env.inodeAlloc call = false then some (s,.err .enomem)
    else if ino = nodeIno then some (s.hash ino newInode,.inode ino)
    else match getNodePage env ino s with
      | .fault => none
      -- `iget_failed` takes the inode out of the hash
      | .error => some (s,.err .eio)
      | .page content _ => some (s.hash ino (xcpfsFillInode newInode (rawInode content)),.inode ino)

/-- The rest of the mount behind the three inodes: the pages of the ZIT are read through the meta
inode and the node inode, and `d_make_root` goes through its argument. -/
def finish (env : MountEnv) (s : FillState) : Option (FillState × Int) :=
  match s.nodeInode,s.metaInode,s.rootInode with
  | .inode _,.inode _,.inode _ => (xcpfsGetZitPages env.kmalloc env.zitPage s.zm).map fun zm => ({ s with zm := zm },0)
  | _,_,_ => none

def igetRoot (env : MountEnv) (s : FillState) : Option (FillState × Int) :=
  (xcpfsIget env 2 s.sbi.rootIno s).bind fun (s,root) =>
    if root = .null then some (s,-5) else finish env { s with rootInode := root }

def igetMeta (env : MountEnv) (s : FillState) : Option (FillState × Int) :=
  (xcpfsIget env 1 s.sbi.metaIno s).bind fun (s,metaPtr) =>
    let s := { s with metaInode := metaPtr }
    if metaPtr = .null then some (s,-5) else igetRoot env s

def igetNode (env : MountEnv) (s : FillState) : Option (FillState × Int) :=
  (xcpfsIget env 0 s.sbi.nodeIno s).bind fun (s,node) =>
    let s := { s with nodeInode := node }
    if node = .null then some (s,-5) else igetMeta env s

end FillState

/-- `xcpfs_fill_super` with what it returns; no result is a mount that does not come back. -/
def xcpfsFillSuper (env : MountEnv) : Option (Option FillState × Int) :=
  if env.sbInfo = false then some (none,-12)
  else env.zoneTable.bind fun zm =>
    ((FillState.fresh zm).readSuper env).1.igetNode env |>.map fun (s,ret) => (some s,ret)

/- The three inode numbers come from a superblock with the magic, and the pointers name inodes
whose node pages were read. -/
structure LoadedSuper (env : MountEnv) (s : FillState) : Prop where
  super : ∃ zm page, env.zoneTable = some zm ∧ env.grab (superBlock zm) = some page ∧
    getField page XcpfsSuperBlock.magic = xcpfsMagic ∧ s.sbi = superCounts page
  nodeInode : s.nodeInode = .inode s.sbi.nodeIno
  metaInode : s.metaInode = .inode s.sbi.metaIno
  rootInode : s.rootInode = .inode s.sbi.rootIno
  read : ∀ ino ∈ [s.sbi.nodeIno,s.sbi.metaIno,s.sbi.rootIno], ino ≠ nodeIno → ∃ content, env.nodeRead ino = .page content .ok

/- What lets a mount come to its end: memory, a superblock with the magic and the right `node_ino`,
an entry of its journal for `meta_ino`, and node pages, with whatever status. -/
structure Arrives (env : MountEnv) (zm : ZmInfo) (page : Memory) : Prop where
  sbInfo : env.sbInfo = true
  table : env.zoneTable = some zm
  grabbed : env.grab (superBlock zm) = some page
  magic : getField page XcpfsSuperBlock.magic = xcpfsMagic
  node : (superCounts page).nodeIno = nodeIno ∧ env.inodeAlloc 0 = true
  metaPage : (superCounts page).metaIno = nodeIno ∨ env.inodeAlloc 1 = true ∧
    (readSuperPage page).1.nm.lookup (superCounts page).metaIno ≠ none ∧
      ∃ content status, env.nodeRead (superCounts page).metaIno = .page content status
  rootPage : (superCounts page).rootIno = nodeIno ∨ (superCounts page).rootIno = (superCounts page).metaIno ∨
    env.inodeAlloc 2 = true ∧ ∃ content status, env.nodeRead (superCounts page).rootIno = .page content status
  zit : (xcpfsGetZitPages env.kmalloc env.zitPage zm).isSome = true

/- No mount that comes to its end had a failed read of a node page. -/
def ReadsSucceed (env : MountEnv) : Prop :=
  ∀ zm page, Arrives env zm page → ∀ ino ∈ [(superCounts page).metaIno,(superCounts page).rootIno], ino ≠ nodeIno →
    ∀ content, env.nodeRead ino ≠ .page content .ioerr

section
variable {env : MountEnv} {s t : FillState} {call ino : Nat}

/- Everything but the hash is as before, and the hash has the inode. -/
def HashKept (s t : FillState) (ino : Nat) : Prop :=
  ∃ inodes, t = { s with inodes := inodes } ∧ ∀ other, (inodes other).isSome = true ↔ (s.inodes other).isSome = true ∨ other = ino

def Gets (env : MountEnv) (call ino : Nat) (s : FillState) : Prop :=
  (s.inodes ino).isSome = true ∨
    env.inodeAlloc call = true ∧ (ino = nodeIno ∨ ∃ content status, s.getNodePage env ino = .page content status)

theorem hashKept (inode : KernelInode) : HashKept s (s.hash ino inode) ino := by
  refine ⟨_,rfl,fun other => ?_⟩
  by_cases same : other = ino
  · subst same
    simp
  · simp [same]

theorem igetGets {ptr : InodePtr} (ran : s.xcpfsIget env call ino = some (t,ptr)) :
    ptr = .inode ino ∧ Gets env call ino s ∧ HashKept s t ino ∨ (∃ e, ptr = .err e) ∧ t = s := by
  unfold FillState.xcpfsIget at ran
  split at ran
  case h_1 inode cached =>
    cases ran
    have have_ : (s.inodes ino).isSome = true := by rw [cached]; rfl
    exact .inl ⟨rfl,.inl have_,_,rfl,fun other => ⟨.inl,fun either => either.elim id fun same => same ▸ have_⟩⟩
  case h_2 unknown =>
    split at ran
    case isTrue unable =>
      cases ran
      exact .inr ⟨⟨_,rfl⟩,rfl⟩
    case isFalse able =>
      have allocated := eq_true_of_ne_false able
      split at ran
      case isTrue node =>
        cases ran
        exact .inl ⟨rfl,.inr ⟨allocated,.inl node⟩,hashKept _⟩
      case isFalse =>
        split at ran
        case h_1 => cases ran
        case h_2 =>
          cases ran
          exact .inr ⟨⟨_,rfl⟩,rfl⟩
        case h_3 content status read =>
          cases ran
          exact .inl ⟨rfl,.inr ⟨allocated,.inr ⟨content,status,read⟩⟩,hashKept _⟩

theorem igetOf (gets : Gets env call ino s) : ∃ t, s.xcpfsIget env call ino = some (t,.inode ino) ∧ HashKept s t ino := by
  unfold FillState.xcpfsIget
  cases cached : s.inodes ino with
  | some inode =>
    have have_ : (s.inodes ino).isSome = true := by rw [cached]; rfl
    exact ⟨s,rfl,_,rfl,fun other => ⟨.inl,fun either => either.elim id fun same => same ▸ have_⟩⟩
  | none =>
    obtain known | ⟨allocated,page⟩ := gets
    · rw [cached] at known
      cases known
    · dsimp only
      rw [if_neg (ne_false_of_eq_true allocated)]
      by_cases node : ino = nodeIno
      · rw [if_pos node]
        exact ⟨_,rfl,hashKept _⟩
      · obtain ⟨content,status,read⟩ := page.resolve_left node
        rw [if_neg node,read]
        exact ⟨_,rfl,hashKept _⟩

theorem finishIff : s.finish env = some (t,0) ↔ (∃ node metaNr root, s.nodeInode = .inode node ∧ s.metaInode = .inode metaNr ∧
    s.rootInode = .inode root) ∧ ∃ zm, xcpfsGetZitPages env.kmalloc env.zitPage s.zm = some zm ∧ t = { s with zm := zm } := by
  unfold FillState.finish
  constructor
  · intro ran
    split at ran
    case h_1 node metaNr root hasNode hasMeta hasRoot =>
      obtain ⟨zm,read,same⟩ := Option.map_eq_some_iff.mp ran
      exact ⟨⟨node,metaNr,root,hasNode,hasMeta,hasRoot⟩,zm,read,(Prod.mk.inj same).1.symm⟩
    case h_2 => cases ran
  · intro ⟨⟨node,metaNr,root,hasNode,hasMeta,hasRoot⟩,zm,read,same⟩
    simp only [hasNode,hasMeta,hasRoot,read,same,Option.map_some]

theorem rootIff : s.igetRoot env = some (t,0) ↔ (∃ node metaNr, s.nodeInode = .inode node ∧ s.metaInode = .inode metaNr) ∧
    Gets env 2 s.sbi.rootIno s ∧ ∃ u zm, s.xcpfsIget env 2 s.sbi.rootIno = some (u,.inode s.sbi.rootIno) ∧
      HashKept s u s.sbi.rootIno ∧ xcpfsGetZitPages env.kmalloc env.zitPage s.zm = some zm ∧
      t = { u with rootInode := .inode s.sbi.rootIno, zm := zm } := by
  unfold FillState.igetRoot
  constructor
  · intro ran
    obtain ⟨⟨u,root⟩,got,rest⟩ := Option.bind_eq_some_iff.mp ran
    dsimp only at rest
    obtain ⟨rfl,gets,fetched⟩ | ⟨⟨e,rfl⟩,_⟩ := igetGets got
    · rw [if_neg (by simp)] at rest
      obtain ⟨⟨node,metaNr,root,hasNode,hasMeta,_⟩,zm,read,same⟩ := finishIff.mp rest
      obtain ⟨inodes,rfl,hashed⟩ := fetched
      exact ⟨⟨node,metaNr,hasNode,hasMeta⟩,gets,_,zm,got,⟨inodes,rfl,hashed⟩,read,same⟩
    · rw [if_neg (by simp)] at rest
      obtain ⟨⟨node,metaNr,root,_,_,hasRoot⟩,_⟩ := finishIff.mp rest
      cases hasRoot
  · intro ⟨⟨node,metaNr,hasNode,hasMeta⟩,_,u,zm,got,fetched,read,same⟩
    obtain ⟨inodes,rfl,_⟩ := fetched
    rw [got,Option.bind_some]
    dsimp only
    rw [if_neg (by simp)]
    exact finishIff.mpr ⟨⟨node,metaNr,s.sbi.rootIno,hasNode,hasMeta,rfl⟩,zm,read,same⟩

theorem metaIff : s.igetMeta env = some (t,0) ↔ ∃ u, s.xcpfsIget env 1 s.sbi.metaIno = some (u,.inode s.sbi.metaIno) ∧
    Gets env 1 s.sbi.metaIno s ∧ HashKept s u s.sbi.metaIno ∧ { u with metaInode := .inode s.sbi.metaIno }.igetRoot env = some (t,0) := by
  unfold FillState.igetMeta
  constructor
  · intro ran
    obtain ⟨⟨u,metaPtr⟩,got,rest⟩ := Option.bind_eq_some_iff.mp ran
    dsimp only at rest
    obtain ⟨rfl,gets,fetched⟩ | ⟨⟨e,rfl⟩,_⟩ := igetGets got
    · rw [if_neg (by simp)] at rest
      exact ⟨u,got,gets,fetched,rest⟩
    · rw [if_neg (by simp)] at rest
      obtain ⟨⟨node,metaNr,_,hasMeta⟩,_⟩ := rootIff.mp rest
      cases hasMeta
  · intro ⟨u,got,_,_,rest⟩
    rw [got,Option.bind_some]
    dsimp only
    rwa [if_neg (by simp)]

theorem nodeIff : s.igetNode env = some (t,0) ↔ ∃ u, s.xcpfsIget env 0 s.sbi.nodeIno = some (u,.inode s.sbi.nodeIno) ∧
    Gets env 0 s.sbi.nodeIno s ∧ HashKept s u s.sbi.nodeIno ∧ { u with nodeInode := .inode s.sbi.nodeIno }.igetMeta env = some (t,0) := by
  unfold FillState.igetNode
  constructor
  · intro ran
    obtain ⟨⟨u,node⟩,got,rest⟩ := Option.bind_eq_some_iff.mp ran
    dsimp only at rest
    obtain ⟨rfl,gets,fetched⟩ | ⟨⟨e,rfl⟩,_⟩ := igetGets got
    · rw [if_neg (by simp)] at rest
      exact ⟨u,got,gets,fetched,rest⟩
    · rw [if_neg (by simp)] at rest
      obtain ⟨v,_,_,fetched,rest⟩ := metaIff.mp rest
      obtain ⟨⟨node,metaNr,hasNode,_⟩,_⟩ := rootIff.mp rest
      obtain ⟨inodes,rfl,_⟩ := fetched
      cases hasNode
  · intro ⟨u,got,_,_,rest⟩
    rw [got,Option.bind_some]
    dsimp only
    rwa [if_neg (by simp)]

/- Before the first inode no number in `sbi` can be used but that of the node inode. -/
theorem nodeFirst (none_ : ∀ ino, s.inodes ino = none) (noNode : s.nodeInode = .null) :
    Gets env 0 s.sbi.nodeIno s ↔ s.sbi.nodeIno = nodeIno ∧ env.inodeAlloc 0 = true := by
  have faults : ∀ ino, s.getNodePage env ino = .fault := by
    intro ino
    unfold FillState.getNodePage
    rw [noNode]
  unfold Gets
  rw [none_]
  constructor
  · intro gets
    obtain known | ⟨allocated,node | ⟨content,status,read⟩⟩ := gets
    · cases known
    · exact ⟨node,allocated⟩
    · rw [faults] at read
      cases read
  · intro ⟨node,allocated⟩
    exact .inr ⟨allocated,.inl node⟩

theorem metaSecond {n : Nat} (hasNode : s.nodeInode = .inode n) (noMeta : s.metaInode = .null)
    (hashed : ∀ other, (s.inodes other).isSome = true ↔ other = nodeIno) : Gets env 1 ino s ↔ ino = nodeIno ∨
      env.inodeAlloc 1 = true ∧ s.nm.lookup ino ≠ none ∧ ∃ content status, env.nodeRead ino = .page content status := by
  have read : ∀ content status, s.getNodePage env ino = .page content status ↔
      s.nm.lookup ino ≠ none ∧ env.nodeRead ino = .page content status := by
    intro content status
    unfold FillState.getNodePage
    rw [hasNode,noMeta]
    cases s.nm.lookup ino with
    | none => simp
    | some ne => simp
  unfold Gets
  rw [hashed]
  simp only [read]
  constructor
  · intro gets
    obtain node | ⟨allocated,node | ⟨content,status,listed,page⟩⟩ := gets
    · exact .inl node
    · exact .inl node
    · exact .inr ⟨allocated,listed,content,status,page⟩
  · intro gets
    obtain node | ⟨allocated,listed,content,status,page⟩ := gets
    · exact .inl node
    · exact .inr ⟨allocated,.inr ⟨content,status,listed,page⟩⟩

theorem rootThird {n metaNr : Nat} (hasNode : s.nodeInode = .inode n) (hasMeta : s.metaInode = .inode metaNr)
    (hashed : ∀ other, (s.inodes other).isSome = true ↔ other = nodeIno ∨ other = metaNr) : Gets env 2 ino s ↔
      ino = nodeIno ∨ ino = metaNr ∨ env.inodeAlloc 2 = true ∧ ∃ content status, env.nodeRead ino = .page content status := by
  have read : s.getNodePage env ino = env.nodeRead ino := by
    unfold FillState.getNodePage
    rw [hasNode,hasMeta]
    cases s.nm.lookup ino <;> rfl
  unfold Gets
  rw [hashed,read]
  constructor
  · intro gets
    obtain (node | same) | ⟨allocated,node | page⟩ := gets
    · exact .inl node
    · exact .inr (.inl same)
    · exact .inl node
    · exact .inr (.inr ⟨allocated,page⟩)
  · intro gets
    obtain node | same | ⟨allocated,page⟩ := gets
    · exact .inl (.inl node)
    · exact .inl (.inr same)
    · exact .inr ⟨allocated,.inr page⟩

/- What a page with the magic makes of a fresh `sbi`. -/
def FillState.parsed (zm : ZmInfo) (page : Memory) : FillState :=
  ⟨zm,superCounts page,(readSuperPage page).1.nm,.null,.null,.null,fun _ => none⟩

/- The super block after `xcpfs_read_super`: as it was, or as the page says. -/
theorem readSuperCases (zm : ZmInfo) :
    ((FillState.fresh zm).readSuper env).1 = FillState.fresh zm ∧ (∀ page, env.grab (superBlock zm) = some page →
      getField page XcpfsSuperBlock.magic ≠ xcpfsMagic) ∨
    ∃ page, env.grab (superBlock zm) = some page ∧ getField page XcpfsSuperBlock.magic = xcpfsMagic ∧
      ((FillState.fresh zm).readSuper env).1 = FillState.parsed zm page := by
  have table : (FillState.fresh zm).zm = zm := rfl
  unfold FillState.readSuper
  rw [table]
  cases grabbed : env.grab (superBlock zm) with
  | none => exact .inl ⟨rfl,fun page bad => absurd bad.symm (Option.some_ne_none page)⟩
  | some page =>
    by_cases magic : getField page XcpfsSuperBlock.magic = xcpfsMagic
    · obtain ⟨done,counts⟩ := readSuperRight magic
      refine .inr ⟨page,rfl,magic,?_⟩
      dsimp only
      rw [done,counts]
      rfl
    · refine .inl ⟨?_,fun other same => Option.some.inj same ▸ magic⟩
      dsimp only
      rw [readSuperWrong magic]

theorem hashedNode {inodes : Nat → Option KernelInode} {page : Memory} (isNode : (superCounts page).nodeIno = nodeIno)
    (hashed : ∀ other, (inodes other).isSome = true ↔
      (none : Option KernelInode).isSome = true ∨ other = (superCounts page).nodeIno) (other : Nat) :
    (inodes other).isSome = true ↔ other = nodeIno := by
  rw [hashed,isNode]
  simp

theorem hashedMeta {inodes later : Nat → Option KernelInode} {metaNr : Nat}
    (first : ∀ other, (inodes other).isSome = true ↔ other = nodeIno)
    (hashed : ∀ other, (later other).isSome = true ↔ (inodes other).isSome = true ∨ other = metaNr) (other : Nat) :
    (later other).isSome = true ↔ other = nodeIno ∨ other = metaNr := by
  rw [hashed]
  exact or_congr (first other) Iff.rfl

theorem fillReturns (ran : xcpfsFillSuper env = some (some t,0)) : ∃ zm page, Arrives env zm page ∧ t.sbi = superCounts page ∧
    t.nodeInode = .inode t.sbi.nodeIno ∧ t.metaInode = .inode t.sbi.metaIno ∧ t.rootInode = .inode t.sbi.rootIno := by
  unfold xcpfsFillSuper at ran
  split at ran
  case isTrue => cases ran
  case isFalse given =>
  obtain ⟨zm,table,rest⟩ := Option.bind_eq_some_iff.mp ran
  obtain ⟨⟨w,ret⟩,filled,same⟩ := Option.map_eq_some_iff.mp rest
  obtain ⟨rfl,rfl⟩ : w = t ∧ ret = 0 := by simpa using same
  obtain ⟨unread,_⟩ | ⟨page,grabbed,magic,loaded⟩ := @readSuperCases env zm
  · rw [unread] at filled
    obtain ⟨_,_,gets,_⟩ := nodeIff.mp filled
    cases ((nodeFirst (fun _ => rfl) rfl).mp gets).1
  · rw [loaded] at filled
    obtain ⟨_,_,gets,⟨inodes,rfl,hashed⟩,rest⟩ := nodeIff.mp filled
    obtain ⟨isNode,allocated⟩ := (nodeFirst (fun _ => rfl) rfl).mp gets
    have first := hashedNode isNode hashed
    obtain ⟨_,_,getsMeta,⟨later,rfl,hashed⟩,rest⟩ := metaIff.mp rest
    have second := hashedMeta first hashed
    obtain ⟨_,getsRoot,_,last,_,⟨_,rfl,_⟩,zit,rfl⟩ := rootIff.mp rest
    refine ⟨zm,page,⟨eq_true_of_ne_false given,table,grabbed,magic,⟨isNode,allocated⟩,?_,?_,?_⟩,rfl,rfl,rfl,rfl⟩
    · exact (metaSecond rfl rfl first).mp getsMeta
    · exact (rootThird rfl rfl second).mp getsRoot
    · exact Option.isSome_iff_exists.mpr ⟨last,zit⟩

theorem arrivesReturns {zm : ZmInfo} {page : Memory} (arrives : Arrives env zm page) : ∃ t, xcpfsFillSuper env = some (some t,0) ∧
    t.sbi = superCounts page := by
  obtain ⟨last,zit⟩ := Option.isSome_iff_exists.mp arrives.zit
  obtain ⟨_,wrong⟩ | ⟨_,grabbed,magic,loaded⟩ := @readSuperCases env zm
  · exact absurd arrives.magic (wrong page arrives.grabbed)
  · cases Option.some.inj (grabbed.symm.trans arrives.grabbed)
    have gets := (nodeFirst (s := FillState.parsed zm page) (fun _ => rfl) rfl).mpr arrives.node
    obtain ⟨_,got,inodes,rfl,hashed⟩ := igetOf gets
    have first := hashedNode arrives.node.1 hashed
    have getsMeta := (metaSecond (s := { FillState.parsed zm page with
      inodes := inodes, nodeInode := .inode (superCounts page).nodeIno }) rfl rfl first).mpr arrives.metaPage
    obtain ⟨_,gotMeta,later,rfl,hashedLater⟩ := igetOf getsMeta
    have second := hashedMeta first hashedLater
    have getsRoot := (rootThird (s := { FillState.parsed zm page with
      inodes := later, nodeInode := .inode (superCounts page).nodeIno, metaInode := .inode (superCounts page).metaIno }) rfl rfl second).mpr
        arrives.rootPage
    obtain ⟨v,gotRoot,fetched⟩ := igetOf getsRoot
    have root := rootIff.mpr ⟨⟨_,_,rfl,rfl⟩,getsRoot,v,last,gotRoot,fetched,zit,rfl⟩
    have all := nodeIff.mpr ⟨_,got,gets,⟨inodes,rfl,hashed⟩,metaIff.mpr ⟨_,gotMeta,getsMeta,⟨later,rfl,hashedLater⟩,root⟩⟩
    have ran : xcpfsFillSuper env = some (some { v with
        rootInode := .inode (superCounts page).rootIno, zm := last },0) := by
      unfold xcpfsFillSuper
      rw [if_neg (ne_false_of_eq_true arrives.sbInfo),arrives.table,Option.bind_some,loaded,all]
      rfl
    obtain ⟨_,rfl,_⟩ := fetched
    exact ⟨_,ran,rfl⟩

theorem rootZero {ret : Int} (ran : s.igetRoot env = some (t,ret)) : ret = 0 := by
  obtain ⟨⟨u,root⟩,got,rest⟩ := Option.bind_eq_some_iff.mp ran
  dsimp only at rest
  have some_ : root ≠ .null := by
    obtain ⟨rfl,_⟩ | ⟨⟨e,rfl⟩,_⟩ := igetGets got
    · exact InodePtr.noConfusion
    · exact InodePtr.noConfusion
  rw [if_neg some_] at rest
  unfold FillState.finish at rest
  split at rest
  · obtain ⟨zm,_,same⟩ := Option.map_eq_some_iff.mp rest
    exact (Prod.mk.inj same).2.symm
  · cases rest

theorem metaZero {ret : Int} (ran : s.igetMeta env = some (t,ret)) : ret = 0 := by
  obtain ⟨⟨u,metaPtr⟩,got,rest⟩ := Option.bind_eq_some_iff.mp ran
  dsimp only at rest
  have some_ : metaPtr ≠ .null := by
    obtain ⟨rfl,_⟩ | ⟨⟨e,rfl⟩,_⟩ := igetGets got
    · exact InodePtr.noConfusion
    · exact InodePtr.noConfusion
  rw [if_neg some_] at rest
  exact rootZero rest

theorem nodeZero {ret : Int} (ran : s.igetNode env = some (t,ret)) : ret = 0 := by
  obtain ⟨⟨u,node⟩,got,rest⟩ := Option.bind_eq_some_iff.mp ran
  dsimp only at rest
  have some_ : node ≠ .null := by
    obtain ⟨rfl,_⟩ | ⟨⟨e,rfl⟩,_⟩ := igetGets got
    · exact InodePtr.noConfusion
    · exact InodePtr.noConfusion
  rw [if_neg some_] at rest
  exact metaZero rest

/- With memory for `sbi` the mount returns 0 or not at all, and not at all without a superblock. -/
theorem fillReturnsZero {r : Option FillState} {ret : Int} (given : env.sbInfo = true) (ran : xcpfsFillSuper env = some (r,ret)) :
    ret = 0 := by
  unfold xcpfsFillSuper at ran
  rw [if_neg (ne_false_of_eq_true given)] at ran
  obtain ⟨zm,_,rest⟩ := Option.bind_eq_some_iff.mp ran
  obtain ⟨⟨w,_⟩,filled,same⟩ := Option.map_eq_some_iff.mp rest
  rw [← (Prod.mk.inj same).2]
  exact nodeZero filled

theorem unreadFaults {zm : ZmInfo} (given : env.sbInfo = true) (table : env.zoneTable = some zm)
    (unread : ∀ page, env.grab (superBlock zm) = some page → getField page XcpfsSuperBlock.magic ≠ xcpfsMagic) :
    xcpfsFillSuper env = none := by
  refine Option.eq_none_iff_forall_ne_some.mpr fun result ran => ?_
  obtain ⟨r,ret⟩ := result
  cases fillReturnsZero given ran
  cases r with
  | none =>
    unfold xcpfsFillSuper at ran
    rw [if_neg (ne_false_of_eq_true given),table] at ran
    obtain ⟨_,_,same⟩ := Option.map_eq_some_iff.mp ran
    cases same
  | some t =>
    obtain ⟨zm',page,arrives,_⟩ := fillReturns ran
    cases Option.some.inj (table.symm.trans arrives.table)
    exact unread page arrives.grabbed arrives.magic

theorem returnsLoaded (succeed : ReadsSucceed env) (ran : xcpfsFillSuper env = some (some t,0)) : LoadedSuper env t := by
  obtain ⟨zm,page,arrives,sbi,node,metaPtr,root⟩ := fillReturns ran
  have ok : ∀ ino ∈ [(superCounts page).metaIno,(superCounts page).rootIno], ino ≠ nodeIno →
      (∃ content status, env.nodeRead ino = .page content status) → ∃ content, env.nodeRead ino = .page content .ok := by
    intro ino member other ⟨content,status,read⟩
    cases status with
    | ok => exact ⟨content,read⟩
    | ioerr => exact absurd read (succeed zm page arrives ino member other content)
  have metaRead : (superCounts page).metaIno ≠ nodeIno → ∃ content, env.nodeRead (superCounts page).metaIno = .page content .ok :=
    fun other => ok _ (by simp) other (arrives.metaPage.resolve_left other).2.2
  refine ⟨⟨zm,page,arrives.table,arrives.grabbed,arrives.magic,sbi⟩,node,metaPtr,root,?_⟩
  rw [sbi]
  simp only [List.forall_mem_cons,List.not_mem_nil,false_implies,implies_true,and_true]
  refine ⟨fun other => absurd arrives.node.1 other,metaRead,fun other => ?_⟩
  obtain same | ⟨_,read⟩ := arrives.rootPage.resolve_left other
  · rw [same] at other ⊢
    exact metaRead other
  · exact ok _ (by simp) other read

theorem loadedSucceed (loads : ∀ t, xcpfsFillSuper env = some (some t,0) → LoadedSuper env t) : ReadsSucceed env := by
  intro zm page arrives ino member other content failed
  obtain ⟨t,ran,sbi⟩ := arrivesReturns arrives
  have read := (loads t ran).read
  rw [sbi] at read
  obtain ⟨content,fine⟩ := read ino (List.mem_cons_of_mem _ member) other
  rw [failed] at fine
  cases fine

end

/-- A mount that returns 0 is of a loaded superblock, with the three inodes got without error, if and
only if no mount gets to its end behind a failed read of the node page of `meta_ino` or `root_ino`. -/
theorem mountLoads (env : MountEnv) : (∀ t, xcpfsFillSuper env = some (some t,0) → LoadedSuper env t) ↔ ReadsSucceed env :=
  ⟨loadedSucceed,fun succeed _ ran => returnsLoaded succeed ran⟩

/- The superblock of mkfs: its header and its two entries. -/
def mkfsCounts : SuperCounts := ⟨3,1,2,1,1,1,3⟩
def mkfsEntries : List MetaNat := [⟨3,3,20⟩,⟨1,1,12⟩]
def mkfsSuper : Memory := journalPage blankJournal mkfsCounts mkfsEntries

theorem mkfsHolds : Holds (mkfsEntries.foldl CpJournal.appendNat (blankJournal.initCpsb mkfsCounts)) mkfsCounts mkfsEntries := by
  have words : mkfsCounts.Words := ⟨by decide,by decide,by decide,by decide,by decide,by decide⟩
  have journaled : ∀ m ∈ mkfsEntries, Journaled m := by
    simp only [mkfsEntries,List.forall_mem_cons,List.not_mem_nil,false_implies,implies_true,and_true]
    exact ⟨⟨by decide,by decide,by decide,by decide,by decide⟩,⟨by decide,by decide,by decide,by decide,by decide⟩⟩
  exact appendsHold words (by decide) journaled

/- A device that answers every read but that of the root inode, whose page keeps what it had. -/
def badRootEnv : MountEnv where
  sbInfo := true
  raw := blankTable mkfsDevice
  bdev := mkfsDevice
  kmalloc := fun _ _ => false
  grab := fun _ => some mkfsSuper
  inodeAlloc := fun _ => true
  nodeRead := fun ino => .page (fun _ => 255) (if ino = 3 then .ioerr else .ok)
  zitPage := fun _ => none

def mkfsZones : ZmInfo := badRootEnv.zoneTable.getD (blankTable mkfsDevice)

theorem mkfsArrives : Arrives badRootEnv mkfsZones mkfsSuper := by
  have counts : superCounts mkfsSuper = mkfsCounts := mkfsHolds.counts
  have cache : (readSuperPage mkfsSuper).1.nm = xcpfsReadNats mkfsEntries := (readJournal mkfsHolds).2.2
  refine ⟨rfl,rfl,rfl,mkfsHolds.magic,?_,?_,?_,rfl⟩
  · rw [counts]
    exact ⟨rfl,rfl⟩
  · rw [counts,cache]
    exact .inr ⟨rfl,by decide,_,_,rfl⟩
  · rw [counts]
    exact .inr (.inr ⟨rfl,_,_,rfl⟩)

/-- The mount returns 0 with a root inode made of a page that was never read. -/
theorem mountTakesGarbage : ¬∀ (env : MountEnv) (t : FillState), xcpfsFillSuper env = some (some t,0) → LoadedSuper env t := by
  intro claim
  have succeed := loadedSucceed (claim badRootEnv) mkfsZones mkfsSuper mkfsArrives
  have root : (superCounts mkfsSuper).rootIno = 3 := congrArg SuperCounts.rootIno mkfsHolds.counts
  rw [root] at succeed
  exact succeed 3 (by simp) (by decide) (fun _ => 255) rfl

end Xcpfs
