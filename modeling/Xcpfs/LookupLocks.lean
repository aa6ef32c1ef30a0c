import Xcpfs.Prepare
import Xcpfs.Xio

/-! The way to a NAT entry with the page locks that are held on it. The calls are those of
`Fs`; each also gets the pages that its callers have locked, and says why it does not come
back where it does not. -/
namespace Xcpfs

/- A page of the node inode or of the meta inode. -/
inductive LockedPage where
  | node (nid : Nat)
  | metaData (iblock : Nat)
  deriving DecidableEq, Repr

/- The call waits for a page that its own chain holds, calls itself deeper than allowed, loops
longer than allowed, or goes on with no page. -/
inductive Stop where | deadlock | depth | rounds | fault
  deriving DecidableEq, Repr

def lockPage (held : List LockedPage) (page : LockedPage) : Except Stop (List LockedPage) :=
  if page ∈ held then .error .deadlock else .ok (page :: held)

/- `read_raw_nat_block` and the entry of its block into the cache. -/
abbrev LoadBlock := List LockedPage → Nat → Fs → Except Stop Fs

namespace Locked

def lookupNat (load : LoadBlock) (held : List LockedPage) (nid : Nat) (s : Fs) : Except Stop (Fs × NatEntry) :=
  match s.nat.nm.lookup nid with
  | some ne => .ok (s,ne)
  | none => do
    let s ← load held (nid / natEntryPerBlock) s
    match s.nat.nm.lookup nid with
    | some ne => .ok (s,ne)
    | none => .error .fault

/-- The page comes back locked; `submit_node_xio` looks its nid up under the lock. -/
def getNodePage (load : LoadBlock) (held : List LockedPage) (nid : Nat) (s : Fs) : Except Stop Fs := do
  let inner ← lockPage held (.node nid)
  if s.cached nid then .ok s
  else
    let (s,ne) ← lookupNat load inner nid s
    .ok { s with
      nodes := if ne.blockAddr = 0 ∧ s.cached nid = false then Function.update s.nodes nid .zero else s.nodes
      cached := Function.update s.cached nid true }

def allocFreeNat (load : LoadBlock) (held : List LockedPage) (isMeta : Bool) : (rounds iblock : Nat) → Fs →
    Except Stop (Fs × NatEntry)
  | rounds,iblock,s =>
    match freeNatEmpty s.nat.nm isMeta,rounds with
    | some (nm,ne),_ => .ok ({ s with nat := { s.nat with nm := nm } },ne)
    | none,0 => .error .rounds
    | none,rounds + 1 => do allocFreeNat load held isMeta rounds (iblock + 1) (← load held iblock s)

/- The page `n` is unlocked while `alloc_free_nat` runs, and locked again for the pointer. -/
def newNode (load : LoadBlock) (held : List LockedPage) (rounds ino n : Nat) (e : Edge) (s : Fs) : Except Stop (Fs × Nat) := do
  let isMeta := decide (ino = metaIno)
  let (s,ne) ← allocFreeNat load held isMeta rounds (if isMeta then 0 else regNatStart) s
  let _ ← lockPage held (.node n)
  .ok ({ s with
    nodes := Function.update s.nodes n ((s.nodes n).setCell ne.nid e)
    nat := { s.nat with nm := s.nat.nm.modify ne.nid (NatUse.node ino).mark } },ne.nid)

/- Each page is unlocked before the next one is asked for. -/
def dnodeLoop (load : LoadBlock) (held : List LockedPage) (create : Bool) (rounds ino len : Nat) (offset : Nat → Int) :
    (left i nid : Nat) → Fs → Except Stop (Fs × Option Nat)
  | 0,_,_,s => .ok (s,none)
  | left + 1,i,nid,s => do
    let s ← getNodePage load held nid s
    if i = len then .ok (s,some nid)
    else
      let next := (s.nodes nid).cell (Fs.levelEdge offset i)
      if next ≠ 0 then dnodeLoop load held create rounds ino len offset left (i + 1) next s
      else if create = false then .ok (s,none)
      else
        let (s,next) ← newNode load held rounds ino nid (Fs.levelEdge offset i) s
        dnodeLoop load held create rounds ino len offset left (i + 1) next s

def getDnodePage (load : LoadBlock) (held : List LockedPage) (create : Bool) (rounds ino iblock : Nat) (s : Fs) :
    Except Stop (Fs × Option Nat) :=
  if iblock < maxBlocks then
    let (len,offset) := getPath iblock
    dnodeLoop load held create rounds ino len offset 4 0 ino s
  else .error .fault

/-- `do_prepare_page` for a page with data that is not uptodate: `none` is -EIO, `some 0` a page
of zeros, and any other address the block that is read. `submit_data_xio` walks to the dnode once
more; where it finds none it leaves the page locked, and the caller locks it next. -/
def preparePage (load : LoadBlock) (held : List LockedPage) (create : Bool) (rounds ino iblock : Nat) (s : Fs) :
    Except Stop (Fs × Option Nat) := do
  let (s,found) ← getDnodePage load held create rounds ino iblock s
  match found with
  | none => .ok (s,none)
  | some dnode =>
    if (s.nodes dnode).dataAddr iblock = 0 then .ok (s,some 0)
    else
      let (s,found) ← getDnodePage load held false rounds ino iblock s
      match found with
      | none => .error .deadlock
      | some dnode => .ok (s,some ((s.nodes dnode).dataAddr iblock))

/-- The page of the NAT block is locked from `read_raw_nat_block` until its entries are in the
cache; `depth` bounds the blocks that are read inside each other. -/
def readRawNatBlock (rounds : Nat) : (depth : Nat) → LoadBlock
  | 0,_,_,_ => .error .depth
  | depth + 1,held,iblock,s => do
    let inner ← lockPage held (.metaData iblock)
    let s ← if s.metaPages iblock then .ok s else
      match ← preparePage (readRawNatBlock rounds depth) inner true rounds metaIno iblock s with
      | (s,some _) => .ok { s with metaPages := Function.update s.metaPages iblock true }
      | (_,none) => .error .fault
    .ok { s with nat := { s.nat with nm := insertBlock s.nat.nm (s.nat.file iblock) iblock } }

end Locked
end Xcpfs
