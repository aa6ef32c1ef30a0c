import Xcpfs.Lib.WriteBack
import Xcpfs.OwnTruncate
import Xcpfs.SizeChange

/-! Data pages of files between their writers, the page cache and the device. A page is read or
zeroed before it is written to, goes to a new block later, and leaves the memory when it is
clean; what else a mount does goes on in between. -/
namespace Xcpfs
open PointerForest EventRun
open CBytes (Memory store)

/-- `do_prepare_page` for a page with data that is not uptodate: `none` is -EIO, `some 0` a page
of zeros, and any other address the block that `submit_data_xio` finds and reads. -/
def Fs.preparePage (fuel : Nat) (create : Bool) (rounds ino iblock : Nat) (s : Fs) : Option (Fs × Option Nat) :=
  (Fs.getDnodePage (Fs.readRawNatBlock fuel) create rounds ino iblock s).bind fun (s,found) =>
    match found with
    | none => some (s,none)
    | some dnode =>
      if (s.nodes dnode).dataAddr iblock = 0 then some (s,some 0)
      else (Fs.getDnodePage (Fs.readRawNatBlock fuel) false rounds ino iblock s).bind fun (s,found) =>
        found.map fun dnode => (s,some ((s.nodes dnode).dataAddr iblock))

/- An uptodate page. -/
structure FilePage where
  bytes : Memory
  dirty : Bool

/- `blocks` are the data blocks of the device, and `written` all that are filled, those of nodes
and of the meta file too. -/
structure FileRun where
  own : OwnRun
  pages : PageKey → Option FilePage
  flights : List DataFlight
  blocks : Nat → Memory
  written : Nat → Bool

inductive FileEvent where
  | read (fuel rounds ino iblock : Nat)
  | write (fuel rounds ino pos : Nat) (data : List UInt8)
  | mapped (ino pos : Nat) (data : List UInt8)
  | zero (fuel rounds ino iblock offset : Nat)
  | submit (fuel rounds ino iblock : Nat)
  | complete (ino iblock blkaddr : Nat)
  | release (ino iblock : Nat)
  | tree (event : OwnEvent)

namespace FileRun

def mount (s : FileRun) : MountState := s.own.mount

def setFs (s : FileRun) (fs : Fs) : FileRun := { s with own := { s.own with mount := s.own.mount.setFs fs } }

def setPage (s : FileRun) (key : PageKey) (page : FilePage) : FileRun :=
  { s with pages := Function.update s.pages key (some page) }

/- A page under writeback is locked. -/
def busy (s : FileRun) (key : PageKey) : Bool := s.flights.any (DataFlight.of key.1 key.2)

/- No page is -EIO. -/
def preparePage (fuel rounds : Nat) (create : Bool) (key : PageKey) (s : FileRun) : Option (FileRun × Option FilePage) :=
  match s.pages key with
  | some page => some (s,some page)
  | none => (s.mount.fs.preparePage fuel create rounds key.1 key.2).map fun (fs,found) =>
    let s := s.setFs fs
    match found with
    | none => (s,none)
    | some blkaddr =>
      let page := ⟨if blkaddr = 0 then fun _ => 0 else s.blocks blkaddr,false⟩
      (s.setPage key page,some page)

/-- One round of the copy loop of the kernel: `xcpfs_write_begin`, the copy and `xcpfs_write_end`,
which goes on with the error where no page was prepared. -/
def write (fuel rounds ino pos : Nat) (data : List UInt8) (s : FileRun) : Option FileRun :=
  (s.preparePage fuel rounds true (ino,pos / pageSize)).bind fun (s,page) =>
    page.map fun page => s.setPage (ino,pos / pageSize) ⟨store page.bytes (pos % pageSize) data,true⟩

/-- A store through `generic_file_mmap`, with `xcpfs_dirty_folio`. -/
def mapped (ino pos : Nat) (data : List UInt8) (s : FileRun) : Option FileRun :=
  (s.pages (ino,pos / pageSize)).map fun page =>
    s.setPage (ino,pos / pageSize) ⟨store page.bytes (pos % pageSize) data,true⟩

/-- `xcpfs_truncate_partial_block`, with or without its -EIO. -/
def truncatePartialBlock (fuel rounds ino iblock offset : Nat) (s : FileRun) : Option FileRun :=
  if offset = 0 then some s
  else (s.preparePage fuel rounds false (ino,iblock)).map fun (s,page) =>
    page.elim s fun page => s.setPage (ino,iblock) ⟨zeroUser page.bytes offset,true⟩

/-- `xcpfs_write_data_page` of a page of a file; where the walk finds no dnode the page is dirty again. -/
def submit (fuel rounds ino iblock : Nat) (s : FileRun) : Option FileRun :=
  (s.pages (ino,iblock)).bind fun page =>
    (Fs.getDnodePage (Fs.readRawNatBlock fuel) false rounds ino iblock s.mount.fs).map fun (fs,found) =>
      { (s.setFs fs).setPage (ino,iblock) { page with dirty := found.isNone } with
        flights := (found.map fun dnode => ⟨ino,iblock,dnode⟩).toList ++ s.flights }

/-- The data half of `xcpfs_write_end_io`, once the device has filled a block. -/
def complete (ino iblock blkaddr : Nat) (s : FileRun) : Option FileRun :=
  (s.flights.find? (DataFlight.of ino iblock)).bind fun f =>
    (s.pages (ino,iblock)).map fun page =>
      { (s.setFs (s.mount.fs.storeBlock f.dnode iblock blkaddr)).setPage (ino,iblock) { page with dirty := false } with
        flights := s.flights.eraseP (DataFlight.of ino iblock)
        blocks := Function.update s.blocks blkaddr page.bytes
        written := Function.update s.written blkaddr true }

/- The block that a node or a page of the meta file is written to. -/
def fills : OwnEvent → Option Nat
  | .step (.storeAddr _ _ blkaddr) => some blkaddr
  | .step (.updateNat _ blkaddr) => some blkaddr
  | _ => none

/- The pages that the kernel takes out of the memory. -/
def leaves : OwnEvent → PageKey → Bool
  | .step (.remount ..),_ => true
  | .truncate _ ino freeFrom,key => key.1 = ino ∧ freeFrom ≤ key.2
  | .evict _ ino _,key => key.1 = ino
  | _,_ => false

/- What has to wait for the writes in flight: their pages and dnodes are locked. -/
def waits : OwnEvent → DataFlight → Bool
  | .step (.dropPage nid),f => f.dnode = nid
  | .step (.remount ..),_ => true
  | .truncate _ ino _,f => f.ino = ino
  | .evict _ ino _,f => f.ino = ino
  | _,_ => false

end FileRun

def fileStep (s : FileRun) : FileEvent → Option FileRun
  | .read fuel rounds ino iblock =>
    if s.mount.inodes ino ∧ ino ≠ metaIno ∧ s.busy (ino,iblock) = false then
      (s.preparePage fuel rounds false (ino,iblock)).map Prod.fst
    else none
  | .write fuel rounds ino pos data =>
    if s.mount.inodes ino ∧ ino ≠ metaIno ∧ s.busy (ino,pos / pageSize) = false ∧ pos % pageSize + data.length ≤ pageSize then
      s.write fuel rounds ino pos data
    else none
  | .mapped ino pos data =>
    if s.busy (ino,pos / pageSize) = false ∧ pos % pageSize + data.length ≤ pageSize then s.mapped ino pos data else none
  | .zero fuel rounds ino iblock offset =>
    if s.mount.inodes ino ∧ ino ≠ metaIno ∧ s.busy (ino,iblock) = false then s.truncatePartialBlock fuel rounds ino iblock offset
    else none
  | .submit fuel rounds ino iblock =>
    if s.mount.inodes ino ∧ ino ≠ metaIno ∧ s.busy (ino,iblock) = false then s.submit fuel rounds ino iblock else none
  | .complete ino iblock blkaddr =>
    if blkaddr ≠ 0 ∧ s.written blkaddr = false then s.complete ino iblock blkaddr else none
  | .release ino iblock =>
    if s.busy (ino,iblock) = false then
      (s.pages (ino,iblock)).bind fun page =>
        if page.dirty then none else some { s with pages := Function.update s.pages (ino,iblock) none }
    else none
  | .tree event =>
    if (∀ f ∈ s.flights, FileRun.waits event f = false) ∧ ∀ a ∈ FileRun.fills event, a ≠ 0 ∧ s.written a = false then
      (ownStep s.own event).map fun own =>
        { s with
          own := own
          pages := fun key => if FileRun.leaves event key then none else s.pages key
          written := fun a => s.written a || decide (FileRun.fills event = some a) }
    else none

/-- No block in front of the cut is dropped, and no other is kept. -/
def CutsWhere (nodes : NodeStore) (ino : Nat) (cut : TreePath) : Prop :=
  ∀ p, cut.misplaced (presentIn nodes ino) p → blockAt nodes ino p = 0

/- When the code takes these steps. Dirty pages are written before their inode leaves the memory
and before the file system does; the completion of a data write is an event of its own. -/
def fileTakes (s : FileRun) : FileEvent → Prop
  | .read fuel _ _ _ => natFuel ≤ fuel
  | .write fuel rounds _ _ _ => natFuel ≤ fuel ∧ regNatStart + rounds ≤ natBlocks
  | .mapped .. => True
  | .zero fuel _ _ _ _ => natFuel ≤ fuel
  | .submit fuel _ _ _ => natFuel ≤ fuel
  | .complete .. => True
  | .release .. => True
  | .tree event => ownTakes s.own event ∧ match event with
    | .step (.storeAddr ino _ _) => ino = metaIno
    | .step (.remount ..) => ∀ key page, s.pages key = some page → page.dirty = false
    | .evict _ ino nlink => ino ≤ 2 ∨ nlink ≠ 0 → ∀ iblock page, s.pages (ino,iblock) = some page → page.dirty = false
    | _ => True

/- No truncate drops a block in front of its cut, keeps one behind it, or hands over a pointer that
it keeps. -/
def fileClean (s : FileRun) : FileEvent → Prop
  | .tree (.truncate fuel ino freeFrom) => ownClean s.own (.truncate fuel ino freeFrom) ∧
    ∀ cut : TreePath, cut.index = freeFrom → CutsWhere s.mount.fs.content ino cut
  | _ => True

/-- The bytes of a file: those in memory, else those of its blocks, and zeros where there is none. -/
def FileRun.contents (s : FileRun) (ino : Nat) : Memory := fun pos =>
  let iblock := pos / pageSize
  match s.pages (ino,iblock) with
  | some page => page.bytes (pos % pageSize)
  | none =>
    let blkaddr := oldBlkaddr s.mount.fs.content ino iblock
    if blkaddr = 0 then 0 else s.blocks blkaddr (pos % pageSize)

/-- What an event means for the bytes of the files. -/
def FileEvent.apply (files : Nat → Memory) : FileEvent → Nat → Memory
  | .write _ _ ino pos data | .mapped ino pos data => Function.update files ino (store (files ino) pos data)
  | .zero _ _ ino iblock offset =>
    if offset = 0 then files
    else Function.update files ino fun pos => if pos / pageSize = iblock ∧ offset ≤ pos % pageSize then 0 else files ino pos
  | .tree (.truncate _ ino freeFrom) =>
    Function.update files ino fun pos => if freeFrom ≤ pos / pageSize then 0 else files ino pos
  | .tree (.evict _ ino nlink) => if ino ≤ 2 ∨ nlink ≠ 0 then files else Function.update files ino fun _ => 0
  | _ => files

end Xcpfs
