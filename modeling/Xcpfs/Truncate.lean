import Xcpfs.NodeTree
import Xcpfs.Lib.CountedLoop

/-! `xcpfs_recurse` and `xcpfs_truncate_blocks` of file.c. The node pages are the
cached ones; calls into the zone table and the NAT are recorded in order. No
result means that the recursion read `offset[-1]`. -/
namespace Xcpfs
open CountedLoop

inductive Call where
  | blkaddr (addr : Nat)
  | nat (nid : Nat)
  deriving DecidableEq, Repr

structure Trunc where
  nodes : NodeStore
  calls : List Call

namespace Trunc

def invalidateBlkaddr (t : Trunc) (addr : Nat) : Trunc := { t with calls := t.calls ++ [.blkaddr addr] }
def invalidateNat (t : Trunc) (nid : Nat) : Trunc := { t with calls := t.calls ++ [.nat nid] }
def write (t : Trunc) (n : Nat) (page : NodePage) : Trunc := { t with nodes := Function.update t.nodes n page }

end Trunc

abbrev Offset := Nat → Int

/- The count of leading cells of `int offset[4]` that are not -1. -/
def offsetLen (offset : Offset) : Nat :=
  if offset 0 = -1 then 0 else if offset 1 = -1 then 1 else
  if offset 2 = -1 then 2 else if offset 3 = -1 then 3 else 4

def decrement (offset : Offset) (i : Nat) : Offset := Function.update offset i (offset i - 1)

/-- First slot the recursion clears; a whole subtree is marked by no offset. -/
def recurseStart (depth : Nat) (offset : Option Offset) : Option Nat :=
  let i := match offset with
    | none => some 0
    | some offset =>
      if offsetLen offset < depth + 1 then none else some (offset (offsetLen offset - depth - 1))
  i.map fun i => if depth = 0 then i.toNat else (i + 1).toNat

def clearAddr (n : Nat) (t : Trunc) (i : Nat) : Option Trunc :=
  let addr := (t.nodes n).slot i
  if addr = 0 then some t
  else some ((t.invalidateBlkaddr addr).write n ((t.nodes n).setSlot i 0))

def clearNid (below : Nat → Trunc → Option Trunc) (n : Nat) (t : Trunc) (i : Nat) : Option Trunc :=
  let nid := (t.nodes n).slot i
  if nid = 0 then some t
  else (below nid t).map fun t =>
    (t.invalidateNat ((t.nodes n).slot i)).write n ((t.nodes n).setSlot i 0)

/- What follows the loop of `xcpfs_recurse`: `i` has run to the end there, so
the word cleared beside the boundary pointer is the one behind the array. -/
def recurseBoundary (depth n : Nat) : Option Offset → Trunc → Trunc × Option Offset
  | none,t => (t,none)
  | some offset,t =>
    let len := offsetLen offset
    if depth = 0 then (t,some (decrement offset (len - 1)))
    else if offset (len - depth) = 0 then
      let nid := (t.nodes n).slot (offset (len - depth - 1)).toNat
      ((t.invalidateNat nid).write n ((t.nodes n).setSlot defNidsPerBlock 0),
        some (decrement offset (len - depth - 1)))
    else (t,some offset)

def xcpfsRecurse (depth : Nat) (offset : Option Offset) (n : Nat) (t : Trunc) : Option (Trunc × Option Offset) :=
  let clear := match depth with
    | 0 => clearAddr n
    | depth + 1 => clearNid (fun nid t => (xcpfsRecurse depth none nid t).map Prod.fst) n
  (recurseStart depth offset).bind fun start =>
  (forLoop start defNidsPerBlock clear t).map (recurseBoundary depth n offset)

structure TruncRun where
  trunc : Trunc
  offset : Offset
  flag : Bool

def clearInodeAddr (ino : Nat) (t : Trunc) (i : Nat) : Option Trunc :=
  let addr := (t.nodes ino).iAddr i
  if addr = 0 then some t
  else some ((t.invalidateBlkaddr addr).write ino ((t.nodes ino).setAddr i 0))

def inodeSection (ino : Nat) (r : TruncRun) : Option TruncRun :=
  if r.offset 0 < 900 then
    (forLoop (r.offset 0).toNat defAddrsPerInode (clearInodeAddr ino) r.trunc).map fun t =>
      ⟨t,Function.update r.offset 0 900,true⟩
  else some r

def clearTop (ino depth : Nat) (r : TruncRun) (i : Nat) : Option TruncRun :=
  let nid := (r.trunc.nodes ino).iNid i
  if nid = 0 then some r
  else (xcpfsRecurse depth (if r.flag then none else some r.offset) nid r.trunc).map fun (t,offset) =>
    let offset := offset.getD r.offset
    if r.flag ∨ offset 1 = 0 then
      ⟨(t.invalidateNat ((t.nodes ino).iNid i)).write ino ((t.nodes ino).setNid i 0),offset,r.flag⟩
    else ⟨t,offset,r.flag⟩

/- One `if` of `xcpfs_truncate_blocks` over the `i_nid` cells below `hi`. -/
def nidSection (ino depth hi : Nat) (next : Int) (r : TruncRun) : Option TruncRun :=
  if r.offset 0 < 900 + hi then
    (forLoop (r.offset 0 - 900).toNat hi (clearTop ino depth) r).map fun r =>
      ⟨r.trunc,Function.update r.offset 0 next,true⟩
  else some r

def xcpfsTruncateBlocks (ino freeFrom : Nat) (t : Trunc) : Option Trunc :=
  (inodeSection ino ⟨t,(getPath freeFrom).2,false⟩).bind fun r =>
  (nidSection ino 0 2 902 r).bind fun r =>
  (nidSection ino 1 4 904 r).bind fun r =>
  (nidSection ino 2 5 906 r).map TruncRun.trunc

end Xcpfs
