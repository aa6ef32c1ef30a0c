import Xcpfs.BlockPath
import Xcpfs.Lib.PointerForest

/-! Node pages and the pointers between them. `dn.addr` and `in.nid` are one
array of the page's union, called `slot` here; its cell 1018 is the first word
of the footer behind it. The inode view of the union is kept in cells of its own:
a page is read as an inode or as a dnode, never as both. -/
namespace Xcpfs
open PointerForest

structure NodePage where
  iAddr : Nat → Nat
  iNid : Nat → Nat
  slot : Nat → Nat

def NodePage.zero : NodePage := ⟨fun _ => 0,fun _ => 0,fun _ => 0⟩

def NodePage.setAddr (p : NodePage) (i v : Nat) : NodePage := { p with iAddr := Function.update p.iAddr i v }
def NodePage.setNid (p : NodePage) (i v : Nat) : NodePage := { p with iNid := Function.update p.iNid i v }
def NodePage.setSlot (p : NodePage) (i v : Nat) : NodePage := { p with slot := Function.update p.slot i v }

abbrev NodeStore := Nat → NodePage

inductive Edge where
  | nid (i : Nat)
  | slot (a : Nat)
  deriving DecidableEq, Repr

def ptr (word : Nat) : Option Nat := if word = 0 then none else some word

theorem ptrSome {word n : Nat} : ptr word = some n ↔ word = n ∧ n ≠ 0 := by
  unfold ptr
  split
  · simp; omega
  · simp; omega

def NodePage.child (p : NodePage) : Edge → Option Nat
  | .nid i => ptr (p.iNid i)
  | .slot a => ptr (p.slot a)

theorem zeroChild (e : Edge) : NodePage.zero.child e = none := by
  cases e <;> rfl

def child (nodes : NodeStore) (n : Nat) (e : Edge) : Option Nat := (nodes n).child e

/- Direct nodes hang below `i_nid[0..1]`, indirect ones below `i_nid[2..3]` and
the double indirect one below `i_nid[4]`. -/
def NodePlace : List Edge → Prop
  | [] => True
  | [.nid i] => i < 5
  | [.nid i,.slot a] => 2 ≤ i ∧ i < 5 ∧ a < 1018
  | [.nid i,.slot a,.slot b] => i = 4 ∧ a < 1018 ∧ b < 1018
  | _ => False

theorem nodePlaceCases {p : List Edge} (place : NodePlace p) : p = [] ∨ (∃ i, i < 5 ∧ p = [.nid i]) ∨
    (∃ i a, 2 ≤ i ∧ i < 5 ∧ a < 1018 ∧ p = [.nid i,.slot a]) ∨
    (∃ a b, a < 1018 ∧ b < 1018 ∧ p = [.nid 4,.slot a,.slot b]) := by
  unfold NodePlace at place
  split at place
  · exact Or.inl rfl
  · exact Or.inr (Or.inl ⟨_,place,rfl⟩)
  · exact Or.inr (Or.inr (Or.inl ⟨_,_,place.1,place.2.1,place.2.2,rfl⟩))
  · exact Or.inr (Or.inr (Or.inr ⟨_,_,place.2.1,place.2.2,by rw [place.1]⟩))
  · exact place.elim

theorem nodePlaceParent (p : List Edge) (e : Edge) (place : NodePlace (p ++ [e])) : NodePlace p := by
  match p,e with
  | [],_ => trivial
  | [.nid i],.slot a => exact place.2.1
  | [.nid i],.nid a => exact place.elim
  | [.slot a],_ => exact place.elim
  | [.nid i,.slot a],.slot b => obtain ⟨rfl,ha,_⟩ := place; exact ⟨by omega,by omega,ha⟩
  | [.nid i,.slot a],.nid b => exact place.elim
  | [.nid i,.nid a],_ => exact place.elim
  | [.slot i,_],_ => exact place.elim
  | _ :: _ :: _ :: [],_ => simp [NodePlace] at place
  | _ :: _ :: _ :: _ :: _,_ => simp [NodePlace] at place

def nodeShape : Shape Edge := ⟨NodePlace,trivial,nodePlaceParent⟩

namespace TreePath

def nodes : TreePath → List Edge
  | inode _ => []
  | direct top _ => [.nid top]
  | indirect top mid _ => [.nid (2 + top),.slot mid]
  | double top mid _ => [.nid 4,.slot top,.slot mid]

def leaf : TreePath → Nat
  | inode slot => slot
  | direct _ slot => slot
  | indirect _ _ slot => slot
  | double _ _ slot => slot

def word (p : TreePath) (page : NodePage) : Nat :=
  if p.depth = 0 then page.iAddr p.leaf else page.slot p.leaf

theorem nodesPlace (p : TreePath) : nodeShape.valid p.nodes := by
  cases p with
  | inode slot => trivial
  | direct top slot => change (top : Nat) < 5; omega
  | indirect top mid slot => exact ⟨by omega,by omega,mid.isLt⟩
  | double top mid slot => exact ⟨rfl,top.isLt,mid.isLt⟩

theorem eqOfNodesLeaf {p q : TreePath} (nodes : p.nodes = q.nodes) (leaf : p.leaf = q.leaf) : p = q := by
  cases p <;> cases q <;> simp_all [TreePath.nodes,TreePath.leaf,Fin.ext_iff]

theorem depthOfNodes (p : TreePath) : p.depth = p.nodes.length := by
  cases p <;> rfl

end TreePath

def blockAt (nodes : NodeStore) (ino : Nat) (p : TreePath) : Nat :=
  match follow (child nodes) ino p.nodes with
  | none => 0
  | some n => p.word (nodes n)

theorem blockAtFound {nodes : NodeStore} {ino n : Nat} {p : TreePath}
    (path : follow (child nodes) ino p.nodes = some n) : blockAt nodes ino p = p.word (nodes n) := by
  simp only [blockAt,path]

theorem blockAtMissing {nodes : NodeStore} {ino : Nat} {p : TreePath}
    (path : follow (child nodes) ino p.nodes = none) : blockAt nodes ino p = 0 := by
  simp only [blockAt,path]

/-- The loop of `get_dnode_page` over the node levels, without creation. -/
def walkDown (nodes : NodeStore) (offset : Nat → Int) (len : Nat) : (left i nid : Nat) → Option Nat
  | 0,_,_ => none
  | left + 1,i,nid =>
    if i = len then some nid else
    let next := if i = 0 then (nodes nid).iNid (offset 0 - 900).toNat else (nodes nid).slot (offset i).toNat
    if next = 0 then none else walkDown nodes offset len left (i + 1) next

def getDnode (nodes : NodeStore) (ino iblock : Nat) : Option Nat :=
  let (len,offset) := getPath iblock
  walkDown nodes offset len 4 0 ino

/-- What `submit_data_xio` puts into `old_blkaddr`; a missing node reads as 0. -/
def oldBlkaddr (nodes : NodeStore) (ino iblock : Nat) : Nat :=
  let (len,offset) := getPath iblock
  match getDnode nodes ino iblock with
  | none => 0
  | some n => if len = 0 then (nodes n).iAddr (offset len).toNat else (nodes n).slot (offset len).toNat

theorem getDnodeAt (nodes : NodeStore) (ino : Nat) (p : TreePath) :
    getDnode nodes ino p.index = follow (child nodes) ino p.nodes := by
  obtain ⟨path,decoded⟩ : ∃ path, path = getPath p.index := ⟨_,rfl⟩
  unfold getDnode
  rw [← decoded,decoded.trans p.getPathIndex]
  clear decoded
  cases p with
  | inode slot => rfl
  | direct top slot =>
    simp [walkDown,TreePath.depth,TreePath.offsets,offsetOf,TreePath.nodes,follow,child,NodePage.child,ptr]
  | indirect top mid slot =>
    have key : ((902 : Int) + top - 900).toNat = 2 + top := by omega
    simp [walkDown,TreePath.depth,TreePath.offsets,offsetOf,TreePath.nodes,follow,child,NodePage.child,ptr,key]
    split
    · rfl
    · simp only [Option.bind_some]
  | double top mid slot =>
    simp [walkDown,TreePath.depth,TreePath.offsets,offsetOf,TreePath.nodes,follow,child,NodePage.child,ptr]
    split
    · rfl
    · simp only [Option.bind_some]
      split
      · rfl
      · simp only [Option.bind_some]

theorem offsetLeaf (p : TreePath) : (p.offsets p.depth).toNat = p.leaf := by
  cases p <;> simp [TreePath.offsets,TreePath.depth,TreePath.leaf,offsetOf]

theorem oldBlkaddrAt (nodes : NodeStore) (ino : Nat) (p : TreePath) :
    oldBlkaddr nodes ino p.index = blockAt nodes ino p := by
  obtain ⟨path,decoded⟩ : ∃ path, path = getPath p.index := ⟨_,rfl⟩
  unfold oldBlkaddr
  rw [getDnodeAt,← decoded,decoded.trans p.getPathIndex]
  simp only [offsetLeaf,blockAt,TreePath.word]

end Xcpfs
