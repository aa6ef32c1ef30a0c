import Xcpfs.TruncateTree

/-! Where `xcpfs_truncate_blocks` cuts each of the five subtrees of an inode. A
`TopCut` is fixed by the path of the first freed block and by which of the
earlier subtrees exist; the sections of the function realise it. -/
namespace Xcpfs
open PointerForest CountedLoop

structure TopCut where
  start : Nat
  boundary : Option Nat
  dropped : Bool

def levelOf (top : Nat) : Nat := if top < 2 then 0 else if top < 4 then 1 else 2

def TopCut.whole (top : Nat) : TopCut := ⟨firstCleared (levelOf top),none,true⟩

/- A boundary pointer is released when the part of the path below it is 0, and
then the offset has moved before the caller looks at it. -/
def TopCut.within (slot below : Nat) : TopCut :=
  if below = 0 then ⟨slot + 1,some slot,slot = 1⟩ else ⟨slot + 1,none,slot = 0⟩

def directCut (slot : Nat) : TopCut := ⟨slot,none,slot = 1⟩

/- The second direct node sees the offset the first one has decremented; at -1
the path is one cell long and its only cell is the index 900 in the inode. -/
def secondDirectCut (present : Bool) (slot : Nat) : TopCut :=
  if present then if slot = 0 then ⟨900,none,false⟩ else ⟨slot - 1,none,slot = 2⟩ else directCut slot

def secondIndirectCut (present : Bool) (slot below : Nat) : TopCut :=
  if present ∧ below = 0 then TopCut.within (slot - 1) below else TopCut.within slot below

namespace TreePath

def addrStart : TreePath → Nat
  | inode slot => slot
  | _ => 900

def topCut (present : Nat → Bool) : TreePath → Nat → Option TopCut
  | inode _,i => some (.whole i)
  | direct top slot,i =>
    if i < top then none else if i = top then some (directCut slot)
    else if i = 1 then some (secondDirectCut (present 0) slot) else some (.whole i)
  | indirect top mid slot,i =>
    if i < 2 + top then none else if i = 2 + top then some (.within mid slot)
    else if i = 3 then some (secondIndirectCut (present 2) mid slot) else some (.whole i)
  | double top mid _,i => if i < 4 then none else some (.within top mid)

/- The recursion on the second indirect node finds the decremented offset at -1
and reads the cell before the array. -/
def overruns (present : Nat → Bool) : TreePath → Prop
  | indirect top mid slot => (top : Nat) = 0 ∧ (mid : Nat) = 0 ∧ (slot : Nat) = 0 ∧ present 2 ∧ present 3
  | _ => False

end TreePath

def boundaryCalls (page : NodePage) : Option Nat → List Call
  | none => []
  | some a => [.nat (page.slot a)]

def topCalls (nodes : NodeStore) (ino i : Nat) (cut : TopCut) : List Call :=
  let n := (nodes ino).iNid i
  if n = 0 then []
  else released nodes (levelOf i) n cut.start 1018 ++ boundaryCalls (nodes n) cut.boundary ++
    if cut.dropped then [.nat n] else []

def planCalls (nodes : NodeStore) (ino : Nat) (plan : Nat → Option TopCut) (i : Nat) : List Call :=
  match plan i with
  | none => []
  | some cut => topCalls nodes ino i cut

def releasedAddrAt (nodes : NodeStore) (ino i : Nat) : List Call :=
  if (nodes ino).iAddr i = 0 then [] else [.blkaddr ((nodes ino).iAddr i)]

def releasedAddrs (nodes : NodeStore) (ino start stop : Nat) : List Call :=
  (List.range' start (stop - start)).flatMap (releasedAddrAt nodes ino)

structure InodeTree (nodes : NodeStore) (ino : Nat) : Prop where
  separate : ∀ i < 5, (nodes ino).iNid i ≠ 0 → Separate nodes (levelOf i) ((nodes ino).iNid i)
  root : ∀ i < 5, (nodes ino).iNid i ≠ 0 → ¬ Below nodes (levelOf i) ((nodes ino).iNid i) ino
  apart : ∀ i < 5, ∀ j < 5, ∀ x, (nodes ino).iNid i ≠ 0 → (nodes ino).iNid j ≠ 0 →
    Below nodes (levelOf i) ((nodes ino).iNid i) x → Below nodes (levelOf j) ((nodes ino).iNid j) x → i = j

structure Recursed (depth n start : Nat) (boundary : Option Nat) (t t' : Trunc) : Prop where
  calls : t'.calls = t.calls ++ (released t.nodes depth n start 1018 ++ boundaryCalls (t.nodes n) boundary)
  slot : ∀ a < 1018, (t'.nodes n).slot a = if start ≤ a then 0 else (t.nodes n).slot a
  frame : ∀ x, x ≠ n → ¬ Under t.nodes depth n start 1018 x → t'.nodes x = t.nodes x
  fewer : Fewer t.nodes t'.nodes

/- The state once the subtrees before `i_nid[j]` are dealt with. -/
structure Truncated (start : Nat) (plan : Nat → Option TopCut) (ino : Nat) (t t' : Trunc) (j : Nat) : Prop where
  calls : t'.calls = t.calls ++ (releasedAddrs t.nodes ino start 900 ++
    (List.range j).flatMap (planCalls t.nodes ino plan))
  iAddr : ∀ i, (t'.nodes ino).iAddr i = if start ≤ i ∧ i < 900 then 0 else (t.nodes ino).iAddr i
  dropped : ∀ i < j, ∀ cut, plan i = some cut → cut.dropped = true → (t'.nodes ino).iNid i = 0
  kept : ∀ i, (i < j → ∀ cut, plan i = some cut → cut.dropped = false) →
    (t'.nodes ino).iNid i = (t.nodes ino).iNid i
  slot : ∀ i < j, ∀ cut, plan i = some cut → (t.nodes ino).iNid i ≠ 0 → ∀ a < 1018,
    (t'.nodes ((t.nodes ino).iNid i)).slot a =
      if cut.start ≤ a then 0 else (t.nodes ((t.nodes ino).iNid i)).slot a
  frame : ∀ x, x ≠ ino → (∀ i < j, ∀ cut, plan i = some cut → (t.nodes ino).iNid i ≠ 0 →
    x ≠ (t.nodes ino).iNid i ∧ ¬ Under t.nodes (levelOf i) ((t.nodes ino).iNid i) cut.start 1018 x) →
    t'.nodes x = t.nodes x
  fewer : Fewer t.nodes t'.nodes

section
variable {depth n start : Nat} {t t' : Trunc}

theorem recursedLoop (cleared : Cleared depth n start 1018 t t') : Recursed depth n start none t t' where
  calls := by simp only [boundaryCalls,List.append_nil,cleared.calls]
  slot a low := by
    rw [cleared.page]
    simp only [NodePage.clearFrom,low,and_true]
  frame := cleared.frame
  fewer := cleared.fewer

theorem recurseWhole (depth n : Nat) (t : Trunc) (separate : Separate t.nodes depth n) :
    ∃ t', xcpfsRecurse depth none n t = some (t',none) ∧ Recursed depth n (firstCleared depth) none t t' := by
  have room : firstCleared depth ≤ 1018 := by unfold firstCleared; split <;> omega
  obtain ⟨t',ran,cleared⟩ := recurseLoop depth n (firstCleared depth) t room separate
  refine ⟨t',?_,recursedLoop cleared⟩
  simp only [recurseUnfold,recurseStartNone,Option.bind_some,ran,Option.map_some,recurseBoundary]

theorem recurseDirect (n len k : Nat) (t : Trunc) {offset : Offset} (cells : offsetLen offset = len + 1)
    (here : offset len = k) (high : k ≤ 1018) :
    ∃ t', xcpfsRecurse 0 (some offset) n t = some (t',some (decrement offset len)) ∧
      Recursed 0 n k none t t' := by
  obtain ⟨t',ran,cleared⟩ := recurseLoop 0 n k t high trivial
  refine ⟨t',?_,recursedLoop cleared⟩
  have entry : recurseStart 0 (some offset) = some k := by
    simp only [recurseStart,cells]
    rw [if_neg (by omega)]
    simp [here]
  simp only [recurseUnfold,entry,Option.bind_some,ran,Option.map_some,recurseBoundary,cells,if_true,
    Nat.add_sub_cancel]

theorem recurseEntry (len a : Nat) {offset : Offset} (cells : offsetLen offset = len + (depth + 2))
    (here : offset len = a) : recurseStart (depth + 1) (some offset) = some (a + 1) := by
  have index : len + (depth + 2) - (depth + 1) - 1 = len := by omega
  simp only [recurseStart,cells,index]
  rw [if_neg (by omega)]
  simp only [Option.map_some,here]
  rw [if_neg (by omega)]
  congr 1

theorem recurseInside (n len a : Nat) (t : Trunc) {offset : Offset} (separate : Separate t.nodes (depth + 1) n)
    (cells : offsetLen offset = len + (depth + 2)) (here : offset len = a) (low : a < 1018)
    (more : offset (len + 1) ≠ 0) :
    ∃ t', xcpfsRecurse (depth + 1) (some offset) n t = some (t',some offset) ∧
      Recursed (depth + 1) n (a + 1) none t t' := by
  obtain ⟨t',ran,cleared⟩ := recurseLoop (depth + 1) n (a + 1) t low separate
  refine ⟨t',?_,recursedLoop cleared⟩
  have next : len + (depth + 2) - (depth + 1) = len + 1 := by omega
  simp only [recurseUnfold,recurseEntry len a cells here,Option.bind_some,ran,Option.map_some,recurseBoundary,
    cells,next,more,if_false]
  rw [if_neg (by omega)]

theorem recurseCut (n len a : Nat) (t : Trunc) {offset : Offset} (separate : Separate t.nodes (depth + 1) n)
    (cells : offsetLen offset = len + (depth + 2)) (here : offset len = a) (low : a < 1018)
    (done : offset (len + 1) = 0) :
    ∃ t', xcpfsRecurse (depth + 1) (some offset) n t = some (t',some (decrement offset len)) ∧
      Recursed (depth + 1) n (a + 1) (some a) t t' := by
  obtain ⟨t',ran,cleared⟩ := recurseLoop (depth + 1) n (a + 1) t low separate
  have next : len + (depth + 2) - (depth + 1) = len + 1 := by omega
  have word : (t'.nodes n).slot a = (t.nodes n).slot a := by
    rw [cleared.page]
    simp only [NodePage.clearFrom]
    rw [if_neg (by omega)]
  refine ⟨(t'.invalidateNat ((t'.nodes n).slot a)).write n ((t'.nodes n).setSlot defNidsPerBlock 0),?_,?_,?_,?_,?_⟩
  · simp only [recurseUnfold,recurseEntry len a cells here,Option.bind_some,ran,Option.map_some,recurseBoundary,
      cells,next,done,if_true,Nat.add_sub_cancel,here,Int.toNat_natCast]
    rw [if_neg (by omega)]
  · change t'.calls ++ [Call.nat ((t'.nodes n).slot a)] = _
    simp only [cleared.calls,word,boundaryCalls,List.append_assoc]
  · intro b bound
    have cell : (((t'.invalidateNat ((t'.nodes n).slot a)).write n
        ((t'.nodes n).setSlot defNidsPerBlock 0)).nodes n).slot b = (t'.nodes n).slot b := by
      change (Function.update t'.nodes n _ n).slot b = _
      rw [Function.update_self]
      exact Function.update_of_ne (Nat.ne_of_lt bound) ..
    rw [cell,cleared.page]
    simp only [NodePage.clearFrom,bound,and_true]
  · intro x other outside
    exact (Function.update_of_ne other ..).trans (cleared.frame x other outside)
  · exact fewerTrans cleared.fewer (fewerSetSlot n defNidsPerBlock)

end
end Xcpfs
