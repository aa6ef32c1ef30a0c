import Xcpfs.TruncateCalls

/-! Space accounting of a truncate. `unreleased` and `misreleased` list the blocks
and nodes whose release the code misses or gets wrong for a given cut. -/
namespace Xcpfs
open PointerForest

def secondDirectStart (present : Bool) (slot : Nat) : Nat :=
  if present then if slot = 0 then 900 else slot - 1 else slot

/-- Blocks from the cut on that no loop reaches. -/
def TreePath.unreleased (present : Nat → Bool) : (cut p : TreePath) → Prop
  | direct top slot,direct top' slot' =>
    (top : Nat) = 0 ∧ (top' : Nat) = 1 ∧ (slot' : Nat) < secondDirectStart (present 0) slot
  | indirect top mid slot,indirect top' mid' slot' =>
    (top' = top ∧ mid' = mid ∧ slot ≤ slot') ∨
    ((top : Nat) = 0 ∧ (top' : Nat) = 1 ∧ (mid' : Nat) ≤ secondSlot (present 2) mid slot)
  | double top mid slot,double top' mid' slot' =>
    (top' = top ∧ (mid < mid' ∨ mid' = mid ∧ slot ≤ slot')) ∨ (top < top' ∧ (mid' : Nat) = 0)
  | inode _,indirect _ mid' _ => (mid' : Nat) = 0
  | direct _ _,indirect _ mid' _ => (mid' : Nat) = 0
  | inode _,double top' mid' _ => (top' : Nat) = 0 ∨ (mid' : Nat) = 0
  | direct _ _,double top' mid' _ => (top' : Nat) = 0 ∨ (mid' : Nat) = 0
  | indirect _ _ _,double top' mid' _ => (top' : Nat) = 0 ∨ (mid' : Nat) = 0
  | _,_ => False

/-- Nodes the code releases although they hold blocks before the cut, or keeps
although they hold none. -/
def TreePath.misreleased (present : Nat → Bool) : TreePath → List Edge → Prop
  | direct top slot,[.nid i] =>
    (i = top ∧ (slot : Nat) ≤ 1) ∨ ((top : Nat) = 0 ∧ i = 1 ∧ (slot : Nat) ≠ if present 0 then 2 else 1)
  | indirect top mid slot,[.nid i] =>
    (i = 2 + top ∧ ((mid : Nat) = 0 ∨ (mid : Nat) = 1 ∧ (slot : Nat) = 0)) ∨
    ((top : Nat) = 0 ∧ i = 3 ∧ emptied (secondSlot (present 2) mid slot) slot = false)
  | indirect top mid slot,[.nid i,.slot a] =>
    ((top : Nat) = 0 ∧ i = 3 ∧ a ≤ secondSlot (present 2) mid slot ∧
      ¬ ((slot : Nat) = 0 ∧ a = secondSlot (present 2) mid slot)) ∨ (i = 4 ∧ a = 0)
  | double top mid slot,[.nid i] =>
    i = 4 ∧ (((top : Nat) = 0 ∧ ((mid : Nat) ≠ 0 ∨ (slot : Nat) = 0)) ∨ ((top : Nat) = 1 ∧ (mid : Nat) = 0))
  | double top mid slot,[.nid i,.slot a] => i = 4 ∧ a = top ∧ (mid : Nat) = 0 ∧ (slot : Nat) ≠ 0
  | double top mid slot,[.nid _,.slot a,.slot b] =>
    (a = top ∧ ((mid : Nat) < b ∨ b = mid ∧ (slot : Nat) = 0)) ∨ ((top : Nat) < a ∧ b = 0)
  | inode _,[.nid _,.slot a] => a = 0
  | direct _ _,[.nid _,.slot a] => a = 0
  | inode _,[.nid _,.slot a,.slot b] => a = 0 ∨ b = 0
  | direct _ _,[.nid _,.slot a,.slot b] => a = 0 ∨ b = 0
  | indirect _ _ _,[.nid _,.slot a,.slot b] => a = 0 ∨ b = 0
  | _,_ => False

/-- The pointer the recursion hands to `invalidate_nat` without looking at it. -/
def TreePath.boundaryAt (present : Nat → Bool) : TreePath → Nat → Option Nat
  | indirect top mid slot,i =>
    if (slot : Nat) ≠ 0 then none else if i = 2 + top then some mid
    else if (top : Nat) = 0 ∧ i = 3 then some (secondSlot (present 2) mid slot) else none
  | double top mid _,i => if (mid : Nat) = 0 ∧ i = 4 then some top else none
  | _,_ => none

def firstBlock : List Edge → Nat
  | [.nid i] => if i < 2 then 900 + i * 1018 else 2936 + (i - 2) * 1018 ^ 2
  | [.nid i,.slot a] => if i < 4 then 2936 + (i - 2) * 1018 ^ 2 + a * 1018 else 2075584 + a * 1018 ^ 2
  | [.nid _,.slot a,.slot b] => 2075584 + a * 1018 ^ 2 + b * 1018
  | _ => 0

theorem pastWhole (i a : Nat) : past (some (TopCut.whole i)) a ↔ firstCleared (levelOf i) ≤ a := Iff.rfl

theorem pastWithin (slot below a : Nat) : past (some (TopCut.within slot below)) a ↔ slot < a := by
  unfold TopCut.within
  split <;> exact Iff.rfl

theorem pastDirect (slot a : Nat) : past (some (directCut slot)) a ↔ slot ≤ a := Iff.rfl

theorem pastSecondDirect (present : Bool) (slot a : Nat) :
    past (some (secondDirectCut present slot)) a ↔ secondDirectStart present slot ≤ a := by
  unfold secondDirectCut secondDirectStart
  split
  · split <;> exact Iff.rfl
  · exact Iff.rfl

theorem pastSecondIndirect (present : Bool) (slot below a : Nat) :
    past (some (secondIndirectCut present slot below)) a ↔ secondSlot present slot below < a := by
  unfold secondIndirectCut secondSlot
  split <;> exact pastWithin ..

theorem dropsWithin (slot below : Nat) : dropsTop (some (TopCut.within slot below)) ↔ emptied slot below = true := by
  unfold TopCut.within emptied
  split <;> exact Iff.rfl

theorem dropsDirect (slot : Nat) : dropsTop (some (directCut slot)) ↔ slot = 1 := by
  simp [dropsTop,directCut]

theorem dropsSecondDirect (present : Bool) (slot : Nat) :
    dropsTop (some (secondDirectCut present slot)) ↔ slot = if present then 2 else 1 := by
  unfold secondDirectCut
  cases present <;> simp [dropsTop,directCut]
  split <;> simp_all

theorem dropsSecondIndirect (present : Bool) (slot below : Nat) :
    dropsTop (some (secondIndirectCut present slot below)) ↔ emptied (secondSlot present slot below) below = true := by
  unfold secondIndirectCut secondSlot
  split <;> exact dropsWithin ..

theorem boundaryWithin (slot below : Nat) :
    boundaryOf (some (TopCut.within slot below)) = if below = 0 then some slot else none := by
  unfold TopCut.within
  split <;> rfl

theorem boundarySecondIndirect (present : Bool) (slot below : Nat) :
    boundaryOf (some (secondIndirectCut present slot below)) =
      if below = 0 then some (secondSlot present slot below) else none := by
  unfold secondIndirectCut secondSlot
  split <;> exact boundaryWithin ..

theorem boundarySecondDirect (present : Bool) (slot : Nat) : boundaryOf (some (secondDirectCut present slot)) = none := by
  unfold secondDirectCut
  split
  · split <;> rfl
  · rfl

section
variable (present : Nat → Bool)

theorem boundaryCut (cut : TreePath) (i : Nat) (low : i < 5) : boundaryOf (cut.topCut present i) = cut.boundaryAt present i := by
  cases cut with
  | inode slot => rfl
  | direct top slot =>
    simp only [TreePath.topCut,TreePath.boundaryAt]
    split
    · rfl
    · split
      · rfl
      · split
        · exact boundarySecondDirect ..
        · rfl
  | indirect top mid slot =>
    simp only [TreePath.topCut,TreePath.boundaryAt]
    rcases Nat.lt_trichotomy i (2 + top) with before | same | after
    · rw [if_pos before,if_neg (by omega : ¬ i = 2 + (top : Nat)),if_neg (by omega : ¬ ((top : Nat) = 0 ∧ i = 3))]
      split <;> rfl
    · rw [if_neg (by omega : ¬ i < 2 + (top : Nat)),if_pos same,if_pos same,boundaryWithin]
      split <;> simp_all
    · rw [if_neg (by omega : ¬ i < 2 + (top : Nat)),if_neg (by omega : ¬ i = 2 + (top : Nat)),
        if_neg (by omega : ¬ i = 2 + (top : Nat))]
      by_cases third : i = 3
      · rw [if_pos third,if_pos (by omega : (top : Nat) = 0 ∧ i = 3),boundarySecondIndirect]
        split <;> simp_all
      · rw [if_neg third,if_neg (by omega : ¬ ((top : Nat) = 0 ∧ i = 3))]
        split <;> rfl
  | double top mid slot =>
    simp only [TreePath.topCut,TreePath.boundaryAt]
    by_cases last : i = 4
    · subst last
      rw [if_neg (Nat.lt_irrefl 4),boundaryWithin]
      simp
    · rw [if_pos (by omega),if_neg (by omega)]
      rfl

theorem cutBoundarySound (cut : TreePath) : BoundarySound (cut.topCut present) := by
  intro i low a boundary
  rw [boundaryCut present cut i low] at boundary
  cases cut with
  | inode slot => contradiction
  | direct top slot => contradiction
  | indirect top mid slot =>
    have inside : secondSlot (present 2) mid slot < 1018 := by
      unfold secondSlot
      split <;> omega
    simp only [TreePath.boundaryAt] at boundary
    split at boundary
    · contradiction
    · split at boundary
      · have same := Option.some.inj boundary
        omega
      · split at boundary
        · have same := Option.some.inj boundary
          omega
        · contradiction
  | double top mid slot =>
    simp only [TreePath.boundaryAt] at boundary
    split at boundary
    · have same := Option.some.inj boundary
      omega
    · contradiction

theorem releasesUnreleased (cut p : TreePath) :
    (releases cut.addrStart (cut.topCut present) p → cut.index ≤ p.index) ∧
    (cut.unreleased present p ↔ cut.index ≤ p.index ∧ ¬ releases cut.addrStart (cut.topCut present) p) := by
  have whole : ∀ i : Nat, 2 ≤ i → firstCleared (levelOf i) = 1 := by
    intro i deep
    unfold firstCleared levelOf
    rw [if_neg (by omega : ¬ i < 2)]
    split <;> rfl
  cases cut with
  | inode slot =>
    cases p with
    | inode slot' => simp only [TreePath.unreleased,releases,TreePath.addrStart,TreePath.index,false_iff]; omega
    | direct top' slot' =>
      have zero : firstCleared (levelOf top') = 0 := by
        rw [levelOf,if_pos top'.isLt]
        rfl
      simp only [TreePath.unreleased,releases,TreePath.topCut,TreePath.index,pastWhole,zero,false_iff]
      omega
    | indirect top' mid' slot' =>
      simp only [TreePath.unreleased,releases,TreePath.topCut,TreePath.index,pastWhole,whole (2 + top') (by omega)]
      omega
    | double top' mid' slot' =>
      simp only [TreePath.unreleased,releases,TreePath.topCut,TreePath.index,pastWhole,whole 4 (by omega)]
      omega
  | direct top slot =>
    cases p with
    | inode slot' => simp only [TreePath.unreleased,releases,TreePath.addrStart,TreePath.index,false_iff]; omega
    | direct top' slot' =>
      simp only [TreePath.unreleased,releases,TreePath.topCut,TreePath.index]
      rcases Nat.lt_trichotomy top' top with before | same | after
      · rw [if_pos before]
        simp only [past,false_imp_iff,not_false_eq_true,and_true,true_and]
        omega
      · rw [if_neg (by omega),if_pos same,pastDirect]
        omega
      · rw [if_neg (by omega),if_neg (by omega),if_pos (by omega),pastSecondDirect]
        omega
    | indirect top' mid' slot' =>
      simp only [TreePath.unreleased,releases,TreePath.topCut,TreePath.index]
      rw [if_neg (by omega),if_neg (by omega),if_neg (by omega),pastWhole,whole (2 + top') (by omega)]
      omega
    | double top' mid' slot' =>
      simp only [TreePath.unreleased,releases,TreePath.topCut,TreePath.index]
      rw [if_neg (by omega),if_neg (by omega),if_neg (by omega),pastWhole,whole 4 (by omega)]
      omega
  | indirect top mid slot =>
    cases p with
    | inode slot' => simp only [TreePath.unreleased,releases,TreePath.addrStart,TreePath.index,false_iff]; omega
    | direct top' slot' =>
      simp only [TreePath.unreleased,releases,TreePath.topCut,TreePath.index]
      rw [if_pos (by omega)]
      simp only [past,false_imp_iff,not_false_eq_true,and_true,true_and,false_iff]
      omega
    | indirect top' mid' slot' =>
      simp only [TreePath.unreleased,releases,TreePath.topCut,TreePath.index,Fin.ext_iff]
      rcases Nat.lt_trichotomy top' top with before | same | after
      · rw [if_pos (by omega : 2 + (top' : Nat) < 2 + top)]
        simp only [past,false_imp_iff,not_false_eq_true,and_true,true_and]
        omega
      · rw [if_neg (by omega : ¬ 2 + (top' : Nat) < 2 + top),if_pos (by omega : 2 + (top' : Nat) = 2 + top),pastWithin]
        omega
      · rw [if_neg (by omega : ¬ 2 + (top' : Nat) < 2 + top),if_neg (by omega : ¬ 2 + (top' : Nat) = 2 + top),
          if_pos (by omega : 2 + (top' : Nat) = 3),pastSecondIndirect]
        omega
    | double top' mid' slot' =>
      simp only [TreePath.unreleased,releases,TreePath.topCut,TreePath.index]
      rw [if_neg (by omega),if_neg (by omega),if_neg (by omega),pastWhole,whole 4 (by omega)]
      omega
  | double top mid slot =>
    cases p with
    | inode slot' => simp only [TreePath.unreleased,releases,TreePath.addrStart,TreePath.index,false_iff]; omega
    | direct top' slot' =>
      simp only [TreePath.unreleased,releases,TreePath.topCut,TreePath.index]
      rw [if_pos (by omega)]
      simp only [past,false_imp_iff,not_false_eq_true,and_true,true_and,false_iff]
      omega
    | indirect top' mid' slot' =>
      simp only [TreePath.unreleased,releases,TreePath.topCut,TreePath.index]
      rw [if_pos (by omega)]
      simp only [past,false_imp_iff,not_false_eq_true,and_true,true_and,false_iff]
      omega
    | double top' mid' slot' =>
      simp only [TreePath.unreleased,releases,TreePath.topCut,TreePath.index,Fin.ext_iff]
      rw [if_neg (Nat.lt_irrefl 4),pastWithin]
      omega

theorem dropsWhole (i : Nat) : dropsTop (some (TopCut.whole i)) := rfl

theorem boundaryWhole (i : Nat) : boundaryOf (some (TopCut.whole i)) = none := rfl

theorem topMisreleased (cut : TreePath) {i : Nat} (low : i < 5) : cut.misreleased present [.nid i] ↔
    ¬ (nodeReleased (cut.topCut present) [.nid i] ↔ cut.index ≤ firstBlock [.nid i]) := by
  cases cut with
  | inode slot =>
    simp only [TreePath.misreleased,nodeReleased,TreePath.topCut,TreePath.index,firstBlock,dropsWhole,true_iff,false_iff,
      not_not]
    split <;> omega
  | direct top slot =>
    simp only [TreePath.misreleased,nodeReleased,TreePath.topCut,TreePath.index,firstBlock]
    rcases Nat.lt_trichotomy i top with before | same | after
    · rw [if_pos before,if_pos (by omega : i < 2)]
      simp only [dropsTop,false_iff]
      omega
    · rw [if_neg (by omega : ¬ i < top),if_pos same,dropsDirect,if_pos (by omega : i < 2)]
      omega
    · rw [if_neg (by omega : ¬ i < top),if_neg (by omega : ¬ i = top)]
      by_cases second : i = 1
      · rw [if_pos second,dropsSecondDirect,if_pos (by omega : i < 2)]
        omega
      · rw [if_neg second,if_neg (by omega : ¬ i < 2)]
        simp only [dropsWhole,true_iff]
        omega
  | indirect top mid slot =>
    simp only [TreePath.misreleased,nodeReleased,TreePath.topCut,TreePath.index,firstBlock]
    rcases Nat.lt_trichotomy i (2 + top) with before | same | after
    · rw [if_pos before]
      simp only [dropsTop,false_iff]
      split <;> omega
    · rw [if_neg (by omega : ¬ i < 2 + top),if_pos same,dropsWithin,if_neg (by omega : ¬ i < 2)]
      unfold emptied
      split <;> simp <;> omega
    · rw [if_neg (by omega : ¬ i < 2 + top),if_neg (by omega : ¬ i = 2 + top),if_neg (by omega : ¬ i < 2)]
      by_cases second : i = 3
      · rw [if_pos second,dropsSecondIndirect]
        cases emptied (secondSlot (present 2) mid slot) slot <;> simp <;> omega
      · rw [if_neg second]
        simp only [dropsWhole,true_iff]
        omega
  | double top mid slot =>
    simp only [TreePath.misreleased,nodeReleased,TreePath.topCut,TreePath.index,firstBlock]
    by_cases last : i = 4
    · subst last
      rw [if_neg (Nat.lt_irrefl 4),dropsWithin,if_neg (by omega)]
      unfold emptied
      split <;> simp <;> omega
    · rw [if_pos (by omega)]
      simp only [dropsTop,false_iff]
      split <;> omega

theorem midMisreleased (cut : TreePath) {i a : Nat} (deep : 2 ≤ i) (low : i < 5) (bound : a < 1018) :
    cut.misreleased present [.nid i,.slot a] ↔
    ¬ (nodeReleased (cut.topCut present) [.nid i,.slot a] ↔ cut.index ≤ firstBlock [.nid i,.slot a]) := by
  have whole : firstCleared (levelOf i) = 1 := by
    unfold firstCleared levelOf
    rw [if_neg (by omega : ¬ i < 2)]
    split <;> rfl
  have later : ∀ n, n ≤ 2936 → n ≤ firstBlock [.nid i,.slot a] := by
    intro n small
    simp only [firstBlock]
    split <;> omega
  have lastBlock : i = 4 → firstBlock [.nid i,.slot a] = 2075584 + a * 1018 ^ 2 := by
    rintro rfl
    rfl
  have midBlock : i < 4 → firstBlock [.nid i,.slot a] = 2936 + (i - 2) * 1018 ^ 2 + a * 1018 := fun third => by
    simp only [firstBlock,third,if_true]
  cases cut with
  | inode slot =>
    have past := later slot (by omega)
    simp only [TreePath.misreleased,nodeReleased,TreePath.topCut,TreePath.index,pastWhole,whole,boundaryWhole,
      reduceCtorEq,or_false]
    omega
  | direct top slot =>
    have past := later (900 + top * 1018 + slot) (by omega)
    simp only [TreePath.misreleased,nodeReleased,TreePath.topCut,TreePath.index]
    rw [if_neg (by omega),if_neg (by omega),if_neg (by omega),pastWhole,whole,boundaryWhole]
    simp only [reduceCtorEq,or_false]
    omega
  | indirect top mid slot =>
    simp only [TreePath.misreleased,nodeReleased,TreePath.topCut,TreePath.index]
    rcases Nat.lt_trichotomy i (2 + top) with before | same | after
    · rw [if_pos before,midBlock (by omega)]
      simp only [past,boundaryOf,Option.bind_none,reduceCtorEq,or_false,false_iff]
      omega
    · rw [if_neg (by omega : ¬ i < 2 + top),if_pos same,pastWithin,boundaryWithin,midBlock (by omega)]
      split <;> simp <;> omega
    · rw [if_neg (by omega : ¬ i < 2 + top),if_neg (by omega : ¬ i = 2 + top)]
      by_cases second : i = 3
      · rw [if_pos second,pastSecondIndirect,boundarySecondIndirect,midBlock (by omega)]
        generalize secondSlot (present 2) mid slot = cell
        split <;> simp_all <;> omega
      · rw [if_neg second,pastWhole,whole,boundaryWhole,lastBlock (by omega)]
        simp only [reduceCtorEq,or_false]
        omega
  | double top mid slot =>
    simp only [TreePath.misreleased,nodeReleased,TreePath.topCut,TreePath.index]
    by_cases last : i = 4
    · rw [lastBlock last]
      subst last
      rw [if_neg (Nat.lt_irrefl 4),pastWithin,boundaryWithin]
      split <;> simp <;> omega
    · rw [if_pos (by omega),midBlock (by omega)]
      simp only [past,boundaryOf,Option.bind_none,reduceCtorEq,or_false,false_iff]
      omega

theorem lowMisreleased (cut : TreePath) {a b : Nat} (boundA : a < 1018) (boundB : b < 1018) :
    cut.misreleased present [.nid 4,.slot a,.slot b] ↔
    ¬ (nodeReleased (cut.topCut present) [.nid 4,.slot a,.slot b] ↔ cut.index ≤ firstBlock [.nid 4,.slot a,.slot b]) := by
  have whole : firstCleared (levelOf 4) = 1 := rfl
  cases cut with
  | inode slot =>
    simp only [TreePath.misreleased,nodeReleased,TreePath.topCut,TreePath.index,firstBlock,pastWhole,whole]
    omega
  | direct top slot =>
    simp only [TreePath.misreleased,nodeReleased,TreePath.topCut,TreePath.index,firstBlock]
    rw [if_neg (by omega),if_neg (by omega),if_neg (by omega),pastWhole,whole]
    omega
  | indirect top mid slot =>
    simp only [TreePath.misreleased,nodeReleased,TreePath.topCut,TreePath.index,firstBlock]
    rw [if_neg (by omega),if_neg (by omega),if_neg (by omega),pastWhole,whole]
    omega
  | double top mid slot =>
    simp only [TreePath.misreleased,nodeReleased,TreePath.topCut,TreePath.index,firstBlock]
    rw [if_neg (Nat.lt_irrefl 4),pastWithin]
    omega

end

theorem firstBlockTop {i : Nat} (low : i < 5) :
    ∃ p : TreePath, [Edge.nid i] <+: p.nodes ∧ p.index = firstBlock [.nid i] := by
  by_cases direct : i < 2
  · refine ⟨.direct ⟨i,direct⟩ 0,by simp [TreePath.nodes],?_⟩
    simp only [TreePath.index,firstBlock,direct,if_true,Fin.val_zero]
    omega
  · by_cases indirect : i < 4
    · have cell : 2 + (i - 2) = i := by omega
      refine ⟨.indirect ⟨i - 2,by omega⟩ 0 0,by simp [TreePath.nodes,cell],?_⟩
      simp only [TreePath.index,firstBlock,direct,if_false,Fin.val_zero]
      omega
    · obtain rfl : i = 4 := by omega
      exact ⟨.double 0 0 0,by simp [TreePath.nodes],rfl⟩

theorem firstBlockMid {i a : Nat} (deep : 2 ≤ i) (low : i < 5) (bound : a < 1018) :
    ∃ p : TreePath, [Edge.nid i,.slot a] <+: p.nodes ∧ p.index = firstBlock [.nid i,.slot a] := by
  by_cases indirect : i < 4
  · have cell : 2 + (i - 2) = i := by omega
    refine ⟨.indirect ⟨i - 2,by omega⟩ ⟨a,bound⟩ 0,by simp [TreePath.nodes,cell],?_⟩
    simp only [TreePath.index,firstBlock,indirect,if_true,Fin.val_zero]
    omega
  · obtain rfl : i = 4 := by omega
    refine ⟨.double ⟨a,bound⟩ 0 0,by simp [TreePath.nodes],?_⟩
    simp only [TreePath.index,firstBlock,indirect,if_false,Fin.val_zero]
    omega

theorem firstBlockLow {a b : Nat} (boundA : a < 1018) (boundB : b < 1018) :
    ∃ p : TreePath, [Edge.nid 4,.slot a,.slot b] <+: p.nodes ∧ p.index = firstBlock [.nid 4,.slot a,.slot b] := by
  refine ⟨.double ⟨a,boundA⟩ ⟨b,boundB⟩ 0,by simp [TreePath.nodes],?_⟩
  simp only [TreePath.index,firstBlock,Fin.val_zero]
  omega

theorem firstBlockBefore {q : List Edge} (place : NodePlace q) (inner : q ≠ []) (p : TreePath) (below : q <+: p.nodes) :
    firstBlock q ≤ p.index := by
  obtain rfl | ⟨i,low,rfl⟩ | ⟨i,a,deep,low,bound,rfl⟩ | ⟨a,b,boundA,boundB,rfl⟩ := nodePlaceCases place
  · contradiction
  · cases p <;> simp [TreePath.nodes] at below <;> simp only [TreePath.index,firstBlock] <;> split <;> omega
  · cases p <;> simp [TreePath.nodes] at below <;> simp only [TreePath.index,firstBlock] <;> split <;> omega
  · cases p <;> simp [TreePath.nodes] at below
    simp only [TreePath.index,firstBlock]
    omega

theorem firstBlockLeast {q : List Edge} (place : NodePlace q) (inner : q ≠ []) (freeFrom : Nat) :
    (∀ p : TreePath, q <+: p.nodes → freeFrom ≤ p.index) ↔ freeFrom ≤ firstBlock q := by
  have least : ∃ p : TreePath, q <+: p.nodes ∧ p.index = firstBlock q := by
    obtain rfl | ⟨i,low,rfl⟩ | ⟨i,a,deep,low,bound,rfl⟩ | ⟨a,b,boundA,boundB,rfl⟩ := nodePlaceCases place
    · contradiction
    · exact firstBlockTop low
    · exact firstBlockMid deep low bound
    · exact firstBlockLow boundA boundB
  constructor
  · intro all
    obtain ⟨p,below,first⟩ := least
    exact first ▸ all p below
  · intro early p below
    exact Nat.le_trans early (firstBlockBefore place inner p below)

theorem nodeMisreleased (present : Nat → Bool) (cut : TreePath) {q : List Edge} (place : NodePlace q) (inner : q ≠ []) :
    cut.misreleased present q ↔ ¬ (nodeReleased (cut.topCut present) q ↔
      ∀ p : TreePath, q <+: p.nodes → cut.index ≤ p.index) := by
  rw [firstBlockLeast place inner]
  obtain rfl | ⟨i,low,rfl⟩ | ⟨i,a,deep,low,bound,rfl⟩ | ⟨a,b,boundA,boundB,rfl⟩ := nodePlaceCases place
  · contradiction
  · exact topMisreleased present cut low
  · exact midMisreleased present cut deep low bound
  · exact lowMisreleased present cut boundA boundB

theorem permSubset {α β : Type} (f : α → β) {xs ys : List α} (nodupX : xs.Nodup) (nodupY : ys.Nodup) (sub : xs ⊆ ys) :
    (xs.map f).Perm (ys.map f) ↔ ys ⊆ xs := by
  constructor
  · intro same
    have len := same.length_eq
    simp only [List.length_map] at len
    exact ((nodupX.subperm sub).perm_of_length_le (Nat.le_of_eq len.symm)).symm.subset
  · intro back
    exact ((List.perm_ext_iff_of_nodup nodupX nodupY).mpr fun x => ⟨fun h => sub h,fun h => back h⟩).map f

def blocksFrom (freeFrom : Nat) : List Nat := List.range' freeFrom (maxBlocks - freeFrom)

theorem memBlocksFrom {freeFrom k : Nat} : k ∈ blocksFrom freeFrom ↔ freeFrom ≤ k ∧ k < maxBlocks := by
  rw [blocksFrom,List.mem_range'_1]
  omega

theorem blocksFromNodup (freeFrom : Nat) : (blocksFrom freeFrom).Nodup := List.nodup_range'

attribute [irreducible] blocksFrom

def pathOf (iblock : Nat) : TreePath :=
  if bound : iblock < maxBlocks then .ofIndex iblock bound else .inode 0

theorem pathOfIndex (p : TreePath) : pathOf p.index = p := by
  unfold pathOf
  rw [dif_pos p.indexBound]
  exact TreePath.ofIndexIndex p p.index rfl p.indexBound

theorem indexPathOf {iblock : Nat} (bound : iblock < maxBlocks) : (pathOf iblock).index = iblock := by
  unfold pathOf
  rw [dif_pos bound]
  exact TreePath.indexOfIndex iblock bound

/- The cells of every block from `freeFrom` on that holds an address. -/
def wantedCells (nodes : NodeStore) (ino freeFrom : Nat) : List (List Nat) :=
  ((blocksFrom freeFrom).filter fun k => oldBlkaddr nodes ino k ≠ 0).map fun k => (pathOf k).cells

section
variable {nodes : NodeStore} {ino freeFrom : Nat}

theorem wantedNodup : (wantedCells nodes ino freeFrom).Nodup := by
  refine List.Nodup.map_on (fun k memK l memL same => ?_) ((blocksFromNodup freeFrom).filter _)
  have k' := (memBlocksFrom.mp (List.mem_filter.mp memK).1).2
  have l' := (memBlocksFrom.mp (List.mem_filter.mp memL).1).2
  rw [← indexPathOf k',← indexPathOf l',cellsInjective same]

theorem memWanted {path : List Nat} : path ∈ wantedCells nodes ino freeFrom ↔
    ∃ p : TreePath, path = p.cells ∧ blockAt nodes ino p ≠ 0 ∧ freeFrom ≤ p.index := by
  unfold wantedCells
  rw [List.mem_map]
  constructor
  · rintro ⟨k,member,rfl⟩
    obtain ⟨range,stored⟩ := List.mem_filter.mp member
    obtain ⟨low,high⟩ := memBlocksFrom.mp range
    refine ⟨pathOf k,rfl,?_,?_⟩
    · rw [← oldBlkaddrAt,indexPathOf high]
      simpa using stored
    · rwa [indexPathOf high]
  · rintro ⟨p,rfl,stored,low⟩
    refine ⟨p.index,List.mem_filter.mpr ⟨memBlocksFrom.mpr ⟨low,p.indexBound⟩,?_⟩,by rw [pathOfIndex]⟩
    rw [oldBlkaddrAt]
    simpa using stored

theorem cellsValue {k : Nat} (high : k < maxBlocks) (stored : oldBlkaddr nodes ino k ≠ 0) :
    rootValue nodes ino (pathOf k).cells = oldBlkaddr nodes ino k := by
  have found : blockAt nodes ino (pathOf k) = oldBlkaddr nodes ino k := by rw [← oldBlkaddrAt,indexPathOf high]
  rw [rootValueCells (pathOf k) (by rwa [found]),found]

theorem wantedValues (value : Nat → Nat) (cells : Nat → List Nat) (ks : List Nat)
    (agree : ∀ k ∈ ks, value k ≠ 0 → rootValue nodes ino (cells k) = value k) :
    (ks.map value).filter (· ≠ 0) = ((ks.filter fun k => value k ≠ 0).map cells).map (rootValue nodes ino) := by
  induction ks with
  | nil => rfl
  | cons k ks ih =>
    have rest := ih fun l member => agree l (List.mem_cons_of_mem k member)
    by_cases stored : value k = 0
    · simpa [stored] using rest
    · simpa [stored,agree k List.mem_cons_self stored] using rest

theorem wantedAddrs : ((blocksFrom freeFrom).map (oldBlkaddr nodes ino)).filter (· ≠ 0) =
    (wantedCells nodes ino freeFrom).map (rootValue nodes ino) :=
  wantedValues _ _ _ fun _ member stored => cellsValue (memBlocksFrom.mp member).2 stored

end

section
variable {nodes : NodeStore} {ino : Nat} {cut : TreePath} {t' : Trunc}

theorem addressesReleased (done : Truncated cut.addrStart (cut.topCut (presentIn nodes ino)) ino ⟨nodes,[]⟩ t' 5) :
    (addrCalls t'.calls).Perm (((blocksFrom cut.index).map (oldBlkaddr nodes ino)).filter (· ≠ 0)) ↔
      ∀ p, cut.unreleased (presentIn nodes ino) p → oldBlkaddr nodes ino p.index = 0 := by
  rw [addrCallsTruncated rfl done,wantedAddrs,permSubset _ visitedNodup wantedNodup]
  · constructor
    · intro back p missed
      obtain ⟨after,missing⟩ := (releasesUnreleased _ cut p).2.mp missed
      by_contra stored
      rw [oldBlkaddrAt] at stored
      obtain ⟨q,same,_,reached⟩ := visitedStored (back (memWanted.mpr ⟨p,rfl,stored,after⟩))
      obtain rfl : p = q := cellsInjective same
      exact missing reached
    · intro clean path member
      obtain ⟨p,rfl,stored,after⟩ := memWanted.mp member
      refine storedVisited p stored ?_
      by_contra missing
      have empty := clean p ((releasesUnreleased _ cut p).2.mpr ⟨after,missing⟩)
      rw [oldBlkaddrAt] at empty
      exact stored empty
  · intro path member
    obtain ⟨p,rfl,stored,reached⟩ := visitedStored member
    exact memWanted.mpr ⟨p,rfl,stored,(releasesUnreleased _ cut p).1 reached⟩

theorem followPositive {p : List Edge} (inner : p ≠ []) : follow (child nodes) ino p ≠ some 0 := by
  intro path
  obtain ⟨q,e,rfl⟩ := List.eq_nil_or_concat p |>.resolve_left inner
  rw [List.concat_eq_append] at path
  obtain ⟨n,_,edge⟩ := followLast path
  cases e with
  | nid i => exact (ptrSome.mp edge).2 rfl
  | slot a => exact (ptrSome.mp edge).2 rfl

theorem nodesReleased (tree : Owned nodeShape {ino} (child nodes))
    (done : Truncated cut.addrStart (cut.topCut (presentIn nodes ino)) ino ⟨nodes,[]⟩ t' 5) :
    (∀ nid, Call.nat nid ∈ t'.calls ↔ ∃ q, NodePlace q ∧ q ≠ [] ∧ follow (child nodes) ino q = some nid ∧
      ∀ p : TreePath, q <+: p.nodes → cut.index ≤ p.index) ↔
    (∀ q, NodePlace q → cut.misreleased (presentIn nodes ino) q → follow (child nodes) ino q = none) ∧
      ∀ i < 5, ∀ a, cut.boundaryAt (presentIn nodes ino) i = some a →
        follow (child nodes) ino [.nid i] ≠ none → follow (child nodes) ino [.nid i,.slot a] ≠ none := by
  have sound := cutBoundarySound (presentIn nodes ino) cut
  have called : ∀ nid, Call.nat nid ∈ t'.calls ↔ _ := fun nid => (natTruncated rfl done).trans (natPlaces sound)
  have nonempty : ∀ q, nodeReleased (cut.topCut (presentIn nodes ino)) q → q ≠ [] := by
    rintro q gone rfl
    exact gone.elim
  constructor
  · intro exact_
    constructor
    · intro q place wrong
      have inner : q ≠ [] := by
        rintro rfl
        cases cut <;> exact wrong.elim
      cases path : follow (child nodes) ino q with
      | none => rfl
      | some nid =>
        refine absurd ?_ ((nodeMisreleased _ cut place inner).mp wrong)
        constructor
        · intro gone
          obtain ⟨q',place',_,path',after⟩ := (exact_ nid).mp ((called nid).mpr (Or.inl ⟨q,place,gone,path⟩))
          obtain rfl := (tree ino rfl ino rfl q q' nid place place' path path').2
          exact after
        · intro after
          rcases (called nid).mp ((exact_ nid).mpr ⟨q,place,inner,path,after⟩) with ⟨q',place',gone,path'⟩ | ⟨rfl,_⟩
          · obtain rfl := (tree ino rfl ino rfl q q' nid place place' path path').2
            exact gone
          · exact absurd path (followPositive inner)
    · intro i low a boundary used missing
      rw [← boundaryCut _ cut i low] at boundary
      have top : (nodes ino).iNid i ≠ 0 := by
        intro zero
        exact used (childUnused rfl zero [])
      have null : (nodes ((nodes ino).iNid i)).slot a = 0 := by
        by_contra edge
        rw [followSlots.mpr ⟨top,edge,rfl⟩] at missing
        contradiction
      obtain ⟨q,_,inner,path,_⟩ := (exact_ 0).mp ((called 0).mpr (Or.inr ⟨rfl,i,low,a,boundary,top,null⟩))
      exact followPositive inner path
  · rintro ⟨clean,bounded⟩ nid
    rw [called nid]
    have agree : ∀ q, NodePlace q → q ≠ [] → follow (child nodes) ino q = some nid →
        (nodeReleased (cut.topCut (presentIn nodes ino)) q ↔ ∀ p : TreePath, q <+: p.nodes → cut.index ≤ p.index) := by
      intro q place inner path
      by_contra wrong
      rw [clean q place ((nodeMisreleased _ cut place inner).mpr wrong)] at path
      contradiction
    constructor
    · rintro (⟨q,place,gone,path⟩ | ⟨_,i,low,a,boundary,top,null⟩)
      · exact ⟨q,place,nonempty q gone,path,(agree q place (nonempty q gone) path).mp gone⟩
      · rw [boundaryCut _ cut i low] at boundary
        refine absurd ?_ (bounded i low a boundary ?_)
        · rw [childUsed rfl top]
          exact childUnused rfl null []
        · rw [followNid.mpr ⟨top,rfl⟩]
          simp
    · rintro ⟨q,place,inner,path,after⟩
      exact Or.inl ⟨q,place,(agree q place inner path).mpr after,path⟩

end

/-- A truncate hands exactly the data addresses from the cut on to the zone table,
and exactly the nodes that lie wholly behind it to the NAT, when it does not
overrun the offset array and no block or node sits where the release goes wrong. -/
theorem truncateAccounts {nodes : NodeStore} {ino freeFrom : Nat} (range : freeFrom < maxBlocks)
    (tree : Owned nodeShape {ino} (child nodes)) :
    (∃ t, xcpfsTruncateBlocks ino freeFrom ⟨nodes,[]⟩ = some t ∧
      (addrCalls t.calls).Perm (((blocksFrom freeFrom).map (oldBlkaddr nodes ino)).filter (· ≠ 0)) ∧
      ∀ nid, Call.nat nid ∈ t.calls ↔ ∃ q, NodePlace q ∧ q ≠ [] ∧ follow (child nodes) ino q = some nid ∧
        ∀ p : TreePath, q <+: p.nodes → freeFrom ≤ p.index) ↔
    ¬ (TreePath.ofIndex freeFrom range).overruns (presentIn nodes ino) ∧
      (∀ p, (TreePath.ofIndex freeFrom range).unreleased (presentIn nodes ino) p → oldBlkaddr nodes ino p.index = 0) ∧
      (∀ q, NodePlace q → (TreePath.ofIndex freeFrom range).misreleased (presentIn nodes ino) q →
        follow (child nodes) ino q = none) ∧
      ∀ i < 5, ∀ a, (TreePath.ofIndex freeFrom range).boundaryAt (presentIn nodes ino) i = some a →
        follow (child nodes) ino [.nid i] ≠ none → follow (child nodes) ino [.nid i,.slot a] ≠ none := by
  have inode := inodeTree tree rfl
  have cutAt := TreePath.indexOfIndex freeFrom range
  generalize TreePath.ofIndex freeFrom range = cut at cutAt ⊢
  subst cutAt
  by_cases outside : cut.overruns (presentIn nodes ino)
  · have stopped := truncateOverruns ⟨nodes,[]⟩ inode cut outside
    simp [stopped,outside]
  · obtain ⟨t',ran,done⟩ := truncateBlocks ⟨nodes,[]⟩ inode cut outside
    rw [← addressesReleased done,← nodesReleased tree done]
    constructor
    · rintro ⟨t,again,account⟩
      obtain rfl : t' = t := Option.some.inj (ran.symm.trans again)
      exact ⟨outside,account⟩
    · rintro ⟨_,account⟩
      exact ⟨t',ran,account⟩

theorem oneDirectMissing (slot : Nat → Nat) {q : List Edge} (place : NodePlace q) (inner : q ≠ [])
    (other : q ≠ [.nid 0]) : follow (child (oneDirect slot)) 2730454 q = none := by
  cases path : follow (child (oneDirect slot)) 2730454 q with
  | none => rfl
  | some n =>
    rcases oneDirectPaths slot q n place path with ⟨bad,_⟩ | ⟨bad,_⟩
    · exact absurd bad inner
    · exact absurd bad other

theorem oneDirectBlock (slot : Nat → Nat) (p : TreePath) (inner : p.nodes ≠ []) (other : p.nodes ≠ [.nid 0]) :
    blockAt (oneDirect slot) 2730454 p = 0 :=
  blockAtMissing (oneDirectMissing slot p.nodesPlace inner other)

/-- The file with five blocks behind its direct node, cut to 902. -/
theorem truncateAccountsTwoLeft :
    ∃ t, xcpfsTruncateBlocks 2730454 902 ⟨oneDirect fun a => if a < 5 then 100 + a else 0,[]⟩ = some t ∧
      (addrCalls t.calls).Perm (((blocksFrom 902).map
        (oldBlkaddr (oneDirect fun a => if a < 5 then 100 + a else 0) 2730454)).filter (· ≠ 0)) ∧
      ∀ nid, Call.nat nid ∈ t.calls ↔ ∃ q, NodePlace q ∧ q ≠ [] ∧
        follow (child (oneDirect fun a => if a < 5 then 100 + a else 0)) 2730454 q = some nid ∧
        ∀ p : TreePath, q <+: p.nodes → 902 ≤ p.index := by
  have range : 902 < maxBlocks := by decide
  refine (truncateAccounts range (oneDirectOwned _)).mpr ?_
  rw [ofIndexDirect 0 2 902 rfl range]
  refine ⟨id,fun p missed => ?_,fun q place wrong => ?_,fun i low a boundary => by contradiction⟩
  · rw [oldBlkaddrAt]
    cases p with
    | inode slot => exact missed.elim
    | direct top slot => exact oneDirectBlock _ _ (by simp [TreePath.nodes]) (by simp [TreePath.nodes,missed.2.1])
    | indirect top mid slot => exact oneDirectBlock _ _ (by simp [TreePath.nodes]) (by simp [TreePath.nodes])
    | double top mid slot => exact oneDirectBlock _ _ (by simp [TreePath.nodes]) (by simp [TreePath.nodes])
  · have inner : q ≠ [] := by
      rintro rfl
      exact wrong.elim
    refine oneDirectMissing _ place inner ?_
    rintro rfl
    rcases wrong with ⟨_,bad⟩ | ⟨_,bad,_⟩
    · exact absurd bad (by decide)
    · contradiction

/-- Truncating to 900 blocks leaves the direct node with the NAT. -/
theorem truncateKeepsEmptyNode :
    ¬ ∃ t, xcpfsTruncateBlocks 2730454 900 ⟨oneDirect fun _ => 0,[]⟩ = some t ∧
      (addrCalls t.calls).Perm (((blocksFrom 900).map (oldBlkaddr (oneDirect fun _ => 0) 2730454)).filter (· ≠ 0)) ∧
      ∀ nid, Call.nat nid ∈ t.calls ↔ ∃ q, NodePlace q ∧ q ≠ [] ∧
        follow (child (oneDirect fun _ => 0)) 2730454 q = some nid ∧ ∀ p : TreePath, q <+: p.nodes → 900 ≤ p.index := by
  rintro ⟨t,ran,_,nodes⟩
  have tree := oneDirectOwned fun _ => 0
  obtain ⟨t',again,done⟩ := truncateBlocks ⟨oneDirect fun _ => 0,[]⟩ (inodeTree tree rfl) (.direct 0 0) id
  obtain rfl : t' = t := Option.some.inj (again.symm.trans ran)
  have kept := ((nodesReleased tree done).mp nodes).1 [.nid 0] (by decide : (0 : Nat) < 5) (Or.inl ⟨rfl,by decide⟩)
  have here : follow (child (oneDirect fun _ => 0)) 2730454 [.nid 0] = some 2730453 := followNid.mpr ⟨by decide,rfl⟩
  exact Option.some_ne_none 2730453 (here.symm.trans kept)

end Xcpfs
