import Xcpfs.TruncateBlocks

/-! The whole of `xcpfs_truncate_blocks`: for every path of the first freed
block the run realises the cut of `TreePath.topCut`, except where it overruns. -/
namespace Xcpfs
open PointerForest CountedLoop

def presentIn (nodes : NodeStore) (ino i : Nat) : Bool := decide ((nodes ino).iNid i ≠ 0)

section
variable {start ino : Nat} {plan : Nat → Option TopCut} {t : Trunc} {r : TruncRun}

theorem afterIndirect (tree : InodeTree t.nodes ino) (flag : r.flag = true) (here : r.offset 0 = 904)
    (planned : plan 4 = some (.whole 4)) (held : Truncated start plan ino t r.trunc 4) :
    ∃ t', (nidSection ino 2 5 906 r).map TruncRun.trunc = some t' ∧ Truncated start plan ino t t' 5 := by
  have only : ∀ i, 4 ≤ i → i < 5 → i = 4 := by omega
  obtain ⟨r',ran,_,done⟩ := wholeSection 2 r tree 4 5 (by omega) (by omega)
    (fun i low high => only i low high ▸ rfl) 906 (fun i low high => only i low high ▸ planned) flag here held
  exact ⟨r'.trunc,by simp only [ran,Option.map_some],done⟩

theorem afterDirect (tree : InodeTree t.nodes ino) (flag : r.flag = true) (here : r.offset 0 = 902)
    (planned : ∀ i, 2 ≤ i → i < 5 → plan i = some (.whole i)) (held : Truncated start plan ino t r.trunc 2) :
    ∃ t', ((nidSection ino 1 4 904 r).bind fun r => (nidSection ino 2 5 906 r).map TruncRun.trunc) = some t' ∧
      Truncated start plan ino t t' 5 := by
  have level : ∀ i, 2 ≤ i → i < 4 → levelOf i = 1 := by
    intro i low high
    unfold levelOf
    rw [if_neg (by omega),if_pos high]
  obtain ⟨r',ran,after,done⟩ := wholeSection 1 r tree 2 4 (by omega) (by omega) level 904
    (fun i low high => planned i low (by omega)) flag here held
  rw [ran,Option.bind_some]
  exact afterIndirect tree (after (by omega)).1 (after (by omega)).2 (planned 4 (by omega) (by omega)) done

section
variable {offset : Offset}

theorem offsetLenOne (first : offset 0 ≠ -1) (second : offset 1 = -1) : offsetLen offset = 1 := by
  simp [offsetLen,first,second]

theorem offsetLenTwo (first : offset 0 ≠ -1) (second : offset 1 ≠ -1) (third : offset 2 = -1) :
    offsetLen offset = 2 := by
  simp [offsetLen,first,second,third]

theorem offsetLenThree (first : offset 0 ≠ -1) (second : offset 1 ≠ -1) (third : offset 2 ≠ -1)
    (fourth : offset 3 = -1) : offsetLen offset = 3 := by
  simp [offsetLen,first,second,third,fourth]

theorem offsetLenFour (first : offset 0 ≠ -1) (second : offset 1 ≠ -1) (third : offset 2 ≠ -1)
    (fourth : offset 3 ≠ -1) : offsetLen offset = 4 := by
  simp [offsetLen,first,second,third,fourth]

theorem decrementSelf (offset : Offset) (i : Nat) : decrement offset i i = offset i - 1 :=
  Function.update_self ..

theorem decrementOther (offset : Offset) {i k : Nat} (other : k ≠ i) : decrement offset i k = offset k :=
  Function.update_of_ne other ..

end

theorem truncatedBefore {j : Nat} (untouched : ∀ i < j, plan i = none) : Truncated 900 plan ino t t j := by
  induction j with
  | zero => exact truncatedInit plan
  | succ j ih =>
    exact truncatedNext (ih fun i low => untouched i (by omega)) (Or.inr (untouched j (Nat.lt_succ_self j)))

theorem truncateInode (tree : InodeTree t.nodes ino) {offset : Offset} (low : start < 900)
    (here : offset 0 = start) (planned : ∀ i, plan i = some (.whole i)) :
    ∃ t', ((inodeSection ino ⟨t,offset,false⟩).bind fun r => (nidSection ino 0 2 902 r).bind fun r =>
      (nidSection ino 1 4 904 r).bind fun r => (nidSection ino 2 5 906 r).map TruncRun.trunc) = some t' ∧
      Truncated start plan ino t t' 5 := by
  obtain ⟨t₁,first,held⟩ := inodeSectionCut t plan ino low here
  obtain ⟨r₂,second,after,next⟩ := wholeSection 0 ⟨t₁,Function.update offset 0 900,true⟩
    tree 0 2 (by omega) (by omega) (fun i _ high => if_pos high) 902 (fun i _ _ => planned i) rfl (by simp) held
  simp only [first,Option.bind_some,second]
  exact afterDirect tree (after (by omega)).1 (after (by omega)).2 (fun i _ _ => planned i) next

/- The second direct node meets either the offset as it was or the decremented
one; at -1 that offset has a single cell. -/
theorem secondDirect (tree : InodeTree t.nodes ino) (slot : Nat) {offset : Offset} {s : Trunc}
    (bound : slot < 1018) (at0 : offset 0 = 900) (at1 : offset 1 = slot) (at2 : offset 2 = -1)
    (planned : plan 1 = some (secondDirectCut (presentIn t.nodes ino 0) slot))
    (held : Truncated 900 plan ino t s 1) :
    ∃ r, clearTop ino 0 ⟨s,if (t.nodes ino).iNid 0 = 0 then offset else decrement offset 1,false⟩ 1 = some r ∧
      Truncated 900 plan ino t r.trunc 2 := by
  by_cases used : (t.nodes ino).iNid 0 = 0
  · have cut : plan 1 = some ⟨slot,none,decide (slot = 1)⟩ := by
      simpa [presentIn,used,secondDirectCut,directCut] using planned
    have len := offsetLenTwo (by omega) (by omega) at2
    obtain ⟨s',ran,next⟩ := directTop tree (by omega) 1 slot len at1 (by omega) cut
      (by rw [decrementSelf,at1]; simp; omega) held
    rw [if_pos used,ran]
    exact ⟨_,rfl,next⟩
  · have at1' : decrement offset 1 1 = slot - 1 := by rw [decrementSelf,at1]
    have at0' : decrement offset 1 0 = 900 := by rw [decrementOther offset (by omega),at0]
    have at2' : decrement offset 1 2 = -1 := by rw [decrementOther offset (by omega),at2]
    rw [if_neg used]
    by_cases zero : slot = 0
    · subst zero
      have cut : plan 1 = some ⟨900,none,false⟩ := by
        simpa [presentIn,used,secondDirectCut] using planned
      have len : offsetLen (decrement offset 1) = 1 := offsetLenOne (by omega) (by omega)
      obtain ⟨s',ran,next⟩ := directTop tree (by omega) 0 900 len (by omega) (by omega) cut
        (by rw [decrementOther _ (by omega),at1']; simp) held
      exact ⟨_,ran,next⟩
    · have cut : plan 1 = some ⟨slot - 1,none,decide (slot = 2)⟩ := by
        simpa [presentIn,used,secondDirectCut,zero] using planned
      have len : offsetLen (decrement offset 1) = 2 := offsetLenTwo (by omega) (by omega) at2'
      obtain ⟨s',ran,next⟩ := directTop tree (by omega) 1 (slot - 1) len (by omega) (by omega) cut
        (by rw [decrementSelf,at1']; simp; omega) held
      exact ⟨_,ran,next⟩

theorem directSection (plan : Nat → Option TopCut) (tree : InodeTree t.nodes ino) (top slot : Nat) {offset : Offset} (low : top < 2)
    (bound : slot < 1018) (at0 : offset 0 = 900 + top) (at1 : offset 1 = slot) (at2 : offset 2 = -1)
    (before : ∀ i < top, plan i = none) (here : plan top = some (directCut slot))
    (second : top = 0 → plan 1 = some (secondDirectCut (presentIn t.nodes ino 0) slot)) :
    ∃ r, nidSection ino 0 2 902 ⟨t,offset,false⟩ = some r ∧ r.flag = true ∧ r.offset 0 = 902 ∧
      Truncated 900 plan ino t r.trunc 2 := by
  have entered : (offset 0 - 900).toNat = top := by omega
  have len := offsetLenTwo (by omega) (by omega) at2
  have loop : ∃ r, forLoop top 2 (clearTop ino 0) ⟨t,offset,false⟩ = some r ∧ Truncated 900 plan ino t r.trunc 2 := by
    have drop : decrement offset 1 1 = 0 ↔ decide (slot = 1) = true := by
      rw [decrementSelf,at1]; simp; omega
    rcases (by omega : top = 0 ∨ top = 1) with rfl | rfl
    · obtain ⟨s,ran,next⟩ := directTop tree low 1 slot len at1 (by omega) here drop (truncatedInit plan)
      obtain ⟨r,then_,done⟩ := secondDirect tree slot bound (by omega) at1 at2 (second rfl) next
      refine ⟨r,?_,done⟩
      rw [forLoopHead (by omega),ran,Option.bind_some,forLoopHead (by omega),then_,Option.bind_some,
        forLoopEmpty (by omega)]
    · have stage : Truncated 900 plan ino t t 1 := truncatedBefore before
      obtain ⟨s,ran,next⟩ := directTop tree low 1 slot len at1 (by omega) here drop stage
      exact ⟨_,(forLoopSingle ..).trans ran,next⟩
  obtain ⟨r,ran,done⟩ := loop
  refine ⟨⟨r.trunc,Function.update r.offset 0 902,true⟩,?_,rfl,by simp,done⟩
  unfold nidSection
  rw [if_pos (by change offset 0 < 902; omega)]
  simp only [entered,ran,Option.map_some]

theorem secondIndirect (tree : InodeTree t.nodes ino) (mid slot : Nat) {offset : Offset} {s : Trunc}
    (midBound : mid < 1018) (at0 : offset 0 = 902) (at1 : offset 1 = mid) (at2 : offset 2 = slot)
    (at3 : offset 3 = -1) (within : ¬ (mid = 0 ∧ slot = 0 ∧ (t.nodes ino).iNid 2 ≠ 0 ∧ (t.nodes ino).iNid 3 ≠ 0))
    (planned : plan 3 = some (secondIndirectCut (presentIn t.nodes ino 2) mid slot))
    (held : Truncated 900 plan ino t s 3) :
    ∃ r, clearTop ino 1 ⟨s,if (t.nodes ino).iNid 2 ≠ 0 ∧ slot = 0 then decrement offset 1 else offset,false⟩ 3 =
      some r ∧ Truncated 900 plan ino t r.trunc 4 := by
  by_cases moved : (t.nodes ino).iNid 2 ≠ 0 ∧ slot = 0
  · obtain ⟨used,rfl⟩ := moved
    rw [if_pos ⟨used,rfl⟩]
    by_cases absent : (t.nodes ino).iNid 3 = 0
    · obtain ⟨ran,next⟩ := topAbsent 1 ⟨s,decrement offset 1,false⟩ absent held
      exact ⟨_,ran,next⟩
    · have positive : mid ≠ 0 := fun zero => within ⟨zero,rfl,used,absent⟩
      have at1' : decrement offset 1 1 = (mid - 1 : Nat) := by rw [decrementSelf,at1]; omega
      have at2' : decrement offset 1 2 = (0 : Nat) := by rw [decrementOther offset (by omega),at2]
      have at3' : decrement offset 1 3 = -1 := by rw [decrementOther offset (by omega),at3]
      have at0' : decrement offset 1 0 = 902 := by rw [decrementOther offset (by omega),at0]
      have len : offsetLen (decrement offset 1) = 3 := offsetLenThree (by omega) (by omega) (by omega) at3'
      have cut : plan 3 = some (TopCut.within (mid - 1) 0) := by
        simpa [secondIndirectCut,presentIn,used] using planned
      obtain ⟨s',ran,next⟩ := insideTop tree (by omega) rfl (mid - 1) 0 len at1' at2' (by omega) cut held
      exact ⟨_,ran,next⟩
  · have cut : plan 3 = some (TopCut.within mid slot) := by
      have kept : ¬ (presentIn t.nodes ino 2 = true ∧ slot = 0) := by simpa [presentIn] using moved
      rw [planned]
      unfold secondIndirectCut
      rw [if_neg kept]
    have len : offsetLen offset = 3 := offsetLenThree (by omega) (by omega) (by omega) at3
    obtain ⟨s',ran,next⟩ := insideTop tree (by omega) rfl mid slot len at1 at2 midBound cut held
    rw [if_neg moved]
    exact ⟨_,ran,next⟩

theorem indirectSection (plan : Nat → Option TopCut) (tree : InodeTree t.nodes ino) (top mid slot : Nat) {offset : Offset} (low : top < 2)
    (midBound : mid < 1018) (at0 : offset 0 = 902 + top) (at1 : offset 1 = mid) (at2 : offset 2 = slot)
    (at3 : offset 3 = -1) (before : ∀ i < 2 + top, plan i = none)
    (here : plan (2 + top) = some (.within mid slot))
    (second : top = 0 → plan 3 = some (secondIndirectCut (presentIn t.nodes ino 2) mid slot))
    (within : top = 0 → ¬ (mid = 0 ∧ slot = 0 ∧ (t.nodes ino).iNid 2 ≠ 0 ∧ (t.nodes ino).iNid 3 ≠ 0)) :
    ∃ r, nidSection ino 1 4 904 ⟨t,offset,false⟩ = some r ∧ r.flag = true ∧ r.offset 0 = 904 ∧
      Truncated 900 plan ino t r.trunc 4 := by
  have entered : (offset 0 - 900).toNat = 2 + top := by omega
  have len : offsetLen offset = 3 := offsetLenThree (by omega) (by omega) (by omega) at3
  have stage : Truncated 900 plan ino t t (2 + top) := truncatedBefore before
  have loop : ∃ r, forLoop (2 + top) 4 (clearTop ino 1) ⟨t,offset,false⟩ = some r ∧
      Truncated 900 plan ino t r.trunc 4 := by
    rcases (by omega : top = 0 ∨ top = 1) with rfl | rfl
    · obtain ⟨s,ran,next⟩ := insideTop tree (by omega) rfl mid slot len at1 at2 midBound here stage
      obtain ⟨r,then_,done⟩ := secondIndirect tree mid slot midBound (by omega) at1 at2 at3 (within rfl) (second rfl) next
      refine ⟨r,?_,done⟩
      rw [forLoopHead (by omega),ran,Option.bind_some,forLoopHead (by omega)]
      simp only [Nat.add_zero,Nat.reduceAdd]
      rw [then_,Option.bind_some,forLoopEmpty (by omega)]
    · obtain ⟨s,ran,next⟩ := insideTop tree (by omega) rfl mid slot len at1 at2 midBound here stage
      exact ⟨_,(forLoopSingle ..).trans ran,next⟩
  obtain ⟨r,ran,done⟩ := loop
  refine ⟨⟨r.trunc,Function.update r.offset 0 904,true⟩,?_,rfl,by simp,done⟩
  unfold nidSection
  rw [if_pos (by change offset 0 < 904; omega)]
  simp only [entered,ran,Option.map_some]

theorem doubleSection (plan : Nat → Option TopCut) (tree : InodeTree t.nodes ino) (top mid slot : Nat) {offset : Offset} (topBound : top < 1018)
    (at0 : offset 0 = 904) (at1 : offset 1 = top) (at2 : offset 2 = mid) (at3 : offset 3 = slot)
    (before : ∀ i < 4, plan i = none) (here : plan 4 = some (.within top mid)) :
    ∃ r, nidSection ino 2 5 906 ⟨t,offset,false⟩ = some r ∧ Truncated 900 plan ino t r.trunc 5 := by
  have entered : (offset 0 - 900).toNat = 4 := by omega
  have len : offsetLen offset = 4 := offsetLenFour (by omega) (by omega) (by omega) (by omega)
  obtain ⟨s,ran,next⟩ := insideTop tree (by omega) rfl top mid len at1 at2 topBound here (truncatedBefore before)
  have loop : ∃ r, forLoop 4 5 (clearTop ino 2) ⟨t,offset,false⟩ = some r ∧ Truncated 900 plan ino t r.trunc 5 :=
    ⟨_,(forLoopSingle ..).trans ran,next⟩
  obtain ⟨r,ran,done⟩ := loop
  refine ⟨⟨r.trunc,Function.update r.offset 0 906,true⟩,?_,done⟩
  unfold nidSection
  rw [if_pos (by change offset 0 < 905; omega)]
  simp only [entered,ran,Option.map_some]

/- With the boundary at the very first slot, the second indirect node is entered
with one cell left in the path. -/
theorem indirectOverrun (plan : Nat → Option TopCut) (tree : InodeTree t.nodes ino) {offset : Offset}
    (at0 : offset 0 = 902) (at1 : offset 1 = 0) (at2 : offset 2 = 0) (at3 : offset 3 = -1)
    (before : ∀ i < 2, plan i = none) (here : plan 2 = some (.within 0 0)) (first : (t.nodes ino).iNid 2 ≠ 0) (second : (t.nodes ino).iNid 3 ≠ 0) :
    nidSection ino 1 4 904 ⟨t,offset,false⟩ = none := by
  have len : offsetLen offset = 3 := offsetLenThree (by omega) (by omega) (by omega) at3
  obtain ⟨s,ran,next⟩ := insideTop tree (by omega) rfl 0 0 len at1 at2 (by omega) here
    (truncatedBefore before : Truncated 900 plan ino t t 2)
  rw [if_pos ⟨first,rfl⟩] at ran
  have word : (s.nodes ino).iNid 3 = (t.nodes ino).iNid 3 := next.kept 3 fun early => absurd early (by omega)
  have short : offsetLen (decrement offset 1) = 1 := by
    apply offsetLenOne
    · rw [decrementOther offset (by omega)]; omega
    · rw [decrementSelf,at1]; rfl
  have overrun : clearTop ino 1 ⟨s,decrement offset 1,false⟩ 3 = none := by
    simp only [clearTop,word,second,if_false,Bool.false_eq_true,recurseUnfold,recurseStart,short]
    rfl
  have entered : (offset 0 - 900).toNat = 2 := by omega
  unfold nidSection
  rw [if_pos (by change offset 0 < 904; omega)]
  simp only [entered]
  rw [forLoopHead (by omega),ran,Option.bind_some,forLoopHead (by omega),overrun]
  rfl

theorem truncateUnfold (ino : Nat) (p : TreePath) (t : Trunc) :
    xcpfsTruncateBlocks ino p.index t = (inodeSection ino ⟨t,p.offsets,false⟩).bind fun r =>
      (nidSection ino 0 2 902 r).bind fun r => (nidSection ino 1 4 904 r).bind fun r =>
      (nidSection ino 2 5 906 r).map TruncRun.trunc := by
  obtain ⟨path,decoded⟩ : ∃ path, path = getPath p.index := ⟨_,rfl⟩
  unfold xcpfsTruncateBlocks
  rw [← decoded,decoded.trans p.getPathIndex]

theorem truncateBlocks (t : Trunc) (tree : InodeTree t.nodes ino) (p : TreePath)
    (within : ¬ p.overruns (presentIn t.nodes ino)) :
    ∃ t', xcpfsTruncateBlocks ino p.index t = some t' ∧
      Truncated p.addrStart (p.topCut (presentIn t.nodes ino)) ino t t' 5 := by
  rw [truncateUnfold]
  obtain ⟨plan,planIs⟩ : ∃ plan, plan = p.topCut (presentIn t.nodes ino) := ⟨_,rfl⟩
  rw [← planIs]
  cases p with
  | inode slot => exact truncateInode tree slot.isLt rfl fun i => by rw [planIs]; rfl
  | direct top slot =>
    have cut : ∀ i, plan i = if i < (top : Nat) then none else if i = top then some (directCut slot)
      else if i = 1 then some (secondDirectCut (presentIn t.nodes ino 0) slot) else some (.whole i) :=
      fun i => by rw [planIs]; rfl
    obtain ⟨r,ran,flag,here,next⟩ := directSection plan tree top slot top.isLt slot.isLt
      (rfl : (TreePath.direct top slot).offsets 0 = 900 + (top : Nat)) rfl rfl
      (fun i low => by rw [cut,if_pos low]) (by rw [cut,if_neg (by omega),if_pos rfl])
      (fun zero => by rw [cut,if_neg (by omega),if_neg (by omega),if_pos rfl])
    rw [inodeSectionSkip ino (by change (900 : Int) ≤ 900 + (top : Nat); omega),Option.bind_some,ran,Option.bind_some]
    exact afterDirect tree flag here
      (fun i low _ => by rw [cut,if_neg (by omega),if_neg (by omega),if_neg (by omega)]) next
  | indirect top mid slot =>
    have cut : ∀ i, plan i = if i < 2 + (top : Nat) then none else if i = 2 + top then some (.within mid slot)
      else if i = 3 then some (secondIndirectCut (presentIn t.nodes ino 2) mid slot) else some (.whole i) :=
      fun i => by rw [planIs]; rfl
    have inside : (top : Nat) = 0 → ¬ ((mid : Nat) = 0 ∧ (slot : Nat) = 0 ∧ (t.nodes ino).iNid 2 ≠ 0 ∧
        (t.nodes ino).iNid 3 ≠ 0) := fun zero bad => by
      simp only [TreePath.overruns,presentIn,decide_eq_true_eq] at within
      exact within ⟨zero,bad⟩
    obtain ⟨r,ran,flag,here,next⟩ := indirectSection plan tree top mid slot top.isLt mid.isLt
      (rfl : (TreePath.indirect top mid slot).offsets 0 = 902 + (top : Nat)) rfl rfl rfl
      (fun i low => by rw [cut,if_pos low]) (by rw [cut,if_neg (by omega),if_pos rfl])
      (fun zero => by rw [cut,if_neg (by omega),if_neg (by omega),if_pos rfl]) inside
    rw [inodeSectionSkip ino (by change (900 : Int) ≤ 902 + (top : Nat); omega),Option.bind_some,
      sectionSkip ino 0 2 902 (by change (902 : Int) ≤ 902 + (top : Nat); omega),Option.bind_some,ran,Option.bind_some]
    exact afterIndirect tree flag here (by rw [cut,if_neg (by omega),if_neg (by omega),if_neg (by omega)]) next
  | double top mid slot =>
    have cut : ∀ i, plan i = if i < 4 then none else some (.within top mid) := fun i => by rw [planIs]; rfl
    obtain ⟨r,ran,next⟩ := doubleSection plan tree top mid slot top.isLt
      (rfl : (TreePath.double top mid slot).offsets 0 = 904) rfl rfl rfl
      (fun i low => by rw [cut,if_pos low]) (by rw [cut,if_neg (by omega)])
    rw [inodeSectionSkip ino (by change (900 : Int) ≤ 904; omega),Option.bind_some,
      sectionSkip ino 0 2 902 (by change (902 : Int) ≤ 904; omega),Option.bind_some,
      sectionSkip ino 1 4 904 (by change (904 : Int) ≤ 904; omega),Option.bind_some,ran]
    exact ⟨r.trunc,rfl,next⟩

theorem truncateOverruns (t : Trunc) (tree : InodeTree t.nodes ino) (p : TreePath)
    (outside : p.overruns (presentIn t.nodes ino)) : xcpfsTruncateBlocks ino p.index t = none := by
  rw [truncateUnfold]
  cases p with
  | inode slot => exact outside.elim
  | direct top slot => exact outside.elim
  | double top mid slot => exact outside.elim
  | indirect top mid slot =>
    obtain ⟨topZero,midZero,slotZero,first,second⟩ := outside
    simp only [presentIn,decide_eq_true_eq] at first second
    have at0 : (TreePath.indirect top mid slot).offsets 0 = 902 := by
      change (902 : Int) + (top : Nat) = 902
      omega
    have at1 : (TreePath.indirect top mid slot).offsets 1 = 0 := by
      change ((mid : Nat) : Int) = 0
      omega
    have at2 : (TreePath.indirect top mid slot).offsets 2 = 0 := by
      change ((slot : Nat) : Int) = 0
      omega
    have stop := indirectOverrun (fun i => if i < 2 then none else some (.within 0 0)) tree at0 at1 at2 rfl
      (fun i low => if_pos low) rfl first second
    have past : (902 : Int) ≤ (TreePath.indirect top mid slot).offsets 0 := by omega
    rw [inodeSectionSkip ino (by change (900 : Int) ≤ (TreePath.indirect top mid slot).offsets 0; omega),
      Option.bind_some,sectionSkip ino 0 2 902 (by exact past),Option.bind_some,stop]
    rfl

end
end Xcpfs
