import Xcpfs.TruncateMap

/-! The calls a truncate makes, read as places of the tree: which data pointers
reach `invalidate_blkaddr` and which node pointers reach `invalidate_nat`. -/
namespace Xcpfs
open PointerForest CountedLoop

def Call.addr : Call → Option Nat
  | .blkaddr a => some a
  | .nat _ => none

def addrCalls (calls : List Call) : List Nat := calls.filterMap Call.addr

theorem addrCallsAppend (xs ys : List Call) : addrCalls (xs ++ ys) = addrCalls xs ++ addrCalls ys :=
  List.filterMap_append

theorem addrCallsFlatMap {α : Type} (xs : List α) (f : α → List Call) :
    addrCalls (xs.flatMap f) = xs.flatMap fun x => addrCalls (f x) :=
  List.filterMap_flatMap

/- Slot paths from a node down to a data pointer that one iteration clears. -/
def walked (nodes : NodeStore) : (depth n a : Nat) → List (List Nat)
  | 0,n,a => if (nodes n).slot a = 0 then [] else [[a]]
  | depth + 1,n,a => if (nodes n).slot a = 0 then [] else
    ((List.range' (firstCleared depth) (1018 - firstCleared depth)).flatMap
      (walked nodes depth ((nodes n).slot a))).map (a :: ·)

def slotValue (nodes : NodeStore) (n : Nat) : List Nat → Nat
  | [] => 0
  | [a] => (nodes n).slot a
  | a :: b :: rest => slotValue nodes ((nodes n).slot a) (b :: rest)

def walkedFrom (nodes : NodeStore) (depth n start : Nat) : List (List Nat) :=
  (List.range' start (1018 - start)).flatMap (walked nodes depth n)

section
variable {nodes : NodeStore} {depth n a start : Nat} {path : List Nat}

theorem walkedHead (member : path ∈ walked nodes depth n a) : ∃ rest, path = a :: rest := by
  cases depth with
  | zero =>
    simp only [walked] at member
    split at member
    · contradiction
    · exact ⟨[],by simpa using member⟩
  | succ depth =>
    simp only [walked] at member
    split at member
    · contradiction
    · obtain ⟨rest,_,rfl⟩ := List.mem_map.mp member
      exact ⟨rest,rfl⟩

theorem flatMapHeads {α : Type} (f : Nat → List (List α)) (key : Nat → α) (inj : Function.Injective key)
    (heads : ∀ a, ∀ path ∈ f a, ∃ rest, path = key a :: rest) (nodup : ∀ a, (f a).Nodup) {xs : List Nat}
    (distinct : xs.Nodup) : (xs.flatMap f).Nodup := by
  refine List.nodup_flatMap.mpr ⟨fun a _ => nodup a,distinct.imp_of_mem fun {a b} _ _ other path left right => ?_⟩
  obtain ⟨rest,rfl⟩ := heads a path left
  obtain ⟨rest',same⟩ := heads b _ right
  exact other (inj (List.cons.inj same).1)

theorem walkedNodup (depth n a : Nat) : (walked nodes depth n a).Nodup := by
  induction depth generalizing n a with
  | zero =>
    simp only [walked]
    split <;> simp
  | succ depth ih =>
    simp only [walked]
    split
    · exact List.nodup_nil
    · refine List.Nodup.map (fun _ _ same => (List.cons.inj same).2) ?_
      exact flatMapHeads _ id Function.injective_id (fun b path member => walkedHead member) (ih _) List.nodup_range'

theorem walkedFromNodup (depth n start : Nat) : (walkedFrom nodes depth n start).Nodup :=
  flatMapHeads _ id Function.injective_id (fun b path member => walkedHead member) (walkedNodup depth n) List.nodup_range'

theorem addrCallsReleased (depth n a : Nat) :
    addrCalls (releasedAt nodes depth n a) = (walked nodes depth n a).map (slotValue nodes n) := by
  induction depth generalizing n a with
  | zero =>
    simp only [releasedAt,walked]
    split
    · rfl
    · rfl
  | succ depth ih =>
    simp only [releasedAt,walked]
    split
    · rfl
    · rw [addrCallsAppend,addrCallsFlatMap,List.map_map]
      have tail : addrCalls [Call.nat ((nodes n).slot a)] = [] := rfl
      rw [tail,List.append_nil,List.map_flatMap]
      apply List.flatMap_congr
      intro b _
      rw [ih]
      apply List.map_congr_left
      intro path member
      obtain ⟨rest,rfl⟩ := walkedHead member
      rfl

theorem addrCallsFrom (depth n start : Nat) :
    addrCalls (released nodes depth n start 1018) = (walkedFrom nodes depth n start).map (slotValue nodes n) := by
  rw [released,addrCallsFlatMap,walkedFrom,List.map_flatMap]
  exact List.flatMap_congr fun a _ => addrCallsReleased depth n a

theorem memWalkedZero : path ∈ walked nodes 0 n a ↔ path = [a] ∧ (nodes n).slot a ≠ 0 := by
  simp only [walked]
  split <;> simp_all

theorem memWalkedOne : path ∈ walked nodes 1 n a ↔
    ∃ b, b < 1018 ∧ path = [a,b] ∧ (nodes n).slot a ≠ 0 ∧ (nodes ((nodes n).slot a)).slot b ≠ 0 := by
  rw [walked]
  split
  · rename_i zero
    simp [zero]
  · rename_i used
    simp only [List.mem_map,List.mem_flatMap,memWalkedZero,List.mem_range'_1,firstCleared]
    constructor
    · rintro ⟨_,⟨b,bound,rfl,stored⟩,rfl⟩
      exact ⟨b,by simpa using bound,rfl,used,stored⟩
    · rintro ⟨b,bound,rfl,_,stored⟩
      exact ⟨[b],⟨b,by simpa using bound,rfl,stored⟩,rfl⟩

theorem memWalkedTwo : path ∈ walked nodes 2 n a ↔
    ∃ b c, 1 ≤ b ∧ b < 1018 ∧ c < 1018 ∧ path = [a,b,c] ∧ (nodes n).slot a ≠ 0 ∧
      (nodes ((nodes n).slot a)).slot b ≠ 0 ∧ (nodes ((nodes ((nodes n).slot a)).slot b)).slot c ≠ 0 := by
  rw [walked]
  split
  · rename_i zero
    simp [zero]
  · rename_i used
    simp only [List.mem_map,List.mem_flatMap,memWalkedOne,List.mem_range'_1,firstCleared]
    constructor
    · rintro ⟨_,⟨b,⟨low,high⟩,c,bound,rfl,edge,stored⟩,rfl⟩
      simp only [Nat.one_ne_zero,if_false] at low high
      exact ⟨b,c,low,by omega,bound,rfl,used,edge,stored⟩
    · rintro ⟨b,c,low,high,bound,rfl,_,edge,stored⟩
      refine ⟨[b,c],⟨b,⟨by simpa using low,?_⟩,c,bound,rfl,edge,stored⟩,rfl⟩
      simp only [Nat.one_ne_zero,if_false]
      omega

theorem memWalkedFrom : path ∈ walkedFrom nodes depth n start ↔
    ∃ a, start ≤ a ∧ a < 1018 ∧ path ∈ walked nodes depth n a := by
  simp only [walkedFrom,List.mem_flatMap,List.mem_range'_1]
  constructor
  · rintro ⟨a,⟨low,high⟩,member⟩
    exact ⟨a,low,by omega,member⟩
  · rintro ⟨a,low,high,member⟩
    exact ⟨a,⟨low,by omega⟩,member⟩

end

/- The cells of `offset` for a block, as one list. -/
def TreePath.cells : TreePath → List Nat
  | .inode slot => [(slot : Nat)]
  | .direct top slot => [900 + top,(slot : Nat)]
  | .indirect top mid slot => [902 + top,(mid : Nat),(slot : Nat)]
  | .double top mid slot => [904,(top : Nat),(mid : Nat),(slot : Nat)]

theorem cellsInjective : Function.Injective TreePath.cells := by
  intro p q same
  cases p <;> cases q <;> simp_all [TreePath.cells,Fin.ext_iff]

def past : Option TopCut → Nat → Prop
  | none,_ => False
  | some cut,a => cut.start ≤ a

/- Where the loops reach a data pointer: they skip the first slot of a node of
pointers whose parent they clear. -/
def releases (start : Nat) (plan : Nat → Option TopCut) : TreePath → Prop
  | .inode slot => start ≤ (slot : Nat)
  | .direct top slot => past (plan top) slot
  | .indirect top mid _ => past (plan (2 + top)) mid
  | .double top mid _ => past (plan 4) top ∧ 1 ≤ (mid : Nat)

def rootValue (nodes : NodeStore) (ino : Nat) : List Nat → Nat
  | [] => 0
  | [slot] => (nodes ino).iAddr slot
  | top :: a :: rest => slotValue nodes ((nodes ino).iNid (top - 900)) (a :: rest)

def visitedAddr (nodes : NodeStore) (ino i : Nat) : List (List Nat) :=
  if (nodes ino).iAddr i = 0 then [] else [[i]]

def visitedTop (nodes : NodeStore) (ino : Nat) (plan : Nat → Option TopCut) (i : Nat) : List (List Nat) :=
  match plan i with
  | none => []
  | some cut => if (nodes ino).iNid i = 0 then []
    else (walkedFrom nodes (levelOf i) ((nodes ino).iNid i) cut.start).map ((900 + i) :: ·)

def visited (nodes : NodeStore) (ino start : Nat) (plan : Nat → Option TopCut) : List (List Nat) :=
  (List.range' start (900 - start)).flatMap (visitedAddr nodes ino) ++
    (List.range 5).flatMap (visitedTop nodes ino plan)

section
variable {nodes : NodeStore} {ino start i : Nat} {plan : Nat → Option TopCut} {path : List Nat}

theorem walkedFromCons {depth n : Nat} (member : path ∈ walkedFrom nodes depth n start) :
    ∃ a rest, path = a :: rest := by
  obtain ⟨a,_,_,inner⟩ := memWalkedFrom.mp member
  obtain ⟨rest,same⟩ := walkedHead inner
  exact ⟨a,rest,same⟩

theorem memVisitedTop : path ∈ visitedTop nodes ino plan i ↔
    ∃ cut rest, plan i = some cut ∧ (nodes ino).iNid i ≠ 0 ∧ path = (900 + i) :: rest ∧
      rest ∈ walkedFrom nodes (levelOf i) ((nodes ino).iNid i) cut.start := by
  unfold visitedTop
  cases planned : plan i with
  | none => simp
  | some cut =>
    by_cases used : (nodes ino).iNid i = 0
    · simp [used]
    · simp only [used,if_false,List.mem_map]
      constructor
      · rintro ⟨rest,member,rfl⟩
        exact ⟨cut,rest,rfl,used,rfl,member⟩
      · rintro ⟨_,rest,same,_,rfl,member⟩
        cases same
        exact ⟨rest,member,rfl⟩

theorem visitedTopNodup (i : Nat) : (visitedTop nodes ino plan i).Nodup := by
  unfold visitedTop
  split
  · exact List.nodup_nil
  · split
    · exact List.nodup_nil
    · exact (walkedFromNodup ..).map fun _ _ same => (List.cons.inj same).2

theorem visitedNodup : (visited nodes ino start plan).Nodup := by
  refine List.nodup_append.mpr ⟨?_,?_,?_⟩
  · refine flatMapHeads _ id Function.injective_id (fun i path member => ?_) (fun i => ?_) List.nodup_range'
    · unfold visitedAddr at member
      split at member
      · contradiction
      · exact ⟨[],List.mem_singleton.mp member⟩
    · unfold visitedAddr
      split <;> simp
  · refine flatMapHeads _ (900 + ·) (fun _ _ same => Nat.add_left_cancel same) (fun i path member => ?_)
      visitedTopNodup List.nodup_range
    obtain ⟨_,rest,_,_,same,_⟩ := memVisitedTop.mp member
    exact ⟨rest,same⟩
  · intro left memLeft right memRight same
    subst same
    obtain ⟨i,_,first⟩ := List.mem_flatMap.mp memLeft
    obtain ⟨j,_,second⟩ := List.mem_flatMap.mp memRight
    obtain ⟨_,rest,_,_,rfl,inner⟩ := memVisitedTop.mp second
    obtain ⟨a,tail,rfl⟩ := walkedFromCons inner
    unfold visitedAddr at first
    split at first <;> simp at first

theorem addrCallsTruncated {t t' : Trunc} (fresh : t.calls = []) (done : Truncated start plan ino t t' 5) :
    addrCalls t'.calls = (visited t.nodes ino start plan).map (rootValue t.nodes ino) := by
  rw [done.calls,fresh,List.nil_append,addrCallsAppend,visited,List.map_append]
  congr 1
  · rw [releasedAddrs,addrCallsFlatMap,List.map_flatMap]
    refine List.flatMap_congr fun i _ => ?_
    unfold releasedAddrAt visitedAddr
    split <;> rfl
  · rw [addrCallsFlatMap,List.map_flatMap]
    refine List.flatMap_congr fun i _ => ?_
    unfold planCalls visitedTop
    cases plan i with
    | none => rfl
    | some cut =>
      by_cases used : (t.nodes ino).iNid i = 0
      · simp only [topCalls,used,if_true]
        rfl
      · have boundary : addrCalls (boundaryCalls (t.nodes ((t.nodes ino).iNid i)) cut.boundary) = [] := by
          cases cut.boundary <;> rfl
        have drop : addrCalls (if cut.dropped then [Call.nat ((t.nodes ino).iNid i)] else []) = [] := by
          split <;> rfl
        simp only [topCalls,used,if_false,addrCallsAppend,boundary,drop,List.append_nil,addrCallsFrom,List.map_map]
        apply List.map_congr_left
        intro path member
        obtain ⟨a,rest,rfl⟩ := walkedFromCons member
        simp [rootValue]

theorem rootValueCells (p : TreePath) (stored : blockAt nodes ino p ≠ 0) :
    rootValue nodes ino p.cells = blockAt nodes ino p := by
  cases p with
  | inode slot => rfl
  | direct top slot =>
    rw [blockAtDirect] at stored ⊢
    split at stored
    · contradiction
    · rename_i used
      rw [if_neg used]
      simp [TreePath.cells,rootValue,slotValue]
  | indirect top mid slot =>
    rw [blockAtIndirect,slotAt] at stored ⊢
    split at stored
    · contradiction
    · rename_i used
      split at stored
      · contradiction
      · rename_i edge
        rw [if_neg used,if_neg edge]
        have cell : 902 + (top : Nat) - 900 = 2 + top := by omega
        simp [TreePath.cells,rootValue,slotValue,cell]
  | double top mid slot =>
    rw [blockAtDouble,slotAt] at stored ⊢
    split at stored
    · contradiction
    · rename_i used
      split at stored
      · contradiction
      · rename_i edge
        split at stored
        · contradiction
        · rename_i next
          rw [if_neg used,if_neg edge,if_neg next]
          simp [TreePath.cells,rootValue,slotValue]

theorem blockDirectStored {top : Fin 2} {slot : Fin 1018} : blockAt nodes ino (.direct top slot) ≠ 0 ↔
    (nodes ino).iNid top ≠ 0 ∧ (nodes ((nodes ino).iNid top)).slot slot ≠ 0 := by
  rw [blockAtDirect]
  split <;> simp_all

theorem blockIndirectStored {top : Fin 2} {mid slot : Fin 1018} : blockAt nodes ino (.indirect top mid slot) ≠ 0 ↔
    (nodes ino).iNid (2 + top) ≠ 0 ∧ (nodes ((nodes ino).iNid (2 + top))).slot mid ≠ 0 ∧
      (nodes ((nodes ((nodes ino).iNid (2 + top))).slot mid)).slot slot ≠ 0 := by
  rw [blockAtIndirect,slotAt]
  split
  · simp_all
  · split <;> simp_all

theorem blockDoubleStored {top mid slot : Fin 1018} : blockAt nodes ino (.double top mid slot) ≠ 0 ↔
    (nodes ino).iNid 4 ≠ 0 ∧ (nodes ((nodes ino).iNid 4)).slot top ≠ 0 ∧
      (nodes ((nodes ((nodes ino).iNid 4)).slot top)).slot mid ≠ 0 ∧
      (nodes ((nodes ((nodes ((nodes ino).iNid 4)).slot top)).slot mid)).slot slot ≠ 0 := by
  rw [blockAtDouble,slotAt]
  split
  · simp_all
  · split
    · simp_all
    · split <;> simp_all

theorem visitedStored (member : path ∈ visited nodes ino start plan) :
    ∃ p : TreePath, path = p.cells ∧ blockAt nodes ino p ≠ 0 ∧ releases start plan p := by
  rcases List.mem_append.mp member with first | second
  · obtain ⟨i,bound,inner⟩ := List.mem_flatMap.mp first
    have range := List.mem_range'_1.mp bound
    unfold visitedAddr at inner
    split at inner
    · contradiction
    · rename_i stored
      exact ⟨.inode ⟨i,by omega⟩,List.mem_singleton.mp inner,stored,range.1⟩
  · obtain ⟨i,bound,inner⟩ := List.mem_flatMap.mp second
    have low := List.mem_range.mp bound
    obtain ⟨cut,rest,planned,used,rfl,walk⟩ := memVisitedTop.mp inner
    obtain ⟨a,after,aLow,deeper⟩ := memWalkedFrom.mp walk
    by_cases direct : i < 2
    · rw [levelOf,if_pos direct,memWalkedZero] at deeper
      obtain ⟨rfl,stored⟩ := deeper
      refine ⟨.direct ⟨i,direct⟩ ⟨a,aLow⟩,rfl,blockDirectStored.mpr ⟨used,stored⟩,?_⟩
      simpa only [releases,planned,past] using after
    · by_cases indirect : i < 4
      · rw [levelOf,if_neg direct,if_pos indirect,memWalkedOne] at deeper
        obtain ⟨b,bLow,rfl,edge,stored⟩ := deeper
        have cell : 2 + (i - 2) = i := by omega
        refine ⟨.indirect ⟨i - 2,by omega⟩ ⟨a,aLow⟩ ⟨b,bLow⟩,?_,blockIndirectStored.mpr ?_,?_⟩
        · have head : 902 + (i - 2) = 900 + i := by omega
          simp only [TreePath.cells,head]
        · simp only [cell]
          exact ⟨used,edge,stored⟩
        · simpa only [releases,cell,planned,past] using after
      · obtain rfl : i = 4 := by omega
        obtain ⟨b,c,bPos,bLow,cLow,rfl,edge,next,stored⟩ := memWalkedTwo.mp deeper
        refine ⟨.double ⟨a,aLow⟩ ⟨b,bLow⟩ ⟨c,cLow⟩,rfl,blockDoubleStored.mpr ⟨used,edge,next,stored⟩,?_⟩
        simp only [releases,planned]
        exact ⟨after,bPos⟩

theorem pastCut {cut : Option TopCut} {a : Nat} (after : past cut a) : ∃ c, cut = some c ∧ c.start ≤ a := by
  cases cut with
  | none => exact after.elim
  | some c => exact ⟨c,rfl,after⟩

theorem storedVisited (p : TreePath) (stored : blockAt nodes ino p ≠ 0) (released : releases start plan p) :
    p.cells ∈ visited nodes ino start plan := by
  cases p with
  | inode slot =>
    refine List.mem_append_left _ (List.mem_flatMap.mpr ⟨slot,List.mem_range'_1.mpr ⟨released,by omega⟩,?_⟩)
    have word : (nodes ino).iAddr slot ≠ 0 := stored
    rw [visitedAddr,if_neg word]
    exact List.mem_singleton.mpr rfl
  | direct top slot =>
    obtain ⟨used,word⟩ := blockDirectStored.mp stored
    obtain ⟨cut,planned,after⟩ := pastCut released
    refine List.mem_append_right _ (List.mem_flatMap.mpr ⟨top,List.mem_range.mpr (by omega),?_⟩)
    refine memVisitedTop.mpr ⟨cut,[(slot : Nat)],planned,used,rfl,memWalkedFrom.mpr ⟨slot,after,slot.isLt,?_⟩⟩
    rw [levelOf,if_pos top.isLt]
    exact memWalkedZero.mpr ⟨rfl,word⟩
  | indirect top mid slot =>
    obtain ⟨used,edge,word⟩ := blockIndirectStored.mp stored
    obtain ⟨cut,planned,after⟩ := pastCut released
    refine List.mem_append_right _ (List.mem_flatMap.mpr ⟨2 + top,List.mem_range.mpr (by omega),?_⟩)
    refine memVisitedTop.mpr ⟨cut,[(mid : Nat),(slot : Nat)],planned,used,?_,memWalkedFrom.mpr ⟨mid,after,mid.isLt,?_⟩⟩
    · have head : 902 + (top : Nat) = 900 + (2 + top) := by omega
      simp only [TreePath.cells,head]
    · rw [levelOf,if_neg (by omega),if_pos (by omega)]
      exact memWalkedOne.mpr ⟨slot,slot.isLt,rfl,edge,word⟩
  | double top mid slot =>
    obtain ⟨used,edge,next,word⟩ := blockDoubleStored.mp stored
    obtain ⟨cut,planned,after⟩ := pastCut released.1
    refine List.mem_append_right _ (List.mem_flatMap.mpr ⟨4,List.mem_range.mpr (by omega),?_⟩)
    refine memVisitedTop.mpr ⟨cut,[(top : Nat),(mid : Nat),(slot : Nat)],planned,used,rfl,
      memWalkedFrom.mpr ⟨top,after,top.isLt,?_⟩⟩
    exact memWalkedTwo.mpr ⟨mid,slot,released.2,mid.isLt,slot.isLt,rfl,edge,next,word⟩

end

def boundaryOf (cut : Option TopCut) : Option Nat := cut.bind TopCut.boundary

def dropsTop : Option TopCut → Prop
  | none => False
  | some cut => cut.dropped = true

/- Where a node pointer is handed to `invalidate_nat`. -/
def nodeReleased (plan : Nat → Option TopCut) : List Edge → Prop
  | [.nid i] => dropsTop (plan i)
  | [.nid i,.slot a] => past (plan i) a ∨ boundaryOf (plan i) = some a
  | [.nid i,.slot a,.slot b] => past (plan i) a ∧ 1 ≤ b
  | _ => False

/- The boundary of a plan is a slot of a node of pointers. -/
def BoundarySound (plan : Nat → Option TopCut) : Prop :=
  ∀ i < 5, ∀ a, boundaryOf (plan i) = some a → 2 ≤ i ∧ a < 1018

section
variable {nodes : NodeStore} {ino n a nid start i : Nat} {plan : Nat → Option TopCut}

theorem followNid {x : Nat} : follow (child nodes) ino [.nid i] = some x ↔
    (nodes ino).iNid i ≠ 0 ∧ x = (nodes ino).iNid i := by
  by_cases used : (nodes ino).iNid i = 0
  · rw [childUnused rfl used]
    simp [used]
  · rw [childUsed rfl used]
    simp [follow,used,eq_comm]

theorem followSlots {x : Nat} {rest : List Edge} : follow (child nodes) ino (.nid i :: .slot a :: rest) = some x ↔
    (nodes ino).iNid i ≠ 0 ∧ (nodes ((nodes ino).iNid i)).slot a ≠ 0 ∧
      follow (child nodes) ((nodes ((nodes ino).iNid i)).slot a) rest = some x := by
  by_cases used : (nodes ino).iNid i = 0
  · rw [childUnused rfl used]
    simp [used]
  · rw [childUsed rfl used]
    by_cases edge : (nodes ((nodes ino).iNid i)).slot a = 0
    · rw [childUnused rfl edge]
      simp [edge]
    · rw [childUsed rfl edge]
      simp [used,edge]

theorem followLastSlot {x b : Nat} : follow (child nodes) n [.slot b] = some x ↔
    (nodes n).slot b ≠ 0 ∧ x = (nodes n).slot b := by
  by_cases used : (nodes n).slot b = 0
  · rw [childUnused rfl used]
    simp [used]
  · rw [childUsed rfl used]
    simp [follow,used,eq_comm]

theorem natReleasedZero : Call.nat nid ∉ releasedAt nodes 0 n a := by
  rw [releasedAt]
  split <;> simp

theorem natReleasedOne : Call.nat nid ∈ releasedAt nodes 1 n a ↔ (nodes n).slot a ≠ 0 ∧ nid = (nodes n).slot a := by
  rw [releasedAt]
  split
  · rename_i zero
    simp [zero]
  · rename_i used
    simp [used,natReleasedZero]

theorem natReleasedTwo : Call.nat nid ∈ releasedAt nodes 2 n a ↔ (nodes n).slot a ≠ 0 ∧
    (nid = (nodes n).slot a ∨ ∃ b, 1 ≤ b ∧ b < 1018 ∧ (nodes ((nodes n).slot a)).slot b ≠ 0 ∧
      nid = (nodes ((nodes n).slot a)).slot b) := by
  rw [releasedAt]
  split
  · rename_i zero
    simp [zero]
  · rename_i used
    simp only [List.mem_append,List.mem_flatMap,List.mem_range'_1,natReleasedOne,List.mem_singleton,Call.nat.injEq,
      firstCleared,used,ne_eq,not_false_eq_true,true_and]
    constructor
    · rintro (⟨b,⟨low,high⟩,edge,same⟩ | same)
      · simp only [Nat.one_ne_zero,if_false] at low high
        exact Or.inr ⟨b,low,by omega,edge,same⟩
      · exact Or.inl same
    · rintro (same | ⟨b,low,high,edge,same⟩)
      · exact Or.inr same
      · refine Or.inl ⟨b,⟨by simpa using low,?_⟩,edge,same⟩
        simp only [Nat.one_ne_zero,if_false]
        omega

theorem natReleasedFrom {depth : Nat} : Call.nat nid ∈ released nodes depth n start 1018 ↔
    ∃ a, start ≤ a ∧ a < 1018 ∧ Call.nat nid ∈ releasedAt nodes depth n a := by
  simp only [released,List.mem_flatMap,List.mem_range'_1]
  constructor
  · rintro ⟨a,⟨low,high⟩,member⟩
    exact ⟨a,low,by omega,member⟩
  · rintro ⟨a,low,high,member⟩
    exact ⟨a,⟨low,by omega⟩,member⟩

theorem natPlan : Call.nat nid ∈ planCalls nodes ino plan i ↔
    ∃ cut, plan i = some cut ∧ (nodes ino).iNid i ≠ 0 ∧
      ((∃ a, cut.start ≤ a ∧ a < 1018 ∧ Call.nat nid ∈ releasedAt nodes (levelOf i) ((nodes ino).iNid i) a) ∨
      (∃ a, cut.boundary = some a ∧ nid = (nodes ((nodes ino).iNid i)).slot a) ∨
      (cut.dropped = true ∧ nid = (nodes ino).iNid i)) := by
  unfold planCalls
  cases plan i with
  | none => simp
  | some cut =>
    by_cases used : (nodes ino).iNid i = 0
    · simp [topCalls,used]
    · have boundary : Call.nat nid ∈ boundaryCalls (nodes ((nodes ino).iNid i)) cut.boundary ↔
          ∃ a, cut.boundary = some a ∧ nid = (nodes ((nodes ino).iNid i)).slot a := by
        cases cut.boundary <;> simp [boundaryCalls]
      have drop : Call.nat nid ∈ (if cut.dropped then [Call.nat ((nodes ino).iNid i)] else []) ↔
          (cut.dropped = true ∧ nid = (nodes ino).iNid i) := by
        split <;> simp_all
      simp only [topCalls,used,if_false,List.mem_append,natReleasedFrom,boundary,drop]
      constructor
      · rintro ((inner | inner) | inner)
        · exact ⟨cut,rfl,used,Or.inl inner⟩
        · exact ⟨cut,rfl,used,Or.inr (Or.inl inner)⟩
        · exact ⟨cut,rfl,used,Or.inr (Or.inr inner)⟩
      · rintro ⟨_,same,_,inner⟩
        cases same
        rcases inner with inner | inner | inner
        · exact Or.inl (Or.inl inner)
        · exact Or.inl (Or.inr inner)
        · exact Or.inr inner

theorem natAddrs : Call.nat nid ∉ releasedAddrs nodes ino start 900 := by
  intro member
  obtain ⟨i,_,inner⟩ := List.mem_flatMap.mp member
  unfold releasedAddrAt at inner
  split at inner <;> simp at inner

theorem natTruncated {t t' : Trunc} (fresh : t.calls = []) (done : Truncated start plan ino t t' 5) :
    Call.nat nid ∈ t'.calls ↔ ∃ i < 5, Call.nat nid ∈ planCalls t.nodes ino plan i := by
  rw [done.calls,fresh,List.nil_append,List.mem_append,List.mem_flatMap]
  simp only [natAddrs,false_or,List.mem_range]

theorem levelOfDouble : levelOf 4 = 2 := rfl

/- Nids passed to `invalidate_nat`, by place; a boundary pointer that is null is
passed on as nid 0. -/
theorem natPlaces (sound : BoundarySound plan) : (∃ i < 5, Call.nat nid ∈ planCalls nodes ino plan i) ↔
    (∃ q, NodePlace q ∧ nodeReleased plan q ∧ follow (child nodes) ino q = some nid) ∨
    (nid = 0 ∧ ∃ i < 5, ∃ a, boundaryOf (plan i) = some a ∧ (nodes ino).iNid i ≠ 0 ∧
      (nodes ((nodes ino).iNid i)).slot a = 0) := by
  constructor
  · rintro ⟨i,low,member⟩
    obtain ⟨cut,planned,used,⟨a,after,aLow,inner⟩ | ⟨a,boundary,same⟩ | ⟨drop,same⟩⟩ := natPlan.mp member
    · have reached : past (plan i) a := by rw [planned]; exact after
      by_cases direct : i < 2
      · rw [levelOf,if_pos direct] at inner
        exact absurd inner natReleasedZero
      · by_cases indirect : i < 4
        · rw [levelOf,if_neg direct,if_pos indirect] at inner
          obtain ⟨edge,same⟩ := natReleasedOne.mp inner
          exact Or.inl ⟨[.nid i,.slot a],⟨by omega,low,aLow⟩,Or.inl reached,followSlots.mpr ⟨used,edge,by rw [same]; rfl⟩⟩
        · obtain rfl : i = 4 := by omega
          rw [levelOfDouble] at inner
          obtain ⟨edge,same | ⟨b,bPos,bLow,next,same⟩⟩ := natReleasedTwo.mp inner
          · exact Or.inl ⟨[.nid 4,.slot a],⟨by omega,low,aLow⟩,Or.inl reached,followSlots.mpr ⟨used,edge,by rw [same]; rfl⟩⟩
          · exact Or.inl ⟨[.nid 4,.slot a,.slot b],⟨rfl,aLow,bLow⟩,⟨reached,bPos⟩,
              followSlots.mpr ⟨used,edge,followLastSlot.mpr ⟨next,same⟩⟩⟩
    · have here : boundaryOf (plan i) = some a := by rw [planned]; exact boundary
      obtain ⟨deep,aLow⟩ := sound i low a here
      by_cases edge : (nodes ((nodes ino).iNid i)).slot a = 0
      · exact Or.inr ⟨same.trans edge,i,low,a,here,used,edge⟩
      · exact Or.inl ⟨[.nid i,.slot a],⟨deep,low,aLow⟩,Or.inr here,followSlots.mpr ⟨used,edge,by rw [same]; rfl⟩⟩
    · refine Or.inl ⟨[.nid i],low,?_,followNid.mpr ⟨used,same⟩⟩
      simp only [nodeReleased,planned]
      exact drop
  · rintro (⟨q,place,gone,path⟩ | ⟨rfl,i,low,a,boundary,used,edge⟩)
    · obtain rfl | ⟨i,low,rfl⟩ | ⟨i,a,deep,low,aLow,rfl⟩ | ⟨a,b,aLow,bLow,rfl⟩ := nodePlaceCases place
      · exact gone.elim
      · obtain ⟨used,same⟩ := followNid.mp path
        cases planned : plan i with
        | none => simp [nodeReleased,planned,dropsTop] at gone
        | some cut =>
          simp only [nodeReleased,planned] at gone
          exact ⟨i,low,natPlan.mpr ⟨cut,planned,used,Or.inr (Or.inr ⟨gone,same⟩)⟩⟩
      · obtain ⟨used,edge,last⟩ := followSlots.mp path
        have same : nid = (nodes ((nodes ino).iNid i)).slot a := (Option.some.inj last).symm
        rcases gone with reached | boundary
        · obtain ⟨cut,planned,after⟩ := pastCut reached
          refine ⟨i,low,natPlan.mpr ⟨cut,planned,used,Or.inl ⟨a,after,aLow,?_⟩⟩⟩
          by_cases indirect : i < 4
          · rw [levelOf,if_neg (by omega),if_pos indirect]
            exact natReleasedOne.mpr ⟨edge,same⟩
          · rw [levelOf,if_neg (by omega),if_neg indirect]
            exact natReleasedTwo.mpr ⟨edge,Or.inl same⟩
        · obtain ⟨cut,planned,here⟩ := Option.bind_eq_some_iff.mp boundary
          exact ⟨i,low,natPlan.mpr ⟨cut,planned,used,Or.inr (Or.inl ⟨a,here,same⟩)⟩⟩
      · obtain ⟨used,edge,last⟩ := followSlots.mp path
        obtain ⟨next,same⟩ := followLastSlot.mp last
        obtain ⟨cut,planned,after⟩ := pastCut gone.1
        refine ⟨4,by omega,natPlan.mpr ⟨cut,planned,used,Or.inl ⟨a,after,aLow,?_⟩⟩⟩
        rw [levelOfDouble]
        exact natReleasedTwo.mpr ⟨edge,Or.inr ⟨b,gone.2,bLow,next,same⟩⟩
    · obtain ⟨cut,planned,here⟩ := Option.bind_eq_some_iff.mp boundary
      exact ⟨i,low,natPlan.mpr ⟨cut,planned,used,Or.inr (Or.inl ⟨a,here,edge.symm⟩)⟩⟩

end
end Xcpfs
