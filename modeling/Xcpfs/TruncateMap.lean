import Xcpfs.TruncateRun

/-! What the walk of `submit_data_xio` finds after a truncate. The blocks that
end up on the wrong side of the cut are listed by `TreePath.misplaced`. -/
namespace Xcpfs
open PointerForest

section
variable {nodes : NodeStore} {n x depth : Nat}

theorem belowFollow (below : Below nodes depth n x) :
    ∃ p : List Nat, p.length ≤ depth ∧ (∀ a ∈ p, a < 1018) ∧ follow (child nodes) n (p.map .slot) = some x := by
  induction depth generalizing n with
  | zero =>
    obtain rfl : x = n := below
    exact ⟨[],by simp,by simp,rfl⟩
  | succ depth ih =>
    rcases below with rfl | ⟨a,low,used,rest⟩
    · exact ⟨[],by simp,by simp,rfl⟩
    · obtain ⟨p,len,bound,path⟩ := ih rest
      refine ⟨a :: p,by simpa using len,by simpa using ⟨low,bound⟩,?_⟩
      have edge : child nodes n (.slot a) = some ((nodes n).slot a) := ptrSome.mpr ⟨rfl,used⟩
      simpa only [List.map_cons,follow,edge,Option.bind_some] using path

theorem separateUnique (depth n : Nat)
    (unique : ∀ (p q : List Nat) x, p.length ≤ depth → q.length ≤ depth → (∀ a ∈ p, a < 1018) → (∀ a ∈ q, a < 1018) →
      follow (child nodes) n (p.map .slot) = some x → follow (child nodes) n (q.map .slot) = some x → p = q) :
    Separate nodes depth n := by
  induction depth generalizing n with
  | zero => trivial
  | succ depth ih =>
    have edge : ∀ a, (nodes n).slot a ≠ 0 → child nodes n (.slot a) = some ((nodes n).slot a) :=
      fun a used => ptrSome.mpr ⟨rfl,used⟩
    have extend : ∀ a, (nodes n).slot a ≠ 0 → ∀ (p : List Nat) x,
        follow (child nodes) ((nodes n).slot a) (p.map .slot) = some x →
        follow (child nodes) n ((a :: p).map .slot) = some x := fun a used p x path => by
      simpa only [List.map_cons,follow,edge a used,Option.bind_some] using path
    refine ⟨fun a low used => ⟨ih _ fun p q x lenP lenQ boundP boundQ left right => ?_,fun loop => ?_⟩,?_⟩
    · have same := unique (a :: p) (a :: q) x (by simpa using lenP) (by simpa using lenQ)
        (by simpa using ⟨low,boundP⟩) (by simpa using ⟨low,boundQ⟩) (extend a used p x left) (extend a used q x right)
      exact (List.cons.inj same).2
    · obtain ⟨p,len,bound,path⟩ := belowFollow loop
      have same := unique (a :: p) [] n (by simpa using len) (by simp) (by simpa using ⟨low,bound⟩) (by simp)
        (extend a used p n path) rfl
      contradiction
    · intro a b x lowA lowB usedA usedB left right
      obtain ⟨p,lenP,boundP,pathP⟩ := belowFollow left
      obtain ⟨q,lenQ,boundQ,pathQ⟩ := belowFollow right
      have same := unique (a :: p) (b :: q) x (by simpa using lenP) (by simpa using lenQ)
        (by simpa using ⟨lowA,boundP⟩) (by simpa using ⟨lowB,boundQ⟩) (extend a usedA p x pathP) (extend b usedB q x pathQ)
      exact (List.cons.inj same).1

theorem slotPlace (i : Nat) (low : i < 5) (p : List Nat) (len : p.length ≤ levelOf i) (bound : ∀ a ∈ p, a < 1018) :
    NodePlace (.nid i :: p.map .slot) := by
  unfold levelOf at len
  match p with
  | [] => exact low
  | [a] =>
    have level : ¬ i < 2 := fun direct => by simp [direct] at len
    exact ⟨by omega,low,bound a (by simp)⟩
  | [a,b] =>
    have level : ¬ i < 4 := fun shallow => by split at len <;> simp at len
    exact ⟨by omega,bound a (by simp),bound b (by simp)⟩
  | _ :: _ :: _ :: _ => split at len <;> [simp at len; (split at len <;> simp at len)]

theorem inodeTree {roots : Set Nat} {ino : Nat} (owned : Owned nodeShape roots (child nodes)) (root : ino ∈ roots) :
    InodeTree nodes ino := by
  have edge : ∀ i, (nodes ino).iNid i ≠ 0 → child nodes ino (.nid i) = some ((nodes ino).iNid i) :=
    fun i used => ptrSome.mpr ⟨rfl,used⟩
  have extend : ∀ i, (nodes ino).iNid i ≠ 0 → ∀ (p : List Nat) x,
      follow (child nodes) ((nodes ino).iNid i) (p.map .slot) = some x →
      follow (child nodes) ino (.nid i :: p.map .slot) = some x := fun i used p x path => by
    simpa only [follow,edge i used,Option.bind_some] using path
  have unique : ∀ i < 5, ∀ j < 5, ∀ (p q : List Nat) x, (nodes ino).iNid i ≠ 0 → (nodes ino).iNid j ≠ 0 →
      p.length ≤ levelOf i → q.length ≤ levelOf j → (∀ a ∈ p, a < 1018) → (∀ a ∈ q, a < 1018) →
      follow (child nodes) ((nodes ino).iNid i) (p.map .slot) = some x →
      follow (child nodes) ((nodes ino).iNid j) (q.map .slot) = some x →
      (Edge.nid i :: p.map .slot) = (Edge.nid j :: q.map .slot) := by
    intro i lowI j lowJ p q x usedI usedJ lenP lenQ boundP boundQ left right
    exact (owned ino root ino root _ _ x (slotPlace i lowI p lenP boundP) (slotPlace j lowJ q lenQ boundQ)
      (extend i usedI p x left) (extend j usedJ q x right)).2
  refine ⟨fun i low used => separateUnique _ _ fun p q x lenP lenQ boundP boundQ left right => ?_,?_,?_⟩
  · have same := unique i low i low p q x used used lenP lenQ boundP boundQ left right
    exact List.map_injective_iff.mpr (fun _ _ h => Edge.slot.inj h) (List.cons.inj same).2
  · intro i low used loop
    obtain ⟨p,len,bound,path⟩ := belowFollow loop
    have same := (owned ino root ino root [] _ ino nodeShape.root (slotPlace i low p len bound) rfl
      (extend i used p ino path)).2
    contradiction
  · intro i lowI j lowJ x usedI usedJ left right
    obtain ⟨p,lenP,boundP,pathP⟩ := belowFollow left
    obtain ⟨q,lenQ,boundQ,pathQ⟩ := belowFollow right
    have same := unique i lowI j lowJ p q x usedI usedJ lenP lenQ boundP boundQ pathP pathQ
    exact Edge.nid.inj (List.cons.inj same).1

end

section
variable {nodes : NodeStore} {ino start : Nat} {plan : Nat → Option TopCut} {t t' : Trunc}

theorem blockAtInode (slot : Fin 900) : blockAt nodes ino (.inode slot) = (nodes ino).iAddr slot := rfl

theorem childUsed {n : Nat} {e : Edge} {word : Nat} (read : ptr word = child nodes n e) (used : word ≠ 0)
    (rest : List Edge) : follow (child nodes) n (e :: rest) = follow (child nodes) word rest := by
  simp only [follow,← read,ptr,used,if_false,Option.bind_some]

theorem childUnused {n : Nat} {e : Edge} {word : Nat} (read : ptr word = child nodes n e) (unused : word = 0)
    (rest : List Edge) : follow (child nodes) n (e :: rest) = none := by
  simp only [follow,← read,ptr,unused,if_true,Option.bind_none]

theorem blockAtDirect (top : Fin 2) (slot : Fin 1018) :
    blockAt nodes ino (.direct top slot) =
      if (nodes ino).iNid top = 0 then 0 else (nodes ((nodes ino).iNid top)).slot slot := by
  split
  · rename_i unused
    exact blockAtMissing (childUnused rfl unused _)
  · rename_i used
    exact blockAtFound (childUsed rfl used _)

/- The walk below a pointer node, one level at a time. -/
def slotAt (nodes : NodeStore) (n a b : Nat) : Nat :=
  if (nodes n).slot a = 0 then 0 else (nodes ((nodes n).slot a)).slot b

theorem blockAtIndirect (top : Fin 2) (mid slot : Fin 1018) :
    blockAt nodes ino (.indirect top mid slot) =
      if (nodes ino).iNid (2 + top) = 0 then 0 else slotAt nodes ((nodes ino).iNid (2 + top)) mid slot := by
  split
  · rename_i unused
    exact blockAtMissing (childUnused rfl unused _)
  · rename_i used
    have down : follow (child nodes) ino [.nid (2 + top),.slot mid] = follow (child nodes) _ [.slot mid] :=
      childUsed rfl used _
    unfold slotAt
    split
    · rename_i unused
      exact blockAtMissing (down.trans (childUnused rfl unused _))
    · rename_i next
      exact blockAtFound (down.trans (childUsed rfl next _))

theorem blockAtDouble (top mid slot : Fin 1018) :
    blockAt nodes ino (.double top mid slot) =
      if (nodes ino).iNid 4 = 0 then 0 else if (nodes ((nodes ino).iNid 4)).slot top = 0 then 0
      else slotAt nodes ((nodes ((nodes ino).iNid 4)).slot top) mid slot := by
  split
  · rename_i unused
    exact blockAtMissing (childUnused rfl unused _)
  · rename_i used
    have down : follow (child nodes) ino [.nid 4,.slot top,.slot mid] = follow (child nodes) _ [.slot top,.slot mid] :=
      childUsed rfl used _
    split
    · rename_i unused
      exact blockAtMissing (down.trans (childUnused rfl unused _))
    · rename_i second
      have deeper := down.trans (childUsed rfl second [.slot mid])
      unfold slotAt
      split
      · rename_i unused
        exact blockAtMissing (deeper.trans (childUnused rfl unused _))
      · rename_i next
        exact blockAtFound (deeper.trans (childUsed rfl next _))

/- Whether the slot `a` below a cut subtree can still be walked to. -/
def keeps : Option TopCut → Nat → Prop
  | none,_ => True
  | some cut,a => cut.dropped = false ∧ a < cut.start

def survives (start : Nat) (plan : Nat → Option TopCut) : TreePath → Prop
  | .inode slot => (slot : Nat) < start
  | .direct top slot => keeps (plan top) slot
  | .indirect top mid _ => keeps (plan (2 + top)) mid
  | .double top _ _ => keeps (plan 4) top

theorem untouchedPages (tree : InodeTree t.nodes ino) (done : Truncated start plan ino t t' 5) {i x : Nat}
    (low : i < 5) (used : (t.nodes ino).iNid i ≠ 0)
    (apart : ∀ cut, plan i = some cut → x ≠ (t.nodes ino).iNid i ∧
      ¬ Under t.nodes (levelOf i) ((t.nodes ino).iNid i) cut.start 1018 x)
    (below : Below t.nodes (levelOf i) ((t.nodes ino).iNid i) x) : t'.nodes x = t.nodes x := by
  refine done.frame x ?_ ?_
  · rintro rfl
    exact tree.root i low used below
  · intro j lowJ cut planned usedJ
    by_cases same : j = i
    · subst same
      exact apart cut planned
    · have outside : ¬ Below t.nodes (levelOf j) ((t.nodes ino).iNid j) x := fun other =>
        same (tree.apart j lowJ i low x usedJ used other below)
      refine ⟨?_,fun under => outside (underBelow (Nat.le_refl _) under)⟩
      rintro rfl
      exact outside (belowSelf ..)

theorem keptPages (tree : InodeTree t.nodes ino) (done : Truncated start plan ino t t' 5) {i a x depth : Nat}
    (low : i < 5) (used : (t.nodes ino).iNid i ≠ 0) (level : levelOf i = depth + 1) (bound : a < 1018)
    (kept : keeps (plan i) a) (edge : (t.nodes ((t.nodes ino).iNid i)).slot a ≠ 0)
    (below : Below t.nodes depth ((t.nodes ((t.nodes ino).iNid i)).slot a) x) : t'.nodes x = t.nodes x := by
  have separate := tree.separate i low used
  rw [level] at separate
  refine untouchedPages tree done low used (fun cut planned => ⟨?_,?_⟩)
    (by rw [level]; exact Or.inr ⟨a,bound,edge,below⟩)
  · rintro rfl
    exact (separate.1 a bound edge).2 below
  · rw [level]
    rintro ⟨b,after,high,usedB,other⟩
    have same := separate.2 a b x bound high edge usedB below other
    rw [planned] at kept
    have := kept.2
    omega

theorem topSurvives (done : Truncated start plan ino t t' 5) {i a : Nat} (kept : keeps (plan i) a) :
    (t'.nodes ino).iNid i = (t.nodes ino).iNid i := by
  refine done.kept i fun _ cut planned => ?_
  rw [planned] at kept
  exact kept.1

theorem slotSurvives (tree : InodeTree t.nodes ino) (done : Truncated start plan ino t t' 5) {i a : Nat}
    (low : i < 5) (used : (t.nodes ino).iNid i ≠ 0) (bound : a < 1018) (kept : keeps (plan i) a) :
    (t'.nodes ((t.nodes ino).iNid i)).slot a = (t.nodes ((t.nodes ino).iNid i)).slot a := by
  cases planned : plan i with
  | none =>
    rw [untouchedPages tree done low used (fun cut other => by simp [planned] at other) (belowSelf ..)]
  | some cut =>
    rw [planned] at kept
    rw [done.slot i low cut planned used a bound,if_neg (Nat.not_le.mpr kept.2)]

theorem topDropped (done : Truncated start plan ino t t' 5) {i a : Nat}
    (low : i < 5) (used : (t.nodes ino).iNid i ≠ 0) (bound : a < 1018) (lost : ¬ keeps (plan i) a) :
    (t'.nodes ino).iNid i = 0 ∨ ((t'.nodes ino).iNid i = (t.nodes ino).iNid i ∧
      (t'.nodes ((t.nodes ino).iNid i)).slot a = 0) := by
  cases planned : plan i with
  | none => rw [planned] at lost; exact absurd trivial lost
  | some cut =>
    cases drop : cut.dropped with
    | true => exact Or.inl (done.dropped i low cut planned drop)
    | false =>
      rw [planned] at lost
      have past : cut.start ≤ a := Nat.not_lt.mp fun early => lost ⟨drop,early⟩
      refine Or.inr ⟨done.kept i fun _ other plannedI => ?_,?_⟩
      · rw [planned] at plannedI
        cases plannedI
        exact drop
      · rw [done.slot i low cut planned used a bound,if_pos past]

theorem fewerAbsent (done : Truncated start plan ino t t' 5) {i : Nat} (absent : (t.nodes ino).iNid i = 0) :
    (t'.nodes ino).iNid i = 0 := by
  rcases done.fewer.iNid ino i with same | zero
  · rw [same,absent]
  · exact zero

theorem blockSurvives (tree : InodeTree t.nodes ino) (done : Truncated start plan ino t t' 5) (p : TreePath)
    (kept : survives start plan p) : blockAt t'.nodes ino p = blockAt t.nodes ino p := by
  cases p with
  | inode slot =>
    rw [blockAtInode,blockAtInode,done.iAddr,if_neg]
    intro cleared
    exact Nat.not_le.mpr kept cleared.1
  | direct top slot =>
    rw [blockAtDirect,blockAtDirect,topSurvives done kept]
    split
    · rfl
    · rename_i used
      exact slotSurvives tree done (by omega) used slot.isLt kept
  | indirect top mid slot =>
    rw [blockAtIndirect,blockAtIndirect,topSurvives done kept]
    split
    · rfl
    · rename_i used
      unfold slotAt
      rw [slotSurvives tree done (by omega) used mid.isLt kept]
      split
      · rfl
      · rename_i edge
        have level : levelOf (2 + top) = 0 + 1 := by
          unfold levelOf
          rw [if_neg (by omega),if_pos (by omega)]
        rw [keptPages tree done (by omega) used level mid.isLt kept edge rfl]
  | double top mid slot =>
    rw [blockAtDouble,blockAtDouble,topSurvives done kept]
    split
    · rfl
    · rename_i used
      rw [slotSurvives tree done (by omega) used top.isLt kept]
      split
      · rfl
      · rename_i edge
        have page : ∀ x, Below t.nodes 1 ((t.nodes ((t.nodes ino).iNid 4)).slot top) x → t'.nodes x = t.nodes x :=
          fun x => keptPages tree done (by omega) used rfl top.isLt kept edge
        unfold slotAt
        rw [page _ (belowSelf ..)]
        split
        · rfl
        · rename_i next
          rw [page _ (Or.inr ⟨mid,mid.isLt,next,rfl⟩)]

theorem blockLost (done : Truncated start plan ino t t' 5) (p : TreePath) (lost : ¬ survives start plan p) : blockAt t'.nodes ino p = 0 := by
  cases p with
  | inode slot =>
    rw [blockAtInode,done.iAddr,if_pos]
    exact ⟨Nat.not_lt.mp lost,slot.isLt⟩
  | direct top slot =>
    rw [blockAtDirect]
    by_cases used : (t.nodes ino).iNid top = 0
    · rw [if_pos (fewerAbsent done used)]
    · rcases topDropped done (by omega) used slot.isLt lost with zero | ⟨same,zero⟩
      · rw [if_pos zero]
      · rw [same,if_neg used,zero]
  | indirect top mid slot =>
    rw [blockAtIndirect]
    by_cases used : (t.nodes ino).iNid (2 + top) = 0
    · rw [if_pos (fewerAbsent done used)]
    · rcases topDropped done (by omega) used mid.isLt lost with zero | ⟨same,zero⟩
      · rw [if_pos zero]
      · rw [same,if_neg used,slotAt,zero,if_pos rfl]
  | double top mid slot =>
    rw [blockAtDouble]
    by_cases used : (t.nodes ino).iNid 4 = 0
    · rw [if_pos (fewerAbsent done used)]
    · rcases topDropped done (by omega) used top.isLt lost with zero | ⟨same,zero⟩
      · rw [if_pos zero]
      · rw [same,if_neg used,zero,if_pos rfl]

theorem walkNid {n i : Nat} {rest : List Edge} : follow (child nodes) n (.nid i :: rest) =
    if (nodes n).iNid i = 0 then none else follow (child nodes) ((nodes n).iNid i) rest := by
  split
  · rename_i unused
    exact childUnused rfl unused _
  · rename_i used
    exact childUsed rfl used _

theorem walkSlot {n i : Nat} {rest : List Edge} : follow (child nodes) n (.slot i :: rest) =
    if (nodes n).slot i = 0 then none else follow (child nodes) ((nodes n).slot i) rest := by
  split
  · rename_i unused
    exact childUnused rfl unused _
  · rename_i used
    exact childUsed rfl used _

theorem dnodeSurvives (tree : InodeTree t.nodes ino) (done : Truncated start plan ino t t' 5) (p : TreePath)
    (kept : survives start plan p) : follow (child t'.nodes) ino p.nodes = follow (child t.nodes) ino p.nodes := by
  cases p with
  | inode slot => rfl
  | direct top slot =>
    simp only [TreePath.nodes]
    rw [walkNid,walkNid,topSurvives done kept]
    rfl
  | indirect top mid slot =>
    simp only [TreePath.nodes]
    rw [walkNid,walkNid,topSurvives done kept]
    split
    · rfl
    · rename_i used
      rw [walkSlot,walkSlot,slotSurvives tree done (by omega) used mid.isLt kept]
      rfl
  | double top mid slot =>
    simp only [TreePath.nodes]
    rw [walkNid,walkNid,topSurvives done kept]
    split
    · rfl
    · rename_i used
      rw [@walkSlot t'.nodes,@walkSlot t.nodes,slotSurvives tree done (by omega) used top.isLt kept]
      split
      · rfl
      · rename_i edge
        rw [walkSlot,walkSlot,keptPages tree done (by omega) used rfl top.isLt kept edge (belowSelf ..)]
        rfl

end

/- The code takes a node of pointers for emptied by looking at the next cell of
the path, which is the boundary slot itself unless that has been decremented. -/
def emptied (slot below : Nat) : Bool := if below = 0 then slot = 1 else slot = 0

def directLeft (present : Bool) (slot : Nat) : Nat :=
  if present then if slot = 0 then 900 else if slot = 2 then 0 else slot - 1
  else if slot = 1 then 0 else slot

def secondSlot (present : Bool) (slot below : Nat) : Nat := if present ∧ below = 0 then slot - 1 else slot

/-- Places that a truncate at the first path treats wrongly: blocks before the
cut that it loses and blocks after the cut that it leaves. -/
def TreePath.misplaced (present : Nat → Bool) : (cut p : TreePath) → Prop
  | direct top slot,direct top' slot' =>
    (top' = top ∧ (slot : Nat) = 1 ∧ (slot' : Nat) = 0) ∨
    ((top : Nat) = 0 ∧ (top' : Nat) = 1 ∧ (slot' : Nat) < directLeft (present 0) slot)
  | indirect top mid slot,indirect top' mid' slot' =>
    (top' = top ∧ if emptied mid slot then mid' < mid ∨ mid' = mid ∧ slot' < slot else mid' = mid ∧ slot ≤ slot') ∨
    ((top : Nat) = 0 ∧ (top' : Nat) = 1 ∧ (mid' : Nat) ≤ secondSlot (present 2) mid slot ∧
      ¬ emptied (secondSlot (present 2) mid slot) slot)
  | double top mid slot,double top' mid' slot' =>
    if emptied top mid then top' < top ∨ top' = top ∧ (mid' < mid ∨ mid' = mid ∧ slot' < slot)
    else top' = top ∧ (mid < mid' ∨ mid' = mid ∧ slot ≤ slot')
  | _,_ => False

theorem keepsWhole (i a : Nat) : ¬ keeps (some (TopCut.whole i)) a := fun kept => by
  have := kept.1; contradiction

theorem keepsWithin (slot below a : Nat) :
    keeps (some (TopCut.within slot below)) a ↔ emptied slot below = false ∧ a ≤ slot := by
  unfold TopCut.within emptied
  split <;> simp [keeps]

theorem keepsDirect (slot a : Nat) : keeps (some (directCut slot)) a ↔ slot ≠ 1 ∧ a < slot := by
  simp [keeps,directCut]

theorem keepsSecondDirect (present : Bool) (slot a : Nat) :
    keeps (some (secondDirectCut present slot)) a ↔ a < directLeft present slot := by
  unfold secondDirectCut directLeft directCut
  repeat' split
  all_goals simp_all [keeps]

theorem keepsSecondIndirect (present : Bool) (slot below a : Nat) :
    keeps (some (secondIndirectCut present slot below)) a ↔
      emptied (secondSlot present slot below) below = false ∧ a ≤ secondSlot present slot below := by
  unfold secondIndirectCut secondSlot
  split <;> exact keepsWithin ..

theorem survivesMisplaced (present : Nat → Bool) (cut p : TreePath) :
    cut.misplaced present p ↔ ¬ (survives cut.addrStart (cut.topCut present) p ↔ p.index < cut.index) := by
  cases cut with
  | inode slot =>
    cases p <;> simp only [TreePath.misplaced,survives,TreePath.topCut,TreePath.addrStart,TreePath.index,keepsWhole,
      false_iff,not_not,not_true] <;> omega
  | direct top slot =>
    cases p with
    | inode => simp only [TreePath.misplaced,survives,TreePath.addrStart,TreePath.index,false_iff,not_not]; omega
    | direct top' slot' =>
      simp only [TreePath.misplaced,survives,TreePath.topCut,TreePath.index,Fin.ext_iff]
      split
      · simp only [keeps,true_iff]; omega
      · split
        · rw [keepsDirect]; omega
        · rw [if_pos (by omega),keepsSecondDirect]; omega
    | indirect top' mid' slot' =>
      simp only [TreePath.misplaced,survives,TreePath.topCut,TreePath.index]
      rw [if_neg (by omega),if_neg (by omega),if_neg (by omega)]
      simp only [keepsWhole,false_iff,not_not]; omega
    | double top' mid' slot' =>
      simp only [TreePath.misplaced,survives,TreePath.topCut,TreePath.index]
      rw [if_neg (by omega),if_neg (by omega),if_neg (by omega)]
      simp only [keepsWhole,false_iff,not_not]; omega
  | indirect top mid slot =>
    cases p with
    | inode => simp only [TreePath.misplaced,survives,TreePath.addrStart,TreePath.index,false_iff,not_not]; omega
    | direct top' slot' =>
      simp only [TreePath.misplaced,survives,TreePath.topCut,TreePath.index,false_iff,not_not]
      rw [if_pos (by omega)]
      simp only [keeps,true_iff]; omega
    | indirect top' mid' slot' =>
      simp only [TreePath.misplaced,survives,TreePath.topCut,TreePath.index,Fin.ext_iff]
      rcases Nat.lt_trichotomy top' top with before | same | after
      · rw [if_pos (by omega : 2 + (top' : Nat) < 2 + top)]
        cases emptied mid slot <;> simp [keeps] <;> omega
      · rw [if_neg (by omega : ¬ 2 + (top' : Nat) < 2 + top),if_pos (by omega : 2 + (top' : Nat) = 2 + top),keepsWithin]
        cases emptied mid slot <;> simp <;> omega
      · rw [if_neg (by omega : ¬ 2 + (top' : Nat) < 2 + top),if_neg (by omega : ¬ 2 + (top' : Nat) = 2 + top),
          if_pos (by omega : 2 + (top' : Nat) = 3),keepsSecondIndirect]
        generalize secondSlot (present 2) mid slot = second
        cases emptied second slot <;> cases emptied mid slot <;> simp <;> omega
    | double top' mid' slot' =>
      simp only [TreePath.misplaced,survives,TreePath.topCut,TreePath.index]
      rw [if_neg (by omega),if_neg (by omega),if_neg (by omega)]
      simp only [keepsWhole,false_iff,not_not]; omega
  | double top mid slot =>
    cases p with
    | inode => simp only [TreePath.misplaced,survives,TreePath.addrStart,TreePath.index,false_iff,not_not]; omega
    | direct top' slot' =>
      simp only [TreePath.misplaced,survives,TreePath.topCut,TreePath.index,false_iff,not_not]
      rw [if_pos (by omega)]
      simp only [keeps,true_iff]; omega
    | indirect top' mid' slot' =>
      simp only [TreePath.misplaced,survives,TreePath.topCut,TreePath.index,false_iff,not_not]
      rw [if_pos (by omega)]
      simp only [keeps,true_iff]; omega
    | double top' mid' slot' =>
      simp only [TreePath.misplaced,survives,TreePath.topCut,TreePath.index,Fin.ext_iff]
      rw [if_neg (Nat.lt_irrefl 4),keepsWithin]
      cases emptied top mid <;> simp <;> omega

/-- The walk after a truncate finds the old address of every block before the cut
and none after it, exactly when the run does not overrun the offset array and no
block is stored at a misplaced index. -/
theorem truncateWalk {nodes : NodeStore} {ino freeFrom : Nat} (range : freeFrom < maxBlocks)
    (tree : Owned nodeShape {ino} (child nodes)) :
    (∃ t, xcpfsTruncateBlocks ino freeFrom ⟨nodes,[]⟩ = some t ∧ ∀ iblock < maxBlocks,
      oldBlkaddr t.nodes ino iblock = if iblock < freeFrom then oldBlkaddr nodes ino iblock else 0) ↔
    ¬ (TreePath.ofIndex freeFrom range).overruns (presentIn nodes ino) ∧
      ∀ iblock, (bound : iblock < maxBlocks) →
        (TreePath.ofIndex freeFrom range).misplaced (presentIn nodes ino) (TreePath.ofIndex iblock bound) →
        oldBlkaddr nodes ino iblock = 0 := by
  have inode := inodeTree tree rfl
  have cutAt := TreePath.indexOfIndex freeFrom range
  generalize TreePath.ofIndex freeFrom range = cut at cutAt ⊢
  subst cutAt
  by_cases outside : cut.overruns (presentIn nodes ino)
  · have stopped := truncateOverruns ⟨nodes,[]⟩ inode cut outside
    simp [stopped,outside]
  · obtain ⟨t',ran,done⟩ := truncateBlocks ⟨nodes,[]⟩ inode cut outside
    have found : ∀ p : TreePath, oldBlkaddr t'.nodes ino p.index = (if p.index < cut.index then oldBlkaddr nodes ino p.index else 0) ↔
        (cut.misplaced (presentIn nodes ino) p → oldBlkaddr nodes ino p.index = 0) := by
      intro p
      rw [oldBlkaddrAt,oldBlkaddrAt,survivesMisplaced]
      by_cases kept : survives cut.addrStart (cut.topCut (presentIn nodes ino)) p
      · rw [blockSurvives inode done p kept]
        by_cases early : p.index < cut.index <;> simp [kept,early]
      · rw [blockLost done p kept]
        by_cases early : p.index < cut.index <;> simp [kept,early,eq_comm]
    constructor
    · rintro ⟨t,again,walk⟩
      obtain rfl : t' = t := Option.some.inj (ran.symm.trans again)
      refine ⟨outside,fun iblock bound wrong => ?_⟩
      have here := (found (TreePath.ofIndex iblock bound)).mp
      rw [TreePath.indexOfIndex] at here
      exact here (walk iblock bound) wrong
    · rintro ⟨_,clean⟩
      refine ⟨t',ran,fun iblock bound => ?_⟩
      have here := (found (TreePath.ofIndex iblock bound)).mpr
      rw [TreePath.indexOfIndex] at here
      exact here (clean iblock bound)

/- An inode 2730454 whose only node is the direct node 2730453. -/
def oneDirect (slot : Nat → Nat) : NodeStore := fun x =>
  if x = 2730454 then { NodePage.zero with iNid := fun i => if i = 0 then 2730453 else 0 }
  else if x = 2730453 then { NodePage.zero with slot := slot } else NodePage.zero

theorem oneDirectPaths (slot : Nat → Nat) (p : List Edge) (n : Nat) (place : NodePlace p)
    (path : follow (child (oneDirect slot)) 2730454 p = some n) : p = [] ∧ n = 2730454 ∨ p = [.nid 0] ∧ n = 2730453 := by
  match p with
  | [] => exact Or.inl ⟨rfl,(Option.some.inj path).symm⟩
  | .slot a :: rest => cases rest <;> exact place.elim
  | .nid i :: rest =>
    obtain ⟨m,edge,deeper⟩ := Option.bind_eq_some_iff.mp path
    obtain ⟨word,used⟩ := ptrSome.mp edge
    have first : i = 0 := by
      by_contra other
      simp [oneDirect,other] at word
      exact used word.symm
    subst first
    match rest with
    | [] =>
      obtain rfl : m = n := Option.some.inj deeper
      exact Or.inr ⟨rfl,word.symm⟩
    | .slot a :: [] => exact absurd place.1 (by omega)
    | .slot a :: .slot b :: [] => exact absurd place.1 (by omega)

theorem oneDirectOwned (slot : Nat → Nat) : Owned nodeShape {2730454} (child (oneDirect slot)) := by
  intro r root s root' p q n placeP placeQ left right
  obtain rfl : r = 2730454 := root
  obtain rfl : s = 2730454 := root'
  rcases oneDirectPaths slot p n placeP left with ⟨rfl,rfl⟩ | ⟨rfl,rfl⟩
  · rcases oneDirectPaths slot q 2730454 placeQ right with ⟨rfl,_⟩ | ⟨_,bad⟩
    · exact ⟨rfl,rfl⟩
    · contradiction
  · rcases oneDirectPaths slot q 2730453 placeQ right with ⟨_,bad⟩ | ⟨rfl,_⟩
    · contradiction
    · exact ⟨rfl,rfl⟩

theorem ofIndexDirect (top : Fin 2) (slot : Fin 1018) (n : Nat) (same : n = 900 + top * 1018 + slot)
    (range : n < maxBlocks) : TreePath.ofIndex n range = .direct top slot :=
  TreePath.ofIndexIndex (.direct top slot) n same range

/-- Truncating to 902 blocks a file with five of them behind its direct node. -/
theorem truncateWalkTwoLeft : ∃ t, xcpfsTruncateBlocks 2730454 902 ⟨oneDirect fun a => if a < 5 then 100 + a else 0,[]⟩ = some t ∧
    ∀ iblock < maxBlocks, oldBlkaddr t.nodes 2730454 iblock =
      if iblock < 902 then oldBlkaddr (oneDirect fun a => if a < 5 then 100 + a else 0) 2730454 iblock else 0 := by
  have range : 902 < maxBlocks := by decide
  refine (truncateWalk range (oneDirectOwned _)).mpr ?_
  rw [ofIndexDirect 0 2 902 rfl range]
  refine ⟨id,fun iblock bound wrong => ?_⟩
  have index := TreePath.indexOfIndex iblock bound
  generalize TreePath.ofIndex iblock bound = p at index wrong
  subst index
  rw [oldBlkaddrAt]
  cases p with
  | inode slot => exact wrong.elim
  | indirect top mid slot => exact wrong.elim
  | double top mid slot => exact wrong.elim
  | direct top slot =>
    rcases wrong with ⟨_,bad,_⟩ | ⟨_,second,_⟩
    · contradiction
    · rw [blockAtDirect,second]
      rfl

/-- Truncating to 901 blocks drops the direct node with the last block kept. -/
theorem truncateLosesBlock : ¬ ∃ t, xcpfsTruncateBlocks 2730454 901 ⟨oneDirect fun a => if a = 0 then 77 else 0,[]⟩ = some t ∧
    ∀ iblock < maxBlocks, oldBlkaddr t.nodes 2730454 iblock =
      if iblock < 901 then oldBlkaddr (oneDirect fun a => if a = 0 then 77 else 0) 2730454 iblock else 0 := by
  rintro ⟨t,ran,walk⟩
  have inode := inodeTree (oneDirectOwned fun a => if a = 0 then 77 else 0) rfl
  obtain ⟨t',again,done⟩ := truncateBlocks ⟨oneDirect fun a => if a = 0 then 77 else 0,[]⟩ inode (.direct 0 1) id
  obtain rfl : t' = t := Option.some.inj (again.symm.trans ran)
  have before := walk 900 (by decide)
  rw [if_pos (by decide)] at before
  have lost : oldBlkaddr t'.nodes 2730454 900 = 0 := by
    have gone := blockLost done (.direct 0 0) (fun kept => by simp [survives,keeps,TreePath.topCut,directCut] at kept)
    rwa [← oldBlkaddrAt] at gone
  have stored : oldBlkaddr (oneDirect fun a => if a = 0 then 77 else 0) 2730454 900 = 77 :=
    (oldBlkaddrAt _ 2730454 (.direct 0 0)).trans (by rw [blockAtDirect]; rfl)
  omega

end Xcpfs
