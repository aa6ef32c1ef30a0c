import Xcpfs.Truncate

/-! What one call of `xcpfs_recurse` does to the subtree below a node: the slots
from its start on are cleared, the recorded calls are those of the subtrees
dropped with them, and no page outside is written. -/
namespace Xcpfs
open PointerForest CountedLoop

def Below (nodes : NodeStore) : (depth n x : Nat) → Prop
  | 0,n,x => x = n
  | depth + 1,n,x => x = n ∨
    ∃ a, a < 1018 ∧ (nodes n).slot a ≠ 0 ∧ Below nodes depth ((nodes n).slot a) x

/- Nodes hanging strictly below the slots from `start` to `stop`. -/
def Under (nodes : NodeStore) (depth n start stop x : Nat) : Prop :=
  match depth with
  | 0 => False
  | depth + 1 => ∃ a, start ≤ a ∧ a < stop ∧ (nodes n).slot a ≠ 0 ∧ Below nodes depth ((nodes n).slot a) x

def Separate (nodes : NodeStore) : (depth n : Nat) → Prop
  | 0,_ => True
  | depth + 1,n =>
    (∀ a, a < 1018 → (nodes n).slot a ≠ 0 →
      Separate nodes depth ((nodes n).slot a) ∧ ¬ Below nodes depth ((nodes n).slot a) n) ∧
    ∀ a b x, a < 1018 → b < 1018 → (nodes n).slot a ≠ 0 → (nodes n).slot b ≠ 0 →
      Below nodes depth ((nodes n).slot a) x → Below nodes depth ((nodes n).slot b) x → a = b

/- A subtree dropped as a whole is entered without an offset, and then a node of
pointers keeps its first one. -/
def firstCleared (depth : Nat) : Nat := if depth = 0 then 0 else 1

def releasedAt (nodes : NodeStore) : (depth n a : Nat) → List Call
  | 0,n,a => if (nodes n).slot a = 0 then [] else [.blkaddr ((nodes n).slot a)]
  | depth + 1,n,a => if (nodes n).slot a = 0 then [] else
    (List.range' (firstCleared depth) (1018 - firstCleared depth)).flatMap
      (releasedAt nodes depth ((nodes n).slot a)) ++ [.nat ((nodes n).slot a)]

def released (nodes : NodeStore) (depth n start stop : Nat) : List Call :=
  (List.range' start (stop - start)).flatMap (releasedAt nodes depth n)

def NodePage.clearFrom (p : NodePage) (start stop : Nat) : NodePage :=
  { p with slot := fun a => if start ≤ a ∧ a < stop then 0 else p.slot a }

structure Fewer (nodes next : NodeStore) : Prop where
  iAddr : ∀ x i, (next x).iAddr i = (nodes x).iAddr i ∨ (next x).iAddr i = 0
  iNid : ∀ x i, (next x).iNid i = (nodes x).iNid i ∨ (next x).iNid i = 0
  slot : ∀ x a, (next x).slot a = (nodes x).slot a ∨ (next x).slot a = 0

structure Cleared (depth n start stop : Nat) (t t' : Trunc) : Prop where
  calls : t'.calls = t.calls ++ released t.nodes depth n start stop
  page : t'.nodes n = (t.nodes n).clearFrom start stop
  frame : ∀ x, x ≠ n → ¬ Under t.nodes depth n start stop x → t'.nodes x = t.nodes x
  fewer : Fewer t.nodes t'.nodes

section
variable {nodes next last : NodeStore} {depth n start stop x : Nat} {t t' : Trunc}

theorem fewerRefl : Fewer nodes nodes :=
  ⟨fun _ _ => Or.inl rfl,fun _ _ => Or.inl rfl,fun _ _ => Or.inl rfl⟩

theorem fewerTrans (first : Fewer nodes next) (second : Fewer next last) : Fewer nodes last := by
  refine ⟨fun x i => ?_,fun x i => ?_,fun x i => ?_⟩
  · have a := first.iAddr x i
    have b := second.iAddr x i
    omega
  · have a := first.iNid x i
    have b := second.iNid x i
    omega
  · have a := first.slot x i
    have b := second.slot x i
    omega

theorem fewerWrite {page : NodePage} (n : Nat)
    (iAddr : ∀ i, page.iAddr i = (nodes n).iAddr i ∨ page.iAddr i = 0)
    (iNid : ∀ i, page.iNid i = (nodes n).iNid i ∨ page.iNid i = 0)
    (slot : ∀ a, page.slot a = (nodes n).slot a ∨ page.slot a = 0) :
    Fewer nodes (Function.update nodes n page) := by
  refine ⟨fun x i => ?_,fun x i => ?_,fun x i => ?_⟩ <;> by_cases here : x = n
  · subst here; simpa only [Function.update_self] using iAddr i
  · exact Or.inl (by rw [Function.update_of_ne here])
  · subst here; simpa only [Function.update_self] using iNid i
  · exact Or.inl (by rw [Function.update_of_ne here])
  · subst here; simpa only [Function.update_self] using slot i
  · exact Or.inl (by rw [Function.update_of_ne here])

theorem fewerSetSlot (n i : Nat) : Fewer nodes (Function.update nodes n ((nodes n).setSlot i 0)) := by
  refine fewerWrite n (fun _ => Or.inl rfl) (fun _ => Or.inl rfl) (fun a => ?_)
  by_cases here : a = i
  · subst here; exact Or.inr (Function.update_self ..)
  · exact Or.inl (Function.update_of_ne here ..)

theorem belowSelf (nodes : NodeStore) (depth n : Nat) : Below nodes depth n n := by
  cases depth with
  | zero => rfl
  | succ depth => exact Or.inl rfl

theorem belowCongr (agree : ∀ x, Below nodes depth n x → next x = nodes x) :
    Below next depth n x ↔ Below nodes depth n x := by
  induction depth generalizing n with
  | zero => rfl
  | succ depth ih =>
    have here : next n = nodes n := agree n (belowSelf ..)
    simp only [Below,here]
    refine or_congr Iff.rfl (exists_congr fun a => and_congr_right fun low => and_congr_right fun used => ?_)
    exact ih fun y below => agree y (Or.inr ⟨a,low,used,below⟩)

theorem separateCongr (agree : ∀ x, Below nodes depth n x → next x = nodes x)
    (separate : Separate nodes depth n) : Separate next depth n := by
  induction depth generalizing n with
  | zero => trivial
  | succ depth ih =>
    have here : next n = nodes n := agree n (belowSelf ..)
    have inside : ∀ a, a < 1018 → (nodes n).slot a ≠ 0 →
        ∀ y, Below nodes depth ((nodes n).slot a) y → next y = nodes y :=
      fun a low used y below => agree y (Or.inr ⟨a,low,used,below⟩)
    simp only [Separate,here]
    refine ⟨fun a low used => ⟨ih (inside a low used) (separate.1 a low used).1,?_⟩,?_⟩
    · rw [belowCongr (inside a low used)]
      exact (separate.1 a low used).2
    · intro a b y lowA lowB usedA usedB left right
      rw [belowCongr (inside a lowA usedA)] at left
      rw [belowCongr (inside b lowB usedB)] at right
      exact separate.2 a b y lowA lowB usedA usedB left right

theorem releasedAtCongr (agree : ∀ x, Below nodes depth n x → next x = nodes x) {a : Nat} (low : a < 1018) :
    releasedAt next depth n a = releasedAt nodes depth n a := by
  induction depth generalizing n a with
  | zero => simp only [releasedAt,agree n (belowSelf ..)]
  | succ depth ih =>
    have here : next n = nodes n := agree n (belowSelf ..)
    simp only [releasedAt,here]
    split
    · rfl
    · rename_i used
      congr 1
      apply List.flatMap_congr
      intro b member
      have bound := List.mem_range'_1.mp member
      refine ih (fun y below => agree y (Or.inr ⟨a,low,used,below⟩)) ?_
      unfold firstCleared at bound
      split at bound <;> omega

theorem releasedCongr (start : Nat) (agree : ∀ x, Below nodes depth n x → next x = nodes x) :
    released next depth n start 1018 = released nodes depth n start 1018 := by
  apply List.flatMap_congr
  intro a member
  have bound := List.mem_range'_1.mp member
  exact releasedAtCongr agree (by omega)

theorem underCongr (high : stop ≤ 1018) (agree : ∀ x, Below nodes depth n x → next x = nodes x) :
    Under next depth n start stop x ↔ Under nodes depth n start stop x := by
  cases depth with
  | zero => rfl
  | succ depth =>
    simp only [Under,agree n (belowSelf ..)]
    refine exists_congr fun a => and_congr_right fun _ => and_congr_right fun bound => and_congr_right fun used => ?_
    exact belowCongr fun y below => agree y (Or.inr ⟨a,by omega,used,below⟩)

theorem underBelow (high : stop ≤ 1018) (under : Under nodes depth n start stop x) : Below nodes depth n x := by
  cases depth with
  | zero => exact under.elim
  | succ depth =>
    obtain ⟨a,low,bound,used,below⟩ := under
    exact Or.inr ⟨a,by omega,used,below⟩

theorem underMono {later : Nat} (order : stop ≤ later) (under : Under nodes depth n start stop x) :
    Under nodes depth n start later x := by
  cases depth with
  | zero => exact under
  | succ depth =>
    obtain ⟨a,low,bound,used,below⟩ := under
    exact ⟨a,low,by omega,used,below⟩

theorem clearFromSlot (p : NodePage) (start stop : Nat) : (p.clearFrom start stop).slot stop = p.slot stop := by
  simp [NodePage.clearFrom]

theorem clearFromEmpty (p : NodePage) (start : Nat) : p.clearFrom start start = p := by
  have same : (fun a => if start ≤ a ∧ a < start then 0 else p.slot a) = p.slot := by
    funext a
    rw [if_neg (by omega)]
  simp only [NodePage.clearFrom,same]

theorem clearFromSucc (p : NodePage) {start i : Nat} (order : start ≤ i) :
    p.clearFrom start (i + 1) = (p.clearFrom start i).setSlot i 0 := by
  unfold NodePage.clearFrom NodePage.setSlot
  congr 1
  funext a
  by_cases here : a = i
  · subst here
    rw [Function.update_self,if_pos (by omega)]
  · rw [Function.update_of_ne here]
    have same : (start ≤ a ∧ a < i + 1) ↔ (start ≤ a ∧ a < i) := by omega
    simp only [same]

theorem clearFromZero (p : NodePage) {start i : Nat} (order : start ≤ i) (zero : p.slot i = 0) :
    p.clearFrom start (i + 1) = p.clearFrom start i := by
  rw [clearFromSucc p order]
  have same : Function.update (p.clearFrom start i).slot i 0 = (p.clearFrom start i).slot := by
    rw [Function.update_eq_self_iff,clearFromSlot,zero]
  unfold NodePage.setSlot
  rw [same]

def clearLevel (depth n : Nat) : Trunc → Nat → Option Trunc :=
  match depth with
  | 0 => clearAddr n
  | depth + 1 => clearNid (fun nid t => (xcpfsRecurse depth none nid t).map Prod.fst) n

theorem clearLevelSucc (depth n : Nat) :
    clearLevel (depth + 1) n = clearNid (fun nid t => (xcpfsRecurse depth none nid t).map Prod.fst) n := rfl

theorem recurseUnfold (depth : Nat) (offset : Option Offset) (n : Nat) (t : Trunc) :
    xcpfsRecurse depth offset n t = (recurseStart depth offset).bind fun start =>
      (forLoop start defNidsPerBlock (clearLevel depth n) t).map (recurseBoundary depth n offset) := by
  cases depth <;> rfl

theorem recurseStartNone (depth : Nat) : recurseStart depth none = some (firstCleared depth) := by
  unfold recurseStart firstCleared
  simp only [Option.map_some]
  split <;> rfl

theorem clearedInit : Cleared depth n start start t t where
  calls := by simp [released]
  page := (clearFromEmpty ..).symm
  frame _ _ _ := rfl
  fewer := fewerRefl

theorem releasedSucc (nodes : NodeStore) (depth n : Nat) {start i : Nat} (order : start ≤ i) :
    released nodes depth n start (i + 1) = released nodes depth n start i ++ releasedAt nodes depth n i :=
  flatMapRangeSucc _ order

theorem clearedSlot (cleared : Cleared depth n start stop t t') :
    (t'.nodes n).slot stop = (t.nodes n).slot stop := by
  rw [cleared.page,clearFromSlot]

theorem clearedSkip {i : Nat} (order : start ≤ i) (cleared : Cleared depth n start i t t')
    (zero : (t.nodes n).slot i = 0) : Cleared depth n start (i + 1) t t' where
  calls := by
    rw [releasedSucc _ _ _ order,cleared.calls]
    cases depth <;> simp [releasedAt,zero]
  page := by rw [clearFromZero _ order zero,cleared.page]
  frame x apart outside := cleared.frame x apart fun under => outside (underMono (Nat.le_succ i) under)
  fewer := cleared.fewer

theorem clearAddrStep {i : Nat} (order : start ≤ i) (cleared : Cleared 0 n start i t t') :
    ∃ t'', clearAddr n t' i = some t'' ∧ Cleared 0 n start (i + 1) t t'' := by
  have word := clearedSlot cleared
  unfold clearAddr
  by_cases zero : (t.nodes n).slot i = 0
  · refine ⟨t',?_,clearedSkip order cleared zero⟩
    simp only [word,zero,if_true]
  · refine ⟨_,by simp only [word,zero,if_false]; rfl,?_,?_,?_,?_⟩
    · rw [releasedSucc _ _ _ order,← List.append_assoc,← cleared.calls]
      simp only [releasedAt,zero,if_false]
      rfl
    · rw [clearFromSucc _ order,← cleared.page]
      exact Function.update_self ..
    · intro x apart outside
      exact (Function.update_of_ne apart ..).trans (cleared.frame x apart fun under => under.elim)
    · exact fewerTrans cleared.fewer (fewerSetSlot n i)

/- The subtrees of two slots share no page, so what the loop did to earlier
ones leaves the next one as it was. -/
theorem clearedBelow {i : Nat} (separate : Separate t.nodes (depth + 1) n) (low : i < 1018)
    (used : (t.nodes n).slot i ≠ 0) (cleared : Cleared (depth + 1) n start i t t') (x : Nat)
    (below : Below t.nodes depth ((t.nodes n).slot i) x) : t'.nodes x = t.nodes x := by
  refine cleared.frame x ?_ ?_
  · rintro rfl
    exact (separate.1 i low used).2 below
  · rintro ⟨a,_,early,usedA,other⟩
    have same := separate.2 a i x (by omega) low usedA used other below
    omega

theorem clearNidStep {below : Nat → Trunc → Option Trunc} {i : Nat} (order : start ≤ i) (low : i < 1018)
    (separate : Separate t.nodes (depth + 1) n)
    (recursion : ∀ c s, Separate s.nodes depth c →
      ∃ s', below c s = some s' ∧ Cleared depth c (firstCleared depth) 1018 s s')
    (cleared : Cleared (depth + 1) n start i t t') :
    ∃ t'', clearNid below n t' i = some t'' ∧ Cleared (depth + 1) n start (i + 1) t t'' := by
  have word := clearedSlot cleared
  unfold clearNid
  by_cases zero : (t.nodes n).slot i = 0
  · refine ⟨t',?_,clearedSkip order cleared zero⟩
    simp only [word,zero,if_true]
  · have kept := clearedBelow separate low zero cleared
    obtain ⟨apart,notBelow⟩ := separate.1 i low zero
    obtain ⟨s,ran,inner⟩ := recursion ((t.nodes n).slot i) t' (separateCongr kept apart)
    have self : s.nodes n = t'.nodes n := by
      refine inner.frame n ?_ ?_
      · intro same
        exact notBelow (by rw [← same]; exact belowSelf ..)
      · intro under
        exact notBelow ((belowCongr kept).mp (underBelow (Nat.le_refl _) under))
    refine ⟨_,by simp only [word,zero,if_false,ran,Option.map_some,self]; rfl,?_,?_,?_,?_⟩
    · have part := releasedCongr (firstCleared depth) kept
      have calls : s.calls ++ [Call.nat ((t.nodes n).slot i)] =
          t.calls ++ released t.nodes (depth + 1) n start (i + 1) := by
        rw [inner.calls,cleared.calls,part,releasedSucc _ _ _ order]
        simp only [releasedAt,zero,if_false,released,List.append_assoc]
      exact calls
    · rw [clearFromSucc _ order,← cleared.page]
      exact Function.update_self ..
    · intro x other outside
      have before := cleared.frame x other fun under => outside (underMono (Nat.le_succ i) under)
      have notHere : ¬ Below t.nodes depth ((t.nodes n).slot i) x := fun here =>
        outside ⟨i,order,Nat.lt_succ_self i,zero,here⟩
      have during : s.nodes x = t'.nodes x := by
        refine inner.frame x ?_ ?_
        · rintro rfl
          exact notHere (belowSelf ..)
        · intro under
          exact notHere ((belowCongr kept).mp (underBelow (Nat.le_refl _) under))
      exact (Function.update_of_ne other ..).trans (during.trans before)
    · refine fewerTrans cleared.fewer (fewerTrans inner.fewer ?_)
      rw [← self]
      exact fewerSetSlot n i

/- The loop of one recursion level, from any start: induction on the depth. -/
theorem recurseLoop (depth n start : Nat) (t : Trunc) (high : start ≤ 1018) (separate : Separate t.nodes depth n) :
    ∃ t', forLoop start defNidsPerBlock (clearLevel depth n) t = some t' ∧ Cleared depth n start 1018 t t' := by
  induction depth generalizing n start t with
  | zero =>
    exact forLoopInvariant (fun i s => Cleared 0 n start i t s) high
      (fun i s order _ held => clearAddrStep order held) clearedInit
  | succ depth ih =>
    refine forLoopInvariant (fun i s => Cleared (depth + 1) n start i t s) high ?_ clearedInit
    intro i s order low held
    rw [clearLevelSucc]
    refine clearNidStep order low separate ?_ held
    intro c s inside
    have room : firstCleared depth ≤ 1018 := by unfold firstCleared; split <;> omega
    obtain ⟨s',ran,cleared⟩ := ih c (firstCleared depth) s room inside
    refine ⟨s',?_,cleared⟩
    simp only [recurseUnfold,recurseStartNone,Option.bind_some,ran,Option.map_some,recurseBoundary]

end
end Xcpfs
