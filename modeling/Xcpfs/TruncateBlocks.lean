import Xcpfs.TruncateCut

/-! One run of `xcpfs_truncate_blocks`. Each section advances the count of
subtrees dealt with; the flag and the shared offset decide how the next one is
entered. -/
namespace Xcpfs
open PointerForest CountedLoop

section
variable {start ino j depth : Nat} {plan : Nat → Option TopCut} {t t' : Trunc} {r : TruncRun}

theorem truncatedNext (held : Truncated start plan ino t t' j)
    (idle : (t.nodes ino).iNid j = 0 ∨ plan j = none) : Truncated start plan ino t t' (j + 1) where
  calls := by
    have part : planCalls t.nodes ino plan j = [] := by
      unfold planCalls
      split
      · rfl
      · rename_i cut planned
        have absent : (t.nodes ino).iNid j = 0 := idle.resolve_right (by simp [planned])
        simp only [topCalls,absent,if_true]
    rw [held.calls,List.range_succ,List.flatMap_append]
    simp [part]
  iAddr := held.iAddr
  dropped i low cut planned drop := by
    rcases Nat.lt_succ_iff_lt_or_eq.mp low with early | rfl
    · exact held.dropped i early cut planned drop
    · rw [held.kept i fun early => absurd early (Nat.lt_irrefl i)]
      exact idle.resolve_right (by simp [planned])
  kept i whole := held.kept i fun low => whole (Nat.lt_succ_of_lt low)
  slot i low cut planned used := by
    rcases Nat.lt_succ_iff_lt_or_eq.mp low with early | rfl
    · exact held.slot i early cut planned used
    · rcases idle with absent | unplanned
      · exact absurd absent used
      · exact absurd planned (by simp [unplanned])
  frame x other outside := held.frame x other fun i low => outside i (Nat.lt_succ_of_lt low)
  fewer := held.fewer

theorem truncatedBelow (tree : InodeTree t.nodes ino) (low : j < 5) (used : (t.nodes ino).iNid j ≠ 0)
    (held : Truncated start plan ino t t' j) (x : Nat)
    (below : Below t.nodes (levelOf j) ((t.nodes ino).iNid j) x) : t'.nodes x = t.nodes x := by
  refine held.frame x ?_ ?_
  · rintro rfl
    exact tree.root j low used below
  · intro i early cut _ usedI
    have apart : ¬ Below t.nodes (levelOf i) ((t.nodes ino).iNid i) x := fun other =>
      absurd (tree.apart i (by omega) j low x usedI used other below) (Nat.ne_of_lt early)
    refine ⟨?_,fun under => apart (underBelow (Nat.le_refl _) under)⟩
    rintro rfl
    exact apart (belowSelf ..)

def dropTop (ino i : Nat) (t : Trunc) : Trunc :=
  (t.invalidateNat ((t.nodes ino).iNid i)).write ino ((t.nodes ino).setNid i 0)

theorem dropTopOther {ino x : Nat} (i : Nat) (t : Trunc) (other : x ≠ ino) :
    (dropTop ino i t).nodes x = t.nodes x := Function.update_of_ne other ..

theorem dropTopRoot (ino i : Nat) (t : Trunc) :
    (dropTop ino i t).nodes ino = (t.nodes ino).setNid i 0 := Function.update_self ..

theorem dropTopFewer (ino i : Nat) (t : Trunc) : Fewer t.nodes (dropTop ino i t).nodes := by
  refine fewerWrite ino (fun _ => Or.inl rfl) (fun k => ?_) (fun _ => Or.inl rfl)
  by_cases here : k = i
  · subst here; exact Or.inr (Function.update_self ..)
  · exact Or.inl (Function.update_of_ne here ..)

theorem truncatedKeep (tree : InodeTree t.nodes ino) (low : j < 5) (used : (t.nodes ino).iNid j ≠ 0)
    {s s' : Trunc} {cut : TopCut} (planned : plan j = some cut) (keep : cut.dropped = false)
    (held : Truncated start plan ino t s j)
    (ran : Recursed (levelOf j) ((t.nodes ino).iNid j) cut.start cut.boundary s s') :
    Truncated start plan ino t s' (j + 1) := by
  have agree := truncatedBelow tree low used held
  have self := agree _ (belowSelf ..)
  have away : ∀ x, ¬ Below t.nodes (levelOf j) ((t.nodes ino).iNid j) x → s'.nodes x = s.nodes x := by
    intro x outside
    refine ran.frame x ?_ fun under => outside ((belowCongr agree).mp (underBelow (Nat.le_refl _) under))
    rintro rfl
    exact outside (belowSelf ..)
  have root := away ino (tree.root j low used)
  refine ⟨?_,?_,?_,?_,?_,?_,fewerTrans held.fewer ran.fewer⟩
  · rw [ran.calls,held.calls,releasedCongr cut.start agree,self,List.range_succ,List.flatMap_append]
    simp [planCalls,planned,topCalls,used,keep]
  · intro i
    rw [root]
    exact held.iAddr i
  · intro i bound other plannedI drop
    rw [root]
    rcases Nat.lt_succ_iff_lt_or_eq.mp bound with early | rfl
    · exact held.dropped i early other plannedI drop
    · rw [planned] at plannedI
      cases plannedI
      rw [keep] at drop
      contradiction
  · intro i whole
    rw [root]
    exact held.kept i fun early => whole (Nat.lt_succ_of_lt early)
  · intro i bound other plannedI usedI a room
    rcases Nat.lt_succ_iff_lt_or_eq.mp bound with early | rfl
    · rw [away _ fun below => absurd (tree.apart i (by omega) j low _ usedI used (belowSelf ..) below) (Nat.ne_of_lt early)]
      exact held.slot i early other plannedI usedI a room
    · rw [planned] at plannedI
      cases plannedI
      rw [ran.slot a room,self]
  · intro x other outside
    obtain ⟨apart,notUnder⟩ := outside j (Nat.lt_succ_self j) cut planned used
    rw [ran.frame x apart fun under => notUnder ((underCongr (Nat.le_refl _) agree).mp under)]
    exact held.frame x other fun i early => outside i (Nat.lt_succ_of_lt early)

theorem truncatedDrop (tree : InodeTree t.nodes ino) (low : j < 5) (used : (t.nodes ino).iNid j ≠ 0)
    {s : Trunc} {cut : TopCut} (planned : plan j = some cut) (drop : cut.dropped = true)
    (held : Truncated start (Function.update plan j (some { cut with dropped := false })) ino t s (j + 1)) :
    Truncated start plan ino t (dropTop ino j s) (j + 1) := by
  have earlier : ∀ i, i ≠ j → Function.update plan j (some { cut with dropped := false }) i = plan i :=
    fun i other => Function.update_of_ne other ..
  have here : Function.update plan j (some { cut with dropped := false }) j =
      some { cut with dropped := false } := Function.update_self ..
  have word : (s.nodes ino).iNid j = (t.nodes ino).iNid j := by
    refine held.kept j fun _ other plannedJ => ?_
    rw [here] at plannedJ
    cases plannedJ
    rfl
  refine ⟨?_,?_,?_,?_,?_,?_,fewerTrans held.fewer (dropTopFewer ino j s)⟩
  · change s.calls ++ [Call.nat ((s.nodes ino).iNid j)] = _
    have before : (List.range j).flatMap (planCalls t.nodes ino (Function.update plan j (some { cut with dropped := false }))) =
        (List.range j).flatMap (planCalls t.nodes ino plan) := by
      apply List.flatMap_congr
      intro i member
      simp only [planCalls,earlier i (Nat.ne_of_lt (List.mem_range.mp member))]
    rw [held.calls,List.range_succ,List.flatMap_append,List.flatMap_append,before,word]
    simp [planCalls,planned,topCalls,used,drop]
  · intro i
    rw [dropTopRoot]
    exact held.iAddr i
  · intro i bound other plannedI dropI
    rw [dropTopRoot]
    by_cases same : i = j
    · subst same
      exact Function.update_self ..
    · rw [← earlier i same] at plannedI
      exact (Function.update_of_ne same ..).trans (held.dropped i bound other plannedI dropI)
  · intro i whole
    rw [dropTopRoot]
    by_cases same : i = j
    · subst same
      rw [whole (Nat.lt_succ_self i) cut planned] at drop
      contradiction
    · refine (Function.update_of_ne same ..).trans (held.kept i fun bound other plannedI => ?_)
      rw [earlier i same] at plannedI
      exact whole bound other plannedI
  · intro i bound other plannedI usedI a room
    have apart : (t.nodes ino).iNid i ≠ ino := fun same => tree.root i (by omega) usedI (by rw [same]; exact belowSelf ..)
    rw [dropTopOther j s apart]
    by_cases same : i = j
    · subst same
      rw [planned] at plannedI
      cases plannedI
      exact held.slot i bound _ here usedI a room
    · rw [← earlier i same] at plannedI
      exact held.slot i bound other plannedI usedI a room
  · intro x other outside
    rw [dropTopOther j s other]
    refine held.frame x other fun i bound otherCut plannedI usedI => ?_
    by_cases same : i = j
    · subst same
      rw [here] at plannedI
      cases plannedI
      exact outside i bound cut planned usedI
    · rw [earlier i same] at plannedI
      exact outside i bound otherCut plannedI usedI

theorem truncatedPlan {plan' : Nat → Option TopCut} (same : ∀ i < j, plan' i = plan i)
    (held : Truncated start plan ino t t' j) : Truncated start plan' ino t t' j where
  calls := by
    have parts : (List.range j).flatMap (planCalls t.nodes ino plan') = (List.range j).flatMap (planCalls t.nodes ino plan) := by
      apply List.flatMap_congr
      intro i member
      simp only [planCalls,same i (List.mem_range.mp member)]
    rw [held.calls,parts]
  iAddr := held.iAddr
  dropped i low cut planned := held.dropped i low cut (by rwa [← same i low])
  kept i whole := held.kept i fun low cut planned => whole low cut (by rwa [same i low])
  slot i low cut planned := held.slot i low cut (by rwa [← same i low])
  frame x other outside := held.frame x other fun i low cut planned => outside i low cut (by rwa [same i low])
  fewer := held.fewer

theorem topPresent (r : TruncRun) (offset : Option Offset) (tree : InodeTree t.nodes ino) (low : j < 5) (used : (t.nodes ino).iNid j ≠ 0)
    {cut : TopCut} (planned : plan j = some cut)
    (held : Truncated start plan ino t r.trunc j)
    (recursion : ∀ s, Separate s.nodes (levelOf j) ((t.nodes ino).iNid j) →
      ∃ s', xcpfsRecurse (levelOf j) (if r.flag then none else some r.offset) ((t.nodes ino).iNid j) s =
        some (s',offset) ∧ Recursed (levelOf j) ((t.nodes ino).iNid j) cut.start cut.boundary s s')
    (drop : (r.flag = true ∨ (offset.getD r.offset) 1 = 0) ↔ cut.dropped = true) :
    ∃ s, clearTop ino (levelOf j) r j = some ⟨s,offset.getD r.offset,r.flag⟩ ∧
      Truncated start plan ino t s (j + 1) := by
  have agree := truncatedBelow tree low used held
  have word : (r.trunc.nodes ino).iNid j = (t.nodes ino).iNid j :=
    held.kept j fun early => absurd early (Nat.lt_irrefl j)
  obtain ⟨s,ran,effect⟩ := recursion r.trunc (separateCongr agree (tree.separate j low used))
  simp only [clearTop,word,used,if_false,ran,Option.map_some,drop]
  cases dropped : cut.dropped with
  | false => exact ⟨s,rfl,truncatedKeep tree low used planned dropped held effect⟩
  | true =>
    refine ⟨dropTop ino j s,rfl,truncatedDrop tree low used planned dropped ?_⟩
    have before : Truncated start (Function.update plan j (some { cut with dropped := false })) ino t r.trunc j :=
      truncatedPlan (fun i early => Function.update_of_ne (Nat.ne_of_lt early) ..) held
    exact truncatedKeep tree low used (Function.update_self ..) rfl before effect

theorem topAbsent (depth : Nat) (r : TruncRun) (absent : (t.nodes ino).iNid j = 0) (held : Truncated start plan ino t r.trunc j) :
    clearTop ino depth r j = some r ∧ Truncated start plan ino t r.trunc (j + 1) := by
  have word : (r.trunc.nodes ino).iNid j = (t.nodes ino).iNid j :=
    held.kept j fun early => absurd early (Nat.lt_irrefl j)
  refine ⟨?_,truncatedNext held (Or.inl absent)⟩
  simp only [clearTop,word,absent,if_true]

theorem directTop (tree : InodeTree t.nodes ino) (low : j < 2) (len k : Nat) {offset : Offset} {s : Trunc}
    {dropped : Bool} (cells : offsetLen offset = len + 1) (here : offset len = k) (high : k ≤ 1018)
    (planned : plan j = some ⟨k,none,dropped⟩) (drop : decrement offset len 1 = 0 ↔ dropped = true)
    (held : Truncated start plan ino t s j) :
    ∃ s', clearTop ino 0 ⟨s,offset,false⟩ j =
      some ⟨s',if (t.nodes ino).iNid j = 0 then offset else decrement offset len,false⟩ ∧
      Truncated start plan ino t s' (j + 1) := by
  by_cases used : (t.nodes ino).iNid j = 0
  · obtain ⟨ran,next⟩ := topAbsent 0 ⟨s,offset,false⟩ used held
    exact ⟨s,by rw [ran,if_pos used],next⟩
  · have level : levelOf j = 0 := if_pos low
    rw [if_neg used,← level]
    refine topPresent ⟨s,offset,false⟩ (some (decrement offset len)) tree (by omega) used planned held
      (fun s' _ => ?_) (by simpa using drop)
    rw [level]
    exact recurseDirect _ len k s' cells here high

theorem insideTop (tree : InodeTree t.nodes ino) (low : j < 5) (level : levelOf j = depth + 1) (a b : Nat)
    {offset : Offset} {s : Trunc} (cells : offsetLen offset = 1 + (depth + 2)) (here : offset 1 = a)
    (next : offset 2 = b) (room : a < 1018) (planned : plan j = some (.within a b))
    (held : Truncated start plan ino t s j) :
    ∃ s', clearTop ino (depth + 1) ⟨s,offset,false⟩ j =
      some ⟨s',if (t.nodes ino).iNid j ≠ 0 ∧ b = 0 then decrement offset 1 else offset,false⟩ ∧
      Truncated start plan ino t s' (j + 1) := by
  by_cases used : (t.nodes ino).iNid j = 0
  · obtain ⟨ran,rest⟩ := topAbsent (depth + 1) ⟨s,offset,false⟩ used held
    exact ⟨s,by rw [ran,if_neg (by simp [used])],rest⟩
  · rw [← level]
    by_cases done : b = 0
    · subst done
      rw [if_pos ⟨used,rfl⟩]
      refine topPresent ⟨s,offset,false⟩ (some (decrement offset 1)) tree low used planned held
        (fun s' separate => ?_) ?_
      · rw [level] at separate ⊢
        exact recurseCut _ 1 a s' separate cells here room next
      · simp [decrement,here,TopCut.within]
        omega
    · rw [if_neg (fun both => done both.2)]
      refine topPresent ⟨s,offset,false⟩ (some offset) tree low used planned held
        (fun s' separate => ?_) ?_
      · rw [level] at separate ⊢
        simp only [TopCut.within,done,if_false]
        exact recurseInside _ 1 a s' separate cells here room (by rw [next]; omega)
      · simp [here,TopCut.within,done]

theorem wholeSection (depth : Nat) (r : TruncRun) (tree : InodeTree t.nodes ino) (lo hi : Nat) (order : lo ≤ hi) (high : hi ≤ 5)
    (level : ∀ i, lo ≤ i → i < hi → levelOf i = depth) (next : Int)
    (planned : ∀ i, lo ≤ i → i < hi → plan i = some (.whole i)) (flag : r.flag = true)
    (at0 : r.offset 0 = 900 + lo) (held : Truncated start plan ino t r.trunc lo) :
    ∃ r', nidSection ino depth hi next r = some r' ∧ (lo < hi → r'.flag = true ∧ r'.offset 0 = next) ∧
      Truncated start plan ino t r'.trunc hi := by
  unfold nidSection
  by_cases inside : lo < hi
  · rw [if_pos (by omega)]
    have first : (r.offset 0 - 900).toNat = lo := by omega
    rw [first]
    have step : ∀ i (r : TruncRun), lo ≤ i → i < hi → (r.flag = true ∧ Truncated start plan ino t r.trunc i) →
        ∃ r', clearTop ino depth r i = some r' ∧ r'.flag = true ∧ Truncated start plan ino t r'.trunc (i + 1) := by
      rintro i r after before ⟨raised,stage⟩
      by_cases used : (t.nodes ino).iNid i = 0
      · obtain ⟨run,rest⟩ := topAbsent depth r used stage
        exact ⟨r,run,raised,rest⟩
      · obtain ⟨s,run,rest⟩ := topPresent r none tree (by omega) used (planned i after before) stage
          (fun s separate => by
            rw [raised]
            exact recurseWhole _ _ s separate)
          (by simp [raised,TopCut.whole])
        rw [level i after before] at run
        exact ⟨_,run,raised,rest⟩
    obtain ⟨last,ran,_,done⟩ := forLoopInvariant
      (fun i (r : TruncRun) => r.flag = true ∧ Truncated start plan ino t r.trunc i) order step ⟨flag,held⟩
    refine ⟨⟨last.trunc,Function.update last.offset 0 next,true⟩,by simp only [ran,Option.map_some],fun _ => ⟨rfl,?_⟩,done⟩
    simp
  · have same : lo = hi := by omega
    rw [if_neg (by omega)]
    exact ⟨r,rfl,fun bad => absurd bad inside,same ▸ held⟩

theorem sectionSkip (ino depth hi : Nat) (next : Int) (past : 900 + hi ≤ r.offset 0) :
    nidSection ino depth hi next r = some r := by
  unfold nidSection
  rw [if_neg (by omega)]

theorem inodeSectionSkip (ino : Nat) (past : 900 ≤ r.offset 0) : inodeSection ino r = some r := by
  unfold inodeSection
  rw [if_neg (by omega)]

theorem truncatedInit (plan : Nat → Option TopCut) : Truncated 900 plan ino t t 0 where
  calls := by simp [releasedAddrs]
  iAddr i := by rw [if_neg (by omega)]
  dropped i low := absurd low (Nat.not_lt_zero i)
  kept _ _ := rfl
  slot i low := absurd low (Nat.not_lt_zero i)
  frame _ _ _ := rfl
  fewer := fewerRefl

def NodePage.clearAddrs (p : NodePage) (start stop : Nat) : NodePage :=
  { p with iAddr := fun i => if start ≤ i ∧ i < stop then 0 else p.iAddr i }

theorem clearAddrsSucc (p : NodePage) {start i : Nat} (order : start ≤ i) :
    p.clearAddrs start (i + 1) = (p.clearAddrs start i).setAddr i 0 := by
  unfold NodePage.clearAddrs NodePage.setAddr
  congr 1
  funext a
  by_cases here : a = i
  · subst here
    rw [Function.update_self,if_pos (by omega)]
  · rw [Function.update_of_ne here]
    have same : (start ≤ a ∧ a < i + 1) ↔ (start ≤ a ∧ a < i) := by omega
    simp only [same]

theorem clearAddrsSelf (p : NodePage) (start i : Nat) : (p.clearAddrs start i).iAddr i = p.iAddr i := by
  simp [NodePage.clearAddrs]

structure AddrsCleared (ino start stop : Nat) (t t' : Trunc) : Prop where
  calls : t'.calls = t.calls ++ releasedAddrs t.nodes ino start stop
  nodes : t'.nodes = Function.update t.nodes ino ((t.nodes ino).clearAddrs start stop)

theorem addrsClearedStep {i : Nat} (order : start ≤ i) (cleared : AddrsCleared ino start i t t') :
    ∃ t'', clearInodeAddr ino t' i = some t'' ∧ AddrsCleared ino start (i + 1) t t'' := by
  have parts := flatMapRangeSucc (releasedAddrAt t.nodes ino) order
  have page : t'.nodes ino = (t.nodes ino).clearAddrs start i := by
    rw [cleared.nodes,Function.update_self]
  have word : (t'.nodes ino).iAddr i = (t.nodes ino).iAddr i := by rw [page,clearAddrsSelf]
  unfold clearInodeAddr
  by_cases zero : (t.nodes ino).iAddr i = 0
  · refine ⟨t',by simp only [word,zero,if_true],?_,?_⟩
    · rw [cleared.calls,releasedAddrs,releasedAddrs,parts]
      simp [releasedAddrAt,zero]
    · rw [cleared.nodes,clearAddrsSucc _ order]
      congr 1
      have same : Function.update ((t.nodes ino).clearAddrs start i).iAddr i 0 =
          ((t.nodes ino).clearAddrs start i).iAddr := by
        rw [Function.update_eq_self_iff,clearAddrsSelf,zero]
      simp only [NodePage.setAddr,same]
  · refine ⟨_,by simp only [word,zero,if_false]; rfl,?_,?_⟩
    · change t'.calls ++ [Call.blkaddr ((t.nodes ino).iAddr i)] = _
      rw [cleared.calls,releasedAddrs,releasedAddrs,parts]
      simp [releasedAddrAt,zero]
    · change Function.update t'.nodes ino ((t'.nodes ino).setAddr i 0) = _
      rw [page,cleared.nodes,clearAddrsSucc _ order,Function.update_idem]

theorem truncatedAddrs (plan : Nat → Option TopCut) (cleared : AddrsCleared ino start 900 t t') :
    Truncated start plan ino t t' 0 := by
  have page : t'.nodes ino = (t.nodes ino).clearAddrs start 900 := by
    rw [cleared.nodes,Function.update_self]
  refine ⟨?_,?_,fun i low => absurd low (Nat.not_lt_zero i),?_,fun i low => absurd low (Nat.not_lt_zero i),?_,?_⟩
  · rw [cleared.calls]
    simp
  · intro i
    rw [page]
    rfl
  · intro i _
    rw [page]
    rfl
  · intro x other _
    rw [cleared.nodes,Function.update_of_ne other]
  · rw [cleared.nodes]
    refine fewerWrite ino (fun i => ?_) (fun _ => Or.inl rfl) (fun _ => Or.inl rfl)
    simp only [NodePage.clearAddrs]
    split
    · exact Or.inr rfl
    · exact Or.inl rfl

theorem inodeSectionCut (t : Trunc) (plan : Nat → Option TopCut) (ino : Nat) {offset : Offset} (low : start < 900)
    (here : offset 0 = start) :
    ∃ t', inodeSection ino ⟨t,offset,false⟩ = some ⟨t',Function.update offset 0 900,true⟩ ∧
      Truncated start plan ino t t' 0 := by
  have empty : AddrsCleared ino start start t t := by
    refine ⟨by simp [releasedAddrs],?_⟩
    have same : (t.nodes ino).clearAddrs start start = t.nodes ino := by
      have words : (fun i => if start ≤ i ∧ i < start then 0 else (t.nodes ino).iAddr i) = (t.nodes ino).iAddr := by
        funext i
        rw [if_neg (by omega)]
      simp only [NodePage.clearAddrs,words]
    rw [same,Function.update_eq_self]
  obtain ⟨t',ran,cleared⟩ := forLoopInvariant (fun i s => AddrsCleared ino start i t s) (Nat.le_of_lt low)
    (fun i s order _ held => addrsClearedStep order held) empty
  refine ⟨t',?_,truncatedAddrs plan cleared⟩
  unfold inodeSection
  have first : (offset 0).toNat = start := by omega
  simp only [first]
  rw [if_pos (by omega)]
  exact congrArg _ ran

end
end Xcpfs
