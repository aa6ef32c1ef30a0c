import Xcpfs.ZoneSearch

/-! The number of valid blocks of a zone beside its bitmap. `set_bit` and `clear_bit`
change nothing on a bit that is already so, the counter moves in any case. -/
namespace Xcpfs

open EventRun

def validBits (zm : ZmInfo) (zone : Nat) : Nat := (List.range zm.blocksPerZone).countP (zm.zoneInfo zone).validMap

/- The bit of a block address. -/
def isValid (zm : ZmInfo) (blkaddr : Nat) : Bool :=
  (zm.zoneInfo (zm.blk2zone blkaddr)).validMap (blkaddr % zm.blocksPerZone)

structure Counted (zm : ZmInfo) : Prop where
  positive : 0 < zm.blocksPerZone
  counts : ∀ zone, (zm.zoneInfo zone).vblocks = validBits zm zone
  nonneg : ∀ zone, 0 ≤ (zm.zoneInfo zone).vblocks

inductive CountEvent where
  | submit (type : PageType) (oldBlkaddr : Nat) (answers : List Bool)
  | complete (blkaddr : Nat)
  | invalidate (blkaddr : Nat)

/- Only valid addresses are invalidated; a search may still be under way. -/
def countStep (s : ZoneSbi) : CountEvent → Option ZoneSbi
  | .submit type oldBlkaddr answers => (allocZone .zoneAppend type oldBlkaddr answers s).map Prod.fst
  | .complete blkaddr => some { s with zm := validateBlkaddr s.zm blkaddr }
  | .invalidate blkaddr => if isValid s.zm blkaddr then some { s with zm := invalidateBlkaddr s.zm blkaddr } else none

/- A write replaces a valid block, and the block it is given was not valid before. -/
def countFits (s : ZoneSbi) : CountEvent → Prop
  | .submit _ oldBlkaddr _ => isValid s.zm oldBlkaddr = true
  | .complete blkaddr => isValid s.zm blkaddr = false
  | .invalidate _ => True

theorem countUpdate (p : Nat → Bool) {n i : Nat} (inside : i < n) (b : Bool) :
    (List.range n).countP (Function.update p i b) + (p i).toNat = (List.range n).countP p + b.toNat := by
  induction n with
  | zero => omega
  | succ n ih =>
    have single : ∀ (q : Nat → Bool), [n].countP q = (q n).toNat := by
      intro q
      cases here : q n <;> simp [here]
    rw [List.range_succ,List.countP_append,List.countP_append,single,single]
    cases Nat.eq_or_lt_of_le (Nat.le_of_lt_succ inside) with
    | inl last =>
      subst last
      have before : (List.range i).countP (Function.update p i b) = (List.range i).countP p := by
        apply List.countP_congr
        intro k below
        rw [Function.update_of_ne (Nat.ne_of_lt (List.mem_range.mp below))]
      rw [before,Function.update_self]
      omega
    | inr below =>
      rw [Function.update_of_ne (Nat.ne_of_gt below)]
      have rest := ih below
      omega

section
variable {zm : ZmInfo} {blkaddr : Nat}

theorem countedFlip (blkaddr : Nat) (b : Bool) (counted : Counted zm) (zi : ZoneInfo)
    (bit : zi.validMap = Function.update (zm.zoneInfo (zm.blk2zone blkaddr)).validMap (blkaddr % zm.blocksPerZone) b)
    (count : zi.vblocks = (zm.zoneInfo (zm.blk2zone blkaddr)).vblocks + (if b then 1 else -1)) :
    (isValid zm blkaddr = !b → Counted (zm.setZone (zm.blk2zone blkaddr) zi)) ∧
      (isValid zm blkaddr = b → ¬Counted (zm.setZone (zm.blk2zone blkaddr) zi)) := by
  have inside := Nat.mod_lt blkaddr counted.positive
  have flip := countUpdate (zm.zoneInfo (zm.blk2zone blkaddr)).validMap inside b
  have before := counted.counts (zm.blk2zone blkaddr)
  have here : (zm.setZone (zm.blk2zone blkaddr) zi).zoneInfo (zm.blk2zone blkaddr) = zi := by
    rw [setZoneInfo,Function.update_self]
  have bits : validBits (zm.setZone (zm.blk2zone blkaddr) zi) (zm.blk2zone blkaddr) + (isValid zm blkaddr).toNat =
      validBits zm (zm.blk2zone blkaddr) + b.toNat := by
    change (List.range zm.blocksPerZone).countP
      ((zm.setZone (zm.blk2zone blkaddr) zi).zoneInfo (zm.blk2zone blkaddr)).validMap + _ = _
    rw [here,bit]
    exact flip
  constructor
  · intro other
    have law : zi.vblocks = validBits (zm.setZone (zm.blk2zone blkaddr) zi) (zm.blk2zone blkaddr) := by
      rw [other] at bits
      cases b with
      | true =>
        simp only [Bool.not_true,Bool.toNat_false,Bool.toNat_true,if_true] at bits count
        omega
      | false =>
        simp only [Bool.not_false,Bool.toNat_false,Bool.toNat_true,Bool.false_eq_true,if_false] at bits count
        omega
    have counts : ∀ zone, ((zm.setZone (zm.blk2zone blkaddr) zi).zoneInfo zone).vblocks =
        validBits (zm.setZone (zm.blk2zone blkaddr) zi) zone := by
      intro zone
      by_cases same : zone = zm.blk2zone blkaddr
      · rw [same,here]
        exact law
      · have away : (zm.setZone (zm.blk2zone blkaddr) zi).zoneInfo zone = zm.zoneInfo zone := by
          rw [setZoneInfo,Function.update_of_ne same]
        unfold validBits
        rw [away]
        exact counted.counts zone
    exact ⟨counted.positive,counts,fun zone => by rw [counts zone]; exact Int.natCast_nonneg _⟩
  · intro same after
    have law := after.counts (zm.blk2zone blkaddr)
    rw [here] at law
    rw [same] at bits
    cases b with
    | true =>
      simp only [if_true] at count
      omega
    | false =>
      simp only [Bool.false_eq_true,if_false] at count
      omega

theorem countedSame {other : ZmInfo} (counted : Counted zm) (same : SameBlocks zm other) : Counted other := by
  have blocks : other.blocksPerZone = zm.blocksPerZone := by
    unfold ZmInfo.blocksPerZone
    rw [same.size]
  refine ⟨blocks ▸ counted.positive,?_,?_⟩
  · intro zone
    unfold validBits
    rw [blocks,same.vblocks zone,same.validMap zone]
    exact counted.counts zone
  · intro zone
    rw [same.vblocks zone]
    exact counted.nonneg zone

theorem isValidSame {other : ZmInfo} (same : SameBlocks zm other) : isValid other blkaddr = isValid zm blkaddr := by
  unfold isValid ZmInfo.blk2zone ZmInfo.blocksPerZone
  rw [same.size,same.validMap]

theorem invalidateCounted (blkaddr : Nat) (counted : Counted zm) :
    (isValid zm blkaddr = true → Counted (invalidateBlkaddr zm blkaddr)) ∧
      (isValid zm blkaddr = false → ¬Counted (invalidateBlkaddr zm blkaddr)) :=
  countedFlip blkaddr false counted _ rfl rfl

theorem validateCounted (blkaddr : Nat) (counted : Counted zm) :
    (isValid zm blkaddr = false → Counted (validateBlkaddr zm blkaddr)) ∧
      (isValid zm blkaddr = true → ¬Counted (validateBlkaddr zm blkaddr)) := by
  unfold validateBlkaddr
  dsimp only
  split
  · obtain ⟨zi,made⟩ : ∃ zi : ZoneInfo, zi = { zm.zoneInfo (zm.blk2zone blkaddr) with
        validMap := Function.update (zm.zoneInfo (zm.blk2zone blkaddr)).validMap (blkaddr % zm.blocksPerZone) true
        vblocks := (zm.zoneInfo (zm.blk2zone blkaddr)).vblocks + 1, dirty := true, cond := .full
        wp := validateWp (zm.zoneInfo (zm.blk2zone blkaddr)).wp blkaddr } := ⟨_,rfl⟩
    have flip := countedFlip blkaddr true counted zi (by rw [made]) (by rw [made]; rfl)
    rw [made] at flip
    obtain ⟨keeps,breaks⟩ := flip
    constructor
    · intro fresh
      have kept := keeps fresh
      exact ⟨kept.positive,kept.counts,kept.nonneg⟩
    · intro stale after
      exact breaks stale ⟨after.positive,after.counts,after.nonneg⟩
  · exact countedFlip blkaddr true counted _ rfl rfl

end

section
variable {s t : ZoneSbi} {event : CountEvent}

theorem submitCounted {type : PageType} {oldBlkaddr new : Nat} {answers : List Bool} (counted : Counted s.zm)
    (ran : allocZone .zoneAppend type oldBlkaddr answers s = some (t,new)) :
    (isValid s.zm oldBlkaddr = true → Counted t.zm) ∧ (isValid s.zm oldBlkaddr = false → ¬Counted t.zm) := by
  obtain ⟨u,zone,same,_,kept,_⟩ := allocZoneIs ran
  subst same
  have after := invalidateCounted oldBlkaddr (countedSame counted kept)
  rw [isValidSame kept] at after
  exact after

theorem countStepKeeps (counted : Counted s.zm) (ran : countStep s event = some t) (fits : countFits s event) : Counted t.zm := by
  cases event with
  | submit type oldBlkaddr answers =>
    obtain ⟨⟨u,new⟩,chosen,same⟩ := Option.map_eq_some_iff.mp ran
    cases same
    exact (submitCounted counted chosen).1 fits
  | complete blkaddr =>
    cases ran
    exact (validateCounted blkaddr counted).1 fits
  | invalidate blkaddr =>
    dsimp only [countStep] at ran
    split at ran
    · rename_i valid
      cases ran
      exact (invalidateCounted blkaddr counted).1 valid
    · cases ran

theorem countStepFails (counted : Counted s.zm) (ran : countStep s event = some t) (unfit : ¬countFits s event) :
    ¬Counted t.zm := by
  cases event with
  | submit type oldBlkaddr answers =>
    obtain ⟨⟨u,new⟩,chosen,same⟩ := Option.map_eq_some_iff.mp ran
    cases same
    exact (submitCounted counted chosen).2 (eq_false_of_ne_true unfit)
  | complete blkaddr =>
    cases ran
    exact (validateCounted blkaddr counted).2 (eq_true_of_ne_false unfit)
  | invalidate blkaddr => exact absurd trivial unfit

/- The counters keep to the bitmaps over a run exactly when every write replaces a
valid block and lands on one that is not. -/
theorem validBlocksCounted {events : List CountEvent} (counted : Counted s.zm) :
    Always (fun s => Counted s.zm) countStep s events ↔ Meets countFits countStep s events :=
  alwaysIff (fun s => Counted s.zm) (fun _ counted => counted)
    (fun _ _ _ counted ran fits => countStepKeeps counted ran fits)
    (fun _ _ _ counted ran unfit => countStepFails counted ran unfit) counted

end

/- Three zones of two blocks; zone 2 is open for data and holds one valid block, address 4. -/
def countTable : ZoneSbi where
  zm :=
    { zoneSize := 16, zoneCapacity := 16, nrZones := 3, maxOpenZones := 2, maxActiveZones := 2
      nrType := fun _ => 1, limitType := fun _ => 1
      zoneInfo := fun zone =>
        { zoneId := zone, cond := if zone = 2 then .expOpen else .empty, start := zone * 16
          wp := zone * 16 + if zone = 2 then 8 else 0, writeInflight := 0, dirty := false
          zoneType := if zone = 2 then PageType.regData.code else zoneTypeFree
          vblocks := if zone = 2 then 1 else 0, validMap := fun idx => zone = 2 && idx = 0 }
      zoneOpened := [some 2,none], zoneOpenedCount := 1
      zoneActive := [some 2,none], zoneActiveCount := 1 }
  cpSemLocked := false
  cpcRestart := none

theorem countTableCounted : Counted countTable.zm := by
  have counts : ∀ zone, (countTable.zm.zoneInfo zone).vblocks = validBits countTable.zm zone := by
    intro zone
    change (if zone = 2 then (1 : Int) else 0) = ((List.range 2).countP fun idx => zone = 2 && idx = 0 : Nat)
    by_cases two : zone = 2
    · subst two
      rfl
    · simp [two]
  exact ⟨by decide,counts,fun zone => by rw [counts zone]; exact Int.natCast_nonneg _⟩

/-- A block of the open zone is rewritten in place of the old one. -/
theorem validBlocksCountedRewrite :
    Always (fun s => Counted s.zm) countStep countTable [.submit .regData 4 [],.complete 5] := by
  rw [validBlocksCounted countTableCounted]
  intro first ran
  refine ⟨rfl,?_⟩
  intro second completed
  rw [← Option.some.inj ran]
  exact ⟨rfl,trivial⟩

/-- The first write of a block, which has no old address, takes one off the count of zone 0. -/
theorem firstWriteMiscounts : ¬∀ (s : ZoneSbi) (events : List CountEvent), Counted s.zm →
    Always (fun s => Counted s.zm) countStep s events := by
  intro claim
  have always := claim countTable [.submit .regData 0 []] countTableCounted
  have after := alwaysHead (always.2 _ rfl)
  apply countStepFails countTableCounted (rfl : countStep countTable (.submit .regData 0 []) = some _) ?_ after
  intro valid
  have unset : isValid countTable.zm 0 = false := rfl
  exact Bool.noConfusion (unset.symm.trans valid)

end Xcpfs
