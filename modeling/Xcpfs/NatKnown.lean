import Xcpfs.NatPersist

/-! What the NAT cache keeps about the nids in use. Such a nid is in the list of used
entries, or it is not cached and its NAT block gives it an address. Loading NAT blocks
changes no address. -/
namespace Xcpfs

/- The cache after some NAT blocks were read. -/
structure Loads (file : NatFile) (nm other : NatInfo) : Prop where
  distinct : nm.Distinct → other.Distinct
  slot : ∀ n, other.slot n = nm.slot n ∨ nm.slot n = none ∧ 3 ≤ n ∧ other.slot n = some ((file.raw n).slot n)

structure NatOk (known : Nat → Bool) (file : NatFile) (nm : NatInfo) : Prop where
  distinct : nm.Distinct
  unused : ∀ n ne, nm.slot n = some (false,ne) → ne.blockAddr = 0
  used : ∀ n, known n = true → (∃ ne, nm.slot n = some (true,ne)) ∨ nm.slot n = none ∧ 3 ≤ n ∧ (file.raw n).blockAddr ≠ 0

/- The entries in use stay in use. -/
def KeepsUsed (nm other : NatInfo) : Prop := ∀ n ne, nm.slot n = some (true,ne) → ∃ ne, other.slot n = some (true,ne)

section
variable {known : Nat → Bool} {file : NatFile} {nm other next : NatInfo} {nid n : Nat} {ne : NatEntry} {isMeta : Bool}

theorem loadsBlock (iblock : Nat) : Loads file nm (insertBlock nm (file iblock) iblock) := by
  refine ⟨fun distinct => distinctBlock distinct ..,fun n => ?_⟩
  rw [slotBlock]
  split
  · rename_i inside
    cases here : nm.slot n with
    | some found => exact .inl (Option.some_or ..)
    | none =>
      refine .inr ⟨rfl,inside.1,?_⟩
      rw [Option.none_or,rawBlock,inside.2]
  · exact .inl (Option.or_none ..)

theorem loadsLookup (nid : Nat) : Loads file nm (lookupNat file nm nid).1 := by
  unfold lookupNat
  cases nm.lookup nid with
  | some ne => exact ⟨id,fun n => .inl rfl⟩
  | none =>
    dsimp only
    exact loadsBlock (nid / natEntryPerBlock)

theorem loadsTrans {mid : NatInfo} (first : Loads file nm mid) (second : Loads file mid other) : Loads file nm other where
  distinct := second.distinct ∘ first.distinct
  slot n := by
    rcases second.slot n with same | ⟨none_,high,fresh⟩
    · rw [same]
      exact first.slot n
    · rcases first.slot n with same | ⟨_,_,taken⟩
      · exact .inr ⟨same.symm.trans none_,high,fresh⟩
      · rw [none_] at taken
        contradiction

/- `alloc_free_nat` loads blocks from its first one on, no more than it has rounds for,
and takes a free entry. -/
theorem allocRoundsLoad {rounds iblock : Nat} (ran : allocRounds file isMeta rounds iblock nm = some (next,ne)) :
    ∃ loaded, Loads file nm loaded ∧ freeNatEmpty loaded isMeta = some (next,ne) ∧
      ∀ n, nm.slot n = none → loaded.slot n ≠ none → n / natEntryPerBlock < iblock + rounds := by
  induction rounds generalizing nm iblock with
  | zero => exact ⟨nm,⟨id,fun _ => .inl rfl⟩,ran,fun n none_ cached => absurd none_ cached⟩
  | succ rounds ih =>
    unfold allocRounds at ran
    cases found : freeNatEmpty nm isMeta with
    | some pair =>
      rw [found] at ran
      exact ⟨nm,⟨id,fun _ => .inl rfl⟩,found.trans ran,fun n none_ cached => absurd none_ cached⟩
    | none =>
      rw [found] at ran
      obtain ⟨loaded,loads,taken,bound⟩ := ih ran
      have first : Loads file nm (insertBlock nm (file iblock) iblock) := loadsBlock iblock
      refine ⟨loaded,loadsTrans first loads,taken,fun n none_ cached => ?_⟩
      cases block : (insertBlock nm (file iblock) iblock).slot n with
      | none =>
        have later := bound n block cached
        omega
      | some pair =>
        rw [slotBlock,none_,Option.none_or] at block
        split at block
        · rename_i inside
          omega
        · contradiction

theorem freeFound (free : nm.slot n = some (false,ne)) (kind : isMetaNid n = isMeta) : (freeNatEmpty nm isMeta).isSome = true := by
  have found := (slotFree.mp free).2
  have member := List.mem_of_find?_eq_some found
  unfold freeNatEmpty
  rw [Option.isSome_map,List.find?_isSome]
  exact ⟨ne,member,by rw [findNid found]; exact decide_eq_true kind⟩

theorem loadsUsed (loads : Loads file nm other) : KeepsUsed nm other := by
  intro n ne here
  rcases loads.slot n with same | ⟨none_,_⟩
  · exact ⟨ne,same.trans here⟩
  · rw [here] at none_
    contradiction

theorem loadsAddr (loads : Loads file nm other) (n : Nat) : natAddr file other n = natAddr file nm n := by
  rw [natAddrSlot,natAddrSlot]
  rcases loads.slot n with same | ⟨none_,high,fresh⟩
  · rw [same]
  · rw [none_,fresh]
    dsimp only
    rw [if_pos high]
    rfl

theorem natOkLoads (ok : NatOk known file nm) (loads : Loads file nm other) : NatOk known file other where
  distinct := loads.distinct ok.distinct
  unused n ne here := by
    rcases loads.slot n with same | ⟨_,_,fresh⟩
    · exact ok.unused n ne (same.symm.trans here)
    · have pair := Option.some.inj (fresh.symm.trans here)
      have zero : decide ((file.raw n).blockAddr ≠ 0) = false := congrArg Prod.fst pair
      have same : (file.raw n).blockAddr = ne.blockAddr := congrArg (fun pair => pair.2.blockAddr) pair
      rw [← same]
      simpa using zero
  used n member := by
    rcases loads.slot n with same | ⟨none_,high,fresh⟩
    · rw [same]
      exact ok.used n member
    · rcases ok.used n member with ⟨ne,here⟩ | ⟨_,_,address⟩
      · rw [none_] at here
        contradiction
      · refine .inl ⟨⟨false,false,n,(file.raw n).ino,(file.raw n).blockAddr⟩,fresh.trans ?_⟩
        unfold RawNat.slot
        rw [decide_eq_true address]

theorem usedLookup (ok : NatOk known file nm) (member : known nid = true) :
    ∃ ne, (lookupNat file nm nid).1.slot nid = some (true,ne) := by
  rcases (natOkLoads ok (loadsLookup nid)).used nid member with found | ⟨none_,high,_⟩
  · exact found
  · rw [lookupNatSlot] at none_
    split at none_
    · rw [if_pos ⟨high,rfl⟩] at none_
      rcases Option.or_eq_none_iff.mp none_ with ⟨_,bad⟩
      contradiction
    · contradiction

theorem addrUsed (here : nm.slot nid = some (true,ne)) : natAddr file nm nid = some ne.blockAddr := by
  rw [natAddrSlot,here]

theorem natOkUpdate (ok : NatOk known file nm) (blkaddr : Nat) (pinned : Bool) :
    NatOk known file (updateNat nm nid blkaddr pinned).1 where
  distinct := distinctUpdate ok.distinct blkaddr pinned
  unused n ne here := by
    rw [slotUpdate] at here
    split at here
    · exact ok.unused n ne here
    · split at here
      · cases here
      · exact ok.unused n ne here
  used n member := by
    rw [slotUpdate]
    split
    · exact ok.used n member
    · split
      · exact .inl ⟨_,rfl⟩
      · exact ok.used n member

theorem keepsUsedUpdate (blkaddr : Nat) (pinned : Bool) : KeepsUsed nm (updateNat nm nid blkaddr pinned).1 := by
  intro n ne here
  rw [slotUpdate]
  split
  · exact ⟨ne,here⟩
  · split
    · exact ⟨_,rfl⟩
    · exact ⟨ne,here⟩

theorem updateAddr (here : nm.slot nid = some (true,ne)) (blkaddr : Nat) (pinned : Bool) :
    natAddr file (updateNat nm nid blkaddr pinned).1 nid = some blkaddr := by
  rw [natAddrSlot,slotUpdate,slotListed.mp here]
  dsimp only
  by_cases new : ne.blockAddr = blkaddr
  · rw [if_neg fun both => both.2 new,here]
    exact congrArg some new
  · rw [if_pos ⟨rfl,new⟩]

theorem updateAddrOther (blkaddr : Nat) (pinned : Bool) (differ : nid ≠ n) :
    natAddr file (updateNat nm nid blkaddr pinned).1 n = natAddr file nm n := by
  rw [natAddrSlot,natAddrSlot,slotUpdate]
  cases nm.listed nid with
  | none => rfl
  | some ne =>
    dsimp only
    rw [if_neg fun both => differ both.1]

theorem natOkModify {f : NatEntry → NatEntry} (keeps : ∀ ne, (f ne).nid = ne.nid)
    (zero : ∀ ne, ne.blockAddr = 0 → (f ne).blockAddr = 0) (ok : NatOk known file nm) : NatOk known file (nm.modify nid f) where
  distinct := distinctModify keeps ok.distinct
  unused n ne here := by
    rw [slotModify keeps] at here
    split at here
    · obtain ⟨⟨used,entry⟩,there,same⟩ := Option.map_eq_some_iff.mp here
      cases same
      exact zero entry (ok.unused n entry there)
    · exact ok.unused n ne here
  used n member := by
    rw [slotModify keeps]
    rcases ok.used n member with ⟨ne,here⟩ | ⟨none_,rest⟩
    · rw [here]
      split
      · exact .inl ⟨_,rfl⟩
      · exact .inl ⟨_,rfl⟩
    · rw [none_]
      refine .inr ⟨?_,rest⟩
      split <;> rfl

theorem keepsUsedModify {f : NatEntry → NatEntry} (keeps : ∀ ne, (f ne).nid = ne.nid) : KeepsUsed nm (nm.modify nid f) := by
  intro n ne here
  rw [slotModify keeps,here]
  split
  · exact ⟨_,rfl⟩
  · exact ⟨_,rfl⟩

theorem modifyAddrOther {f : NatEntry → NatEntry} (keeps : ∀ ne, (f ne).nid = ne.nid) (differ : nid ≠ n) :
    natAddr file (nm.modify nid f) n = natAddr file nm n := by
  rw [natAddrSlot,natAddrSlot,slotModify keeps,if_neg differ]

theorem modifyAddr {f : NatEntry → NatEntry} (keeps : ∀ ne, (f ne).nid = ne.nid) (here : nm.slot nid = some (true,ne)) :
    natAddr file (nm.modify nid f) nid = some (f ne).blockAddr := by
  rw [natAddrSlot,slotModify keeps,if_pos rfl,here]
  rfl

theorem KeepsUsed.trans {mid : NatInfo} (first : KeepsUsed nm mid) (second : KeepsUsed mid other) : KeepsUsed nm other := by
  intro n ne here
  obtain ⟨entry,there⟩ := first n ne here
  exact second n entry there

theorem natOkTaken (ok : NatOk known file nm) {taken : NatInfo} (ran : freeNatEmpty nm isMeta = some (taken,ne)) :
    NatOk (fun n => known n || decide (ne.nid = n)) file taken ∧ known ne.nid = false := by
  have free := (slotTake (n := ne.nid) ok.distinct ran).1
  have slot : ∀ n, taken.slot n = if ne.nid = n then some (true,ne) else nm.slot n :=
    fun n => (slotTake ok.distinct ran).2.2
  refine ⟨⟨distinctTake ok.distinct ran,fun n entry there => ?_,fun n member => ?_⟩,?_⟩
  · rw [slot] at there
    split at there
    · cases there
    · exact ok.unused n entry there
  · rw [slot]
    by_cases same : ne.nid = n
    · rw [if_pos same]
      exact .inl ⟨ne,rfl⟩
    · rw [if_neg same]
      rw [decide_eq_false same,Bool.or_false] at member
      exact ok.used n member
  · cases member : known ne.nid with
    | false => rfl
    | true =>
      rcases ok.used ne.nid member with ⟨_,here⟩ | ⟨none_,_⟩
      · rw [free] at here
        cases here
      · rw [free] at none_
        cases none_

theorem natOkTake (ok : NatOk known file nm) {isMeta : Bool} {taken : NatInfo}
    (ran : freeNatEmpty nm isMeta = some (taken,ne)) (use : NatUse) :
    NatOk (fun n => known n || decide (ne.nid = n)) file (taken.modify ne.nid use.mark) ∧ known ne.nid = false ∧
      natAddr file (taken.modify ne.nid use.mark) ne.nid = some 0 ∧ KeepsUsed nm (taken.modify ne.nid use.mark) ∧
      ∀ n, ne.nid ≠ n → natAddr file (taken.modify ne.nid use.mark) n = natAddr file nm n := by
  have free := (slotTake (n := ne.nid) ok.distinct ran).1
  have slot : ∀ n, taken.slot n = if ne.nid = n then some (true,ne) else nm.slot n :=
    fun n => (slotTake ok.distinct ran).2.2
  have zero : ne.blockAddr = 0 := ok.unused ne.nid ne free
  have markZero : ∀ entry : NatEntry, entry.blockAddr = 0 → (use.mark entry).blockAddr = 0 := by
    intro entry same
    cases use with
    | node ino => rfl
    | inode => exact same
  have here : taken.slot ne.nid = some (true,ne) := by rw [slot,if_pos rfl]
  obtain ⟨took,unknown⟩ := natOkTaken ok ran
  refine ⟨natOkModify use.markNid markZero took,unknown,?_,?_,fun n differ => ?_⟩
  · rw [modifyAddr use.markNid here,markZero ne zero]
  · refine KeepsUsed.trans (fun n entry there => ?_) (keepsUsedModify use.markNid)
    rw [slot]
    split
    · exact ⟨_,rfl⟩
    · exact ⟨_,there⟩
  · rw [modifyAddrOther use.markNid differ,natAddrSlot,natAddrSlot,slot,if_neg differ]

/- `flush_nat` copies an entry into its block and marks it clean. -/
theorem natOkFlush (ok : NatOk known file nm) (journal : List MetaNat) (found : nm.listed nid = some ne) :
    NatOk known (flushEntry ⟨nm,file,journal⟩ nid ne).file (flushEntry ⟨nm,file,journal⟩ nid ne).nm ∧
      KeepsUsed nm (flushEntry ⟨nm,file,journal⟩ nid ne).nm ∧
      ∀ n, natAddr (flushEntry ⟨nm,file,journal⟩ nid ne).file (flushEntry ⟨nm,file,journal⟩ nid ne).nm n = natAddr file nm n := by
  have here := slotListed.mpr found
  have keeps : ∀ ne : NatEntry, { ne with dirty := false }.nid = ne.nid := fun _ => rfl
  have other : ∀ n, nm.slot n = none → (file.write nid ⟨ne.ino,ne.blockAddr⟩).raw n = file.raw n := by
    intro n none_
    rw [rawWrite,if_neg]
    intro same
    rw [← same,here] at none_
    contradiction
  unfold flushEntry
  dsimp only
  have wrote : NatOk known (file.write nid ⟨ne.ino,ne.blockAddr⟩) nm := by
    refine ⟨ok.distinct,ok.unused,fun n member => ?_⟩
    rcases ok.used n member with used | ⟨none_,high,address⟩
    · exact .inl used
    · refine .inr ⟨none_,high,?_⟩
      rw [other n none_]
      exact address
  refine ⟨natOkModify keeps (fun _ same => same) wrote,keepsUsedModify keeps,fun n => ?_⟩
  by_cases same : nid = n
  · subst same
    rw [modifyAddr keeps here,addrUsed here]
  · rw [modifyAddrOther keeps same,natAddrSlot,natAddrSlot]
    cases absent : nm.slot n with
    | some pair => rfl
    | none => rw [other n absent]

theorem natOkInvalidate (ok : NatOk known file nm) (member : known nid = true) :
    NatOk known file (invalidateNat file nm nid).1 ∧ KeepsUsed nm (invalidateNat file nm nid).1 ∧
      natAddr file (invalidateNat file nm nid).1 nid = some 0 ∧
      ∀ n, nid ≠ n → natAddr file (invalidateNat file nm nid).1 n = natAddr file nm n := by
  obtain ⟨ne,here⟩ := usedLookup ok member
  have loads := @loadsLookup file nm nid
  have found : (lookupNat file nm nid).2 = some ne := by
    rw [lookupNatAfter,lookupSlot,here]
    rfl
  unfold invalidateNat
  generalize lookupNat file nm nid = looked at *
  obtain ⟨mid,entry⟩ := looked
  dsimp only at *
  subst found
  dsimp only
  refine ⟨natOkModify NatEntry.invalidatedNid (fun _ _ => rfl) (natOkLoads ok loads),
    (loadsUsed loads).trans (keepsUsedModify NatEntry.invalidatedNid),modifyAddr NatEntry.invalidatedNid here,fun n differ => ?_⟩
  rw [modifyAddrOther NatEntry.invalidatedNid differ,loadsAddr loads]

theorem readUnused (metaNat : List MetaNat) (here : (xcpfsReadNats metaNat).slot n = some (false,ne)) : ne.blockAddr = 0 := by
  have whole : ∀ (list : List MetaNat) (nm : NatInfo), (∀ ne, nm.slot n = some (false,ne) → ne.blockAddr = 0) →
      ∀ ne, (list.foldl readMetaNat nm).slot n = some (false,ne) → ne.blockAddr = 0 := by
    intro list
    induction list with
    | nil => exact fun _ zero => zero
    | cons m rest ih =>
      intro nm zero
      refine ih _ fun ne there => ?_
      unfold readMetaNat at there
      split at there
      · exact zero ne there
      · have inserted : ∀ ne, (insertNat nm m.nid m.ino m.blockAddr true true).1.slot n = some (false,ne) → ne.blockAddr = 0 := by
          intro ne there
          rw [slotInsert] at there
          split at there
          · have pair := Option.some.inj there
            have unused : decide (m.blockAddr ≠ 0) = false := congrArg Prod.fst pair
            have same : m.blockAddr = ne.blockAddr := congrArg (fun pair => pair.2.blockAddr) pair
            rw [← same]
            simpa using unused
          · exact zero ne there
        rw [slotUpdate] at there
        split at there
        · exact inserted ne there
        · split at there
          · cases there
          · exact inserted ne there
  exact whole metaNat ⟨[],[]⟩ (fun _ bad => by cases bad) ne here

theorem natOkMount (disk : NatDisk)
    (addressed : ∀ n, known n = true → ∃ a, natAddr disk.file (xcpfsReadNats disk.metaNat) n = some a ∧ a ≠ 0) :
    NatOk known disk.file (xcpfsReadNats disk.metaNat) where
  distinct := readDistinct disk.metaNat
  unused _ _ here := readUnused disk.metaNat here
  used n member := by
    obtain ⟨a,address,nonzero⟩ := addressed n member
    rw [natAddrSlot] at address
    cases here : (xcpfsReadNats disk.metaNat).slot n with
    | some pair =>
      obtain ⟨used,ne⟩ := pair
      rw [here] at address
      cases used with
      | true => exact .inl ⟨ne,rfl⟩
      | false => exact absurd ((Option.some.inj address).symm.trans (readUnused disk.metaNat here)) nonzero
    | none =>
      rw [here] at address
      dsimp only at address
      split at address
      · rename_i high
        refine .inr ⟨rfl,high,?_⟩
        rw [Option.some.inj address]
        exact nonzero
      · contradiction

end
end Xcpfs
