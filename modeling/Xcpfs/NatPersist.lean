import Xcpfs.NatSession

/-! What a mount after a checkpoint finds: the entries `flush_nat` wrote, the ones phase 2
and 3 put into the superblock, and nothing of an entry that was only loaded from the
superblock before and left alone. -/
namespace Xcpfs

section
variable {D P : Prop} {L nid : Nat} {s t : NatMount}

theorem flushEntryKept (kept : Kept D P L nid s) {n : Nat} {ne : NatEntry} (found : s.nm.listed n = some ne) :
    Kept (D ∧ n ≠ nid) P L nid (flushEntry s n ne) := by
  have keeps : ∀ ne : NatEntry, ({ ne with dirty := false } : NatEntry).nid = ne.nid := fun _ => rfl
  have distinct := @distinctModify _ n _ keeps kept.distinct
  have slots := @slotModify s.nm n nid _ keeps
  have raws := @rawWrite n nid s.file ⟨ne.ino,ne.blockAddr⟩
  by_cases here : n = nid
  · subst here
    rw [if_pos rfl] at raws slots
    rw [slotListed.mpr found] at slots
    refine ⟨distinct,fun used other same => ?_,fun other same => ?_⟩
    · have pair := Option.some.inj (slots.symm.trans same)
      refine Or.inr (Or.inl ?_)
      exact (congrArg RawNat.blockAddr raws).trans (congrArg (fun pair => pair.2.blockAddr) pair)
    · exact Bool.noConfusion (congrArg Prod.fst (Option.some.inj (slots.symm.trans same)))
  · rw [if_neg here] at raws slots
    refine ⟨distinct,fun used other same => ?_,fun other same => kept.zero other (slots.symm.trans same)⟩
    have old := kept.entry used other (slots.symm.trans same)
    rw [← raws] at old
    exact old.imp_left fun dirty => ⟨⟨dirty.1,here⟩,dirty.2⟩

theorem flushNatsKept (nested : Nat → List PrepEvent) (nids : List Nat) (kept : Kept (nid ∈ nids) P L nid s)
    (ran : flushNats nested nids s = some t) : Kept False P L nid t := by
  induction nids generalizing s with
  | nil =>
    cases ran
    exact kept.weaken List.not_mem_nil id
  | cons n rest ih =>
    have skip : ∀ {s : NatMount}, Kept (nid ∈ n :: rest) P L nid s →
        (∀ ne, s.nm.slot n = some (true,ne) → ne.dirty = false) → Kept (nid ∈ rest) P L nid s := by
      intro s kept clean
      refine kept.narrow (fun member => ?_) Or.inl
      rcases List.mem_cons.mp member with same | later
      · subst same
        exact Or.inr clean
      · exact Or.inl later
    have unlisted : ∀ {s : NatMount}, s.nm.listed n = none → ∀ ne, s.nm.slot n = some (true,ne) → ne.dirty = false := by
      intro s absent ne used
      exact absurd (absent.symm.trans (slotListed.mp used)) (Option.some_ne_none _).symm
    unfold flushNats at ran
    split at ran
    · rename_i absent
      exact ih (skip kept (unlisted absent)) ran
    · rename_i ne found
      split at ran
      · obtain ⟨next,prepared,ran⟩ := Option.bind_eq_some_iff.mp ran
        have ready : Kept (nid ∈ n :: rest) P L nid next :=
          EventRun.execInvariant (Kept (nid ∈ n :: rest) P L nid) (fun _ _ _ kept ran => keptPrep kept ran) prepared kept
        split at ran
        · rename_i absent
          exact ih (skip ready (unlisted absent)) ran
        · rename_i ne found
          refine ih ((flushEntryKept ready found).weaken ?_ id) ran
          rintro ⟨member,other⟩
          exact (List.mem_cons.mp member).resolve_left (Ne.symm other)
      · rename_i clean
        refine ih (skip kept fun other used => ?_) ran
        cases found.symm.trans (slotListed.mp used)
        exact Bool.eq_false_iff.mpr clean

theorem flushNatKept {nested : Nat → List PrepEvent} (kept : Kept True P L nid s) (ran : flushNat nested s = some t) :
    Kept False P L nid t := by
  refine flushNatsKept nested _ (kept.narrow (fun _ => ?_) Or.inl) ran
  by_cases member : nid ∈ s.nm.natList.map NatEntry.nid
  · exact Or.inl member
  · refine Or.inr fun ne used => ?_
    have listed := List.mem_of_find?_eq_some (slotListed.mp used)
    have named : ne.nid = nid := slotNid used
    rw [← named] at member
    exact absurd (List.mem_map_of_mem listed) member

/- Whether a pass touches the loaded entry before or after its flush. -/
def Pass.touches (nid blkaddr : Nat) (pass : Pass) : Prop :=
  (∃ event ∈ pass.phase1, event.touches nid blkaddr) ∨ ∃ event ∈ pass.phase2, event.touches nid blkaddr

theorem keptFlush (kept : Kept True P L nid s) {pass : Pass} (ran : flushPass s pass = some t) :
    Kept False (P ∧ ∀ event ∈ pass.phase1, ¬ event.touches nid L) L nid t := by
  obtain ⟨u,first,flushed⟩ := Option.bind_eq_some_iff.mp ran
  have cleared : Kept True P L nid { s with metaNat := [] } := ⟨kept.distinct,kept.entry,kept.zero⟩
  exact flushNatKept (keptRun (fun _ _ _ _ kept ran => keptStep kept ran) cleared first) flushed

theorem keptPass (kept : Kept True P L nid s) {pass : Pass} (ran : runPass s pass = some t) :
    Kept True (P ∧ ¬ pass.touches nid L) L nid t := by
  obtain ⟨u,flushed,ran⟩ := Option.bind_eq_some_iff.mp ran
  obtain ⟨v,second,ran⟩ := Option.bind_eq_some_iff.mp ran
  obtain ⟨w,super,ran⟩ := Option.bind_eq_some_iff.mp ran
  have two := keptRun (fun _ _ _ _ kept ran => keptCpStep kept ran) ((keptFlush kept flushed).weaken False.elim id) second
  have three := appendLookupKept (appendLookupKept two super) ran
  refine three.weaken id ?_
  rintro ⟨⟨p,before⟩,after⟩
  refine ⟨p,?_⟩
  rintro (⟨event,member,touched⟩ | ⟨event,member,touched⟩)
  · exact before event member touched
  · exact after event member touched

/- The last entry of a `meta_nat` for a nid. -/
def lastMeta (metaNat : List MetaNat) (nid : Nat) : Option MetaNat := metaNat.reverse.find? fun m => m.nid = nid

/- What keeps loading in order: an entry without an address is not followed by another
of its nid, and only nids 1 and 3 can have one. -/
structure MetaOk (metaNat : List MetaNat) : Prop where
  ordered : metaNat.Pairwise fun m later => m.nid = later.nid → m.blockAddr ≠ 0
  used : ∀ m ∈ metaNat, m.nid ≠ metaIno → m.nid ≠ rootIno → m.blockAddr ≠ 0

theorem lastMetaAppend (metaNat : List MetaNat) (m : MetaNat) (n : Nat) :
    lastMeta (metaNat ++ [m]) n = if m.nid = n then some m else lastMeta metaNat n := by
  unfold lastMeta
  rw [List.reverse_append]
  by_cases same : m.nid = n
  · simp [same]
  · simp [same]

theorem lastMetaNone {metaNat : List MetaNat} {n : Nat} : lastMeta metaNat n = none ↔ ∀ m ∈ metaNat, m.nid ≠ n := by
  unfold lastMeta
  simp

theorem readMetaOther (nm : NatInfo) (m : MetaNat) {n : Nat} (other : m.nid ≠ n) : (readMetaNat nm m).slot n = nm.slot n := by
  unfold readMetaNat
  split
  · rfl
  · rw [slotUpdate]
    have kept : (insertNat nm m.nid m.ino m.blockAddr true true).1.slot n = nm.slot n := by
      rw [slotInsert,if_neg fun both => other both.1]
    split
    · exact kept
    · rw [if_neg fun both => other both.1]
      exact kept

/- Reading an entry leaves its address in the cache unless the nid is on the free list. -/
theorem readMetaSelf (nm : NatInfo) (m : MetaNat) (named : m.nid ≠ 0) (listed : ∀ ne, nm.slot m.nid ≠ some (false,ne)) :
    ∃ used ne, (readMetaNat nm m).slot m.nid = some (used,ne) ∧ ne.blockAddr = m.blockAddr ∧ (used = false → m.blockAddr = 0) := by
  unfold readMetaNat
  rw [if_neg named,slotUpdate]
  have inserted := @slotInsert nm m.nid m.nid m.ino m.blockAddr true true
  generalize (insertNat nm m.nid m.ino m.blockAddr true true).1 = next at *
  cases old : nm.slot m.nid with
  | none =>
    rw [if_pos ⟨rfl,old⟩] at inserted
    cases found : next.listed m.nid with
    | none => exact ⟨_,_,inserted,rfl,fun unused => by simpa using unused⟩
    | some ne =>
      have pair := Option.some.inj ((slotListed.mpr found).symm.trans inserted)
      have same : ne.blockAddr = m.blockAddr := congrArg (fun pair => pair.2.blockAddr) pair
      dsimp only
      rw [if_neg fun both => both.2 same]
      exact ⟨_,_,inserted,rfl,fun unused => by simpa using unused⟩
  | some pair =>
    obtain ⟨used,ne⟩ := pair
    cases used with
    | false => exact absurd old (listed ne)
    | true =>
      rw [if_neg fun both => Option.some_ne_none _ (old.symm.trans both.2),old] at inserted
      rw [slotListed.mp inserted]
      dsimp only
      by_cases new : ne.blockAddr ≠ m.blockAddr
      · rw [if_pos ⟨rfl,new⟩]
        exact ⟨_,_,rfl,rfl,fun bad => Bool.noConfusion bad⟩
      · rw [if_neg fun both => new both.2]
        exact ⟨_,_,inserted,not_not.mp new,fun bad => Bool.noConfusion bad⟩

theorem readSlot {metaNat : List MetaNat} (ok : MetaOk metaNat) {n : Nat} (named : n ≠ 0) :
    (lastMeta metaNat n = none → (xcpfsReadNats metaNat).slot n = none) ∧
    ∀ m, lastMeta metaNat n = some m → m ∈ metaNat ∧ m.nid = n ∧
      ∃ used ne, (xcpfsReadNats metaNat).slot n = some (used,ne) ∧ ne.blockAddr = m.blockAddr ∧ (used = false → m.blockAddr = 0) := by
  induction metaNat using List.reverseRecOn with
  | nil => exact ⟨fun _ => rfl,fun m bad => absurd bad (Option.some_ne_none m).symm⟩
  | append_singleton init last ih =>
    obtain ⟨ordered,_,before⟩ := List.pairwise_append.mp ok.ordered
    obtain ⟨absent,present⟩ := ih ⟨ordered,fun m member => ok.used m (List.mem_append_left _ member)⟩
    have step : xcpfsReadNats (init ++ [last]) = readMetaNat (xcpfsReadNats init) last := by
      unfold xcpfsReadNats
      rw [List.foldl_append]
      rfl
    rw [step,lastMetaAppend]
    by_cases here : last.nid = n
    · subst here
      rw [if_pos rfl]
      refine ⟨fun bad => absurd bad (Option.some_ne_none last),fun m same => ?_⟩
      cases same
      refine ⟨List.mem_append_right _ List.mem_cons_self,rfl,readMetaSelf _ _ named fun ne unused => ?_⟩
      cases found : lastMeta init last.nid with
      | none =>
        rw [absent found] at unused
        contradiction
      | some m =>
        obtain ⟨member,same,used,entry,slot,_,zero⟩ := present m found
        cases Option.some.inj (slot.symm.trans unused)
        exact before m member last List.mem_cons_self same (zero rfl)
    · rw [if_neg here,readMetaOther _ _ here]
      exact ⟨absent,fun m found => (present m found).imp_left (List.mem_append_left _)⟩

theorem readDistinct (metaNat : List MetaNat) : (xcpfsReadNats metaNat).Distinct := by
  unfold xcpfsReadNats
  have whole : ∀ (list : List MetaNat) (nm : NatInfo), nm.Distinct → (list.foldl readMetaNat nm).Distinct := by
    intro list
    induction list with
    | nil => exact fun _ distinct => distinct
    | cons m rest ih =>
      intro nm distinct
      refine ih _ ?_
      unfold readMetaNat
      split
      · exact distinct
      · exact distinctUpdate (distinctInsert distinct ..) ..
  exact whole metaNat _ List.nodup_nil

/- What `cp_append_nat(sb,lookup_nat(sb,nid))` does. -/
theorem appendLookup {n : Nat} (ran : cpAppendLookup s n = some t) :
    ∃ used ne, t.nm = (lookupNat s.file s.nm n).1 ∧ t.file = s.file ∧ t.nm.slot n = some (used,ne) ∧
      t.metaNat = s.metaNat ++ [⟨n,ne.ino,ne.blockAddr⟩] := by
  have after := @lookupNatAfter s.nm n s.file
  unfold cpAppendLookup at ran
  generalize lookupNat s.file s.nm n = found at *
  obtain ⟨nm,entry⟩ := found
  dsimp only at *
  split at ran
  · rename_i nm' ne same
    cases same
    rw [lookupSlot] at after
    obtain ⟨⟨used,entry⟩,slot,same⟩ := Option.map_eq_some_iff.mp after.symm
    cases same
    unfold cpAppendNat at ran
    split at ran
    · rw [← Option.some.inj ran]
      have named := slotNid slot
      subst named
      exact ⟨used,entry,rfl,rfl,slot,rfl⟩
    · contradiction
  · contradiction

theorem lookupKeepsSlot (file : NatFile) (nm : NatInfo) (n : Nat) {m : Nat} {pair : Bool × NatEntry} (here : nm.slot m = some pair) :
    (lookupNat file nm n).1.slot m = some pair := by
  rw [lookupNatSlot]
  split
  · rw [here]
    rfl
  · exact here

theorem cpWrite {n blkaddr : Nat} {ne : NatEntry} (found : s.nm.listed n = some ne)
    (ran : cpStep s (.write n blkaddr) = some t) :
    t.nm = (updateNat s.nm n blkaddr false).1 ∧ t.file = s.file ∧ (∃ ne, t.nm.slot n = some (true,ne) ∧ ne.blockAddr = blkaddr) ∧
      ∃ ino, t.metaNat = s.metaNat ++ [⟨n,ino,blkaddr⟩] := by
  have cached : lookupNat s.file s.nm n = (s.nm,some ne) := by
    have hit : s.nm.lookup n = some ne := by
      unfold NatInfo.lookup
      rw [found]
      rfl
    unfold lookupNat
    rw [hit]
  have written : writeNode s n blkaddr = { s with nm := (updateNat s.nm n blkaddr false).1 } := by
    unfold writeNode
    rw [cached]
  have slots := @slotUpdate s.nm n n blkaddr false
  rw [found] at slots
  dsimp only at slots
  have now : ∃ ne, (updateNat s.nm n blkaddr false).1.slot n = some (true,ne) ∧ ne.blockAddr = blkaddr := by
    by_cases new : ne.blockAddr ≠ blkaddr
    · rw [if_pos ⟨rfl,new⟩] at slots
      exact ⟨_,slots,rfl⟩
    · rw [if_neg fun both => new both.2,slotListed.mpr found] at slots
      exact ⟨ne,slots,not_not.mp new⟩
  obtain ⟨entry,slot,address⟩ := now
  have ran : cpAppendLookup (writeNode s n blkaddr) n = some t := ran
  rw [written] at ran
  obtain ⟨used,other,nm,file,here,journal⟩ := appendLookup ran
  have same : (lookupNat s.file (updateNat s.nm n blkaddr false).1 n).1 = (updateNat s.nm n blkaddr false).1 := by
    have hit : (updateNat s.nm n blkaddr false).1.lookup n = some entry := by
      rw [lookupSlot,slot]
      rfl
    unfold lookupNat
    rw [hit]
  have table := nm.trans same
  rw [table] at here
  cases Option.some.inj (here.symm.trans slot)
  exact ⟨table,file,⟨entry,by rw [table]; exact slot,address⟩,entry.ino,by rw [journal,address]⟩

/- A phase-2 write happens to an allocated node and gives it an address. -/
def cpGuard (s : NatMount) : CpEvent → Prop
  | .prep _ => True
  | .write n blkaddr => blkaddr ≠ 0 ∧ ∃ ne, s.nm.listed n = some ne

/- The state of one nid in the last phase 2: journaled with the address it has, or as
the flush left it. -/
def Settled (P : Prop) (L nid : Nat) (s : NatMount) : Prop :=
  s.nm.Distinct ∧
  ((∃ m ne, lastMeta s.metaNat nid = some m ∧ s.nm.slot nid = some (true,ne) ∧ ne.blockAddr = m.blockAddr) ∨
    (lastMeta s.metaNat nid = none ∧ Kept False P L nid s))

theorem prepKeepsUsed (distinct : s.nm.Distinct) {event : PrepEvent} (ran : prepStep s event = some t) {ne : NatEntry}
    (here : s.nm.slot nid = some (true,ne)) : t.nm.slot nid = some (true,ne) ∧ t.nm.Distinct ∧ t.metaNat = s.metaNat := by
  cases event with
  | load iblock =>
    rw [← Option.some.inj ran]
    dsimp only
    rw [slotBlock,here]
    exact ⟨rfl,distinctBlock distinct ..,rfl⟩
  | alloc isMeta use =>
    obtain ⟨⟨nm,taken⟩,found,same⟩ := Option.map_eq_some_iff.mp ran
    cases same
    obtain ⟨wasFree,_,moved⟩ := slotTake (n := nid) distinct found
    have other : taken.nid ≠ nid := fun same => by
      rw [same,here] at wasFree
      cases Option.some.inj wasFree
    refine ⟨?_,distinctModify use.markNid (distinctTake distinct found),rfl⟩
    dsimp only
    rw [slotModify use.markNid,if_neg other,moved,if_neg other,here]

theorem prepMeta {event : PrepEvent} (ran : prepStep s event = some t) : t.metaNat = s.metaNat := by
  cases event with
  | load iblock => rw [← Option.some.inj ran]
  | alloc isMeta use =>
    obtain ⟨⟨nm,taken⟩,found,same⟩ := Option.map_eq_some_iff.mp ran
    cases same
    rfl

theorem settledStep (settled : Settled P L nid s) {event : CpEvent} (guard : cpGuard s event) (ran : cpStep s event = some t) :
    Settled P L nid t := by
  obtain ⟨distinct,state⟩ := settled
  cases event with
  | prep event =>
    rcases state with ⟨m,ne,last,here,address⟩ | ⟨none_,kept⟩
    · obtain ⟨still,after,same⟩ := prepKeepsUsed distinct ran here
      exact ⟨after,Or.inl ⟨m,ne,by rw [same]; exact last,still,address⟩⟩
    · have after := keptPrep kept ran
      exact ⟨after.distinct,Or.inr ⟨by rw [prepMeta ran]; exact none_,after⟩⟩
  | write n blkaddr =>
    obtain ⟨_,ne,found⟩ := guard
    obtain ⟨table,file,⟨entry,slot,address⟩,ino,journal⟩ := cpWrite found ran
    have after : t.nm.Distinct := by
      rw [table]
      exact distinctUpdate distinct ..
    have last := lastMetaAppend s.metaNat ⟨n,ino,blkaddr⟩ nid
    rw [← journal] at last
    by_cases here : n = nid
    · subst here
      exact ⟨after,Or.inl ⟨_,entry,last.trans (if_pos rfl),slot,address⟩⟩
    · have same : t.nm.slot nid = s.nm.slot nid := by
        rw [table,slotUpdate,found]
        exact if_neg fun both => here both.1
      have journaled : lastMeta t.metaNat nid = lastMeta s.metaNat nid := last.trans (if_neg here)
      rcases state with ⟨m,other,was,old,kept⟩ | ⟨none_,kept⟩
      · exact ⟨after,Or.inl ⟨m,other,journaled.trans was,same.trans old,kept⟩⟩
      · have moved := keptFresh kept after (Or.inl same)
        refine ⟨after,Or.inr ⟨journaled.trans none_,after,?_,moved.zero⟩⟩
        rw [file]
        exact moved.entry

theorem cpJournal {event : CpEvent} (guard : cpGuard s event) (ran : cpStep s event = some t) :
    ∃ more, t.metaNat = s.metaNat ++ more ∧ (∀ m ∈ more, m.blockAddr ≠ 0) ∧
      ∀ n blkaddr, event = .write n blkaddr → lastMeta t.metaNat n ≠ none := by
  cases event with
  | prep event => exact ⟨[],by rw [prepMeta ran,List.append_nil],fun _ bad => absurd bad List.not_mem_nil,fun _ _ bad => CpEvent.noConfusion bad⟩
  | write n blkaddr =>
    obtain ⟨used,ne,found⟩ := guard
    obtain ⟨_,_,_,ino,journal⟩ := cpWrite found ran
    refine ⟨_,journal,fun m member => ?_,fun other new same => ?_⟩
    · rw [List.mem_singleton.mp member]
      exact used
    · cases same
      rw [journal,lastMetaAppend,if_pos rfl]
      exact Option.some_ne_none _

theorem phase2Journal {events : List CpEvent} (run : EventRun.Run cpGuard cpStep s events t) :
    ∃ more, t.metaNat = s.metaNat ++ more ∧ (∀ m ∈ more, m.blockAddr ≠ 0) ∧
      ∀ n blkaddr, .write n blkaddr ∈ events → lastMeta t.metaNat n ≠ none := by
  induction run with
  | nil s => exact ⟨[],by rw [List.append_nil],fun _ bad => absurd bad List.not_mem_nil,fun _ _ bad => absurd bad List.not_mem_nil⟩
  | @cons s next last event events guard here rest ih =>
    obtain ⟨one,first,used,written⟩ := cpJournal guard here
    obtain ⟨more,whole,later,found⟩ := ih
    refine ⟨one ++ more,by rw [whole,first,List.append_assoc],?_,?_⟩
    · exact fun m member => (List.mem_append.mp member).elim (used m) (later m)
    · intro n blkaddr member none_
      rcases List.mem_cons.mp member with same | inside
      · have here := written n blkaddr same.symm
        refine here (lastMetaNone.mpr fun m old => lastMetaNone.mp none_ m ?_)
        rw [whole]
        exact List.mem_append_left _ old
      · exact found n blkaddr inside none_

/- A nid that the next mount finds as the cache had it. -/
def Found (nid : Nat) (s : NatMount) : Prop :=
  (∃ m used ne, lastMeta s.metaNat nid = some m ∧ s.nm.slot nid = some (used,ne) ∧ ne.blockAddr = m.blockAddr) ∨
  (lastMeta s.metaNat nid = none ∧ 3 ≤ nid ∧ ∀ used ne, s.nm.slot nid = some (used,ne) → (s.file.raw nid).blockAddr = ne.blockAddr)

theorem natAddrSlot (file : NatFile) (nm : NatInfo) (nid : Nat) :
    natAddr file nm nid = match nm.slot nid with
      | some (_,ne) => some ne.blockAddr
      | none => if 3 ≤ nid then some (file.raw nid).blockAddr else none := by
  unfold natAddr
  rw [lookupNatEntry]
  cases nm.slot nid with
  | some pair => rfl
  | none =>
    dsimp only
    split <;> rfl

theorem foundAddr (ok : MetaOk s.metaNat) (named : nid ≠ 0) (found : Found nid s) :
    natAddr s.file (xcpfsReadNats s.metaNat) nid = natAddr s.file s.nm nid := by
  obtain ⟨absent,present⟩ := readSlot ok named
  rw [natAddrSlot,natAddrSlot]
  rcases found with ⟨m,used,ne,last,here,address⟩ | ⟨none_,high,synced⟩
  · obtain ⟨_,_,_,loaded,slot,same,_⟩ := present m last
    rw [slot,here]
    exact congrArg some (same.trans address.symm)
  · rw [absent none_]
    cases here : s.nm.slot nid with
    | none => rfl
    | some pair =>
      dsimp only
      rw [if_pos high,synced pair.1 pair.2 here]

theorem foundAppended {n : Nat} (ran : cpAppendLookup s n = some t) : Found n t := by
  obtain ⟨used,ne,_,_,here,journal⟩ := appendLookup ran
  refine Or.inl ⟨⟨n,ne.ino,ne.blockAddr⟩,used,ne,?_,here,rfl⟩
  rw [journal,lastMetaAppend,if_pos rfl]

theorem foundKept {n : Nat} (other : n ≠ nid) (found : Found nid s) (ran : cpAppendLookup s n = some t) : Found nid t := by
  obtain ⟨_,ne,table,file,_,journal⟩ := appendLookup ran
  have last : lastMeta t.metaNat nid = lastMeta s.metaNat nid := by
    rw [journal,lastMetaAppend,if_neg other]
  rcases found with ⟨m,used,old,was,here,address⟩ | ⟨none_,high,synced⟩
  · exact Or.inl ⟨m,used,old,last.trans was,by rw [table]; exact lookupKeepsSlot _ _ _ here,address⟩
  · refine Or.inr ⟨last.trans none_,high,fun used entry slot => ?_⟩
    rw [file]
    rw [table,lookupNatSlot] at slot
    split at slot
    · cases old : s.nm.slot nid with
      | some pair =>
        rw [old] at slot
        cases slot
        exact synced used entry old
      | none =>
        rw [old,Option.none_or] at slot
        split at slot
        · exact congrArg (fun pair => pair.2.blockAddr) (Option.some.inj slot)
        · contradiction
    · exact synced used entry slot

end

/- What a session has to do for the entries its mount took from the superblock. -/
def Session.touches (nid blkaddr : Nat) (session : Session) : Prop :=
  (∃ event ∈ session.events, event.touches nid blkaddr) ∨ (∃ pass ∈ session.restarted, pass.touches nid blkaddr) ∨
    (∃ event ∈ session.last.phase1, event.touches nid blkaddr) ∨ ∃ new, .write nid new ∈ session.last.phase2

structure SessionGuard (disk : NatDisk) (session : Session) : Prop where
  loaded : ∀ ne ∈ (xcpfsReadNats disk.metaNat).natList, ne.dirty = false → ne.nid ≠ metaIno → ne.nid ≠ rootIno →
    (disk.file.raw ne.nid).blockAddr = ne.blockAddr ∨ session.touches ne.nid ne.blockAddr
  written : ∀ s, flushSession disk session = some s → EventRun.Guarded cpGuard cpStep s session.last.phase2

/- The entries a mount loads and that no flush would write by itself. -/
def Stale (disk : NatDisk) (nid : Nat) (ne : NatEntry) : Prop :=
  (xcpfsReadNats disk.metaNat).slot nid = some (true,ne) ∧ ne.dirty = false ∧ (disk.file.raw nid).blockAddr ≠ ne.blockAddr

section
variable {disk : NatDisk} {session : Session} {s t : NatMount} {nid : Nat}

theorem mountKept (ok : MetaOk disk.metaNat) (named : nid ≠ 0) (notMeta : nid ≠ metaIno) (notRoot : nid ≠ rootIno) :
    ∃ L, Kept True (∃ ne, Stale disk nid ne ∧ ne.blockAddr = L) L nid (mountNat disk) := by
  obtain ⟨absent,present⟩ := readSlot ok named
  cases last : lastMeta disk.metaNat nid with
  | none =>
    refine ⟨0,readDistinct _,fun used ne here => ?_,fun ne here => ?_⟩
    · exact absurd ((absent last).symm.trans here) (Option.some_ne_none _).symm
    · exact absurd ((absent last).symm.trans here) (Option.some_ne_none _).symm
  | some m =>
    obtain ⟨member,same,used,ne,slot,address,zero⟩ := present m last
    have address_ := ok.used m member (same ▸ notMeta) (same ▸ notRoot)
    have inUse : used = true := by
      cases used with
      | true => rfl
      | false => exact absurd (zero rfl) address_
    subst inUse
    refine ⟨ne.blockAddr,readDistinct _,fun used other here => ?_,fun other here => ?_⟩
    · cases Option.some.inj (slot.symm.trans here)
      cases dirty : ne.dirty with
      | true => exact Or.inl ⟨trivial,rfl,rfl⟩
      | false =>
        by_cases synced : (disk.file.raw nid).blockAddr = ne.blockAddr
        · exact Or.inr (Or.inl synced)
        · exact Or.inr (Or.inr ⟨⟨ne,⟨slot,dirty,synced⟩,rfl⟩,rfl,rfl⟩)
    · exact Bool.noConfusion (congrArg Prod.fst (Option.some.inj (slot.symm.trans here)))

/- After the last flush only what phase 2 will write may still be as it was loaded. -/
theorem flushedKept (ok : MetaOk disk.metaNat) (guard : SessionGuard disk session) (named : nid ≠ 0) (notMeta : nid ≠ metaIno)
    (notRoot : nid ≠ rootIno) (ran : flushSession disk session = some s) :
    ∃ L, Kept False (∃ new, .write nid new ∈ session.last.phase2) L nid s := by
  obtain ⟨L,mounted⟩ := mountKept ok named notMeta notRoot
  obtain ⟨u,first,ran⟩ := Option.bind_eq_some_iff.mp ran
  obtain ⟨v,restarted,ran⟩ := Option.bind_eq_some_iff.mp ran
  have one := keptRun (fun _ _ _ _ kept ran => keptStep kept ran) mounted first
  have two := keptRun (fun _ _ _ _ kept ran => keptPass kept ran) one restarted
  refine ⟨L,(keptFlush two ran).weaken id ?_⟩
  rintro ⟨⟨⟨⟨ne,⟨slot,clean,unsynced⟩,rfl⟩,noEvent⟩,noPass⟩,noPhase1⟩
  have same := slotNid slot
  subst same
  have listed := List.mem_of_find?_eq_some (slotListed.mp slot)
  rcases (guard.loaded ne listed clean notMeta notRoot).resolve_left unsynced with
    ⟨event,member,touched⟩ | ⟨pass,member,touched⟩ | ⟨event,member,touched⟩ | written
  · exact absurd touched (noEvent event member)
  · exact absurd touched (noPass pass member)
  · exact absurd touched (noPhase1 event member)
  · exact written

theorem flushPassJournal {pass : Pass} (ran : flushPass s pass = some t) : t.metaNat = [] := by
  obtain ⟨u,first,flushed⟩ := Option.bind_eq_some_iff.mp ran
  have prep : ∀ a event b, a.metaNat = [] → prepStep a event = some b → b.metaNat = [] :=
    fun a event b empty ran => (prepMeta ran).trans empty
  have phase1 : u.metaNat = [] := by
    refine EventRun.execInvariant (fun s => s.metaNat = []) (fun a event b empty ran => ?_) first rfl
    cases event with
    | prep event => exact prep a event b empty ran
    | write n blkaddr => rw [← Option.some.inj ran]; exact empty
    | invalidate n => rw [← Option.some.inj ran]; exact empty
  have loop : ∀ nids a b, a.metaNat = [] → flushNats pass.nested nids a = some b → b.metaNat = [] := by
    intro nids
    induction nids with
    | nil => exact fun a b empty ran => Option.some.inj ran ▸ empty
    | cons n rest ih =>
      intro a b empty ran
      unfold flushNats at ran
      split at ran
      · exact ih a b empty ran
      · split at ran
        · obtain ⟨c,prepared,ran⟩ := Option.bind_eq_some_iff.mp ran
          have still := EventRun.execInvariant (fun s => s.metaNat = []) (fun a event b => prep a event b) prepared empty
          split at ran
          · refine ih _ b ?_ ran
            exact still
          · refine ih _ b ?_ ran
            exact still
        · exact ih a b empty ran
  exact loop _ u t phase1 flushed

theorem sessionKeeps (ok : MetaOk disk.metaNat) (guard : SessionGuard disk session) (ran : runSession disk session = some s) :
    MetaOk s.metaNat ∧ ∀ nid, nid = 1 ∨ 3 ≤ nid → Found nid s := by
  obtain ⟨u,flushed,finish⟩ := Option.bind_eq_some_iff.mp ran
  obtain ⟨v,phase2,ran⟩ := Option.bind_eq_some_iff.mp finish
  obtain ⟨w,super,root⟩ := Option.bind_eq_some_iff.mp ran
  have run := EventRun.ofExec phase2 (guard.written u flushed)
  have empty : u.metaNat = [] := by
    obtain ⟨a,_,rest⟩ := Option.bind_eq_some_iff.mp flushed
    obtain ⟨b,_,last⟩ := Option.bind_eq_some_iff.mp rest
    exact flushPassJournal last
  obtain ⟨more,journal,used,written⟩ := phase2Journal run
  rw [empty,List.nil_append] at journal
  constructor
  · obtain ⟨_,one,_,_,_,afterMeta⟩ := appendLookup super
    obtain ⟨_,three,_,_,_,afterRoot⟩ := appendLookup root
    rw [afterRoot,afterMeta,journal,List.append_assoc]
    refine ⟨List.pairwise_append.mpr ⟨?_,?_,fun m early later _ _ => used m early⟩,fun m member notMeta notRoot => ?_⟩
    · exact List.Pairwise.imp_of_mem (fun early _ _ _ => used _ early) (List.pairwise_of_forall fun _ _ => trivial)
    · refine List.pairwise_cons.mpr ⟨fun later member same => ?_,List.pairwise_singleton _ _⟩
      rw [List.mem_singleton.mp member] at same
      exact absurd same (by decide : metaIno ≠ rootIno)
    · rcases List.mem_append.mp member with early | late
      · exact used m early
      · rcases List.mem_cons.mp late with same | same
        · exact absurd (congrArg MetaNat.nid same) notMeta
        · exact absurd (congrArg MetaNat.nid (List.mem_singleton.mp same)) notRoot
  · intro nid known
    by_cases isMeta : nid = metaIno
    · subst isMeta
      exact foundKept (by decide) (foundAppended super) root
    · by_cases isRoot : nid = rootIno
      · subst isRoot
        exact foundAppended root
      · have high : 3 ≤ nid := known.resolve_left isMeta
        obtain ⟨L,kept⟩ := flushedKept ok guard (by omega) isMeta isRoot flushed
        have start : Settled (∃ new, .write nid new ∈ session.last.phase2) L nid u :=
          ⟨kept.distinct,Or.inr ⟨by rw [empty]; rfl,kept⟩⟩
        obtain ⟨_,state⟩ := EventRun.invariant _ (fun s event next settled guard here => settledStep settled guard here) run start
        refine foundKept (Ne.symm isRoot) (foundKept (Ne.symm isMeta) ?_ super) root
        rcases state with ⟨m,ne,last,here,address⟩ | ⟨none_,kept⟩
        · exact Or.inl ⟨m,true,ne,last,here,address⟩
        · refine Or.inr ⟨none_,high,fun used ne here => ?_⟩
          rcases kept.entry used ne here with ⟨bad,_⟩ | synced | ⟨⟨new,member⟩,_⟩
          · exact bad.elim
          · exact synced
          · exact absurd none_ (written nid new member)

/-- Through every sequence of guarded sessions, a mount after the last one answers for
nid 1 and every nid from 3 on what the cache held when the checkpoint returned. -/
theorem natPersists {first : NatDisk} {sessions : List Session} (made : MetaOk first.metaNat)
    (run : EventRun.Run SessionGuard sessionStep first sessions disk) (guard : SessionGuard disk session)
    (ran : runSession disk session = some s) (known : nid = 1 ∨ 3 ≤ nid) :
    natAddr s.file (xcpfsReadNats s.metaNat) nid = natAddr s.file s.nm nid := by
  have ok : MetaOk disk.metaNat := by
    refine EventRun.invariant (fun disk => MetaOk disk.metaNat) (fun d session next ok guard here => ?_) run made
    obtain ⟨s,ran,same⟩ := Option.map_eq_some_iff.mp here
    cases same
    exact (sessionKeeps ok guard ran).1
  obtain ⟨after,found⟩ := sessionKeeps ok guard ran
  exact foundAddr after (by omega) (found nid known)

end
/- The disk after a session that gave the meta file node 454: its address stands in the
superblock only, the NAT block still has the zero of the flush before. -/
def grownDisk : NatDisk := ⟨fun _ _ => ⟨0,0⟩,[⟨454,1,100⟩,⟨1,1,51⟩,⟨3,3,50⟩]⟩

def quietPass : Pass := ⟨[],fun _ => [],[]⟩

def quietSession : Session := ⟨[],[],quietPass⟩

def rewriteSession : Session := ⟨[.write 454 200],[],quietPass⟩

theorem grownOk : MetaOk grownDisk.metaNat where
  ordered := by decide
  used := by decide

def rewrittenDisk : NatDisk := (sessionStep grownDisk rewriteSession).getD grownDisk

def quietMount : NatMount := (runSession rewrittenDisk quietSession).getD (mountNat grownDisk)

/-- A session that rewrites the node, then one that leaves it alone. -/
theorem natPersistsRewritten :
    natAddr quietMount.file (xcpfsReadNats quietMount.metaNat) 454 = natAddr quietMount.file quietMount.nm 454 := by
  have first : SessionGuard grownDisk rewriteSession :=
    ⟨fun ne listed _ notMeta notRoot => by
      have only : ne.nid = 454 ∧ ne.blockAddr = 100 ∨ ne.nid = 1 ∨ ne.nid = 3 := by
        revert ne
        decide
      obtain ⟨named,address⟩ := only.resolve_right fun fixed => fixed.elim notMeta notRoot
      rw [named,address]
      exact Or.inr (Or.inl ⟨_,List.mem_cons_self,rfl,by decide⟩),fun _ _ => trivial⟩
  have second : SessionGuard rewrittenDisk quietSession :=
    ⟨fun ne listed _ notMeta notRoot => by
      have only : ne.nid = 1 ∨ ne.nid = 3 := by
        revert ne
        decide
      exact (only.elim notMeta notRoot).elim,fun _ _ => trivial⟩
  have run : EventRun.Run SessionGuard sessionStep grownDisk [rewriteSession] rewrittenDisk := EventRun.single first rfl
  exact natPersists grownOk run second rfl (Or.inr (by decide))

/-- A session that leaves the node alone loses it. -/
theorem natForgets : ¬ ∀ (disk : NatDisk) (session : Session) (s : NatMount) (nid : Nat), MetaOk disk.metaNat →
    runSession disk session = some s → nid = 1 ∨ 3 ≤ nid →
    natAddr s.file (xcpfsReadNats s.metaNat) nid = natAddr s.file s.nm nid := by
  intro claim
  have kept := claim grownDisk quietSession _ 454 grownOk rfl (Or.inr (by decide))
  rw [natAddrSlot,natAddrSlot] at kept
  exact absurd kept (by decide)

end Xcpfs
