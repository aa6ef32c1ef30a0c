import Xcpfs.NatCache
import Xcpfs.Lib.EventRun

/-! Mount sessions of the NAT: what a session does to the cache, `do_checkpoint` with
its restarted passes, and the superblock's `meta_nat` that the next mount loads. Reading
a NAT block may itself allocate nodes for the meta file, so loads and allocations may
stand anywhere, also inside `flush_nat`. -/
namespace Xcpfs

/-- `xcpfs_nat_entry_sb`. -/
structure MetaNat where
  nid : Nat
  ino : Nat
  blockAddr : Nat
  deriving DecidableEq, Repr

/-- NAT blocks and the newest superblock. -/
structure NatDisk where
  file : NatFile
  metaNat : List MetaNat

/-- A mounted NAT with the superblock page its checkpoint fills. -/
structure NatMount where
  nm : NatInfo
  file : NatFile
  metaNat : List MetaNat

/-- One entry in the loop of `xcpfs_read_super`. The test behind `insert_nat` assigns,
so `update_nat` always follows. -/
def readMetaNat (nm : NatInfo) (ne : MetaNat) : NatInfo :=
  if ne.nid = 0 then nm
  else (updateNat (insertNat nm ne.nid ne.ino ne.blockAddr true true).1 ne.nid ne.blockAddr true).1

def xcpfsReadNats (metaNat : List MetaNat) : NatInfo := metaNat.foldl readMetaNat ⟨[],[]⟩

def mountNat (disk : NatDisk) : NatMount := ⟨xcpfsReadNats disk.metaNat,disk.file,[]⟩

/-- `cp_append_nat`: no result when the entry would lie behind the page. -/
def cpAppendNat (s : NatMount) (ne : NatEntry) : Option NatMount :=
  if s.metaNat.length < metaNatRoom then
    some { s with metaNat := s.metaNat ++ [⟨ne.nid,ne.ino,ne.blockAddr⟩] }
  else none

/-- `cp_append_nat(sb,lookup_nat(sb,nid))`. -/
def cpAppendLookup (s : NatMount) (nid : Nat) : Option NatMount :=
  match lookupNat s.file s.nm nid with
  | (nm,some ne) => cpAppendNat { s with nm := nm } ne
  | (_,none) => none

/-- Who asked for a nid: `get_dnode_page` for a node of an inode, `xcpfs_new_inode`. -/
inductive NatUse where | node (ino : Nat) | inode
  deriving DecidableEq, Repr

def NatUse.mark : NatUse → NatEntry → NatEntry
  | .node ino,ne => { ne with ino := ino, blockAddr := 0, dirty := true, pinned := false }
  | .inode,ne => { ne with ino := ne.nid }

inductive PrepEvent where
  | load (iblock : Nat)
  | alloc (isMeta : Bool) (use : NatUse)

def prepStep (s : NatMount) : PrepEvent → Option NatMount
  | .load iblock => some { s with nm := insertBlock s.nm (s.file iblock) iblock }
  | .alloc isMeta use => (freeNatEmpty s.nm isMeta).map fun (nm,ne) => { s with nm := nm.modify ne.nid use.mark }

/-- A node page is written: `submit_node_xio` looks the nid up, the completion updates it. -/
def writeNode (s : NatMount) (nid blkaddr : Nat) : NatMount :=
  { s with nm := (updateNat (lookupNat s.file s.nm nid).1 nid blkaddr false).1 }

inductive NatEvent where
  | prep (event : PrepEvent)
  | write (nid blkaddr : Nat)
  | invalidate (nid : Nat)

def natStep (s : NatMount) : NatEvent → Option NatMount
  | .prep event => prepStep s event
  | .write nid blkaddr => some (writeNode s nid blkaddr)
  | .invalidate nid => some { s with nm := (invalidateNat s.file s.nm nid).1 }

/-- Events of checkpoint phase 2, where a written node is also appended to the superblock. -/
inductive CpEvent where
  | prep (event : PrepEvent)
  | write (nid blkaddr : Nat)

def cpStep (s : NatMount) : CpEvent → Option NatMount
  | .prep event => prepStep s event
  | .write nid blkaddr => cpAppendLookup (writeNode s nid blkaddr) nid

def flushEntry (s : NatMount) (nid : Nat) (ne : NatEntry) : NatMount :=
  { s with file := s.file.write nid ⟨ne.ino,ne.blockAddr⟩, nm := s.nm.modify nid fun ne => { ne with dirty := false } }

/-- The loop of `flush_nat` over the entries in use when it started; `nested` is what
preparing the NAT block of a nid does to the cache before the entry is copied. -/
def flushNats (nested : Nat → List PrepEvent) : List Nat → NatMount → Option NatMount
  | [],s => some s
  | nid :: rest,s =>
    match s.nm.listed nid with
    | none => flushNats nested rest s
    | some ne =>
      if ne.dirty then
        (EventRun.exec prepStep s (nested nid)).bind fun s =>
          match s.nm.listed nid with
          | none => flushNats nested rest s
          | some ne => flushNats nested rest (flushEntry s nid ne)
      else flushNats nested rest s

def flushNat (nested : Nat → List PrepEvent) (s : NatMount) : Option NatMount :=
  flushNats nested (s.nm.natList.map NatEntry.nid) s

structure Pass where
  phase1 : List NatEvent
  nested : Nat → List PrepEvent
  phase2 : List CpEvent

/-- A pass of `do_checkpoint` up to the end of `flush_nat`; a restarted pass begins with
an empty `meta_nat`. -/
def flushPass (s : NatMount) (pass : Pass) : Option NatMount :=
  (EventRun.exec natStep { s with metaNat := [] } pass.phase1).bind (flushNat pass.nested)

/-- The rest of the pass: phase 2 writes the metadata and its nodes, phase 3 appends the
two fixed inodes. -/
def finishPass (s : NatMount) (pass : Pass) : Option NatMount :=
  (EventRun.exec cpStep s pass.phase2).bind fun s =>
    (cpAppendLookup s metaIno).bind fun s => cpAppendLookup s rootIno

def runPass (s : NatMount) (pass : Pass) : Option NatMount := (flushPass s pass).bind fun s => finishPass s pass

structure Session where
  events : List NatEvent
  restarted : List Pass
  last : Pass

def flushSession (disk : NatDisk) (session : Session) : Option NatMount :=
  (EventRun.exec natStep (mountNat disk) session.events).bind fun s =>
    (EventRun.exec runPass s session.restarted).bind fun s => flushPass s session.last

/-- A session up to the return of `do_checkpoint`. -/
def runSession (disk : NatDisk) (session : Session) : Option NatMount :=
  (flushSession disk session).bind fun s => finishPass s session.last

/-- `flush_super_block` leaves the filled page as the newest superblock. -/
def sessionStep (disk : NatDisk) (session : Session) : Option NatDisk :=
  (runSession disk session).map fun s => ⟨s.file,s.metaNat⟩

/- `alloc_free_nat` as events: it loads NAT blocks until one of the kind asked for is free. -/
theorem allocIsLoads {file : NatFile} {isMeta : Bool} (use : NatUse) {rounds iblock : Nat} {before nm : NatInfo} {ne : NatEntry}
    (journal : List MetaNat) (ran : allocRounds file isMeta rounds iblock before = some (nm,ne)) :
    ∃ count, EventRun.exec prepStep ⟨before,file,journal⟩ ((List.range' iblock count).map .load ++ [.alloc isMeta use]) =
      some ⟨nm.modify ne.nid use.mark,file,journal⟩ := by
  have taken : ∀ (before : NatInfo) (iblock : Nat), freeNatEmpty before isMeta = some (nm,ne) →
      EventRun.exec prepStep ⟨before,file,journal⟩ ((List.range' iblock 0).map .load ++ [.alloc isMeta use]) =
        some ⟨nm.modify ne.nid use.mark,file,journal⟩ := by
    intro before iblock found
    simp only [List.range'_zero,List.map_nil,List.nil_append,EventRun.exec,prepStep,found,Option.map_some,Option.bind_some]
  induction rounds generalizing before iblock with
  | zero => exact ⟨0,taken before iblock ran⟩
  | succ rounds ih =>
    unfold allocRounds at ran
    cases found : freeNatEmpty before isMeta with
    | some pair =>
      rw [found] at ran
      cases ran
      exact ⟨0,taken before iblock found⟩
    | none =>
      rw [found] at ran
      obtain ⟨count,rest⟩ := ih ran
      refine ⟨count + 1,?_⟩
      rw [List.range'_succ,List.map_cons,List.cons_append]
      simp only [EventRun.exec,prepStep,Option.bind_some]
      exact rest

/-- The address `lookup_nat` answers. -/
def natAddr (file : NatFile) (nm : NatInfo) (nid : Nat) : Option Nat := (lookupNat file nm nid).2.map NatEntry.blockAddr

/- The state of one nid between two flushes. `D` says whether a dirty entry is in
order, `P` whether the entry may still be the one the mount loaded, with address `L`. -/
structure Kept (D P : Prop) (L nid : Nat) (s : NatMount) : Prop where
  distinct : s.nm.Distinct
  entry : ∀ used ne, s.nm.slot nid = some (used,ne) →
    (D ∧ used = true ∧ ne.dirty = true) ∨ (s.file.raw nid).blockAddr = ne.blockAddr ∨ (P ∧ used = true ∧ ne.blockAddr = L)
  zero : ∀ ne, s.nm.slot nid = some (false,ne) → ne.blockAddr = 0

section
variable {D P : Prop} {L nid : Nat} {s t : NatMount}

theorem Kept.weaken {D' P' : Prop} (kept : Kept D P L nid s) (dirty : D → D') (stale : P → P') : Kept D' P' L nid s where
  distinct := kept.distinct
  entry := fun used ne here => by
    rcases kept.entry used ne here with ⟨d,rest⟩ | synced | ⟨p,rest⟩
    · exact Or.inl ⟨dirty d,rest⟩
    · exact Or.inr (Or.inl synced)
    · exact Or.inr (Or.inr ⟨stale p,rest⟩)
  zero := kept.zero

theorem rawBlock (file : NatFile) : file.raw nid = file (nid / natEntryPerBlock) (nid % natEntryPerBlock) := rfl

theorem keptFresh {nm : NatInfo} (kept : Kept D P L nid s) (distinct : nm.Distinct)
    (slots : nm.slot nid = s.nm.slot nid ∨ nm.slot nid = some ((s.file.raw nid).slot nid)) :
    Kept D P L nid { s with nm := nm } := by
  rcases slots with same | fresh
  · exact ⟨distinct,fun used ne here => kept.entry used ne (same.symm.trans here),fun ne here => kept.zero ne (same.symm.trans here)⟩
  · refine ⟨distinct,fun used ne here => ?_,fun ne here => ?_⟩
    · have pair := Option.some.inj (fresh.symm.trans here)
      exact Or.inr (Or.inl (congrArg (fun pair => pair.2.blockAddr) pair))
    · have pair := Option.some.inj (fresh.symm.trans here)
      have unused : decide ((s.file.raw nid).blockAddr ≠ 0) = false := congrArg Prod.fst pair
      have same : (s.file.raw nid).blockAddr = ne.blockAddr := congrArg (fun pair => pair.2.blockAddr) pair
      rw [← same]
      simpa using unused

theorem keptLoad (kept : Kept D P L nid s) (iblock : Nat) :
    Kept D P L nid { s with nm := insertBlock s.nm (s.file iblock) iblock } := by
  refine keptFresh kept (distinctBlock kept.distinct ..) ?_
  rw [slotBlock]
  split
  · rename_i inside
    cases s.nm.slot nid with
    | some found => exact Or.inl rfl
    | none =>
      right
      rw [Option.none_or,rawBlock,inside.2]
  · exact Or.inl (Option.or_none ..)

theorem keptLookup (kept : Kept D P L nid s) (n : Nat) :
    Kept D P L nid { s with nm := (lookupNat s.file s.nm n).1 } := by
  unfold lookupNat
  cases s.nm.lookup n with
  | some ne => exact kept
  | none =>
    dsimp only
    exact keptLoad kept _

theorem NatUse.markNid (use : NatUse) (ne : NatEntry) : (use.mark ne).nid = ne.nid := by
  cases use <;> rfl

theorem keptAlloc (kept : Kept D P L nid s) {isMeta : Bool} {use : NatUse} {nm : NatInfo} {ne : NatEntry}
    (found : freeNatEmpty s.nm isMeta = some (nm,ne)) : Kept D P L nid { s with nm := nm.modify ne.nid use.mark } := by
  have distinct := @distinctModify _ ne.nid _ use.markNid (distinctTake kept.distinct found)
  obtain ⟨wasFree,_,moved⟩ := slotTake (n := nid) kept.distinct found
  by_cases here : ne.nid = nid
  · rw [here] at wasFree
    have zero := kept.zero ne wasFree
    have synced : (s.file.raw nid).blockAddr = 0 := by
      rcases kept.entry false ne wasFree with ⟨_,bad,_⟩ | synced | ⟨_,bad,_⟩
      · contradiction
      · exact synced.trans zero
      · contradiction
    have marked : (use.mark ne).blockAddr = 0 := by
      cases use with
      | node ino => rfl
      | inode => exact zero
    have now : (nm.modify ne.nid use.mark).slot nid = some (true,use.mark ne) := by
      rw [slotModify use.markNid,if_pos here,moved,if_pos here]
      rfl
    refine ⟨distinct,fun used found same => ?_,fun found same => ?_⟩
    · have pair := Option.some.inj (now.symm.trans same)
      exact Or.inr (Or.inl (synced.trans (marked.symm.trans (congrArg (fun pair => pair.2.blockAddr) pair))))
    · exact Bool.noConfusion (congrArg Prod.fst (Option.some.inj (now.symm.trans same)))
  · refine keptFresh kept distinct (Or.inl ?_)
    rw [slotModify use.markNid,if_neg here,moved,if_neg here]

theorem keptPrep (kept : Kept D P L nid s) {event : PrepEvent} (ran : prepStep s event = some t) : Kept D P L nid t := by
  cases event with
  | load iblock =>
    rw [← Option.some.inj ran]
    exact keptLoad kept iblock
  | alloc isMeta use =>
    obtain ⟨⟨nm,ne⟩,found,same⟩ := Option.map_eq_some_iff.mp ran
    cases same
    exact keptAlloc kept found

theorem Kept.narrow {D' P' : Prop} (kept : Kept D P L nid s)
    (dirty : D → D' ∨ ∀ ne, s.nm.slot nid = some (true,ne) → ne.dirty = false)
    (stale : P → P' ∨ ∀ ne, s.nm.slot nid = some (true,ne) → ne.blockAddr ≠ L) : Kept D' P' L nid s where
  distinct := kept.distinct
  entry := fun used ne here => by
    rcases kept.entry used ne here with ⟨d,rfl,old⟩ | synced | ⟨p,rfl,old⟩
    · rcases dirty d with still | clean
      · exact Or.inl ⟨still,rfl,old⟩
      · exact absurd old (by rw [clean ne here]; exact Bool.false_ne_true)
    · exact Or.inr (Or.inl synced)
    · rcases stale p with still | moved
      · exact Or.inr (Or.inr ⟨still,rfl,old⟩)
      · exact absurd old (moved ne here)
  zero := kept.zero

theorem keptDirty {nm : NatInfo} {ne : NatEntry} (distinct : nm.Distinct)
    (now : nm.slot nid = some (true,ne)) (dirty : ne.dirty = true) : Kept True False L nid { s with nm := nm } where
  distinct := distinct
  entry := fun used other here => by
    have pair := Option.some.inj (now.symm.trans here)
    cases pair
    exact Or.inl ⟨trivial,rfl,dirty⟩
  zero := fun other here => Bool.noConfusion (congrArg Prod.fst (Option.some.inj (now.symm.trans here)))

theorem keptUpdate (kept : Kept True P L nid s) (n blkaddr : Nat) :
    Kept True (P ∧ ¬ (n = nid ∧ blkaddr ≠ L)) L nid { s with nm := (updateNat s.nm n blkaddr false).1 } := by
  have distinct := @distinctUpdate _ n kept.distinct blkaddr false
  have slots := @slotUpdate s.nm n nid blkaddr false
  by_cases here : n = nid
  · subst here
    cases found : s.nm.listed n with
    | none =>
      rw [found] at slots
      refine (keptFresh (kept.narrow Or.inl fun p => Or.inr fun ne used => ?_) distinct (Or.inl slots))
      rw [slotListed.mp used] at found
      contradiction
    | some ne =>
      rw [found] at slots
      dsimp only at slots
      by_cases new : ne.blockAddr ≠ blkaddr
      · rw [if_pos ⟨rfl,new⟩] at slots
        exact (keptDirty distinct slots rfl).weaken id False.elim
      · rw [if_neg fun both => new both.2] at slots
        refine keptFresh (kept.narrow Or.inl fun p => ?_) distinct (Or.inl slots)
        by_cases loaded : blkaddr = L
        · exact Or.inl ⟨p,fun both => both.2 loaded⟩
        · refine Or.inr fun other used => ?_
          rw [slotListed.mp used] at found
          cases found
          rw [not_not.mp new]
          exact loaded
  · refine (keptFresh (kept.weaken id fun p => ⟨p,fun both => here both.1⟩) distinct (Or.inl ?_))
    rw [slots]
    split
    · rfl
    · rw [if_neg fun both => here both.1]

theorem keptWrite (kept : Kept True P L nid s) (n blkaddr : Nat) :
    Kept True (P ∧ ¬ (n = nid ∧ blkaddr ≠ L)) L nid (writeNode s n blkaddr) :=
  keptUpdate (keptLookup kept n) n blkaddr

theorem NatEntry.invalidatedNid (ne : NatEntry) : ne.invalidated.nid = ne.nid := rfl

theorem keptInvalidate (kept : Kept True P L nid s) (n : Nat) :
    Kept True (P ∧ n ≠ nid) L nid { s with nm := (invalidateNat s.file s.nm n).1 } := by
  have looked := keptLookup kept n
  have after := @lookupNatAfter s.nm n s.file
  unfold invalidateNat
  generalize lookupNat s.file s.nm n = found at *
  obtain ⟨nm,entry⟩ := found
  dsimp only at *
  by_cases here : n = nid
  · subst here
    cases entry with
    | none =>
      have absent := slotNone.mpr after.symm
      refine looked.narrow Or.inl fun p => Or.inr fun ne used => ?_
      exact absurd (absent.symm.trans used) (Option.some_ne_none _).symm
    | some ne =>
      dsimp only
      have distinct := @distinctModify _ n _ NatEntry.invalidatedNid looked.distinct
      have slots := @slotModify nm n n _ NatEntry.invalidatedNid
      rw [if_pos rfl] at slots
      cases old : nm.slot n with
      | none => rw [slotNone.mp old] at after; contradiction
      | some pair =>
        obtain ⟨used,entry⟩ := pair
        rw [old] at slots
        cases used with
        | true => exact (keptDirty distinct slots rfl).weaken id False.elim
        | false =>
          have synced : (s.file.raw n).blockAddr = entry.blockAddr := by
            rcases looked.entry false entry old with ⟨_,bad,_⟩ | synced | ⟨_,bad,_⟩
            · contradiction
            · exact synced
            · contradiction
          refine ⟨distinct,fun used other same => ?_,fun other same => ?_⟩
          · cases Option.some.inj (slots.symm.trans same)
            exact Or.inr (Or.inl (synced.trans (looked.zero entry old)))
          · cases Option.some.inj (slots.symm.trans same)
            rfl
  · have other : Kept True P L nid { s with nm := nm.modify n NatEntry.invalidated } := by
      refine keptFresh (s := ⟨nm,s.file,s.metaNat⟩) looked (distinctModify NatEntry.invalidatedNid looked.distinct) (Or.inl ?_)
      rw [slotModify NatEntry.invalidatedNid,if_neg here]
    cases entry with
    | none => exact looked.weaken id fun p => ⟨p,here⟩
    | some ne => exact other.weaken id fun p => ⟨p,here⟩

/- Whether an event leaves the loaded entry of a nid behind. -/
def NatEvent.touches (nid blkaddr : Nat) : NatEvent → Prop
  | .prep _ => False
  | .write n new => n = nid ∧ new ≠ blkaddr
  | .invalidate n => n = nid

def CpEvent.touches (nid blkaddr : Nat) : CpEvent → Prop
  | .prep _ => False
  | .write n new => n = nid ∧ new ≠ blkaddr

theorem keptStep (kept : Kept True P L nid s) {event : NatEvent} (ran : natStep s event = some t) :
    Kept True (P ∧ ¬ event.touches nid L) L nid t := by
  cases event with
  | prep event => exact (keptPrep kept ran).weaken id fun p => ⟨p,id⟩
  | write n blkaddr =>
    rw [← Option.some.inj ran]
    exact keptWrite kept n blkaddr
  | invalidate n =>
    rw [← Option.some.inj ran]
    exact keptInvalidate kept n

theorem appendKept {ne : NatEntry} (kept : Kept D P L nid s) (ran : cpAppendNat s ne = some t) : Kept D P L nid t := by
  unfold cpAppendNat at ran
  split at ran
  · rw [← Option.some.inj ran]
    exact ⟨kept.distinct,kept.entry,kept.zero⟩
  · contradiction

theorem appendLookupKept {n : Nat} (kept : Kept D P L nid s) (ran : cpAppendLookup s n = some t) : Kept D P L nid t := by
  have looked := keptLookup kept n
  unfold cpAppendLookup at ran
  split at ran
  · rename_i nm ne found
    rw [found] at looked
    exact appendKept looked ran
  · contradiction

theorem keptCpStep (kept : Kept True P L nid s) {event : CpEvent} (ran : cpStep s event = some t) :
    Kept True (P ∧ ¬ event.touches nid L) L nid t := by
  cases event with
  | prep event => exact (keptPrep kept ran).weaken id fun p => ⟨p,id⟩
  | write n blkaddr => exact appendLookupKept (keptWrite kept n blkaddr) ran

theorem keptRun {E : Type} {step : NatMount → E → Option NatMount} {touches : E → Prop} {events : List E}
    (one : ∀ (P : Prop) s event t, Kept True P L nid s → step s event = some t → Kept True (P ∧ ¬ touches event) L nid t)
    (kept : Kept True P L nid s) (ran : EventRun.exec step s events = some t) :
    Kept True (P ∧ ∀ event ∈ events, ¬ touches event) L nid t := by
  induction events generalizing s P with
  | nil =>
    cases ran
    exact kept.weaken id fun p => ⟨p,fun _ bad => absurd bad List.not_mem_nil⟩
  | cons event events ih =>
    obtain ⟨next,here,rest⟩ := Option.bind_eq_some_iff.mp ran
    refine (ih (one P s event next kept here) rest).weaken id ?_
    rintro ⟨⟨p,first⟩,later⟩
    exact ⟨p,List.forall_mem_cons.mpr ⟨first,later⟩⟩

end
end Xcpfs
