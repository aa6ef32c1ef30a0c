import Xcpfs.NatKnown
import Xcpfs.TruncateAccount
import Xcpfs.Xio

/-! Eviction of an inode (super.c) with the truncate it ends in, and the checkpoint after it.
`image` is here what a node page holds once it is read. No call on this path names the nid of
the inode itself, and its node page stays dirty, so that the checkpoint writes it once more. -/
namespace Xcpfs
open PointerForest

structure VfsInode where
  ino : Nat
  attrs : RawInode
  dirty : Bool

def IoState.nodes (s : IoState) : NodeStore := fun nid => (s.image nid).page

/- The node pages that are not cached are read; each read looks its nid up. -/
def IoState.readNodes (s : IoState) (nids : List Nat) : IoState :=
  { s with nat := { s.nat with nm := nids.foldl (fun nm nid => (lookupNat s.nat.file nm nid).1) s.nat.nm } }

def IoState.dropPages (s : IoState) (drop : PageKey → Bool) : IoState :=
  { s with flags := fun page => if drop page then .blank else s.flags page }

def xcpfsCommitWrite (s : IoState) (page : PageKey) : IoState :=
  s.setFlags page { s.flags page with uptodate := true, dirty := true, locked := false }

def truncateInodePagesFinal (s : IoState) (ino : Nat) : IoState := s.dropPages fun page => page.1 = ino

/-- Only clean pages that nobody holds are dropped. -/
def invalidateMappingPages (s : IoState) (within : PageKey → Bool) : IoState :=
  s.dropPages fun page =>
    within page && !(s.flags page).dirty && !(s.flags page).locked && !(s.flags page).writeback

def xcpfsUpdateInodePage (inode : VfsInode) (s : IoState) : IoState :=
  let image := s.image inode.ino
  xcpfsCommitWrite (s.setImage inode.ino { image with inode := image.inode.updated inode.attrs }) (nodeKey inode.ino)

/-- `sync_inode_metadata` without waiting: `xcpfs_write_inode` submits nothing. -/
def syncInodeMetadata (inode : VfsInode) (s : IoState) : IoState :=
  if inode.dirty then xcpfsUpdateInodePage inode s else s

/- The recursion commits a node page before the caller invalidates its nid. -/
def applyCall (s : IoState) : Call → IoState
  | .blkaddr addr => { s with zones := { s.zones with zm := invalidateBlkaddr s.zones.zm addr } }
  | .nat nid =>
    let s := xcpfsCommitWrite s (nodeKey nid)
    { s with nat := { s.nat with nm := (invalidateNat s.nat.file s.nat.nm nid).1 } }

/-- `xcpfs_truncate` of an inode with `i_size` 0; there is no partial block then. -/
def xcpfsTruncateWhole (ino : Nat) (s : IoState) : Option IoState :=
  (xcpfsTruncateBlocks ino 0 ⟨s.nodes,[]⟩).map fun t =>
    let s := t.calls.foldl applyCall s
    let s := { s with image := fun nid => { s.image nid with page := t.nodes nid } }
    invalidateMappingPages (xcpfsCommitWrite s (nodeKey ino)) fun page => page.1 = ino

def xcpfsEvictInode (inode : VfsInode) (reads : List Nat) (s : IoState) : Option IoState :=
  if inode.ino ≤ 2 then some (truncateInodePagesFinal s inode.ino)
  else
    let s := syncInodeMetadata inode (truncateInodePagesFinal (s.readNodes reads) inode.ino)
    if inode.attrs.iLinks ≠ 0 then some s
    else (xcpfsTruncateWhole inode.ino s).map fun s => invalidateMappingPages s fun page => page = nodeKey inode.ino

def IoState.natEntry (s : IoState) (nid : Nat) : Option NatEntry := (lookupNat s.nat.file s.nat.nm nid).2

/- Phase 1 of a checkpoint: an append gets a block that is not the one it replaces, and an inode
that is gone is no argument of `invalidate_nat` any more. -/
def evictedFits (ino : Nat) (s : NatMount) : NatEvent → Prop
  | .prep _ => True
  | .write n blkaddr => blkaddr ≠ 0 ∧ natAddr s.file s.nm n ≠ some blkaddr
  | .invalidate n => n ≠ ino

/- A pass of the next checkpoint; phase 1 writes the node page of the inode if it is dirty. -/
structure NextPass (ino : Nat) (s : IoState) (pass : Pass) : Prop where
  writes : (s.flags (nodeKey ino)).dirty = true → ∃ blkaddr, .write ino blkaddr ∈ pass.phase1
  first : EventRun.Guarded (evictedFits ino) natStep { s.nat with metaNat := [] } pass.phase1
  second : ∀ blkaddr, .write ino blkaddr ∈ pass.phase2 → blkaddr ≠ 0

/- Eviction leaves the entry of the nid free and to be flushed and its block without live data, and a
mount after the next checkpoint finds the nid free. -/
structure Released (ino : Nat) (s t : IoState) (u : NatMount) : Prop where
  free : ∃ ne, t.natEntry ino = some ne ∧ ne.blockAddr = 0 ∧ ne.dirty = true
  block : ∀ ne, s.natEntry ino = some ne → ne.blockAddr ≠ 0 →
    (t.zones.zm.zoneInfo (t.zones.zm.blk2zone ne.blockAddr)).validMap (ne.blockAddr % t.zones.zm.blocksPerZone) = false
  reusable : natAddr u.file (xcpfsReadNats u.metaNat) ino = some 0

/- A nid in use with an address, also in the superblock page. -/
structure Addressed (nid : Nat) (s : NatMount) : Prop where
  distinct : s.nm.Distinct
  entry : ∃ ne, s.nm.slot nid = some (true,ne) ∧ ne.blockAddr ≠ 0
  journal : ∀ m ∈ s.metaNat, m.nid = nid → m.blockAddr ≠ 0

section
variable {s t : IoState} {ino nid n : Nat} {file : NatFile} {nm other : NatInfo}

theorem loadsEntry (loads : Loads file nm other) : (lookupNat file other n).2 = (lookupNat file nm n).2 := by
  rw [lookupNatEntry,lookupNatEntry]
  rcases loads.slot n with same | ⟨none_,high,fresh⟩
  · rw [same]
  · rw [none_,fresh,if_pos high]
    rfl

theorem modifyEntryOther {f : NatEntry → NatEntry} (keeps : ∀ ne, (f ne).nid = ne.nid) (differ : nid ≠ n) :
    (lookupNat file (nm.modify nid f) n).2 = (lookupNat file nm n).2 := by
  rw [lookupNatEntry,lookupNatEntry,slotModify keeps,if_neg differ]

theorem invalidateEntryOther (differ : nid ≠ n) : (lookupNat file (invalidateNat file nm nid).1 n).2 = (lookupNat file nm n).2 := by
  have loads := @loadsLookup file nm nid
  unfold invalidateNat
  generalize lookupNat file nm nid = looked at *
  obtain ⟨mid,found⟩ := looked
  cases found with
  | none => exact loadsEntry loads
  | some ne =>
    dsimp only at *
    rw [modifyEntryOther NatEntry.invalidatedNid differ,loadsEntry loads]

theorem readNodesLoads (nids : List Nat) : Loads s.nat.file s.nat.nm (s.readNodes nids).nat.nm := by
  unfold IoState.readNodes
  dsimp only
  obtain ⟨nm,start⟩ : ∃ nm, nm = s.nat.nm := ⟨_,rfl⟩
  rw [← start]
  clear start
  induction nids generalizing nm with
  | nil => exact ⟨id,fun _ => .inl rfl⟩
  | cons nid rest ih => exact loadsTrans (loadsLookup nid) (ih _)

theorem readNodesEntry (nids : List Nat) : (s.readNodes nids).natEntry n = s.natEntry n :=
  @loadsEntry n s.nat.file s.nat.nm (s.readNodes nids).nat.nm (readNodesLoads nids)

theorem syncEntry (inode : VfsInode) : (syncInodeMetadata inode s).natEntry n = s.natEntry n := by
  unfold syncInodeMetadata
  split <;> rfl

theorem setImageNodes {image : NodeImage} (same : image.page = (s.image nid).page) : (s.setImage nid image).nodes = s.nodes := by
  funext n
  unfold IoState.nodes IoState.setImage
  dsimp only
  by_cases here : n = nid
  · rw [here,Function.update_self,same]
  · rw [Function.update_of_ne here]

theorem syncNodes (inode : VfsInode) : (syncInodeMetadata inode s).nodes = s.nodes := by
  unfold syncInodeMetadata
  split
  · exact setImageNodes rfl
  · rfl

theorem applyCallEntry {call : Call} (differ : call ≠ .nat n) : (applyCall s call).natEntry n = s.natEntry n := by
  cases call with
  | blkaddr addr => rfl
  | nat nid => exact invalidateEntryOther fun same => differ (congrArg Call.nat same)

theorem applyCallsEntry {calls : List Call} (differ : Call.nat n ∉ calls) : (calls.foldl applyCall s).natEntry n = s.natEntry n := by
  induction calls generalizing s with
  | nil => rfl
  | cons call rest ih =>
    rw [List.foldl_cons,ih (List.not_mem_of_not_mem_cons differ)]
    exact applyCallEntry fun same => differ (same ▸ List.mem_cons_self)

theorem wholeCalls (tree : Owned nodeShape {ino} (child s.nodes)) (regular : 3 ≤ ino) :
    ∃ t, xcpfsTruncateBlocks ino 0 ⟨s.nodes,[]⟩ = some t ∧ Call.nat ino ∉ t.calls := by
  obtain ⟨t,ran,done⟩ := truncateBlocks ⟨s.nodes,[]⟩ (inodeTree tree rfl) (.inode 0) id
  refine ⟨t,ran,fun called => ?_⟩
  rcases (natPlaces (cutBoundarySound (presentIn s.nodes ino) (.inode 0))).mp ((natTruncated rfl done).mp called) with
    ⟨q,place,gone,path⟩ | ⟨zero,_⟩
  · obtain ⟨_,same⟩ := tree ino rfl ino rfl [] q ino nodeShape.root place rfl path
    rw [← same] at gone
    exact gone.elim
  · omega

theorem truncateWholeEntry (tree : Owned nodeShape {ino} (child s.nodes)) (regular : 3 ≤ ino) :
    ∃ t, xcpfsTruncateWhole ino s = some t ∧ t.natEntry ino = s.natEntry ino := by
  obtain ⟨t,ran,uncalled⟩ := wholeCalls tree regular
  unfold xcpfsTruncateWhole
  rw [ran]
  exact ⟨_,rfl,applyCallsEntry uncalled⟩

theorem evictEntry {inode : VfsInode} (regular : 3 ≤ inode.ino) (unlinked : inode.attrs.iLinks = 0)
    (tree : Owned nodeShape {inode.ino} (child s.nodes)) (reads : List Nat) :
    ∃ t, xcpfsEvictInode inode reads s = some t ∧ t.natEntry inode.ino = s.natEntry inode.ino := by
  obtain ⟨u,start⟩ : ∃ u, u = syncInodeMetadata inode (truncateInodePagesFinal (s.readNodes reads) inode.ino) := ⟨_,rfl⟩
  have nodes : u.nodes = s.nodes := by
    rw [start,syncNodes]
    rfl
  have entry : u.natEntry inode.ino = s.natEntry inode.ino := by
    rw [start,syncEntry]
    exact readNodesEntry reads
  rw [← nodes] at tree
  obtain ⟨t,ran,same⟩ := truncateWholeEntry tree regular
  unfold xcpfsEvictInode
  rw [if_neg (by omega),← start]
  dsimp only
  rw [if_neg (not_not_intro unlinked),ran]
  exact ⟨_,rfl,same.trans entry⟩

theorem applyCallUsed (call : Call) : KeepsUsed s.nat.nm (applyCall s call).nat.nm := by
  cases call with
  | blkaddr addr => exact fun n ne here => ⟨ne,here⟩
  | nat nid =>
    have loads : Loads s.nat.file s.nat.nm (lookupNat s.nat.file s.nat.nm nid).1 := loadsLookup nid
    unfold applyCall invalidateNat
    dsimp only [xcpfsCommitWrite,IoState.setFlags]
    generalize lookupNat s.nat.file s.nat.nm nid = looked at *
    obtain ⟨nm,entry⟩ := looked
    cases entry with
    | none => exact loadsUsed loads
    | some ne => exact (loadsUsed loads).trans (keepsUsedModify NatEntry.invalidatedNid)

theorem applyCallsUsed (calls : List Call) : KeepsUsed s.nat.nm (calls.foldl applyCall s).nat.nm := by
  induction calls generalizing s with
  | nil => exact fun n ne here => ⟨ne,here⟩
  | cons call rest ih => exact (applyCallUsed call).trans ih

theorem applyCallDistinct (call : Call) (distinct : s.nat.nm.Distinct) : (applyCall s call).nat.nm.Distinct := by
  cases call with
  | blkaddr addr => exact distinct
  | nat nid =>
    have looked := (@loadsLookup s.nat.file s.nat.nm nid).distinct distinct
    unfold applyCall invalidateNat
    dsimp only [xcpfsCommitWrite,IoState.setFlags]
    generalize lookupNat s.nat.file s.nat.nm nid = found at *
    obtain ⟨nm,entry⟩ := found
    cases entry with
    | none => exact looked
    | some ne => exact distinctModify NatEntry.invalidatedNid looked

theorem applyCallsDistinct (calls : List Call) (distinct : s.nat.nm.Distinct) : (calls.foldl applyCall s).nat.nm.Distinct := by
  induction calls generalizing s with
  | nil => exact distinct
  | cons call rest ih => exact ih (applyCallDistinct call distinct)

theorem syncNat (inode : VfsInode) : (syncInodeMetadata inode s).nat = s.nat := by
  unfold syncInodeMetadata
  split
  · rfl
  · rfl

theorem evictUsed {inode : VfsInode} {reads : List Nat} (ran : xcpfsEvictInode inode reads s = some t) :
    KeepsUsed s.nat.nm t.nat.nm ∧ (s.nat.nm.Distinct → t.nat.nm.Distinct) := by
  unfold xcpfsEvictInode at ran
  split at ran
  · cases ran
    exact ⟨fun n ne here => ⟨ne,here⟩,id⟩
  · have loads := @readNodesLoads s reads
    have read : KeepsUsed s.nat.nm (syncInodeMetadata inode (truncateInodePagesFinal (s.readNodes reads) inode.ino)).nat.nm ∧
        (s.nat.nm.Distinct →
          (syncInodeMetadata inode (truncateInodePagesFinal (s.readNodes reads) inode.ino)).nat.nm.Distinct) := by
      rw [syncNat]
      exact ⟨loadsUsed loads,loads.distinct⟩
    dsimp only at ran
    split at ran
    · cases ran
      exact read
    · obtain ⟨u,whole,same⟩ := Option.map_eq_some_iff.mp ran
      cases same
      unfold xcpfsTruncateWhole at whole
      obtain ⟨cut,_,same⟩ := Option.map_eq_some_iff.mp whole
      rw [← same]
      exact ⟨read.1.trans (applyCallsUsed cut.calls),fun distinct => applyCallsDistinct cut.calls (read.2 distinct)⟩

theorem invalidateDirty {within : PageKey → Bool} {page : PageKey} (dirty : (s.flags page).dirty = true) :
    ((invalidateMappingPages s within).flags page).dirty = true := by
  unfold invalidateMappingPages IoState.dropPages
  dsimp only
  split
  · rename_i drops
    simp [dirty] at drops
  · exact dirty

theorem evictDirty {inode : VfsInode} {reads : List Nat} (regular : 3 ≤ inode.ino) (unlinked : inode.attrs.iLinks = 0)
    (ran : xcpfsEvictInode inode reads s = some t) : (t.flags (nodeKey inode.ino)).dirty = true := by
  unfold xcpfsEvictInode at ran
  rw [if_neg (by omega)] at ran
  dsimp only at ran
  rw [if_neg (not_not_intro unlinked)] at ran
  obtain ⟨u,whole,same⟩ := Option.map_eq_some_iff.mp ran
  obtain ⟨cut,_,same'⟩ := Option.map_eq_some_iff.mp whole
  rw [← same,← same']
  apply invalidateDirty
  apply invalidateDirty
  unfold xcpfsCommitWrite IoState.setFlags
  dsimp only
  rw [Function.update_self]

end

section
variable {s t : NatMount} {nid n : Nat}

theorem usedStep {event : NatEvent} {ne : NatEntry} (distinct : s.nm.Distinct) (here : s.nm.slot nid = some (true,ne))
    (fits : evictedFits nid s event) (ran : natStep s event = some t) : t.nm.Distinct ∧ t.metaNat = s.metaNat ∧
      ∃ after, t.nm.slot nid = some (true,after) ∧ (ne.blockAddr ≠ 0 → after.blockAddr ≠ 0) ∧
        ∀ blkaddr, event = .write nid blkaddr → after.dirty = true ∧ after.blockAddr = blkaddr := by
  cases event with
  | prep event =>
    obtain ⟨still,after,journal⟩ := prepKeepsUsed distinct ran here
    exact ⟨after,journal,ne,still,id,fun _ bad => NatEvent.noConfusion bad⟩
  | write m blkaddr =>
    have looked := (@loadsLookup s.file s.nm m).distinct distinct
    have still : (lookupNat s.file s.nm m).1.slot nid = some (true,ne) := lookupKeepsSlot s.file s.nm m here
    have slots := @slotUpdate (lookupNat s.file s.nm m).1 m nid blkaddr false
    rw [← Option.some.inj ran]
    refine ⟨distinctUpdate looked ..,rfl,?_⟩
    by_cases same : m = nid
    · subst same
      have old : ne.blockAddr ≠ blkaddr := by
        intro same
        refine fits.2 ?_
        rw [natAddrSlot,here,← same]
      rw [slotListed.mp still] at slots
      dsimp only at slots
      rw [if_pos ⟨rfl,old⟩] at slots
      refine ⟨_,slots,fun _ => fits.1,fun other written => ?_⟩
      cases written
      exact ⟨rfl,rfl⟩
    · have kept : (updateNat (lookupNat s.file s.nm m).1 m blkaddr false).1.slot nid = some (true,ne) := by
        rw [slots]
        split
        · exact still
        · rw [if_neg fun both => same both.1]
          exact still
      exact ⟨ne,kept,id,fun _ written => absurd (NatEvent.write.inj written).1 same⟩
  | invalidate m =>
    have looked := (@loadsLookup s.file s.nm m).distinct distinct
    have still : (lookupNat s.file s.nm m).1.slot nid = some (true,ne) := lookupKeepsSlot s.file s.nm m here
    rw [← Option.some.inj ran]
    dsimp only
    unfold invalidateNat
    generalize lookupNat s.file s.nm m = found at *
    obtain ⟨nm,entry⟩ := found
    cases entry with
    | none => exact ⟨looked,rfl,ne,still,id,fun _ bad => NatEvent.noConfusion bad⟩
    | some old =>
      refine ⟨distinctModify NatEntry.invalidatedNid looked,rfl,ne,?_,id,fun _ bad => NatEvent.noConfusion bad⟩
      dsimp only
      rw [slotModify NatEntry.invalidatedNid,if_neg fits]
      exact still

theorem addressedFirst {events : List NatEvent} (addressed : Addressed nid s) (kept : Kept True False 0 nid s)
    (guarded : EventRun.Guarded (evictedFits nid) natStep s events) (ran : EventRun.exec natStep s events = some t) :
    Addressed nid t ∧ Kept True False 0 nid t := by
  refine EventRun.invariant (fun s => Addressed nid s ∧ Kept True False 0 nid s) ?_ (EventRun.ofExec ran guarded) ⟨addressed,kept⟩
  intro s event next ⟨addressed,kept⟩ fits here
  obtain ⟨ne,slot,address⟩ := addressed.entry
  obtain ⟨distinct,journal,after,still,keeps,_⟩ := usedStep addressed.distinct slot fits here
  exact ⟨⟨distinct,⟨after,still,keeps address⟩,journal ▸ addressed.journal⟩,(keptStep kept here).weaken id And.left⟩

theorem firstWrites {events : List NatEvent} {blkaddr : Nat} (distinct : s.nm.Distinct) (used : ∃ ne, s.nm.slot nid = some (true,ne))
    (empty : s.metaNat = []) (guarded : EventRun.Guarded (evictedFits nid) natStep s events)
    (written : .write nid blkaddr ∈ events) (ran : EventRun.exec natStep s events = some t) :
    Addressed nid t ∧ Kept True False 0 nid t := by
  induction events generalizing s with
  | nil => cases written
  | cons event events ih =>
    obtain ⟨next,here,rest⟩ := Option.bind_eq_some_iff.mp ran
    obtain ⟨fits,later⟩ := guarded
    obtain ⟨ne,slot⟩ := used
    obtain ⟨distinctNext,journal,after,still,_,own⟩ := usedStep distinct slot fits here
    have emptyNext : next.metaNat = [] := journal.trans empty
    by_cases now : event = .write nid blkaddr
    · obtain ⟨dirty,address⟩ := own blkaddr now
      have nonzero : blkaddr ≠ 0 := by
        rw [now] at fits
        exact fits.1
      refine addressedFirst ⟨distinctNext,⟨after,still,?_⟩,?_⟩ ?_ (later next here) rest
      · rw [address]
        exact nonzero
      · intro m member
        rw [emptyNext] at member
        cases member
      · exact @keptDirty 0 nid next next.nm after distinctNext still dirty
    · exact ih distinctNext ⟨after,still⟩ emptyNext (later next here) ((List.mem_cons.mp written).resolve_left (Ne.symm now)) rest

theorem addressedEntry (addressed : Addressed nid s) (n : Nat) (ne : NatEntry) : Addressed nid (flushEntry s n ne) := by
  have keeps : ∀ ne : NatEntry, ({ ne with dirty := false } : NatEntry).nid = ne.nid := fun _ => rfl
  obtain ⟨old,slot,address⟩ := addressed.entry
  have slots := @slotModify s.nm n nid _ keeps
  refine ⟨distinctModify keeps addressed.distinct,?_,addressed.journal⟩
  by_cases same : n = nid
  · rw [if_pos same,slot] at slots
    exact ⟨_,slots,address⟩
  · rw [if_neg same,slot] at slots
    exact ⟨old,slots,address⟩

theorem addressedFlush {nested : Nat → List PrepEvent} (nids : List Nat) (addressed : Addressed nid s)
    (ran : flushNats nested nids s = some t) : Addressed nid t := by
  have prep : ∀ a event b, Addressed nid a → prepStep a event = some b → Addressed nid b := by
    intro a event b addressed here
    obtain ⟨ne,slot,address⟩ := addressed.entry
    obtain ⟨still,distinct,journal⟩ := prepKeepsUsed addressed.distinct here slot
    exact ⟨distinct,⟨ne,still,address⟩,journal ▸ addressed.journal⟩
  induction nids generalizing s with
  | nil =>
    cases ran
    exact addressed
  | cons m rest ih =>
    unfold flushNats at ran
    split at ran
    · exact ih addressed ran
    · split at ran
      · obtain ⟨next,prepared,ran⟩ := Option.bind_eq_some_iff.mp ran
        have ready := EventRun.execInvariant (Addressed nid) prep prepared addressed
        split at ran
        · exact ih ready ran
        · rename_i flushed found
          exact ih (addressedEntry ready m flushed) ran
      · exact ih addressed ran

theorem addressedAppend (addressed : Addressed nid s) (ran : cpAppendLookup s n = some t) : Addressed nid t ∧ t.file = s.file := by
  obtain ⟨used,ne,nm,file,slot,journal⟩ := appendLookup ran
  obtain ⟨old,here,address⟩ := addressed.entry
  have still : t.nm.slot nid = some (true,old) := by
    rw [nm]
    exact lookupKeepsSlot s.file s.nm n here
  refine ⟨⟨?_,⟨old,still,address⟩,fun m member named => ?_⟩,file⟩
  · rw [nm]
    exact (@loadsLookup s.file s.nm n).distinct addressed.distinct
  · rw [journal] at member
    obtain earlier | last := List.mem_append.mp member
    · exact addressed.journal m earlier named
    · rw [List.mem_singleton.mp last] at named ⊢
      have same : n = nid := named
      rw [← same] at still
      cases slot.symm.trans still
      exact address

theorem addressedSecond {event : CpEvent} (addressed : Addressed nid s) (nonzero : ∀ blkaddr, event = .write nid blkaddr → blkaddr ≠ 0)
    (ran : cpStep s event = some t) : Addressed nid t ∧ t.file = s.file := by
  cases event with
  | prep event =>
    obtain ⟨ne,slot,address⟩ := addressed.entry
    obtain ⟨still,distinct,journal⟩ := prepKeepsUsed addressed.distinct ran slot
    refine ⟨⟨distinct,⟨ne,still,address⟩,journal ▸ addressed.journal⟩,?_⟩
    cases event with
    | load iblock => rw [← Option.some.inj ran]
    | alloc isMeta use =>
      obtain ⟨_,_,same⟩ := Option.map_eq_some_iff.mp ran
      rw [← same]
  | write m blkaddr =>
    obtain ⟨ne,slot,address⟩ := addressed.entry
    have still : (lookupNat s.file s.nm m).1.slot nid = some (true,ne) := lookupKeepsSlot s.file s.nm m slot
    have slots := @slotUpdate (lookupNat s.file s.nm m).1 m nid blkaddr false
    have written : Addressed nid (writeNode s m blkaddr) := by
      refine ⟨distinctUpdate ((@loadsLookup s.file s.nm m).distinct addressed.distinct) ..,?_,addressed.journal⟩
      by_cases same : m = nid
      · subst same
        rw [slotListed.mp still] at slots
        dsimp only at slots
        split at slots
        · exact ⟨_,slots,nonzero blkaddr rfl⟩
        · exact ⟨ne,slots.trans still,address⟩
      · refine ⟨ne,?_,address⟩
        change (updateNat (lookupNat s.file s.nm m).1 m blkaddr false).1.slot nid = some (true,ne)
        rw [slots]
        split
        · exact still
        · rw [if_neg fun both => same both.1]
          exact still
    exact @addressedAppend (writeNode s m blkaddr) t nid m written ran

theorem readAddressed {metaNat : List MetaNat} (journal : ∀ m ∈ metaNat, m.nid = nid → m.blockAddr ≠ 0) :
    ∀ used ne, (xcpfsReadNats metaNat).slot nid = some (used,ne) → used = true ∧ ne.blockAddr ≠ 0 := by
  induction metaNat using List.reverseRecOn with
  | nil => exact fun _ _ bad => absurd bad (Option.some_ne_none _).symm
  | append_singleton init last ih =>
    have before := ih fun m member => journal m (List.mem_append_left _ member)
    have step : xcpfsReadNats (init ++ [last]) = readMetaNat (xcpfsReadNats init) last := by
      unfold xcpfsReadNats
      rw [List.foldl_append]
      rfl
    rw [step]
    by_cases here : last.nid = nid
    · have address := journal last (List.mem_append_right _ List.mem_cons_self) here
      by_cases named : last.nid = 0
      · unfold readMetaNat
        rw [if_pos named]
        exact before
      · obtain ⟨used,ne,slot,same,free⟩ := readMetaSelf (xcpfsReadNats init) last named
          (fun ne unused => Bool.noConfusion (before false ne (here ▸ unused)).1)
        rw [here] at slot
        intro used' ne' slot'
        cases slot.symm.trans slot'
        refine ⟨?_,same ▸ address⟩
        cases used with
        | true => rfl
        | false => exact absurd (free rfl) address
    · rw [readMetaOther _ _ here]
      exact before

theorem passAddresses {pass : Pass} {blkaddr : Nat} (high : 3 ≤ nid) (distinct : s.nm.Distinct)
    (used : ∃ ne, s.nm.slot nid = some (true,ne))
    (guarded : EventRun.Guarded (evictedFits nid) natStep { s with metaNat := [] } pass.phase1)
    (written : .write nid blkaddr ∈ pass.phase1) (second : ∀ blkaddr, .write nid blkaddr ∈ pass.phase2 → blkaddr ≠ 0)
    (ran : runPass s pass = some t) : natAddr t.file (xcpfsReadNats t.metaNat) nid ≠ some 0 := by
  obtain ⟨flushed,before,ran⟩ := Option.bind_eq_some_iff.mp ran
  obtain ⟨ready,first,flush⟩ := Option.bind_eq_some_iff.mp before
  obtain ⟨phase2,metadata,ran⟩ := Option.bind_eq_some_iff.mp ran
  obtain ⟨withMeta,metaNode,root⟩ := Option.bind_eq_some_iff.mp ran
  obtain ⟨addressed,kept⟩ := @firstWrites { s with metaNat := [] } ready nid pass.phase1 blkaddr distinct used rfl guarded written first
  have after := addressedFlush _ addressed flush
  have synced : (flushed.file.raw nid).blockAddr ≠ 0 := by
    obtain ⟨ne,slot,address⟩ := after.entry
    obtain ⟨bad,_⟩ | same | ⟨bad,_⟩ := (flushNatKept kept flush).entry true ne slot
    · exact bad.elim
    · rw [same]
      exact address
    · exact bad.elim
  have late : Addressed nid phase2 ∧ phase2.file = flushed.file := by
    have guarded : EventRun.Guarded (fun _ event => ∀ blkaddr, event = CpEvent.write nid blkaddr → blkaddr ≠ 0) cpStep flushed
        pass.phase2 := EventRun.guardedAll (fun event member _ blkaddr same => second blkaddr (Eq.subst same member)) flushed
    refine EventRun.invariant (fun s => Addressed nid s ∧ s.file = flushed.file) ?_ (EventRun.ofExec metadata guarded) ⟨after,rfl⟩
    intro s event next ⟨addressed,file⟩ nonzero here
    obtain ⟨still,same⟩ := addressedSecond addressed nonzero here
    exact ⟨still,same.trans file⟩
  obtain ⟨withMetaAddressed,fileMeta⟩ := addressedAppend late.1 metaNode
  obtain ⟨last,fileRoot⟩ := addressedAppend withMetaAddressed root
  rw [natAddrSlot]
  cases found : (xcpfsReadNats t.metaNat).slot nid with
  | some pair =>
    intro zero
    exact (readAddressed last.journal pair.1 pair.2 found).2 (Option.some.inj zero)
  | none =>
    dsimp only
    rw [if_pos high,fileRoot,fileMeta,late.2]
    exact fun zero => synced (Option.some.inj zero)

end

/- No inode whose nid is in use is released: its node page stays dirty, and the next checkpoint
gives the nid an address again. -/
theorem evictNeverReleases {s t : IoState} {u : NatMount} {inode : VfsInode} {reads : List Nat} {pass : Pass}
    (regular : 3 ≤ inode.ino) (unlinked : inode.attrs.iLinks = 0) (distinct : s.nat.nm.Distinct)
    (used : ∃ ne, s.nat.nm.slot inode.ino = some (true,ne)) (ran : xcpfsEvictInode inode reads s = some t)
    (next : NextPass inode.ino t pass) (checkpoint : runPass t.nat pass = some u) : ¬Released inode.ino s t u := by
  obtain ⟨keeps,still⟩ := evictUsed ran
  obtain ⟨ne,here⟩ := used
  obtain ⟨blkaddr,written⟩ := next.writes (evictDirty regular unlinked ran)
  exact fun released => passAddresses regular (still distinct) (keeps inode.ino ne here) next.first written next.second checkpoint
    released.reusable

/- An empty file whose inode page was written to block 21. -/
def emptyFile : IoState where
  zones := { zm := validateBlkaddr mkfsTable 21, cpSemLocked := false, cpcRestart := none }
  nat := ⟨⟨[⟨false,false,2730454,2730454,21⟩,⟨true,false,3,3,20⟩,⟨true,false,1,1,12⟩],[]⟩,fun _ _ => ⟨0,0⟩,[]⟩
  cpPhase := 0
  image := fun _ => .zero
  flags := fun page => if page = nodeKey 2730454 then ⟨true,false,false,false⟩ else .blank

def unlinkedFile : VfsInode := ⟨2730454,.zero,true⟩

/- The checkpoint after the eviction appends the node page of the file as block 22. -/
def evictPass : Pass := ⟨[.write 2730454 22],fun _ => [],[]⟩

theorem evictPassNext {t : IoState} (entry : natAddr t.nat.file t.nat.nm 2730454 = some 21) : NextPass 2730454 t evictPass := by
  refine ⟨fun _ => ⟨22,List.mem_cons_self⟩,⟨⟨by decide,?_⟩,fun _ _ => trivial⟩,fun _ member => absurd member List.not_mem_nil⟩
  change natAddr t.nat.file t.nat.nm 2730454 ≠ some 22
  rw [entry]
  decide

theorem emptyOwned (ino : Nat) : Owned nodeShape {ino} (child emptyFile.nodes) := ownedLeaf fun _ e => zeroChild e

theorem emptyEvicted : ∃ t u, xcpfsEvictInode unlinkedFile [] emptyFile = some t ∧ t.natEntry 2730454 = emptyFile.natEntry 2730454 ∧
    NextPass 2730454 t evictPass ∧ runPass t.nat evictPass = some u := by
  have runs : ((xcpfsEvictInode unlinkedFile [] emptyFile).any fun t => (runPass t.nat evictPass).isSome) = true := by decide +kernel
  obtain ⟨t,ran,checkpointed⟩ := (Option.any_eq_true _ _).mp runs
  obtain ⟨u,checkpoint⟩ := Option.isSome_iff_exists.mp checkpointed
  have regular : 3 ≤ unlinkedFile.ino := by decide
  obtain ⟨t',again,same⟩ := evictEntry regular rfl (emptyOwned _) []
  cases ran.symm.trans again
  have entry : natAddr t.nat.file t.nat.nm 2730454 = some 21 := congrArg (Option.map NatEntry.blockAddr) same
  exact ⟨t,u,ran,same,evictPassNext entry,checkpoint⟩

theorem evictNeverReleasesEmpty : ∃ t u, xcpfsEvictInode unlinkedFile [] emptyFile = some t ∧ runPass t.nat evictPass = some u ∧
    ¬Released 2730454 emptyFile t u := by
  have regular : 3 ≤ unlinkedFile.ino := by decide
  have distinct : emptyFile.nat.nm.Distinct := by
    unfold NatInfo.Distinct
    decide
  obtain ⟨t,u,ran,_,next,checkpoint⟩ := emptyEvicted
  exact ⟨t,u,ran,checkpoint,evictNeverReleases regular rfl distinct ⟨_,rfl⟩ ran next checkpoint⟩

/-- The entry of the file keeps its block. -/
theorem evictLeaksInode : ¬∀ (inode : VfsInode) (reads : List Nat) (s t : IoState) (pass : Pass) (u : NatMount), 3 ≤ inode.ino →
    inode.attrs.iLinks = 0 → xcpfsEvictInode inode reads s = some t → NextPass inode.ino t pass → runPass t.nat pass = some u →
      Released inode.ino s t u := by
  intro claim
  obtain ⟨t,u,ran,same,next,checkpoint⟩ := emptyEvicted
  obtain ⟨ne,entry,free,_⟩ := (claim unlinkedFile [] emptyFile t evictPass u (by decide) rfl ran next checkpoint).free
  have written : emptyFile.natEntry 2730454 = some ⟨false,false,2730454,2730454,21⟩ := by decide
  rw [← Option.some.inj ((same.trans written).symm.trans entry)] at free
  exact absurd free (by decide)

end Xcpfs
