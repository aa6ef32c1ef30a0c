import Xcpfs.MetaRuns
import Xcpfs.NewNodes
import Xcpfs.TruncateAccount

/-! Who holds the nids of the nodes, over the runs of a mount. Nothing takes a nid that is in use,
and a truncate takes the pointers to the nids that it gives back out of the tree, but for the
one at its cut: `xcpfs_recurse` clears the word behind its loop instead. -/
namespace Xcpfs
open PointerForest EventRun

/- `freed` are the nids that `invalidate_nat` got since the mount. -/
structure OwnRun where
  mount : MountState
  freed : Nat → Bool

/- A truncate comes with its calls, and an eviction with its truncate. -/
inductive OwnEvent where
  | step (event : MountEvent)
  | truncate (fuel ino freeFrom : Nat)
  | evict (fuel ino nlink : Nat)

namespace OwnRun

def applyCall (fuel : Nat) (s : OwnRun) : Call → Option OwnRun
  | .blkaddr _ => some s
  | .nat nid => (Fs.invalidateNat fuel nid s.mount.fs).map fun fs => ⟨s.mount.setFs fs,Function.update s.freed nid true⟩

def applyCalls (fuel : Nat) : List Call → OwnRun → Option OwnRun
  | [],s => some s
  | call :: calls,s => (s.applyCall fuel call).bind (applyCalls fuel calls)

def truncate (fuel ino freeFrom : Nat) (s : OwnRun) : Option OwnRun :=
  (s.mount.fs.truncate ino freeFrom).bind fun (fs,calls) => applyCalls fuel calls { s with mount := s.mount.setFs fs }

def leave (ino : Nat) (s : OwnRun) : OwnRun :=
  { s with mount := { s.mount with inodes := Function.update s.mount.inodes ino false } }

end OwnRun

def MountEvent.releases : MountEvent → Bool
  | .truncate .. => true
  | .evict _ => true
  | .invalidateNat .. => true
  | _ => false

def MountEvent.remounts : MountEvent → Bool
  | .remount .. => true
  | _ => false

def ownStep (s : OwnRun) : OwnEvent → Option OwnRun
  | .step event =>
    if event.releases then none else (mountStep s.mount event).map fun mount => ⟨mount,fun n => s.freed n && !event.remounts⟩
  | .truncate fuel ino freeFrom => if s.mount.inodes ino then s.truncate fuel ino freeFrom else none
  | .evict fuel ino nlink =>
    if s.mount.inodes ino then
      if ino ≤ 2 ∨ nlink ≠ 0 then some s else (s.truncate fuel ino 0).map (OwnRun.leave ino)
    else none

/- When the code takes these steps. -/
def ownFits (s : OwnRun) : OwnEvent → Prop
  | .step event => mountFits s.mount event
  | .truncate fuel ino _ => natFuel ≤ fuel ∧ ino ≠ metaIno
  | .evict fuel _ _ => natFuel ≤ fuel

def ownRestored (s : OwnRun) : OwnEvent → Prop
  | .step event => Restored s.mount event
  | _ => True

def ownTakes (s : OwnRun) (event : OwnEvent) : Prop := ownFits s event ∧ ownRestored s event

/-- Where the cut hands a pointer of a node of pointers to `invalidate_nat`, that node goes too or
the pointer is null. -/
def CutsClean (nodes : NodeStore) (ino : Nat) (cut : TreePath) : Prop :=
  ∀ i < 5, ∀ a, cut.boundaryAt (presentIn nodes ino) i = some a → ¬dropsTop (cut.topCut (presentIn nodes ino) i) →
    follow (child nodes) ino [.nid i,.slot a] = none

def ownClean (s : OwnRun) : OwnEvent → Prop
  | .truncate _ ino freeFrom => ∀ cut : TreePath, cut.index = freeFrom → CutsClean s.mount.fs.content ino cut
  | _ => True

/- The nid is stored in `i_nid` of a live inode, or in a node of pointers below one. -/
def NidSlot (s : MountState) (n : Nat) (e : Edge) (nid : Nat) : Prop :=
  ∃ ino p, s.inodes ino = true ∧ NodePlace (p ++ [e]) ∧ follow (child s.fs.content) ino p = some n ∧
    child s.fs.content n e = some nid

/-- Every nid in the trees is in one slot, and is neither free nor given back. -/
structure SingleOwner (s : OwnRun) : Prop where
  single : ∀ n m e f nid, NidSlot s.mount n e nid → NidSlot s.mount m f nid → n = m ∧ e = f
  used : ∀ n e nid, NidSlot s.mount n e nid → s.mount.fs.nat.nm.free nid = none ∧ s.freed nid = false
  unshared : ∀ isMeta fuel rounds iblock fs ne,
    Fs.allocFreeNat (Fs.readRawNatBlock fuel) isMeta rounds iblock s.mount.fs = some (fs,ne) → ∀ n e, ¬NidSlot s.mount n e ne.nid

def freshOwn (rootAddr metaAddr dot dotdot : Nat) : OwnRun := ⟨freshMount rootAddr metaAddr dot dotdot,fun _ => false⟩

/- The entry is in `nat_list`, or not cached and with an address in its block. -/
def Fs.inUse (s : Fs) (n : Nat) : Bool :=
  (s.nat.nm.listed n).isSome || (s.nat.nm.lookup n).isNone && decide (3 ≤ n) && decide ((s.nat.file.raw n).blockAddr ≠ 0)

def MountState.Reaches (s : MountState) (n : Nat) : Prop := Reached nodeShape {n | s.inodes n = true} (child s.fs.content) n

/- No nid in use comes into the trees. -/
def StaysOut (s t : MountState) : Prop := ∀ n, s.fs.inUse n = true → ¬s.Reaches n → t.fs.inUse n = true ∧ ¬t.Reaches n

structure OwnInv (s : OwnRun) : Prop where
  mount : MountInv s.mount
  freed : ∀ n, n ≠ 0 → s.freed n = true → s.mount.fs.inUse n = true ∧ ¬s.mount.Reaches n

section
variable {inodes : Set Nat} {known now : Nat → Bool} {s t u : Fs} {n nid fuel : Nat}

theorem inUseIff : s.inUse n = true ↔ (∃ ne, s.nat.nm.slot n = some (true,ne)) ∨
    s.nat.nm.slot n = none ∧ 3 ≤ n ∧ (s.nat.file.raw n).blockAddr ≠ 0 := by
  unfold Fs.inUse
  rw [Bool.or_eq_true,Bool.and_eq_true,Bool.and_eq_true,Option.isSome_iff_exists,Option.isNone_iff_eq_none,slotNone]
  simp only [slotListed,decide_eq_true_eq,and_assoc]

theorem knownUse (ok : FsOk inodes known s) (member : known n = true) : s.inUse n = true :=
  inUseIff.mpr (ok.nat.used n member)

theorem useOk (ok : FsOk inodes known s) : FsOk inodes s.inUse s := by
  refine ⟨⟨ok.nat.distinct,ok.nat.unused,fun n member => inUseIff.mp member⟩,ok.named,fun n below => knownUse ok (ok.reached n below),
    ok.owned,fun n unused => ok.fresh n ?_⟩
  cases member : known n with
  | false => rfl
  | true => exact (knownUse ok member).symm.trans unused

theorem useNew (ok : FsOk inodes now t) (more : ∀ n, s.inUse n = true → now n = true) (used : s.inUse n = true) : t.inUse n = true :=
  knownUse ok (more n used)

end

section
variable {s t u : MountState} {n m nid : Nat} {e f : Edge} {now : Nat → Bool}

theorem outTrans (first : StaysOut s t) (second : StaysOut t u) : StaysOut s u := by
  intro n used out
  obtain ⟨usedT,outT⟩ := first n used out
  exact second n usedT outT

theorem outSame (nat : t.fs.nat = s.fs.nat) (fewer : ∀ n, t.Reaches n → s.Reaches n) : StaysOut s t := by
  intro n used out
  refine ⟨?_,fun reached => out (fewer n reached)⟩
  unfold Fs.inUse
  rw [nat]
  exact used

theorem outNew {inodes : Set Nat} (ok : FsOk inodes now t.fs) (more : ∀ n, s.fs.inUse n = true → now n = true)
    (new : ∀ n, t.Reaches n → s.Reaches n ∨ s.fs.inUse n = false) : StaysOut s t := by
  intro n used out
  refine ⟨useNew ok more used,fun reached => ?_⟩
  rcases new n reached with old | unused
  · exact out old
  · rw [used] at unused
    contradiction

theorem slotPath (slot : NidSlot s n e nid) :
    ∃ ino p, s.inodes ino = true ∧ NodePlace (p ++ [e]) ∧ follow (child s.fs.content) ino p = some n ∧
      follow (child s.fs.content) ino (p ++ [e]) = some nid := by
  obtain ⟨ino,p,inside,place,path,edge⟩ := slot
  refine ⟨ino,p,inside,place,path,?_⟩
  rw [followConcat,path]
  exact edge

theorem slotReaches (slot : NidSlot s n e nid) : s.Reaches nid := by
  obtain ⟨ino,p,inside,place,_,path⟩ := slotPath slot
  exact ⟨ino,inside,p ++ [e],place,path⟩

theorem slotPositive (slot : NidSlot s n e nid) : nid ≠ 0 := by
  obtain ⟨_,_,_,_,_,edge⟩ := slot
  unfold child at edge
  rw [childCell] at edge
  exact (ptrSome.mp edge).1 ▸ (ptrSome.mp edge).2

theorem slotOnce {known : Nat → Bool} (ok : FsOk {n | s.inodes n = true} known s.fs) (first : NidSlot s n e nid)
    (second : NidSlot s m f nid) : n = m ∧ e = f := by
  obtain ⟨ino,p,inside,place,here,path⟩ := slotPath first
  obtain ⟨other,q,outside,placeQ,there,pathQ⟩ := slotPath second
  obtain ⟨rfl,same⟩ := ok.owned ino inside other outside (p ++ [e]) (q ++ [f]) nid place placeQ path pathQ
  obtain ⟨rfl,edge⟩ := List.append_inj' same rfl
  cases here.symm.trans there
  exact ⟨rfl,List.singleton_injective edge⟩

end

/- The steps of a mount other than truncates, evictions and remounts. -/
section
variable {s : MountState} {fs : Fs} {nid ino iblock blkaddr fuel rounds : Nat}

theorem nodePageOut (inv : MountInv s) (reached : s.Reaches nid) (ran : Fs.getNodePage (Fs.readRawNatBlock fuel) nid s.fs = some fs) :
    StaysOut s (s.setFs fs) := by
  obtain ⟨known,ok⟩ := inv.ok
  have whole := useOk ok
  have loading := @rawBlockLoading {n | s.inodes n = true} inv.metaIn fuel
  obtain ⟨⟨now,more,okT,_⟩,_⟩ := getNodePageAdvances loading whole (whole.reached nid reached) ran
  exact outNew okT more (nodePageNew loading (rawBlockNew inv.metaIn fuel) whole ran)

theorem walkOut (inv : MountInv s) {create : Bool} {found : Option Nat} (inside : s.inodes ino = true)
    (ran : Fs.getDnodePage (Fs.readRawNatBlock fuel) create rounds ino iblock s.fs = some (fs,found)) : StaysOut s (s.setFs fs) := by
  obtain ⟨known,ok⟩ := inv.ok
  have loading := @rawBlockLoading {n | s.inodes n = true} inv.metaIn fuel
  obtain ⟨⟨now,more,okT,_⟩,_⟩ := dnodePageAdvances loading inside (useOk ok) ran
  exact outNew okT more (dnodePageNew loading (rawBlockNew inv.metaIn fuel) inside (useOk ok) ran)

theorem natPageOut (inv : MountInv s) (ran : s.fs.natBlockPage fuel iblock = some fs) : StaysOut s (s.setFs fs) := by
  unfold Fs.natBlockPage at ran
  split at ran
  · cases ran
    exact outSame rfl fun _ => id
  · obtain ⟨⟨v,found⟩,walked,rest⟩ := Option.bind_eq_some_iff.mp ran
    obtain ⟨d,_,rfl⟩ := Option.map_eq_some_iff.mp rest
    exact outTrans (walkOut inv inv.metaIn walked) (outSame rfl fun _ => id)

theorem newInodeOut (inv : MountInv s) {ne : NatEntry}
    (ran : Fs.allocFreeNat (Fs.readRawNatBlock fuel) false rounds regNatStart s.fs = some (fs,ne)) :
    StaysOut s { fs := { fs with nat := { fs.nat with nm := fs.nat.nm.modify ne.nid NatUse.inode.mark } }
                 inodes := Function.update s.inodes ne.nid true } := by
  obtain ⟨known,ok⟩ := inv.ok
  have loading := @rawBlockLoading {n | s.inodes n = true} inv.metaIn fuel
  obtain ⟨u,nm,⟨now,more,okU,_⟩,new,taken,rfl⟩ := allocNew loading (rawBlockNew inv.metaIn fuel) (useOk ok) ran
  obtain ⟨content,okT,reached⟩ := takenOk okU taken rfl
  refine outNew okT (fun n used => ?_) fun n below => ?_
  · exact Bool.or_eq_true_iff.mpr (.inl (more n used))
  · unfold MountState.Reaches at below
    rw [insertInodes] at below
    dsimp only at below
    rw [content] at below
    rcases reached n below with rfl | old
    · right
      cases used : s.fs.inUse ne.nid with
      | false => rfl
      | true => exact (more ne.nid used).symm.trans (takenZero okU taken).2.1
    · exact new n old

theorem storeOut (inv : MountInv s) {d : Nat} {p : TreePath} (inside : s.inodes ino = true) (held : s.fs.cached d = true)
    (here : follow (child s.fs.content) ino p.nodes = some d) (blkaddr : Nat) :
    StaysOut s (s.setFs (s.fs.storeBlock d p.index blkaddr)) := by
  obtain ⟨known,ok⟩ := inv.ok
  obtain ⟨_,paths,_⟩ := storeKeepsTree ok inside held here blkaddr
  refine outSame rfl ?_
  rintro n ⟨r,root,q,place,path⟩
  exact ⟨r,root,q,place,(paths r root q place).symm.trans path⟩

theorem contentOut (okT : FsOk {n | s.inodes n = true} s.fs.inUse fs) (content : fs.content = s.fs.content) :
    StaysOut s (s.setFs fs) := by
  refine outNew okT (fun _ => id) ?_
  rintro n ⟨r,root,q,place,path⟩
  refine .inl ⟨r,root,q,place,?_⟩
  rw [← content]
  exact path

theorem flushOut (inv : MountInv s) (range : nid / natEntryPerBlock < natBlocks) (enough : natFuel ≤ fuel)
    (ran : s.fs.flushEntry fuel nid = some fs) : StaysOut s (s.setFs fs) := by
  obtain ⟨known,ok⟩ := inv.ok
  obtain ⟨ne,_,rest⟩ := Option.bind_eq_some_iff.mp ran
  split at rest
  · obtain ⟨u,prepared,last⟩ := Option.bind_eq_some_iff.mp rest
    obtain ⟨entry,found,same⟩ := Option.map_eq_some_iff.mp last
    obtain ⟨q,index⟩ : ∃ q : TreePath, q.index = nid / natEntryPerBlock :=
      ⟨_,TreePath.indexOfIndex _ (range.trans (by decide))⟩
    rw [← index] at prepared range
    obtain ⟨⟨now,okU⟩,_⟩ := natPageSound inv.metaIn enough range ok inv.sound prepared
    obtain ⟨content,okT⟩ := entryCleaned (useOk okU) found same.symm
    exact outTrans (natPageOut inv prepared) (@contentOut (s.setFs u) fs okT content)
  · cases rest
    exact outSame rfl fun _ => id

end

section
variable {s t : OwnRun} {fuel nid : Nat}

theorem ownKept (own : OwnInv s) (inv : MountInv t.mount) (freed : t.freed = s.freed) (out : StaysOut s.mount t.mount) : OwnInv t := by
  refine ⟨inv,fun n named gone => ?_⟩
  rw [freed] at gone
  obtain ⟨used,outside⟩ := own.freed n named gone
  exact out n used outside

theorem stepMounts {event : MountEvent} (ran : ownStep s (.step event) = some t) : event.releases = false ∧
    mountStep s.mount event = some t.mount ∧ t.freed = fun n => s.freed n && !event.remounts := by
  simp only [ownStep] at ran
  split at ran
  · contradiction
  · rename_i keeps
    obtain ⟨mount,stepped,rfl⟩ := Option.map_eq_some_iff.mp ran
    exact ⟨eq_false_of_ne_true keeps,stepped,rfl⟩

theorem mountStepOut {s t : MountState} {event : MountEvent} (inv : MountInv s) (keeps : event.releases = false)
    (stays : event.remounts = false) (fits : mountFits s event) (ran : mountStep s event = some t) : StaysOut s t := by
  obtain ⟨known,ok⟩ := inv.ok
  cases event with
  | nodePage fuel nid =>
    obtain ⟨fs,read,rfl⟩ := Option.map_eq_some_iff.mp ran
    exact nodePageOut inv fits.2 read
  | walk fuel rounds ino iblock create =>
    simp only [mountStep] at ran
    split at ran
    · rename_i inside
      obtain ⟨⟨fs,found⟩,walked,rfl⟩ := Option.map_eq_some_iff.mp ran
      exact walkOut inv inside walked
    · contradiction
  | metaPage fuel iblock =>
    obtain ⟨fs,prepared,rfl⟩ := Option.map_eq_some_iff.mp ran
    exact natPageOut inv prepared
  | newInode fuel rounds =>
    obtain ⟨⟨fs,ne⟩,alloc,rfl⟩ := Option.map_eq_some_iff.mp ran
    exact newInodeOut inv alloc
  | storeAddr ino iblock blkaddr =>
    simp only [mountStep] at ran
    obtain ⟨dnode,found,rfl⟩ := Option.map_eq_some_iff.mp ran
    obtain ⟨inside,low,held⟩ := fits
    obtain ⟨q,rfl⟩ : ∃ q : TreePath, q.index = iblock := ⟨_,TreePath.indexOfIndex iblock low⟩
    have here := (getDnodeAt s.fs.content ino q).symm.trans found
    exact storeOut inv inside (held dnode found) here blkaddr
  | updateNat nid blkaddr =>
    cases ran
    obtain ⟨held,ne,here⟩ := fits
    obtain ⟨content,okT,_⟩ := writtenOk (useOk ok) here held blkaddr rfl
    exact contentOut okT content
  | flushNat fuel nid =>
    obtain ⟨fs,flushed,rfl⟩ := Option.map_eq_some_iff.mp ran
    exact flushOut inv fits.2 fits.1 flushed
  | dropPage nid =>
    cases ran
    obtain ⟨content,okT⟩ := droppedOk fits (useOk ok) rfl
    exact contentOut okT content
  | truncate ino freeFrom => cases keeps
  | evict ino => cases keeps
  | invalidateNat fuel nid => cases keeps
  | remount disk nodes => cases stays

theorem stepOwned {event : MountEvent} (own : OwnInv s) (takes : ownTakes s (.step event))
    (ran : ownStep s (.step event) = some t) : OwnInv t := by
  obtain ⟨keeps,stepped,freed⟩ := stepMounts ran
  obtain ⟨fits,restored⟩ := takes
  have inv := mountStepKeeps own.mount stepped fits restored
  cases stays : event.remounts with
  | true =>
    refine ⟨inv,fun n _ gone => ?_⟩
    rw [freed,stays] at gone
    simp at gone
  | false =>
    refine ownKept own inv ?_ (mountStepOut own.mount keeps stays fits stepped)
    rw [freed,stays]
    simp

end

theorem ownSingle {s : OwnRun} (inv : OwnInv s) : SingleOwner s := by
  obtain ⟨known,ok⟩ := inv.mount.ok
  refine ⟨fun n m e f nid => slotOnce ok,fun n e nid slot => ?_,fun isMeta fuel rounds iblock fs ne ran n e slot => ?_⟩
  · refine ⟨?_,?_⟩
    · cases free : s.mount.fs.nat.nm.free nid with
      | none => rfl
      | some ne =>
        have unused := slotFree.mpr ⟨freeUnlisted ok.nat.distinct free,free⟩
        rcases ok.nat.used nid (ok.reached nid (slotReaches slot)) with ⟨entry,here⟩ | ⟨absent,_⟩
        · cases unused.symm.trans here
        · cases unused.symm.trans absent
    · cases freed : s.freed nid with
      | false => rfl
      | true => exact absurd (slotReaches slot) (inv.freed nid (slotPositive slot) freed).2
  · obtain ⟨u,nm,⟨now,more,okU,_⟩,taken,_⟩ := allocAdvances (rawBlockLoading inv.mount.metaIn fuel) ok ran
    obtain ⟨_,unknown,_⟩ := takenZero okU taken
    rw [more ne.nid (ok.reached ne.nid (slotReaches slot))] at unknown
    contradiction

end Xcpfs
