import Xcpfs.MetaRuns

/-! Lookups over the runs of a mount in which the reads of node pages can fail.
`xcpfs_read_end_io` does not look at the status of the read, so the page is uptodate with what its
memory held before. -/
namespace Xcpfs
open PointerForest EventRun

/- `stored` is what the block of a page holds whose read failed. -/
structure LookupRun where
  mount : MountState
  stored : Nat → Option NodePage

inductive LookupEvent where
  | step (event : MountEvent)
  | readFails (fuel nid : Nat) (page : NodePage)

namespace LookupRun

/- Only a page that is not in memory and has a block is read. -/
def readFails (fuel nid : Nat) (page : NodePage) (s : LookupRun) : Option LookupRun :=
  if s.mount.fs.cached nid then none
  else (Fs.getNodePage (Fs.readRawNatBlock fuel) nid s.mount.fs).bind fun fs =>
    if (fs.addr nid).getD 0 = 0 then none
    else some ⟨s.mount.setFs { fs with nodes := Function.update fs.nodes nid page },Function.update s.stored nid (some (fs.nodes nid))⟩

/- The block of the page is what the next read finds. -/
def leaves (nid : Nat) (s : LookupRun) : LookupRun where
  mount := s.mount.setFs { s.mount.fs with
    nodes := Function.update s.mount.fs.nodes nid ((s.stored nid).getD (s.mount.fs.nodes nid)) }
  stored := Function.update s.stored nid none

end LookupRun

def lookupStep (s : LookupRun) : LookupEvent → Option LookupRun
  | .step event => (mountStep s.mount event).map fun mount =>
    match event with
    | .dropPage nid => LookupRun.leaves nid ⟨mount,s.stored⟩
    | .updateNat nid _ => ⟨mount,Function.update s.stored nid none⟩
    | .remount .. => ⟨mount,fun _ => none⟩
    | _ => ⟨mount,s.stored⟩
  | .readFails fuel nid page => s.readFails fuel nid page

/- When the code takes these steps. -/
def lookupFits (s : LookupRun) : LookupEvent → Prop
  | .step event => mountFits s.mount event
  | .readFails fuel nid _ => natFuel ≤ fuel ∧ Reached nodeShape {n | s.mount.inodes n = true} (child s.mount.fs.content) nid

def lookupRestored (s : LookupRun) : LookupEvent → Prop
  | .step event => Restored s.mount event
  | .readFails .. => True

def readsSucceed (_ : LookupRun) : LookupEvent → Prop
  | .step _ => True
  | .readFails .. => False

/-- Looking a nid up ends, with one NAT block read in another at most, and no call waits for a page
of its own chain; the caller may hold the page of the nid. -/
def LookupsEnd (s : Fs) : Prop :=
  ∀ nid, 3 ≤ nid → nid < 2 ^ 31 → ∀ held : List LockedPage, (∀ page ∈ held, page = .node nid) → ∀ rounds depth,
    ∃ t ne, Locked.lookupNat (Locked.readRawNatBlock (defAddrsPerInode + rounds) (depth + 2)) held nid s = .ok (t,ne)

def freshLookups (rootAddr metaAddr dot dotdot : Nat) : LookupRun := ⟨freshMount rootAddr metaAddr dot dotdot,fun _ => none⟩

section
variable {s t : LookupRun} {rootAddr metaAddr dot dotdot : Nat}

theorem lookupsEnd {s : MountState} (inv : MountInv s) : LookupsEnd s.fs := by
  intro nid high small held own rounds depth
  obtain ⟨known,ok⟩ := inv.ok
  have range : nid / natEntryPerBlock < natBlocks := by
    unfold natBlocks
    exact Nat.lt_succ_of_le (Nat.div_le_div_right small.le)
  obtain ⟨t,ne,_,_,locked,_⟩ := lookupEnds inv.metaIn own high range
    (Nat.le_add_right defAddrsPerInode rounds) le_rfl depth ok inv.sound
  exact ⟨t,ne,locked⟩

theorem plainStep {event : MountEvent} (plain : ∀ nid, s.stored nid = none) (ran : lookupStep s (.step event) = some t) :
    mountStep s.mount event = some t.mount ∧ ∀ nid, t.stored nid = none := by
  obtain ⟨mount,stepped,same⟩ := Option.map_eq_some_iff.mp ran
  have cleared : ∀ nid n, Function.update s.stored nid none n = none := by
    intro nid n
    rw [Function.update_apply,plain,ite_self]
  rw [stepped,← same]
  cases event with
  | dropPage nid =>
    refine ⟨?_,cleared nid⟩
    dsimp only [LookupRun.leaves]
    rw [plain,Option.getD_none,Function.update_eq_self]
    rfl
  | updateNat nid blkaddr => exact ⟨rfl,cleared nid⟩
  | remount disk nodes => exact ⟨rfl,fun _ => rfl⟩
  | _ => exact ⟨rfl,plain⟩

/-- In every run since `mkfs` in which no read of a node fails and every mount finds the NAT as it
was, looking a nid up ends in every state. -/
theorem lookupTerminates {events : List LookupEvent} (root : rootAddr ≠ 0) (inode : metaAddr ≠ 0)
    (fits : Meets lookupFits lookupStep (freshLookups rootAddr metaAddr dot dotdot) events)
    (restored : Meets lookupRestored lookupStep (freshLookups rootAddr metaAddr dot dotdot) events)
    (reads : Meets readsSucceed lookupStep (freshLookups rootAddr metaAddr dot dotdot) events) :
    Always (fun s => LookupsEnd s.mount.fs) lookupStep (freshLookups rootAddr metaAddr dot dotdot) events := by
  refine alwaysMeets (fun s => MountInv s.mount ∧ ∀ nid, s.stored nid = none) (fun s inv => lookupsEnd inv.1) ?_
    ⟨freshInv root inode,fun _ => rfl⟩ (meetsBoth fits (meetsBoth restored reads))
  intro s event t inv ran met
  obtain ⟨fits,restored,reads⟩ := met
  cases event with
  | step event =>
    obtain ⟨stepped,plain⟩ := plainStep inv.2 ran
    exact ⟨mountStepKeeps inv.1 stepped fits restored,plain⟩
  | readFails fuel nid page => cases reads

end

/-- The meta file gets its first direct node, and the root directory one of its own. -/
theorem lookupTerminatesGrown : Always (fun s => LookupsEnd s.mount.fs) lookupStep (freshLookups 20 12 30 31)
    [.step (.metaPage natFuel 900),.step (.walk natFuel 900 rootIno 900 true)] :=
  lookupTerminates (by decide) (by decide)
    (fun _ _ => ⟨⟨le_rfl,by decide⟩,fun _ _ => ⟨⟨le_rfl,fun bad => absurd bad (by decide),fun _ _ => by decide⟩,trivial⟩⟩)
    (fun _ _ => ⟨trivial,fun _ _ => ⟨trivial,trivial⟩⟩) (fun _ _ => ⟨trivial,fun _ _ => ⟨trivial,trivial⟩⟩)

/- The inode of the meta file is read into a page that holds 2730454 in `i_nid[2]`. -/
def failedRun : List LookupEvent := [.readFails natFuel metaIno (NodePage.zero.setNid 2 2730454)]

def waitsForItself (s : LookupRun) : Bool :=
  match Locked.lookupNat (Locked.readRawNatBlock (defAddrsPerInode + 0) (0 + 2)) [] 2730454 s.mount.fs with
  | .error .deadlock => true
  | _ => false

theorem failedRuns : (exec lookupStep (freshLookups 20 12 30 31) failedRun).any waitsForItself = true := by
  decide +kernel

/-- The entry of the first file is in block 6000, below `i_nid[2]`: the lookup of that pointer asks
for block 6000, which is locked. -/
theorem failedReadDeadlocks : ¬∀ (rootAddr metaAddr dot dotdot : Nat) (events : List LookupEvent), rootAddr ≠ 0 → metaAddr ≠ 0 →
    Meets lookupFits lookupStep (freshLookups rootAddr metaAddr dot dotdot) events →
    Always (fun s => LookupsEnd s.mount.fs) lookupStep (freshLookups rootAddr metaAddr dot dotdot) events := by
  intro claim
  have fits : Meets lookupFits lookupStep (freshLookups 20 12 30 31) failedRun :=
    fun _ _ => ⟨⟨le_rfl,metaIno,by decide,[],trivial,rfl⟩,trivial⟩
  obtain ⟨t,ran,waits⟩ := (Option.any_eq_true ..).mp failedRuns
  have ends := alwaysEnd (claim 20 12 30 31 failedRun (by decide) (by decide) fits) ran
  obtain ⟨u,ne,found⟩ := ends 2730454 (by decide) (by decide) [] (by simp) 0 0
  unfold waitsForItself at waits
  rw [found] at waits
  cases waits

end Xcpfs
