import Xcpfs.FileBytes

/-! Crashes. Blocks are filled once, so what the superblock of the last checkpoint names is still
there whatever a mount wrote since, and a crash takes the files back to that checkpoint. -/
namespace Xcpfs
open PointerForest EventRun WriteBack
open CBytes (Memory)

/- The last superblock that was written, and the inodes of that time. -/
structure SavedImage where
  disk : NatDisk
  nodes : NodeStore
  inodes : Nat → Bool

structure CrashRun where
  run : FileRun
  last : SavedImage

/- `sync` is `do_checkpoint` and `flush_super_block`; an unmount is a sync and the next mount a
crash after it. -/
inductive CrashEvent where
  | file (event : FileEvent)
  | sync (disk : NatDisk) (nodes : NodeStore)
  | crash

/- A mount of the last superblock. -/
def FileRun.crash (last : SavedImage) (s : FileRun) : FileRun where
  own := ⟨⟨mountFs last.disk last.nodes,last.inodes⟩,fun _ => false⟩
  pages _ := none
  flights := []
  blocks := s.blocks
  written := s.written

def FileEvent.remounts : FileEvent → Bool
  | .tree (.step event) => event.remounts
  | _ => false

def crashStep (s : CrashRun) : CrashEvent → Option CrashRun
  | .file event => if event.remounts then none else (fileStep s.run event).map fun run => { s with run := run }
  | .sync disk nodes => if s.run.flights = [] then some { s with last := ⟨disk,nodes,s.run.mount.inodes⟩ } else none
  | .crash => some { s with run := s.run.crash s.last }

/- A checkpoint is taken with all pages written, and is complete. -/
def crashTakes (s : CrashRun) : CrashEvent → Prop
  | .file event => fileTakes s.run event
  | .sync disk nodes => Restores {n | s.run.mount.inodes n = true} s.run.mount.fs disk nodes ∧
    ∀ key page, s.run.pages key = some page → page.dirty = false
  | .crash => True

def crashClean (s : CrashRun) : CrashEvent → Prop
  | .file event => fileClean s.run event
  | _ => True

/-- The files, and those of the last checkpoint. -/
def CrashEvent.apply (files : (Nat → Memory) × (Nat → Memory)) : CrashEvent → (Nat → Memory) × (Nat → Memory)
  | .file event => (event.apply files.1,files.2)
  | .sync .. => (files.1,files.1)
  | .crash => (files.2,files.2)

section
variable {s t : FileRun} {event : FileEvent} {files : Nat → Memory} {last : SavedImage}

theorem stepAppends (ran : fileStep s event = some t) : Appends s.backing t.backing := by
  have prepared : ∀ {fuel rounds create key u found}, s.preparePage fuel rounds create key = some (u,found) →
      u.blocks = s.blocks ∧ u.written = s.written := by
    intro fuel rounds create key u found ran
    unfold FileRun.preparePage at ran
    split at ran
    · cases ran
      exact ⟨rfl,rfl⟩
    · obtain ⟨⟨fs,answer⟩,_,same⟩ := Option.map_eq_some_iff.mp ran
      cases answer with
      | none => cases same; exact ⟨rfl,rfl⟩
      | some blkaddr => cases same; exact ⟨rfl,rfl⟩
  cases event with
  | read fuel rounds root iblock =>
    simp only [fileStep] at ran
    split at ran
    · obtain ⟨⟨u,found⟩,prepares,rfl⟩ := Option.map_eq_some_iff.mp ran
      exact appendsSame (prepared prepares).1 (prepared prepares).2
    · contradiction
  | write fuel rounds root pos data =>
    simp only [fileStep] at ran
    split at ran
    · obtain ⟨⟨u,found⟩,prepares,rest⟩ := Option.bind_eq_some_iff.mp ran
      obtain ⟨page,_,rfl⟩ := Option.map_eq_some_iff.mp rest
      exact appendsSame (t := u.setPage _ _) (prepared prepares).1 (prepared prepares).2
    · contradiction
  | mapped root pos data =>
    simp only [fileStep] at ran
    split at ran
    · obtain ⟨page,_,rfl⟩ := Option.map_eq_some_iff.mp ran
      exact appendsSame rfl rfl
    · contradiction
  | zero fuel rounds root iblock offset =>
    simp only [fileStep] at ran
    split at ran
    · unfold FileRun.truncatePartialBlock at ran
      split at ran
      · cases ran
        exact appendsRefl _
      · obtain ⟨⟨u,found⟩,prepares,rfl⟩ := Option.map_eq_some_iff.mp ran
        obtain ⟨blocks,written⟩ := prepared prepares
        cases found with
        | none => exact appendsSame blocks written
        | some page => exact appendsSame (t := u.setPage _ _) blocks written
    · contradiction
  | submit fuel rounds root iblock =>
    simp only [fileStep] at ran
    split at ran
    · obtain ⟨page,_,rest⟩ := Option.bind_eq_some_iff.mp ran
      obtain ⟨⟨fs,found⟩,_,rfl⟩ := Option.map_eq_some_iff.mp rest
      exact appendsSame rfl rfl
    · contradiction
  | complete root iblock blkaddr =>
    simp only [fileStep] at ran
    split at ran
    · rename_i fresh
      obtain ⟨f,_,rest⟩ := Option.bind_eq_some_iff.mp ran
      obtain ⟨page,_,rfl⟩ := Option.map_eq_some_iff.mp rest
      refine ⟨fun a there => ?_,fun a there => Function.update_of_ne ?_ ..⟩
      · refine (Function.update_apply ..).trans ?_
        split
        · rfl
        · exact there
      · rintro rfl
        cases there.symm.trans fresh.2
    · contradiction
  | release root iblock =>
    simp only [fileStep] at ran
    split at ran
    · obtain ⟨page,_,rest⟩ := Option.bind_eq_some_iff.mp ran
      split at rest
      · contradiction
      · cases rest
        exact appendsSame rfl rfl
    · contradiction
  | tree inner => exact (treeStepOf ran).appends

theorem imageKept (appends : Appends s.backing t.backing) (inv : FileInv (s.crash last)) (agrees : Agrees (s.crash last) files) :
    FileInv (t.crash last) ∧ Agrees (t.crash last) files := by
  have kept : ∀ ino, last.inodes ino = true → ino ≠ metaIno → ∀ q : TreePath,
      (t.crash last).Good (ino,q.index) ∧ (t.crash last).value (ino,q.index) = (s.crash last).value (ino,q.index) := by
    intro ino inside regular q
    exact valueKept (t := (t.crash last).backing) (inv.good ino inside regular q) ⟨appends.filled,appends.block⟩ rfl rfl id
  refine ⟨⟨inv.own,fun f bad => absurd bad List.not_mem_nil,fun _ _ bad => absurd bad.symm (Option.some_ne_none _),
    fun ino inside regular q => (kept ino inside regular q).1⟩,fun ino inside regular q k low => ?_,agrees.absent⟩
  rw [(kept ino inside regular q).2]
  exact agrees.bytes ino inside regular q k low

theorem imageSynced {disk : NatDisk} {nodes : NodeStore} (inv : FileInv s) (agrees : Agrees s files) (idle : s.flights = [])
    (restores : Restores {n | s.mount.inodes n = true} s.mount.fs disk nodes)
    (clean : ∀ key page, s.pages key = some page → page.dirty = false) :
    FileInv (s.crash ⟨disk,nodes,s.mount.inodes⟩) ∧ Agrees (s.crash ⟨disk,nodes,s.mount.inodes⟩) files := by
  have own : ownStep s.own (.step (.remount disk nodes)) = some ⟨s.mount.setFs (mountFs disk nodes),fun _ => false⟩ := by
    unfold ownStep
    exact congrArg (fun freed => some (OwnRun.mk _ freed)) (funext fun n => Bool.and_false _)
  have ran : fileStep s (.tree (.step (.remount disk nodes))) = some (s.crash ⟨disk,nodes,s.mount.inodes⟩) := by
    have filled : (fun a => s.written a || decide (FileRun.fills (.step (.remount disk nodes)) = some a)) = s.written :=
      funext fun a => Bool.or_false _
    simp only [fileStep]
    rw [if_pos,own,filled,idle]
    · rfl
    · rw [idle]
      exact ⟨fun f bad => absurd bad List.not_mem_nil,fun a bad => absurd bad.symm (Option.some_ne_none a)⟩
  have takes : fileTakes s (.tree (.step (.remount disk nodes))) := ⟨⟨trivial,restores⟩,clean⟩
  exact agreesStep inv takes trivial ran agrees

end

/- What is known in a run with crashes: the files, and what a crash now would leave of them. -/
structure CrashInv (s : CrashRun) (files : (Nat → Memory) × (Nat → Memory)) : Prop where
  now : FileInv s.run ∧ Agrees s.run files.1
  last : FileInv (s.run.crash s.last) ∧ Agrees (s.run.crash s.last) files.2

section
variable {s t : CrashRun} {event : CrashEvent} {files : (Nat → Memory) × (Nat → Memory)}

theorem crashStepKeeps (inv : CrashInv s files) (takes : crashTakes s event) (clean : crashClean s event)
    (ran : crashStep s event = some t) : CrashInv t (event.apply files) := by
  cases event with
  | file event =>
    simp only [crashStep] at ran
    split at ran
    · contradiction
    · obtain ⟨run,stepped,rfl⟩ := Option.map_eq_some_iff.mp ran
      exact ⟨agreesStep inv.now.1 takes clean stepped inv.now.2,imageKept (stepAppends stepped) inv.last.1 inv.last.2⟩
  | sync disk nodes =>
    simp only [crashStep] at ran
    split at ran
    · rename_i idle
      cases ran
      exact ⟨inv.now,imageSynced inv.now.1 inv.now.2 idle takes.1 takes.2⟩
    · contradiction
  | crash =>
    cases ran
    exact ⟨inv.last,inv.last⟩

theorem crashRunKeeps {events : List CrashEvent} (inv : CrashInv s files) (takes : Meets crashTakes crashStep s events)
    (clean : Meets crashClean crashStep s events) (ran : exec crashStep s events = some t) :
    CrashInv t (events.foldl CrashEvent.apply files) := by
  induction events generalizing s files with
  | nil =>
    cases ran
    exact inv
  | cons event events ih =>
    obtain ⟨next,here,rest⟩ := Option.bind_eq_some_iff.mp ran
    obtain ⟨take,takes⟩ := takes next here
    obtain ⟨plain,clean⟩ := clean next here
    exact ih (crashStepKeeps inv take plain here) takes clean rest

end

def freshCrash (rootAddr metaAddr dot dotdot : Nat) (blocks : Nat → Memory) : CrashRun where
  run := freshFiles rootAddr metaAddr dot dotdot blocks
  last := ⟨freshDisk rootAddr metaAddr,freshNodes dot dotdot,fun n => n = metaIno ∨ n = rootIno⟩

theorem freshCrashInv {rootAddr metaAddr dot dotdot : Nat} {blocks : Nat → Memory} (root : rootAddr ≠ 0) (inode : metaAddr ≠ 0) :
    CrashInv (freshCrash rootAddr metaAddr dot dotdot blocks)
      ((freshFiles rootAddr metaAddr dot dotdot blocks).contents,(freshFiles rootAddr metaAddr dot dotdot blocks).contents) := by
  have image : (freshCrash rootAddr metaAddr dot dotdot blocks).run.crash (freshCrash rootAddr metaAddr dot dotdot blocks).last =
      freshFiles rootAddr metaAddr dot dotdot blocks := rfl
  have agrees := @freshAgrees rootAddr metaAddr dot dotdot blocks
  generalize (freshFiles rootAddr metaAddr dot dotdot blocks).contents = mkfs at agrees ⊢
  exact ⟨⟨freshFileInv root inode,agrees⟩,image ▸ ⟨freshFileInv root inode,agrees⟩⟩

/-- In a run with complete checkpoints, and with crashes at any time, that keeps clear of the truncates
that cut at the wrong place, every byte of every file is what was put there since the last checkpoint or
the last crash, and else what it was at the checkpoint. -/
theorem crashReturnsCheckpoint {rootAddr metaAddr dot dotdot : Nat} {blocks : Nat → Memory} {events : List CrashEvent}
    (root : rootAddr ≠ 0) (inode : metaAddr ≠ 0)
    (takes : Meets crashTakes crashStep (freshCrash rootAddr metaAddr dot dotdot blocks) events)
    (clean : Meets crashClean crashStep (freshCrash rootAddr metaAddr dot dotdot blocks) events) {s : CrashRun}
    (ran : exec crashStep (freshCrash rootAddr metaAddr dot dotdot blocks) events = some s) {ino pos : Nat}
    (member : s.run.mount.inodes ino = true) (regular : ino ≠ metaIno) (low : pos / pageSize < maxBlocks) :
    let mkfs := (freshFiles rootAddr metaAddr dot dotdot blocks).contents
    s.run.contents ino pos = (events.foldl CrashEvent.apply (mkfs,mkfs)).1 ino pos := by
  have inv := crashRunKeeps (freshCrashInv root inode) takes clean ran
  obtain ⟨q,index⟩ : ∃ q : TreePath, q.index = pos / pageSize := ⟨_,TreePath.indexOfIndex _ low⟩
  have at_ : pos = q.index * pageSize + pos % pageSize := by
    rw [index,Nat.mul_comm]
    exact (Nat.div_add_mod pos pageSize).symm
  have offset : pos % pageSize < pageSize := Nat.mod_lt pos (by decide)
  rw [at_,contentsValue _ _ _ offset]
  exact inv.now.2.bytes ino member regular q _ offset

/- The image of `mkfs` is a complete checkpoint. -/
theorem freshRestores {rootAddr metaAddr dot dotdot : Nat} (root : rootAddr ≠ 0) (inode : metaAddr ≠ 0) :
    Restores {n | (freshMount rootAddr metaAddr dot dotdot).inodes n = true} (freshMount rootAddr metaAddr dot dotdot).fs
      (freshDisk rootAddr metaAddr) (freshNodes dot dotdot) := by
  refine ⟨rfl,rfl,fun m member => ?_,⟨_,List.mem_cons_of_mem _ (List.mem_singleton.mpr rfl),rfl⟩,fun n high => rfl,fun n below => ?_⟩
  · rcases List.mem_cons.mp member with rfl | other
    · exact root
    · obtain rfl := List.mem_singleton.mp other
      exact inode
  · obtain ⟨r,inside,p,_,path⟩ := below
    obtain ⟨_,rfl⟩ := followLeaf freshLeaf path
    rw [natAddrSlot,freshSlot root inode]
    rcases of_decide_eq_true inside with rfl | rfl
    · exact ⟨metaAddr,rfl,inode⟩
    · exact ⟨rootAddr,rfl,root⟩

/- A write reaches the device after a checkpoint, and then the machine stops. -/
def stopRun : List CrashEvent :=
  [.sync (freshDisk 20 12) (freshNodes 30 31),.file (.write natFuel 900 rootIno 100 [1,2,3]),.file (.submit natFuel 0 rootIno 0),
    .file (.complete rootIno 0 50),.crash]

theorem stopRuns : (exec crashStep (freshCrash 20 12 30 31 fun _ _ => 7) stopRun).any (fun s => s.run.mount.inodes rootIno) = true := by
  decide +kernel

/-- The three bytes are lost, and the page is the one of the checkpoint. -/
theorem crashReturnsCheckpointStop : ∃ s, exec crashStep (freshCrash 20 12 30 31 fun _ _ => 7) stopRun = some s ∧
    s.run.contents rootIno 101 = 7 := by
  obtain ⟨s,ran,inside⟩ := (Option.any_eq_true ..).mp stopRuns
  refine ⟨s,ran,?_⟩
  have takes : Meets crashTakes crashStep (freshCrash 20 12 30 31 fun _ _ => 7) stopRun := fun _ _ =>
    ⟨⟨freshRestores (by decide) (by decide),fun _ _ bad => absurd bad.symm (Option.some_ne_none _)⟩,
      fun _ _ => ⟨⟨le_rfl,by decide⟩,fun _ _ => ⟨le_rfl,fun _ _ => ⟨trivial,fun _ _ => ⟨trivial,trivial⟩⟩⟩⟩⟩
  have clean : Meets crashClean crashStep (freshCrash 20 12 30 31 fun _ _ => 7) stopRun := fun _ _ =>
    ⟨trivial,fun _ _ => ⟨trivial,fun _ _ => ⟨trivial,fun _ _ => ⟨trivial,fun _ _ => ⟨trivial,trivial⟩⟩⟩⟩⟩
  rw [crashReturnsCheckpoint (by decide) (by decide) takes clean ran inside (by decide) (by decide)]
  decide +kernel

end Xcpfs
