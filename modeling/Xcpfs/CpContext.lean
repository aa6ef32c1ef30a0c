import Xcpfs.ZoneRoute

/-! The holders of `cp_sem` and the zones that are opened beside them, from mount to unmount.
`do_checkpoint` runs when the super block is killed and makes `sbi->cpc` first; an open zone under
a locked `cp_sem` goes through that pointer, whoever the holder is. -/
namespace Xcpfs

open EventRun

/- A search takes the zones' spinlock from its start to its end. -/
inductive SearchPc where
  | retry (type : PageType)
  | open_ (type : PageType)
  deriving DecidableEq, Repr

/- Where `kill_xcpfs_super` is. -/
inductive KillPc where | mounted | entered | locked | left
  deriving DecidableEq, Repr

structure CpcRun where
  zm : ZmInfo
  /-- `cpc->restart`, once there is a `cpc`. -/
  cpc : Option Bool
  readers : Nat
  kill : KillPc
  search : Option SearchPc
  /-- `get_zone` went through a null `cpc`. -/
  faulted : Bool

namespace CpcRun

/-- `xcpfs_rwsem_is_locked`. -/
def cpSemLocked (s : CpcRun) : Bool := s.readers ≠ 0 || s.kill = .locked

def sbi (s : CpcRun) : ZoneSbi := ⟨s.zm,s.cpSemLocked,s.cpc⟩

/- The block behind `open:` finds a slot for one more zone. -/
def room (s : CpcRun) : Bool := s.zm.zoneOpenedCount < s.zm.maxOpenZones

end CpcRun

/- `enter` and `leave` are around `xcpfs_add_link` and `xcpfs_delete_entry`, `getZone`, `scan` and
`open_` the parts of a search that some writeback makes. -/
inductive CpcEvent where
  | enter
  | leave
  | getZone (type : PageType)
  | scan
  | open_ (accepted : Bool)
  | complete (blkaddr : Nat)
  | invalidate (blkaddr : Nat)
  | kill
  | lock
  | unlock
  deriving DecidableEq, Repr

def runStep (s : CpcRun) (event : CpcEvent) : Option CpcRun :=
  match event with
  -- no operation runs on a super block that is being killed
  | .enter => if s.kill = .mounted then some { s with readers := s.readers + 1 } else none
  | .leave => if s.readers = 0 then none else some { s with readers := s.readers - 1 }
  | .getZone type =>
    if s.search.isSome then none
    else if s.zm.nrType type.code < s.zm.limitType type.code then some { s with search := some (.open_ type) }
    else some { s with search := some (.retry type) }
  | .scan =>
    match s.search with
    | some (.retry type) =>
      match scanOpened s.zm type.code s.zm.zoneOpened longMax none with
      | some _ => some { s with search := none }
      | none => some { s with search := some (.open_ type) }
    | _ => none
  | .open_ accepted =>
    match s.search with
    | some (.open_ type) =>
      match openEmpty type.code accepted s.sbi with
      | some sbi => some { s with zm := sbi.zm, cpc := sbi.cpcRestart, search := some (.retry type) }
      | none => some { s with faulted := true }
    | _ => none
  | .complete blkaddr => if s.search.isSome then none else some { s with zm := validateBlkaddr s.zm blkaddr }
  | .invalidate blkaddr => if s.search.isSome then none else some { s with zm := invalidateBlkaddr s.zm blkaddr }
  -- the flag of a new `cpc` is cleared at the label `restart`
  | .kill => if s.kill = .mounted ∧ s.readers = 0 then some { s with kill := .entered, cpc := some false } else none
  | .lock => if s.kill = .entered ∧ s.readers = 0 then some { s with kill := .locked } else none
  | .unlock =>
    if s.kill ≠ .locked then none
    else if s.cpc = some true then some { s with kill := .entered, cpc := some false }
    else some { s with kill := .left }

def cpcStep (s : CpcRun) (event : CpcEvent) : Option CpcRun := if s.faulted then none else runStep s event

def cpcStart (zm : ZmInfo) : CpcRun := ⟨zm,none,0,.mounted,none,false⟩

/- No zone is opened while a directory operation holds `cp_sem`. -/
def opensAlone (s : CpcRun) : CpcEvent → Prop
  | .open_ _ => s.room = true → s.readers = 0
  | _ => True

/- There is a `cpc` from the unmount on and not before, and then no directory operation. -/
structure CpcInv (s : CpcRun) : Prop where
  running : s.faulted = false
  present : s.cpc.isSome = true ↔ s.kill ≠ .mounted
  quiet : s.kill ≠ .mounted → s.readers = 0

section
variable {s next : CpcRun} {event : CpcEvent}

/- The only way for the block behind `open:` to end in nothing. -/
theorem openEmptyFaults (type : Nat) (accepted : Bool) (s : CpcRun) :
    openEmpty type accepted s.sbi = none ↔ s.room = true ∧ s.cpSemLocked = true ∧ s.cpc = none := by
  unfold openEmpty CpcRun.room CpcRun.sbi
  dsimp only
  by_cases room : s.zm.zoneOpenedCount < s.zm.maxOpenZones
  · rw [if_pos room]
    cases s.cpSemLocked with
    | false => simp [room]
    | true => cases s.cpc <;> simp [room]
  · simp [room]

theorem openEmptyCpc {type : Nat} {accepted : Bool} {sbi : ZoneSbi} (ran : openEmpty type accepted s.sbi = some sbi) :
    sbi.cpcRestart.isSome = s.cpc.isSome := by
  unfold openEmpty CpcRun.sbi at ran
  dsimp only at ran
  split at ran
  · split at ran
    · cases made : s.cpc with
      | none =>
        rw [made] at ran
        cases ran
      | some restart =>
        rw [made] at ran
        cases ran
        rfl
    · cases ran
      rfl
  · cases ran
    rfl

theorem runRan (inv : CpcInv s) (ran : cpcStep s event = some next) : runStep s event = some next := by
  unfold cpcStep at ran
  rwa [inv.running,if_neg Bool.false_ne_true] at ran

theorem invSame (inv : CpcInv s) (running : next.faulted = s.faulted) (kill : next.kill = s.kill)
    (present : next.cpc.isSome = s.cpc.isSome) (readers : next.readers ≤ s.readers) : CpcInv next := by
  refine ⟨running.trans inv.running,?_,?_⟩
  · rw [kill,present]
    exact inv.present
  · rw [kill]
    exact fun other => Nat.le_zero.mp (inv.quiet other ▸ readers)

theorem cpcKeeps (inv : CpcInv s) (ran : cpcStep s event = some next) (alone : opensAlone s event) : CpcInv next := by
  have live := runRan inv ran
  unfold runStep at live
  cases event with
  | enter =>
    dsimp only at live
    split at live
    case isTrue mounted =>
      cases live
      exact ⟨inv.running,inv.present,fun other => absurd mounted other⟩
    case isFalse => cases live
  | leave =>
    dsimp only at live
    split at live
    · cases live
    · cases live
      exact invSame inv rfl rfl rfl (Nat.sub_le ..)
  | getZone type =>
    dsimp only at live
    split at live
    · cases live
    · split at live
      · cases live
        exact invSame inv rfl rfl rfl (Nat.le_refl _)
      · cases live
        exact invSame inv rfl rfl rfl (Nat.le_refl _)
  | scan =>
    dsimp only at live
    split at live
    · split at live
      · cases live
        exact invSame inv rfl rfl rfl (Nat.le_refl _)
      · cases live
        exact invSame inv rfl rfl rfl (Nat.le_refl _)
    · cases live
  | open_ accepted =>
    dsimp only at live
    split at live
    case h_2 => cases live
    case h_1 type opening =>
      split at live
      case h_1 sbi opened =>
        cases live
        exact invSame inv rfl rfl (openEmptyCpc opened) (Nat.le_refl _)
      case h_2 failed =>
        -- without readers the holder is the checkpoint, which has made `cpc`
        obtain ⟨room,locked,missing⟩ := (openEmptyFaults type.code accepted s).mp failed
        have held : s.kill = .locked := by simpa [CpcRun.cpSemLocked,alone room] using locked
        have made := inv.present.mpr (by rw [held]; exact KillPc.noConfusion)
        rw [missing] at made
        cases made
  | complete blkaddr =>
    dsimp only at live
    split at live
    · cases live
    · cases live
      exact invSame inv rfl rfl rfl (Nat.le_refl _)
  | invalidate blkaddr =>
    dsimp only at live
    split at live
    · cases live
    · cases live
      exact invSame inv rfl rfl rfl (Nat.le_refl _)
  | kill =>
    dsimp only at live
    split at live
    case isTrue start =>
      cases live
      exact ⟨inv.running,⟨fun _ => KillPc.noConfusion,fun _ => rfl⟩,fun _ => start.2⟩
    case isFalse => cases live
  | lock =>
    dsimp only at live
    split at live
    case isTrue start =>
      cases live
      exact ⟨inv.running,⟨fun _ => KillPc.noConfusion,fun _ => inv.present.mpr (by rw [start.1]; exact KillPc.noConfusion)⟩,
        fun _ => start.2⟩
    case isFalse => cases live
  | unlock =>
    dsimp only at live
    split at live
    case isTrue => cases live
    case isFalse held =>
      have locked : s.kill ≠ .mounted := by
        rw [not_not.mp held]
        exact KillPc.noConfusion
      split at live
      · cases live
        exact ⟨inv.running,⟨fun _ => KillPc.noConfusion,fun _ => rfl⟩,fun _ => inv.quiet locked⟩
      · cases live
        exact ⟨inv.running,⟨fun _ => KillPc.noConfusion,fun _ => inv.present.mpr locked⟩,fun _ => inv.quiet locked⟩

/- Before the unmount there is no `cpc`: an open beside a directory operation goes through null. -/
theorem cpcFails (inv : CpcInv s) (ran : cpcStep s event = some next) (beside : ¬opensAlone s event) : next.faulted = true := by
  have live := runRan inv ran
  unfold runStep at live
  cases event with
  | open_ accepted =>
    obtain ⟨room,readers⟩ := Classical.not_imp.mp beside
    have mounted : s.kill = .mounted := by
      by_contra other
      exact readers (inv.quiet other)
    have missing : s.cpc = none := by
      cases made : s.cpc with
      | none => rfl
      | some restart => exact absurd mounted (inv.present.mp (by rw [made]; rfl))
    have locked : s.cpSemLocked = true := by simp [CpcRun.cpSemLocked,readers]
    dsimp only at live
    split at live
    case h_2 => cases live
    case h_1 type opening =>
      rw [(openEmptyFaults type.code accepted s).mpr ⟨room,locked,missing⟩] at live
      cases live
      rfl
  | enter | leave | getZone | scan | complete | invalidate | kill | lock | unlock => exact absurd trivial beside

end

/-- In every run from a mount on, `get_zone` has a `cpc` whenever it finds `cp_sem` locked, if and
only if no step opens a zone while a directory operation holds `cp_sem`. -/
theorem cpcPresent (zm : ZmInfo) (events : List CpcEvent) :
    Always (fun s => s.faulted = false) cpcStep (cpcStart zm) events ↔ Meets opensAlone cpcStep (cpcStart zm) events := by
  have init : CpcInv (cpcStart zm) := ⟨rfl,⟨fun none_ => Bool.noConfusion none_,fun other => absurd rfl other⟩,fun other => absurd rfl other⟩
  refine alwaysIff CpcInv (fun _ inv => inv.running) (fun _ _ _ inv ran alone => cpcKeeps inv ran alone) ?_ init
  intro s event next inv ran beside running
  rw [cpcFails inv ran beside] at running
  cases running

/-- A first metadata page after mkfs is written while `xcpfs_mknod` adds its link. -/
theorem cpcMissing : ¬∀ (zm : ZmInfo) (events : List CpcEvent),
    Always (fun s => s.faulted = false) cpcStep (cpcStart zm) events := by
  intro claim
  obtain ⟨last,ran⟩ : ∃ last, exec cpcStep (cpcStart mkfsTable) [.enter,.getZone .metaData,.open_ true] = some last := ⟨_,rfl⟩
  have running := alwaysEnd (claim mkfsTable [.enter,.getZone .metaData,.open_ true]) ran
  have faulted : (exec cpcStep (cpcStart mkfsTable) [.enter,.getZone .metaData,.open_ true]).map CpcRun.faulted = some true := rfl
  rw [ran] at faulted
  rw [Option.map_some,running] at faulted
  cases faulted

end Xcpfs
