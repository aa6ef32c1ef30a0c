import Xcpfs.InodePage
import Xcpfs.NodeValues

/-! Inodes between the memory and their node pages. An inode is changed in memory and marked dirty,
written to its page by `xcpfs_write_inode`, leaves the memory when it is clean, and is read again by
`xcpfs_iget`; the page goes to the device and comes back meanwhile. -/
namespace Xcpfs

open EventRun

/- The operations that `xcpfs_set_inode` installs. -/
inductive InodeOps where | none | mapping | file | dir
  deriving DecidableEq, Repr

def sIfmt : BitVec 16 := 0xf000
def sIsreg (mode : BitVec 16) : Bool := mode &&& sIfmt = 0x8000
def sIsdir (mode : BitVec 16) : Bool := mode &&& sIfmt = 0x4000

def xcpfsSetInode (ino : Nat) (mode : BitVec 16) : InodeOps :=
  if ino = metaIno then .mapping
  else if ino = nodeIno then .mapping
  else if sIsreg mode then .file
  else if sIsdir mode then .dir
  else .none

/- What `iget_locked` hands over for a new inode. -/
def blankInode : KernelInode where
  iMode := 0
  iUid := 0
  iGid := 0
  iNlink := 1
  iSize := 0
  iBlocks := 0
  iAtime := ⟨0,0⟩
  iCtime := ⟨0,0⟩
  iMtime := ⟨0,0⟩
  iGeneration := 0

/- The attributes in a node page. -/
def attrsOf (ri : RawInode) : KernelInode := xcpfsFillInode blankInode ri

structure CachedInode where
  attrs : KernelInode
  ops : InodeOps
  dirty : Bool

structure InodeRun where
  node : NodeRun
  inodes : Nat → Option CachedInode

def InodeRun.cache (s : InodeRun) (ino : Nat) (inode : CachedInode) : InodeRun :=
  { s with inodes := Function.update s.inodes ino (some inode) }

inductive InodeEvent where
  | io (event : IoEvent)
  | iget (ino : Nat)
  | create (ino : Nat) (attrs : KernelInode)
  | change (ino : Nat) (attrs : KernelInode)
  | writeInode (ino : Nat)
  | drop (ino : Nat)

/- Only `xcpfs_update_inode_page` stores attributes in a page. -/
def IoEvent.storesAttrs : IoEvent → Bool
  | .change _ (.inode _) => true
  | _ => false

/-- `xcpfs_iget` of an inode other than the node inode, once `get_node_page` gave it the page. -/
def xcpfsIgetPage (s : InodeRun) (ino : Nat) : Option InodeRun :=
  match s.inodes ino with
  | some _ => some s
  | none =>
    if s.node.owned (nodeKey ino) ∧ (s.node.flags (nodeKey ino)).uptodate then
      let attrs := attrsOf (s.node.io.image ino).inode
      some (s.cache ino ⟨attrs,xcpfsSetInode ino attrs.iMode,false⟩)
    else none

/-- `xcpfs_write_inode` up to the sync of the page, which are events of its own. -/
def xcpfsWriteInode (s : InodeRun) (ino : Nat) : Option InodeRun :=
  (s.inodes ino).bind fun c =>
    (nodeStep s.node (.change ino (.inode c.attrs.raw))).map fun node => { s with node := node }.cache ino { c with dirty := false }

def inodeStep (s : InodeRun) : InodeEvent → Option InodeRun
  | .io event => if event.storesAttrs then none else (nodeStep s.node event).map fun node => { s with node := node }
  | .iget ino => if ino = nodeIno then none else xcpfsIgetPage s ino
  | .create ino attrs =>
    match s.inodes ino with
    | some _ => none
    | none => if s.node.known ino then some (s.cache ino ⟨attrs,xcpfsSetInode ino attrs.iMode,true⟩) else none
  | .change ino attrs => (s.inodes ino).bind fun c =>
    -- an inode stays a file or a directory
    if attrs.iMode &&& sIfmt = c.attrs.iMode &&& sIfmt then some (s.cache ino { c with attrs := attrs, dirty := true }) else none
  | .writeInode ino => if ino = nodeIno then none else xcpfsWriteInode s ino
  | .drop ino => (s.inodes ino).bind fun c =>
    if c.dirty then none else some { s with inodes := Function.update s.inodes ino none }

def KernelInode.NsecFits (attrs : KernelInode) : Prop := attrs.iAtime.tvNsec.toNat < 2 ^ 32 ∧ attrs.iMtime.tvNsec.toNat < 2 ^ 32

/- Nanoseconds fit 32 bits. -/
def inodeTakes (s : InodeRun) : InodeEvent → Prop
  | .io event => noIoError s.node event
  | .create _ attrs | .change _ attrs => attrs.NsecFits
  | _ => True

/- What was set last, and the change time that each node page was made with. -/
structure InodeShadow where
  run : InodeRun
  last : Nat → KernelInode
  born : Nat → Timespec

def bornOf (ri : RawInode) : Timespec := (attrsOf ri).iCtime

/- A taken nid has a blank page. -/
def takenBy (s : NodeRun) : IoEvent → Option Nat
  | .prep event => takenNid s.io.nat.nm event
  | _ => none

def InodeShadow.note (s : InodeShadow) : InodeEvent → (Nat → KernelInode) × (Nat → Timespec)
  | .io event => ((takenBy s.run.node event).elim s.last fun nid => Function.update s.last nid (attrsOf .zero),
      (takenBy s.run.node event).elim s.born fun nid => Function.update s.born nid (bornOf .zero))
  | .create ino attrs | .change ino attrs => (Function.update s.last ino attrs,s.born)
  | .drop ino => (Function.update s.last ino { s.last ino with iCtime := s.born ino },s.born)
  | _ => (s.last,s.born)

def inodeShadowStep (s : InodeShadow) (event : InodeEvent) : Option InodeShadow :=
  (inodeStep s.run event).map fun run => ⟨run,(s.note event).1,(s.note event).2⟩

/- One inode in memory or on its page. -/
structure InodeOk (s : InodeShadow) (ino : Nat) : Prop where
  born : bornOf (s.run.node.value ino).inode = s.born ino
  page : s.run.inodes ino = none → AttrsAgree (s.last ino) (attrsOf (s.run.node.value ino).inode)
  cached : ∀ c, s.run.inodes ino = some c → AttrsAgree (s.last ino) c.attrs ∧ c.ops = xcpfsSetInode ino c.attrs.iMode
  clean : ∀ c, s.run.inodes ino = some c → c.dirty = false →
    AttrsAgree { s.last ino with iCtime := s.born ino } (attrsOf (s.run.node.value ino).inode)
  fits : (s.last ino).NsecFits

structure InodesInv (s : InodeShadow) : Prop where
  inv : NodeInv s.run.node
  steady : PagesSteady s.run.node
  listed : ∀ ino c, s.run.inodes ino = some c → s.run.node.known ino = true
  ok : ∀ ino, s.run.node.known ino = true → s.run.node.invalid ino = false → InodeOk s ino

section
variable {s t : InodeShadow} {ino : Nat} {attrs : KernelInode} {ri : RawInode} {event : InodeEvent}

theorem attrsUpdated (atime : attrs.iAtime.tvNsec.toNat < 2 ^ 32) (mtime : attrs.iMtime.tvNsec.toNat < 2 ^ 32) :
    AttrsAgree { attrs with iCtime := bornOf ri } (attrsOf (ri.updated attrs.raw)) where
  mode := wordBack attrs.iMode
  uid := wordBack attrs.iUid
  gid := wordBack attrs.iGid
  nlink := wordBack attrs.iNlink
  size := wordBack attrs.iSize
  atime := congrArg₂ Timespec.mk (wordBack attrs.iAtime.tvSec) (nsecBack.mpr atime)
  ctime := rfl
  mtime := congrArg₂ Timespec.mk (wordBack attrs.iMtime.tvSec) (nsecBack.mpr mtime)
  generation := wordBack attrs.iGeneration

theorem attrsRefl (attrs : KernelInode) : AttrsAgree attrs attrs := ⟨rfl,rfl,rfl,rfl,rfl,rfl,rfl,rfl,rfl⟩

theorem agreeOf {other third : KernelInode} (same : attrs = other) (agree : AttrsAgree other third) : AttrsAgree attrs third := same.symm ▸ agree

theorem fitsOf {other : KernelInode} (same : attrs = other) (fits : other.NsecFits) : attrs.NsecFits := same.symm ▸ fits

theorem setInodeKind {mode other : BitVec 16} (same : mode &&& sIfmt = other &&& sIfmt) : xcpfsSetInode ino mode = xcpfsSetInode ino other := by
  unfold xcpfsSetInode sIsreg sIsdir
  rw [same]

theorem agreeCtime {other : KernelInode} (agree : AttrsAgree attrs other) (time : Timespec) (same : other.iCtime = time) :
    AttrsAgree { attrs with iCtime := time } other :=
  ⟨agree.mode,agree.uid,agree.gid,agree.nlink,agree.size,agree.atime,same,agree.mtime,agree.generation⟩

theorem storesNoAttrs {s : NodeRun} {event : IoEvent} (nodes : Nat → NodeImage) (plain : event.storesAttrs = false) (nid : Nat)
    (other : takenBy s event ≠ some nid) : (storeNodes s event nodes nid).inode = (nodes nid).inode := by
  have update : ∀ n (change : NodeChange), (∀ image : NodeImage, (change.apply image).inode = image.inode) →
      (Function.update nodes n (change.apply (nodes n)) nid).inode = (nodes nid).inode := by
    intro n change same
    rw [Function.update_apply]
    split
    · rename_i here
      rw [same,here]
    · rfl
  cases event with
  | change n change =>
    cases change with
    | inode vfs => contradiction
    | nid i v => exact update n (.nid i v) fun _ => rfl
    | slot i v => exact update n (.slot i v) fun _ => rfl
    | addr i v => exact update n (.addr i v) fun _ => rfl
  | complete i status =>
    unfold storeNodes
    cases stored : IoEvent.stores s (.complete i status) with
    | none => rfl
    | some store =>
      obtain ⟨n,change⟩ := store
      obtain ⟨f,_,here⟩ := Option.bind_eq_some_iff.mp stored
      split at here
      · obtain ⟨dnode,_,same⟩ := Option.map_eq_some_iff.mp here
        cases same
        exact update _ _ fun image => by rw [dataChangeApply]
      · contradiction
  | prep event =>
    unfold storeNodes
    have here : takenNid s.io.nat.nm event ≠ some nid := other
    simp only [IoEvent.stores]
    cases taken : takenNid s.io.nat.nm event with
    | none => rfl
    | some n =>
      have apart : nid ≠ n := fun same => here (same ▸ taken)
      rw [Option.elim_some,Function.update_of_ne apart]
  | _ => rfl

theorem takenUnknown {s t : NodeRun} {event : IoEvent} (inv : NodeInv s) (ran : nodeStep s event = some t)
    (taken : takenBy s event = some ino) : s.known ino = false := by
  cases event with
  | prep event =>
    obtain ⟨nat,done,_⟩ := Option.map_eq_some_iff.mp ran
    cases event with
    | load iblock => contradiction
    | alloc isMeta use =>
      obtain ⟨⟨nm,ne⟩,found,_⟩ := Option.map_eq_some_iff.mp done
      obtain ⟨_,unknown,_⟩ := natOkTake inv.nat found use
      have same : takenNid s.io.nat.nm (.alloc isMeta use) = some ne.nid := by simp only [takenNid,found,Option.map_some]
      rw [← Option.some.inj (same.symm.trans taken)]
      exact unknown
  | _ => contradiction

theorem inodeSame (ok : InodeOk s ino) (inode : t.run.inodes ino = s.run.inodes ino) (last : t.last ino = s.last ino)
    (born : t.born ino = s.born ino) (page : (t.run.node.value ino).inode = (s.run.node.value ino).inode) : InodeOk t ino := by
  refine ⟨?_,fun absent => ?_,fun c here => ?_,fun c here clean => ?_,?_⟩
  · rw [page,born]
    exact ok.born
  · rw [page,last]
    exact ok.page (inode ▸ absent)
  · rw [last]
    exact ok.cached c (inode ▸ here)
  · rw [page,last,born]
    exact ok.clean c (inode ▸ here) clean
  · rw [last]
    exact ok.fits

theorem inodeFresh (value : t.run.node.value ino = .zero) (absent : t.run.inodes ino = none) (last : t.last ino = attrsOf .zero)
    (born : t.born ino = bornOf .zero) : InodeOk t ino := by
  refine ⟨by rw [value,born]; rfl,fun _ => ?_,fun c here => ?_,fun c here => ?_,?_⟩
  · rw [value,last]
    exact attrsRefl _
  · rw [absent] at here
    contradiction
  · rw [absent] at here
    contradiction
  · exact fitsOf last ⟨by decide,by decide⟩

theorem elimOther {A : Type} {taken : Option Nat} {f : Nat → A} (other : taken ≠ some ino) (value : A) :
    (taken.elim f fun nid => Function.update f nid value) ino = f ino := by
  cases taken with
  | none => rfl
  | some nid => exact Function.update_of_ne (fun same => other (congrArg some same.symm)) ..

theorem ioKeeps {event : IoEvent} (inv : InodesInv s) (guard : noIoError s.run.node event)
    (ran : inodeShadowStep s (.io event) = some t) : InodesInv t := by
  obtain ⟨run,step,rfl⟩ := Option.map_eq_some_iff.mp ran
  simp only [inodeStep] at step
  split at step
  · contradiction
  · rename_i plain
    obtain ⟨node,moved,rfl⟩ := Option.map_eq_some_iff.mp step
    have stepped := nodeStepValues inv.inv inv.steady guard moved
    have plain : event.storesAttrs = false := Bool.not_eq_true _ ▸ plain
    have untaken : ∀ ino, s.run.node.known ino = true → takenBy s.run.node event ≠ some ino := by
      intro ino old taken
      cases old.symm.trans (takenUnknown inv.inv moved taken)
    refine ⟨nodeStepKeeps _ _ _ inv.inv guard moved,stepped.steady,fun ino c here => stepped.known ino (inv.listed ino c here),
      fun ino known valid => ?_⟩
    cases old : s.run.node.known ino with
    | true =>
      have other := untaken ino old
      refine inodeSame (inv.ok ino old (stepped.invalid ino valid)) rfl ?_ ?_ ?_
      · exact elimOther other _
      · exact elimOther other _
      · exact (congrArg NodeImage.inode (stepped.value ino known valid)).trans (storesNoAttrs _ plain ino other)
    | false =>
      obtain ⟨prep,rfl,taken⟩ := stepped.fresh ino known old
      refine inodeFresh ((stepped.value ino known valid).trans ?_) ?_ ?_ ?_
      · simp [storeNodes,IoEvent.stores,taken]
      · cases here : s.run.inodes ino with
        | none => rfl
        | some c => cases old.symm.trans (inv.listed ino c here)
      · simp [InodeShadow.note,takenBy,taken]
      · simp [InodeShadow.note,takenBy,taken]

theorem attrsTrans {other third : KernelInode} (first : AttrsAgree attrs other) (second : AttrsAgree other third) : AttrsAgree attrs third where
  mode := second.mode.trans first.mode
  uid := second.uid.trans first.uid
  gid := second.gid.trans first.gid
  nlink := second.nlink.trans first.nlink
  size := second.size.trans first.size
  atime := second.atime.trans first.atime
  ctime := second.ctime.trans first.ctime
  mtime := second.mtime.trans first.mtime
  generation := second.generation.trans first.generation

theorem cacheKeeps {run : InodeRun} {last : Nat → KernelInode} (inv : InodesInv s) (node : run.node = s.run.node)
    (listed : ∀ e c, run.inodes e = some c → s.run.node.known e = true) (inode : ∀ e, e ≠ ino → run.inodes e = s.run.inodes e)
    (after : ∀ e, e ≠ ino → last e = s.last e) (here : s.run.node.known ino = true → s.run.node.invalid ino = false → InodeOk ⟨run,last,s.born⟩ ino) :
    InodesInv ⟨run,last,s.born⟩ := by
  refine ⟨?_,?_,fun e c there => ?_,fun e known valid => ?_⟩
  · exact node ▸ inv.inv
  · exact node ▸ inv.steady
  · exact (congrArg (NodeRun.known · e) node).trans (listed e c there)
  · have known : s.run.node.known e = true := (congrArg (NodeRun.known · e) node).symm.trans known
    have valid : s.run.node.invalid e = false := (congrArg (NodeRun.invalid · e) node).symm.trans valid
    by_cases same : e = ino
    · subst same
      exact here known valid
    · exact inodeSame (inv.ok e known valid) (inode e same) (after e same) rfl (congrArg (fun node => (node.value e).inode) node)

theorem cachedListed {c : CachedInode} (inv : InodesInv s) (known : s.run.node.known ino = true) (e : Nat) (d : CachedInode)
    (there : (s.run.cache ino c).inodes e = some d) : s.run.node.known e = true := by
  by_cases same : e = ino
  · exact same ▸ known
  · exact inv.listed e d ((Function.update_of_ne same ..).symm.trans there)

theorem igetKeeps (inv : InodesInv s) (ran : inodeShadowStep s (.iget ino) = some t) : InodesInv t := by
  obtain ⟨run,step,same⟩ := Option.map_eq_some_iff.mp ran
  subst same
  simp only [inodeStep] at step
  split at step
  · contradiction
  · unfold xcpfsIgetPage at step
    split at step
    · cases step
      exact inv
    · rename_i absent
      split at step
      · rename_i page
        cases step
        have known : s.run.node.known ino = true := inv.inv.cached ino (.inr page.2)
        refine cacheKeeps inv rfl (cachedListed inv known) (fun e far => Function.update_of_ne far ..) (fun _ _ => rfl) fun _ valid => ?_
        have old := inv.ok ino known valid
        have value : s.run.node.value ino = s.run.node.io.image ino := valueUptodate page.2
        have attrs := old.page absent
        refine ⟨old.born,fun bad => ?_,fun c here => ?_,fun c _ _ => ?_,old.fits⟩
        · cases (Function.update_self ..).symm.trans bad
        · cases (Function.update_self ..).symm.trans here
          exact ⟨value ▸ attrs,rfl⟩
        · exact agreeCtime attrs _ old.born
      · contradiction

theorem createKeeps (inv : InodesInv s) (guard : inodeTakes s.run (.create ino attrs))
    (ran : inodeShadowStep s (.create ino attrs) = some t) : InodesInv t := by
  obtain ⟨run,step,same⟩ := Option.map_eq_some_iff.mp ran
  subst same
  simp only [inodeStep] at step
  split at step
  · contradiction
  · split at step
    · rename_i known
      cases step
      refine cacheKeeps inv rfl (cachedListed inv known) (fun e far => Function.update_of_ne far ..) (fun e far => Function.update_of_ne far ..)
        fun _ valid => ?_
      have last : Function.update s.last ino attrs ino = attrs := Function.update_self ..
      refine ⟨(inv.ok ino known valid).born,fun bad => ?_,fun c here => ?_,fun c here clean => ?_,?_⟩
      · cases (Function.update_self ..).symm.trans bad
      · cases (Function.update_self ..).symm.trans here
        exact ⟨agreeOf last (attrsRefl attrs),rfl⟩
      · cases (Function.update_self ..).symm.trans here
        contradiction
      · exact fitsOf last guard
    · contradiction

theorem changeInodeKeeps (inv : InodesInv s) (guard : inodeTakes s.run (.change ino attrs))
    (ran : inodeShadowStep s (.change ino attrs) = some t) : InodesInv t := by
  obtain ⟨run,step,same⟩ := Option.map_eq_some_iff.mp ran
  subst same
  obtain ⟨old,present,step⟩ := Option.bind_eq_some_iff.mp step
  obtain ⟨kind,same⟩ := Option.ite_none_right_eq_some.mp step
  cases same
  have known := inv.listed ino old present
  refine cacheKeeps inv rfl (cachedListed inv known) (fun e far => Function.update_of_ne far ..) (fun e far => Function.update_of_ne far ..)
    fun _ valid => ?_
  have last : Function.update s.last ino attrs ino = attrs := Function.update_self ..
  have ok := inv.ok ino known valid
  refine ⟨ok.born,fun bad => ?_,fun c here => ?_,fun c here clean => ?_,?_⟩
  · cases (Function.update_self ..).symm.trans bad
  · cases (Function.update_self ..).symm.trans here
    exact ⟨agreeOf last (attrsRefl attrs),(ok.cached old present).2.trans (setInodeKind kind.symm)⟩
  · cases (Function.update_self ..).symm.trans here
    contradiction
  · exact fitsOf last guard

theorem dropKeeps (inv : InodesInv s) (ran : inodeShadowStep s (.drop ino) = some t) : InodesInv t := by
  obtain ⟨run,step,same⟩ := Option.map_eq_some_iff.mp ran
  subst same
  obtain ⟨old,present,step⟩ := Option.bind_eq_some_iff.mp step
  split at step
  · contradiction
  · rename_i written
    cases step
    refine cacheKeeps inv rfl (fun e c there => ?_) (fun e far => Function.update_of_ne far ..)
      (fun e far => Function.update_of_ne far ..) fun known valid => ?_
    · by_cases same : e = ino
      · subst same
        cases (Function.update_self ..).symm.trans there
      · exact inv.listed e c ((Function.update_of_ne same ..).symm.trans there)
    · have ok := inv.ok ino known valid
      have last : Function.update s.last ino { s.last ino with iCtime := s.born ino } ino = { s.last ino with iCtime := s.born ino } :=
        Function.update_self ..
      have clean := ok.clean old present ((Bool.not_eq_true _).mp written)
      refine ⟨ok.born,fun _ => ?_,fun c here => ?_,fun c here => ?_,?_⟩
      · exact agreeOf last clean
      · cases (Function.update_self ..).symm.trans here
      · cases (Function.update_self ..).symm.trans here
      · exact fitsOf last ok.fits

theorem writeInodeKeeps (inv : InodesInv s) (ran : inodeShadowStep s (.writeInode ino) = some t) : InodesInv t := by
  obtain ⟨run,step,same⟩ := Option.map_eq_some_iff.mp ran
  subst same
  simp only [inodeStep] at step
  split at step
  · contradiction
  · obtain ⟨old,present,step⟩ := Option.bind_eq_some_iff.mp step
    obtain ⟨node,moved,same⟩ := Option.map_eq_some_iff.mp step
    subst same
    have guard : noIoError s.run.node (.change ino (.inode old.attrs.raw)) := trivial
    have stepped := nodeStepValues inv.inv inv.steady guard moved
    have members : ∀ e, node.known e = true → s.run.node.known e = true := by
      intro e known
      cases was : s.run.node.known e with
      | true => rfl
      | false =>
        obtain ⟨prep,bad,_⟩ := stepped.fresh e known was
        cases bad
    refine ⟨nodeStepKeeps _ _ _ inv.inv guard moved,stepped.steady,fun e c there => ?_,fun e known valid => ?_⟩
    · by_cases same : e = ino
      · subst same
        exact stepped.known e (inv.listed e old present)
      · exact stepped.known e (inv.listed e c ((Function.update_of_ne same ..).symm.trans there))
    · have ok := inv.ok e (members e known) (stepped.invalid e valid)
      have value : node.value e = Function.update s.run.node.value ino
          ((NodeChange.inode old.attrs.raw).apply (s.run.node.value ino)) e := stepped.value e known valid
      by_cases same : e = ino
      · subst same
        have value : (node.value e).inode = (s.run.node.value e).inode.updated old.attrs.raw :=
          congrArg NodeImage.inode (value.trans (Function.update_self ..))
        obtain ⟨agree,ops⟩ := ok.cached old present
        have atime : old.attrs.iAtime.tvNsec.toNat < 2 ^ 32 := agree.atime ▸ ok.fits.1
        have mtime : old.attrs.iMtime.tvNsec.toNat < 2 ^ 32 := agree.mtime ▸ ok.fits.2
        refine ⟨?_,fun bad => ?_,fun c here => ?_,fun c here _ => ?_,ok.fits⟩
        · exact (congrArg bornOf value).trans ok.born
        · cases (Function.update_self ..).symm.trans bad
        · cases (Function.update_self ..).symm.trans here
          exact ⟨agree,ops⟩
        · have stored := @attrsUpdated old.attrs (s.run.node.value e).inode atime mtime
          have born : AttrsAgree { s.last e with iCtime := s.born e } { old.attrs with iCtime := bornOf (s.run.node.value e).inode } :=
            ⟨agree.mode,agree.uid,agree.gid,agree.nlink,agree.size,agree.atime,ok.born,agree.mtime,agree.generation⟩
          change AttrsAgree _ (attrsOf (node.value e).inode)
          rw [value]
          exact attrsTrans born stored
      · have value : node.value e = s.run.node.value e := value.trans (Function.update_of_ne same ..)
        exact inodeSame ok (Function.update_of_ne same ..) rfl rfl (congrArg NodeImage.inode value)

/- `xcpfs_iget` leaves the pages, and the inode is in memory afterwards. -/
theorem igetDone {run : InodeRun} {u : InodeRun} (got : inodeStep run (.iget ino) = some u) :
    u.node = run.node ∧ ∃ c, u.inodes ino = some c := by
  simp only [inodeStep] at got
  split at got
  · contradiction
  · unfold xcpfsIgetPage at got
    split at got
    · rename_i c present
      cases got
      exact ⟨rfl,c,present⟩
    · split at got
      · cases got
        exact ⟨rfl,_,Function.update_self ..⟩
      · contradiction

theorem inodesKeep (inv : InodesInv s) (guard : inodeTakes s.run event) (ran : inodeShadowStep s event = some t) : InodesInv t := by
  cases event with
  | io event => exact ioKeeps inv guard ran
  | iget ino => exact igetKeeps inv ran
  | create ino attrs => exact createKeeps inv guard ran
  | change ino attrs => exact changeInodeKeeps inv guard ran
  | writeInode ino => exact writeInodeKeeps inv ran
  | drop ino => exact dropKeeps inv ran

end

/- A mount before any inode is read. -/
def inodeStart (nat : NatDisk) (zm : ZmInfo) (disk : Nat → NodeImage) (written referenced : Nat → Bool) : InodeShadow where
  run := ⟨nodeStart nat zm disk written referenced,fun _ => none⟩
  last := fun ino => attrsOf ((nodeStart nat zm disk written referenced).stored ino).inode
  born := fun ino => bornOf ((nodeStart nat zm disk written referenced).stored ino).inode

/- The inodes of the image are the bytes of blocks. -/
def BlockBytes (disk : Nat → NodeImage) : Prop := ∀ a, ∃ block, (disk a).inode = rawInode block

section
variable {nat : NatDisk} {zm : ZmInfo} {disk : Nat → NodeImage} {written referenced : Nat → Bool} {events : List InodeEvent} {t : InodeShadow}
  {u : InodeRun} {ino : Nat}

theorem nsecFits (block : CBytes.Memory) : (attrsOf (rawInode block)).NsecFits := by
  have small : ∀ n, n < 2 ^ 32 → (BitVec.ofNat 64 n).toNat < 2 ^ 32 := by
    intro n below
    rw [BitVec.toNat_ofNat]
    exact (Nat.mod_le ..).trans_lt below
  exact ⟨small _ (CBytes.getFieldBelow block XcpfsInode.iAtimeNsec),small _ (CBytes.getFieldBelow block XcpfsInode.iMtimeNsec)⟩

theorem startFits (bytes : BlockBytes disk) (ino : Nat) :
    (attrsOf ((nodeStart nat zm disk written referenced).stored ino).inode).NsecFits := by
  have zero : (attrsOf NodeImage.zero.inode).NsecFits := ⟨by decide,by decide⟩
  unfold NodeRun.stored
  dsimp only
  split
  · exact zero
  · obtain ⟨block,same⟩ := bytes (((nodeStart nat zm disk written referenced).addr ino).getD 0)
    exact fitsOf (congrArg attrsOf same) (nsecFits block)

theorem inodeStartInv (imaged : Imaged nat written referenced) (bytes : BlockBytes disk) :
    InodesInv (inodeStart nat zm disk written referenced) where
  inv := nodeStartInv imaged
  steady := ⟨fun _ bad => by contradiction,fun _ bad => by contradiction⟩
  listed _ _ bad := by contradiction
  ok ino _ _ := by
    have value : (nodeStart nat zm disk written referenced).value ino = (nodeStart nat zm disk written referenced).stored ino := valueStored rfl
    refine ⟨congrArg (fun image : NodeImage => bornOf image.inode) value,fun _ => ?_,fun c bad => by contradiction,fun c bad => by contradiction,
      startFits bytes ino⟩
    exact agreeOf (congrArg (fun image : NodeImage => attrsOf image.inode) value.symm) (attrsRefl _)

/-- Over every run of a mount without I/O errors, `xcpfs_iget` returns an inode with the attributes
that were set last and the operations of its kind, whatever went to the device and came back in
between; the change time alone is that of the page again once an inode has left the memory. -/
theorem attributesKept (imaged : Imaged nat written referenced) (bytes : BlockBytes disk)
    (run : Run (fun s : InodeShadow => inodeTakes s.run) inodeShadowStep (inodeStart nat zm disk written referenced) events t)
    (allocated : t.run.node.known ino = true) (valid : t.run.node.invalid ino = false) :
    (inodeStep t.run (.iget ino) = some u →
      ∃ c, u.inodes ino = some c ∧ AttrsAgree (t.last ino) c.attrs ∧ c.ops = xcpfsSetInode ino c.attrs.iMode) ∧
    ((∀ c, t.run.inodes ino = some c → c.dirty = false) →
      ((t.run.node.flags (nodeKey ino)).uptodate = false ∨
        (t.run.node.flags (nodeKey ino)).dirty = false ∧ (t.run.node.flags (nodeKey ino)).writeback = false) →
      AttrsAgree { t.last ino with iCtime := t.born ino } (attrsOf (t.run.node.stored ino).inode)) := by
  have inv := invariant InodesInv (fun _ _ _ inv guard ran => inodesKeep inv guard ran) run (inodeStartInv imaged bytes)
  constructor
  · intro got
    have next : inodeShadowStep t (.iget ino) = some ⟨u,t.last,t.born⟩ := congrArg (Option.map _) got
    have after := igetKeeps inv next
    obtain ⟨node,c,here⟩ := igetDone got
    have known : u.node.known ino = true := node ▸ allocated
    have valid : u.node.invalid ino = false := node ▸ valid
    obtain ⟨agree,ops⟩ := (after.ok ino known valid).cached c here
    exact ⟨c,here,agree,ops⟩
  · intro clean settled
    have ok := inv.ok ino allocated valid
    have value : AttrsAgree { t.last ino with iCtime := t.born ino } (attrsOf (t.run.node.value ino).inode) := by
      cases present : t.run.inodes ino with
      | none => exact agreeCtime (ok.page present) _ ok.born
      | some c => exact ok.clean c present (clean c present)
    rw [settledValue inv.inv allocated valid settled] at value
    exact value

end

/- The root directory is read, gets a link and a page, and is synced; it leaves the memory with its
page, and the page is read again. -/
def linkedRoot : KernelInode := { attrsOf .zero with iNlink := 2, iSize := 8192, iCtime := ⟨7,0⟩ }

def rereadRoot : List InodeEvent :=
  readRoot.map .io ++ [.io (.lock (nodeKey 3)),.iget 3,.change 3 linkedRoot,.writeInode 3,.io (.begin (nodeKey 3) true),
    .io (.submit (nodeKey 3) none []),.io (.land 0 21 .zero),.io (.complete 0 .ok),.drop 3,.io (.release (nodeKey 3))] ++
    readRoot.map .io ++ [.io (.lock (nodeKey 3))]

/-- What the page brings back to the root directory: its link and its size, not its change time. -/
theorem attributesKeptRoot : ∃ t u c, exec inodeShadowStep (inodeStart mkfsNat mkfsTable (fun _ => .zero)
      (fun blkaddr => decide (blkaddr ∈ [0,12,20])) fun nid => decide (nid = 1 ∨ nid = 3)) rereadRoot = some t ∧
    inodeStep t.run (.iget 3) = some u ∧ u.inodes 3 = some c ∧ c.attrs.iSize = 8192 ∧ c.attrs.iNlink = 2 ∧ c.attrs.iCtime = ⟨0,0⟩ := by
  have reread : ((exec inodeShadowStep (inodeStart mkfsNat mkfsTable (fun _ => .zero) (fun blkaddr => decide (blkaddr ∈ [0,12,20]))
      fun nid => decide (nid = 1 ∨ nid = 3)) rereadRoot).any fun t => t.run.node.known 3 && (!t.run.node.invalid 3 &&
        ((inodeStep t.run (.iget 3)).isSome && decide ((t.last 3).iSize = 8192 ∧ (t.last 3).iNlink = 2 ∧ (t.last 3).iCtime = ⟨0,0⟩)))) = true := by
    decide +kernel
  obtain ⟨t,ran,holds⟩ := (Option.any_eq_true ..).mp reread
  simp only [Bool.and_eq_true,Bool.not_eq_true',decide_eq_true_eq] at holds
  obtain ⟨allocated,valid,got,size,nlink,ctime⟩ := holds
  obtain ⟨u,got⟩ := Option.isSome_iff_exists.mp got
  have guarded : ∀ start, Guarded (fun s : InodeShadow => inodeTakes s.run) inodeShadowStep start rereadRoot := by
    refine guardedAll fun event member s => ?_
    cases event with
    | io event =>
      cases event with
      | complete i status =>
        cases status with
        | ok => rfl
        | ioerr => simp [rereadRoot,readRoot] at member
      | _ => trivial
    | create ino attrs => simp [rereadRoot,readRoot] at member
    | change ino attrs =>
      have same : ino = 3 ∧ attrs = linkedRoot := by simpa [rereadRoot,readRoot] using member
      exact fitsOf same.2 ⟨by decide,by decide⟩
    | _ => trivial
  obtain ⟨c,here,agree,_⟩ := (attributesKept mkfsImaged (fun _ => ⟨fun _ => 0,rfl⟩) (ofExec ran (guarded _)) allocated valid).1 got
  exact ⟨t,u,c,ran,got,here,agree.size.trans size,agree.nlink.trans nlink,agree.ctime.trans ctime⟩

end Xcpfs
