import Xcpfs.NatAlloc
import Xcpfs.NatRegion

/-! Which nids `alloc_free_nat` can still hand out. It takes them from the list of free
entries only, and no function moves an entry back there: a nid that `invalidate_nat`
releases while it is in the list of used entries is lost for the mount. -/
namespace Xcpfs
open EventRun

/- A nid that the allocation passes over: its entry is in the list of used entries, or
it is not cached and its NAT block gives it an address. -/
def NatFile.held (file : NatFile) (nm : NatInfo) (n : Nat) : Bool :=
  match nm.slot n with
  | some (used,_) => used
  | none => (file.raw n).blockAddr ≠ 0

/- The nids of a class have their entries in the NAT blocks of its region. -/
def InClass (isMeta : Bool) (n : Nat) : Prop :=
  isMetaNid n = isMeta ∧ 3 ≤ n ∧ n / natEntryPerBlock < regionEnd isMeta

/- One mount. `inUse` records which nids are allocated: those in use when it began,
those handed out since, less those released. -/
structure NatPool where
  fs : Fs
  inUse : Nat → Bool

/- A nid that a call has taken, for its caller or for a node of the meta file. -/
def handsOut (s t : Fs) (n : Nat) : Bool := t.nat.file.held t.nat.nm n && !s.nat.file.held s.nat.nm n

inductive PoolEvent where
  | alloc (isMeta : Bool) (rounds : Nat)
  | update (nid newBlkaddr : Nat) (pinned : Bool)
  | invalidate (nid : Nat)

def poolStep (fuel : Nat) (s : NatPool) : PoolEvent → Option NatPool
  | .alloc isMeta rounds =>
    (s.fs.allocNat fuel isMeta rounds).map fun (t,ne) =>
      ⟨t,Function.update (fun n => s.inUse n || handsOut s.fs t n) ne.nid true⟩
  | .update nid newBlkaddr pinned =>
    some { s with fs := { s.fs with nat := { s.fs.nat with nm := (updateNat s.fs.nat.nm nid newBlkaddr pinned).1 } } }
  | .invalidate nid =>
    (s.fs.invalidateNat fuel nid).map fun t => ⟨t,Function.update (fun n => s.inUse n || handsOut s.fs t n) nid false⟩

/- A mount whose pages are in memory as `s` has them. -/
def mountPool (s : Fs) : NatPool := ⟨s,s.nat.file.held s.nat.nm⟩

/- Some sequence of allocations ends with this nid. -/
inductive Allocatable (fuel : Nat) : Fs → Nat → Prop where
  | now {s t ne isMeta rounds} (ran : s.allocNat fuel isMeta rounds = some (t,ne)) : Allocatable fuel s ne.nid
  | later {s t ne isMeta rounds n} (ran : s.allocNat fuel isMeta rounds = some (t,ne)) (rest : Allocatable fuel t n) :
    Allocatable fuel s n

/- Every nid of the class that has no address and is not allocated can be handed out again. -/
def NoNidLost (fuel : Nat) (isMeta : Bool) (s : NatPool) : Prop :=
  ∀ n, InClass isMeta n → s.fs.addr n = some 0 → s.inUse n = false → Allocatable fuel s.fs n

/- Of the class, only a nid that is free anyway is released. -/
def ReleasesFree (isMeta : Bool) (s : NatPool) : PoolEvent → Prop
  | .invalidate nid => InClass isMeta nid → s.fs.nat.file.held s.fs.nat.nm nid = false
  | _ => True

structure PoolOk (isMeta : Bool) (s : NatPool) : Prop where
  nat : NatOk (fun _ => false) s.fs.nat.file s.fs.nat.nm
  held : ∀ n, InClass isMeta n → s.fs.nat.file.held s.fs.nat.nm n = true → s.inUse n = true

section
variable {file : NatFile} {nm next : NatInfo} {ne : NatEntry} {n nid : Nat} {isMeta : Bool}

theorem heldLoads (loads : Loads file nm next) (n : Nat) : file.held next n = file.held nm n := by
  unfold NatFile.held
  rcases loads.slot n with same | ⟨none_,_,fresh⟩
  · rw [same]
  · rw [fresh,none_]
    rfl

theorem heldPlace (place : (next.slot n).map Prod.fst = (nm.slot n).map Prod.fst) : file.held next n = file.held nm n := by
  unfold NatFile.held
  cases before : nm.slot n with
  | none =>
    rw [before] at place
    rw [Option.map_eq_none_iff.mp place]
  | some pair =>
    rw [before] at place
    obtain ⟨after,found,same⟩ := Option.map_eq_some_iff.mp place
    rw [found]
    exact same

theorem heldListed (here : nm.slot n = some (true,ne)) : file.held nm n = true := by
  unfold NatFile.held
  rw [here]

theorem heldFree (here : nm.slot n = some (false,ne)) : file.held nm n = false := by
  unfold NatFile.held
  rw [here]

theorem freeBound (list : List NatEntry) : ∃ bound, ∀ ne ∈ list, ne.nid < bound := by
  induction list with
  | nil => exact ⟨0,fun _ bad => absurd bad List.not_mem_nil⟩
  | cons head rest ih =>
    obtain ⟨bound,below⟩ := ih
    refine ⟨max bound (head.nid + 1),List.forall_mem_cons.mpr ⟨?_,fun ne member => ?_⟩⟩
    · exact Nat.lt_of_lt_of_le (Nat.lt_succ_self _) (Nat.le_max_right ..)
    · exact Nat.lt_of_lt_of_le (below ne member) (Nat.le_max_left ..)

end

section
variable {s t : NatMount} {n nid fuel rounds : Nat} {isMeta : Bool} {ne : NatEntry}

theorem heldWay (way : Way isMeta s t) (kind : isMetaNid n = isMeta) : t.file.held t.nm n = s.file.held s.nm n := by
  rw [way.file]
  unfold NatFile.held
  rcases way.same n kind with same | ⟨none_,_,fresh⟩
  · rw [same]
  · rw [fresh,none_]
    rfl

theorem heldPending (high : 3 ≤ n) (free : s.file.held s.nm n = false) : Pending s.file s.nm n := by
  unfold NatFile.held at free
  cases here : s.nm.slot n with
  | none =>
    rw [here] at free
    exact .inr ⟨here,high,by simpa using free⟩
  | some pair =>
    obtain ⟨used,ne⟩ := pair
    rw [here] at free
    cases free
    have found := (slotFree.mp here).2
    exact .inl ⟨ne,List.mem_of_find?_eq_some found,findNid found⟩

theorem prepRaises {event : PrepEvent} (ok : NatOk (fun _ => false) s.file s.nm) (ran : prepStep s event = some t)
    (held : s.file.held s.nm n = true) : t.file.held t.nm n = true := by
  cases event with
  | load iblock =>
    have loads := @loadsBlock s.file s.nm iblock
    obtain rfl := Option.some.inj ran
    dsimp only
    rw [heldLoads loads]
    exact held
  | alloc isMeta use =>
    obtain ⟨⟨nm,ne⟩,taken,same⟩ := Option.map_eq_some_iff.mp ran
    cases same
    dsimp only
    have slot := takenSlot ok.distinct taken use n
    by_cases here : ne.nid = n
    · exact heldListed (slot.trans (if_pos here))
    · rw [heldPlace (congrArg (Option.map Prod.fst) (slot.trans (if_neg here)))]
      exact held

/- Whatever is read or taken, a nid that was passed over is so afterwards. -/
theorem preparesRaise (ok : NatOk (fun _ => false) s.file s.nm) (prepares : Prepares s t) (held : s.file.held s.nm n = true) :
    t.file.held t.nm n = true := by
  have keeps : ∀ u event v, True → NatOk (fun _ => false) u.file u.nm ∧ u.file.held u.nm n = true → prepStep u event = some v →
      NatOk (fun _ => false) v.file v.nm ∧ v.file.held v.nm n = true := by
    intro u event v _ ⟨okU,heldU⟩ ran
    exact ⟨(prepSteady okU ran).1,prepRaises okU ran heldU⟩
  exact (preparesKeep keeps prepares ⟨ok,held⟩).2

end

/- What an allocation leaves: the nid it hands out was not passed over, and is so from then on. -/
structure Handed (s t : Fs) (ne : NatEntry) : Prop where
  nat : NatOk (fun _ => false) t.nat.file t.nat.nm
  was : s.nat.file.held s.nat.nm ne.nid = false
  now : t.nat.file.held t.nat.nm ne.nid = true
  kept : ∀ n, s.nat.file.held s.nat.nm n = true → t.nat.file.held t.nat.nm n = true

section
variable {s t : Fs} {n nid fuel rounds : Nat} {isMeta : Bool} {ne : NatEntry} {There : Fs → Prop}

theorem takeHeld {nm : NatInfo} (ok : NatOk (fun _ => false) s.nat.file s.nat.nm) (taken : freeNatEmpty s.nat.nm isMeta = some (nm,ne))
    (made : t.nat = { s.nat with nm := nm }) : Handed s t ne ∧
      ∀ n, n ≠ ne.nid → t.nat.file.held t.nat.nm n = s.nat.file.held s.nat.nm n := by
  have slot : ∀ n, t.nat.nm.slot n = if ne.nid = n then some (true,ne) else s.nat.nm.slot n := by
    rw [made]
    exact fun n => (slotTake ok.distinct taken).2.2
  have file : t.nat.file = s.nat.file := by rw [made]
  have now : t.nat.file.held t.nat.nm ne.nid = true := heldListed (by rw [slot,if_pos rfl])
  have other : ∀ n, n ≠ ne.nid → t.nat.file.held t.nat.nm n = s.nat.file.held s.nat.nm n := by
    intro n differ
    rw [file]
    exact heldPlace (by rw [slot,if_neg differ.symm])
  refine ⟨⟨?_,heldFree (@slotTake _ 0 _ _ _ ok.distinct taken).1,now,fun n held => ?_⟩,other⟩
  · have after := (natOkTaken ok taken).1
    rw [made]
    exact ⟨after.distinct,after.unused,fun _ bad => by cases bad⟩
  · by_cases same : n = ne.nid
    · rw [same,now]
    · rw [other n same,held]

theorem allocHanded (ok : NatOk (fun _ => false) s.nat.file s.nat.nm) (ran : s.allocNat fuel isMeta rounds = some (t,ne)) :
    Handed s t ne := by
  obtain ⟨u,nm,prepares,taken,made⟩ := allocPrepares (rawBlockPrepares fuel) ran
  obtain ⟨okU,_,_⟩ := preparesSteady ok prepares
  have raised : ∀ n, s.nat.file.held s.nat.nm n = true → u.file.held u.nm n = true := fun n => preparesRaise ok prepares
  obtain ⟨handed,_⟩ := @takeHeld { s with nat := u } t isMeta ne nm okU taken made
  refine ⟨handed.nat,?_,handed.now,fun n held => handed.kept n (raised n held)⟩
  cases held : s.nat.file.held s.nat.nm ne.nid with
  | false => rfl
  | true => exact absurd (raised _ held) (by rw [handed.was]; decide)

/- The free nids of a class below a bound, which an allocation makes fewer. -/
def Fs.pending (isMeta : Bool) (bound : Nat) (s : Fs) : Finset Nat :=
  (Finset.range bound).filter fun n => isMetaNid n = isMeta ∧ s.nat.file.held s.nat.nm n = false

theorem pendingFewer (reads : ReadsClass fuel isMeta There) (there : There s) (ok : NatOk (fun _ => false) s.nat.file s.nat.nm)
    {bound : Nat} (wide : zitStart * natEntryPerBlock ≤ bound) (below : ∀ m ne, s.nat.nm.slot m = some (false,ne) → m < bound)
    (few : rounds ≤ regionEnd isMeta - regionStart isMeta) (ran : s.allocNat fuel isMeta rounds = some (t,ne)) :
    There t ∧ (∀ m ne, t.nat.nm.slot m = some (false,ne) → m < bound) ∧ t.pending isMeta bound ⊂ s.pending isMeta bound ∧
      ∀ n, isMetaNid n = isMeta → n ≠ ne.nid → t.nat.file.held t.nat.nm n = s.nat.file.held s.nat.nm n := by
  have whole := (regionWhole isMeta).1
  obtain ⟨u,nm,thereU,prepares,taken,made⟩ := allocWay reads there le_rfl (by omega) ran
  have way := onTheWay prepares
  obtain ⟨okU,_,_⟩ := preparesSteady ok (preparesMore prepares fun _ _ => trivial)
  obtain ⟨handed,other⟩ := @takeHeld u t isMeta ne nm okU taken (by rw [made])
  have kind : isMetaNid ne.nid = isMeta := (freeEmptyFound taken).2
  have others : ∀ n, isMetaNid n = isMeta → n ≠ ne.nid → t.nat.file.held t.nat.nm n = s.nat.file.held s.nat.nm n :=
    fun n kindN differ => (other n differ).trans (heldWay way kindN)
  have belowU : ∀ m entry, u.nat.nm.slot m = some (false,entry) → m < bound := by
    intro m entry cached
    cases before : s.nat.nm.slot m with
    | none =>
      have near := way.below m before (by rw [cached]; exact Option.some_ne_none _)
      exact ((Nat.div_lt_iff_lt_mul (by decide)).mp near).trans_le wide
    | some pair =>
      obtain ⟨used,old⟩ := pair
      cases used with
      | false => exact below m old before
      | true =>
        have raised := preparesRaise ok (preparesMore prepares fun _ _ => trivial) (heldListed before)
        rw [heldFree cached] at raised
        cases raised
  have slot : ∀ m, t.nat.nm.slot m = if ne.nid = m then some (true,ne) else u.nat.nm.slot m := by
    rw [made]
    exact fun m => (slotTake okU.distinct taken).2.2
  refine ⟨?_,fun m entry cached => ?_,?_,others⟩
  · rw [made]
    exact reads.takes u nm ne thereU taken
  · rw [slot] at cached
    split at cached
    · cases cached
    · exact belowU m entry cached
  · have was : s.nat.file.held s.nat.nm ne.nid = false := (heldWay way kind).symm.trans handed.was
    refine Finset.ssubset_iff_of_subset (fun m member => ?_) |>.mpr ⟨ne.nid,?_,fun member => ?_⟩
    · obtain ⟨range,kindM,free⟩ := Finset.mem_filter.mp member
      have differ : m ≠ ne.nid := fun same => by
        rw [same,handed.now] at free
        cases free
      exact Finset.mem_filter.mpr ⟨range,kindM,(others m kindM differ).symm.trans free⟩
    · exact Finset.mem_filter.mpr
        ⟨Finset.mem_range.mpr (belowU ne.nid ne (@slotTake _ 0 _ _ _ okU.distinct taken).1),kind,was⟩
    · have free := (Finset.mem_filter.mp member).2.2
      rw [handed.now] at free
      cases free

theorem freeAllocatable (reads : ReadsClass fuel isMeta There) (there : There s)
    (ok : NatOk (fun _ => false) s.nat.file s.nat.nm) (class_ : InClass isMeta n) (free : s.nat.file.held s.nat.nm n = false)
    {bound : Nat} (wide : zitStart * natEntryPerBlock ≤ bound) (below : ∀ m ne, s.nat.nm.slot m = some (false,ne) → m < bound) :
    Allocatable fuel s n := by
  generalize size : (s.pending isMeta bound).card = card
  induction card using Nat.strong_induction_on generalizing s with
  | h card ih =>
    obtain ⟨kind,high,inside⟩ := class_
    obtain ⟨whole,end_⟩ := regionWhole isMeta
    have start := (regionBound kind (inside.trans_le end_)).1
    obtain ⟨t,ne,ran⟩ : ∃ t ne, s.allocNat fuel isMeta (regionEnd isMeta - regionStart isMeta) = some (t,ne) :=
      allocReturns reads there kind (heldPending high free) le_rfl (by omega) (.inr ⟨start,by omega⟩)
    have handed := allocHanded ok ran
    by_cases here : n = ne.nid
    · exact here ▸ .now ran
    · obtain ⟨thereT,belowT,fewer,others⟩ := pendingFewer reads there ok wide below le_rfl ran
      exact .later ran (ih _ (size ▸ Finset.card_lt_card fewer) thereT handed.nat ((others n kind here).trans free) belowT rfl)

theorem listedNotAllocatable (ok : NatOk (fun _ => false) s.nat.file s.nat.nm) (listed : s.nat.file.held s.nat.nm n = true) :
    ¬Allocatable fuel s n := by
  intro allocatable
  induction allocatable with
  | now ran =>
    rw [(allocHanded ok ran).was] at listed
    cases listed
  | later ran rest ih =>
    have handed := allocHanded ok ran
    exact ih handed.nat (handed.kept _ listed)

/- `invalidate_nat` changes an entry where it is. -/
theorem heldInvalidate (ran : s.invalidateNat fuel nid = some t) : ∃ u : Fs,
    t = { u with nat := { u.nat with nm := u.nat.nm.modify nid NatEntry.invalidated } } ∧
    (u = s ∨ Fs.readRawNatBlock fuel (nid / natEntryPerBlock) s = some u) ∧ Prepares s.nat u.nat ∧
    (u.nat.nm.slot nid = none → nid < 3) ∧ ∀ n, t.nat.file.held t.nat.nm n = u.nat.file.held u.nat.nm n := by
  obtain ⟨u,made,looked,low⟩ := invalidateLooks ran
  refine ⟨u,made,looked,?_,low,fun n => ?_⟩
  · rcases looked with rfl | loaded
    · exact preparesRefl _
    · exact rawBlockPrepares fuel _ s u loaded
  · rw [made]
    exact heldPlace (placeModify u.nat.nm nid NatEntry.invalidatedNid n)

theorem natOkInvalidated (ok : NatOk (fun _ => false) s.nat.file s.nat.nm) (ran : s.invalidateNat fuel nid = some t) :
    NatOk (fun _ => false) t.nat.file t.nat.nm := by
  obtain ⟨u,made,_,prepares,_⟩ := heldInvalidate ran
  rw [made]
  exact natOkModify NatEntry.invalidatedNid (fun _ _ => rfl) (preparesSteady ok prepares).1

end

section
variable {s t : NatPool} {fuel : Nat} {isMeta : Bool}

theorem poolGood (ok : PoolOk isMeta s) (readable : Readable fuel isMeta s.fs) : NoNidLost fuel isMeta s := by
  intro n class_ _ released
  obtain ⟨There,reads,there⟩ := readable
  have free : s.fs.nat.file.held s.fs.nat.nm n = false := by
    cases held : s.fs.nat.file.held s.fs.nat.nm n with
    | false => rfl
    | true => exact (ok.held n class_ held).symm.trans released
  obtain ⟨bound,below⟩ := freeBound s.fs.nat.nm.freeNat
  refine freeAllocatable reads there ok.nat class_ free (Nat.le_max_right bound _) fun m ne here => ?_
  have found := (slotFree.mp here).2
  have small := below ne (List.mem_of_find?_eq_some found)
  rw [findNid found] at small
  exact Nat.lt_of_lt_of_le small (Nat.le_max_left ..)

theorem handsOutHeld {fs : Fs} {n : Nat} (ok : PoolOk isMeta s) (class_ : InClass isMeta n)
    (held : fs.nat.file.held fs.nat.nm n = true) : (s.inUse n || handsOut s.fs fs n) = true := by
  unfold handsOut
  rw [held,Bool.true_and]
  cases before : s.fs.nat.file.held s.fs.nat.nm n with
  | true => rw [ok.held n class_ before,Bool.true_or]
  | false => exact Bool.or_true _

theorem poolKeeps {event : PoolEvent} (ok : PoolOk isMeta s) (readable : Readable fuel isMeta s.fs)
    (ran : poolStep fuel s event = some t) (frees : ReleasesFree isMeta s event) : PoolOk isMeta t := by
  cases event with
  | alloc kind rounds =>
    obtain ⟨⟨fs,ne⟩,found,rfl⟩ := Option.map_eq_some_iff.mp ran
    refine ⟨(allocHanded ok.nat found).nat,fun n class_ held => ?_⟩
    dsimp only at held ⊢
    by_cases here : n = ne.nid
    · rw [here,Function.update_self]
    · rw [Function.update_of_ne here,handsOutHeld ok class_ held]
  | update nid newBlkaddr pinned =>
    cases ran
    refine ⟨natOkUpdate ok.nat newBlkaddr pinned,fun n class_ held => ok.held n class_ ?_⟩
    rw [← heldPlace (placeUpdate s.fs.nat.nm nid newBlkaddr pinned n)]
    exact held
  | invalidate nid =>
    obtain ⟨fs,done,rfl⟩ := Option.map_eq_some_iff.mp ran
    refine ⟨natOkInvalidated ok.nat done,fun n class_ held => ?_⟩
    by_cases here : n = nid
    · obtain ⟨There,reads,there⟩ := readable
      obtain ⟨u,_,looked,_,_,same⟩ := heldInvalidate done
      have free : s.fs.nat.file.held s.fs.nat.nm nid = false := frees (here ▸ class_)
      have still : u.nat.file.held u.nat.nm nid = false := by
        rcases looked with rfl | loaded
        · exact free
        · obtain ⟨kind,_,inside⟩ := here ▸ class_
          have start := (regionBound kind (inside.trans_le (regionWhole isMeta).2)).1
          obtain ⟨v,again,way,_⟩ := reads.comes s.fs _ there start inside
          cases again.symm.trans loaded
          exact (heldWay (onTheWay way) kind).trans free
      dsimp only at held
      rw [here,same,still] at held
      cases held
    · dsimp only at held ⊢
      rw [Function.update_of_ne here,handsOutHeld ok class_ held]

theorem poolFails {event : PoolEvent} (ok : PoolOk isMeta s) (ran : poolStep fuel s event = some t)
    (loses : ¬ReleasesFree isMeta s event) : ¬NoNidLost fuel isMeta t := by
  cases event with
  | alloc kind rounds => exact absurd trivial loses
  | update nid newBlkaddr pinned => exact absurd trivial loses
  | invalidate nid =>
    obtain ⟨fs,done,rfl⟩ := Option.map_eq_some_iff.mp ran
    intro never
    obtain ⟨class_,held⟩ : InClass isMeta nid ∧ s.fs.nat.file.held s.fs.nat.nm nid = true := by
      have both := Classical.not_imp.mp loses
      exact ⟨both.1,by simpa using both.2⟩
    obtain ⟨u,made,_,prepares,low,same⟩ := heldInvalidate done
    have listed : fs.nat.file.held fs.nat.nm nid = true := (same nid).trans (preparesRaise ok.nat prepares held)
    refine listedNotAllocatable (natOkInvalidated ok.nat done) listed (never nid class_ ?_ ?_)
    · dsimp only
      rw [(invalidateAddrs low made).1]
      unfold Fs.addr
      rw [natAddrSlot]
      cases here : u.nat.nm.slot nid with
      | some pair => rfl
      | none => exact absurd (low here) (Nat.not_lt.mpr class_.2.1)
    · dsimp only
      rw [Function.update_self]

/- A mount that has read whatever pages and blocks. -/
theorem mountPoolOk {fs : Fs} {disk : NatDisk} (mounted : fs.nat = mountNat disk) : PoolOk isMeta (mountPool fs) where
  nat := by
    change NatOk (fun _ => false) fs.nat.file fs.nat.nm
    rw [mounted]
    exact ⟨readDistinct disk.metaNat,fun _ _ here => readUnused disk.metaNat here,fun _ bad => by cases bad⟩
  held _ _ held := held

/-- Where the NAT blocks of a class can be read all along, no nid of it is lost if and only if only
free nids of it are released. -/
theorem noNidLost {fs : Fs} {disk : NatDisk} {events : List PoolEvent} (mounted : fs.nat = mountNat disk)
    (readable : Always (fun s => Readable fuel isMeta s.fs) (poolStep fuel) (mountPool fs) events) :
    Always (NoNidLost fuel isMeta) (poolStep fuel) (mountPool fs) events ↔
      Meets (ReleasesFree isMeta) (poolStep fuel) (mountPool fs) events :=
  alwaysUnder (PoolOk isMeta) (fun _ => poolGood) (fun _ _ _ => poolKeeps) (fun _ _ _ ok _ => poolFails ok) (mountPoolOk mounted)
    readable

theorem readableAlloc {fs next : Fs} {ne : NatEntry} {rounds : Nat} (readable : Readable fuel isMeta fs)
    (few : rounds ≤ regionEnd isMeta - regionStart isMeta) (ran : fs.allocNat fuel isMeta rounds = some (next,ne)) :
    Readable fuel isMeta next := by
  obtain ⟨There,reads,there⟩ := readable
  have whole := (regionWhole isMeta).1
  obtain ⟨u,nm,thereU,_,taken,rfl⟩ := allocWay reads there le_rfl (by omega) ran
  exact ⟨There,reads,reads.takes u nm ne thereU taken⟩

end

theorem noNidLostFresh : Always (NoNidLost natFuel false) (poolStep natFuel) (mountPool (freshMount 20 12 30 31).fs)
    [.alloc false 1,.alloc false 1] := by
  have inv := @freshInv 20 12 30 31 (by decide) (by decide)
  obtain ⟨known,ok⟩ := inv.ok
  have start : Readable natFuel false (freshMount 20 12 30 31).fs := soundReadable inv.metaIn le_rfl ok inv.sound
  have taken : ∀ s t : NatPool, Readable natFuel false s.fs → poolStep natFuel s (.alloc false 1) = some t → Readable natFuel false t.fs := by
    intro s t readable ran
    obtain ⟨⟨fs,ne⟩,found,rfl⟩ := Option.map_eq_some_iff.mp ran
    exact readableAlloc readable (by decide) found
  have readable : Always (fun s => Readable natFuel false s.fs) (poolStep natFuel) (mountPool (freshMount 20 12 30 31).fs)
      [.alloc false 1,.alloc false 1] := by
    refine ⟨start,fun s ran => ?_⟩
    have first := taken _ s start ran
    exact ⟨first,fun t again => taken s t first again⟩
  exact (noNidLost rfl readable).mpr fun _ _ => ⟨trivial,fun _ _ => ⟨trivial,trivial⟩⟩

/-- Node 4 is free at mount, is handed out, written to block 7 and released: no later
allocation returns it. -/
theorem releasedNidLost : ∃ s : NatPool,
    exec (poolStep 0) (mountPool (mountFs ⟨emptyNatFile,[⟨1,1,5⟩,⟨3,3,6⟩,⟨4,0,0⟩]⟩ fun _ => .zero))
      [.alloc true 0,.update 4 7 false,.invalidate 4] = some s ∧
    InClass true 4 ∧ s.fs.addr 4 = some 0 ∧ s.inUse 4 = false ∧ ∀ fuel, ¬Allocatable fuel s.fs 4 := by
  refine ⟨_,rfl,⟨by decide,by decide,by decide⟩,rfl,rfl,fun fuel => listedNotAllocatable ⟨?_,?_,fun _ bad => by cases bad⟩ rfl⟩
  · unfold NatInfo.Distinct
    decide +kernel
  · intro n ne free
    cases (slotFree.mp free).2

end Xcpfs
