import Xcpfs.Prepare

/-! The NAT on the way to a dnode page. Whatever is called, however deep, it is a run of block
loads and allocations; they leave every address alone: a loaded entry has the address it had,
and a new node has none yet. -/
namespace Xcpfs
open EventRun

/- What happens to the NAT is a run of loads and allocations, all of the kind that `allowed` says. -/
def PreparesBy (allowed : PrepEvent → Prop) (s t : NatMount) : Prop :=
  ∃ events, (∀ event ∈ events, allowed event) ∧ exec prepStep s events = some t

def Prepares : NatMount → NatMount → Prop := PreparesBy fun _ => True

section
variable {allowed more : PrepEvent → Prop} {s t u : NatMount} {nm : NatInfo} {ne : NatEntry}

theorem preparesRefl (s : NatMount) : PreparesBy allowed s s := ⟨[],fun _ bad => absurd bad List.not_mem_nil,rfl⟩

theorem preparesThen (first : PreparesBy allowed s t) (second : PreparesBy allowed t u) : PreparesBy allowed s u := by
  obtain ⟨events,here,ran⟩ := first
  obtain ⟨others,there,rest⟩ := second
  refine ⟨events ++ others,List.forall_mem_append.mpr ⟨here,there⟩,?_⟩
  clear here
  induction events generalizing s with
  | nil =>
    cases ran
    exact rest
  | cons event events ih =>
    obtain ⟨next,here,later⟩ := Option.bind_eq_some_iff.mp ran
    rw [List.cons_append,exec,here]
    exact ih later

theorem preparesMore (prepares : PreparesBy allowed s t) (wider : ∀ event, allowed event → more event) : PreparesBy more s t := by
  obtain ⟨events,all,ran⟩ := prepares
  exact ⟨events,fun event member => wider event (all event member),ran⟩

theorem preparesLoad (s : NatMount) {iblock : Nat} (may : allowed (.load iblock)) :
    PreparesBy allowed s { s with nm := insertBlock s.nm (s.file iblock) iblock } :=
  ⟨[.load iblock],List.forall_mem_singleton.mpr may,rfl⟩

theorem preparesAlloc {isMeta : Bool} (use : NatUse) (may : allowed (.alloc isMeta use))
    (taken : freeNatEmpty s.nm isMeta = some (nm,ne)) : PreparesBy allowed s { s with nm := nm.modify ne.nid use.mark } := by
  refine ⟨[.alloc isMeta use],List.forall_mem_singleton.mpr may,?_⟩
  simp only [exec,prepStep,taken,Option.map_some,Option.bind_some]

theorem preparesKeep {P : NatMount → Prop} (keeps : ∀ s event t, allowed event → P s → prepStep s event = some t → P t)
    (prepares : PreparesBy allowed s t) (start : P s) : P t := by
  obtain ⟨events,all,ran⟩ := prepares
  induction events generalizing s with
  | nil =>
    cases ran
    exact start
  | cons event events ih =>
    obtain ⟨next,here,rest⟩ := Option.bind_eq_some_iff.mp ran
    obtain ⟨may,others⟩ := List.forall_mem_cons.mp all
    exact ih (keeps s event next may start here) others rest

theorem prepSteady {event : PrepEvent} (ok : NatOk (fun _ => false) s.file s.nm) (ran : prepStep s event = some t) :
    NatOk (fun _ => false) t.file t.nm ∧ (∀ n, natAddr t.file t.nm n = natAddr s.file s.nm n) ∧ KeepsUsed s.nm t.nm := by
  cases event with
  | load iblock =>
    have loads := @loadsBlock s.file s.nm iblock
    obtain rfl := Option.some.inj ran
    refine ⟨?_,fun n => ?_,?_⟩
    · dsimp only
      exact natOkLoads ok loads
    · dsimp only
      exact loadsAddr loads n
    · dsimp only
      exact loadsUsed loads
  | alloc isMeta use =>
    obtain ⟨⟨nm,ne⟩,taken,same⟩ := Option.map_eq_some_iff.mp ran
    cases same
    obtain ⟨natNow,_,zero,used,others⟩ := natOkTake ok taken use
    refine ⟨⟨natNow.distinct,natNow.unused,fun _ bad => by contradiction⟩,fun n => ?_,used⟩
    by_cases new : ne.nid = n
    · subst new
      have free := (@slotTake _ ne.nid _ _ _ ok.distinct taken).1
      rw [natAddrSlot s.file s.nm,free]
      exact zero.trans (congrArg some (ok.unused ne.nid ne free).symm)
    · exact others n new

theorem preparesSteady (ok : NatOk (fun _ => false) s.file s.nm) (prepares : Prepares s t) :
    NatOk (fun _ => false) t.file t.nm ∧ (∀ n, natAddr t.file t.nm n = natAddr s.file s.nm n) ∧ KeepsUsed s.nm t.nm := by
  have keeps : ∀ u event v, True → (NatOk (fun _ => false) u.file u.nm ∧ (∀ n, natAddr u.file u.nm n = natAddr s.file s.nm n) ∧
      KeepsUsed s.nm u.nm) → prepStep u event = some v → NatOk (fun _ => false) v.file v.nm ∧
      (∀ n, natAddr v.file v.nm n = natAddr s.file s.nm n) ∧ KeepsUsed s.nm v.nm := by
    intro u event v _ ⟨okU,addr,used⟩ ran
    obtain ⟨okV,further,still⟩ := prepSteady okU ran
    exact ⟨okV,fun n => (further n).trans (addr n),used.trans still⟩
  exact preparesKeep keeps prepares ⟨ok,fun _ => rfl,fun _ ne here => ⟨ne,here⟩⟩

end

def PreparesLoad (load : Nat → Fs → Option Fs) : Prop := ∀ iblock s t, load iblock s = some t → Prepares s.nat t.nat

section
variable {load : Nat → Fs → Option Fs} {s t : Fs} {nid ino n : Nat} {ne : NatEntry} {e : Edge}

theorem lookupPrepares (loads : PreparesLoad load) (ran : Fs.lookupNat load nid s = some (t,ne)) : Prepares s.nat t.nat := by
  unfold Fs.lookupNat at ran
  cases here : s.nat.nm.lookup nid with
  | some found =>
    rw [here] at ran
    cases ran
    exact preparesRefl _
  | none =>
    rw [here] at ran
    obtain ⟨u,loaded,rest⟩ := Option.bind_eq_some_iff.mp ran
    obtain ⟨found,there,same⟩ := Option.map_eq_some_iff.mp rest
    cases same
    exact loads _ s t loaded

theorem nodePagePrepares (loads : PreparesLoad load) (ran : Fs.getNodePage load nid s = some t) : Prepares s.nat t.nat := by
  unfold Fs.getNodePage at ran
  split at ran
  · cases ran
    exact preparesRefl _
  · obtain ⟨⟨u,ne⟩,looked,same⟩ := Option.map_eq_some_iff.mp ran
    have whole := lookupPrepares loads looked
    rw [← same]
    exact whole

theorem allocPrepares (loads : PreparesLoad load) {isMeta : Bool} {rounds iblock : Nat}
    (ran : Fs.allocFreeNat load isMeta rounds iblock s = some (t,ne)) :
    ∃ u nm, Prepares s.nat u ∧ freeNatEmpty u.nm isMeta = some (nm,ne) ∧ t.nat = { u with nm := nm } := by
  induction rounds generalizing iblock s with
  | zero =>
    unfold Fs.allocFreeNat at ran
    cases here : freeNatEmpty s.nat.nm isMeta with
    | none =>
      rw [here] at ran
      cases ran
    | some found =>
      rw [here] at ran
      cases ran
      exact ⟨s.nat,found.1,preparesRefl _,here,rfl⟩
  | succ rounds ih =>
    unfold Fs.allocFreeNat at ran
    cases here : freeNatEmpty s.nat.nm isMeta with
    | none =>
      rw [here] at ran
      obtain ⟨v,loaded,rest⟩ := Option.bind_eq_some_iff.mp ran
      obtain ⟨u,nm,further,taken,same⟩ := ih rest
      exact ⟨u,nm,preparesThen (loads _ s v loaded) further,taken,same⟩
    | some found =>
      rw [here] at ran
      cases ran
      exact ⟨s.nat,found.1,preparesRefl _,here,rfl⟩

theorem newNodePrepares (loads : PreparesLoad load) {rounds m : Nat} (ran : Fs.newNode load rounds ino n e s = some (t,m)) :
    Prepares s.nat t.nat := by
  obtain ⟨⟨v,ne⟩,alloc,same⟩ := Option.map_eq_some_iff.mp ran
  obtain ⟨u,nm,prepares,taken,nat⟩ := allocPrepares loads alloc
  obtain ⟨rfl,rfl⟩ := Prod.mk.inj same
  have marked := preparesThen prepares (preparesAlloc (.node ino) trivial taken)
  dsimp only
  rw [nat]
  exact marked

theorem dnodeLoopPrepares (loads : PreparesLoad load) {create : Bool} {rounds len left i : Nat} {offset : Nat → Int}
    {found : Option Nat} (ran : Fs.dnodeLoop load create rounds ino len offset left i n s = some (t,found)) :
    Prepares s.nat t.nat := by
  induction left generalizing i n s with
  | zero =>
    cases ran
    exact preparesRefl _
  | succ left ih =>
    unfold Fs.dnodeLoop at ran
    obtain ⟨u,read,rest⟩ := Option.bind_eq_some_iff.mp ran
    have first := nodePagePrepares loads read
    split at rest
    · cases rest
      exact first
    · dsimp only at rest
      split at rest
      · exact preparesThen first (ih rest)
      · split at rest
        · cases rest
          exact first
        · obtain ⟨⟨v,m⟩,made,rest⟩ := Option.bind_eq_some_iff.mp rest
          exact preparesThen (preparesThen first (newNodePrepares loads made)) (ih rest)

theorem dnodePagePrepares (loads : PreparesLoad load) {create : Bool} {rounds iblock : Nat} {found : Option Nat}
    (ran : Fs.getDnodePage load create rounds ino iblock s = some (t,found)) : Prepares s.nat t.nat := by
  unfold Fs.getDnodePage at ran
  split at ran
  · generalize getPath iblock = path at ran
    obtain ⟨len,offset⟩ := path
    exact dnodeLoopPrepares loads ran
  · cases ran

theorem rawBlockPrepares (fuel : Nat) : PreparesLoad (Fs.readRawNatBlock fuel) := by
  induction fuel with
  | zero =>
    intro iblock s t ran
    cases ran
  | succ fuel ih =>
    intro iblock s t ran
    unfold Fs.readRawNatBlock at ran
    obtain ⟨u,prepared,same⟩ := Option.map_eq_some_iff.mp ran
    rw [← same]
    refine preparesThen ?_ (preparesLoad u.nat trivial)
    split at prepared
    · cases prepared
      exact preparesRefl _
    · obtain ⟨⟨v,found⟩,walked,rest⟩ := Option.bind_eq_some_iff.mp prepared
      obtain ⟨d,_,same⟩ := Option.map_eq_some_iff.mp rest
      have whole := dnodePagePrepares ih walked
      rw [← same]
      exact whole

end

structure AddrSteady (s t : Fs) : Prop where
  nat : NatOk (fun _ => false) t.nat.file t.nat.nm
  addr : ∀ n, t.addr n = s.addr n
  used : KeepsUsed s.nat.nm t.nat.nm

section
variable {known : Nat → Bool} {s t : Fs}

theorem natOkAny {file : NatFile} {nm : NatInfo} (ok : NatOk known file nm) : NatOk (fun _ => false) file nm :=
  ⟨ok.distinct,ok.unused,fun _ bad => by contradiction⟩

theorem addrSteady (ok : NatOk known s.nat.file s.nat.nm) (prepares : Prepares s.nat t.nat) : AddrSteady s t := by
  obtain ⟨nat,addr,used⟩ := preparesSteady (natOkAny ok) prepares
  exact ⟨nat,addr,used⟩

end
end Xcpfs
