import Xcpfs.NodeWrites

/-! The node pages of a mount as a map that is stored to. A thread that has a page locked and
uptodate finds there what was stored last, by a thread or by the completion of a data write,
whatever went to the device and came back in between. -/
namespace Xcpfs

open EventRun

/-- What a node page holds: the page if it is uptodate, and what a read will bring otherwise. -/
def NodeRun.value (s : NodeRun) (nid : Nat) : NodeImage :=
  if (s.flags (nodeKey nid)).uptodate then s.io.image nid else s.stored nid

/- The pointer to a block, as a store to its dnode. -/
def dataChange (iblock blkaddr : Nat) : NodeChange :=
  let (len,offset) := getPath iblock
  if len = 0 then .addr (offset len).toNat blkaddr else .slot (offset len).toNat blkaddr

/- What an event stores, and to which node. -/
def IoEvent.stores (s : NodeRun) : IoEvent → Option (Nat × NodeChange)
  | .change nid store => some (nid,store)
  | .complete i _ => (s.flights[i]?).bind fun f =>
    if f.xio.op = .zoneAppend ∧ f.xio.isNode = false then
      f.xio.dpage.map fun dnode => (dnode,dataChange f.xio.iblock (f.landed.getD f.xio.newBlkaddr))
    else none
  | _ => none

/- The nodes after a store; a nid that is taken has none yet. -/
def storeNodes (s : NodeRun) (event : IoEvent) (nodes : Nat → NodeImage) : Nat → NodeImage :=
  match event.stores s,event with
  | some (nid,change),_ => Function.update nodes nid (change.apply (nodes nid))
  | none,.prep event => (takenNid s.io.nat.nm event).elim nodes fun nid => Function.update nodes nid .zero
  | none,_ => nodes

/- A page that is written, or whose block is, has its bytes in memory. -/
structure PagesSteady (s : NodeRun) : Prop where
  writing : ∀ page, (s.flags page).writeback = true → (s.flags page).uptodate = true
  flying : ∀ f ∈ s.flights, f.xio.op = .zoneAppend →
    (s.flags f.xio.page).uptodate = true ∧ ∀ dnode ∈ f.xio.dpage, (s.flags (nodeKey dnode)).uptodate = true

section
variable {s t : NodeRun} {nid : Nat} {page : PageKey} {f : Flight}

theorem dataChangeApply (image : NodeImage) (iblock blkaddr : Nat) :
    (dataChange iblock blkaddr).apply image = { image with page := image.page.setDataAddr iblock blkaddr } := by
  unfold dataChange NodePage.setDataAddr
  dsimp only
  split <;> rfl

theorem valueUptodate (uptodate : (s.flags (nodeKey nid)).uptodate = true) : s.value nid = s.io.image nid := if_pos uptodate

theorem valueStored (stale : (s.flags (nodeKey nid)).uptodate = false) : s.value nid = s.stored nid := by
  simp [NodeRun.value,stale]

theorem settledValue (inv : NodeInv s) (member : s.known nid = true) (valid : s.invalid nid = false)
    (settled : (s.flags (nodeKey nid)).uptodate = false ∨
      (s.flags (nodeKey nid)).dirty = false ∧ (s.flags (nodeKey nid)).writeback = false) : s.value nid = s.stored nid := by
  cases uptodate : (s.flags (nodeKey nid)).uptodate with
  | false => exact valueStored uptodate
  | true =>
    rcases settled with stale | ⟨clean,still⟩
    · cases stale.symm.trans uptodate
    · exact (valueUptodate uptodate).trans (inv.settled nid member valid uptodate clean still)

theorem storedKept (inv : NodeInv s) (member : s.known nid = true) (valid : s.invalid nid = false) (addr : t.addr nid = s.addr nid)
    (disk : ∀ a, s.written a = true → t.disk a = s.disk a) : t.stored nid = s.stored nid := by
  obtain ⟨a,address⟩ := knownAddr inv member
  by_cases zero : a = 0
  · rw [zero] at address
    rw [storedZero address,storedZero (addr.trans address)]
  · rw [storedAddr address zero,storedAddr (addr.trans address) zero]
    exact disk a (inv.address nid a member valid address zero)

theorem valueSame (inv : NodeInv s) (member : s.known nid = true) (valid : s.invalid nid = false)
    (uptodate : (t.flags (nodeKey nid)).uptodate = (s.flags (nodeKey nid)).uptodate) (image : t.io.image nid = s.io.image nid)
    (addr : t.addr nid = s.addr nid) (disk : ∀ a, s.written a = true → t.disk a = s.disk a) : t.value nid = s.value nid := by
  unfold NodeRun.value
  rw [uptodate,image,storedKept inv member valid addr disk]

theorem valueFlags {flags : PageFlags} (uptodate : page.1 = nodeIno → flags.uptodate = (s.flags page).uptodate) :
    (s.setFlags page flags).value nid = s.value nid := by
  have same : ((s.setFlags page flags).flags (nodeKey nid)).uptodate = (s.flags (nodeKey nid)).uptodate := by
    by_cases here : nodeKey nid = page
    · rw [here]
      exact (congrArg PageFlags.uptodate (setFlagsSelf ..)).trans (uptodate (here ▸ rfl))
    · exact congrArg PageFlags.uptodate (setFlagsOther s.io flags here)
  unfold NodeRun.value
  rw [same]
  rfl

theorem pagesMove (steady : PagesSteady s) (writing : ∀ page, (t.flags page).writeback = true → (t.flags page).uptodate = true)
    (locked : ∀ page, (s.flags page).locked = true → (s.flags page).uptodate = true → (t.flags page).uptodate = true)
    (flights : ∀ f ∈ t.flights, f.xio.op = .zoneAppend → (∃ g ∈ s.flights, g.xio = f.xio) ∨
      (t.flags f.xio.page).uptodate = true ∧ ∀ dnode ∈ f.xio.dpage, (t.flags (nodeKey dnode)).uptodate = true)
    (held : ∀ f ∈ s.flights, ∀ page ∈ f.held, (s.flags page).locked = true) : PagesSteady t where
  writing := writing
  flying f flying write := by
    rcases flights f flying write with ⟨g,old,same⟩ | new
    · obtain ⟨here,dnodes⟩ := steady.flying g old (same ▸ write)
      rw [same] at here dnodes
      have both : ∀ page ∈ f.held, (s.flags page).locked = true := by
        intro page there
        refine held g old page ?_
        unfold Flight.held at there ⊢
        rw [same]
        exact there
      refine ⟨locked _ (both _ List.mem_cons_self) here,fun dnode parent => ?_⟩
      refine locked _ (both _ (List.mem_cons_of_mem _ ?_)) (dnodes dnode parent)
      rw [parent]
      exact List.mem_cons_self
    · exact new

theorem flightsHeld (inv : NodeInv s) : ∀ f ∈ s.flights, ∀ page ∈ f.held, (s.flags page).locked = true :=
  fun f flying => (inv.flight f flying).held

theorem pagesFlags (inv : NodeInv s) (steady : PagesSteady s) {flags : PageFlags}
    (writing : flags.writeback = true → flags.uptodate = true)
    (locked : (s.flags page).locked = true → (s.flags page).uptodate = true → flags.uptodate = true) : PagesSteady (s.setFlags page flags) := by
  have self : (s.setFlags page flags).flags page = flags := setFlagsSelf ..
  have other : ∀ p, p ≠ page → (s.setFlags page flags).flags p = s.flags p := fun p far => setFlagsOther s.io flags far
  refine pagesMove steady (fun p => ?_) (fun p => ?_) (fun f flying _ => .inl ⟨f,flying,rfl⟩) (flightsHeld inv)
  · by_cases here : p = page
    · rw [here,self]
      exact writing
    · rw [other p here]
      exact steady.writing p
  · by_cases here : p = page
    · rw [here,self]
      exact locked
    · rw [other p here]
      exact fun _ => id

/- What a submission does to the pages. -/
structure Submitted (s : NodeRun) (op : ReqOp) (page : PageKey) (t : NodeRun) (sent : Option Xio) : Prop where
  flights : t.flights = (sent.map fun xio => Flight.mk xio none).toList ++ s.flights
  xio : ∀ xio ∈ sent, xio.op = op ∧ xio.page = page ∧ ∀ dnode ∈ xio.dpage, (s.flags (nodeKey dnode)).uptodate = true
  uptodate : ∀ p, (s.flags p).uptodate = true → (t.flags p).uptodate = true
  writeback : ∀ p, (t.flags p).writeback = true → (s.flags p).writeback = true
  known : t.known = s.known
  invalid : ∀ nid, t.invalid nid = false → s.invalid nid = false
  value : ∀ nid, s.known nid = true → t.invalid nid = false → t.value nid = s.value nid

theorem submitNodeValues (inv : NodeInv s) {op : ReqOp} {answers : List Bool} {io : IoState} {sent : Option Xio}
    (owned : s.owned (nodeKey nid) = true) (stale : op = .read → (s.flags (nodeKey nid)).uptodate = false)
    (ran : submitNodeXio (pageXio op (nodeKey nid)) answers s.io = some (io,sent)) :
    Submitted s op (nodeKey nid) { s with io := io, flights := (sent.map fun xio => Flight.mk xio none).toList ++ s.flights } sent := by
  have member : s.known nid = true := inv.cached nid (.inl (ownedIff.mp owned).1)
  have loads := @loadsLookup s.io.nat.file s.io.nat.nm nid
  have address : natAddr s.io.nat.file (lookupNat s.io.nat.file s.io.nat.nm nid).1 nid = s.addr nid := loadsAddr loads nid
  have here := usedLookup inv.nat member
  have after := @lookupNatAfter s.io.nat.nm nid s.io.nat.file
  unfold submitNodeXio at ran
  rw [show (pageXio op (nodeKey nid)).iblock = nid from rfl] at ran
  generalize lookupNat s.io.nat.file s.io.nat.nm nid = looked at *
  obtain ⟨nm,entry⟩ := looked
  obtain ⟨ne,here⟩ := here
  have found : entry = some ne := by
    rw [lookupSlot,here] at after
    exact after
  subst found
  dsimp only at ran loads address here
  have word : natAddr s.io.nat.file nm nid = some ne.blockAddr := addrUsed here
  have addrs : ∀ n, natAddr s.io.nat.file nm n = s.addr n := fun n => loadsAddr loads n
  split at ran
  · rename_i zero
    cases Option.some.inj ran
    have blank : (s.io.flags (nodeKey nid)).uptodate = false := stale zero.2
    have page : (pageXio op (nodeKey nid)).page = nodeKey nid := rfl
    rw [page,blank,if_neg Bool.false_ne_true]
    refine ⟨rfl,fun xio bad => by contradiction,fun p uptodate => ?_,fun p writing => ?_,rfl,fun _ => id,fun n known valid => ?_⟩
    · by_cases same : p = nodeKey nid
      · subst same
        cases (blank.symm.trans uptodate)
      · exact (congrArg PageFlags.uptodate (setFlagsOther _ _ same)).trans uptodate
    · by_cases same : p = nodeKey nid
      · subst same
        simpa [NodeRun.flags,setFlagsSelf,PageFlags.unlockIf] using writing
      · rw [← writing]
        exact (congrArg PageFlags.writeback (setFlagsOther _ _ same)).symm
    · by_cases same : n = nid
      · subst same
        have bare : s.stored n = .zero := storedZero (address.symm.trans (word.trans (congrArg some zero.1)))
        rw [valueStored blank,bare]
        refine (valueUptodate ?_).trans (Function.update_self ..)
        exact congrArg PageFlags.uptodate (setFlagsSelf ..)
      · have far : nodeKey n ≠ nodeKey nid := fun alike => same (congrArg Prod.snd alike)
        refine valueSame inv known valid ?_ ?_ (addrs n) fun _ _ => rfl
        · exact congrArg PageFlags.uptodate (setFlagsOther _ _ far)
        · exact Function.update_of_ne same ..
  · obtain ⟨zones,new,same,isSent,_⟩ := submitBioIs ran
    subst same isSent
    refine ⟨rfl,fun xio there => ?_,fun _ => id,fun _ => id,rfl,fun _ => id,fun n known valid => ?_⟩
    · cases there
      exact ⟨rfl,rfl,fun dnode bad => by contradiction⟩
    · exact valueSame inv known valid rfl rfl (addrs n) fun _ _ => rfl

theorem submitDataValues (inv : NodeInv s) {op : ReqOp} {dnode : Option Nat} {answers : List Bool} {io : IoState} {sent : Option Xio}
    (host : page.1 ≠ nodeIno) (ours : ∀ d ∈ dnode, (s.flags (nodeKey d)).uptodate = true)
    (ran : submitDataXio (pageXio op page) dnode answers s.io = some (io,sent)) :
    Submitted s op page { s with io := io, flights := (sent.map fun xio => Flight.mk xio none).toList ++ s.flights } sent := by
  have plain : ∀ zones, ∀ nid, s.known nid = true → s.invalid nid = false →
      NodeRun.value { s with io := { s.io with zones := zones }, flights := (sent.map fun xio => Flight.mk xio none).toList ++ s.flights } nid =
        s.value nid := fun zones nid member valid => valueSame inv member valid rfl rfl rfl fun _ _ => rfl
  cases dnode with
  | none =>
    cases op with
    | read =>
      cases ran
      exact ⟨rfl,fun xio bad => by contradiction,fun _ => id,fun _ => id,rfl,fun _ => id,fun nid _ _ => rfl⟩
    | zoneAppend =>
      cases ran
      have flags : ∀ p, p ≠ page → NodeRun.flags { s with
          io := s.io.setFlags page { s.io.flags page with writeback := false }, flights := s.flights } p = s.flags p :=
        fun p far => setFlagsOther s.io _ far
      have self : NodeRun.flags { s with
          io := s.io.setFlags page { s.io.flags page with writeback := false }, flights := s.flights } page =
        { s.flags page with writeback := false } := setFlagsSelf ..
      refine ⟨rfl,fun xio bad => by contradiction,fun p uptodate => ?_,fun p writing => ?_,rfl,fun _ => id,fun nid _ _ => ?_⟩
      · by_cases same : p = page
        · subst same
          exact (congrArg PageFlags.uptodate self).trans uptodate
        · exact (congrArg PageFlags.uptodate (flags p same)).trans uptodate
      · by_cases same : p = page
        · subst same
          cases (congrArg PageFlags.writeback self).symm.trans writing
        · exact (congrArg PageFlags.writeback (flags p same)).symm.trans writing
      · exact @valueFlags s nid page { s.flags page with writeback := false } fun bad => absurd bad host
  | some d =>
    have here := ours d rfl
    cases op with
    | read =>
      have sends : submitBio { pageXio .read page with oldBlkaddr := (s.io.image d).page.dataAddr page.2 } answers
        (s.io.setFlags (nodeKey d) { s.io.flags (nodeKey d) with locked := false }) = some (io,sent) := ran
      obtain ⟨zones,new,same,isSent,_⟩ := submitBioIs sends
      subst same isSent
      have flags : ∀ p, p ≠ nodeKey d → NodeRun.flags { s with
          io := { s.io.setFlags (nodeKey d) { s.io.flags (nodeKey d) with locked := false } with zones := zones } } p = s.flags p :=
        fun p far => setFlagsOther s.io _ far
      have self : NodeRun.flags { s with
          io := { s.io.setFlags (nodeKey d) { s.io.flags (nodeKey d) with locked := false } with zones := zones } } (nodeKey d) =
        { s.flags (nodeKey d) with locked := false } := setFlagsSelf ..
      refine ⟨rfl,fun xio there => ?_,fun p uptodate => ?_,fun p writing => ?_,rfl,fun _ => id,fun nid member valid => ?_⟩
      · cases there
        exact ⟨rfl,rfl,fun e bad => by contradiction⟩
      · by_cases same : p = nodeKey d
        · subst same
          exact (congrArg PageFlags.uptodate self).trans uptodate
        · exact (congrArg PageFlags.uptodate (flags p same)).trans uptodate
      · by_cases same : p = nodeKey d
        · subst same
          exact (congrArg PageFlags.writeback self).symm.trans writing
        · exact (congrArg PageFlags.writeback (flags p same)).symm.trans writing
      · refine valueSame inv member valid ?_ rfl rfl fun _ _ => rfl
        by_cases same : nodeKey nid = nodeKey d
        · rw [same]
          exact (congrArg PageFlags.uptodate self).trans rfl
        · exact congrArg PageFlags.uptodate (flags _ same)
    | zoneAppend =>
      have sends : submitBio { { pageXio .zoneAppend page with oldBlkaddr := (s.io.image d).page.dataAddr page.2 } with
        dpage := some d } answers s.io = some (io,sent) := ran
      obtain ⟨zones,new,same,isSent,_⟩ := submitBioIs sends
      subst same isSent
      refine ⟨rfl,fun xio there => ?_,fun _ => id,fun _ => id,rfl,fun _ => id,fun nid member valid => plain zones nid member valid⟩
      cases there
      refine ⟨rfl,rfl,fun e parent => ?_⟩
      cases parent
      exact here

theorem submitValues (inv : NodeInv s) {op : ReqOp} {dnode : Option Nat} {answers : List Bool} {sent : Option Xio}
    (owned : s.owned page = true) (stale : op = .read → (s.flags page).uptodate = false)
    (ran : s.submit op page dnode answers = some (t,sent)) : Submitted s op page t sent := by
  unfold NodeRun.submit at ran
  split at ran
  · rename_i ours
    obtain ⟨⟨io,_⟩,done,same⟩ := Option.map_eq_some_iff.mp ran
    cases same
    unfold xcpfsSubmitXio at done
    split at done
    · rename_i node
      obtain ⟨ino,nid⟩ := page
      obtain rfl : ino = nodeIno := (isNodeIff op (ino,nid)).mp node
      exact submitNodeValues inv owned stale done
    · rename_i data
      exact submitDataValues inv (fun same => data ((isNodeIff op page).mpr same)) (fun d there => (ours d there).2) done
  · contradiction

/- What one event does to the nodes. -/
structure Stepped (s : NodeRun) (event : IoEvent) (t : NodeRun) : Prop where
  steady : PagesSteady t
  known : ∀ nid, s.known nid = true → t.known nid = true
  fresh : ∀ nid, t.known nid = true → s.known nid = false → ∃ prep, event = .prep prep ∧ takenNid s.io.nat.nm prep = some nid
  invalid : ∀ nid, t.invalid nid = false → s.invalid nid = false
  value : ∀ nid, t.known nid = true → t.invalid nid = false → t.value nid = storeNodes s event s.value nid

theorem steppedPlain {event : IoEvent} (nothing : storeNodes s event s.value = s.value) (steady : PagesSteady t) (known : t.known = s.known)
    (invalid : ∀ nid, t.invalid nid = false → s.invalid nid = false)
    (value : ∀ nid, s.known nid = true → t.invalid nid = false → t.value nid = s.value nid) : Stepped s event t where
  steady := steady
  known nid old := by
    rw [known]
    exact old
  fresh nid new old := by
    rw [known,old] at new
    contradiction
  invalid := invalid
  value nid member valid := by
    rw [nothing]
    exact value nid (known ▸ member) valid

theorem lockValues (inv : NodeInv s) (steady : PagesSteady s) (ran : nodeStep s (.lock page) = some t) : Stepped s (.lock page) t := by
  simp only [nodeStep] at ran
  split at ran
  · cases ran
    exact steppedPlain rfl (pagesFlags inv steady (steady.writing page) fun _ => id) rfl (fun _ => id) fun nid _ _ => valueFlags fun _ => rfl
  · contradiction

theorem unlockValues (inv : NodeInv s) (steady : PagesSteady s) (ran : nodeStep s (.unlock page) = some t) : Stepped s (.unlock page) t := by
  simp only [nodeStep] at ran
  split at ran
  · cases ran
    exact steppedPlain rfl (pagesFlags inv steady (steady.writing page) fun _ => id) rfl (fun _ => id) fun nid _ _ => valueFlags fun _ => rfl
  · contradiction

theorem dirtyValues (inv : NodeInv s) (steady : PagesSteady s) (ran : nodeStep s (.dirty page) = some t) : Stepped s (.dirty page) t := by
  simp only [nodeStep] at ran
  split at ran
  · rename_i guard
    cases ran
    exact steppedPlain rfl (pagesFlags inv steady (fun _ => rfl) fun _ _ => rfl) rfl (fun _ => id) fun nid _ _ =>
      valueFlags fun host => absurd host guard.1
  · contradiction

theorem beginValues (inv : NodeInv s) (steady : PagesSteady s) {cleared : Bool} (ran : nodeStep s (.begin page cleared) = some t) :
    Stepped s (.begin page cleared) t := by
  simp only [nodeStep] at ran
  split at ran
  · rename_i guard
    cases ran
    exact steppedPlain rfl (pagesFlags inv steady (fun _ => guard.2.1) fun _ => id) rfl (fun _ => id) fun nid _ _ => valueFlags fun _ => rfl
  · contradiction

theorem releaseValues (inv : NodeInv s) (steady : PagesSteady s) (ran : nodeStep s (.release page) = some t) : Stepped s (.release page) t := by
  simp only [nodeStep] at ran
  split at ran
  · rename_i idle
    cases ran
    have self : (s.setFlags page .blank).flags page = .blank := setFlagsSelf ..
    refine steppedPlain rfl (pagesFlags inv steady (fun bad => by contradiction) fun locked => ?_) rfl (fun _ => id) fun nid member valid => ?_
    · cases idle.1.symm.trans locked
    · by_cases here : nodeKey nid = page
      · subst here
        have gone : (s.setFlags (nodeKey nid) .blank).value nid = s.stored nid := valueStored (congrArg PageFlags.uptodate self)
        rw [gone]
        cases uptodate : (s.flags (nodeKey nid)).uptodate with
        | false => exact (valueStored uptodate).symm
        | true =>
          rw [valueUptodate uptodate]
          exact (inv.settled nid member valid uptodate idle.2.1 idle.2.2).symm
      · have other : (s.setFlags page .blank).flags (nodeKey nid) = s.flags (nodeKey nid) := setFlagsOther s.io _ here
        exact valueSame inv member valid (congrArg PageFlags.uptodate other) rfl rfl fun _ _ => rfl
  · contradiction

theorem changeValues (inv : NodeInv s) (steady : PagesSteady s) {change : NodeChange} (ran : nodeStep s (.change nid change) = some t) :
    Stepped s (.change nid change) t := by
  simp only [nodeStep] at ran
  split at ran
  · rename_i guard
    cases ran
    obtain ⟨owned,uptodate,still⟩ := guard
    have moved : PagesSteady (s.setFlags (nodeKey nid) { s.flags (nodeKey nid) with dirty := true }) :=
      pagesFlags inv steady (steady.writing _) fun _ => id
    refine ⟨⟨moved.writing,moved.flying⟩,fun _ => id,fun n new old => absurd (new.symm.trans old) (by decide),fun _ => id,fun n member valid => ?_⟩
    change _ = Function.update s.value nid (change.apply (s.value nid)) n
    by_cases same : n = nid
    · subst same
      rw [Function.update_self,valueUptodate uptodate]
      refine (valueUptodate ?_).trans (Function.update_self ..)
      exact (congrArg PageFlags.uptodate (setFlagsSelf ..)).trans uptodate
    · rw [Function.update_of_ne same]
      have far : nodeKey n ≠ nodeKey nid := fun alike => same (congrArg Prod.snd alike)
      refine valueSame inv member valid ?_ ?_ rfl fun _ _ => rfl
      · exact congrArg PageFlags.uptodate (setFlagsOther _ _ far)
      · exact Function.update_of_ne same ..
  · contradiction

theorem readValues (inv : NodeInv s) (steady : PagesSteady s) {dnode : Option Nat} (ran : nodeStep s (.read page dnode) = some t) :
    Stepped s (.read page dnode) t := by
  simp only [nodeStep] at ran
  split at ran
  · rename_i owned
    obtain ⟨⟨u,sent⟩,submitted,same⟩ := Option.map_eq_some_iff.mp ran
    cases same
    have done := submitValues inv owned.1 (fun _ => owned.2) submitted
    refine steppedPlain rfl (pagesMove steady (fun p writing => ?_) (fun p _ => done.uptodate p) (fun f flying write => ?_) (flightsHeld inv))
      done.known done.invalid done.value
    · exact done.uptodate p (steady.writing p (done.writeback p writing))
    · rw [done.flights] at flying
      rcases List.mem_append.mp flying with new | old
      · obtain ⟨xio,there,same⟩ := Option.map_eq_some_iff.mp (Option.mem_toList.mp new)
        subst same
        cases (done.xio xio there).1.symm.trans write
      · exact .inl ⟨f,old,rfl⟩
  · contradiction

theorem submitPageValues (inv : NodeInv s) (steady : PagesSteady s) {dnode : Option Nat} {answers : List Bool}
    (ran : nodeStep s (.submit page dnode answers) = some t) : Stepped s (.submit page dnode answers) t := by
  simp only [nodeStep] at ran
  split at ran
  · rename_i owned
    obtain ⟨⟨u,sent⟩,submitted,same⟩ := Option.map_eq_some_iff.mp ran
    have done := submitValues inv owned.1 (fun read => by contradiction) submitted
    obtain ⟨invU,unsent⟩ := submitKeeps inv owned.1 (fun read => by contradiction) submitted
    have steadyU : PagesSteady u := by
      refine pagesMove steady (fun p writing => ?_) (fun p _ => done.uptodate p) (fun f flying write => ?_) (flightsHeld inv)
      · exact done.uptodate p (steady.writing p (done.writeback p writing))
      · rw [done.flights] at flying
        rcases List.mem_append.mp flying with new | old
        · obtain ⟨xio,there,same⟩ := Option.map_eq_some_iff.mp (Option.mem_toList.mp new)
          subst same
          obtain ⟨_,place,dnodes⟩ := done.xio xio there
          refine .inr ⟨?_,fun d parent => done.uptodate _ (dnodes d parent)⟩
          rw [place]
          exact done.uptodate _ (steady.writing page owned.2)
        · exact .inl ⟨f,old,rfl⟩
    cases sent with
    | some xio =>
      cases same
      exact steppedPlain rfl steadyU done.known done.invalid done.value
    | none =>
      cases same
      obtain ⟨host,_⟩ := unsent rfl rfl
      refine steppedPlain rfl (pagesFlags invU steadyU (steadyU.writing page) fun _ => id) done.known done.invalid fun nid member valid => ?_
      exact (valueFlags fun bad => absurd bad host).trans (done.value nid member valid)
  · contradiction

theorem landValues (inv : NodeInv s) (steady : PagesSteady s) {i blkaddr : Nat} {data : NodeImage}
    (ran : nodeStep s (.land i blkaddr data) = some t) : Stepped s (.land i blkaddr data) t := by
  obtain ⟨f,flying,landed⟩ := Option.bind_eq_some_iff.mp ran
  obtain ⟨member,_,rest⟩ := takeFlight inv flying
  have ok := inv.flight f member
  unfold landFlight at landed
  split at landed
  · contradiction
  · rename_i op
    have flights : ∀ g ∈ { f with landed := some f.xio.newBlkaddr } :: s.flights.eraseIdx i, ∃ h ∈ s.flights, h.xio = g.xio := by
      intro g there
      rcases List.mem_cons.mp there with same | old
      · exact ⟨f,member,same ▸ rfl⟩
      · exact ⟨g,rest g old,rfl⟩
    split at landed
    · rename_i node
      cases landed
      have stale := (ok.read node op).1
      rw [nodePage ok node] at stale
      refine steppedPlain rfl (pagesMove steady steady.writing (fun _ _ => id) (fun g there _ => .inl (flights g there)) (flightsHeld inv))
        rfl (fun _ => id) fun nid known valid => ?_
      by_cases same : nid = f.xio.iblock
      · subst same
        rw [valueStored stale]
        exact valueStored stale
      · exact valueSame inv known valid rfl (Function.update_of_ne same ..) rfl fun _ _ => rfl
    · cases landed
      exact steppedPlain rfl (pagesMove steady steady.writing (fun _ _ => id) (fun g there _ => .inl (flights g there)) (flightsHeld inv))
        rfl (fun _ => id) fun nid _ _ => rfl
  · dsimp only at landed
    split at landed
    · rename_i fresh
      cases landed
      refine steppedPlain rfl (pagesMove steady steady.writing (fun _ _ => id) (fun g there _ => .inl ?_) (flightsHeld inv)) rfl (fun _ => id)
        fun nid known valid => ?_
      · rcases List.mem_cons.mp there with same | old
        · exact ⟨f,member,same ▸ rfl⟩
        · exact ⟨g,rest g old,rfl⟩
      · refine valueSame inv known valid rfl rfl rfl fun a wrote => Function.update_of_ne (fun same => ?_) ..
        rw [same,fresh.1] at wrote
        contradiction
    · contradiction

/- A completion only ends the writeback of pages, and makes them uptodate. -/
theorem pagesEnd (inv : NodeInv s) (steady : PagesSteady s) {io : IoState} {i : Nat}
    (flags : ∀ p, ((io.flags p).writeback = true → (s.flags p).writeback = true) ∧ ((s.flags p).uptodate = true → (io.flags p).uptodate = true)) :
    PagesSteady { s with io := io, flights := s.flights.eraseIdx i } :=
  pagesMove steady (fun p writing => (flags p).2 (steady.writing p ((flags p).1 writing))) (fun p _ => (flags p).2)
    (fun f flying _ => .inl ⟨f,List.mem_of_mem_eraseIdx flying,rfl⟩) (flightsHeld inv)

theorem readEndValues (inv : NodeInv s) (steady : PagesSteady s) {i : Nat} {bio : Bio} (flying : s.flights[i]? = some f) (read : f.xio.op = .read)
    (landed : f.landed.isSome) : Stepped s (.complete i .ok) { s with io := xcpfsReadEndIo f.xio bio s.io, flights := s.flights.eraseIdx i } := by
  obtain ⟨member,_,_⟩ := takeFlight inv flying
  have ok := inv.flight f member
  have self : (xcpfsReadEndIo f.xio bio s.io).flags f.xio.page =
      { (s.flags f.xio.page).unlockIf f.xio.unlock with uptodate := true } := setFlagsSelf ..
  have other : ∀ p, p ≠ f.xio.page → (xcpfsReadEndIo f.xio bio s.io).flags p = s.flags p := fun p far => setFlagsOther s.io _ far
  have nothing : storeNodes s (.complete i .ok) s.value = s.value := by simp [storeNodes,IoEvent.stores,flying,read]
  refine steppedPlain nothing (pagesEnd inv steady fun p => ?_) rfl (fun _ => id) fun nid known valid => ?_
  · by_cases here : p = f.xio.page
    · subst here
      rw [self]
      exact ⟨id,fun _ => rfl⟩
    · rw [other p here]
      exact ⟨id,id⟩
  · by_cases here : nodeKey nid = f.xio.page
    · have node : f.xio.isNode = true := ok.kind.mpr (congrArg Prod.fst here).symm
      have same : nid = f.xio.iblock := congrArg Prod.snd here
      subst same
      obtain ⟨stale,rest⟩ := ok.read node read
      obtain ⟨address,nonzero,content⟩ := rest valid
      rw [← here] at stale self
      rw [valueStored stale,storedAddr address nonzero,← content landed]
      exact valueUptodate (congrArg PageFlags.uptodate self)
    · exact valueSame inv known valid (congrArg PageFlags.uptodate (other _ here)) rfl rfl fun _ _ => rfl

theorem writeIndexNat {xio : Xio} {bio : Bio} {io mid : IoState} (node : xio.isNode = true) (indexed : writeIndex xio bio io = some mid) :
    ∃ nat : NatMount, mid = { io with nat := nat } ∧
      ∀ nid, xio.iblock ≠ nid → natAddr nat.file nat.nm nid = natAddr io.nat.file io.nat.nm nid := by
  unfold writeIndex at indexed
  rw [if_pos node] at indexed
  dsimp only at indexed
  split at indexed
  · obtain ⟨nat,appended,same⟩ := Option.map_eq_some_iff.mp indexed
    obtain ⟨_,_,nm,file,_,_⟩ := appendLookup appended
    refine ⟨nat,same.symm,fun nid differ => ?_⟩
    rw [file,nm]
    exact (loadsAddr (loadsLookup xio.iblock) nid).trans (updateAddrOther bio.blkaddr false differ)
  · exact ⟨_,(Option.some.inj indexed).symm,fun nid differ => updateAddrOther bio.blkaddr false differ⟩

/- What the rest of a write's completion does to the pages. -/
structure WriteEnds (xio : Xio) (mid out : IoState) : Prop where
  image : out.image = mid.image
  nat : out.nat = mid.nat
  uptodate : ∀ p, (out.flags p).uptodate = (mid.flags p).uptodate
  writeback : ∀ p, (out.flags p).writeback = true → (mid.flags p).writeback = true

theorem writeEndsOf {xio : Xio} {bio : Bio} {io out : IoState} (ran : xcpfsWriteEndIo xio bio io = some out) :
    ∃ mid, writeIndex xio bio io = some mid ∧ WriteEnds xio mid out := by
  obtain ⟨mid,indexed,same⟩ := Option.map_eq_some_iff.mp ran
  refine ⟨mid,indexed,?_⟩
  subst same
  refine ⟨rfl,rfl,fun p => ?_,fun p => ?_⟩
  · by_cases here : p = xio.page
    · subst here
      exact (congrArg PageFlags.uptodate (setFlagsSelf ..)).trans rfl
    · exact congrArg PageFlags.uptodate (setFlagsOther _ _ here)
  · by_cases here : p = xio.page
    · subst here
      rw [setFlagsSelf]
      exact fun bad => by contradiction
    · rw [setFlagsOther _ _ here]
      exact id

theorem writeNodeValues (inv : NodeInv s) (steady : PagesSteady s) {i : Nat} {bio : Bio} {io : IoState} (flying : s.flights[i]? = some f)
    (node : f.xio.isNode = true) (write : f.xio.op = .zoneAppend) (ran : xcpfsWriteEndIo f.xio bio s.io = some io) :
    Stepped s (.complete i .ok) { s with io := io, flights := s.flights.eraseIdx i } := by
  obtain ⟨member,_,_⟩ := takeFlight inv flying
  have ok := inv.flight f member
  obtain ⟨mid,indexed,ends⟩ := writeEndsOf ran
  obtain ⟨nat,isMid,addrs⟩ := writeIndexNat node indexed
  subst isMid
  have nothing : storeNodes s (.complete i .ok) s.value = s.value := by simp [storeNodes,IoEvent.stores,flying,write,node]
  refine steppedPlain nothing (pagesEnd inv steady fun p => ⟨ends.writeback p,fun old => (ends.uptodate p).trans old⟩) rfl (fun _ => id)
    fun nid known valid => ?_
  by_cases here : nodeKey nid = f.xio.page
  · have uptodate := (steady.flying f member write).1
    rw [← here] at uptodate
    rw [valueUptodate uptodate]
    refine (valueUptodate ?_).trans (congrFun ends.image nid)
    exact (ends.uptodate _).trans uptodate
  · have differ : f.xio.iblock ≠ nid := fun same => here (same ▸ (nodePage ok node).symm)
    refine valueSame inv known valid (ends.uptodate _) (congrFun ends.image nid) ?_ fun _ _ => rfl
    change natAddr io.nat.file io.nat.nm nid = _
    rw [ends.nat]
    exact addrs nid differ

theorem writeDataValues (inv : NodeInv s) (steady : PagesSteady s) {i : Nat} {io : IoState} (flying : s.flights[i]? = some f)
    (data : f.xio.isNode = false) (write : f.xio.op = .zoneAppend)
    (ran : xcpfsWriteEndIo f.xio ⟨f.landed.getD f.xio.newBlkaddr * 2 ^ pageSectorsShift,.ok⟩ s.io = some io) :
    Stepped s (.complete i .ok) { s with io := io, flights := s.flights.eraseIdx i } := by
  obtain ⟨member,_,_⟩ := takeFlight inv flying
  obtain ⟨mid,indexed,ends⟩ := writeEndsOf ran
  unfold writeIndex at indexed
  rw [if_neg (by simp [data]),bioBlkaddr] at indexed
  obtain ⟨dnode,parent,stored⟩ := Option.map_eq_some_iff.mp indexed
  have old := (steady.flying f member write).2 dnode parent
  have stores : storeNodes s (.complete i .ok) s.value = Function.update s.value dnode
      ((dataChange f.xio.iblock (f.landed.getD f.xio.newBlkaddr)).apply (s.value dnode)) := by
    simp [storeNodes,IoEvent.stores,flying,write,data,parent]
  have self : mid.flags (nodeKey dnode) = { s.flags (nodeKey dnode) with uptodate := true, dirty := true, locked := false } := by
    rw [← stored]
    exact setFlagsSelf ..
  have other : ∀ p, p ≠ nodeKey dnode → mid.flags p = s.flags p := by
    intro p far
    rw [← stored]
    exact setFlagsOther _ _ far
  have image : mid.image = Function.update s.io.image dnode
      { s.io.image dnode with page := (s.io.image dnode).page.setDataAddr f.xio.iblock (f.landed.getD f.xio.newBlkaddr) } := by
    rw [← stored]
    rfl
  have nat : mid.nat = s.io.nat := by rw [← stored]; rfl
  refine ⟨pagesEnd inv steady fun p => ⟨fun writing => ?_,fun was => (ends.uptodate p).trans ?_⟩,
    fun _ => id,fun nid new old => absurd (new.symm.trans old) (by decide),fun _ => id,fun nid known valid => ?_⟩
  · have writing := ends.writeback p writing
    by_cases here : p = nodeKey dnode
    · subst here
      exact (congrArg PageFlags.writeback self).symm.trans writing
    · exact (congrArg PageFlags.writeback (other p here)).symm.trans writing
  · by_cases here : p = nodeKey dnode
    · subst here
      exact congrArg PageFlags.uptodate self
    · exact (congrArg PageFlags.uptodate (other p here)).trans was
  · rw [stores]
    by_cases here : nid = dnode
    · subst here
      rw [Function.update_self,valueUptodate old,dataChangeApply]
      refine (valueUptodate ?_).trans ?_
      · exact (ends.uptodate _).trans (congrArg PageFlags.uptodate self)
      · change io.image nid = _
        rw [ends.image,image,Function.update_self]
    · rw [Function.update_of_ne here]
      have far : nodeKey nid ≠ nodeKey dnode := fun alike => here (congrArg Prod.snd alike)
      refine valueSame inv known valid ((ends.uptodate _).trans (congrArg PageFlags.uptodate (other _ far))) ?_ ?_ fun _ _ => rfl
      · change io.image nid = _
        rw [ends.image,image,Function.update_of_ne here]
      · change natAddr io.nat.file io.nat.nm nid = _
        rw [ends.nat,nat]
        rfl

theorem completeValues (inv : NodeInv s) (steady : PagesSteady s) {i : Nat} (ran : nodeStep s (.complete i .ok) = some t) :
    Stepped s (.complete i .ok) t := by
  obtain ⟨f,flying,ended⟩ := Option.bind_eq_some_iff.mp ran
  unfold endFlightOf at ended
  split at ended
  · contradiction
  · rename_i done
    obtain ⟨io,handled,same⟩ := Option.map_eq_some_iff.mp ended
    subst same
    unfold bioEndIo at handled
    cases op : f.xio.op with
    | read =>
      rw [op] at handled
      cases handled
      refine readEndValues inv steady flying op ?_
      cases landed : f.landed with
      | none => exact absurd ⟨rfl,landed⟩ done
      | some a => rfl
    | zoneAppend =>
      rw [op] at handled
      cases node : f.xio.isNode with
      | true => exact writeNodeValues inv steady flying node op handled
      | false => exact writeDataValues inv steady flying node op handled

theorem prepValues (inv : NodeInv s) (steady : PagesSteady s) {event : PrepEvent} (ran : nodeStep s (.prep event) = some t) :
    Stepped s (.prep event) t := by
  obtain ⟨nat,done,same⟩ := Option.map_eq_some_iff.mp ran
  subst same
  refine ⟨⟨steady.writing,steady.flying⟩,fun nid old => (Bool.or_eq_true ..).mpr (.inl old),fun nid new old => ⟨event,rfl,?_⟩,fun _ => id,fun nid known valid => ?_⟩
  · have new : (s.known nid || decide (takenNid s.io.nat.nm event = some nid)) = true := new
    simpa [old] using new
  have known : (s.known nid || decide (takenNid s.io.nat.nm event = some nid)) = true := known
  cases event with
  | load iblock =>
    have loads : Loads s.io.nat.file s.io.nat.nm (insertBlock s.io.nat.nm (s.io.nat.file iblock) iblock) := loadsBlock iblock
    have same : { s.io.nat with nm := insertBlock s.io.nat.nm (s.io.nat.file iblock) iblock } = nat := Option.some.inj done
    generalize insertBlock s.io.nat.nm (s.io.nat.file iblock) iblock = nm at loads same
    subst same
    exact valueSame inv (by simpa [takenNid] using known) valid rfl rfl (loadsAddr loads nid) fun _ _ => rfl
  | alloc isMeta use =>
    obtain ⟨⟨nm,ne⟩,found,same⟩ := Option.map_eq_some_iff.mp done
    subst same
    obtain ⟨_,unknown,zero,_,others⟩ := natOkTake inv.nat found use
    have taken : takenNid s.io.nat.nm (.alloc isMeta use) = some ne.nid := by simp only [takenNid,found,Option.map_some]
    have stores : storeNodes s (.prep (.alloc isMeta use)) s.value = Function.update s.value ne.nid .zero := by
      simp [storeNodes,IoEvent.stores,taken]
    rw [stores]
    by_cases new : nid = ne.nid
    · subst new
      rw [Function.update_self]
      refine (valueStored ?_).trans (storedZero zero)
      cases uptodate : (s.flags (nodeKey ne.nid)).uptodate with
      | false => exact uptodate
      | true => cases unknown.symm.trans (inv.cached ne.nid (.inr uptodate))
    · rw [Function.update_of_ne new]
      have old : s.known nid = true := by simpa [taken,Ne.symm new] using known
      exact valueSame inv old valid rfl rfl (others nid fun same => new same.symm) fun _ _ => rfl

theorem invalidateValues (inv : NodeInv s) (steady : PagesSteady s) (ran : nodeStep s (.invalidate nid) = some t) :
    Stepped s (.invalidate nid) t := by
  simp only [nodeStep] at ran
  split at ran
  · rename_i member
    cases ran
    obtain ⟨_,_,_,others⟩ := natOkInvalidate inv.nat member
    have old : ∀ n, Function.update s.invalid nid true n = false → n ≠ nid ∧ s.invalid n = false := by
      intro n valid
      rw [Function.update_apply] at valid
      split at valid
      · contradiction
      · exact ⟨‹_›,valid⟩
    refine steppedPlain rfl ⟨steady.writing,steady.flying⟩ rfl (fun n valid => (old n valid).2) fun n known valid => ?_
    obtain ⟨apart,valid⟩ := old n valid
    exact valueSame inv known valid rfl rfl (others n apart.symm) fun _ _ => rfl
  · contradiction

theorem flushValues (inv : NodeInv s) (steady : PagesSteady s) (ran : nodeStep s (.flush nid) = some t) : Stepped s (.flush nid) t := by
  obtain ⟨ne,found,same⟩ := Option.map_eq_some_iff.mp ran
  subst same
  obtain ⟨_,_,addr⟩ := natOkFlush inv.nat s.io.nat.metaNat found
  exact steppedPlain rfl ⟨steady.writing,steady.flying⟩ rfl (fun _ => id) fun n known valid => valueSame inv known valid rfl rfl (addr n) fun _ _ => rfl

theorem nodeStepValues (inv : NodeInv s) (steady : PagesSteady s) {event : IoEvent} (guard : noIoError s event)
    (ran : nodeStep s event = some t) : Stepped s event t := by
  cases event with
  | lock page => exact lockValues inv steady ran
  | unlock page => exact unlockValues inv steady ran
  | change nid change => exact changeValues inv steady ran
  | dirty page => exact dirtyValues inv steady ran
  | read page dnode => exact readValues inv steady ran
  | begin page cleared => exact beginValues inv steady ran
  | submit page dnode answers => exact submitPageValues inv steady ran
  | land i blkaddr data => exact landValues inv steady ran
  | complete i status =>
    cases guard
    exact completeValues inv steady ran
  | prep event => exact prepValues inv steady ran
  | invalidate nid => exact invalidateValues inv steady ran
  | flush nid => exact flushValues inv steady ran
  | phase cpSemLocked restart phase fresh =>
    cases ran
    exact steppedPlain rfl ⟨steady.writing,steady.flying⟩ rfl (fun _ => id) fun n known valid => valueSame inv known valid rfl rfl rfl fun _ _ => rfl
  | release page => exact releaseValues inv steady ran

end

/- A run beside the map that it stores to. -/
structure NodeShadow where
  run : NodeRun
  last : Nat → NodeImage

def shadowStep (s : NodeShadow) (event : IoEvent) : Option NodeShadow :=
  (nodeStep s.run event).map fun run => ⟨run,storeNodes s.run event s.last⟩

structure ShadowInv (s : NodeShadow) : Prop where
  inv : NodeInv s.run
  steady : PagesSteady s.run
  last : ∀ nid, s.run.known nid = true → s.run.invalid nid = false → s.run.value nid = s.last nid

section
variable {s t : NodeShadow} {event : IoEvent} {nid : Nat}

theorem storeNodesAt {s : NodeRun} {nodes other : Nat → NodeImage} (same : nodes nid = other nid) :
    storeNodes s event nodes nid = storeNodes s event other nid := by
  unfold storeNodes
  cases event.stores s with
  | some store =>
    obtain ⟨n,change⟩ := store
    dsimp only
    rw [Function.update_apply,Function.update_apply]
    split
    · rename_i here
      rw [← here,same]
    · exact same
  | none =>
    cases event with
    | prep prep =>
      dsimp only
      cases takenNid s.io.nat.nm prep with
      | none => exact same
      | some n => rw [Option.elim_some,Option.elim_some,Function.update_apply,Function.update_apply,same]
    | _ => exact same

theorem shadowKeeps (inv : ShadowInv s) (guard : noIoError s.run event) (ran : shadowStep s event = some t) : ShadowInv t := by
  obtain ⟨run,step,rfl⟩ := Option.map_eq_some_iff.mp ran
  have stepped := nodeStepValues inv.inv inv.steady guard step
  refine ⟨nodeStepKeeps s.run event run inv.inv guard step,stepped.steady,fun nid known valid => ?_⟩
  refine (stepped.value nid known valid).trans ?_
  cases old : s.run.known nid with
  | true => exact storeNodesAt (inv.last nid old (stepped.invalid nid valid))
  | false =>
    obtain ⟨prep,rfl,taken⟩ := stepped.fresh nid known old
    simp [storeNodes,IoEvent.stores,taken]

end

section
variable {nat : NatDisk} {zm : ZmInfo} {disk : Nat → NodeImage} {written referenced : Nat → Bool} {events : List IoEvent} {t : NodeShadow}
  {nid : Nat}

/-- In every run of a mount without I/O errors, an uptodate page of a node in use has what was
stored to the node last, and where the page is not in memory or is clean the device has it. -/
theorem nodesHoldLast (imaged : Imaged nat written referenced)
    (run : Run (fun s : NodeShadow => noIoError s.run) shadowStep
      ⟨nodeStart nat zm disk written referenced,(nodeStart nat zm disk written referenced).stored⟩ events t)
    (allocated : t.run.known nid = true) (valid : t.run.invalid nid = false) :
    ((t.run.flags (nodeKey nid)).uptodate = true → t.run.io.image nid = t.last nid) ∧
      ((t.run.flags (nodeKey nid)).uptodate = false ∨
        (t.run.flags (nodeKey nid)).dirty = false ∧ (t.run.flags (nodeKey nid)).writeback = false → t.run.stored nid = t.last nid) := by
  have start : ShadowInv ⟨nodeStart nat zm disk written referenced,(nodeStart nat zm disk written referenced).stored⟩ :=
    ⟨nodeStartInv imaged,⟨fun _ bad => by contradiction,fun _ bad => by contradiction⟩,fun _ _ _ => valueStored rfl⟩
  have inv := invariant ShadowInv (fun _ _ _ inv guard ran => shadowKeeps inv guard ran) run start
  have last := inv.last nid allocated valid
  constructor
  · intro uptodate
    exact (valueUptodate uptodate).symm.trans last
  · intro settled
    exact (settledValue inv.inv allocated valid settled).symm.trans last

end

/-- The synced root inode: what was stored to it is on the device. -/
theorem nodesHoldLastSync : ∃ t, exec shadowStep ⟨mkfsRun,mkfsRun.stored⟩ syncRoot = some t ∧ (t.last 3).inode.iSize = 8 ∧
    t.run.stored 3 = t.last 3 := by
  have synced : ((exec shadowStep ⟨mkfsRun,mkfsRun.stored⟩ syncRoot).any fun t => decide ((t.last 3).inode.iSize = 8) &&
      (t.run.known 3 && (!t.run.invalid 3 && (!(t.run.flags (nodeKey 3)).dirty && !(t.run.flags (nodeKey 3)).writeback)))) = true := by
    decide +kernel
  obtain ⟨t,ran,holds⟩ := (Option.any_eq_true ..).mp synced
  simp only [Bool.and_eq_true,Bool.not_eq_true',decide_eq_true_eq] at holds
  obtain ⟨size,allocated,valid,settled⟩ := holds
  have guarded : Guarded (fun s : NodeShadow => noIoError s.run) shadowStep ⟨mkfsRun,mkfsRun.stored⟩ syncRoot := by
    refine guardedAll (fun event member s => ?_) _
    cases event with
    | complete i status =>
      cases status with
      | ok => rfl
      | ioerr => simp [syncRoot,writeRoot,readRoot] at member
    | _ => trivial
  exact ⟨t,ran,size,(nodesHoldLast mkfsImaged (ofExec ran guarded) allocated valid).2 (.inr settled)⟩

end Xcpfs
