import Xcpfs.NatKnown
import Xcpfs.Xio

/-! No node update is lost: in every run without I/O errors a node page that is neither
dirty nor under writeback is what the device holds at the nid's address. A page stays
locked while it is in flight, and a data write holds the page that points at its block,
so nobody changes a page between the transfer and the completion. -/
namespace Xcpfs

open EventRun

def NodeRun.addr (s : NodeRun) (nid : Nat) : Option Nat := natAddr s.io.nat.file s.io.nat.nm nid

/-- What the device holds for a nid; a nid without a block reads as zeros. -/
def NodeRun.stored (s : NodeRun) (nid : Nat) : NodeImage :=
  let blkaddr := (s.addr nid).getD 0
  if blkaddr = 0 then .zero else s.disk blkaddr

/- An image: its superblock is written and every nid it names has an address, which is that
of a written block. -/
structure Imaged (nat : NatDisk) (written referenced : Nat → Bool) : Prop where
  super : written 0 = true
  addressed : ∀ nid, referenced nid = true → ∃ a, natAddr nat.file (xcpfsReadNats nat.metaNat) nid = some a ∧ a ≠ 0 ∧ written a = true

def noIoError (_ : NodeRun) : IoEvent → Prop
  | .complete _ status => status = .ok
  | _ => True

def Apart (f g : Flight) : Prop := ∀ page ∈ f.held, page ∉ g.held

structure FlightOk (s : NodeRun) (f : Flight) : Prop where
  kind : f.xio.isNode = true ↔ f.xio.ino = nodeIno
  unlock : f.xio.unlock = true
  held : ∀ page ∈ f.held, (s.flags page).locked = true
  write : f.xio.isNode = true → f.xio.op = .zoneAppend → (∃ ne, s.io.nat.nm.slot f.xio.iblock = some (true,ne)) ∧
    ∀ a, f.landed = some a → s.written a = true ∧ a ≠ 0 ∧ s.disk a = s.io.image f.xio.iblock
  read : f.xio.isNode = true → f.xio.op = .read → (s.flags f.xio.page).uptodate = false ∧
    (s.invalid f.xio.iblock = false → s.addr f.xio.iblock = some f.xio.newBlkaddr ∧ f.xio.newBlkaddr ≠ 0 ∧
      (f.landed.isSome → s.io.image f.xio.iblock = s.disk f.xio.newBlkaddr))

def NodeSettled (s : NodeRun) (nid : Nat) : Prop :=
  s.known nid = true → s.invalid nid = false → (s.flags (nodeKey nid)).uptodate = true →
    (s.flags (nodeKey nid)).dirty = false → (s.flags (nodeKey nid)).writeback = false → s.io.image nid = s.stored nid

structure NodeInv (s : NodeRun) : Prop where
  nat : NatOk s.known s.io.nat.file s.io.nat.nm
  super : s.written 0 = true
  address : ∀ nid a, s.known nid = true → s.invalid nid = false → s.addr nid = some a → a ≠ 0 → s.written a = true
  cached : ∀ nid, (s.flags (nodeKey nid)).locked = true ∨ (s.flags (nodeKey nid)).uptodate = true → s.known nid = true
  apart : s.flights.Pairwise Apart
  flight : ∀ f ∈ s.flights, FlightOk s f
  settled : ∀ nid, NodeSettled s nid

/- A step that works on the pages `touched`. -/
structure Frame (touched : PageKey → Prop) (s t : NodeRun) : Prop where
  flags : ∀ page, ¬touched page → t.flags page = s.flags page
  image : ∀ nid, ¬touched (nodeKey nid) → t.io.image nid = s.io.image nid
  known : ∀ nid, s.known nid = true → t.known nid = true
  invalid : ∀ nid, t.invalid nid = false → s.invalid nid = false
  addr : ∀ nid, s.known nid = true → t.invalid nid = false → ¬touched (nodeKey nid) → t.addr nid = s.addr nid
  used : KeepsUsed s.io.nat.nm t.io.nat.nm
  written : ∀ a, s.written a = true → t.written a = true
  disk : ∀ a, s.written a = true → t.disk a = s.disk a

section
variable {s t : NodeRun} {touched : PageKey → Prop} {f : Flight} {nid : Nat} {page : PageKey}

theorem ownedIff : s.owned page = true ↔ (s.flags page).locked = true ∧ ∀ f ∈ s.flights, page ∉ f.held := by
  simp only [NodeRun.owned,NodeRun.heldByIo,Bool.and_eq_true,Bool.not_eq_true',List.any_eq_false,List.contains_iff_mem]

theorem storedAddr {a : Nat} (address : s.addr nid = some a) (nonzero : a ≠ 0) : s.stored nid = s.disk a := by
  unfold NodeRun.stored
  rw [address]
  exact if_neg nonzero

theorem storedZero (address : s.addr nid = some 0) : s.stored nid = .zero := by
  unfold NodeRun.stored
  rw [address]
  rfl

theorem knownAddr (inv : NodeInv s) (member : s.known nid = true) : ∃ a, s.addr nid = some a := by
  unfold NodeRun.addr
  rw [natAddrSlot]
  rcases inv.nat.used nid member with ⟨ne,here⟩ | ⟨none_,high,_⟩
  · rw [here]
    exact ⟨_,rfl⟩
  · rw [none_]
    dsimp only
    rw [if_pos high]
    exact ⟨_,rfl⟩

theorem frameStored (frame : Frame touched s t) (inv : NodeInv s) (member : s.known nid = true) (valid : t.invalid nid = false)
    (far : ¬touched (nodeKey nid)) : t.stored nid = s.stored nid := by
  have same := frame.addr nid member valid far
  obtain ⟨a,address⟩ := knownAddr inv member
  by_cases zero : a = 0
  · rw [zero] at address
    rw [storedZero address,storedZero (same.trans address)]
  · rw [storedAddr address zero,storedAddr (same.trans address) zero]
    exact frame.disk a (inv.address nid a member (frame.invalid nid valid) address zero)

theorem frameSettled (frame : Frame touched s t) (inv : NodeInv s) (far : ¬touched (nodeKey nid)) : NodeSettled t nid := by
  intro _ valid uptodate clean still
  rw [frame.flags _ far] at uptodate clean still
  have member := inv.cached nid (.inr uptodate)
  rw [frame.image nid far,frameStored frame inv member valid far]
  exact inv.settled nid member (frame.invalid nid valid) uptodate clean still

theorem frameFlight (frame : Frame touched s t) (inv : NodeInv s) (member : f ∈ s.flights)
    (far : ∀ page ∈ f.held, ¬touched page) : FlightOk t f := by
  have ok := inv.flight f member
  have pageHeld : f.xio.page ∈ f.held := List.mem_cons_self
  have farPage := far _ pageHeld
  have nodePage : f.xio.isNode = true → f.xio.page = nodeKey f.xio.iblock := by
    intro node
    unfold Xio.page nodeKey
    rw [ok.kind.mp node]
  have listed : f.xio.isNode = true → s.known f.xio.iblock = true := by
    intro node
    have locked := ok.held _ pageHeld
    rw [nodePage node] at locked
    exact inv.cached _ (.inl locked)
  refine ⟨ok.kind,ok.unlock,fun page there => ?_,fun node op => ?_,fun node op => ?_⟩
  · rw [frame.flags page (far page there)]
    exact ok.held page there
  · obtain ⟨⟨ne,here⟩,landed⟩ := ok.write node op
    refine ⟨frame.used _ ne here,fun a there => ?_⟩
    obtain ⟨wrote,nonzero,content⟩ := landed a there
    have farNid : ¬touched (nodeKey f.xio.iblock) := nodePage node ▸ farPage
    rw [frame.disk a wrote,frame.image _ farNid]
    exact ⟨frame.written a wrote,nonzero,content⟩
  · have farNid : ¬touched (nodeKey f.xio.iblock) := nodePage node ▸ farPage
    obtain ⟨stale,rest⟩ := ok.read node op
    refine ⟨by rw [frame.flags _ farPage]; exact stale,fun valid => ?_⟩
    obtain ⟨address,nonzero,content⟩ := rest (frame.invalid _ valid)
    refine ⟨(frame.addr _ (listed node) valid farNid).trans address,nonzero,fun landed => ?_⟩
    rw [frame.image _ farNid,content landed]
    exact (frame.disk _ (inv.address _ _ (listed node) (frame.invalid _ valid) address nonzero)).symm

theorem nodeInvMove (inv : NodeInv s) (frame : Frame touched s t) (nat : NatOk t.known t.io.nat.file t.io.nat.nm)
    (fresh : ∀ nid, t.known nid = true → s.known nid = false → t.addr nid = some 0)
    (address : ∀ nid a, touched (nodeKey nid) → t.known nid = true → t.invalid nid = false → t.addr nid = some a → a ≠ 0 → t.written a = true)
    (cached : ∀ nid, touched (nodeKey nid) → (t.flags (nodeKey nid)).locked = true ∨ (t.flags (nodeKey nid)).uptodate = true → t.known nid = true)
    (apart : t.flights.Pairwise Apart) (flight : ∀ f ∈ t.flights, FlightOk t f)
    (settled : ∀ nid, touched (nodeKey nid) → NodeSettled t nid) : NodeInv t where
  nat := nat
  super := frame.written 0 inv.super
  address nid a member valid here nonzero := by
    by_cases near : touched (nodeKey nid)
    · exact address nid a near member valid here nonzero
    · cases old : s.known nid with
      | true =>
        rw [frame.addr nid old valid near] at here
        exact frame.written a (inv.address nid a old (frame.invalid nid valid) here nonzero)
      | false => exact absurd (Option.some.inj (here.symm.trans (fresh nid member old))) nonzero
  cached nid there := by
    by_cases near : touched (nodeKey nid)
    · exact cached nid near there
    · rw [frame.flags _ near] at there
      exact frame.known nid (inv.cached nid there)
  apart := apart
  flight := flight
  settled nid := by
    by_cases near : touched (nodeKey nid)
    · exact settled nid near
    · exact frameSettled frame inv near

theorem settledFlags (settled : NodeSettled s nid) {flags : PageFlags} (here : nodeKey nid = page)
    (weaker : flags.uptodate = true → flags.dirty = false → flags.writeback = false →
      (s.flags page).uptodate = true ∧ (s.flags page).dirty = false ∧ (s.flags page).writeback = false) :
    NodeSettled (s.setFlags page flags) nid := by
  subst here
  have now : (s.setFlags (nodeKey nid) flags).flags (nodeKey nid) = flags := setFlagsSelf ..
  intro member valid uptodate clean still
  rw [now] at uptodate clean still
  obtain ⟨uptodate,clean,still⟩ := weaker uptodate clean still
  exact settled member valid uptodate clean still

theorem frameFlags (page : PageKey) (flags : PageFlags) : Frame (· = page) s (s.setFlags page flags) where
  flags _ far := setFlagsOther s.io flags far
  image _ _ := rfl
  known _ member := member
  invalid _ valid := valid
  addr _ _ _ _ := rfl
  used _ ne here := ⟨ne,here⟩
  written _ wrote := wrote
  disk _ _ := rfl

theorem nodeInvFlags (inv : NodeInv s) {flags : PageFlags} (free : ∀ f ∈ s.flights, page ∉ f.held)
    (member : page.1 = nodeIno → flags.locked = true ∨ flags.uptodate = true → s.known page.2 = true)
    (weaker : page.1 = nodeIno → flags.uptodate = true → flags.dirty = false → flags.writeback = false →
      (s.flags page).uptodate = true ∧ (s.flags page).dirty = false ∧ (s.flags page).writeback = false) :
    NodeInv (s.setFlags page flags) := by
  have frame := @frameFlags s page flags
  have node : ∀ nid, nodeKey nid = page → page.1 = nodeIno ∧ page.2 = nid := by
    intro nid here
    rw [← here]
    exact ⟨rfl,rfl⟩
  refine nodeInvMove inv frame inv.nat (fun nid new old => absurd (new.symm.trans old) (by decide))
    (fun nid a _ known valid => inv.address nid a known valid) ?_ inv.apart ?_ ?_
  · intro nid here there
    obtain ⟨host,index⟩ := node nid here
    have now : (s.setFlags page flags).flags page = flags := setFlagsSelf ..
    rw [here,now] at there
    exact index ▸ member host there
  · intro f flying
    refine frameFlight frame inv flying fun other there same => free f flying ?_
    rw [← same]
    exact there
  · intro nid here
    exact settledFlags (inv.settled nid) here (weaker (node nid here).1)

theorem nodeInvNat (inv : NodeInv s) (flags : t.io.flags = s.io.flags) (image : t.io.image = s.io.image)
    (flights : t.flights = s.flights) (written : t.written = s.written) (disk : t.disk = s.disk)
    (known : ∀ nid, s.known nid = true → t.known nid = true) (invalid : ∀ nid, t.invalid nid = false → s.invalid nid = false)
    (addr : ∀ nid, s.known nid = true → t.invalid nid = false → t.addr nid = s.addr nid)
    (used : KeepsUsed s.io.nat.nm t.io.nat.nm) (nat : NatOk t.known t.io.nat.file t.io.nat.nm)
    (fresh : ∀ nid, t.known nid = true → s.known nid = false → t.addr nid = some 0) : NodeInv t := by
  have frame : Frame (fun _ => False) s t := by
    refine ⟨fun page _ => ?_,fun nid _ => ?_,known,invalid,fun nid member valid _ => addr nid member valid,used,fun a wrote => ?_,fun a _ => ?_⟩
    · exact congrFun flags page
    · rw [image]
    · rw [written]
      exact wrote
    · rw [disk]
  refine nodeInvMove inv frame nat fresh (fun _ _ near => near.elim) (fun _ near => near.elim) ?_ ?_ fun _ near => near.elim
  · rw [flights]
    exact inv.apart
  · intro f flying
    rw [flights] at flying
    exact frameFlight frame inv flying fun _ _ => id

theorem nodeInvLoads (inv : NodeInv s) {nm : NatInfo} (loads : Loads s.io.nat.file s.io.nat.nm nm) (journal : List MetaNat) :
    NodeInv { s with io := { s.io with nat := ⟨nm,s.io.nat.file,journal⟩ } } := by
  refine nodeInvNat inv rfl rfl rfl rfl rfl (fun _ => id) (fun _ => id) (fun nid _ _ => loadsAddr loads nid) (loadsUsed loads)
    (natOkLoads inv.nat loads) fun nid new old => absurd (new.symm.trans old) (by decide)

theorem storeKeeps (inv : NodeInv s) (owned : s.owned (nodeKey nid) = true) (image : NodeImage) {flags : PageFlags}
    (stored : s.invalid nid = false → flags.dirty = false → image = s.stored nid) :
    NodeInv { s with io := (s.io.setImage nid image).setFlags (nodeKey nid) flags } := by
  obtain ⟨locked,free⟩ := ownedIff.mp owned
  have member := inv.cached nid (.inl locked)
  have keyOf : ∀ other, nodeKey other = nodeKey nid → other = nid := fun _ same => congrArg Prod.snd same
  have frame : Frame (· = nodeKey nid) s { s with io := (s.io.setImage nid image).setFlags (nodeKey nid) flags } := by
    refine ⟨fun page far => setFlagsOther _ _ far,fun other far => ?_,fun _ => id,fun _ => id,fun _ _ _ _ => rfl,
      fun _ ne here => ⟨ne,here⟩,fun _ => id,fun _ _ => rfl⟩
    exact Function.update_of_ne (fun same => far (congrArg nodeKey same)) ..
  refine nodeInvMove inv frame inv.nat (fun nid new old => absurd (new.symm.trans old) (by decide))
    (fun other a _ known valid => inv.address other a known valid) ?_ inv.apart ?_ ?_
  · intro other here _
    rw [keyOf other here]
    exact member
  · intro f flying
    refine frameFlight frame inv flying fun page there same => free f flying ?_
    rw [← same]
    exact there
  · intro other here _ valid _ clean _
    have now : NodeRun.flags { s with io := (s.io.setImage nid image).setFlags (nodeKey nid) flags } (nodeKey nid) = flags :=
      setFlagsSelf ..
    rw [here,now] at clean
    have same := keyOf other here
    subst same
    exact (Function.update_self ..).trans (stored valid clean)

theorem prepKeeps (inv : NodeInv s) {event : PrepEvent} (ran : nodeStep s (.prep event) = some t) : NodeInv t := by
  obtain ⟨nat,done,same⟩ := Option.map_eq_some_iff.mp ran
  subst same
  have known : ∀ nid, s.known nid = true → (s.known nid || decide (takenNid s.io.nat.nm event = some nid)) = true :=
    fun nid member => (Bool.or_eq_true ..).mpr (.inl member)
  cases event with
  | load iblock =>
    have loads : Loads s.io.nat.file s.io.nat.nm (insertBlock s.io.nat.nm (s.io.nat.file iblock) iblock) := loadsBlock iblock
    have same : { s.io.nat with nm := insertBlock s.io.nat.nm (s.io.nat.file iblock) iblock } = nat := Option.some.inj done
    have none_ : (fun nid => s.known nid || decide (takenNid s.io.nat.nm (.load iblock) = some nid)) = s.known := by
      funext nid
      simp [takenNid]
    rw [none_,← same]
    exact nodeInvLoads inv loads s.io.nat.metaNat
  | alloc isMeta use =>
    obtain ⟨⟨nm,ne⟩,found,same⟩ := Option.map_eq_some_iff.mp done
    subst same
    obtain ⟨ok,unknown,zero,used,others⟩ := natOkTake inv.nat found use
    have taken : takenNid s.io.nat.nm (.alloc isMeta use) = some ne.nid := by
      simp only [takenNid,found,Option.map_some]
    refine nodeInvNat inv rfl rfl rfl rfl rfl known (fun _ => id) (fun nid member _ => ?_) used ?_ fun nid new old => ?_
    · refine others nid fun same => ?_
      rw [same,member] at unknown
      contradiction
    · refine ⟨ok.distinct,ok.unused,fun n member => ok.used n ?_⟩
      have member : (s.known n || decide (takenNid s.io.nat.nm (.alloc isMeta use) = some n)) = true := member
      rw [taken] at member
      simpa using member
    · have new : (s.known nid || decide (takenNid s.io.nat.nm (.alloc isMeta use) = some nid)) = true := new
      rw [old,taken] at new
      have same : ne.nid = nid := by simpa using new
      rw [← same]
      exact zero

theorem invalidateNidKeeps (inv : NodeInv s) (ran : nodeStep s (.invalidate nid) = some t) : NodeInv t := by
  simp only [nodeStep] at ran
  split at ran
  · rename_i member
    cases ran
    obtain ⟨ok,used,_,others⟩ := natOkInvalidate inv.nat member
    have apart : ∀ other, Function.update s.invalid nid true other = false → nid ≠ other := by
      intro other valid same
      rw [← same,Function.update_self] at valid
      contradiction
    refine nodeInvNat inv rfl rfl rfl rfl rfl (fun _ => id) (fun other valid => ?_) (fun other _ valid => others other (apart other valid)) used ok
      fun nid new old => absurd (new.symm.trans old) (by decide)
    exact (Function.update_of_ne (apart other valid).symm ..).symm.trans valid
  · contradiction

theorem flushKeeps (inv : NodeInv s) (ran : nodeStep s (.flush nid) = some t) : NodeInv t := by
  obtain ⟨ne,found,same⟩ := Option.map_eq_some_iff.mp ran
  subst same
  obtain ⟨ok,used,addr⟩ := natOkFlush inv.nat s.io.nat.metaNat found
  exact nodeInvNat inv rfl rfl rfl rfl rfl (fun _ => id) (fun _ => id) (fun other _ _ => addr other) used ok
    fun nid new old => absurd (new.symm.trans old) (by decide)

theorem isNodeIff (op : ReqOp) (page : PageKey) : (pageXio op page).isNode = true ↔ page.1 = nodeIno := by
  unfold Xio.isNode pageXio getPageType
  by_cases data : page.1 = metaIno
  · simp [data,metaIno,nodeIno]
  · by_cases node : page.1 = nodeIno
    · simp only [node,if_true]
      cases isMetaNid page.2 <;> simp [metaIno,nodeIno]
    · simp [data,node]

theorem submitBioIs {xio : Xio} {answers : List Bool} {io out : IoState} {sent : Option Xio}
    (ran : submitBio xio answers io = some (out,sent)) :
    ∃ zones new, out = { io with zones := zones } ∧ sent = some { xio with newBlkaddr := new } ∧
      (xio.op = .read → new = xio.oldBlkaddr) := by
  obtain ⟨⟨zones,new⟩,placed,same⟩ := Option.map_eq_some_iff.mp ran
  dsimp only at same
  cases op : xio.op with
  | read =>
    rw [op] at same placed
    cases same
    cases placed
    exact ⟨_,_,rfl,rfl,fun _ => rfl⟩
  | zoneAppend =>
    rw [op] at same
    cases same
    exact ⟨_,_,rfl,rfl,fun bad => by contradiction⟩

theorem sendKeeps (inv : NodeInv s) (zones : ZoneSbi) (ok : FlightOk s f) (free : ∀ page ∈ f.held, s.owned page = true) :
    NodeInv { s with io := { s.io with zones := zones }, flights := f :: s.flights } := by
  refine ⟨inv.nat,inv.super,inv.address,inv.cached,List.pairwise_cons.mpr ⟨?_,inv.apart⟩,?_,inv.settled⟩
  · intro g flying page mine theirs
    exact (ownedIff.mp (free page mine)).2 g flying theirs
  · intro g flying
    rcases List.mem_cons.mp flying with same | old
    · subst same
      exact ⟨ok.kind,ok.unlock,ok.held,ok.write,ok.read⟩
    · have ok := inv.flight g old
      exact ⟨ok.kind,ok.unlock,ok.held,ok.write,ok.read⟩

theorem ownedMono {io : IoState} (same : io.flags = s.io.flags) (page : PageKey) :
    NodeRun.owned { s with io := io } page = s.owned page := by
  unfold NodeRun.owned NodeRun.flags
  rw [same]
  rfl

/- `submit_node_xio`: a node without a block is filled at once, else the request flies. -/
theorem submitNodeKeeps (inv : NodeInv s) {op : ReqOp} {answers : List Bool} {io : IoState} {sent : Option Xio}
    (host : page.1 = nodeIno) (owned : s.owned page = true) (stale : op = .read → (s.flags page).uptodate = false)
    (ran : submitNodeXio (pageXio op page) answers s.io = some (io,sent)) :
    NodeInv { s with io := io, flights := (sent.map fun xio => Flight.mk xio none).toList ++ s.flights } ∧
      (op = .zoneAppend → sent ≠ none) := by
  obtain ⟨ino,nid⟩ := page
  have host : ino = nodeIno := host
  subst host
  obtain ⟨locked,free⟩ := ownedIff.mp owned
  have member : s.known nid = true := inv.cached nid (.inl locked)
  have loads := @loadsLookup s.io.nat.file s.io.nat.nm nid
  have here := usedLookup inv.nat member
  have inv := nodeInvLoads inv loads s.io.nat.metaNat
  have after := @lookupNatAfter s.io.nat.nm nid s.io.nat.file
  unfold submitNodeXio at ran
  have index : (pageXio op (nodeIno,nid)).iblock = nid := rfl
  rw [index] at ran
  generalize lookupNat s.io.nat.file s.io.nat.nm nid = looked at *
  obtain ⟨nm,entry⟩ := looked
  obtain ⟨ne,here⟩ := here
  have found : entry = some ne := by
    rw [lookupSlot,here] at after
    exact after
  subst found
  dsimp only at ran inv here
  have address : natAddr s.io.nat.file nm nid = some ne.blockAddr := addrUsed here
  split at ran
  · rename_i zero
    cases Option.some.inj ran
    have blank : (s.io.flags (pageXio op (nodeIno,nid)).page).uptodate = false := stale zero.2
    refine ⟨?_,fun write => absurd (zero.2.symm.trans write) (by decide)⟩
    rw [blank,if_neg Bool.false_ne_true]
    refine storeKeeps inv ((ownedMono rfl _).trans owned) .zero fun _ _ => ?_
    rw [zero.1] at address
    apply Eq.symm
    apply storedZero
    exact address
  · rename_i nonzero
    obtain ⟨zones,new,same,isSent,reads⟩ := submitBioIs ran
    subst same isSent
    refine ⟨sendKeeps inv zones ?_ ?_,fun _ => by simp⟩
    · refine ⟨isNodeIff op (nodeIno,nid),rfl,?_,fun _ _ => ⟨⟨ne,here⟩,fun a landed => by contradiction⟩,fun _ read => ?_⟩
      · intro page mine
        cases List.mem_singleton.mp mine
        exact locked
      · refine ⟨stale read,fun _ => ⟨?_,?_,fun landed => by contradiction⟩⟩
        · exact address.trans (congrArg some (reads read).symm)
        · intro bad
          exact nonzero ⟨(reads read).symm.trans bad,read⟩
    · intro page mine
      cases List.mem_singleton.mp mine
      exact (ownedMono rfl _).trans owned

theorem dataFlight {xio : Xio} (host : xio.ino ≠ nodeIno) (data : xio.isNode = false) (unlock : xio.unlock = true)
    (held : ∀ page ∈ Flight.held ⟨xio,none⟩, (s.flags page).locked = true) : FlightOk s ⟨xio,none⟩ where
  kind := ⟨fun node => absurd (data.symm.trans node) (by decide),fun same => absurd same host⟩
  unlock := unlock
  held := held
  write node := absurd (data.symm.trans node) (by decide)
  read node := absurd (data.symm.trans node) (by decide)

/- `submit_data_xio`: a read gives the dnode page back, a write keeps it. -/
theorem submitDataKeeps (inv : NodeInv s) {op : ReqOp} {dnode : Option Nat} {answers : List Bool} {io : IoState} {sent : Option Xio}
    (host : page.1 ≠ nodeIno) (owned : s.owned page = true) (ours : ∀ nid ∈ dnode, s.owned (nodeKey nid) = true)
    (ran : submitDataXio (pageXio op page) dnode answers s.io = some (io,sent)) :
    NodeInv { s with io := io, flights := (sent.map fun xio => Flight.mk xio none).toList ++ s.flights } := by
  obtain ⟨locked,free⟩ := ownedIff.mp owned
  have apart : ∀ nid, nodeKey nid ≠ page := fun nid same => host (by rw [← same]; rfl)
  have data : (pageXio op page).isNode = false := by
    cases node : (pageXio op page).isNode with
    | true => exact absurd ((isNodeIff op page).mp node) host
    | false => rfl
  cases dnode with
  | none =>
    cases op with
    | read =>
      cases ran
      exact inv
    | zoneAppend =>
      cases ran
      exact nodeInvFlags inv free (fun same => absurd same host) fun same => absurd same host
  | some nid =>
    have mine := ours nid rfl
    obtain ⟨dnodeLocked,dnodeFree⟩ := ownedIff.mp mine
    obtain ⟨old,isOld⟩ : ∃ old, old = (s.io.image nid).page.dataAddr page.2 := ⟨_,rfl⟩
    cases op with
    | read =>
      obtain ⟨r,isR⟩ : ∃ r, r = s.setFlags (nodeKey nid) { s.flags (nodeKey nid) with locked := false } := ⟨_,rfl⟩
      have sends : submitBio { pageXio .read page with oldBlkaddr := (s.io.image nid).page.dataAddr page.2 } answers
        (s.setFlags (nodeKey nid) { s.flags (nodeKey nid) with locked := false }).io = some (io,sent) := ran
      rw [← isOld,← isR] at sends
      have flights : s.flights = r.flights := by rw [isR]; rfl
      have inv : NodeInv r := by
        rw [isR]
        exact nodeInvFlags inv dnodeFree (fun _ _ => inv.cached nid (.inl dnodeLocked)) fun _ uptodate clean still =>
          ⟨uptodate,clean,still⟩
      have still : r.owned page = true := by
        rw [isR]
        refine ownedIff.mpr ⟨?_,free⟩
        exact (congrArg PageFlags.locked (setFlagsOther s.io _ (apart nid).symm)).trans locked
      have rest : { s with io := r.io } = r := by
        rw [isR]
        rfl
      obtain ⟨zones,new,same,isSent,_⟩ := submitBioIs sends
      subst same isSent
      have sends := sendKeeps inv zones (@dataFlight r { pageXio .read page with oldBlkaddr := old, newBlkaddr := new } host data rfl
        fun other there => by
          cases List.mem_singleton.mp there
          exact (ownedIff.mp still).1) fun other there => by
          cases List.mem_singleton.mp there
          exact still
      rw [← rest] at sends
      exact sends
    | zoneAppend =>
      have sends : submitBio { { pageXio .zoneAppend page with oldBlkaddr := (s.io.image nid).page.dataAddr page.2 } with
        dpage := some nid } answers s.io = some (io,sent) := ran
      rw [← isOld] at sends
      obtain ⟨zones,new,same,isSent,_⟩ := submitBioIs sends
      subst same isSent
      have both : ∀ other ∈ [page,nodeKey nid], s.owned other = true := by
        intro other there
        rcases List.mem_cons.mp there with same | rest
        · rw [same]
          exact owned
        · rw [List.mem_singleton.mp rest]
          exact mine
      refine sendKeeps inv zones (@dataFlight s
        { { { pageXio .zoneAppend page with oldBlkaddr := old } with dpage := some nid } with newBlkaddr := new } host data rfl ?_) both
      exact fun other there => (ownedIff.mp (both other there)).1

theorem submitKeeps (inv : NodeInv s) {op : ReqOp} {dnode : Option Nat} {answers : List Bool} {sent : Option Xio}
    (owned : s.owned page = true) (stale : op = .read → (s.flags page).uptodate = false)
    (ran : s.submit op page dnode answers = some (t,sent)) :
    NodeInv t ∧ (op = .zoneAppend → sent = none → page.1 ≠ nodeIno ∧ t.flights = s.flights) := by
  unfold NodeRun.submit at ran
  split at ran
  · rename_i ours
    obtain ⟨⟨io,_⟩,done,same⟩ := Option.map_eq_some_iff.mp ran
    cases same
    unfold xcpfsSubmitXio at done
    split at done
    · rename_i node
      obtain ⟨inv,sends⟩ := submitNodeKeeps inv ((isNodeIff op page).mp node) owned stale done
      exact ⟨inv,fun write none_ => absurd none_ (sends write)⟩
    · rename_i data
      have host : page.1 ≠ nodeIno := fun same => data ((isNodeIff op page).mpr same)
      refine ⟨submitDataKeeps inv host owned (fun nid there => (ours nid there).1) done,fun _ none_ => ⟨host,?_⟩⟩
      rw [none_]
      rfl
  · contradiction

theorem takeFlight (inv : NodeInv s) {i : Nat} (flying : s.flights[i]? = some f) :
    f ∈ s.flights ∧ (f :: s.flights.eraseIdx i).Pairwise Apart ∧ ∀ g ∈ s.flights.eraseIdx i, g ∈ s.flights := by
  obtain ⟨bound,same⟩ := List.getElem?_eq_some_iff.mp flying
  have perm := List.getElem_cons_eraseIdx_perm bound
  rw [same] at perm
  refine ⟨List.mem_of_getElem? flying,inv.apart.perm perm.symm ?_,fun g => List.mem_of_mem_eraseIdx⟩
  intro f g apart page mine theirs
  exact apart page theirs mine

theorem nodePage (ok : FlightOk s f) (node : f.xio.isNode = true) : f.xio.page = nodeKey f.xio.iblock := by
  unfold Xio.page nodeKey
  rw [ok.kind.mp node]

theorem flightKnown (inv : NodeInv s) (ok : FlightOk s f) (node : f.xio.isNode = true) : s.known f.xio.iblock = true := by
  have locked := ok.held _ List.mem_cons_self
  rw [nodePage ok node] at locked
  exact inv.cached _ (.inl locked)

theorem landKeeps (inv : NodeInv s) {i blkaddr : Nat} {data : NodeImage} (flying : s.flights[i]? = some f)
    (ran : landFlight s f (s.flights.eraseIdx i) blkaddr data = some t) : NodeInv t := by
  obtain ⟨member,apart,rest⟩ := takeFlight inv flying
  have ok := inv.flight f member
  obtain ⟨first,others⟩ := List.pairwise_cons.mp apart
  have old : ∀ nid, s.known nid = true → s.known nid = false → False := fun nid new old => absurd (new.symm.trans old) (by decide)
  unfold landFlight at ran
  split at ran
  · contradiction
  · rename_i waiting op
    split at ran
    · rename_i node
      have same := Option.some.inj ran
      subst same
      have key := nodePage ok node
      have listed := flightKnown inv ok node
      obtain ⟨stale,content⟩ := ok.read node op
      have keyOf : ∀ nid, nodeKey nid = f.xio.page → nid = f.xio.iblock := fun nid same => congrArg Prod.snd (same.trans key)
      have frame : Frame (· = f.xio.page) s { s with
          flights := { f with landed := some f.xio.newBlkaddr } :: s.flights.eraseIdx i
          io := s.io.setImage f.xio.iblock (s.disk f.xio.newBlkaddr) } := by
        refine ⟨fun _ _ => rfl,fun nid far => ?_,fun _ => id,fun _ => id,fun _ _ _ _ => rfl,fun _ ne here => ⟨ne,here⟩,fun _ => id,fun _ _ => rfl⟩
        refine Function.update_of_ne (fun same => far ?_) ..
        rw [same,← key]
      refine nodeInvMove inv frame inv.nat (fun nid new none_ => (old nid new none_).elim)
        (fun nid a _ known valid => inv.address nid a known valid) ?_ (List.pairwise_cons.mpr ⟨first,others⟩) ?_ ?_
      · intro nid near _
        exact keyOf nid near ▸ listed
      · intro g there
        rcases List.mem_cons.mp there with same | left
        · subst same
          refine ⟨ok.kind,ok.unlock,ok.held,fun _ write => absurd (op.symm.trans write) (by decide),fun _ _ => ⟨stale,fun valid => ?_⟩⟩
          obtain ⟨address,nonzero,_⟩ := content valid
          exact ⟨address,nonzero,fun _ => Function.update_self ..⟩
        · refine frameFlight frame inv (rest g left) fun page mine same => first g left f.xio.page List.mem_cons_self ?_
          rw [← same]
          exact mine
      · intro nid near _ _ uptodate
        have flags : s.flags (nodeKey nid) = s.flags f.xio.page := congrArg s.flags near
        have uptodate : (s.flags (nodeKey nid)).uptodate = true := uptodate
        rw [flags,stale] at uptodate
        contradiction
    · rename_i data
      have same := Option.some.inj ran
      subst same
      refine ⟨inv.nat,inv.super,inv.address,inv.cached,List.pairwise_cons.mpr ⟨first,others⟩,fun g there => ?_,inv.settled⟩
      rcases List.mem_cons.mp there with same | left
      · subst same
        exact ⟨ok.kind,ok.unlock,ok.held,fun node => absurd node data,fun node => absurd node data⟩
      · have ok := inv.flight g (rest g left)
        exact ⟨ok.kind,ok.unlock,ok.held,ok.write,ok.read⟩
  · rename_i waiting op
    dsimp only at ran
    split at ran
    · rename_i fresh
      have same := Option.some.inj ran
      subst same
      obtain ⟨unwritten,_⟩ := fresh
      have differ : ∀ a, s.written a = true → a ≠ blkaddr := by
        intro a wrote same
        rw [same,unwritten] at wrote
        contradiction
      have frame : Frame (fun _ => False) s { s with
          flights := { f with landed := some blkaddr } :: s.flights.eraseIdx i
          disk := Function.update s.disk blkaddr (if f.xio.isNode then s.io.image f.xio.iblock else data)
          written := Function.update s.written blkaddr true } := by
        refine ⟨fun _ _ => rfl,fun _ _ => rfl,fun _ => id,fun _ => id,fun _ _ _ _ => rfl,fun _ ne here => ⟨ne,here⟩,
          fun a wrote => ?_,fun a wrote => ?_⟩
        · exact (Function.update_of_ne (differ a wrote) ..).trans wrote
        · exact Function.update_of_ne (differ a wrote) ..
      refine nodeInvMove inv frame inv.nat (fun nid new none_ => (old nid new none_).elim) (fun _ _ near => near.elim)
        (fun _ near => near.elim) (List.pairwise_cons.mpr ⟨first,others⟩) ?_ fun _ near => near.elim
      intro g there
      rcases List.mem_cons.mp there with same | left
      · subst same
        refine ⟨ok.kind,ok.unlock,ok.held,fun node _ => ⟨(ok.write node op).1,fun a landed => ?_⟩,
          fun _ read => absurd (op.symm.trans read) (by decide)⟩
        cases Option.some.inj landed
        refine ⟨Function.update_self ..,fun zero => ?_,?_⟩
        · exact differ 0 inv.super zero.symm
        · exact (Function.update_self ..).trans (if_pos node)
      · exact frameFlight frame inv (rest g left) fun _ _ => id
    · contradiction

theorem bioBlkaddr (blkaddr : Nat) (status : BlkStatus) : Bio.blkaddr ⟨blkaddr * 2 ^ pageSectorsShift,status⟩ = blkaddr :=
  Nat.mul_div_cancel blkaddr (by decide)

/- The end of a request, which only works on pages that the request held. -/
theorem endKeeps (inv : NodeInv s) {i : Nat} {io : IoState} (flying : s.flights[i]? = some f)
    (frame : Frame touched s { s with io := io, flights := s.flights.eraseIdx i }) (mine : ∀ page, touched page → page ∈ f.held)
    (nat : NatOk s.known io.nat.file io.nat.nm)
    (address : ∀ nid a, touched (nodeKey nid) → s.known nid = true → s.invalid nid = false →
      natAddr io.nat.file io.nat.nm nid = some a → a ≠ 0 → s.written a = true)
    (settled : ∀ nid, touched (nodeKey nid) → NodeSettled { s with io := io, flights := s.flights.eraseIdx i } nid) :
    NodeInv { s with io := io, flights := s.flights.eraseIdx i } := by
  obtain ⟨member,apart,rest⟩ := takeFlight inv flying
  obtain ⟨first,others⟩ := List.pairwise_cons.mp apart
  refine nodeInvMove inv frame nat (fun nid new old => absurd (new.symm.trans old) (by decide)) address (fun nid near _ => ?_) others
    (fun g there => ?_) settled
  · exact inv.cached nid (.inl ((inv.flight f member).held _ (mine _ near)))
  · exact frameFlight frame inv (rest g there) fun page theirs near => first g there page (mine page near) theirs

theorem readKeeps (inv : NodeInv s) {i : Nat} {bio : Bio} (flying : s.flights[i]? = some f) (read : f.xio.op = .read)
    (landed : f.landed.isSome) : NodeInv { s with io := xcpfsReadEndIo f.xio bio s.io, flights := s.flights.eraseIdx i } := by
  obtain ⟨member,_,_⟩ := takeFlight inv flying
  have ok := inv.flight f member
  have frame : Frame (· = f.xio.page) s { s with io := xcpfsReadEndIo f.xio bio s.io, flights := s.flights.eraseIdx i } :=
    ⟨fun _ far => setFlagsOther s.io _ far,fun _ _ => rfl,fun _ => id,fun _ => id,fun _ _ _ _ => rfl,fun _ ne here => ⟨ne,here⟩,fun _ => id,fun _ _ => rfl⟩
  refine endKeeps inv flying frame (fun page near => near ▸ List.mem_cons_self) inv.nat
    (fun nid a _ known valid => inv.address nid a known valid) fun nid near _ valid _ _ _ => ?_
  have node : f.xio.isNode = true := ok.kind.mpr (congrArg Prod.fst near).symm
  have same : nid = f.xio.iblock := congrArg Prod.snd near
  subst same
  obtain ⟨address,nonzero,content⟩ := (ok.read node read).2 valid
  exact (content landed).trans (storedAddr address nonzero).symm

theorem writeNodeKeeps (inv : NodeInv s) {i a : Nat} {status : BlkStatus} {io : IoState} (flying : s.flights[i]? = some f)
    (node : f.xio.isNode = true) (write : f.xio.op = .zoneAppend) (landed : f.landed = some a)
    (ran : xcpfsWriteEndIo f.xio ⟨a * 2 ^ pageSectorsShift,status⟩ s.io = some io) :
    NodeInv { s with io := io, flights := s.flights.eraseIdx i } := by
  obtain ⟨member,_,_⟩ := takeFlight inv flying
  have ok := inv.flight f member
  obtain ⟨⟨ne,here⟩,content⟩ := ok.write node write
  obtain ⟨wrote,nonzero,content⟩ := content a landed
  obtain ⟨mid,indexed,same⟩ := Option.map_eq_some_iff.mp ran
  obtain ⟨nat,isMid,file,loads⟩ : ∃ nat : NatMount, mid = { s.io with nat := nat } ∧ nat.file = s.io.nat.file ∧
      Loads s.io.nat.file (updateNat s.io.nat.nm f.xio.iblock a false).1 nat.nm := by
    unfold writeIndex at indexed
    rw [if_pos node,bioBlkaddr] at indexed
    dsimp only at indexed
    split at indexed
    · obtain ⟨nat,appended,same⟩ := Option.map_eq_some_iff.mp indexed
      obtain ⟨_,_,nm,file,_,_⟩ := appendLookup appended
      refine ⟨nat,same.symm,file,?_⟩
      rw [nm]
      exact loadsLookup f.xio.iblock
    · exact ⟨_,(Option.some.inj indexed).symm,rfl,fun distinct => distinct,fun _ => .inl rfl⟩
  subst isMid
  subst same
  have keyOf : ∀ nid, nodeKey nid = f.xio.page → nid = f.xio.iblock := fun nid near => congrArg Prod.snd near
  have updated := @natOkUpdate s.known s.io.nat.file s.io.nat.nm f.xio.iblock inv.nat a false
  have address : natAddr nat.file nat.nm f.xio.iblock = some a := by
    rw [file,loadsAddr loads]
    exact updateAddr here a false
  refine @endKeeps s (· = f.xio.page) f inv i _ flying ?_ (fun page near => near ▸ List.mem_cons_self) ?_ ?_ ?_
  · refine ⟨fun _ far => setFlagsOther _ _ far,fun _ _ => rfl,fun _ => id,fun _ => id,fun nid _ _ far => ?_,?_,fun _ => id,fun _ _ => rfl⟩
    · have differ : f.xio.iblock ≠ nid := by
        intro same
        refine far ?_
        rw [← same,nodePage ok node]
      refine (?_ : natAddr nat.file nat.nm nid = natAddr s.io.nat.file s.io.nat.nm nid)
      rw [file,loadsAddr loads,updateAddrOther a false differ]
    · exact (keepsUsedUpdate a false).trans (loadsUsed loads)
  · refine (?_ : NatOk s.known nat.file nat.nm)
    rw [file]
    exact natOkLoads updated loads
  · intro nid b near _ _ there _
    rw [keyOf nid near] at there
    rw [← Option.some.inj (address.symm.trans there)]
    exact wrote
  · intro nid near _ _ _ _ _
    rw [keyOf nid near]
    refine content.symm.trans (Eq.symm ?_)
    apply storedAddr _ nonzero
    exact address

/- The completion of a data write stores the block in the dnode page and gives that page
back dirty. -/
theorem writeDataKeeps (inv : NodeInv s) {i : Nat} {bio : Bio} {io : IoState} (flying : s.flights[i]? = some f)
    (data : ¬f.xio.isNode = true) (ran : xcpfsWriteEndIo f.xio bio s.io = some io) :
    NodeInv { s with io := io, flights := s.flights.eraseIdx i } := by
  obtain ⟨member,_,_⟩ := takeFlight inv flying
  have ok := inv.flight f member
  obtain ⟨mid,indexed,same⟩ := Option.map_eq_some_iff.mp ran
  unfold writeIndex at indexed
  rw [if_neg data] at indexed
  obtain ⟨dnode,parent,stored⟩ := Option.map_eq_some_iff.mp indexed
  subst same
  subst stored
  have apart : ∀ nid, nodeKey nid ≠ f.xio.page := by
    intro nid same
    exact data (ok.kind.mpr (congrArg Prod.fst same).symm)
  have held : nodeKey dnode ∈ f.held := by
    unfold Flight.held
    rw [parent]
    exact List.mem_cons_of_mem _ List.mem_cons_self
  have dnodeOf : ∀ nid, nodeKey nid = f.xio.page ∨ nodeKey nid = nodeKey dnode → nid = dnode := by
    intro nid near
    rcases near with page | parent
    · exact absurd page (apart nid)
    · exact congrArg Prod.snd parent
  refine @endKeeps s (fun page => page = f.xio.page ∨ page = nodeKey dnode) f inv i _ flying ?_ ?_ inv.nat
    (fun nid a _ known valid => inv.address nid a known valid) ?_
  · refine ⟨fun page far => ?_,fun nid far => ?_,fun _ => id,fun _ => id,fun _ _ _ _ => rfl,fun _ ne here => ⟨ne,here⟩,fun _ => id,fun _ _ => rfl⟩
    · refine (setFlagsOther _ _ fun same => far (.inl same)).trans ?_
      exact setFlagsOther _ _ fun same => far (.inr same)
    · exact Function.update_of_ne (fun same => far (.inr (congrArg nodeKey same))) ..
  · intro page near
    rcases near with same | same
    · rw [same]
      exact List.mem_cons_self
    · rw [same]
      exact held
  · intro nid near _ _ _ clean _
    rw [dnodeOf nid near] at clean
    simp only [NodeRun.flags,setFlagsOther _ _ (apart dnode),setFlagsSelf] at clean
    contradiction

theorem completeKeeps (inv : NodeInv s) {i : Nat} (ran : nodeStep s (.complete i .ok) = some t) : NodeInv t := by
  simp only [nodeStep] at ran
  obtain ⟨f,flying,ended⟩ := Option.bind_eq_some_iff.mp ran
  unfold endFlightOf at ended
  split at ended
  · contradiction
  · rename_i done
    obtain ⟨io,handled,same⟩ := Option.map_eq_some_iff.mp ended
    subst same
    cases landed : f.landed with
    | none => exact absurd ⟨rfl,landed⟩ done
    | some a =>
      rw [landed,Option.getD_some] at handled
      unfold bioEndIo at handled
      cases op : f.xio.op with
      | read =>
        rw [op] at handled
        cases handled
        exact readKeeps inv flying op (by rw [landed]; rfl)
      | zoneAppend =>
        rw [op] at handled
        by_cases node : f.xio.isNode = true
        · exact writeNodeKeeps inv flying node op landed handled
        · exact writeDataKeeps inv flying node handled

theorem nodeStepKeeps (s : NodeRun) (event : IoEvent) (t : NodeRun) (inv : NodeInv s) (guard : noIoError s event)
    (ran : nodeStep s event = some t) : NodeInv t := by
  cases event with
  | lock page =>
    simp only [nodeStep] at ran
    split at ran
    · rename_i free
      cases ran
      refine nodeInvFlags inv (fun f flying mine => ?_) (fun host _ => free.2 host) fun _ uptodate clean still => ⟨uptodate,clean,still⟩
      exact absurd (((inv.flight f flying).held page mine).symm.trans free.1) (by decide)
    · contradiction
  | unlock page =>
    simp only [nodeStep] at ran
    split at ran
    · rename_i owned
      cases ran
      obtain ⟨locked,free⟩ := ownedIff.mp owned.1
      refine nodeInvFlags inv free (fun host _ => ?_) fun _ uptodate clean still => ⟨uptodate,clean,still⟩
      exact inv.cached page.2 (.inl (by unfold nodeKey; rw [← host]; exact locked))
    · contradiction
  | change nid change =>
    simp only [nodeStep] at ran
    split at ran
    · rename_i owned
      cases ran
      exact storeKeeps inv owned.1 _ fun _ clean => (Bool.false_ne_true clean.symm).elim
    · contradiction
  | dirty page =>
    simp only [nodeStep] at ran
    split at ran
    · rename_i owned
      cases ran
      exact nodeInvFlags inv (ownedIff.mp owned.2).2 (fun host => absurd host owned.1) fun host => absurd host owned.1
    · contradiction
  | read page dnode =>
    simp only [nodeStep] at ran
    split at ran
    · rename_i owned
      obtain ⟨⟨u,sent⟩,submitted,same⟩ := Option.map_eq_some_iff.mp ran
      cases same
      exact (submitKeeps inv owned.1 (fun _ => owned.2) submitted).1
    · contradiction
  | begin page cleared =>
    simp only [nodeStep] at ran
    split at ran
    · rename_i owned
      cases ran
      obtain ⟨locked,free⟩ := ownedIff.mp owned.1
      refine nodeInvFlags inv free (fun host _ => ?_) fun _ _ _ still => (Bool.false_ne_true still.symm).elim
      exact inv.cached page.2 (.inl (by unfold nodeKey; rw [← host]; exact locked))
    · contradiction
  | submit page dnode answers =>
    simp only [nodeStep] at ran
    split at ran
    · rename_i owned
      obtain ⟨⟨u,sent⟩,submitted,same⟩ := Option.map_eq_some_iff.mp ran
      obtain ⟨inv,unsent⟩ := submitKeeps inv owned.1 (fun read => by contradiction) submitted
      cases sent with
      | some xio =>
        cases same
        exact inv
      | none =>
        cases same
        obtain ⟨host,flights⟩ := unsent rfl rfl
        refine nodeInvFlags inv (fun f flying => ?_) (fun same => absurd same host) fun same => absurd same host
        rw [flights] at flying
        exact (ownedIff.mp owned.1).2 f flying
    · contradiction
  | land i blkaddr data =>
    obtain ⟨f,flying,landed⟩ := Option.bind_eq_some_iff.mp ran
    exact landKeeps inv flying landed
  | complete i status =>
    cases guard
    exact completeKeeps inv ran
  | prep event => exact prepKeeps inv ran
  | invalidate nid => exact invalidateNidKeeps inv ran
  | flush nid => exact flushKeeps inv ran
  | phase cpSemLocked restart phase fresh =>
    cases ran
    exact ⟨inv.nat,inv.super,inv.address,inv.cached,inv.apart,fun f flying =>
      have ok := inv.flight f flying
      ⟨ok.kind,ok.unlock,ok.held,ok.write,ok.read⟩,inv.settled⟩
  | release page =>
    simp only [nodeStep] at ran
    split at ran
    · rename_i idle
      cases ran
      refine nodeInvFlags inv (fun f flying mine => ?_) (fun _ bad => ?_) fun _ uptodate => absurd uptodate (by decide)
      · exact absurd (((inv.flight f flying).held page mine).symm.trans idle.1) (by decide)
      · exact bad.elim Bool.noConfusion Bool.noConfusion
    · contradiction

end

section
variable {nat : NatDisk} {zm : ZmInfo} {disk : Nat → NodeImage} {written referenced : Nat → Bool} {events : List IoEvent} {t : NodeRun}
  {nid : Nat}

theorem nodeStartInv (imaged : Imaged nat written referenced) : NodeInv (nodeStart nat zm disk written referenced) where
  nat := natOkMount nat fun nid member => by
    obtain ⟨a,address,nonzero,_⟩ := imaged.addressed nid member
    exact ⟨a,address,nonzero⟩
  super := imaged.super
  address nid a member _ here _ := by
    obtain ⟨b,address,_,wrote⟩ := imaged.addressed nid member
    rw [← Option.some.inj (address.symm.trans here)]
    exact wrote
  cached _ bad := bad.elim Bool.noConfusion Bool.noConfusion
  apart := .nil
  flight _ bad := by contradiction
  settled _ _ _ bad := Bool.noConfusion bad

theorem cleanNodesStored (imaged : Imaged nat written referenced)
    (run : Run noIoError nodeStep (nodeStart nat zm disk written referenced) events t)
    (allocated : t.known nid = true) (valid : t.invalid nid = false) (uptodate : (t.flags (nodeKey nid)).uptodate = true)
    (clean : (t.flags (nodeKey nid)).dirty = false) (still : (t.flags (nodeKey nid)).writeback = false) :
    t.io.image nid = t.stored nid :=
  (invariant NodeInv nodeStepKeeps run (nodeStartInv imaged)).settled nid allocated valid uptodate clean still

end

theorem mkfsImaged : Imaged mkfsNat (fun blkaddr => decide (blkaddr ∈ [0,12,20])) fun nid => decide (nid = 1 ∨ nid = 3) where
  super := rfl
  addressed nid member := by
    rcases of_decide_eq_true member with same | same
    · rw [same]
      exact ⟨12,rfl,by decide,rfl⟩
    · rw [same]
      exact ⟨20,rfl,by decide,rfl⟩

def syncRoot : List IoEvent := writeRoot ++ [.land 0 21 .zero,.complete 0 .ok]

/-- The synced page of the root inode is what block 21 holds. -/
theorem cleanNodesStoredSync : ∃ t, exec nodeStep mkfsRun syncRoot = some t ∧ t.addr 3 = some 21 ∧ t.io.image 3 = t.stored 3 := by
  have synced : ((exec nodeStep mkfsRun syncRoot).any fun t => decide (t.addr 3 = some 21) && (t.known 3 && (!t.invalid 3 &&
      ((t.flags (nodeKey 3)).uptodate && (!(t.flags (nodeKey 3)).dirty && !(t.flags (nodeKey 3)).writeback))))) = true := by
    decide +kernel
  obtain ⟨t,ran,holds⟩ := (Option.any_eq_true ..).mp synced
  simp only [Bool.and_eq_true,Bool.not_eq_true',decide_eq_true_eq] at holds
  obtain ⟨address,allocated,valid,uptodate,clean,still⟩ := holds
  have guarded : Guarded noIoError nodeStep mkfsRun syncRoot := by
    refine guardedAll (fun event member s => ?_) mkfsRun
    cases event with
    | complete i status =>
      cases status with
      | ok => rfl
      | ioerr => simp [syncRoot,writeRoot,readRoot] at member
    | _ => trivial
  exact ⟨t,ran,address,cleanNodesStored mkfsImaged (ofExec ran guarded) allocated valid uptodate clean still⟩

end Xcpfs
