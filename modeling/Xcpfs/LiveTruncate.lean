import Xcpfs.LiveBlocks

/-! Truncates and evictions over the valid maps, and runs. A truncate ends the references
behind its cut and those of the nids it gives back; the map follows when none of these nids
has a block. -/
namespace Xcpfs
open PointerForest EventRun RefMarks

/- What the calls of a truncate do to the table and the NAT. -/
structure Called (known : Nat → Bool) (calls : List Call) (s t : LiveRun) : Prop where
  inodes : t.run.inodes = s.run.inodes
  flights : t.run.flights = s.run.flights
  nodeFlights : t.nodeFlights = s.nodeFlights
  written : t.written = s.written
  scope : mapScope t.zones.zm = mapScope s.zones.zm
  advances : Advances {n | s.run.inodes n = true} known s.run.fs t.run.fs
  addr : ∀ n, t.run.fs.addr n = if Call.nat n ∈ calls then (s.run.fs.addr n).map fun _ => 0 else s.run.fs.addr n
  used : KeepsUsed s.run.fs.nat.nm t.run.fs.nat.nm
  valid : ∀ b, isValid t.zones.zm b = true ↔ isValid s.zones.zm b = true ∧ b ∉ addrCalls calls

section
variable {known : Nat → Bool} {s t : LiveRun} {ino nid freeFrom fuel : Nat} {calls : List Call} {cut : TreePath}

theorem calledBlkaddr {a : Nat} {mid : LiveRun} (here : s.applyCall fuel (.blkaddr a) = some mid) (rest : Called known calls mid t) :
    Called known (.blkaddr a :: calls) s t := by
  cases here
  refine ⟨rest.inodes,rest.flights,rest.nodeFlights,rest.written,rest.scope.trans (scopeSame rfl rfl),rest.advances,fun n => ?_,
    rest.used,fun b => ?_⟩
  · rw [rest.addr n]
    simp only [List.mem_cons,reduceCtorEq,false_or]
  · rw [rest.valid b]
    change isValid (invalidateBlkaddr s.zones.zm a) b = true ∧ b ∉ addrCalls calls ↔
      isValid s.zones.zm b = true ∧ b ∉ a :: addrCalls calls
    rw [isValidInvalidate,List.mem_cons]
    by_cases same : b = a
    · simp [same]
    · simp [same]

theorem calledNat {now : Nat → Bool} {fs : Fs} (more : ∀ n, known n = true → now n = true)
    (grown : Grown {n | s.run.inodes n = true} s.run.fs fs)
    (addr : ∀ n, fs.addr n = if n = nid then (s.run.fs.addr n).map fun _ => 0 else s.run.fs.addr n)
    (used : KeepsUsed s.run.fs.nat.nm fs.nat.nm) (rest : Called now calls (s.setFs fs) t) :
    Called known (.nat nid :: calls) s t := by
  refine ⟨rest.inodes,rest.flights,rest.nodeFlights,rest.written,rest.scope,advancesThen more grown rest.advances,fun n => ?_,
    used.trans rest.used,rest.valid⟩
  have before : (s.setFs fs).run.fs.addr n = fs.addr n := rfl
  rw [rest.addr n,before,addr n]
  by_cases same : n = nid
  · subst same
    rw [if_pos rfl,if_pos List.mem_cons_self,Option.map_map]
    split <;> rfl
  · have other : (Call.nat n ∈ Call.nat nid :: calls) = (Call.nat n ∈ calls) := by
      simp only [List.mem_cons,Call.nat.injEq,same,false_or]
    rw [if_neg same]
    simp only [other]

theorem callsDone (metaIn : s.run.inodes metaIno = true) (ok : FsOk {n | s.run.inodes n = true} known s.run.fs)
    (kept : ∀ nid, Call.nat nid ∈ calls → s.run.fs.cached nid = true ∨ (s.run.fs.addr nid).getD 0 = 0)
    (ran : LiveRun.applyCalls fuel calls s = some t) : Called known calls s t := by
  induction calls generalizing s known with
  | nil =>
    cases ran
    refine ⟨rfl,rfl,rfl,rfl,rfl,advancesRefl ok,fun n => (if_neg List.not_mem_nil).symm,fun n ne here => ⟨ne,here⟩,fun b => ?_⟩
    exact ⟨fun here => ⟨here,List.not_mem_nil⟩,fun both => both.1⟩
  | cons call calls ih =>
    obtain ⟨mid,here,rest⟩ := Option.bind_eq_some_iff.mp ran
    have keptRest := fun nid member => kept nid (List.mem_cons_of_mem call member)
    cases call with
    | blkaddr a =>
      refine calledBlkaddr here ?_
      cases here
      exact ih metaIn ok keptRest rest
    | nat nid =>
      obtain ⟨fs,done,rfl⟩ := Option.map_eq_some_iff.mp here
      obtain ⟨⟨now,more,okT,grown⟩,addr,used⟩ := invalidateAdvances metaIn ok (kept nid List.mem_cons_self) done
      refine calledNat more grown addr used (ih metaIn okT (fun other member => ?_) rest)
      rcases keptRest other member with held | zero
      · exact .inl (grown.cached other held)
      · right
        have before : (s.setFs fs).run.fs.addr other = fs.addr other := rfl
        rw [before,addr other]
        split
        · cases s.run.fs.addr other <;> rfl
        · exact zero

theorem releasesOrSurvives {start : Nat} {plan : Nat → Option TopCut} {p : TreePath} (released : releases start plan p) :
    ¬survives start plan p := by
  have apart : ∀ cut a, past cut a → ¬keeps cut a := by
    intro cut a after kept
    obtain ⟨c,rfl,high⟩ := pastCut after
    exact Nat.not_le.mpr kept.2 high
  cases p with
  | inode slot => exact fun early => Nat.not_le.mpr early released
  | direct top slot => exact apart _ _ released
  | indirect top mid slot => exact apart _ _ released
  | double top mid slot => exact apart _ _ released.1

/- The references that a truncate ends. -/
def dropsRef (calls : List Call) (ino : Nat) (cut : TreePath) (present : Nat → Bool) : Set BlockRef
  | .nat nid => Call.nat nid ∈ calls
  | .data i p => i = ino ∧ ¬survives cut.addrStart (cut.topCut present) p

theorem namedUnused (inv : LiveInv known s) (fits : CutFits s ino cut) {fs : Fs}
    (cuts : CutFs {n | s.run.inodes n = true} ino cut s.run.fs fs calls) (member : Call.nat nid ∈ calls) :
    s.cell (.nat nid) = none ∧ (s.run.fs.addr nid).getD 0 = 0 ∨ nid ∈ s.nodeFlights := by
  obtain ⟨trunc,_,rfl,done⟩ := cuts.done
  have zero : (s.run.fs.addr nid).getD 0 = 0 → s.cell (.nat nid) = none ∧ (s.run.fs.addr nid).getD 0 = 0 := by
    intro none_
    refine ⟨?_,none_⟩
    change (s.run.fs.addr nid).bind ptr = none
    cases address : s.run.fs.addr nid with
    | none => rfl
    | some a =>
      rw [address] at none_
      exact if_pos none_
  rcases (natPlaces (cutBoundarySound _ cut)).mp ((natTruncated rfl done).mp member) with ⟨q,place,gone,path⟩ | ⟨rfl,_⟩
  · exact (fits.nodes q nid place gone path).imp_left zero
  · exact .inl (zero (by rw [inv.unnamed]; rfl))

theorem blocksTaken (fits : CutFits s ino cut) (live : s.run.inodes ino = true) {fs : Fs}
    (cuts : CutFs {n | s.run.inodes n = true} ino cut s.run.fs fs calls) {b : Nat} (nonzero : b ≠ 0) :
    b ∈ addrCalls calls ↔ ∃ p, ¬survives cut.addrStart (cut.topCut (presentIn s.run.fs.content ino)) p ∧
      s.cell (.data ino p) = some b ∧ ¬s.flying (.data ino p) := by
  obtain ⟨trunc,_,rfl,done⟩ := cuts.done
  have cell : ∀ p, s.cell (.data ino p) = some b ↔ blockAt s.run.fs.content ino p = b := by
    intro p
    change (if s.run.inodes ino = true then ptr (blockAt s.run.fs.content ino p) else none) = some b ↔ _
    rw [if_pos live,ptrSome]
    exact ⟨fun both => both.1,fun same => ⟨same,nonzero⟩⟩
  rw [addrCallsTruncated rfl done,List.mem_map]
  constructor
  · rintro ⟨path,visit,value⟩
    obtain ⟨p,rfl,stored,released⟩ := visitedStored visit
    rw [rootValueCells p stored] at value
    refine ⟨p,releasesOrSurvives released,(cell p).mpr value,?_⟩
    rintro ⟨f,flying,of⟩
    obtain ⟨same,index⟩ := flightOf.mp of
    exact releasesOrSurvives released (fits.flights f flying same p index.symm)
  · rintro ⟨p,lost,here,_⟩
    have word := (cell p).mp here
    have stored : blockAt s.run.fs.content ino p ≠ 0 := by
      rw [word]
      exact nonzero
    have released := (fits.blocks p stored).resolve_left lost
    exact ⟨p.cells,storedVisited p stored released,(rootValueCells p stored).trans word⟩

theorem truncateDrops (inv : LiveInv known s) (live : s.run.inodes ino = true) (fits : CutFits s ino cut) {fs : Fs}
    (cuts : CutFs {n | s.run.inodes n = true} ino cut s.run.fs fs calls) (called : Called known calls (s.setFs fs) t) :
    Drops (mapScope s.zones.zm) (dropsRef calls ino cut (presentIn s.run.fs.content ino)) s.marks t.marks := by
  obtain ⟨trunc,content,_,done⟩ := cuts.done
  obtain ⟨_,_,_,grown⟩ := called.advances
  have tree := inodeTree inv.ok.fs.owned live
  have addr : ∀ n, fs.addr n = s.run.fs.addr n := by
    intro n
    unfold Fs.addr
    rw [cuts.nat]
  have after : ∀ i, s.run.inodes i = true → ∀ p, blockAt t.run.fs.content i p = blockAt trunc.nodes i p := by
    intro i inside p
    rw [content]
    exact grown.blocks i inside p
  have flying : ∀ r, t.flying r ↔ s.flying r := by
    intro r
    cases r with
    | nat nid =>
      change nid ∈ t.nodeFlights ↔ nid ∈ s.nodeFlights
      rw [called.nodeFlights]
      exact Iff.rfl
    | data i p =>
      change (∃ f ∈ t.run.flights, _) ↔ ∃ f ∈ s.run.flights, _
      rw [called.flights]
      exact Iff.rfl
  refine ⟨fun r member => ?_,fun r stays => ?_,fun r _ => flying r,?_,fun b inside => ?_⟩
  · cases r with
    | nat nid =>
      change (t.run.fs.addr nid).bind ptr = none
      have named : Call.nat nid ∈ calls := member
      rw [called.addr nid,if_pos named]
      cases (s.setFs fs).run.fs.addr nid <;> rfl
    | data i p =>
      obtain ⟨rfl,lost⟩ := member
      have zero : blockAt t.run.fs.content i p = 0 := (after i live p).trans (blockLost done p lost)
      change (if t.run.inodes i = true then ptr (blockAt t.run.fs.content i p) else none) = none
      rw [zero]
      exact ite_self none
  · cases r with
    | nat nid =>
      have unnamed : Call.nat nid ∉ calls := stays
      refine natCell ?_
      rw [called.addr nid,if_neg unnamed]
      exact addr nid
    | data i p =>
      refine dataCell called.inodes fun inside => (after i inside p).trans ?_
      by_cases same : i = ino
      · subst same
        have kept := not_not.mp fun lost => stays ⟨rfl,lost⟩
        exact blockSurvives tree done p kept
      · exact otherBlock inv.ok.fs.owned done live inside same p
  · change {b | t.written b = true} = {b | s.written b = true}
    rw [called.written]
    rfl
  · change isValid t.zones.zm b = true ↔ isValid s.zones.zm b = true ∧ _
    refine (called.valid b).trans (and_congr_right fun _ => not_congr ?_)
    rw [blocksTaken fits live cuts (scopePositive inside)]
    constructor
    · rintro ⟨p,lost,here,still⟩
      exact ⟨.data ino p,⟨rfl,lost⟩,here,still⟩
    · rintro ⟨r,member,here,still⟩
      cases r with
      | nat nid =>
        rcases namedUnused inv fits cuts member with ⟨none_,_⟩ | moving
        · cases none_.symm.trans here
        · exact absurd moving still
      | data i p =>
        obtain ⟨rfl,lost⟩ := member
        exact ⟨p,lost,here,still⟩

theorem truncateLive (inv : LiveInv known s) (live : s.run.inodes ino = true) (fits : CutFits s ino cut) (at_ : cut.index = freeFrom)
    (ran : s.truncate fuel ino freeFrom = some t) : ∃ now, LiveInv now t ∧ t.run.inodes = s.run.inodes ∧
      t.run.flights = s.run.flights ∧ ∀ p, ¬survives cut.addrStart (cut.topCut (presentIn s.run.fs.content ino)) p →
        blockAt t.run.fs.content ino p = 0 := by
  obtain ⟨⟨fs,calls⟩,made,ran⟩ := Option.bind_eq_some_iff.mp ran
  obtain ⟨_,cuts,okFs⟩ := truncateCuts inv.ok.fs live at_ made
  have kept : ∀ nid, Call.nat nid ∈ calls → (s.setFs fs).run.fs.cached nid = true ∨ ((s.setFs fs).run.fs.addr nid).getD 0 = 0 := by
    intro nid member
    change fs.cached nid = true ∨ (natAddr fs.nat.file fs.nat.nm nid).getD 0 = 0
    rw [cuts.cached,cuts.nat]
    rcases namedUnused inv fits cuts member with ⟨_,zero⟩ | moving
    · exact .inr zero
    · exact .inl (inv.held nid moving).1
  have called : Called known calls (s.setFs fs) t := @callsDone _ (s.setFs fs) t fuel calls inv.ok.metaIn okFs kept ran
  have drops := truncateDrops inv live fits cuts called
  obtain ⟨trunc,content,_,done⟩ := cuts.done
  obtain ⟨now,_,okT,grown⟩ := called.advances
  have tree := inodeTree inv.ok.fs.owned live
  have same : t.run.inodes = s.run.inodes := called.inodes
  have paths : ∀ i, s.run.inodes i = true → ∀ p : TreePath, (i = ino → survives cut.addrStart (cut.topCut (presentIn s.run.fs.content ino)) p) →
      follow (child fs.content) i p.nodes = follow (child s.run.fs.content) i p.nodes := by
    intro i inside p stays
    rw [← content]
    by_cases here : i = ino
    · subst here
      exact dnodeSurvives tree done p (stays rfl)
    · exact otherFollow inv.ok.fs.owned done live inside here p.nodesPlace
  refine ⟨now,⟨⟨?_,?_,fun f flying => ?_⟩,?_,fun nid member => ?_,?_,?_⟩,same,called.flights,fun p lost => ?_⟩
  · rw [same]
    exact okT
  · rw [same]
    exact inv.ok.metaIn
  · rw [called.flights] at flying
    obtain ⟨inside,cached,q,named,path⟩ := inv.ok.held f flying
    have before := paths f.ino inside q fun here => fits.flights f flying here q named
    rw [same]
    refine ⟨inside,grown.cached _ (cuts.cached ▸ cached),q,named,?_⟩
    exact grown.paths f.ino inside q.nodes f.dnode q.nodesPlace (before.trans path)
  · have zero : (s.setFs fs).run.fs.addr 0 = none := by
      change natAddr fs.nat.file fs.nat.nm 0 = none
      rw [cuts.nat]
      exact inv.unnamed
    rw [called.addr 0,zero]
    exact ite_self none
  · rw [called.nodeFlights] at member
    obtain ⟨cached,ne,here⟩ := inv.held nid member
    refine ⟨grown.cached nid (cuts.cached ▸ cached),called.used nid ne ?_⟩
    change fs.nat.nm.slot nid = some (true,ne)
    rw [cuts.nat]
    exact here
  · rw [called.flights]
    exact inv.alone
  · rw [show mapScope t.zones.zm = mapScope s.zones.zm from called.scope]
    exact soundDrops inv.sound drops
  · refine (grown.blocks ino live p).trans ?_
    change blockAt fs.content ino p = 0
    rw [← content]
    exact blockLost done p lost

theorem evictLive {nlink : Nat} (inv : LiveInv known s) (ran : liveStep s (.evict fuel ino nlink) = some t)
    (fits : liveFits s (.evict fuel ino nlink)) : ∃ now, LiveInv now t := by
  simp only [liveStep] at ran
  split at ran
  · rename_i guard
    split at ran
    · cases ran
      exact ⟨known,inv⟩
    · rename_i gone
      have regular : 3 ≤ ino := by omega
      have unlinked : nlink = 0 := by omega
      obtain ⟨u,cut,rfl⟩ := Option.map_eq_some_iff.mp ran
      have at_ : (TreePath.inode 0).index = 0 := rfl
      obtain ⟨now,invU,inodes,flights,empty⟩ := truncateLive inv guard.1 (fits regular unlinked _ at_) at_ cut
      have idle : ∀ f ∈ u.run.flights, f.ino ≠ ino := by
        rw [flights]
        exact guard.2
      have lost : ∀ p, ¬survives (TreePath.inode 0).addrStart ((TreePath.inode 0).topCut (presentIn s.run.fs.content ino)) p := by
        intro p kept
        cases p with
        | inode slot => exact Nat.not_lt_zero _ kept
        | direct top slot => exact keepsWhole _ _ kept
        | indirect top mid slot => exact keepsWhole _ _ kept
        | double top mid slot => exact keepsWhole _ _ kept
      have fewer : {n | Function.update u.run.inodes ino false n = true} ⊆ {n | u.run.inodes n = true} := by
        intro n member
        by_cases same : n = ino
        · subst same
          have left : Function.update u.run.inodes n false n = true := member
          rw [Function.update_self] at left
          contradiction
        · have left : Function.update u.run.inodes ino false n = true := member
          rw [Function.update_of_ne same] at left
          exact left
      have others : ∀ n, n ≠ ino → Function.update u.run.inodes ino false n = u.run.inodes n := fun n differ => Function.update_of_ne differ ..
      have meta_ : metaIno ≠ ino := by
        have low : metaIno < 3 := by decide
        omega
      refine ⟨now,⟨⟨invU.ok.fs.nat,invU.ok.fs.named,?_,ownedRoots fewer invU.ok.fs.owned,invU.ok.fs.fresh⟩,?_,fun f flying => ?_⟩,
        invU.unnamed,invU.held,invU.alone,?_⟩
      · rintro n ⟨r,root,p,place,path⟩
        exact invU.ok.fs.reached n ⟨r,fewer root,p,place,path⟩
      · exact (others metaIno meta_).trans invU.ok.metaIn
      · obtain ⟨inside,rest⟩ := invU.ok.held f flying
        exact ⟨(others f.ino (idle f flying)).trans inside,rest⟩
      · refine soundSame invU.sound (funext fun r => ?_) (fun _ => Iff.rfl) rfl fun _ _ => Iff.rfl
        cases r with
        | nat nid => rfl
        | data i p =>
          change (if Function.update u.run.inodes ino false i = true then ptr (blockAt u.run.fs.content i p) else none) =
            if u.run.inodes i = true then ptr (blockAt u.run.fs.content i p) else none
          by_cases same : i = ino
          · subst same
            rw [empty p (lost p)]
            exact (ite_self none).trans (ite_self none).symm
          · rw [others i same]
  · contradiction

theorem liveStepKeeps {event : LiveEvent} (inv : LiveInv known s) (ran : liveStep s event = some t) (fits : liveFits s event) :
    ∃ now, LiveInv now t := by
  cases event with
  | read fuel ino iblock => exact readLive inv ran
  | prepare fuel ino iblock => exact prepareLive inv ran
  | submitData fuel ino iblock answers => exact submitDataLive inv ran
  | completeData ino iblock blkaddr => exact completeDataLive inv ran
  | submitNode fuel nid answers => exact submitNodeLive inv ran
  | completeNode nid blkaddr => exact completeNodeLive inv ran
  | evict fuel ino nlink => exact evictLive inv ran fits
  | truncate fuel ino freeFrom =>
    simp only [liveStep] at ran
    split at ran
    · rename_i guard
      have range : freeFrom < maxBlocks := by
        obtain ⟨_,made,_⟩ := Option.bind_eq_some_iff.mp ran
        unfold Fs.truncate at made
        split at made
        · assumption
        · contradiction
      have at_ := TreePath.indexOfIndex freeFrom range
      obtain ⟨now,invT,_⟩ := truncateLive inv guard.1 (fits _ at_) at_ ran
      exact ⟨now,invT⟩
    · contradiction

/- A block is live exactly as a reference names it. -/
theorem liveCell {b : Nat} : s.Live b ↔ ∃ r, s.cell r = some b := by
  constructor
  · rintro ⟨nonzero,⟨nid,address⟩ | ⟨i,p,inside,here⟩⟩
    · refine ⟨.nat nid,?_⟩
      change (s.run.fs.addr nid).bind ptr = some b
      rw [address]
      exact ptrSome.mpr ⟨rfl,nonzero⟩
    · refine ⟨.data i p,?_⟩
      exact (if_pos inside).trans (ptrSome.mpr ⟨here,nonzero⟩)
  · rintro ⟨r,here⟩
    cases r with
    | nat nid =>
      obtain ⟨a,address,word⟩ := Option.bind_eq_some_iff.mp here
      obtain ⟨rfl,nonzero⟩ := ptrSome.mp word
      exact ⟨nonzero,.inl ⟨nid,address⟩⟩
    | data i p =>
      have word : (if s.run.inodes i = true then ptr (blockAt s.run.fs.content i p) else none) = some b := here
      split at word
      · rename_i inside
        obtain ⟨same,nonzero⟩ := ptrSome.mp word
        exact ⟨nonzero,.inr ⟨i,p,inside,same⟩⟩
      · contradiction

theorem quietStill (quiet : s.Quiet) (r : BlockRef) : ¬s.flying r := by
  cases r with
  | nat nid =>
    intro there
    have member : nid ∈ s.nodeFlights := there
    rw [quiet.2] at member
    contradiction
  | data i p =>
    rintro ⟨f,member,_⟩
    rw [quiet.1] at member
    contradiction

theorem mapsOf {zm : ZmInfo} {z idx : Nat} (low : idx < zm.blocksPerZone) :
    zm.blk2zone (z * zm.blocksPerZone + idx) = z ∧ isValid zm (z * zm.blocksPerZone + idx) = (zm.zoneInfo z).validMap idx := by
  have zone : zm.blk2zone (z * zm.blocksPerZone + idx) = z := by
    unfold ZmInfo.blk2zone
    rw [Nat.add_comm,Nat.add_mul_div_right _ _ (Nat.zero_lt_of_lt low),Nat.div_eq_of_lt low,Nat.zero_add]
  refine ⟨zone,?_⟩
  unfold isValid
  rw [zone,Nat.add_comm,Nat.add_mul_mod_self_right,Nat.mod_eq_of_lt low]

theorem quietMaps (inv : LiveInv known s) (quiet : s.Quiet) : s.MapsLive := by
  intro z idx high low inside
  obtain ⟨zone,bit⟩ := @mapsOf s.zones.zm z idx inside
  have scope : z * s.zones.zm.blocksPerZone + idx ∈ mapScope s.zones.zm := by
    unfold mapScope
    rw [Set.mem_ofPred_eq,zone]
    exact ⟨high,low⟩
  rw [← bit,liveCell]
  exact soundRest inv.sound (quietStill quiet) scope

theorem liveStartInv (start : LiveStart known s) : LiveInv known s := by
  have still := quietStill start.quiet
  refine ⟨⟨start.fs,start.metaIn,fun f flying => ?_⟩,start.unnamed,fun nid flying => ?_,?_,⟨start.single,start.filled,fun b inside => ?_⟩⟩
  · rw [start.quiet.1] at flying
    contradiction
  · rw [start.quiet.2] at flying
    contradiction
  · rw [start.quiet.1]
    exact .nil
  · change isValid s.zones.zm b = true ↔ ∃ r, s.cell r = some b ∧ ¬s.flying r
    have split_ : b = s.zones.zm.blk2zone b * s.zones.zm.blocksPerZone + b % s.zones.zm.blocksPerZone := by
      unfold ZmInfo.blk2zone
      rw [Nat.mul_comm,Nat.div_add_mod]
    have room : b % s.zones.zm.blocksPerZone < s.zones.zm.blocksPerZone := by
      refine Nat.mod_lt _ (Nat.pos_of_ne_zero fun zero => ?_)
      have low : 2 ≤ b / s.zones.zm.blocksPerZone := inside.1
      rw [zero,Nat.div_zero] at low
      omega
    have bit := start.maps _ _ inside.1 inside.2 room
    rw [← split_,liveCell] at bit
    unfold isValid
    rw [bit]
    exact ⟨fun ⟨r,here⟩ => ⟨r,here,still r⟩,fun ⟨r,here,_⟩ => ⟨r,here⟩⟩

/-- The valid maps are right in every state at rest, in every run whose truncates and evictions
give back no node that has a block and drop no data block unreleased. -/
theorem validMapsLive {events : List LiveEvent} (start : LiveStart known s) (meets : Meets liveFits liveStep s events) :
    Always (fun t => t.Quiet → t.MapsLive) liveStep s events := by
  refine alwaysMeets (fun t => ∃ known, LiveInv known t) ?_ ?_ ⟨known,liveStartInv start⟩ meets
  · rintro t ⟨now,inv⟩ quiet
    exact quietMaps inv quiet
  · rintro u event next ⟨now,inv⟩ ran fits
    exact liveStepKeeps inv ran fits

end
/- A file with one direct node, all of it in blocks of its own. -/
def leafNat : NatDisk := ⟨fun _ _ => ⟨0,0⟩,[⟨2730453,2730454,30⟩,⟨2730454,2730454,20⟩,⟨1,1,12⟩]⟩

def leafStart : LiveRun where
  run :=
    { fs := { mountFs leafNat (oneDirect fun _ => 0) with cached := fun n => n = 2730454 ∨ n = 2730453 }
      inodes := fun n => n = 1 ∨ n = 2730454
      flights := [] }
  zones :=
    { zm :=
        { zoneSize := 16, zoneCapacity := 16, nrZones := 16, maxOpenZones := 2, maxActiveZones := 2
          nrType := fun _ => 1, limitType := fun _ => 1
          zoneInfo := fun zone =>
            { zoneId := zone, cond := .expOpen, start := zone * 16, wp := zone * 16 + 8, writeInflight := 0
              dirty := false, zoneType := PageType.regNode.code, vblocks := 1
              validMap := fun idx => idx = 0 && (zone = 6 || zone = 10 || zone = 15) }
          zoneOpened := [some 15,none], zoneOpenedCount := 1
          zoneActive := [some 15,none], zoneActiveCount := 1 }
      cpSemLocked := false
      cpcRestart := none }
  nodeFlights := []
  written := fun a => a = 0 ∨ a = 12 ∨ a = 20 ∨ a = 30

def leafKnown (n : Nat) : Bool := n = 1 ∨ n = 2730454 ∨ n = 2730453

theorem leafAddr (n : Nat) : leafStart.run.fs.addr n =
    if n = 1 then some 12 else if n = 2730454 then some 20 else if n = 2730453 then some 30 else if 3 ≤ n then some 0 else none := by
  have nm : leafStart.run.fs.nat.nm =
      ⟨[⟨true,false,1,1,12⟩,⟨true,false,2730454,2730454,20⟩,⟨true,false,2730453,2730454,30⟩],[]⟩ := rfl
  have slot : leafStart.run.fs.nat.nm.slot n = if n = 1 then some (true,⟨true,false,1,1,12⟩) else
      if n = 2730454 then some (true,⟨true,false,2730454,2730454,20⟩)
      else if n = 2730453 then some (true,⟨true,false,2730453,2730454,30⟩) else none := by
    rw [nm,slotConsListed,slotConsListed,slotConsListed]
    simp only [eq_comm]
    rfl
  unfold Fs.addr
  rw [natAddrSlot,slot]
  by_cases one : n = 1
  · simp [one]
  · by_cases file : n = 2730454
    · simp [file]
    · by_cases node : n = 2730453
      · simp [node]
      · simp only [one,file,node,if_false]
        rfl

theorem leafNamed {nid a : Nat} (address : leafStart.run.fs.addr nid = some a) (nonzero : a ≠ 0) :
    nid = 1 ∧ a = 12 ∨ nid = 2730454 ∧ a = 20 ∨ nid = 2730453 ∧ a = 30 := by
  rw [leafAddr] at address
  split at address
  · cases address
    exact .inl ⟨by assumption,rfl⟩
  · split at address
    · cases address
      exact .inr (.inl ⟨by assumption,rfl⟩)
    · split at address
      · cases address
        exact .inr (.inr ⟨by assumption,rfl⟩)
      · split at address
        · cases address
          contradiction
        · cases address

theorem leafContent : leafStart.run.fs.content = oneDirect fun _ => 0 := by
  funext n
  unfold Fs.content
  split
  · rfl
  · rename_i neither
    have unheld : ¬(n = 2730454 ∨ n = 2730453) := fun held => neither (.inl (decide_eq_true held))
    unfold oneDirect
    rw [if_neg fun file => unheld (.inl file),if_neg fun node => unheld (.inr node)]

theorem leafPaths (r n : Nat) (root : r = 1 ∨ r = 2730454) (p : List Edge) (place : NodePlace p)
    (path : follow (child (oneDirect fun _ => 0)) r p = some n) : p = [] ∧ n = r ∨ r = 2730454 ∧ p = [.nid 0] ∧ n = 2730453 := by
  rcases root with rfl | rfl
  · cases p with
    | nil => exact .inl ⟨rfl,(Option.some.inj path).symm⟩
    | cons e rest =>
      obtain ⟨m,edge,_⟩ := Option.bind_eq_some_iff.mp path
      have none_ : child (oneDirect fun _ => 0) 1 e = none := zeroChild e
      cases none_.symm.trans edge
  · rcases oneDirectPaths (fun _ => 0) p n place path with ⟨rfl,rfl⟩ | ⟨rfl,rfl⟩
    · exact .inl ⟨rfl,rfl⟩
    · exact .inr ⟨rfl,rfl,rfl⟩

theorem leafBlocks (r : Nat) (p : TreePath) : blockAt (oneDirect fun _ => 0) r p = 0 := by
  cases path : follow (child (oneDirect fun _ => 0)) r p.nodes with
  | none => exact blockAtMissing path
  | some n =>
    rw [blockAtFound path]
    unfold TreePath.word oneDirect
    split
    · split
      · rfl
      · split <;> rfl
    · split
      · rfl
      · split <;> rfl

theorem leafStartOk : LiveStart leafKnown leafStart := by
  have roots : ∀ r, leafStart.run.inodes r = true → r = 1 ∨ r = 2730454 := fun r root => of_decide_eq_true root
  have cells : ∀ r a, leafStart.cell r = some a → ∃ nid, r = .nat nid ∧ leafStart.run.fs.addr nid = some a ∧ a ≠ 0 := by
    intro r a here
    cases r with
    | nat nid =>
      obtain ⟨b,address,word⟩ := Option.bind_eq_some_iff.mp here
      obtain ⟨rfl,nonzero⟩ := ptrSome.mp word
      exact ⟨nid,rfl,address,nonzero⟩
    | data i p =>
      have word : (if leafStart.run.inodes i = true then ptr (blockAt leafStart.run.fs.content i p) else none) = some a := here
      split at word
      · rename_i inside
        rw [leafContent,leafBlocks i] at word
        cases word
      · cases word
  refine ⟨⟨?_,?_,?_,?_,?_⟩,rfl,⟨rfl,rfl⟩,?_,?_,?_,?_⟩
  · refine natOkMount leafNat fun n member => ?_
    rcases of_decide_eq_true member with rfl | rfl | rfl
    · exact ⟨12,leafAddr 1,by decide⟩
    · exact ⟨20,leafAddr 2730454,by decide⟩
    · exact ⟨30,leafAddr 2730453,by decide⟩
  · intro ne free
    cases (readUnnamed leafNat.metaNat).symm.trans free
  · rintro n ⟨r,root,p,place,path⟩
    rw [leafContent] at path
    rcases leafPaths r n (roots r root) p place path with ⟨_,rfl⟩ | ⟨_,_,rfl⟩
    · rcases roots n root with rfl | rfl <;> rfl
    · rfl
  · intro r root s root' p q n place place' left right
    rw [leafContent] at left right
    rcases leafPaths r n (roots r root) p place left with ⟨rfl,rfl⟩ | ⟨rfl,rfl,rfl⟩
    · rcases leafPaths s n (roots s root') q place' right with ⟨rfl,rfl⟩ | ⟨rfl,rfl,rfl⟩
      · exact ⟨rfl,rfl⟩
      · exact absurd (roots 2730453 root) (by decide)
    · rcases leafPaths s 2730453 (roots s root') q place' right with ⟨rfl,rfl⟩ | ⟨rfl,rfl,_⟩
      · exact absurd (roots 2730453 root') (by decide)
      · exact ⟨rfl,rfl⟩
  · intro n unknown
    refine decide_eq_false fun held => ?_
    have member : leafKnown n = true := decide_eq_true (.inr held)
    cases unknown.symm.trans member
  · exact leafAddr 0
  · intro r r' a here there
    obtain ⟨nid,rfl,address,nonzero⟩ := cells r a here
    obtain ⟨nid',rfl,address',_⟩ := cells r' a there
    have first := leafNamed address nonzero
    have second := leafNamed address' nonzero
    have same : nid = nid' := by omega
    rw [same]
  · intro r a here
    obtain ⟨nid,rfl,address,nonzero⟩ := cells r a here
    rcases leafNamed address nonzero with ⟨_,rfl⟩ | ⟨_,rfl⟩ | ⟨_,rfl⟩ <;> rfl
  · intro z idx high low inside
    have blocks : leafStart.zones.zm.blocksPerZone = 2 := rfl
    rw [blocks] at inside ⊢
    have bit : (leafStart.zones.zm.zoneInfo z).validMap idx = true ↔ idx = 0 ∧ (z = 6 ∨ z = 10 ∨ z = 15) := by
      change (decide (idx = 0) && (decide (z = 6) || decide (z = 10) || decide (z = 15))) = true ↔ _
      simp [or_assoc]
    rw [bit,liveCell]
    constructor
    · rintro ⟨rfl,rfl | rfl | rfl⟩
      · exact ⟨.nat 1,rfl⟩
      · exact ⟨.nat 2730454,rfl⟩
      · exact ⟨.nat 2730453,rfl⟩
    · rintro ⟨r,here⟩
      obtain ⟨nid,rfl,address,nonzero⟩ := cells r _ here
      rcases leafNamed address nonzero with ⟨_,same⟩ | ⟨_,same⟩ | ⟨_,same⟩ <;> omega

theorem leafFits : CutFits leafStart 2730454 (.direct 0 2) := by
  refine ⟨fun q nid place gone path => ?_,fun p stored => ?_,fun f bad => by cases bad⟩
  · rw [leafContent] at path
    rcases leafPaths 2730454 nid (.inr rfl) q place path with ⟨rfl,_⟩ | ⟨_,rfl,_⟩
    · exact gone.elim
    · cases gone
  · rw [leafContent,leafBlocks 2730454] at stored
    contradiction

/-- The direct node is kept, and then rewritten to block 31. -/
theorem validMapsLiveRewrite : Always (fun t => t.Quiet → t.MapsLive) liveStep leafStart
    [.truncate 1 2730454 902,.submitNode 1 2730453 [],.completeNode 2730453 31] := by
  refine validMapsLive leafStartOk fun t ran => ⟨fun cut at_ => ?_,fun u sent => ⟨trivial,fun v done => ⟨trivial,trivial⟩⟩⟩
  obtain rfl : cut = .direct 0 2 := TreePath.indexInjective (at_.trans rfl)
  exact leafFits

theorem leafFreed {t : LiveRun} (ran : leafStart.truncate 1 2730454 0 = some t) : ¬t.Live 30 := by
  obtain ⟨⟨fs,calls⟩,made,ran⟩ := Option.bind_eq_some_iff.mp ran
  have okFs := leafStartOk.fs
  have inside : leafStart.run.inodes 2730454 = true := by decide
  have at_ : (TreePath.inode 0).index = 0 := rfl
  obtain ⟨_,cuts,okT⟩ := truncateCuts okFs inside at_ made
  obtain ⟨trunc,content,rfl,done⟩ := cuts.done
  have addr : ∀ n, fs.addr n = leafStart.run.fs.addr n := by
    intro n
    unfold Fs.addr
    rw [cuts.nat]
  have named : ∀ nid, Call.nat nid ∈ trunc.calls → nid = 2730453 ∨ nid = 0 := by
    intro nid member
    rcases (natPlaces (cutBoundarySound _ (.inode 0))).mp ((natTruncated rfl done).mp member) with ⟨q,place,gone,path⟩ | ⟨rfl,_⟩
    · dsimp only at path
      rw [leafContent] at path
      rcases leafPaths 2730454 nid (.inr rfl) q place path with ⟨rfl,_⟩ | ⟨_,_,rfl⟩
      · exact gone.elim
      · exact .inl rfl
    · exact .inr rfl
  have direct : Call.nat 2730453 ∈ trunc.calls := by
    refine (natTruncated rfl done).mpr ((natPlaces (cutBoundarySound _ (.inode 0))).mpr (.inl ⟨[.nid 0],(by decide : (0 : Nat) < 5),rfl,?_⟩))
    dsimp only
    rw [leafContent]
    rfl
  have called : Called leafKnown trunc.calls (leafStart.setFs fs) t := by
    refine @callsDone _ (leafStart.setFs fs) t 1 trunc.calls rfl okT (fun nid member => ?_) ran
    change fs.cached nid = true ∨ (fs.addr nid).getD 0 = 0
    rw [cuts.cached,addr]
    rcases named nid member with rfl | rfl
    · exact .inl rfl
    · rw [leafAddr]
      exact .inr rfl
  obtain ⟨_,_,_,grown⟩ := called.advances
  rintro ⟨_,⟨nid,address⟩ | ⟨i,p,inside,here⟩⟩
  · have before : (leafStart.setFs fs).run.fs.addr nid = leafStart.run.fs.addr nid := addr nid
    rw [called.addr nid,before] at address
    split at address
    · obtain ⟨_,_,bad⟩ := Option.map_eq_some_iff.mp address
      cases bad
    · rename_i unnamed
      have node : nid = 2730453 := by
        have names := leafNamed address (by decide)
        omega
      subst node
      exact unnamed direct
  · have member : leafStart.run.inodes i = true := called.inodes ▸ inside
    have zero : blockAt fs.content i p = 0 := by
      rw [← content]
      by_cases file : i = 2730454
      · subst file
        refine blockLost done p fun kept => ?_
        cases p with
        | inode slot => exact Nat.not_lt_zero _ kept
        | direct top slot => exact keepsWhole _ _ kept
        | indirect top mid slot => exact keepsWhole _ _ kept
        | double top mid slot => exact keepsWhole _ _ kept
      · refine (otherBlock okFs.owned done (by decide) member file p).trans ?_
        dsimp only
        rw [leafContent]
        exact leafBlocks i p
    have word : blockAt t.run.fs.content i p = 0 := (grown.blocks i member p).trans zero
    rw [word] at here
    cases here

/-- Truncating the file to nothing gives its direct node back, and leaves block 30 on the map. -/
theorem truncateLeaksNode : ¬∀ (known : Nat → Bool) (s : LiveRun) (events : List LiveEvent), LiveStart known s →
    Always (fun t => t.Quiet → t.MapsLive) liveStep s events := by
  intro claim
  have runs : (liveStep leafStart (.truncate 1 2730454 0)).any (fun t => t.run.flights.isEmpty && t.nodeFlights.isEmpty &&
      (t.zones.zm.zoneInfo 15).validMap 0 && decide (t.zones.zm.nrZones = 16) && decide (t.zones.zm.blocksPerZone = 2)) = true := by
    decide +kernel
  obtain ⟨t,ran⟩ : ∃ t, liveStep leafStart (.truncate 1 2730454 0) = some t := by
    cases ran : liveStep leafStart (.truncate 1 2730454 0) with
    | none =>
      rw [ran] at runs
      cases runs
    | some t => exact ⟨t,rfl⟩
  rw [ran,Option.any_some] at runs
  simp only [Bool.and_eq_true,List.isEmpty_iff,decide_eq_true_eq] at runs
  obtain ⟨⟨⟨⟨idle,nodeIdle⟩,bit⟩,zones⟩,blocks⟩ := runs
  have maps := alwaysHead ((claim leafKnown leafStart [.truncate 1 2730454 0] leafStartOk).2 t ran) ⟨idle,nodeIdle⟩
  have live := (maps 15 0 (by decide) (by omega) (by omega)).mp bit
  rw [blocks] at live
  exact leafFreed ran live

end Xcpfs
