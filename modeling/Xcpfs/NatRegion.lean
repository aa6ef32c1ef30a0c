import Xcpfs.MetaRuns

/-! The blocks that `alloc_free_nat` reads. The loop has one way out, a free entry of the class
asked for; where the class has none it goes on into the blocks behind its region. A block is read
as any page of the meta file, with the lookups and the new nodes that this takes. -/
namespace Xcpfs
open EventRun

/- The NAT blocks of a class lie between these two. -/
def regionStart (isMeta : Bool) : Nat := if isMeta then 0 else regNatStart
def regionEnd (isMeta : Bool) : Nat := if isMeta then regNatStart else zitStart

/-- `alloc_free_nat`; there is no result when `rounds` blocks hold no free nid, or one cannot be read. -/
def Fs.allocNat (fuel : Nat) (isMeta : Bool) (rounds : Nat) (s : Fs) : Option (Fs × NatEntry) :=
  allocFreeNat (readRawNatBlock fuel) isMeta rounds (regionStart isMeta) s

/- What the reading of a NAT block takes: blocks before the ZIT, and nids of the other class. -/
def OnTheWay (isMeta : Bool) : PrepEvent → Prop
  | .load iblock => iblock < zitStart
  | .alloc kind _ => kind ≠ isMeta

/- In these states every NAT block of the class can be read, and takes no nid of the class. Reading
one or taking a free nid leads to such a state. -/
structure ReadsClass (fuel : Nat) (isMeta : Bool) (There : Fs → Prop) : Prop where
  comes : ∀ s iblock, There s → regionStart isMeta ≤ iblock → iblock < regionEnd isMeta →
    ∃ t, Fs.readRawNatBlock fuel iblock s = some t ∧ PreparesBy (OnTheWay isMeta) s.nat t.nat ∧ There t
  takes : ∀ s nm ne, There s → freeNatEmpty s.nat.nm isMeta = some (nm,ne) → There { s with nat := { s.nat with nm := nm } }

def Readable (fuel : Nat) (isMeta : Bool) (s : Fs) : Prop := ∃ There, ReadsClass fuel isMeta There ∧ There s

section
variable {file : NatFile} {isMeta kind : Bool} {nm next : NatInfo} {n : Nat} {ne : NatEntry} {use : NatUse} {s t u : NatMount}

theorem insertFree {nid ino blkaddr : Nat} {pinned dirty : Bool} (member : ne ∈ (insertNat nm nid ino blkaddr pinned dirty).1.freeNat) :
    ne ∈ nm.freeNat ∨ nm.slot nid = none ∧ ne.nid = nid ∧ blkaddr = 0 := by
  unfold insertNat at member
  cases cached : nm.lookup nid with
  | some other =>
    rw [cached] at member
    exact .inl member
  | none =>
    rw [cached] at member
    dsimp only at member
    split at member
    · exact .inl member
    · rename_i zero
      obtain same | before := List.mem_cons.mp member
      · exact .inr ⟨slotNone.mpr cached,same ▸ rfl,not_not.mp zero⟩
      · exact .inl before

theorem insertKeepsFree {nid ino blkaddr : Nat} {pinned dirty : Bool} (member : ne ∈ nm.freeNat) :
    ne ∈ (insertNat nm nid ino blkaddr pinned dirty).1.freeNat := by
  unfold insertNat
  split
  · exact member
  · split
    · exact member
    · exact List.mem_cons_of_mem _ member

theorem insertAbsent {nid ino blkaddr : Nat} {pinned dirty : Bool} (absent : (insertNat nm nid ino blkaddr pinned dirty).1.slot n = none) :
    nm.slot n = none := by
  rw [slotInsert] at absent
  split at absent
  · cases absent
  · exact absent

theorem blockFree (iblock : Nat) (member : ne ∈ (insertBlock nm (file iblock) iblock).freeNat) :
    ne ∈ nm.freeNat ∨ nm.slot ne.nid = none ∧ 3 ≤ ne.nid ∧ ne.nid / natEntryPerBlock = iblock ∧ (file.raw ne.nid).blockAddr = 0 := by
  have whole : ∀ (offsets : List Nat) (nm : NatInfo), (∀ i ∈ offsets, i < natEntryPerBlock) →
      ne ∈ (offsets.foldl (fun nm i => if iblock * natEntryPerBlock + i < 3 then nm
        else (insertNat nm (iblock * natEntryPerBlock + i) (file iblock i).ino (file iblock i).blockAddr false false).1) nm).freeNat →
      ne ∈ nm.freeNat ∨ nm.slot ne.nid = none ∧ 3 ≤ ne.nid ∧ ne.nid / natEntryPerBlock = iblock ∧ (file.raw ne.nid).blockAddr = 0 := by
    intro offsets
    induction offsets with
    | nil => exact fun nm _ member => .inl member
    | cons i rest ih =>
      intro nm bound member
      have small := bound i List.mem_cons_self
      have later := ih _ (fun j inside => bound j (List.mem_cons_of_mem _ inside)) member
      dsimp only at later
      by_cases low : iblock * natEntryPerBlock + i < 3
      · rw [if_pos low] at later
        exact later
      · rw [if_neg low] at later
        rcases later with before | ⟨absent,high,block,zero⟩
        · rcases insertFree before with before | ⟨absent,named,zero⟩
          · exact .inl before
          · have block : ne.nid / natEntryPerBlock = iblock := by
              rw [natEntryPerBlockValue] at *
              omega
            have offset : ne.nid % natEntryPerBlock = i := by
              rw [natEntryPerBlockValue] at *
              omega
            refine .inr ⟨named ▸ absent,by omega,block,?_⟩
            unfold NatFile.raw
            rw [block,offset]
            exact zero
        · exact .inr ⟨insertAbsent absent,high,block,zero⟩
  exact whole _ nm (fun i inside => List.mem_range.mp inside) member

theorem blockKeepsFree (iblock : Nat) (member : ne ∈ nm.freeNat) : ne ∈ (insertBlock nm (file iblock) iblock).freeNat := by
  unfold insertBlock
  induction List.range natEntryPerBlock generalizing nm with
  | nil => exact member
  | cons i rest ih =>
    refine ih ?_
    dsimp only
    split
    · exact member
    · exact insertKeepsFree member

theorem blockAbsent (iblock : Nat) (absent : (insertBlock nm (file iblock) iblock).slot n = none) : nm.slot n = none := by
  rw [slotBlock] at absent
  exact (Option.or_eq_none_iff.mp absent).1

/- Free, or unknown with a NAT block that says free. -/
def Pending (file : NatFile) (nm : NatInfo) (n : Nat) : Prop :=
  (∃ ne ∈ nm.freeNat, ne.nid = n) ∨ nm.slot n = none ∧ 3 ≤ n ∧ (file.raw n).blockAddr = 0

theorem blockPending (iblock : Nat) (pending : Pending file nm n) : Pending file (insertBlock nm (file iblock) iblock) n ∧
    (n / natEntryPerBlock = iblock → ∃ ne ∈ (insertBlock nm (file iblock) iblock).freeNat, ne.nid = n) := by
  rcases pending with ⟨ne,member,named⟩ | ⟨absent,high,zero⟩
  · have kept : ∃ ne ∈ (insertBlock nm (file iblock) iblock).freeNat, ne.nid = n := ⟨ne,blockKeepsFree iblock member,named⟩
    exact ⟨.inl kept,fun _ => kept⟩
  · by_cases block : n / natEntryPerBlock = iblock
    · have raw : file iblock (n % natEntryPerBlock) = file.raw n := by rw [rawBlock,block]
      have fresh : (insertBlock nm (file iblock) iblock).slot n = some (false,⟨false,false,n,(file.raw n).ino,(file.raw n).blockAddr⟩) := by
        rw [slotBlock,absent,Option.none_or,if_pos ⟨high,block⟩,raw]
        simp [RawNat.slot,zero]
      have member := List.mem_of_find?_eq_some (slotFree.mp fresh).2
      exact ⟨.inl ⟨_,member,rfl⟩,fun _ => ⟨_,member,rfl⟩⟩
    · have same : (insertBlock nm (file iblock) iblock).slot n = none := by
        rw [slotBlock,absent,if_neg fun both => block both.2]
        rfl
      exact ⟨.inr ⟨same,high,zero⟩,fun here => absurd here block⟩

theorem freeEmptyNone (missed : freeNatEmpty nm isMeta = none) : ∀ ne ∈ nm.freeNat, isMetaNid ne.nid ≠ isMeta := by
  intro ne member kind
  have scanned := Option.map_eq_none_iff.mp missed
  exact List.find?_eq_none.mp scanned ne member (decide_eq_true kind)

theorem freeEmptyFound {next : NatInfo} (found : freeNatEmpty nm isMeta = some (next,ne)) :
    ne ∈ nm.freeNat ∧ isMetaNid ne.nid = isMeta := by
  obtain ⟨first,scanned,same⟩ := Option.map_eq_some_iff.mp found
  cases same
  have kind := List.find?_some scanned
  exact ⟨List.mem_of_find?_eq_some scanned,of_decide_eq_true kind⟩

/- Where a free entry that is there in the end comes from. -/
def Source (file : NatFile) (nm : NatInfo) (ne : NatEntry) : Prop :=
  ne ∈ nm.freeNat ∨ nm.slot ne.nid = none ∧ 3 ≤ ne.nid ∧ ne.nid / natEntryPerBlock < zitStart ∧ (file.raw ne.nid).blockAddr = 0

/- What the events on the way leave of the NAT, as far as a class is concerned. -/
structure Way (isMeta : Bool) (s t : NatMount) : Prop where
  file : t.file = s.file
  absent : ∀ n, t.nm.slot n = none → s.nm.slot n = none
  below : ∀ n, s.nm.slot n = none → t.nm.slot n ≠ none → n / natEntryPerBlock < zitStart
  source : ∀ ne, isMetaNid ne.nid = isMeta → ne ∈ t.nm.freeNat → Source s.file s.nm ne
  pending : ∀ n, isMetaNid n = isMeta → Pending s.file s.nm n → Pending s.file t.nm n
  same : ∀ n, isMetaNid n = isMeta → t.nm.slot n = s.nm.slot n ∨
    s.nm.slot n = none ∧ 3 ≤ n ∧ t.nm.slot n = some ((s.file.raw n).slot n)

theorem wayRefl (s : NatMount) : Way isMeta s s where
  file := rfl
  absent _ := id
  below _ absent cached := absurd absent cached
  source _ _ := .inl
  pending _ _ := id
  same _ _ := .inl rfl

theorem wayTrans (first : Way isMeta s t) (second : Way isMeta t u) : Way isMeta s u where
  file := second.file.trans first.file
  absent n none_ := first.absent n (second.absent n none_)
  below n absent cached := by
    by_cases mid : t.nm.slot n = none
    · exact second.below n mid cached
    · exact first.below n absent mid
  source ne kind member := by
    rcases second.source ne kind member with before | ⟨none_,high,low,zero⟩
    · exact first.source ne kind before
    · exact .inr ⟨first.absent _ none_,high,low,first.file ▸ zero⟩
  pending n kind pending := first.file ▸ second.pending n kind (first.file.symm ▸ first.pending n kind pending)
  same n kind := by
    rcases second.same n kind with same | ⟨none_,high,fresh⟩
    · rw [same]
      exact first.same n kind
    · exact .inr ⟨first.absent n none_,high,first.file ▸ fresh⟩

theorem wayLoad {iblock : Nat} (low : iblock < zitStart) (file : t.file = s.file)
    (entered : t.nm = insertBlock s.nm (s.file iblock) iblock) : Way isMeta s t where
  file := file
  absent n none_ := blockAbsent iblock (entered ▸ none_)
  below n absent cached := by
    rw [entered,slotBlock,absent,Option.none_or] at cached
    split at cached
    · rename_i inside
      exact inside.2 ▸ low
    · contradiction
  source ne _ member := (blockFree iblock (entered ▸ member)).imp_right fun ⟨absent,high,block,zero⟩ => ⟨absent,high,block ▸ low,zero⟩
  pending n _ pending := entered ▸ (blockPending iblock pending).1
  same n _ := entered ▸ (loadsBlock iblock).slot n

theorem memModify {nid : Nat} {f : NatEntry → NatEntry} (keeps : ∀ ne, (f ne).nid = ne.nid) (other : ne.nid ≠ nid)
    (list : List NatEntry) : ne ∈ modifyFirst nid f list ↔ ne ∈ list := by
  induction list with
  | nil => exact Iff.rfl
  | cons head rest ih =>
    unfold modifyFirst
    split
    · rename_i here
      have first : ne ≠ head := fun same => other (same ▸ here)
      have changed : ne ≠ f head := fun same => other (same ▸ (keeps head).trans here)
      rw [List.mem_cons,List.mem_cons,or_iff_right first,or_iff_right changed]
    · rw [List.mem_cons,List.mem_cons,ih]

theorem wayAlloc (differ : kind ≠ isMeta) (taken : freeNatEmpty s.nm kind = some (nm,ne)) :
    Way isMeta s { s with nm := nm.modify ne.nid use.mark } := by
  obtain ⟨first,found,same⟩ := Option.map_eq_some_iff.mp taken
  cases same
  have class_ : isMetaNid ne.nid = kind := (freeEmptyFound taken).2
  have slots : ∀ n, n ≠ ne.nid → NatInfo.slot (NatInfo.modify ⟨ne :: s.nm.natList,s.nm.freeNat.eraseP fun ne => isMetaNid ne.nid = kind⟩
      ne.nid use.mark) n = s.nm.slot n := by
    intro n other
    rw [slotModify use.markNid,if_neg other.symm,slotConsListed,if_neg other.symm]
    unfold NatInfo.slot NatInfo.free NatInfo.listed
    dsimp only
    rw [findErase found other.symm]
  have apart : ∀ n, isMetaNid n = isMeta → n ≠ ne.nid := by
    rintro n kindN rfl
    exact differ (class_.symm.trans kindN)
  have here : s.nm.slot ne.nid ≠ none := by
    intro none_
    have unfree := (Option.or_eq_none_iff.mp (slotNone.mp none_)).2
    exact List.find?_eq_none.mp unfree ne (freeEmptyFound taken).1 (by simp)
  have free : ∀ entry, isMetaNid entry.nid = isMeta →
      (entry ∈ (NatInfo.modify ⟨ne :: s.nm.natList,s.nm.freeNat.eraseP fun ne => isMetaNid ne.nid = kind⟩ ne.nid use.mark).freeNat ↔
        entry ∈ s.nm.freeNat) := by
    intro entry kindE
    have kept : entry ∈ s.nm.freeNat.eraseP (fun ne => isMetaNid ne.nid = kind) ↔ entry ∈ s.nm.freeNat :=
      List.mem_eraseP_of_neg (by simpa using fun same => differ (same.symm.trans kindE))
    unfold NatInfo.modify
    split
    · exact kept
    · exact (memModify use.markNid (apart _ kindE) _).trans kept
  refine ⟨rfl,fun n none_ => ?_,fun n absent cached => ?_,fun entry kindE member => .inl ((free entry kindE).mp member),
    fun n kindN pending => ?_,fun n kindN => .inl (slots n (apart n kindN))⟩
  · dsimp only at none_
    by_cases same : n = ne.nid
    · rw [same,slotModify use.markNid,if_pos rfl,slotConsListed,if_pos rfl] at none_
      cases none_
    · exact (slots n same).symm.trans none_
  · dsimp only at cached
    by_cases same : n = ne.nid
    · exact absurd (same ▸ absent) here
    · exact absurd absent (slots n same ▸ cached)
  · rcases pending with ⟨entry,member,named⟩ | ⟨absent,rest⟩
    · exact .inl ⟨entry,(free entry (named ▸ kindN)).mpr member,named⟩
    · exact .inr ⟨(slots n (apart n kindN)).trans absent,rest⟩

theorem onTheWay (prepares : PreparesBy (OnTheWay isMeta) s t) : Way isMeta s t := by
  refine preparesKeep (fun u event v may first ran => wayTrans first ?_) prepares (wayRefl s)
  cases event with
  | load iblock =>
    have low : iblock < zitStart := may
    obtain rfl := Option.some.inj ran
    refine wayLoad low rfl ?_
    dsimp only
  | alloc kind use =>
    obtain ⟨⟨nm,ne⟩,taken,same⟩ := Option.map_eq_some_iff.mp ran
    cases same
    exact wayAlloc may taken

end

section
variable {fuel rounds iblock n : Nat} {isMeta : Bool} {There : Fs → Prop} {s t : Fs} {ne : NatEntry}

theorem allocWay (reads : ReadsClass fuel isMeta There) (there : There s) (low : regionStart isMeta ≤ iblock)
    (inside : iblock + rounds ≤ regionEnd isMeta)
    (ran : Fs.allocFreeNat (Fs.readRawNatBlock fuel) isMeta rounds iblock s = some (t,ne)) :
    ∃ u nm, There u ∧ PreparesBy (OnTheWay isMeta) s.nat u.nat ∧ freeNatEmpty u.nat.nm isMeta = some (nm,ne) ∧
      t = { u with nat := { u.nat with nm := nm } } := by
  induction rounds generalizing iblock s with
  | zero =>
    unfold Fs.allocFreeNat at ran
    cases found : freeNatEmpty s.nat.nm isMeta with
    | none =>
      rw [found] at ran
      cases ran
    | some pair =>
      rw [found] at ran
      cases ran
      exact ⟨s,pair.1,there,preparesRefl s.nat,found,rfl⟩
  | succ rounds ih =>
    unfold Fs.allocFreeNat at ran
    cases found : freeNatEmpty s.nat.nm isMeta with
    | none =>
      rw [found] at ran
      obtain ⟨v,loaded,way,thereV⟩ := reads.comes s iblock there low (by omega)
      simp only [loaded,Option.bind_some] at ran
      obtain ⟨u,nm,thereU,further,rest⟩ := ih thereV (by omega) (by omega) ran
      exact ⟨u,nm,thereU,preparesThen way further,rest⟩
    | some pair =>
      rw [found] at ran
      cases ran
      exact ⟨s,pair.1,there,preparesRefl s.nat,found,rfl⟩

/- The call gets to the block of a free nid unless it takes another one before. -/
theorem allocReturns (reads : ReadsClass fuel isMeta There) (there : There s) (kind : isMetaNid n = isMeta)
    (pending : Pending s.nat.file s.nat.nm n) (low : regionStart isMeta ≤ iblock) (inside : iblock + rounds ≤ regionEnd isMeta)
    (within : (∃ ne ∈ s.nat.nm.freeNat, ne.nid = n) ∨ iblock ≤ n / natEntryPerBlock ∧ n / natEntryPerBlock < iblock + rounds) :
    ∃ t ne, Fs.allocFreeNat (Fs.readRawNatBlock fuel) isMeta rounds iblock s = some (t,ne) := by
  induction rounds generalizing iblock s with
  | zero =>
    unfold Fs.allocFreeNat
    cases found : freeNatEmpty s.nat.nm isMeta with
    | some pair => exact ⟨_,_,rfl⟩
    | none =>
      rcases within with ⟨ne,member,named⟩ | ⟨_,_⟩
      · exact absurd (named ▸ kind) (freeEmptyNone found ne member)
      · omega
  | succ rounds ih =>
    unfold Fs.allocFreeNat
    cases found : freeNatEmpty s.nat.nm isMeta with
    | some pair => exact ⟨_,_,rfl⟩
    | none =>
      have unlisted : ¬∃ ne ∈ s.nat.nm.freeNat, ne.nid = n := by
        rintro ⟨ne,member,named⟩
        exact freeEmptyNone found ne member (named ▸ kind)
      obtain ⟨near,far⟩ := within.resolve_left unlisted
      obtain ⟨t,loaded,way,thereT⟩ := reads.comes s iblock there low (by omega)
      have passed := onTheWay way
      have pendingT := passed.pending n kind pending
      simp only [loaded,Option.bind_some]
      refine ih thereT (by rw [passed.file]; exact pendingT) (by omega) (by omega) ?_
      by_cases here : n / natEntryPerBlock = iblock
      · rcases pendingT with free | ⟨absent,high,_⟩
        · exact .inl free
        · exact absurd absent (rawBlockListed loaded high here)
      · exact .inr ⟨by omega,by omega⟩

theorem regionBound (kind : isMetaNid n = isMeta) (low : n / natEntryPerBlock < zitStart) :
    regionStart isMeta ≤ n / natEntryPerBlock ∧ n / natEntryPerBlock < regionEnd isMeta := by
  cases isMeta with
  | true => exact ⟨Nat.zero_le _,(natDiv n).mp kind⟩
  | false =>
    refine ⟨Nat.not_lt.mp fun bad => ?_,low⟩
    rw [(natDiv n).mpr bad] at kind
    cases kind

theorem regionWhole (isMeta : Bool) : regionStart isMeta ≤ regionEnd isMeta ∧ regionEnd isMeta ≤ zitStart := by
  cases isMeta <;> decide

theorem soundTaken {inodes : Set Nat} {known : Nat → Bool} {nm : NatInfo} (ok : FsOk inodes known s) (sound : MetaSound inodes s)
    (taken : freeNatEmpty s.nat.nm false = some (nm,ne)) (made : t = { s with nat := { s.nat with nm := nm } }) :
    FsOk inodes known t ∧ MetaSound inodes t := by
  obtain ⟨free,kind,_⟩ := @slotTake _ ne.nid _ _ _ ok.nat.distinct taken
  have slots : ∀ n, t.nat.nm.slot n = if ne.nid = n then some (true,ne) else s.nat.nm.slot n := by
    rw [made]
    exact fun n => (slotTake ok.nat.distinct taken).2.2
  have file : t.nat.file = s.nat.file := by rw [made]
  have addr : ∀ n, t.addr n = s.addr n := by
    intro n
    unfold Fs.addr
    rw [natAddrSlot,natAddrSlot,slots,file]
    by_cases same : ne.nid = n
    · rw [if_pos same,← same,free]
    · rw [if_neg same]
  have content : t.content = s.content := by
    funext n
    exact contentSame (by rw [made]) (by rw [made]) (addr n)
  have nat := (natOkTaken ok.nat taken).1
  have okT : FsOk inodes known t := by
    refine okSame ok content ?_ (fun entry there => ?_) ?_
    · rw [made]
      exact ⟨nat.distinct,nat.unused,fun n member => nat.used n (Bool.or_eq_true_iff.mpr (.inl member))⟩
    · rw [slots] at there
      split at there
      · cases there
      · exact ok.named entry there
    · rw [made]
      exact ok.fresh
  refine ⟨okT,?_,fun n entry there => ?_,content ▸ sound.placed,content ▸ sound.nodes,fun n high low notRoot apart => ?_,?_,?_⟩
  · obtain ⟨entry,there⟩ := sound.cached
    refine ⟨entry,?_⟩
    rw [slots,if_neg,there]
    intro same
    rw [same,there] at free
    cases free
  · rw [slots] at there
    split at there
    · cases there
    · exact sound.free n entry there
  · have other : ne.nid ≠ n := by
      rintro rfl
      rw [(natDiv _).mpr (low.trans (by decide))] at kind
      cases kind
    have before := sound.spare n high low notRoot (content ▸ apart)
    unfold SpareNid
    rw [slots,if_neg other,file]
    exact before
  · rw [content,file]
    exact sound.stored
  · rw [content,made]
    exact sound.pages

/- In a mount of the file system the blocks of the regular nids can be read, whatever nodes the
meta file lacks: these take metadata nids. -/
theorem soundReadable {inodes : Set Nat} {known : Nat → Bool} (metaIn : metaIno ∈ inodes) (enough : natFuel ≤ fuel)
    (ok : FsOk inodes known s) (sound : MetaSound inodes s) : Readable fuel false s := by
  refine ⟨fun s => (∃ known, FsOk inodes known s) ∧ MetaSound inodes s,⟨?_,?_⟩,⟨known,ok⟩,sound⟩
  · rintro s iblock ⟨⟨known,ok⟩,sound⟩ high low
    obtain ⟨f,rfl,fuelled⟩ := enoughFuel enough
    have range : iblock < natBlocks := low.trans (by decide)
    have unlocked : Unlocked [] iblock := ⟨by simp,by simp,fun _ => ⟨by simp,by simp⟩⟩
    obtain ⟨t,ends⟩ := @rawBlockEnds inodes known s [] metaIn iblock range unlocked defAddrsPerInode f le_rfl fuelled 0 ok sound
    obtain ⟨now,_,okT,_⟩ := rawBlockLoading metaIn (f + 1) known iblock s t ok ends.plain
    refine ⟨t,ends.plain,preparesMore ends.way fun event may => ?_,⟨now,okT⟩,ends.sound (.inr ⟨high,range⟩)⟩
    rcases may with direct | rfl
    · cases event with
      | load block => exact Nat.lt_trans direct (by decide)
      | alloc kind use => exact fun same => absurd (direct.symm.trans same) (by decide)
    · exact low
  · rintro s nm ne ⟨⟨known,ok⟩,sound⟩ taken
    obtain ⟨okT,soundT⟩ := soundTaken ok sound taken rfl
    exact ⟨⟨known,okT⟩,soundT⟩

end

section
variable {fuel : Nat} {s : Fs}

end

end Xcpfs
