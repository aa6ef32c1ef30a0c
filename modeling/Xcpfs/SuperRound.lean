import Xcpfs.NatPersist
import Xcpfs.SuperJournal

/-! The superblock from `init_cpsb` and `cp_append_nat` to `xcpfs_read_super`: the header, the
entries in the order of their appends, and the cache that is made of them. -/
namespace Xcpfs
open CBytes

/- The 32-bit fields of an entry, with a nid and an address. -/
structure Journaled (m : MetaNat) : Prop where
  named : m.nid ≠ 0
  placed : m.blockAddr ≠ 0
  nid : m.nid < 2 ^ 32
  ino : m.ino < 2 ^ 32
  blockAddr : m.blockAddr < 2 ^ 32

/- The 32-bit fields of `sbi` that `init_cpsb` copies. -/
structure SuperCounts.Words (sbi : SuperCounts) : Prop where
  rootIno : sbi.rootIno < 2 ^ 32
  metaIno : sbi.metaIno < 2 ^ 32
  nodeIno : sbi.nodeIno < 2 ^ 32
  natPageCount : sbi.natPageCount < 2 ^ 32
  zitPageCount : sbi.zitPageCount < 2 ^ 32
  ssaPageCount : sbi.ssaPageCount < 2 ^ 32

/- The page of `init_cpsb` after the appends. -/
def journalPage (s : CpJournal) (sbi : SuperCounts) (entries : List MetaNat) : Memory :=
  (entries.foldl CpJournal.appendNat (s.initCpsb sbi)).raw

section
variable {s : CpJournal} {sbi : SuperCounts} {m : MetaNat} {entries : List MetaNat}

theorem wordField {f : PackedField} {page : Memory} {n : Nat} (width : f.width = 4) (small : n < 2 ^ 32) :
    getField (putField page f n) f = n := by
  rw [getPutSame,width]
  exact Nat.mod_eq_of_lt small

theorem appendKeeps {f : PackedField} (apart : f.last ≤ 28 ∨ 30 ≤ f.offset ∧ f.last ≤ 30 + 13 * s.metaNatCnt) :
    getField (s.appendNat m).raw f = getField s.raw f := by
  unfold CpJournal.appendNat
  change getField (putField (putField (putField (putField s.raw (XcpfsSuperBlock.nid s.metaNatCnt) m.nid)
    (XcpfsSuperBlock.blockAddr s.metaNatCnt) m.blockAddr) (XcpfsSuperBlock.ino s.metaNatCnt) m.ino)
    XcpfsSuperBlock.metaNatCnt (s.metaNatCnt + 1)) f = getField s.raw f
  rw [getPutOther,getPutOther,getPutOther,getPutOther]
  · change 30 + 13 * s.metaNatCnt + 4 ≤ f.offset ∨ f.last ≤ 30 + 13 * s.metaNatCnt
    omega
  · change 30 + 13 * s.metaNatCnt + 9 + 4 ≤ f.offset ∨ f.last ≤ 30 + 13 * s.metaNatCnt + 9
    omega
  · change 30 + 13 * s.metaNatCnt + 5 + 4 ≤ f.offset ∨ f.last ≤ 30 + 13 * s.metaNatCnt + 5
    omega
  · change 28 + 2 ≤ f.offset ∨ f.last ≤ 28
    omega

theorem appendWrites (journaled : Journaled m) : metaNatOf (s.appendNat m).raw s.metaNatCnt = m := by
  have nid : getField (s.appendNat m).raw (XcpfsSuperBlock.nid s.metaNatCnt) = m.nid := by
    unfold CpJournal.appendNat
    change getField (putField (putField (putField (putField s.raw _ _) (XcpfsSuperBlock.blockAddr s.metaNatCnt) _)
      (XcpfsSuperBlock.ino s.metaNatCnt) _) XcpfsSuperBlock.metaNatCnt _) _ = _
    rw [getPutOther,getPutOther,getPutOther,wordField rfl journaled.nid]
    · change 30 + 13 * s.metaNatCnt + 9 + 4 ≤ 30 + 13 * s.metaNatCnt ∨ 30 + 13 * s.metaNatCnt + 4 ≤ 30 + 13 * s.metaNatCnt + 9
      omega
    · change 30 + 13 * s.metaNatCnt + 5 + 4 ≤ 30 + 13 * s.metaNatCnt ∨ 30 + 13 * s.metaNatCnt + 4 ≤ 30 + 13 * s.metaNatCnt + 5
      omega
    · change 28 + 2 ≤ 30 + 13 * s.metaNatCnt ∨ 30 + 13 * s.metaNatCnt + 4 ≤ 28
      omega
  have blockAddr : getField (s.appendNat m).raw (XcpfsSuperBlock.blockAddr s.metaNatCnt) = m.blockAddr := by
    unfold CpJournal.appendNat
    change getField (putField (putField (putField _ _ _) (XcpfsSuperBlock.ino s.metaNatCnt) _) XcpfsSuperBlock.metaNatCnt _) _ = _
    rw [getPutOther,getPutOther]
    · exact wordField rfl journaled.blockAddr
    · change 30 + 13 * s.metaNatCnt + 5 + 4 ≤ 30 + 13 * s.metaNatCnt + 9 ∨ _
      omega
    · change 28 + 2 ≤ 30 + 13 * s.metaNatCnt + 9 ∨ _
      omega
  have ino : getField (s.appendNat m).raw (XcpfsSuperBlock.ino s.metaNatCnt) = m.ino := by
    unfold CpJournal.appendNat
    change getField (putField (putField _ _ _) XcpfsSuperBlock.metaNatCnt _) _ = _
    rw [getPutOther]
    · exact wordField rfl journaled.ino
    · change 28 + 2 ≤ 30 + 13 * s.metaNatCnt + 5 ∨ _
      omega
  unfold metaNatOf
  rw [nid,ino,blockAddr]

theorem appendEarlier {i : Nat} (before : i < s.metaNatCnt) : metaNatOf (s.appendNat m).raw i = metaNatOf s.raw i := by
  unfold metaNatOf
  rw [appendKeeps,appendKeeps,appendKeeps]
  · change _ ∨ 30 ≤ 30 + 13 * i + 9 ∧ 30 + 13 * i + 9 + 4 ≤ 30 + 13 * s.metaNatCnt
    omega
  · change _ ∨ 30 ≤ 30 + 13 * i + 5 ∧ 30 + 13 * i + 5 + 4 ≤ 30 + 13 * s.metaNatCnt
    omega
  · change _ ∨ 30 ≤ 30 + 13 * i ∧ 30 + 13 * i + 4 ≤ 30 + 13 * s.metaNatCnt
    omega

/- What the page holds after the appends of a list. -/
structure Holds (s : CpJournal) (sbi : SuperCounts) (entries : List MetaNat) : Prop where
  magic : getField s.raw XcpfsSuperBlock.magic = xcpfsMagic
  counts : superCounts s.raw = { sbi with totalMetaPagaCount := sbi.natPageCount + sbi.zitPageCount + sbi.ssaPageCount }
  count : s.metaNatCnt = entries.length
  each : (List.range entries.length).map (metaNatOf s.raw) = entries

theorem initHolds (words : sbi.Words) : Holds (s.initCpsb sbi) sbi [] := by
  have field : ∀ {n : Nat} {f : PackedField}, f.width = 4 → n < 2 ^ 32 → n % 256 ^ f.width = n := by
    intro n f width small
    rw [width]
    exact Nat.mod_eq_of_lt small
  refine ⟨?_,?_,initCount s sbi,rfl⟩
  · simp (disch := decide) only [CpJournal.initCpsb,CpJournal.put,getPutOther,getPutSame]
    rfl
  · simp (disch := decide) only [superCounts,CpJournal.initCpsb,CpJournal.put,getPutOther,getPutSame]
    rw [field rfl words.rootIno,field rfl words.metaIno,field rfl words.nodeIno,field rfl words.natPageCount,
      field rfl words.zitPageCount,field rfl words.ssaPageCount]

theorem appendHolds (holds : Holds s sbi entries) (journaled : Journaled m) (room : entries.length < metaNatRoom) :
    Holds (s.appendNat m) sbi (entries ++ [m]) := by
  have header : ∀ {f : PackedField}, f.last ≤ 28 → getField (s.appendNat m).raw f = getField s.raw f :=
    fun low => appendKeeps (.inl low)
  refine ⟨?_,?_,?_,?_⟩
  · exact (header (by decide)).trans holds.magic
  · rw [← holds.counts]
    unfold superCounts
    rw [header (by decide),header (by decide),header (by decide),header (by decide),header (by decide),header (by decide)]
  · rw [appendNext m (holds.count ▸ room),holds.count,List.length_append,List.length_singleton]
  · rw [List.length_append,List.length_singleton,List.range_succ,List.map_append,List.map_singleton]
    have before : (List.range entries.length).map (metaNatOf (s.appendNat m).raw) = entries := by
      refine (List.map_congr_left fun i member => ?_).trans holds.each
      exact appendEarlier (holds.count ▸ List.mem_range.mp member)
    rw [before,← holds.count,appendWrites journaled]

theorem appendsHold (words : sbi.Words) (room : entries.length ≤ metaNatRoom) (journaled : ∀ m ∈ entries, Journaled m) :
    Holds (entries.foldl CpJournal.appendNat (s.initCpsb sbi)) sbi entries := by
  induction entries using List.reverseRecOn with
  | nil => exact initHolds words
  | append_singleton init last ih =>
    rw [List.length_append,List.length_singleton] at room
    rw [List.foldl_append]
    refine appendHolds (ih (by omega) fun m member => journaled m (List.mem_append_left _ member)) ?_ (by omega)
    exact journaled last (List.mem_append_right _ List.mem_cons_self)

theorem readJournal (holds : Holds s sbi entries) : (readSuperPage s.raw).2 = .ok () ∧
    (readSuperPage s.raw).1.sbi = { sbi with totalMetaPagaCount := sbi.natPageCount + sbi.zitPageCount + sbi.ssaPageCount } ∧
    (readSuperPage s.raw).1.nm = xcpfsReadNats entries := by
  obtain ⟨done,counts⟩ := readSuperRight holds.magic
  refine ⟨done,counts.trans holds.counts,?_⟩
  have count : getField s.raw XcpfsSuperBlock.metaNatCnt = entries.length := holds.count
  unfold readSuperPage
  rw [if_neg fun wrong => wrong holds.magic,count,(readEntries s.raw _ _).1,holds.each]
  rfl

theorem distinctFilter {list : List NatEntry} {ne : NatEntry} (distinct : (list.map NatEntry.nid).Nodup) (member : ne ∈ list) :
    list.filter (fun other => other.nid = ne.nid) = [ne] := by
  induction list with
  | nil => cases member
  | cons head rest ih =>
    rw [List.map_cons,List.nodup_cons] at distinct
    obtain ⟨alone,others⟩ := distinct
    rcases List.mem_cons.mp member with same | inside
    · subst same
      have none_ : rest.filter (fun other => other.nid = ne.nid) = [] := by
        refine List.filter_eq_nil_iff.mpr fun other here same => alone ?_
        exact List.mem_map.mpr ⟨other,here,of_decide_eq_true same⟩
      simp [none_]
    · have differ : head.nid ≠ ne.nid := fun same => alone (same ▸ List.mem_map_of_mem inside)
      rw [List.filter_cons_of_neg (by simpa using differ)]
      exact ih others inside

theorem journalLast (placed : ∀ m ∈ entries, m.blockAddr ≠ 0) (named : m.nid ≠ 0) (member : m ∈ entries) :
    ∃ last ne, lastMeta entries m.nid = some last ∧ ne.blockAddr = last.blockAddr ∧
      ((xcpfsReadNats entries).natList ++ (xcpfsReadNats entries).freeNat).filter (fun other => other.nid = m.nid) = [ne] := by
  have ok : MetaOk entries :=
    ⟨List.pairwise_iff_getElem.mpr fun i _ inside _ _ _ => placed _ (List.getElem_mem inside),fun m member _ _ => placed m member⟩
  obtain ⟨last,found⟩ : ∃ last, lastMeta entries m.nid = some last := by
    cases found : lastMeta entries m.nid with
    | none => exact absurd rfl (lastMetaNone.mp found m member)
    | some last => exact ⟨last,rfl⟩
  obtain ⟨_,_,used,ne,slot,address,_⟩ := (readSlot ok named).2 last found
  refine ⟨last,ne,found,address,?_⟩
  have listed : ne ∈ (xcpfsReadNats entries).natList ++ (xcpfsReadNats entries).freeNat := by
    cases used with
    | true => exact List.mem_append_left _ (List.mem_of_find?_eq_some (slotListed.mp slot))
    | false => exact List.mem_append_right _ (List.mem_of_find?_eq_some (slotFree.mp slot).2)
  rw [← slotNid slot]
  exact distinctFilter (readDistinct entries) listed

end

/-- For every list of appends that fits, with nids and addresses that are not zero, the page is
read back with its header and with one entry for each nid, at the address of its last append. -/
theorem superJournalRound (s : CpJournal) {sbi : SuperCounts} (words : sbi.Words) {entries : List MetaNat}
    (room : entries.length ≤ metaNatRoom) (journaled : ∀ m ∈ entries, Journaled m) :
    (readSuperPage (journalPage s sbi entries)).2 = .ok () ∧
      (readSuperPage (journalPage s sbi entries)).1.sbi =
        { sbi with totalMetaPagaCount := sbi.natPageCount + sbi.zitPageCount + sbi.ssaPageCount } ∧
      ∀ m ∈ entries, ∃ last ne, lastMeta entries m.nid = some last ∧ ne.blockAddr = last.blockAddr ∧
        ((readSuperPage (journalPage s sbi entries)).1.nm.natList ++ (readSuperPage (journalPage s sbi entries)).1.nm.freeNat).filter
          (fun other => other.nid = m.nid) = [ne] := by
  obtain ⟨done,counts,cache⟩ := readJournal (appendsHold (s := s) words room journaled)
  refine ⟨done,counts,fun m member => ?_⟩
  unfold journalPage
  rw [cache]
  exact journalLast (fun m here => (journaled m here).placed) (journaled m member).named member

/-- The journal of a checkpoint that moved the meta inode twice. -/
theorem superJournalRoundTwice :
    let entries : List MetaNat := [⟨1,1,800⟩,⟨3,3,900⟩,⟨1,1,801⟩]
    (readSuperPage (journalPage blankJournal ⟨3,1,2,0,0,0,0⟩ entries)).2 = .ok () ∧
      (readSuperPage (journalPage blankJournal ⟨3,1,2,0,0,0,0⟩ entries)).1.sbi = ⟨3,1,2,0,0,0,0⟩ ∧
      ∀ m ∈ entries, ∃ last ne, lastMeta entries m.nid = some last ∧ ne.blockAddr = last.blockAddr ∧
        ((readSuperPage (journalPage blankJournal ⟨3,1,2,0,0,0,0⟩ entries)).1.nm.natList ++
          (readSuperPage (journalPage blankJournal ⟨3,1,2,0,0,0,0⟩ entries)).1.nm.freeNat).filter
            (fun other => other.nid = m.nid) = [ne] := by
  have words : SuperCounts.Words ⟨3,1,2,0,0,0,0⟩ := ⟨by decide,by decide,by decide,by decide,by decide,by decide⟩
  have journaled : ∀ m ∈ ([⟨1,1,800⟩,⟨3,3,900⟩,⟨1,1,801⟩] : List MetaNat), Journaled m := by
    simp only [List.forall_mem_cons,List.not_mem_nil,false_implies,implies_true,and_true]
    exact ⟨⟨by decide,by decide,by decide,by decide,by decide⟩,⟨by decide,by decide,by decide,by decide,by decide⟩,
      ⟨by decide,by decide,by decide,by decide,by decide⟩⟩
  exact superJournalRound blankJournal words (by decide) journaled

end Xcpfs
