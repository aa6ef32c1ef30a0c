import Xcpfs.Lib.CBytes
import Xcpfs.Prepare
import Xcpfs.SuperLog

/-! The loop of `xcpfs_read_super` over the bytes of the superblock page. Its bound is a count
that the page holds, so the entries it takes are as many as the page says; bytes behind the
page are whatever memory has there. -/
namespace Xcpfs
open CBytes

/- The packed `struct xcpfs_super_block` and its `meta_nat` entries. -/
namespace XcpfsSuperBlock

def magic : PackedField := ⟨0,4⟩
def rootIno : PackedField := ⟨4,4⟩
def metaIno : PackedField := ⟨8,4⟩
def nodeIno : PackedField := ⟨12,4⟩
def natPageCount : PackedField := ⟨16,4⟩
def zitPageCount : PackedField := ⟨20,4⟩
def ssaPageCount : PackedField := ⟨24,4⟩
def metaNatCnt : PackedField := ⟨28,2⟩

def metaNat (i : Nat) : PackedField := ⟨superBlockSize + natEntrySbSize * i,natEntrySbSize⟩
def nid (i : Nat) : PackedField := ⟨(metaNat i).offset,4⟩
def ino (i : Nat) : PackedField := ⟨(metaNat i).offset + 5,4⟩
def blockAddr (i : Nat) : PackedField := ⟨(metaNat i).offset + 9,4⟩

end XcpfsSuperBlock

structure SuperCounts where
  rootIno : Nat
  metaIno : Nat
  nodeIno : Nat
  natPageCount : Nat
  zitPageCount : Nat
  ssaPageCount : Nat
  totalMetaPagaCount : Nat
  deriving DecidableEq, Repr

/- What the function fills, with the entries of the page it has looked at. -/
structure SuperRead where
  sbi : SuperCounts
  nm : NatInfo
  looked : List PackedField

def metaNatOf (page : Memory) (i : Nat) : MetaNat :=
  ⟨getField page (XcpfsSuperBlock.nid i),getField page (XcpfsSuperBlock.ino i),getField page (XcpfsSuperBlock.blockAddr i)⟩

def readSuperEntry (page : Memory) (s : SuperRead) (i : Nat) : SuperRead :=
  { s with nm := readMetaNat s.nm (metaNatOf page i), looked := s.looked ++ [XcpfsSuperBlock.metaNat i] }

def superCounts (page : Memory) : SuperCounts where
  rootIno := getField page XcpfsSuperBlock.rootIno
  metaIno := getField page XcpfsSuperBlock.metaIno
  nodeIno := getField page XcpfsSuperBlock.nodeIno
  natPageCount := getField page XcpfsSuperBlock.natPageCount
  zitPageCount := getField page XcpfsSuperBlock.zitPageCount
  ssaPageCount := getField page XcpfsSuperBlock.ssaPageCount
  totalMetaPagaCount := getField page XcpfsSuperBlock.natPageCount + getField page XcpfsSuperBlock.zitPageCount +
    getField page XcpfsSuperBlock.ssaPageCount

/-- `xcpfs_read_super` from the page it grabbed; the cache is the empty one of `xcpfs_init_nat_info`. -/
def readSuperPage (page : Memory) : SuperRead × Except Errno Unit :=
  if getField page XcpfsSuperBlock.magic ≠ xcpfsMagic then (⟨⟨0,0,0,0,0,0,0⟩,⟨[],[]⟩,[]⟩,.error .eio)
  else
    ((List.range (getField page XcpfsSuperBlock.metaNatCnt)).foldl (readSuperEntry page) ⟨superCounts page,⟨[],[]⟩,[]⟩,.ok ())

/- No entry is looked at behind the page, and the cache has every nid once and nid 0 never. -/
structure ParsesSafely (page : Memory) : Prop where
  inside : ∀ field ∈ (readSuperPage page).1.looked, field.last ≤ pageSize
  distinct : (readSuperPage page).1.nm.Distinct
  named : ∀ ne ∈ (readSuperPage page).1.nm.natList ++ (readSuperPage page).1.nm.freeNat, ne.nid ≠ 0

section
variable {page : Memory}

theorem readEntries (page : Memory) (indices : List Nat) (s : SuperRead) :
    (indices.foldl (readSuperEntry page) s).nm = (indices.map (metaNatOf page)).foldl readMetaNat s.nm ∧
      (indices.foldl (readSuperEntry page) s).looked = s.looked ++ indices.map XcpfsSuperBlock.metaNat := by
  induction indices generalizing s with
  | nil => exact ⟨rfl,(List.append_nil _).symm⟩
  | cons i rest ih =>
    obtain ⟨cache,looked⟩ := ih (readSuperEntry page s i)
    refine ⟨cache,looked.trans ?_⟩
    exact List.append_assoc s.looked [XcpfsSuperBlock.metaNat i] _

theorem readEntriesSbi (page : Memory) (indices : List Nat) (s : SuperRead) : (indices.foldl (readSuperEntry page) s).sbi = s.sbi := by
  induction indices generalizing s with
  | nil => rfl
  | cons i rest ih => exact ih _

theorem readSuperRight (magic : getField page XcpfsSuperBlock.magic = xcpfsMagic) :
    (readSuperPage page).2 = .ok () ∧ (readSuperPage page).1.sbi = superCounts page := by
  unfold readSuperPage
  rw [if_neg fun wrong => wrong magic]
  exact ⟨rfl,readEntriesSbi page _ _⟩

theorem readSuperWrong (wrong : getField page XcpfsSuperBlock.magic ≠ xcpfsMagic) : (readSuperPage page).2 = .error .eio := by
  unfold readSuperPage
  rw [if_pos wrong]

/- The cache is that of a list of entries, whatever the page says. -/
theorem readSuperCache (page : Memory) : ∃ metaNat, (readSuperPage page).1.nm = xcpfsReadNats metaNat := by
  unfold readSuperPage
  split
  · exact ⟨[],rfl⟩
  · exact ⟨_,(readEntries page _ _).1⟩

theorem unnamedEntry {nm : NatInfo} (unnamed : nm.slot 0 = none) : ∀ ne ∈ nm.natList ++ nm.freeNat, ne.nid ≠ 0 := by
  intro ne member zero
  have absent := slotNone.mp unnamed
  unfold NatInfo.lookup at absent
  obtain ⟨listed,free⟩ := Option.or_eq_none_iff.mp absent
  rcases List.mem_append.mp member with member | member
  · exact List.find?_eq_none.mp listed ne member (decide_eq_true zero)
  · exact List.find?_eq_none.mp free ne member (decide_eq_true zero)

theorem looksAt (magic : getField page XcpfsSuperBlock.magic = xcpfsMagic) :
    (readSuperPage page).1.looked = (List.range (getField page XcpfsSuperBlock.metaNatCnt)).map XcpfsSuperBlock.metaNat := by
  unfold readSuperPage
  rw [if_neg fun wrong => wrong magic]
  exact (readEntries page _ _).2

theorem entryInside (i : Nat) : (XcpfsSuperBlock.metaNat i).last ≤ pageSize ↔ i < metaNatRoom := by
  change 30 + 13 * i + 13 ≤ 4096 ↔ i < 312
  omega

/-- A page with the right magic is parsed inside its bytes if and only if its count is at most
312; what the cache has to keep is kept for every count. -/
theorem superParsesSafely (page : Memory) : ParsesSafely page ↔
    (getField page XcpfsSuperBlock.magic = xcpfsMagic → getField page XcpfsSuperBlock.metaNatCnt ≤ metaNatRoom) := by
  constructor
  · intro safe magic
    by_contra large
    have member : XcpfsSuperBlock.metaNat metaNatRoom ∈ (readSuperPage page).1.looked := by
      rw [looksAt magic]
      exact List.mem_map_of_mem (List.mem_range.mpr (Nat.not_le.mp large))
    exact absurd ((entryInside metaNatRoom).mp (safe.inside _ member)) (lt_irrefl _)
  · intro counted
    obtain ⟨metaNat,cache⟩ := readSuperCache page
    constructor
    · intro field member
      by_cases magic : getField page XcpfsSuperBlock.magic = xcpfsMagic
      · rw [looksAt magic] at member
        obtain ⟨i,below,rfl⟩ := List.mem_map.mp member
        exact (entryInside i).mpr ((List.mem_range.mp below).trans_le (counted magic))
      · unfold readSuperPage at member
        rw [if_pos magic] at member
        cases member
    · rw [cache]
      exact readDistinct metaNat
    · rw [cache]
      exact unnamedEntry (readUnnamed metaNat)

end

/- A page with the magic, 65535 entries and nothing else. -/
def countedPage : Memory := putField (putField (fun _ => 0) XcpfsSuperBlock.magic xcpfsMagic) XcpfsSuperBlock.metaNatCnt 65535

/-- The last of its entries starts at byte 851972. -/
theorem parseOverruns : XcpfsSuperBlock.metaNat 65534 ∈ (readSuperPage countedPage).1.looked ∧
    (XcpfsSuperBlock.metaNat 65534).offset = 851972 ∧ ¬ParsesSafely countedPage := by
  have magic : getField countedPage XcpfsSuperBlock.magic = xcpfsMagic := by decide
  have count : getField countedPage XcpfsSuperBlock.metaNatCnt = 65535 := by decide
  have member : XcpfsSuperBlock.metaNat 65534 ∈ (readSuperPage countedPage).1.looked := by
    rw [looksAt magic,count]
    exact List.mem_map_of_mem (List.mem_range.mpr (by decide))
  refine ⟨member,rfl,fun safe => ?_⟩
  exact absurd (safe.inside _ member) (by decide)

end Xcpfs
