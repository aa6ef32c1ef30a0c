import Xcpfs.SuperLog
import Xcpfs.Lib.CBytes

/-! Directory pages of dir.c: one `xcpfs_dentry` a page, a 256-byte name field with
the ino right behind it. Pages are read and written through the page cache, and
every access succeeds. -/
namespace Xcpfs

open CBytes

def maxFnameLen : Nat := 256
def dentryIno : Nat := 256
def dentryNamelen : Nat := 260

structure Dir where
  page : Nat → Memory
  iSize : Int

/- `int npages = dir_pages(dir)`. -/
def Dir.npages (dir : Dir) : Nat := (toInt32 ((dir.iSize + (pageSize - 1)) / pageSize)).toNat

/- The names `xcpfs_lookup` lets through; the VFS resolves "." and ".." itself. -/
structure Name where
  bytes : List UInt8
  nonempty : bytes ≠ []
  fits : bytes.length ≤ maxFnameLen
  noNul : 0 ∉ bytes
  notDot : bytes ≠ [46]
  notDotDot : bytes ≠ [46,46]
  deriving DecidableEq

/- A nid that `alloc_free_nat` handed out. -/
structure Ino where
  val : Nat
  positive : 0 < val
  bound : val < 2 ^ 31

def entryIno (page : Memory) : Nat := decode32 page dentryIno
def entryNamelen (page : Memory) : Nat := decode32 page dentryNamelen

def sameName (name : List UInt8) (page : Memory) : Bool :=
  entryNamelen page = name.length && strcmp name page 0

/- `i_size` after `xcpfs_commit_write(page,page_offset(page),PAGE_SIZE)`; its `pos` is an int. -/
def sizeAfter (iSize : Int) (index : Nat) : Int :=
  let pos := toInt32 (index * pageSize)
  let last := toInt32 (pos + pageSize)
  if last > iSize then last else iSize

def commitWrite (dir : Dir) (index : Nat) (page : Memory) : Dir :=
  { page := Function.update dir.page index page, iSize := sizeAfter dir.iSize index }

def addScan (dir : Dir) (name : List UInt8) (npages : Nat) : Nat → Nat → Nat → Except Errno Nat
  | 0, _, tar => .ok tar
  | count + 1, i, tar =>
    let tar := if entryIno (dir.page i) = 0 ∧ tar = npages then i else tar
    if sameName name (dir.page i) then .error .eexist
    else addScan dir name npages count (i + 1) tar

def linkPage (page : Memory) (name : List UInt8) (ino : Nat) : Memory :=
  let page := store page dentryIno (encode32 ino)
  let page := strcpy page 0 name
  let page := store page dentryNamelen (encode32 name.length)
  store page dentryIno (encode32 ino)

def xcpfsAddLink (dir : Dir) (name : List UInt8) (ino : Nat) : Dir × Except Errno Unit :=
  match addScan dir name dir.npages dir.npages 0 dir.npages with
  | .error err => (dir,.error err)
  | .ok tar => (commitWrite dir tar (linkPage (dir.page tar) name ino),.ok ())

def findScan (dir : Dir) (name : List UInt8) : Nat → Nat → Option Nat
  | 0, _ => none
  | count + 1, i =>
    if entryIno (dir.page i) = 0 then findScan dir name count (i + 1)
    else if sameName name (dir.page i) then some i
    else findScan dir name count (i + 1)

def xcpfsFindEntry (dir : Dir) (name : List UInt8) : Option Nat := findScan dir name dir.npages 0

def xcpfsInodeByName (dir : Dir) (name : List UInt8) : Nat :=
  match xcpfsFindEntry dir name with
  | some i => entryIno (dir.page i)
  | none => 0

def clearPage (page : Memory) : Memory :=
  let page := store page dentryIno (encode32 0)
  let page := store page dentryNamelen (encode32 0)
  store page 0 (List.replicate maxFnameLen 0)

def xcpfsDeleteEntry (dir : Dir) (i : Nat) : Dir := commitWrite dir i (clearPage (dir.page i))

def xcpfsUnlink (dir : Dir) (name : List UInt8) : Dir × Except Errno Unit :=
  match xcpfsFindEntry dir name with
  | none => (dir,.error .enoent)
  | some i => (xcpfsDeleteEntry dir i,.ok ())

def xcpfsEmptyDir (child : Dir) : Bool :=
  (List.range' 2 (child.npages - 2)).all fun i => entryIno (child.page i) == 0

def xcpfsRmdir (dir child : Dir) (name : List UInt8) : Dir × Except Errno Unit :=
  if xcpfsEmptyDir child = false then (dir,.error .enotempty) else xcpfsUnlink dir name

/- `xcpfs_init_dir`; the image of mkfs holds the same two pages for the root. -/
def dotPage (ino : Nat) (name : List UInt8) : Memory :=
  let page := store (fun _ => 0) dentryIno (encode32 ino)
  let page := strcpy page 0 name
  store page dentryNamelen (encode32 name.length)

def xcpfsInitDir (ino : Nat) : Dir :=
  let dir : Dir := { page := fun _ _ => 0, iSize := 0 }
  let dir := commitWrite dir 0 (dotPage ino [46])
  commitWrite dir 1 (dotPage ino [46,46])

/- The first `namelen` bytes of the name field. -/
def entryName (page : Memory) : List UInt8 := take page 0 (entryNamelen page)

def Dir.Live (dir : Dir) (i : Nat) : Prop := i < dir.npages ∧ entryIno (dir.page i) ≠ 0

section
variable {dir : Dir} {name : List UInt8} {page : Memory} {ino : Nat}

theorem sameNameIff : sameName name page = true ↔ entryNamelen page = name.length ∧ strcmp name page 0 = true := by
  simp only [sameName,Bool.and_eq_true,decide_eq_true_eq]

theorem entryNameOf (same : sameName name page = true) : entryName page = name := by
  obtain ⟨length,text⟩ := sameNameIff.mp same
  rw [entryName,length,takeIff]
  exact (strcmpIff.mp text).1

/- A refused scan met the name; an accepted one answers the first free slot, or
`npages` when every slot is taken. -/
theorem addScanSpec (dir : Dir) (name : List UInt8) {npages count start tar : Nat} (free : tar = npages ∨ tar < npages ∧ entryIno (dir.page tar) = 0)
    (inside : start + count ≤ npages) :
    (addScan dir name npages count start tar = .error .eexist ∧
      ∃ i, start ≤ i ∧ i < start + count ∧ sameName name (dir.page i) = true) ∨
    (∃ found, addScan dir name npages count start tar = .ok found ∧
      (∀ i, start ≤ i → i < start + count → sameName name (dir.page i) = false) ∧
      (found = npages ∨ found < npages ∧ entryIno (dir.page found) = 0) ∧
      (found = npages → tar = npages ∧ ∀ i, start ≤ i → i < start + count → entryIno (dir.page i) ≠ 0)) := by
  induction count generalizing start tar with
  | zero => exact .inr ⟨tar,rfl,fun i low high => by omega,free,fun same => ⟨same,fun i low high => by omega⟩⟩
  | succ count ih =>
    unfold addScan
    generalize next : (if entryIno (dir.page start) = 0 ∧ tar = npages then start else tar) = tar'
    have free' : tar' = npages ∨ tar' < npages ∧ entryIno (dir.page tar') = 0 := by
      rw [← next]
      split
      case isTrue here => exact .inr ⟨by omega,here.1⟩
      case isFalse => exact free
    dsimp only
    cases same : sameName name (dir.page start) with
    | true => exact .inl ⟨rfl,start,Nat.le_refl _,by omega,same⟩
    | false =>
      rw [if_neg Bool.false_ne_true]
      obtain ⟨ran,i,low,high,here⟩ | ⟨found,ran,none,slot,full⟩ := ih free' (by omega : start + 1 + count ≤ npages)
      · exact .inl ⟨ran,i,by omega,by omega,here⟩
      · refine .inr ⟨found,ran,?_,slot,?_⟩
        · intro i low high
          cases Nat.eq_or_lt_of_le low with
          | inl here => rw [← here,same]
          | inr above => exact none i above (by omega)
        · intro last
          obtain ⟨kept,taken⟩ := full last
          have head : entryIno (dir.page start) ≠ 0 ∧ tar = npages := by
            rw [← next] at kept
            split at kept
            case isTrue here => omega
            case isFalse here => exact ⟨fun zero => here ⟨zero,kept⟩,kept⟩
          refine ⟨head.2,?_⟩
          intro i low high
          cases Nat.eq_or_lt_of_le low with
          | inl here => rw [← here]; exact head.1
          | inr above => exact taken i above (by omega)

theorem findScanFound {count start i : Nat} (found : findScan dir name count start = some i) :
    start ≤ i ∧ i < start + count ∧ entryIno (dir.page i) ≠ 0 ∧ sameName name (dir.page i) = true := by
  induction count generalizing start with
  | zero => cases found
  | succ count ih =>
    unfold findScan at found
    split at found
    case isTrue => obtain ⟨low,high,rest⟩ := ih found; exact ⟨by omega,by omega,rest⟩
    case isFalse live =>
      split at found
      case isTrue same =>
        cases found
        exact ⟨Nat.le_refl _,by omega,live,same⟩
      case isFalse => obtain ⟨low,high,rest⟩ := ih found; exact ⟨by omega,by omega,rest⟩

theorem findScanMissed {count start : Nat} (missed : findScan dir name count start = none) (i : Nat)
    (low : start ≤ i) (high : i < start + count) (live : entryIno (dir.page i) ≠ 0) :
    sameName name (dir.page i) = false := by
  induction count generalizing start with
  | zero => omega
  | succ count ih =>
    unfold findScan at missed
    split at missed
    case isTrue free =>
      cases Nat.eq_or_lt_of_le low with
      | inl here => exact absurd (here ▸ free) live
      | inr above => exact ih missed above (by omega)
    case isFalse =>
      split at missed
      case isTrue => cases missed
      case isFalse other =>
        cases Nat.eq_or_lt_of_le low with
        | inl here => rw [← here]; exact Bool.eq_false_iff.mpr other
        | inr above => exact ih missed above (by omega)

end

section
variable (page : Memory) (name : List UInt8) (ino : Nat)

theorem linkPageIno (word : ino < 2 ^ 32) : entryIno (linkPage page name ino) = ino := decodeStored word

theorem linkPageNamelen (fits : name.length ≤ maxFnameLen) : entryNamelen (linkPage page name ino) = name.length := by
  have outside : decode32 (linkPage page name ino) dentryNamelen =
      decode32 (store (strcpy (store page dentryIno (encode32 ino)) 0 name) dentryNamelen (encode32 name.length))
        dentryNamelen := decodeOutside (.inr (Nat.le_refl _))
  rw [entryNamelen,outside]
  exact decodeStored (by unfold maxFnameLen at fits; omega)

theorem linkPageByte {i : Nat} (inside : i < dentryIno) : linkPage page name ino i = strcpy (store page dentryIno (encode32 ino)) 0 name i := by
  unfold linkPage
  rw [storeOutside (.inl inside),storeOutside (.inl (Nat.lt_trans inside (by decide)))]

theorem linkPageText {i : Nat} (fits : name.length ≤ maxFnameLen) (inside : i < name.length) :
    linkPage page name ino i = name[i] := by
  have byte := strcpyByte (store page dentryIno (encode32 ino)) 0 inside
  rw [Nat.zero_add] at byte
  rw [linkPageByte page name ino (Nat.lt_of_lt_of_le inside fits),byte]

theorem linkPageName (fits : name.length ≤ maxFnameLen) : entryName (linkPage page name ino) = name := by
  rw [entryName,linkPageNamelen page name ino fits,takeIff]
  intro i inside
  rw [Nat.zero_add,linkPageText page name ino fits inside]

theorem linkPageEnd (fits : name.length ≤ maxFnameLen) :
    linkPage page name ino name.length = 0 ↔ name.length < maxFnameLen ∨ ino % 256 = 0 := by
  cases Nat.eq_or_lt_of_le fits with
  | inl longest =>
    have byte : linkPage page name ino dentryIno = UInt8.ofNat ino :=
      storeInside (i := 0) (by simp [encode32])
    have here : name.length = dentryIno := longest
    rw [here,byte,← UInt8.toNat_inj]
    simp [dentryIno,maxFnameLen]
  | inr short =>
    have last := strcpyEnd (store page dentryIno (encode32 ino)) 0 name
    rw [Nat.zero_add] at last
    rw [linkPageByte page name ino short,last]
    exact iff_of_true rfl (.inl short)

theorem linkPageSame (fits : name.length ≤ maxFnameLen) :
    sameName name (linkPage page name ino) = true ↔ name.length < maxFnameLen ∨ ino % 256 = 0 := by
  rw [sameNameIff,strcmpIff,linkPageNamelen page name ino fits,Nat.zero_add,linkPageEnd page name ino fits]
  constructor
  · intro same
    exact same.2.2
  · intro last
    refine ⟨rfl,?_,last⟩
    intro i inside
    rw [Nat.zero_add,linkPageText page name ino fits inside]

theorem dotPageIno (word : ino < 2 ^ 32) (short : name.length < maxFnameLen) : entryIno (dotPage ino name) = ino := by
  have below : 0 + (name ++ [0]).length ≤ dentryIno := by
    simp only [List.length_append,List.length_singleton,Nat.zero_add]
    exact short
  unfold dotPage entryIno
  rw [decodeOutside (.inl (by decide)),strcpy,decodeOutside (.inr below)]
  exact decodeStored word

theorem dotPageName (short : name.length < maxFnameLen) : entryName (dotPage ino name) = name := by
  have length : entryNamelen (dotPage ino name) = name.length :=
    decodeStored (Nat.lt_trans short (by decide))
  rw [entryName,length,takeIff]
  intro i inside
  have byte := strcpyByte (store (fun _ => 0) dentryIno (encode32 ino)) 0 inside
  unfold dotPage
  rw [storeOutside (.inl (by unfold dentryNamelen; unfold maxFnameLen at short; omega)),byte]

theorem clearPageIno : entryIno (clearPage page) = 0 := by
  unfold clearPage entryIno
  rw [decodeOutside (.inr (by rw [List.length_replicate]; decide)),decodeOutside (.inl (by decide))]
  exact decodeStored (by decide)

theorem clearPageNamelen : entryNamelen (clearPage page) = 0 := by
  unfold clearPage entryNamelen
  rw [decodeOutside (.inr (by rw [List.length_replicate]; decide))]
  exact decodeStored (by decide)

end

end Xcpfs
