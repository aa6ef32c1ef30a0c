import Xcpfs.Layout

/-! The NAT cache of nat_mgmt.c: a list of entries in use and a list of free ones,
newest first. An entry that is not cached is read from its NAT block of the meta file, which is
there as it is; the lookups and new nodes that reading one takes come with the mount (Prepare). -/
namespace Xcpfs

structure NatEntry where
  pinned : Bool
  dirty : Bool
  nid : Nat
  ino : Nat
  blockAddr : Nat
  deriving DecidableEq, Repr

structure RawNat where
  ino : Nat
  blockAddr : Nat
  deriving DecidableEq, Repr

abbrev NatBlock := Nat → RawNat

/-- The NAT blocks of the meta file by block index. -/
abbrev NatFile := Nat → NatBlock

def NatFile.raw (file : NatFile) (nid : Nat) : RawNat := file (nid / natEntryPerBlock) (nid % natEntryPerBlock)

def NatFile.write (file : NatFile) (nid : Nat) (raw : RawNat) : NatFile :=
  Function.update file (nid / natEntryPerBlock)
    (Function.update (file (nid / natEntryPerBlock)) (nid % natEntryPerBlock) raw)

structure NatInfo where
  natList : List NatEntry
  freeNat : List NatEntry

namespace NatInfo

def listed (nm : NatInfo) (nid : Nat) : Option NatEntry := nm.natList.find? fun ne => ne.nid = nid

def free (nm : NatInfo) (nid : Nat) : Option NatEntry := nm.freeNat.find? fun ne => ne.nid = nid

/-- `__lookup_nat`. -/
def lookup (nm : NatInfo) (nid : Nat) : Option NatEntry := (nm.listed nid).or (nm.free nid)

end NatInfo

/-- `insert_nat`: the argument `dirty` is not used, an entry starts clean. -/
def insertNat (nm : NatInfo) (nid ino blkaddr : Nat) (pinned _dirty : Bool) : NatInfo × Except Errno Unit :=
  let ne : NatEntry := ⟨pinned,false,nid,ino,blkaddr⟩
  match nm.lookup nid with
  | some _ => (nm,.error .eexist)
  | none =>
    if blkaddr ≠ 0 then ({ nm with natList := ne :: nm.natList },.ok ())
    else ({ nm with freeNat := ne :: nm.freeNat },.ok ())

/-- `update_nat`: only entries in use are found, and only a new address counts. -/
def updateNat (nm : NatInfo) (nid newBlkaddr : Nat) (pinned : Bool) : NatInfo × Except Errno Unit :=
  match nm.listed nid with
  | none => (nm,.error .enokey)
  | some ne =>
    if ne.blockAddr ≠ newBlkaddr then
      ({ nm with natList := { ne with blockAddr := newBlkaddr, pinned := pinned, dirty := true } ::
        nm.natList.eraseP fun ne => ne.nid = nid },.ok ())
    else (nm,.ok ())

def insertBlock (nm : NatInfo) (rawNats : NatBlock) (iblock : Nat) : NatInfo :=
  (List.range natEntryPerBlock).foldl (fun nm i =>
    if iblock * natEntryPerBlock + i < 3 then nm
    else (insertNat nm (iblock * natEntryPerBlock + i) (rawNats i).ino (rawNats i).blockAddr false false).1) nm

/-- `lookup_nat`; a nid below 3 that is not cached stays unknown. -/
def lookupNat (file : NatFile) (nm : NatInfo) (nid : Nat) : NatInfo × Option NatEntry :=
  match nm.lookup nid with
  | some ne => (nm,some ne)
  | none =>
    let nm := insertBlock nm (file (nid / natEntryPerBlock)) (nid / natEntryPerBlock)
    (nm,nm.lookup nid)

/- A write through the pointer to the entry of a nid. -/
def modifyFirst (nid : Nat) (f : NatEntry → NatEntry) : List NatEntry → List NatEntry
  | [] => []
  | ne :: rest => if ne.nid = nid then f ne :: rest else ne :: modifyFirst nid f rest

def NatInfo.modify (nm : NatInfo) (nid : Nat) (f : NatEntry → NatEntry) : NatInfo :=
  match nm.listed nid with
  | some _ => { nm with natList := modifyFirst nid f nm.natList }
  | none => { nm with freeNat := modifyFirst nid f nm.freeNat }

def NatEntry.invalidated (ne : NatEntry) : NatEntry :=
  { ne with dirty := true, ino := 0, blockAddr := 0, pinned := false }

def invalidateNat (file : NatFile) (nm : NatInfo) (nid : Nat) : NatInfo × Except Errno Unit :=
  match lookupNat file nm nid with
  | (nm,none) => (nm,.error .enoent)
  | (nm,some _) => (nm.modify nid NatEntry.invalidated,.ok ())

def freeNatEmpty (nm : NatInfo) (isMeta : Bool) : Option (NatInfo × NatEntry) :=
  (nm.freeNat.find? fun ne => isMetaNid ne.nid = isMeta).map fun ne =>
    ({ natList := ne :: nm.natList, freeNat := nm.freeNat.eraseP fun ne => isMetaNid ne.nid = isMeta },ne)

/-- The loop of `alloc_free_nat` from NAT block `iblock` on; `rounds` bounds the
blocks it reads. -/
def allocRounds (file : NatFile) (isMeta : Bool) : (rounds iblock : Nat) → NatInfo → Option (NatInfo × NatEntry)
  | 0,_,nm => freeNatEmpty nm isMeta
  | rounds + 1,iblock,nm =>
    match freeNatEmpty nm isMeta with
    | some found => some found
    | none => allocRounds file isMeta rounds (iblock + 1) (insertBlock nm (file iblock) iblock)

def allocFreeNat (file : NatFile) (nm : NatInfo) (isMeta : Bool) (rounds : Nat) : Option (NatInfo × NatEntry) :=
  allocRounds file isMeta rounds (if isMeta then 0 else regNatStart) nm

/- Where the cache has a nid: in use or free. -/
def NatInfo.slot (nm : NatInfo) (nid : Nat) : Option (Bool × NatEntry) :=
  ((nm.listed nid).map (true,·)).or ((nm.free nid).map (false,·))

/- No nid has two entries. -/
def NatInfo.Distinct (nm : NatInfo) : Prop := ((nm.natList ++ nm.freeNat).map NatEntry.nid).Nodup

section
variable {nm : NatInfo} {nid n : Nat} {ne : NatEntry}

theorem findNid {list : List NatEntry} (found : list.find? (fun ne => ne.nid = nid) = some ne) : ne.nid = nid := by
  have same := List.find?_some found
  simpa only [decide_eq_true_eq] using same

theorem slotListed : nm.slot nid = some (true,ne) ↔ nm.listed nid = some ne := by
  unfold NatInfo.slot
  cases nm.listed nid with
  | none => cases nm.free nid <;> simp
  | some found => simp

theorem slotFree : nm.slot nid = some (false,ne) ↔ nm.listed nid = none ∧ nm.free nid = some ne := by
  unfold NatInfo.slot
  cases nm.listed nid with
  | none => cases nm.free nid <;> simp
  | some found => simp

theorem slotNone : nm.slot nid = none ↔ nm.lookup nid = none := by
  unfold NatInfo.slot NatInfo.lookup
  cases nm.listed nid <;> cases nm.free nid <;> simp

theorem lookupSlot : nm.lookup nid = (nm.slot nid).map Prod.snd := by
  unfold NatInfo.slot NatInfo.lookup
  cases nm.listed nid <;> cases nm.free nid <;> simp

theorem slotNid {used : Bool} (here : nm.slot nid = some (used,ne)) : ne.nid = nid := by
  cases used with
  | true => exact findNid (slotListed.mp here)
  | false => exact findNid (slotFree.mp here).2

theorem rawWrite (file : NatFile) (raw : RawNat) : (file.write nid raw).raw n = if nid = n then raw else file.raw n := by
  unfold NatFile.write NatFile.raw
  by_cases same : nid = n
  · rw [if_pos same,same,Function.update_self,Function.update_self]
  · rw [if_neg same]
    by_cases block : n / natEntryPerBlock = nid / natEntryPerBlock
    · rw [block,Function.update_self,Function.update_of_ne]
      intro offset
      rw [← Nat.div_add_mod nid natEntryPerBlock,← Nat.div_add_mod n natEntryPerBlock,block,offset] at same
      exact same rfl
    · rw [Function.update_of_ne block]

theorem slotConsListed (rest : List NatEntry) (other : List NatEntry) :
    NatInfo.slot ⟨ne :: rest,other⟩ n = if ne.nid = n then some (true,ne) else NatInfo.slot ⟨rest,other⟩ n := by
  unfold NatInfo.slot NatInfo.listed NatInfo.free
  by_cases same : ne.nid = n
  · simp [same]
  · simp [same]

theorem slotConsFree (rest : List NatEntry) (list : List NatEntry) (unlisted : (NatInfo.mk list rest).listed ne.nid = none) :
    NatInfo.slot ⟨list,ne :: rest⟩ n = if ne.nid = n then some (false,ne) else NatInfo.slot ⟨list,rest⟩ n := by
  by_cases same : ne.nid = n
  · subst same
    rw [if_pos rfl]
    exact slotFree.mpr ⟨unlisted,by simp [NatInfo.free]⟩
  · simp [NatInfo.slot,NatInfo.listed,NatInfo.free,same]

theorem slotInsert (ino blkaddr : Nat) (pinned dirty : Bool) :
    (insertNat nm nid ino blkaddr pinned dirty).1.slot n =
      if nid = n ∧ nm.slot nid = none then some (decide (blkaddr ≠ 0),⟨pinned,false,nid,ino,blkaddr⟩) else nm.slot n := by
  unfold insertNat
  cases cached : nm.lookup nid with
  | some ne =>
    have used : nm.slot nid ≠ none := fun none_ => by rw [slotNone.mp none_] at cached; contradiction
    rw [if_neg fun both => used both.2]
  | none =>
    have unlisted : nm.listed nid = none := (Option.or_eq_none_iff.mp cached).1
    have absent := slotNone.mpr cached
    by_cases zero : blkaddr ≠ 0
    · simp only [zero,not_false_eq_true,if_true,slotConsListed,absent,and_true,decide_true,ne_eq]
    · have none_ : (NatInfo.mk nm.natList nm.freeNat).listed (NatEntry.mk pinned false nid ino blkaddr).nid = none := unlisted
      simp only [zero,if_false,slotConsFree _ _ none_,absent,and_true,decide_false]

theorem findErase {list : List NatEntry} {p : NatEntry → Bool} (first : list.find? p = some ne) (other : ne.nid ≠ n) :
    (list.eraseP p).find? (fun ne => ne.nid = n) = list.find? fun ne => ne.nid = n := by
  induction list with
  | nil => rfl
  | cons head rest ih =>
    cases hit : p head with
    | true =>
      rw [List.find?_cons_of_pos hit] at first
      cases first
      rw [List.eraseP_cons_of_pos hit,List.find?_cons_of_neg (by simpa using other)]
    | false =>
      have skip : ¬ p head = true := by rw [hit]; exact Bool.false_ne_true
      rw [List.find?_cons_of_neg skip] at first
      rw [List.eraseP_cons_of_neg skip,List.find?_cons,List.find?_cons,ih first]

theorem slotUpdate (newBlkaddr : Nat) (pinned : Bool) :
    (updateNat nm nid newBlkaddr pinned).1.slot n =
      match nm.listed nid with
      | none => nm.slot n
      | some ne => if nid = n ∧ ne.blockAddr ≠ newBlkaddr
          then some (true,{ ne with blockAddr := newBlkaddr, pinned := pinned, dirty := true }) else nm.slot n := by
  unfold updateNat
  cases found : nm.listed nid with
  | none => rfl
  | some ne =>
    have named := findNid found
    by_cases new : ne.blockAddr ≠ newBlkaddr
    · simp only [new,ne_eq,not_false_eq_true,if_true,slotConsListed,named,and_true]
      by_cases same : nid = n
      · rw [if_pos same,if_pos same]
      · rw [if_neg same,if_neg same]
        simp only [NatInfo.slot,NatInfo.listed,NatInfo.free,findErase found (fun bad => same (named.symm.trans bad))]
    · simp only [new,if_false,and_false]

theorem findModify {list : List NatEntry} {f : NatEntry → NatEntry} (keeps : ∀ ne, (f ne).nid = ne.nid) :
    (modifyFirst nid f list).find? (fun ne => ne.nid = n) =
      if nid = n then (list.find? fun ne => ne.nid = n).map f else list.find? fun ne => ne.nid = n := by
  induction list with
  | nil => simp [modifyFirst]
  | cons head rest ih =>
    unfold modifyFirst
    by_cases here : head.nid = nid
    · rw [if_pos here]
      by_cases same : nid = n
      · simp [keeps,here,same]
      · simp [keeps,here,same]
    · rw [if_neg here]
      by_cases hit : head.nid = n
      · have other : nid ≠ n := fun same => here (hit.trans same.symm)
        simp [hit,other]
      · simp only [List.find?_cons,hit,decide_false,ih]

theorem slotModify {f : NatEntry → NatEntry} (keeps : ∀ ne, (f ne).nid = ne.nid) :
    (nm.modify nid f).slot n = if nid = n then (nm.slot n).map (fun (used,ne) => (used,f ne)) else nm.slot n := by
  unfold NatInfo.modify
  by_cases same : nid = n
  · subst same
    rw [if_pos rfl]
    cases found : nm.listed nid with
    | some ne =>
      have modified : NatInfo.listed ⟨modifyFirst nid f nm.natList,nm.freeNat⟩ nid = some (f ne) := by
        unfold NatInfo.listed
        rw [findModify keeps,if_pos rfl]
        exact congrArg (Option.map f) found
      rw [slotListed.mpr found]
      exact slotListed.mpr modified
    | none =>
      have modified : NatInfo.free ⟨nm.natList,modifyFirst nid f nm.freeNat⟩ nid = (nm.free nid).map f := by
        unfold NatInfo.free
        rw [findModify keeps,if_pos rfl]
      have unlisted : NatInfo.listed ⟨nm.natList,modifyFirst nid f nm.freeNat⟩ nid = none := found
      unfold NatInfo.slot
      rw [modified,unlisted,found]
      cases nm.free nid <;> rfl
  · rw [if_neg same]
    cases nm.listed nid with
    | some ne => simp only [NatInfo.slot,NatInfo.listed,NatInfo.free,findModify keeps,if_neg same]
    | none => simp only [NatInfo.slot,NatInfo.listed,NatInfo.free,findModify keeps,if_neg same]

/- What a NAT block says about a nid. -/
def RawNat.slot (raw : RawNat) (nid : Nat) : Bool × NatEntry := (decide (raw.blockAddr ≠ 0),⟨false,false,nid,raw.ino,raw.blockAddr⟩)

theorem slotInsertSome (rawNats : NatBlock) (iblock : Nat) (offsets : List Nat) (bound : ∀ i ∈ offsets, i < natEntryPerBlock) (nm : NatInfo) :
    (offsets.foldl (fun nm i => if iblock * natEntryPerBlock + i < 3 then nm
      else (insertNat nm (iblock * natEntryPerBlock + i) (rawNats i).ino (rawNats i).blockAddr false false).1) nm).slot n =
      (nm.slot n).or (if 3 ≤ n ∧ n / natEntryPerBlock = iblock ∧ n % natEntryPerBlock ∈ offsets
        then some ((rawNats (n % natEntryPerBlock)).slot n) else none) := by
  induction offsets generalizing nm with
  | nil => simp
  | cons i rest ih =>
    rw [List.foldl_cons,ih (fun j member => bound j (List.mem_cons_of_mem _ member))]
    have small := bound i List.mem_cons_self
    by_cases here : iblock * natEntryPerBlock + i = n
    · have div : n / natEntryPerBlock = iblock := by
        rw [natEntryPerBlockValue] at *
        omega
      have mod : n % natEntryPerBlock = i := by
        rw [natEntryPerBlockValue] at *
        omega
      simp only [here,div,mod,true_and,List.mem_cons,true_or,and_true]
      by_cases low : n < 3
      · rw [if_pos low,if_neg (by omega),if_neg (by omega)]
      · rw [if_neg low,slotInsert,if_pos (by omega : 3 ≤ n)]
        cases nm.slot n with
        | some found => simp
        | none =>
          simp only [true_and,if_true,Option.some_or,Option.none_or]
          rfl
    · have skip : n / natEntryPerBlock = iblock → n % natEntryPerBlock ≠ i := by
        rw [natEntryPerBlockValue] at *
        omega
      have same : (3 ≤ n ∧ n / natEntryPerBlock = iblock ∧ n % natEntryPerBlock ∈ i :: rest) ↔
          (3 ≤ n ∧ n / natEntryPerBlock = iblock ∧ n % natEntryPerBlock ∈ rest) := by
        rw [List.mem_cons]
        exact and_congr_right fun _ => and_congr_right fun block => or_iff_right (skip block)
      simp only [same]
      split
      · rfl
      · rw [slotInsert,if_neg fun both => here both.1]

theorem slotBlock (rawNats : NatBlock) (iblock : Nat) :
    (insertBlock nm rawNats iblock).slot n =
      (nm.slot n).or (if 3 ≤ n ∧ n / natEntryPerBlock = iblock then some ((rawNats (n % natEntryPerBlock)).slot n) else none) := by
  unfold insertBlock
  rw [slotInsertSome rawNats iblock _ fun i member => List.mem_range.mp member]
  have inside : n % natEntryPerBlock ∈ List.range natEntryPerBlock :=
    List.mem_range.mpr (Nat.mod_lt _ (by decide))
  simp only [inside,and_true]

theorem findFirst {list : List NatEntry} {isMeta : Bool} (found : list.find? (fun ne => isMetaNid ne.nid = isMeta) = some ne) :
    list.find? (fun other => other.nid = ne.nid) = some ne := by
  induction list with
  | nil => contradiction
  | cons head rest ih =>
    by_cases kind : isMetaNid head.nid = isMeta
    · rw [List.find?_cons_of_pos (by simpa using kind)] at found
      cases found
      exact List.find?_cons_of_pos (by simp)
    · rw [List.find?_cons_of_neg (by simpa using kind)] at found
      have range := List.find?_some found
      simp only [decide_eq_true_eq] at range
      have other : head.nid ≠ ne.nid := fun same => kind (same ▸ range)
      rw [List.find?_cons_of_neg (by simpa using other)]
      exact ih found

theorem freeUnlisted (distinct : nm.Distinct) (found : nm.free nid = some ne) : nm.listed nid = none := by
  rw [NatInfo.Distinct,List.map_append] at distinct
  have same : ne.nid = nid := by simpa using List.find?_some found
  refine List.find?_eq_none.mpr fun other listed => ?_
  have different := (List.nodup_append.mp distinct).2.2 other.nid (List.mem_map_of_mem listed) ne.nid
    (List.mem_map_of_mem (List.mem_of_find?_eq_some found))
  rw [same] at different
  simpa using different

theorem slotTake {taken : NatInfo} {isMeta : Bool} (distinct : nm.Distinct) (ran : freeNatEmpty nm isMeta = some (taken,ne)) :
    nm.slot ne.nid = some (false,ne) ∧ isMetaNid ne.nid = isMeta ∧
      taken.slot n = if ne.nid = n then some (true,ne) else nm.slot n := by
  obtain ⟨first,found,same⟩ := Option.map_eq_some_iff.mp ran
  cases same
  have range := List.find?_some found
  simp only [decide_eq_true_eq] at range
  refine ⟨slotFree.mpr ⟨freeUnlisted distinct (findFirst found),findFirst found⟩,range,?_⟩
  rw [slotConsListed]
  by_cases same : ne.nid = n
  · rw [if_pos same,if_pos same]
  · rw [if_neg same,if_neg same]
    simp only [NatInfo.slot,NatInfo.listed,NatInfo.free,findErase found same]

theorem permErase {list : List NatEntry} {p : NatEntry → Bool} (first : list.find? p = some ne) :
    list.Perm (ne :: list.eraseP p) := by
  induction list with
  | nil => contradiction
  | cons head rest ih =>
    cases hit : p head with
    | true =>
      rw [List.find?_cons_of_pos hit] at first
      cases first
      rw [List.eraseP_cons_of_pos hit]
    | false =>
      have skip : ¬ p head = true := by rw [hit]; exact Bool.false_ne_true
      rw [List.find?_cons_of_neg skip] at first
      rw [List.eraseP_cons_of_neg skip]
      exact ((ih first).cons head).trans (List.Perm.swap ..)

theorem distinctInsert (distinct : nm.Distinct) (ino blkaddr : Nat) (pinned dirty : Bool) :
    (insertNat nm nid ino blkaddr pinned dirty).1.Distinct := by
  unfold insertNat
  cases cached : nm.lookup nid with
  | some ne => exact distinct
  | none =>
    obtain ⟨unlisted,unfree⟩ := Option.or_eq_none_iff.mp cached
    have fresh : nid ∉ (nm.natList ++ nm.freeNat).map NatEntry.nid := by
      intro member
      obtain ⟨other,inside,same⟩ := List.mem_map.mp member
      rcases List.mem_append.mp inside with left | right
      · exact List.find?_eq_none.mp unlisted other left (by simpa using same)
      · exact List.find?_eq_none.mp unfree other right (by simpa using same)
    have whole : (nid :: (nm.natList ++ nm.freeNat).map NatEntry.nid).Nodup := List.nodup_cons.mpr ⟨fresh,distinct⟩
    dsimp only
    split
    · exact whole
    · refine (List.Perm.nodup_iff ?_).mp whole
      exact (List.perm_middle (a := NatEntry.mk pinned false nid ino blkaddr)).symm.map NatEntry.nid

theorem distinctUpdate (distinct : nm.Distinct) (newBlkaddr : Nat) (pinned : Bool) :
    (updateNat nm nid newBlkaddr pinned).1.Distinct := by
  unfold updateNat
  cases found : nm.listed nid with
  | none => exact distinct
  | some ne =>
    dsimp only
    split
    · exact (List.Perm.nodup_iff (((permErase found).append_right nm.freeNat).map NatEntry.nid)).mp distinct
    · exact distinct

theorem mapModify {f : NatEntry → NatEntry} (keeps : ∀ ne, (f ne).nid = ne.nid) (list : List NatEntry) :
    (modifyFirst nid f list).map NatEntry.nid = list.map NatEntry.nid := by
  induction list with
  | nil => rfl
  | cons head rest ih =>
    unfold modifyFirst
    split
    · rw [List.map_cons,keeps,List.map_cons]
    · rw [List.map_cons,ih,List.map_cons]

theorem distinctModify {f : NatEntry → NatEntry} (keeps : ∀ ne, (f ne).nid = ne.nid) (distinct : nm.Distinct) :
    (nm.modify nid f).Distinct := by
  unfold NatInfo.modify
  unfold NatInfo.Distinct at distinct ⊢
  split <;> rw [List.map_append] at distinct ⊢ <;> rw [mapModify keeps] <;> exact distinct

theorem distinctBlock (distinct : nm.Distinct) (rawNats : NatBlock) (iblock : Nat) :
    (insertBlock nm rawNats iblock).Distinct := by
  unfold insertBlock
  induction List.range natEntryPerBlock generalizing nm with
  | nil => exact distinct
  | cons i rest ih =>
    rw [List.foldl_cons]
    refine ih ?_
    split
    · exact distinct
    · exact distinctInsert distinct ..

theorem distinctTake {taken : NatInfo} {isMeta : Bool} (distinct : nm.Distinct)
    (ran : freeNatEmpty nm isMeta = some (taken,ne)) : taken.Distinct := by
  obtain ⟨first,found,same⟩ := Option.map_eq_some_iff.mp ran
  cases same
  have moved : (nm.natList ++ nm.freeNat).Perm (ne :: nm.natList ++ nm.freeNat.eraseP fun ne => isMetaNid ne.nid = isMeta) :=
    ((permErase found).append_left nm.natList).trans List.perm_middle
  exact (List.Perm.nodup_iff (moved.map NatEntry.nid)).mp distinct

theorem lookupNatAfter (file : NatFile) : (lookupNat file nm nid).2 = (lookupNat file nm nid).1.lookup nid := by
  unfold lookupNat
  cases cached : nm.lookup nid with
  | some ne => exact cached.symm
  | none => dsimp only

theorem lookupNatSlot (file : NatFile) : (lookupNat file nm nid).1.slot n =
    if nm.slot nid = none then
      (nm.slot n).or (if 3 ≤ n ∧ n / natEntryPerBlock = nid / natEntryPerBlock then some ((file.raw n).slot n) else none)
    else nm.slot n := by
  unfold lookupNat
  cases cached : nm.lookup nid with
  | some ne =>
    have used : nm.slot nid ≠ none := fun none_ => by rw [slotNone.mp none_] at cached; contradiction
    rw [if_neg used]
  | none =>
    rw [if_pos (slotNone.mpr cached)]
    dsimp only
    rw [slotBlock]
    by_cases block : n / natEntryPerBlock = nid / natEntryPerBlock
    · simp only [block,and_true,NatFile.raw]
    · simp only [block,and_false,if_false]

theorem lookupNatEntry (file : NatFile) : (lookupNat file nm nid).2 =
    ((nm.slot nid).or (if 3 ≤ nid then some ((file.raw nid).slot nid) else none)).map Prod.snd := by
  have slots := @lookupNatSlot nm nid nid file
  unfold lookupNat at slots ⊢
  cases cached : nm.lookup nid with
  | some ne =>
    rw [lookupSlot] at cached
    cases here : nm.slot nid with
    | none => rw [here] at cached; contradiction
    | some found => rw [here] at cached; simpa using cached.symm
  | none =>
    rw [cached] at slots
    rw [slotNone.mpr cached] at slots ⊢
    dsimp only at slots ⊢
    rw [lookupSlot,slots]
    simp

end
end Xcpfs
