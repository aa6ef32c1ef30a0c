import Xcpfs.NatKnown

/-! The NAT cache over a whole mount, as `alloc_free_nat` and its callers see it: the
counter of cached entries beside the two lists, the address each nid came in with, and
the nids that were handed out. The NAT blocks may differ from call to call. -/
namespace Xcpfs

/- `loaded` records the address of every entry `__insert_nat` has added. -/
structure NatCache where
  nm : NatInfo
  cachedNatCount : Nat
  loaded : Nat → Option Nat

namespace NatCache

/-- `insert_nat`: an added entry is counted. -/
def insert (c : NatCache) (nid ino blkaddr : Nat) (pinned dirty : Bool) : NatCache × Except Errno Unit :=
  match insertNat c.nm nid ino blkaddr pinned dirty with
  | (nm,.ok ()) => (⟨nm,c.cachedNatCount + 1,Function.update c.loaded nid (some blkaddr)⟩,.ok ())
  | (nm,.error err) => ({ c with nm := nm },.error err)

def insertBlock (c : NatCache) (rawNats : NatBlock) (iblock : Nat) : NatCache :=
  (List.range natEntryPerBlock).foldl (fun c i =>
    if iblock * natEntryPerBlock + i < 3 then c
    else (c.insert (iblock * natEntryPerBlock + i) (rawNats i).ino (rawNats i).blockAddr false false).1) c

def lookup (file : NatFile) (c : NatCache) (nid : Nat) : NatCache × Option NatEntry :=
  match c.nm.lookup nid with
  | some ne => (c,some ne)
  | none =>
    let c := c.insertBlock (file (nid / natEntryPerBlock)) (nid / natEntryPerBlock)
    (c,c.nm.lookup nid)

def update (c : NatCache) (nid newBlkaddr : Nat) (pinned : Bool) : NatCache :=
  { c with nm := (updateNat c.nm nid newBlkaddr pinned).1 }

def invalidate (file : NatFile) (c : NatCache) (nid : Nat) : NatCache × Except Errno Unit :=
  match c.lookup file nid with
  | (c,none) => (c,.error .enoent)
  | (c,some _) => ({ c with nm := c.nm.modify nid NatEntry.invalidated },.ok ())

def freeEmpty (c : NatCache) (isMeta : Bool) : Option (NatCache × NatEntry) :=
  (freeNatEmpty c.nm isMeta).map fun (nm,ne) => ({ c with nm := nm },ne)

def allocRounds (file : NatFile) (isMeta : Bool) : (rounds iblock : Nat) → NatCache → Option (NatCache × NatEntry)
  | 0,_,c => c.freeEmpty isMeta
  | rounds + 1,iblock,c =>
    match c.freeEmpty isMeta with
    | some found => some found
    | none => allocRounds file isMeta rounds (iblock + 1) (c.insertBlock (file iblock) iblock)

/-- `alloc_free_nat`; there is no result when `rounds` blocks hold no free nid. -/
def allocFree (file : NatFile) (c : NatCache) (isMeta : Bool) (rounds : Nat) : Option (NatCache × NatEntry) :=
  allocRounds file isMeta rounds (if isMeta then 0 else regNatStart) c

/-- One entry in the loop of `xcpfs_read_super`. -/
def readMetaNat (c : NatCache) (ne : MetaNat) : NatCache :=
  if ne.nid = 0 then c else (c.insert ne.nid ne.ino ne.blockAddr true true).1.update ne.nid ne.blockAddr true

def readSuper (metaNat : List MetaNat) : NatCache := metaNat.foldl readMetaNat ⟨⟨[],[]⟩,0,fun _ => none⟩

end NatCache

/- What is kept of the cache whatever is inserted. A nid that came in with an address
never becomes free, and a free one came in without. -/
structure CacheOk (c : NatCache) : Prop where
  distinct : c.nm.Distinct
  count : c.cachedNatCount = c.nm.natList.length + c.nm.freeNat.length
  known : ∀ n, c.nm.slot n = none → c.loaded n = none
  free : ∀ n ne, c.nm.slot n = some (false,ne) → c.loaded n = some 0

/- The nids the file system keeps for itself did not come in as free ones. -/
structure Reserved (c : NatCache) : Prop where
  low : ∀ n < 3, c.loaded n ≠ some 0
  root : ∃ blkaddr ≠ 0, c.loaded rootIno = some blkaddr

/- From one cache to a later one that has more entries. -/
structure Fetched (c d : NatCache) : Prop where
  ok : CacheOk c → CacheOk d
  kept : CacheOk c → ∀ n, c.nm.slot n ≠ none → d.nm.slot n = c.nm.slot n ∧ d.loaded n = c.loaded n
  low : (∀ n < 3, c.loaded n ≠ some 0) → ∀ n < 3, d.loaded n ≠ some 0

section
variable {c d e : NatCache} {file : NatFile} {nid n : Nat} {ne : NatEntry}

theorem fetchedSelf (c : NatCache) : Fetched c c := ⟨id,fun _ _ _ => ⟨rfl,rfl⟩,id⟩

theorem fetchedTrans (first : Fetched c d) (second : Fetched d e) : Fetched c e where
  ok here := second.ok (first.ok here)
  kept here n cached := by
    obtain ⟨slot,loaded⟩ := first.kept here n cached
    obtain ⟨later,last⟩ := second.kept (first.ok here) n (slot.symm ▸ cached)
    exact ⟨later.trans slot,last.trans loaded⟩
  low here := second.low (first.low here)

theorem natCountInsert (nm : NatInfo) (nid ino blkaddr : Nat) (pinned dirty : Bool) (absent : nm.slot nid = none) :
    (insertNat nm nid ino blkaddr pinned dirty).1.natList.length + (insertNat nm nid ino blkaddr pinned dirty).1.freeNat.length =
      nm.natList.length + nm.freeNat.length + 1 := by
  unfold insertNat
  rw [slotNone.mp absent]
  dsimp only
  split
  · dsimp only [List.length_cons]
    omega
  · rfl

theorem insertCases (c : NatCache) (nid ino blkaddr : Nat) (pinned dirty : Bool) :
    (c.nm.slot nid ≠ none ∧ (c.insert nid ino blkaddr pinned dirty).1 = c) ∨
    (c.nm.slot nid = none ∧ (c.insert nid ino blkaddr pinned dirty).1 =
      ⟨(insertNat c.nm nid ino blkaddr pinned dirty).1,c.cachedNatCount + 1,Function.update c.loaded nid (some blkaddr)⟩) := by
  cases found : c.nm.lookup nid with
  | some ne =>
    refine .inl ⟨fun none_ => ?_,?_⟩
    · rw [slotNone.mp none_] at found
      contradiction
    · simp only [NatCache.insert,insertNat,found]
  | none =>
    refine .inr ⟨slotNone.mpr found,?_⟩
    by_cases address : blkaddr ≠ 0
    · simp only [NatCache.insert,insertNat,found,if_pos address]
    · simp only [NatCache.insert,insertNat,found,if_neg address]

theorem insertOk (ok : CacheOk c) (nid ino blkaddr : Nat) (pinned dirty : Bool) :
    CacheOk (c.insert nid ino blkaddr pinned dirty).1 := by
  rcases insertCases c nid ino blkaddr pinned dirty with ⟨_,same⟩ | ⟨absent,same⟩
  · rw [same]
    exact ok
  · rw [same]
    refine ⟨distinctInsert ok.distinct ..,?_,?_,?_⟩
    · dsimp only
      rw [natCountInsert _ _ _ _ _ _ absent,← ok.count]
    · intro n none_
      dsimp only at none_ ⊢
      rw [slotInsert] at none_
      split at none_
      · contradiction
      · rename_i other
        have differ : n ≠ nid := fun same => other ⟨same.symm,absent⟩
        rw [Function.update_of_ne differ]
        exact ok.known n none_
    · intro n ne here
      dsimp only at here ⊢
      rw [slotInsert] at here
      split at here
      · rename_i both
        have unused := congrArg Prod.fst (Option.some.inj here)
        rw [← both.1,Function.update_self]
        exact congrArg some (by simpa using unused)
      · rename_i other
        have differ : n ≠ nid := fun same => other ⟨same.symm,absent⟩
        rw [Function.update_of_ne differ]
        exact ok.free n ne here

theorem fetchedInsert (c : NatCache) (nid ino blkaddr : Nat) (pinned dirty : Bool) (inUse : blkaddr ≠ 0 ∨ 3 ≤ nid) :
    Fetched c (c.insert nid ino blkaddr pinned dirty).1 := by
  refine ⟨fun ok => insertOk ok ..,?_,?_⟩
  · intro _ n cached
    rcases insertCases c nid ino blkaddr pinned dirty with ⟨_,same⟩ | ⟨absent,same⟩
    · rw [same]
      exact ⟨rfl,rfl⟩
    · have differ : n ≠ nid := fun same => cached (same ▸ absent)
      rw [same]
      dsimp only
      rw [slotInsert,if_neg fun both => differ both.1.symm,Function.update_of_ne differ]
      exact ⟨rfl,rfl⟩
  · intro low n small
    rcases insertCases c nid ino blkaddr pinned dirty with ⟨_,same⟩ | ⟨_,same⟩
    · rw [same]
      exact low n small
    · rw [same]
      dsimp only
      by_cases here : n = nid
      · rw [here,Function.update_self]
        intro zero
        rcases inUse with address | high
        · exact address (Option.some.inj zero)
        · exact absurd small (here ▸ Nat.not_lt.mpr high)
      · rw [Function.update_of_ne here]
        exact low n small

theorem fetchedBlock (c : NatCache) (rawNats : NatBlock) (iblock : Nat) : Fetched c (c.insertBlock rawNats iblock) := by
  unfold NatCache.insertBlock
  induction List.range natEntryPerBlock generalizing c with
  | nil => exact fetchedSelf c
  | cons i rest ih =>
    rw [List.foldl_cons]
    refine fetchedTrans ?_ (ih _)
    split
    · exact fetchedSelf c
    · rename_i high
      exact fetchedInsert _ _ _ _ _ _ (.inr (Nat.not_lt.mp high))

theorem fetchedLookup (file : NatFile) (c : NatCache) (nid : Nat) : Fetched c (c.lookup file nid).1 := by
  unfold NatCache.lookup
  cases c.nm.lookup nid with
  | some ne => exact fetchedSelf c
  | none =>
    dsimp only
    exact fetchedBlock c _ _

theorem allocRoundsFetch {isMeta : Bool} {rounds iblock : Nat}
    (ran : NatCache.allocRounds file isMeta rounds iblock c = some (d,ne)) :
    ∃ e, Fetched c e ∧ e.freeEmpty isMeta = some (d,ne) := by
  induction rounds generalizing c iblock with
  | zero => exact ⟨c,fetchedSelf c,ran⟩
  | succ rounds ih =>
    unfold NatCache.allocRounds at ran
    cases found : c.freeEmpty isMeta with
    | some pair =>
      rw [found] at ran
      exact ⟨c,fetchedSelf c,found.trans ran⟩
    | none =>
      rw [found] at ran
      obtain ⟨e,fetched,taken⟩ := ih ran
      exact ⟨e,fetchedTrans (fetchedBlock c _ _) fetched,taken⟩

theorem natCountTake {nm taken : NatInfo} {isMeta : Bool} (ran : freeNatEmpty nm isMeta = some (taken,ne)) :
    taken.natList.length + taken.freeNat.length = nm.natList.length + nm.freeNat.length := by
  obtain ⟨first,found,same⟩ := Option.map_eq_some_iff.mp ran
  cases same
  have moved := (permErase found).length_eq
  rw [List.length_cons] at moved
  dsimp only [List.length_cons]
  omega

/- What taking a free nid leaves. -/
structure Taken (c d : NatCache) (isMeta : Bool) (ne : NatEntry) : Prop where
  ok : CacheOk d
  was : c.nm.slot ne.nid = some (false,ne)
  now : d.nm.slot ne.nid = some (true,ne)
  other : ∀ n, n ≠ ne.nid → d.nm.slot n = c.nm.slot n
  kind : isMetaNid ne.nid = isMeta
  loaded : d.loaded = c.loaded

theorem takenFree {isMeta : Bool} (ok : CacheOk c) (ran : c.freeEmpty isMeta = some (d,ne)) : Taken c d isMeta ne := by
  obtain ⟨⟨taken,_⟩,found,same⟩ := Option.map_eq_some_iff.mp ran
  cases same
  obtain ⟨was,kind,_⟩ := @slotTake _ 0 _ _ _ ok.distinct found
  have after : ∀ n, taken.slot n = if ne.nid = n then some (true,ne) else c.nm.slot n :=
    fun n => (@slotTake _ n _ _ _ ok.distinct found).2.2
  have other : ∀ n, n ≠ ne.nid → taken.slot n = c.nm.slot n := fun n differ => by rw [after,if_neg fun same => differ same.symm]
  have now : taken.slot ne.nid = some (true,ne) := by rw [after,if_pos rfl]
  refine ⟨⟨distinctTake ok.distinct found,?_,?_,?_⟩,was,now,other,kind,rfl⟩
  · exact ok.count.trans (natCountTake found).symm
  · intro n none_
    by_cases here : n = ne.nid
    · rw [here,now] at none_
      contradiction
    · exact ok.known n ((other n here).symm.trans none_)
  · intro n entry free
    by_cases here : n = ne.nid
    · rw [here,now] at free
      cases free
    · exact ok.free n entry ((other n here).symm.trans free)

/- `update_nat` and `invalidate_nat` move no nid to another list. -/
structure SameLists (c d : NatCache) : Prop where
  ok : CacheOk c → CacheOk d
  place : ∀ n, (d.nm.slot n).map Prod.fst = (c.nm.slot n).map Prod.fst
  loaded : d.loaded = c.loaded

theorem okPlaces {nm : NatInfo} (ok : CacheOk c) (distinct : nm.Distinct)
    (count : nm.natList.length + nm.freeNat.length = c.nm.natList.length + c.nm.freeNat.length)
    (place : ∀ n, (nm.slot n).map Prod.fst = (c.nm.slot n).map Prod.fst) : CacheOk { c with nm := nm } where
  distinct := distinct
  count := ok.count.trans count.symm
  known n none_ := by
    have same := place n
    rw [none_] at same
    exact ok.known n (Option.map_eq_none_iff.mp same.symm)
  free n ne here := by
    have same := place n
    rw [here] at same
    obtain ⟨⟨used,entry⟩,found,free⟩ := Option.map_eq_some_iff.mp same.symm
    cases free
    exact ok.free n entry found

theorem natCountUpdate (nm : NatInfo) (nid blkaddr : Nat) (pinned : Bool) :
    (updateNat nm nid blkaddr pinned).1.natList.length + (updateNat nm nid blkaddr pinned).1.freeNat.length =
      nm.natList.length + nm.freeNat.length := by
  unfold updateNat
  cases found : nm.listed nid with
  | none => rfl
  | some ne =>
    dsimp only
    split
    · have moved := (permErase found).length_eq
      rw [List.length_cons] at moved
      dsimp only [List.length_cons]
      omega
    · rfl

theorem placeUpdate (nm : NatInfo) (nid blkaddr : Nat) (pinned : Bool) (n : Nat) :
    ((updateNat nm nid blkaddr pinned).1.slot n).map Prod.fst = (nm.slot n).map Prod.fst := by
  rw [slotUpdate]
  cases found : nm.listed nid with
  | none => rfl
  | some ne =>
    dsimp only
    split
    · rename_i both
      rw [← both.1,slotListed.mpr found]
      rfl
    · rfl

theorem sameUpdate (c : NatCache) (nid blkaddr : Nat) (pinned : Bool) : SameLists c (c.update nid blkaddr pinned) where
  ok here := okPlaces here (distinctUpdate here.distinct ..) (natCountUpdate ..) (placeUpdate c.nm nid blkaddr pinned)
  place := placeUpdate c.nm nid blkaddr pinned
  loaded := rfl

theorem natCountModify (nm : NatInfo) (nid : Nat) {f : NatEntry → NatEntry} (keeps : ∀ ne, (f ne).nid = ne.nid) :
    (nm.modify nid f).natList.length + (nm.modify nid f).freeNat.length = nm.natList.length + nm.freeNat.length := by
  have same : ∀ list, (modifyFirst nid f list).length = list.length := fun list => by
    rw [← List.length_map NatEntry.nid,mapModify keeps,List.length_map]
  unfold NatInfo.modify
  split
  · exact congrArg (· + nm.freeNat.length) (same nm.natList)
  · exact congrArg (nm.natList.length + ·) (same nm.freeNat)

theorem placeModify (nm : NatInfo) (nid : Nat) {f : NatEntry → NatEntry} (keeps : ∀ ne, (f ne).nid = ne.nid) (n : Nat) :
    ((nm.modify nid f).slot n).map Prod.fst = (nm.slot n).map Prod.fst := by
  rw [slotModify keeps]
  split
  · rw [Option.map_map]
    rfl
  · rfl

theorem sameModify (c : NatCache) (nid : Nat) {f : NatEntry → NatEntry} (keeps : ∀ ne, (f ne).nid = ne.nid) :
    SameLists c { c with nm := c.nm.modify nid f } where
  ok here := okPlaces here (distinctModify keeps here.distinct) (natCountModify c.nm nid keeps) (placeModify c.nm nid keeps)
  place := placeModify c.nm nid keeps
  loaded := rfl

/- A run of the five functions. `returned` records what `alloc_free_nat` handed out. -/
structure NatRun where
  cache : NatCache
  returned : List (Bool × Nat)

inductive CacheEvent where
  | insert (nid ino blkaddr : Nat) (pinned dirty : Bool)
  | update (nid newBlkaddr : Nat) (pinned : Bool)
  | lookup (file : NatFile) (nid : Nat)
  | alloc (file : NatFile) (isMeta : Bool) (rounds : Nat)
  | invalidate (file : NatFile) (nid : Nat)

def cacheStep (s : NatRun) : CacheEvent → Option NatRun
  | .insert nid ino blkaddr pinned dirty => some { s with cache := (s.cache.insert nid ino blkaddr pinned dirty).1 }
  | .update nid newBlkaddr pinned => some { s with cache := s.cache.update nid newBlkaddr pinned }
  | .lookup file nid => some { s with cache := (s.cache.lookup file nid).1 }
  | .alloc file isMeta rounds =>
    (s.cache.allocFree file isMeta rounds).map fun (cache,ne) => ⟨cache,(isMeta,ne.nid) :: s.returned⟩
  | .invalidate file nid => some { s with cache := (s.cache.invalidate file nid).1 }

def mountCache (metaNat : List MetaNat) : NatRun := ⟨NatCache.readSuper metaNat,[]⟩

/- No entry without an address is inserted for a nid below 3. -/
def CacheEvent.InsertsAbove : CacheEvent → Prop
  | .insert nid _ blkaddr _ _ => blkaddr ≠ 0 ∨ 3 ≤ nid
  | _ => True

structure RunOk (s : NatRun) : Prop where
  cache : CacheOk s.cache
  reserved : Reserved s.cache
  once : (s.returned.map Prod.snd).Nodup
  inUse : ∀ pair ∈ s.returned, ∃ ne, s.cache.nm.slot pair.2 = some (true,ne)
  free : ∀ pair ∈ s.returned, s.cache.loaded pair.2 = some 0
  kind : ∀ pair ∈ s.returned, isMetaNid pair.2 = pair.1

section
variable {s t : NatRun}

theorem reservedFetched (fetched : Fetched c d) (ok : CacheOk c) (reserved : Reserved c) : Reserved d where
  low := fetched.low reserved.low
  root := by
    obtain ⟨blkaddr,address,loaded⟩ := reserved.root
    refine ⟨blkaddr,address,?_⟩
    have cached : c.nm.slot rootIno ≠ none := fun none_ => by
      rw [ok.known _ none_] at loaded
      contradiction
    exact (fetched.kept ok rootIno cached).2.trans loaded

theorem runFetched (ok : RunOk s) (fetched : Fetched s.cache d) : RunOk { s with cache := d } where
  cache := fetched.ok ok.cache
  reserved := reservedFetched fetched ok.cache ok.reserved
  once := ok.once
  inUse pair member := by
    obtain ⟨ne,here⟩ := ok.inUse pair member
    exact ⟨ne,(fetched.kept ok.cache pair.2 (fun none_ => by rw [none_] at here; contradiction)).1.trans here⟩
  free pair member := by
    obtain ⟨ne,here⟩ := ok.inUse pair member
    exact (fetched.kept ok.cache pair.2 (fun none_ => by rw [none_] at here; contradiction)).2.trans (ok.free pair member)
  kind := ok.kind

theorem runSame (ok : RunOk s) (same : SameLists s.cache d) : RunOk { s with cache := d } where
  cache := same.ok ok.cache
  reserved := ⟨by rw [same.loaded]; exact ok.reserved.low,by rw [same.loaded]; exact ok.reserved.root⟩
  once := ok.once
  inUse pair member := by
    obtain ⟨ne,here⟩ := ok.inUse pair member
    have place := same.place pair.2
    rw [here] at place
    obtain ⟨⟨used,entry⟩,found,inUse⟩ := Option.map_eq_some_iff.mp place
    cases inUse
    exact ⟨entry,found⟩
  free pair member := by
    rw [same.loaded]
    exact ok.free pair member
  kind := ok.kind

/- A nid that was handed out is in use, so the free nid found now is another one. -/
theorem runTaken {isMeta : Bool} (ok : RunOk s) (taken : Taken s.cache d isMeta ne) :
    RunOk ⟨d,(isMeta,ne.nid) :: s.returned⟩ where
  cache := taken.ok
  reserved := ⟨by rw [taken.loaded]; exact ok.reserved.low,by rw [taken.loaded]; exact ok.reserved.root⟩
  once := by
    refine List.nodup_cons.mpr ⟨fun member => ?_,ok.once⟩
    obtain ⟨pair,inside,same⟩ := List.mem_map.mp member
    obtain ⟨entry,here⟩ := ok.inUse pair inside
    rw [same,taken.was] at here
    cases here
  inUse := by
    refine List.forall_mem_cons.mpr ⟨⟨ne,taken.now⟩,fun pair member => ?_⟩
    obtain ⟨entry,here⟩ := ok.inUse pair member
    by_cases same : pair.2 = ne.nid
    · exact ⟨ne,same ▸ taken.now⟩
    · exact ⟨entry,(taken.other _ same).trans here⟩
  free := by
    rw [taken.loaded]
    exact List.forall_mem_cons.mpr ⟨ok.cache.free _ _ taken.was,ok.free⟩
  kind := List.forall_mem_cons.mpr ⟨taken.kind,ok.kind⟩

theorem cacheStepKeeps (ok : RunOk s) {event : CacheEvent} (above : event.InsertsAbove)
    (ran : cacheStep s event = some t) : RunOk t := by
  cases event with
  | insert nid ino blkaddr pinned dirty =>
    rw [← Option.some.inj ran]
    exact runFetched ok (fetchedInsert _ _ _ _ _ _ above)
  | update nid newBlkaddr pinned =>
    rw [← Option.some.inj ran]
    exact runSame ok (sameUpdate ..)
  | lookup file nid =>
    rw [← Option.some.inj ran]
    exact runFetched ok (fetchedLookup ..)
  | alloc file isMeta rounds =>
    obtain ⟨⟨cache,ne⟩,found,same⟩ := Option.map_eq_some_iff.mp ran
    obtain ⟨loaded,fetched,free⟩ := allocRoundsFetch found
    rw [← same]
    have ready := runFetched ok fetched
    exact @runTaken _ _ ⟨loaded,s.returned⟩ _ ready (takenFree ready.cache free)
  | invalidate file nid =>
    rw [← Option.some.inj ran]
    have looked := runFetched ok (fetchedLookup file s.cache nid)
    unfold NatCache.invalidate
    generalize s.cache.lookup file nid = found at *
    obtain ⟨cache,entry⟩ := found
    cases entry with
    | none => exact looked
    | some ne => exact @runSame _ ⟨cache,s.returned⟩ looked (sameModify cache nid NatEntry.invalidatedNid)

theorem readSuperOk (metaNat : List MetaNat) : CacheOk (NatCache.readSuper metaNat) := by
  have empty : CacheOk ⟨⟨[],[]⟩,0,fun _ => none⟩ := ⟨List.nodup_nil,rfl,fun _ _ => rfl,fun _ _ bad => by contradiction⟩
  unfold NatCache.readSuper
  generalize (⟨⟨[],[]⟩,0,fun _ => none⟩ : NatCache) = c at *
  induction metaNat generalizing c with
  | nil => exact empty
  | cons ne rest ih =>
    rw [List.foldl_cons]
    refine ih _ ?_
    unfold NatCache.readMetaNat
    split
    · exact empty
    · rename_i named
      exact (sameUpdate ..).ok (insertOk empty ..)

theorem readSuperZero (metaNat : List MetaNat) : (NatCache.readSuper metaNat).loaded 0 = none := by
  have empty : (NatCache.mk ⟨[],[]⟩ 0 fun _ => none).loaded 0 = none := rfl
  unfold NatCache.readSuper
  generalize (⟨⟨[],[]⟩,0,fun _ => none⟩ : NatCache) = c at *
  induction metaNat generalizing c with
  | nil => exact empty
  | cons ne rest ih =>
    rw [List.foldl_cons]
    refine ih _ ?_
    unfold NatCache.readMetaNat
    split
    · exact empty
    · rename_i named
      unfold NatCache.update
      dsimp only
      rcases insertCases c ne.nid ne.ino ne.blockAddr true true with ⟨_,same⟩ | ⟨_,same⟩
      · rw [same]
        exact empty
      · rw [same]
        dsimp only
        rw [Function.update_of_ne fun zero => named zero.symm]
        exact empty

theorem natCacheHolds {metaNat : List MetaNat} {events : List CacheEvent}
    (metaNode : ∃ blkaddr ≠ 0, (mountCache metaNat).cache.loaded metaIno = some blkaddr)
    (root : ∃ blkaddr ≠ 0, (mountCache metaNat).cache.loaded rootIno = some blkaddr)
    (noNode : (mountCache metaNat).cache.loaded nodeIno ≠ some 0)
    (above : ∀ event ∈ events, event.InsertsAbove) (ran : EventRun.exec cacheStep (mountCache metaNat) events = some s) :
    s.cache.nm.Distinct ∧ s.cache.cachedNatCount = (s.cache.nm.natList ++ s.cache.nm.freeNat).length ∧
    (s.returned.map Prod.snd).Nodup ∧
    ∀ isMeta nid, (isMeta,nid) ∈ s.returned → 3 ≤ nid ∧ nid ≠ 3 ∧ s.cache.loaded nid = some 0 ∧
      (nid < regNatStart * natEntryPerBlock ↔ isMeta = true) := by
  have low : ∀ n < 3, (mountCache metaNat).cache.loaded n ≠ some 0 := by
    intro n small
    match n,small with
    | 0,_ =>
      rw [mountCache,readSuperZero]
      exact Option.some_ne_none 0 |>.symm
    | 1,_ =>
      obtain ⟨blkaddr,address,loaded⟩ := metaNode
      rw [show (1 : Nat) = metaIno from rfl,loaded]
      exact fun zero => address (Option.some.inj zero)
    | 2,_ => exact noNode
  have start : RunOk (mountCache metaNat) :=
    ⟨readSuperOk metaNat,⟨low,root⟩,List.nodup_nil,fun _ bad => absurd bad List.not_mem_nil,
      fun _ bad => absurd bad List.not_mem_nil,fun _ bad => absurd bad List.not_mem_nil⟩
  have guarded : EventRun.Guarded (fun _ event => event.InsertsAbove) cacheStep (mountCache metaNat) events :=
    EventRun.guardedAll (fun event member _ => above event member) _
  have ok := EventRun.invariant RunOk (fun _ _ _ here guard step => cacheStepKeeps here guard step)
    (EventRun.ofExec ran guarded) start
  refine ⟨ok.cache.distinct,by rw [List.length_append]; exact ok.cache.count,ok.once,?_⟩
  intro isMeta nid member
  have free : s.cache.loaded nid = some 0 := ok.free _ member
  have kind : isMetaNid nid = isMeta := ok.kind _ member
  refine ⟨?_,?_,free,?_⟩
  · exact Nat.not_lt.mp fun small => ok.reserved.low nid small free
  · intro same
    obtain ⟨blkaddr,address,loaded⟩ := ok.reserved.root
    rw [same] at free
    exact address (Option.some.inj (loaded.symm.trans free))
  · rw [← kind,isMetaNid,decide_eq_true_iff]

def emptyNatFile : NatFile := fun _ _ => ⟨0,0⟩

/-- A superblock whose node 4 is free: the node is handed out, gets an address and is released. -/
theorem natCacheHoldsOnce : ∃ s : NatRun,
    EventRun.exec cacheStep (mountCache [⟨1,1,5⟩,⟨3,3,6⟩,⟨4,0,0⟩])
      [.alloc emptyNatFile true 0,.update 4 9 false,.invalidate emptyNatFile 4] = some s ∧
    s.cache.nm.Distinct ∧ (true,4) ∈ s.returned ∧ s.cache.loaded 4 = some 0 := by
  obtain ⟨s,ran⟩ := Option.isSome_iff_exists.mp (by decide +kernel :
    (EventRun.exec cacheStep (mountCache [⟨1,1,5⟩,⟨3,3,6⟩,⟨4,0,0⟩])
      [.alloc emptyNatFile true 0,.update 4 9 false,.invalidate emptyNatFile 4]).isSome = true)
  have taken : (true,4) ∈ s.returned := by
    have once : (EventRun.exec cacheStep (mountCache [⟨1,1,5⟩,⟨3,3,6⟩,⟨4,0,0⟩])
      [.alloc emptyNatFile true 0,.update 4 9 false,.invalidate emptyNatFile 4]).any (fun t => t.returned = [(true,4)]) = true := by
      decide +kernel
    rw [ran] at once
    rw [of_decide_eq_true once]
    exact List.mem_cons_self
  have above : ∀ event ∈ [CacheEvent.alloc emptyNatFile true 0,.update 4 9 false,.invalidate emptyNatFile 4],
      event.InsertsAbove := by
    intro event member
    simp only [List.mem_cons,List.not_mem_nil,or_false] at member
    rcases member with rfl | rfl | rfl <;> trivial
  have holds := natCacheHolds ⟨5,by decide,rfl⟩ ⟨6,by decide,rfl⟩ (by decide) above ran
  exact ⟨s,ran,holds.1,taken,(holds.2.2.2 true 4 taken).2.2.1⟩

/-- `insert_nat` takes any nid: one below 3 that comes in without an address is handed out. -/
theorem nodeInoHandedOut : ∃ s : NatRun,
    EventRun.exec cacheStep (mountCache [⟨1,1,5⟩,⟨3,3,6⟩]) [.insert 2 0 0 false false,.alloc emptyNatFile true 0] = some s ∧
    (mountCache [⟨1,1,5⟩,⟨3,3,6⟩]).cache.loaded 1 = some 5 ∧ (mountCache [⟨1,1,5⟩,⟨3,3,6⟩]).cache.loaded 3 = some 6 ∧
    (true,2) ∈ s.returned := by
  refine ⟨_,rfl,rfl,rfl,List.mem_cons_self⟩

end
end
end Xcpfs
