import Xcpfs.Layout
import Xcpfs.ZoneTable
import Xcpfs.Lib.CountedLoop

/-! The zone information table in the meta file: `flush_zit` writes it, a mount
reads it back with `xcpfs_get_zit_info`. A valid map is its bits; `memcpy` moves the
first 64 bytes of it, and a fresh map of a mount holds what `kmalloc` left there. -/
namespace Xcpfs

structure ZitEntry where
  zoneType : Fin 64
  vblocks : Fin 1024
  validMap : Nat → Bool

abbrev ZitBlock := Nat → ZitEntry

abbrev ZitFile := Nat → ZitBlock

def zoneTypes : Nat := 5

def memcpyMap (dst src : Nat → Bool) (idx : Nat) : Bool :=
  if idx < zoneValidMapSize * 8 then src idx else dst idx

def ZitEntry.zero : ZitEntry := ⟨0,0,fun _ => false⟩

def ZoneInfo.store (zi : ZoneInfo) (ze : ZitEntry) : ZitEntry where
  zoneType := Fin.ofNat 64 zi.zoneType
  vblocks := ⟨(zi.vblocks % 1024).toNat,by omega⟩
  validMap := memcpyMap ze.validMap zi.validMap

def flushZitEntry (s : ZmInfo × ZitFile) (i : Nat) : ZmInfo × ZitFile :=
  let (zm,file) := s
  let zi := zm.zoneInfo i
  if zi.dirty = false then (zm,file)
  else
    let iblock := i / zitEntryPerBlock + zitStart
    let ze := zi.store (file iblock (i % zitEntryPerBlock))
    (zm.setZone i { zi with dirty := false },
      Function.update file iblock (Function.update (file iblock) (i % zitEntryPerBlock) ze))

def flushZit (zm : ZmInfo) (file : ZitFile) : ZmInfo × ZitFile :=
  (List.range zm.nrZones).foldl flushZitEntry (zm,file)

/-- One entry of a mount: no result when `nr_type` would be indexed past its end. -/
def getZitEntry (ze : ZitBlock) (zone j : Nat) (zm : ZmInfo) : Option ZmInfo :=
  let zi := zm.zoneInfo zone
  if zi.cond = .empty then some zm
  else
    let type := (ze j).zoneType.val
    -- the map is copied from `ze`, the first entry of the block
    let zi := { zi with zoneType := type, vblocks := (ze j).vblocks.val, dirty := true, validMap := memcpyMap zi.validMap (ze 0).validMap }
    if type < zoneTypes then
      some { zm.setZone zone zi with nrType := Function.update zm.nrType type (zm.nrType type + 1) }
    else none

def getZitBlock (ze : ZitBlock) (i : Nat) : (count j : Nat) → ZmInfo → Option ZmInfo
  | 0,_,zm => some zm
  | count + 1,j,zm =>
    if i * zitEntryPerBlock + j = zm.nrZones then some zm
    else (getZitEntry ze (i * zitEntryPerBlock + j) j zm).bind (getZitBlock ze i count (j + 1))

/-- `kmalloc` gives the map of every zone its first contents. -/
def allocMaps (kmalloc : Nat → Nat → Bool) (zm : ZmInfo) : ZmInfo :=
  { zm with zoneInfo := fun zone => { zm.zoneInfo zone with validMap := kmalloc zone, writeInflight := 0 } }

def xcpfsGetZitInfo (kmalloc : Nat → Nat → Bool) (file : ZitFile) (zm : ZmInfo) : Option ZmInfo :=
  CountedLoop.forLoop 0 ((zm.nrZones + zitEntryPerBlock - 1) / zitEntryPerBlock)
    (fun zm i => getZitBlock (file (i + zitStart)) i zitEntryPerBlock 0 zm) (allocMaps kmalloc zm)

/- The entry of a zone as both sides address it. -/
def ZitFile.entry (file : ZitFile) (zone : Nat) : ZitEntry :=
  file (zone / zitEntryPerBlock + zitStart) (zone % zitEntryPerBlock)

/- The first zone of the ZIT block of a zone. -/
def zitFirst (zone : Nat) : Nat := zone / zitEntryPerBlock * zitEntryPerBlock

section
variable {zm mounted : ZmInfo} {file : ZitFile}

theorem entryOther {zone other : Nat} (different : other ≠ zone) (ze : ZitEntry) :
    ZitFile.entry (Function.update file (zone / zitEntryPerBlock + zitStart)
      (Function.update (file (zone / zitEntryPerBlock + zitStart)) (zone % zitEntryPerBlock) ze)) other = file.entry other := by
  unfold ZitFile.entry
  by_cases block : other / zitEntryPerBlock = zone / zitEntryPerBlock
  · rw [block,Function.update_self,Function.update_of_ne]
    intro offset
    rw [← Nat.div_add_mod other zitEntryPerBlock,← Nat.div_add_mod zone zitEntryPerBlock,block,offset] at different
    exact different rfl
  · rw [Function.update_of_ne (by omega)]

theorem flushZitStored (dirty : ∀ zone < zm.nrZones, (zm.zoneInfo zone).dirty = true) (zone : Nat) (inside : zone < zm.nrZones) :
    (flushZit zm file).2.entry zone = (zm.zoneInfo zone).store (file.entry zone) := by
  have stage : ∀ k ≤ zm.nrZones, (∀ z, (((List.range k).foldl flushZitEntry (zm,file)).1.zoneInfo z) =
        if z < k then { zm.zoneInfo z with dirty := false } else zm.zoneInfo z) ∧
      ∀ z, ((List.range k).foldl flushZitEntry (zm,file)).2.entry z =
        if z < k then (zm.zoneInfo z).store (file.entry z) else file.entry z := by
    intro k
    induction k with
    | zero => exact fun _ => ⟨fun z => rfl,fun z => rfl⟩
    | succ k ih =>
      intro bound
      obtain ⟨table,stored⟩ := ih (by omega)
      rw [List.range_succ,List.foldl_append,List.foldl_cons,List.foldl_nil]
      generalize (List.range k).foldl flushZitEntry (zm,file) = s at table stored ⊢
      obtain ⟨now,written⟩ := s
      have here : now.zoneInfo k = zm.zoneInfo k := (table k).trans (if_neg (Nat.lt_irrefl k))
      have step : flushZitEntry (now,written) k = (now.setZone k { zm.zoneInfo k with dirty := false },
          Function.update written (k / zitEntryPerBlock + zitStart)
            (Function.update (written (k / zitEntryPerBlock + zitStart)) (k % zitEntryPerBlock)
              ((zm.zoneInfo k).store (written.entry k)))) := by
        simp only [flushZitEntry,here,dirty k bound,Bool.true_eq_false,if_false]
        rfl
      rw [step]
      refine ⟨fun z => ?_,fun z => ?_⟩
      · rw [setZoneInfo]
        by_cases same : z = k
        · rw [same,Function.update_self,if_pos (Nat.lt_succ_self k)]
        · rw [Function.update_of_ne same,table z]
          simp only [show z < k + 1 ↔ z < k by omega]
      · by_cases same : z = k
        · have kept := stored k
          rw [if_neg (Nat.lt_irrefl k)] at kept
          rw [same,if_pos (Nat.lt_succ_self k),← kept]
          simp only [ZitFile.entry,Function.update_self]
        · rw [entryOther same,stored z]
          simp only [show z < k + 1 ↔ z < k by omega]
  have last := (stage zm.nrZones (Nat.le_refl _)).2 zone
  rwa [if_pos inside] at last

/- The two loops of the mount visit the zones one after the other. -/
def getZitZone (file : ZitFile) (zm : ZmInfo) (zone : Nat) : Option ZmInfo :=
  getZitEntry (file (zone / zitEntryPerBlock + zitStart)) zone (zone % zitEntryPerBlock) zm

theorem getZitEntryZones {ze : ZitBlock} {zone j : Nat} {next : ZmInfo} (ran : getZitEntry ze zone j zm = some next) :
    next.nrZones = zm.nrZones := by
  simp only [getZitEntry] at ran
  split at ran
  · cases ran
    rfl
  · split at ran
    · cases ran
      rfl
    · contradiction

theorem getZitBlockSteps (file : ZitFile) (zm : ZmInfo) (i count j : Nat) (block : j + count ≤ zitEntryPerBlock) (inside : i * zitEntryPerBlock + j ≤ zm.nrZones) :
    getZitBlock (file (i + zitStart)) i count j zm =
      CountedLoop.steps (getZitZone file) (min count (zm.nrZones - (i * zitEntryPerBlock + j))) (i * zitEntryPerBlock + j) zm := by
  induction count generalizing j zm with
  | zero => rw [Nat.zero_min,getZitBlock,CountedLoop.steps]
  | succ count ih =>
    rw [getZitBlock]
    split
    · rename_i last
      rw [last,Nat.sub_self,Nat.min_zero,CountedLoop.steps]
    · rename_i more
      obtain ⟨rest,left⟩ : ∃ rest, zm.nrZones - (i * zitEntryPerBlock + j) = rest + 1 :=
        ⟨zm.nrZones - (i * zitEntryPerBlock + j) - 1,by omega⟩
      have div : (i * zitEntryPerBlock + j) / zitEntryPerBlock = i := by
        rw [zitEntryPerBlockValue] at *
        omega
      have mod : (i * zitEntryPerBlock + j) % zitEntryPerBlock = j := by
        rw [zitEntryPerBlockValue] at *
        omega
      rw [left,Nat.succ_min_succ,CountedLoop.steps,getZitZone,div,mod]
      refine Option.bind_congr fun next here => ?_
      have zones := getZitEntryZones here
      rw [ih next (j + 1) (by omega) (by omega),zones,show zm.nrZones - (i * zitEntryPerBlock + (j + 1)) = rest by omega]
      rfl

theorem getZitSteps (file : ZitFile) (zm : ZmInfo) (blocks i : Nat) (inside : i * zitEntryPerBlock ≤ zm.nrZones)
    (enough : zm.nrZones ≤ (i + blocks) * zitEntryPerBlock) (least : (i + blocks) * zitEntryPerBlock < zm.nrZones + zitEntryPerBlock) :
    CountedLoop.steps (fun zm i => getZitBlock (file (i + zitStart)) i zitEntryPerBlock 0 zm) blocks i zm =
      CountedLoop.steps (getZitZone file) (zm.nrZones - i * zitEntryPerBlock) (i * zitEntryPerBlock) zm := by
  refine CountedLoop.stepsBlocks (fun t => t.nrZones = zm.nrZones) ?_ ?_ blocks i inside enough least rfl
  · exact fun _ _ _ same here => (getZitEntryZones here).trans same
  · intro i s same inside
    rw [← same] at inside ⊢
    exact getZitBlockSteps file s i zitEntryPerBlock 0 (by omega) (by omega)

theorem getZitFlat (kmalloc : Nat → Nat → Bool) :
    xcpfsGetZitInfo kmalloc file mounted =
      CountedLoop.steps (getZitZone file) mounted.nrZones 0 (allocMaps kmalloc mounted) := by
  have ceil : (mounted.nrZones + zitEntryPerBlock - 1) / zitEntryPerBlock * zitEntryPerBlock < mounted.nrZones + zitEntryPerBlock ∧
      mounted.nrZones ≤ (mounted.nrZones + zitEntryPerBlock - 1) / zitEntryPerBlock * zitEntryPerBlock := by
    rw [zitEntryPerBlockValue]
    omega
  have steps := getZitSteps file (allocMaps kmalloc mounted) ((mounted.nrZones + zitEntryPerBlock - 1) / zitEntryPerBlock) 0
    (by omega) (by rw [Nat.zero_add]; exact ceil.2) (by rw [Nat.zero_add]; exact ceil.1)
  rwa [Nat.zero_mul,Nat.sub_zero] at steps

/- The table after the zones below `k` were read. -/
structure ZitRead (file : ZitFile) (start : ZmInfo) (k : Nat) (zm : ZmInfo) : Prop where
  cond : ∀ zone, (zm.zoneInfo zone).cond = (start.zoneInfo zone).cond
  todo : ∀ zone ≥ k, (zm.zoneInfo zone).validMap = (start.zoneInfo zone).validMap
  typed : ∀ zone < k, (start.zoneInfo zone).cond ≠ .empty → (file.entry zone).zoneType.val < zoneTypes
  zoneType : ∀ zone < k, (start.zoneInfo zone).cond ≠ .empty → (zm.zoneInfo zone).zoneType = (file.entry zone).zoneType.val
  vblocks : ∀ zone < k, (start.zoneInfo zone).cond ≠ .empty → (zm.zoneInfo zone).vblocks = (file.entry zone).vblocks.val
  validMap : ∀ zone < k, (start.zoneInfo zone).cond ≠ .empty → (zm.zoneInfo zone).validMap =
    memcpyMap (start.zoneInfo zone).validMap (file.entry (zitFirst zone)).validMap

theorem zitReadNone (file : ZitFile) (start : ZmInfo) : ZitRead file start 0 start :=
  ⟨fun _ => rfl,fun _ _ => rfl,fun _ bad => absurd bad (Nat.not_lt_zero _),fun _ bad => absurd bad (Nat.not_lt_zero _),
    fun _ bad => absurd bad (Nat.not_lt_zero _),fun _ bad => absurd bad (Nat.not_lt_zero _)⟩

theorem entryFirst (file : ZitFile) (zone : Nat) : file.entry (zitFirst zone) = file (zone / zitEntryPerBlock + zitStart) 0 := by
  unfold ZitFile.entry zitFirst
  rw [zitEntryPerBlockValue,Nat.mul_div_cancel _ (by omega),Nat.mul_mod_left]

theorem getZitZoneRead {start next : ZmInfo} {k : Nat} (read : ZitRead file start k zm)
    (ran : getZitZone file zm k = some next) : ZitRead file start (k + 1) next := by
  have old : ∀ {P : Nat → Prop}, (∀ zone < k, (start.zoneInfo zone).cond ≠ .empty → P zone) →
      ((start.zoneInfo k).cond ≠ .empty → P k) → ∀ zone < k + 1, (start.zoneInfo zone).cond ≠ .empty → P zone := by
    intro P below here zone bound used
    rcases Nat.lt_succ_iff_lt_or_eq.mp bound with less | same
    · exact below zone less used
    · subst same
      exact here used
  simp only [getZitZone,getZitEntry] at ran
  split at ran
  · rename_i empty
    cases ran
    rw [read.cond] at empty
    exact ⟨read.cond,fun zone above => read.todo zone (by omega),old read.typed fun used => absurd empty used,
      old read.zoneType fun used => absurd empty used,old read.vblocks fun used => absurd empty used,
      old read.validMap fun used => absurd empty used⟩
  · split at ran
    · rename_i typed
      cases ran
      have other : ∀ zone, zone ≠ k → ∀ zi, ((zm.setZone k zi).zoneInfo zone) = zm.zoneInfo zone := fun zone different zi => by
        rw [setZoneInfo,Function.update_of_ne different]
      have self : ∀ zi, ((zm.setZone k zi).zoneInfo k) = zi := fun zi => by rw [setZoneInfo,Function.update_self]
      refine ⟨fun zone => ?_,fun zone above => ?_,old read.typed fun _ => typed,?_,?_,?_⟩
      · by_cases same : zone = k
        · subst same
          dsimp only
          rw [self]
          exact read.cond zone
        · dsimp only
          rw [other zone same]
          exact read.cond zone
      · dsimp only
        rw [other zone (by omega)]
        exact read.todo zone (by omega)
      · exact old (fun zone less used => by dsimp only; rw [other zone (by omega)]; exact read.zoneType zone less used)
          fun _ => by dsimp only; rw [self]; rfl
      · exact old (fun zone less used => by dsimp only; rw [other zone (by omega)]; exact read.vblocks zone less used)
          fun _ => by dsimp only; rw [self]; rfl
      · exact old (fun zone less used => by dsimp only; rw [other zone (by omega)]; exact read.validMap zone less used)
          fun _ => by dsimp only; rw [self,entryFirst,read.todo k (Nat.le_refl k)]
    · contradiction

theorem getZitZoneRuns {start : ZmInfo} {k : Nat} (read : ZitRead file start k zm)
    (typed : (start.zoneInfo k).cond ≠ .empty → (file.entry k).zoneType.val < zoneTypes) :
    ∃ next, getZitZone file zm k = some next := by
  simp only [getZitZone,getZitEntry]
  split
  · exact ⟨_,rfl⟩
  · rename_i used
    rw [read.cond] at used
    exact ⟨_,if_pos (typed used)⟩

theorem getZitRead {kmalloc : Nat → Nat → Bool} {t : ZmInfo} (ran : xcpfsGetZitInfo kmalloc file mounted = some t) :
    ZitRead file (allocMaps kmalloc mounted) mounted.nrZones t := by
  rw [getZitFlat] at ran
  have read := CountedLoop.stepsSound (fun k s => ZitRead file (allocMaps kmalloc mounted) k s) mounted.nrZones 0
    (fun k s next _ _ read here => getZitZoneRead read here) (zitReadNone file _) ran
  rwa [Nat.zero_add] at read

theorem getZitRuns (file : ZitFile) (kmalloc : Nat → Nat → Bool)
    (typed : ∀ zone < mounted.nrZones, (mounted.zoneInfo zone).cond ≠ .empty → (file.entry zone).zoneType.val < zoneTypes) :
    ∃ t, xcpfsGetZitInfo kmalloc file mounted = some t := by
  rw [getZitFlat]
  obtain ⟨t,ran,_⟩ := CountedLoop.stepsInvariant (fun k s => ZitRead file (allocMaps kmalloc mounted) k s) mounted.nrZones 0
    (fun k s _ high read => by
      obtain ⟨next,here⟩ := getZitZoneRuns read (typed k (by omega))
      exact ⟨next,here,getZitZoneRead read here⟩) (zitReadNone file _)
  exact ⟨t,ran⟩

/- What a mount has to give back for one zone. -/
structure ZitRestored (zm t : ZmInfo) (zone : Nat) : Prop where
  zoneType : (t.zoneInfo zone).zoneType = (zm.zoneInfo zone).zoneType
  vblocks : (t.zoneInfo zone).vblocks = (zm.zoneInfo zone).vblocks
  validMap : ∀ idx < zm.blocksPerZone, (t.zoneInfo zone).validMap idx = (zm.zoneInfo zone).validMap idx

/- When the entry can hold the zone, and the first zone of its block the same map. -/
structure ZitFits (zm : ZmInfo) (zone : Nat) : Prop where
  zoneType : (zm.zoneInfo zone).zoneType < zoneTypes
  vblocksLow : 0 ≤ (zm.zoneInfo zone).vblocks
  vblocksHigh : (zm.zoneInfo zone).vblocks < 1024
  size : zm.blocksPerZone ≤ zoneValidMapSize * 8
  validMap : ∀ idx < zm.blocksPerZone, (zm.zoneInfo zone).validMap idx = (zm.zoneInfo (zitFirst zone)).validMap idx

theorem zitFirstInside {zone zones : Nat} (inside : zone < zones) : zitFirst zone < zones := by
  unfold zitFirst
  rw [zitEntryPerBlockValue]
  omega

theorem fitsRestored {t : ZmInfo} {kmalloc : Nat → Nat → Bool} {zone : Nat}
    (dirty : ∀ zone < zm.nrZones, (zm.zoneInfo zone).dirty = true) (inside : zone < zm.nrZones) (fits : ZitFits zm zone)
    (read : ZitRead (flushZit zm file).2 (allocMaps kmalloc mounted) zm.nrZones t) (used : (mounted.zoneInfo zone).cond ≠ .empty) :
    ZitRestored zm t zone := by
  refine ⟨?_,?_,fun idx bound => ?_⟩
  · rw [read.zoneType zone inside used,flushZitStored dirty zone inside]
    have typed := fits.zoneType
    exact Nat.mod_eq_of_lt (Nat.lt_trans typed (by decide))
  · rw [read.vblocks zone inside used,flushZitStored dirty zone inside]
    have low := fits.vblocksLow
    have high := fits.vblocksHigh
    simp only [ZoneInfo.store]
    omega
  · have size := fits.size
    rw [read.validMap zone inside used,flushZitStored dirty _ (zitFirstInside inside),fits.validMap idx bound]
    simp only [memcpyMap,ZoneInfo.store]
    rw [if_pos (by omega),if_pos (by omega)]

theorem restoredFits (file : ZitFile) {zone : Nat} (dirty : ∀ zone < zm.nrZones, (zm.zoneInfo zone).dirty = true) (inside : zone < zm.nrZones)
    (used : (mounted.zoneInfo zone).cond ≠ .empty)
    (back : ∀ kmalloc, ∃ t, ZitRead (flushZit zm file).2 (allocMaps kmalloc mounted) zm.nrZones t ∧ ZitRestored zm t zone) :
    ZitFits zm zone := by
  -- a map of fresh memory that differs from the flushed one everywhere
  obtain ⟨t,read,restored⟩ := back fun z idx => !(zm.zoneInfo z).validMap idx
  have size : zm.blocksPerZone ≤ zoneValidMapSize * 8 := by
    by_contra large
    have kept := restored.validMap (zoneValidMapSize * 8) (by omega)
    rw [read.validMap zone inside used,memcpyMap,if_neg (Nat.lt_irrefl _)] at kept
    simp [allocMaps] at kept
  have typed := read.typed zone inside used
  have type := restored.zoneType
  have count := restored.vblocks
  rw [read.zoneType zone inside used] at type
  rw [read.vblocks zone inside used,flushZitStored dirty zone inside] at count
  simp only [ZoneInfo.store] at count
  refine ⟨type ▸ typed,by omega,by omega,size,fun idx bound => ?_⟩
  have bit := restored.validMap idx bound
  rw [read.validMap zone inside used,flushZitStored dirty _ (zitFirstInside inside)] at bit
  simp only [memcpyMap,ZoneInfo.store] at bit
  rw [if_pos (by omega),if_pos (by omega)] at bit
  exact bit.symm

/-- A flush of dirty zones followed by a mount gives every zone in use its type,
count and bits back, whatever fresh memory holds, exactly when each of them fits. -/
theorem zitRoundTrip (file : ZitFile) (dirty : ∀ zone < zm.nrZones, (zm.zoneInfo zone).dirty = true)
    (device : mounted.nrZones = zm.nrZones) :
    (∀ kmalloc, ∃ t, xcpfsGetZitInfo kmalloc (flushZit zm file).2 mounted = some t ∧
      ∀ zone < zm.nrZones, (mounted.zoneInfo zone).cond ≠ .empty → ZitRestored zm t zone) ↔
      ∀ zone < zm.nrZones, (mounted.zoneInfo zone).cond ≠ .empty → ZitFits zm zone := by
  constructor
  · intro back zone inside used
    refine restoredFits file dirty inside used fun kmalloc => ?_
    obtain ⟨t,ran,restored⟩ := back kmalloc
    have read := getZitRead ran
    rw [device] at read
    exact ⟨t,read,restored zone inside used⟩
  · intro fits kmalloc
    obtain ⟨t,ran⟩ := getZitRuns (flushZit zm file).2 kmalloc fun zone bound used => by
      rw [device] at bound
      rw [flushZitStored dirty zone bound]
      have typed := (fits zone bound used).zoneType
      exact Nat.lt_of_le_of_lt (Nat.mod_le _ 64) typed
    have read := getZitRead ran
    rw [device] at read
    exact ⟨t,ran,fun zone inside used => fitsRestored dirty inside (fits zone inside used) read used⟩

end

/- Two full zones of the given number of blocks, both in the first ZIT block. -/
def zitTable (vblocks : Int) (blocks : Nat) (validMap : Nat → Nat → Bool) : ZmInfo where
  zoneSize := blocks * 8
  zoneCapacity := blocks * 8
  nrZones := 2
  maxOpenZones := 2
  maxActiveZones := 2
  nrType := fun _ => 0
  limitType := fun _ => 1
  zoneInfo := fun zone =>
    { zoneId := zone, cond := .full, wp := (zone + 1) * (blocks * 8), start := zone * (blocks * 8), writeInflight := 0
      dirty := true, zoneType := 4, vblocks := vblocks, validMap := validMap zone }
  zoneOpened := [none,none]
  zoneOpenedCount := 0
  zoneActive := [none,none]
  zoneActiveCount := 0

def emptyZit : ZitFile := fun _ _ => ⟨0,0,fun _ => false⟩

/-- Two zones of 512 blocks with the same three valid blocks. -/
theorem zitRoundTripSameMaps : ∃ t,
    xcpfsGetZitInfo (fun _ _ => false) (flushZit (zitTable 3 512 fun _ idx => decide (idx < 3)) emptyZit).2
        (zitTable 3 512 fun _ idx => decide (idx < 3)) = some t ∧
      ∀ zone < 2, ZoneCond.full ≠ .empty → ZitRestored (zitTable 3 512 fun _ idx => decide (idx < 3)) t zone :=
  (zitRoundTrip emptyZit (fun _ _ => rfl) rfl).mpr (fun _ _ _ =>
    ⟨(by decide : 4 < zoneTypes),(by decide : (0 : Int) ≤ 3),(by decide : (3 : Int) < 1024),by decide,fun _ _ => rfl⟩)
    fun _ _ => false

/-- The second zone gets the map of the first. -/
theorem zitMixesMaps : ¬ ∀ kmalloc, ∃ t,
    xcpfsGetZitInfo kmalloc (flushZit (zitTable 1 2048 fun zone idx => decide (idx = zone)) emptyZit).2
        (zitTable 1 2048 fun zone idx => decide (idx = zone)) = some t ∧
      ∀ zone < 2, ZoneCond.full ≠ .empty → ZitRestored (zitTable 1 2048 fun zone idx => decide (idx = zone)) t zone := by
  intro back
  obtain ⟨t,ran,restored⟩ := back fun _ _ => false
  have bit := (restored 1 (by decide) (by decide)).validMap 0 (by decide)
  have read := (getZitRead ran).validMap 1 (by decide) (by decide)
  rw [read] at bit
  contradiction

end Xcpfs
