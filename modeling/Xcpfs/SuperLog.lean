import Xcpfs.Layout
import Xcpfs.ZoneTable

/-! The superblock log in zones 0 and 1: a mount reads the block before a write
pointer the device reports, an unmount appends one page to a zone. Block numbers are
C ints, shifted as ints before they become a sector. -/
namespace Xcpfs

def xcpfsMagic : Nat := 0x520264

structure SuperPage where
  magic : Nat
  payload : Nat
  deriving DecidableEq, Repr

/-- Zone length and capacity in blocks; both zones have sector numbers. -/
structure SuperGeometry where
  size : Nat
  capacity : Nat
  positive : 1 ≤ capacity
  inside : capacity ≤ size
  addressed : size * 16 ≤ 2 ^ 64

/-- The condition the device reports for a zone neither empty nor full. -/
inductive UsedCond where | impOpen | expOpen | closed
  deriving DecidableEq, Repr

def UsedCond.cond : UsedCond → ZoneCond
  | .impOpen => .impOpen | .expOpen => .expOpen | .closed => .closed

/-- The two zones of the log and what the device answers for every other block. -/
structure SuperDevice where
  zone : Nat → List SuperPage
  blank : Nat → Option SuperPage

namespace SuperDevice

def read (g : SuperGeometry) (dev : SuperDevice) (block : Nat) : Option SuperPage :=
  if block / g.size < 2 then ((dev.zone (block / g.size))[block % g.size]?).or (dev.blank block) else dev.blank block

def setZone (dev : SuperDevice) (zone : Nat) (pages : List SuperPage) : SuperDevice :=
  { dev with zone := Function.update dev.zone zone pages }

def append (g : SuperGeometry) (dev : SuperDevice) (zone : Nat) (page : SuperPage) : Option SuperDevice :=
  if (dev.zone zone).length < g.capacity then
    some (dev.setZone zone (dev.zone zone ++ [page]))
  else none

def report (g : SuperGeometry) (dev : SuperDevice) (used : UsedCond) (idx : Nat) : ZoneInfo where
  zoneId := idx
  start := idx * (g.size * 8)
  cond := if dev.zone idx = [] then .empty else if (dev.zone idx).length = g.capacity then .full else used.cond
  wp := idx * (g.size * 8) + if (dev.zone idx).length = g.capacity then g.size * 8 else (dev.zone idx).length * 8
  writeInflight := 0
  dirty := false
  zoneType := zoneTypeFree
  vblocks := 0
  validMap := fun _ => false

end SuperDevice

/- The four-way case of `xcpfs_read_super` and `flush_super_block`. -/
def pickSuperZone (zoneSize : Nat) (zone0 zone1 : ZoneInfo) : Nat :=
  if zone0.cond = .empty then 1
  else if zone1.cond = .empty then 0
  else if zone0.wp > (zone1.wp + 2 ^ 64 - zoneSize) % 2 ^ 64 then 1
  else 0

def xcpfsGrabPage (g : SuperGeometry) (dev : SuperDevice) (block : Int) : Option SuperPage :=
  let sector := (toInt32 (block * 2 ^ pageSectorsShift) % 2 ^ 64).toNat
  dev.read g (sector / 2 ^ pageSectorsShift)

def xcpfsReadSuper (g : SuperGeometry) (dev : SuperDevice) (zoneInfo : Nat → ZoneInfo) : Option SuperPage :=
  let zone := zoneInfo (pickSuperZone (g.size * 8) (zoneInfo 0) (zoneInfo 1))
  (xcpfsGrabPage g dev (sectorToBlock ((zone.wp + 2 ^ 64 - 1) % 2 ^ 64))).filter fun page => page.magic = xcpfsMagic

def flushSuperBlock (g : SuperGeometry) (dev : SuperDevice) (zoneInfo : Nat → ZoneInfo) (page : SuperPage) : Option SuperDevice :=
  dev.append g (pickSuperZone (g.size * 8) (zoneInfo 0) (zoneInfo 1)) page

/- What mkfs leaves: one superblock in zone 0. -/
def mkfsLog (made : SuperPage) (blank : Nat → Option SuperPage) : SuperDevice where
  zone := fun idx => if idx = 0 then [made] else []
  blank := blank

/- Unmount and mount again, once for each page; the zone table an unmount uses is
the one of the mount before. -/
def SuperCycles (g : SuperGeometry) (dev : SuperDevice) (used : UsedCond) : List (SuperPage × UsedCond) → Prop
  | [] => True
  | (page,next) :: rest => ∃ dev', flushSuperBlock g dev (dev.report g used) page = some dev' ∧
      xcpfsReadSuper g dev' (dev'.report g next) = some page ∧ SuperCycles g dev' next rest

section
variable {g : SuperGeometry} {dev : SuperDevice} {log : List SuperPage} {page : SuperPage}

@[simp] theorem setZoneSelf (pages : List SuperPage) (zone : Nat) : (dev.setZone zone pages).zone zone = pages :=
  Function.update_self ..

@[simp] theorem setZoneOne (pages : List SuperPage) : (dev.setZone 0 pages).zone 1 = dev.zone 1 :=
  Function.update_of_ne Nat.one_ne_zero pages dev.zone

@[simp] theorem setZoneBlank (pages : List SuperPage) (zone : Nat) : (dev.setZone zone pages).blank = dev.blank := rfl

/- Zone 0 holds the log, zone 1 nothing. -/
def LogIs (dev : SuperDevice) (log : List SuperPage) : Prop := dev.zone 0 = log ∧ log ≠ [] ∧ dev.zone 1 = []

theorem pickFirst (is : LogIs dev log) (used : UsedCond) :
    pickSuperZone (g.size * 8) (dev.report g used 0) (dev.report g used 1) = 0 := by
  obtain ⟨zero,written,one⟩ := is
  have first : (dev.report g used 0).cond ≠ .empty := by
    simp only [SuperDevice.report,zero,if_neg written]
    split
    · decide
    · cases used <;> decide
  have second : (dev.report g used 1).cond = .empty := if_pos one
  unfold pickSuperZone
  rw [if_neg first,if_pos second]

theorem flushAppends (is : LogIs dev log) (used : UsedCond) :
    flushSuperBlock g dev (dev.report g used) page =
      if log.length < g.capacity then some (dev.setZone 0 (log ++ [page])) else none := by
  unfold flushSuperBlock SuperDevice.append
  rw [pickFirst is,is.1]

theorem logAppended (is : LogIs dev log) : LogIs (dev.setZone 0 (log ++ [page])) (log ++ [page]) :=
  ⟨setZoneSelf ..,List.append_ne_nil_of_right_ne_nil _ (List.cons_ne_nil _ _),(setZoneOne _).trans is.2.2⟩

/- The block that is read when block `x` is meant. -/
def grabbed (x : Nat) : Nat := if x % 2 ^ 29 < 2 ^ 28 then x % 2 ^ 29 else 2 ^ 61 - 2 ^ 29 + x % 2 ^ 29

theorem grabPage (x : Nat) : xcpfsGrabPage g dev (sectorToBlock (x * 8 + 7)) = dev.read g (grabbed x) := by
  have block : (x * 8 + 7) / 2 ^ pageSectorsShift = x := by
    change (x * 8 + 7) / 8 = x
    omega
  have sector : (toInt32 (toInt32 x * 8) % 2 ^ 64).toNat / 8 = grabbed x := by
    simp only [toInt32,Int.bmod_def,grabbed]
    split <;> split <;> split <;> omega
  unfold sectorToBlock
  rw [block]
  exact congrArg (dev.read g) sector

theorem readOther (is : LogIs dev log) (inside : log.length < g.size) {block : Nat} (other : block ≠ log.length) (page : SuperPage) :
    (dev.setZone 0 (log ++ [page])).read g block =
      if block / g.size = 0 then (log[block]?).or (dev.blank block) else dev.blank block := by
  unfold SuperDevice.read
  cases where_ : block / g.size with
  | zero =>
    have small : block % g.size = block := Nat.mod_eq_of_lt (Nat.lt_of_div_eq_zero (by omega) where_)
    rw [if_pos (by decide),if_pos rfl,small]
    rw [setZoneSelf,List.getElem?_append]
    split
    · rfl
    · rename_i past
      rw [List.getElem?_eq_none (by simp; omega),List.getElem?_eq_none (by omega)]
      rfl
  | succ zone =>
    rw [if_neg (Nat.succ_ne_zero zone)]
    split
    · rename_i low
      have one : zone = 0 := by omega
      subst one
      rw [Nat.zero_add,setZoneOne,is.2.2,List.getElem?_nil,Option.none_or,setZoneBlank]
    · rfl

theorem readLast (inside : log.length < g.size) (page : SuperPage) :
    (dev.setZone 0 (log ++ [page])).read g log.length = some page := by
  unfold SuperDevice.read
  rw [Nat.div_eq_of_lt inside,if_pos (by decide),Nat.mod_eq_of_lt inside]
  simp

/- The block meant after an append to a log of `length` pages. -/
def lastBlock (g : SuperGeometry) (length : Nat) : Nat := if length + 1 = g.capacity then g.size - 1 else length

theorem readAppended (is : LogIs dev log) (room : log.length < g.capacity) (page : SuperPage) (used : UsedCond) :
    xcpfsReadSuper g (dev.setZone 0 (log ++ [page]))
        ((dev.setZone 0 (log ++ [page])).report g used) =
      ((dev.setZone 0 (log ++ [page])).read g
        (grabbed (lastBlock g log.length))).filter fun page => page.magic = xcpfsMagic := by
  have inside := g.inside
  have addressed := g.addressed
  unfold xcpfsReadSuper
  rw [pickFirst (logAppended is)]
  have wp : (((dev.setZone 0 (log ++ [page])).report g used 0).wp + 2 ^ 64 - 1) % 2 ^ 64 =
      lastBlock g log.length * 8 + 7 := by
    simp only [SuperDevice.report,setZoneSelf,List.length_append,List.length_singleton,lastBlock]
    split <;> omega
  dsimp only
  rw [wp,grabPage]

/- The step that a cycle needs from a log of `length` pages. -/
def CycleOk (g : SuperGeometry) (length : Nat) : Prop :=
  length < g.capacity ∧ grabbed (lastBlock g length) = length

theorem cycleRuns (is : LogIs dev log) (ok : CycleOk g log.length) (page : SuperPage) (magic : page.magic = xcpfsMagic)
    (used next : UsedCond) :
    ∃ dev', flushSuperBlock g dev (dev.report g used) page = some dev' ∧
      xcpfsReadSuper g dev' (dev'.report g next) = some page ∧ LogIs dev' (log ++ [page]) := by
  refine ⟨_,(flushAppends is used).trans (if_pos ok.1),?_,logAppended is⟩
  rw [readAppended is ok.1,ok.2,readLast (Nat.lt_of_lt_of_le ok.1 g.inside)]
  simp only [Option.filter_some,magic,decide_true,if_true]

theorem cycleNeeds (is : LogIs dev log) (used next : UsedCond)
    (good : ∀ payload, ∃ dev', flushSuperBlock g dev (dev.report g used) ⟨xcpfsMagic,payload⟩ = some dev' ∧
      xcpfsReadSuper g dev' (dev'.report g next) = some ⟨xcpfsMagic,payload⟩) : CycleOk g log.length := by
  have inside := g.inside
  have room : log.length < g.capacity := by
    obtain ⟨dev',flushed,_⟩ := good 0
    rw [flushAppends is] at flushed
    by_contra full
    rw [if_neg full] at flushed
    contradiction
  refine ⟨room,?_⟩
  by_contra other
  have answers : ∀ payload, (if grabbed (lastBlock g log.length) / g.size = 0
      then (log[grabbed (lastBlock g log.length)]?).or (dev.blank (grabbed (lastBlock g log.length)))
      else dev.blank (grabbed (lastBlock g log.length))) = some ⟨xcpfsMagic,payload⟩ := by
    intro payload
    obtain ⟨dev',flushed,found⟩ := good payload
    rw [flushAppends is,if_pos room] at flushed
    cases flushed
    rw [readAppended is room,readOther is (by omega) other] at found
    exact (Option.filter_eq_some_iff.mp found).1
  have same := (answers 0).symm.trans (answers 1)
  simp at same

theorem cyclesGood (is : LogIs dev log) (used : UsedCond) (n : Nat) :
    (∀ pages : List (SuperPage × UsedCond), pages.length = n → (∀ entry ∈ pages, entry.1.magic = xcpfsMagic) →
        SuperCycles g dev used pages) ↔ ∀ k < n, CycleOk g (log.length + k) := by
  induction n generalizing dev log used with
  | zero =>
    refine ⟨fun _ k bad => absurd bad (Nat.not_lt_zero k),fun _ pages empty _ => ?_⟩
    rw [List.length_eq_zero_iff.mp empty]
    trivial
  | succ n ih =>
    constructor
    · intro good
      have first : CycleOk g log.length := by
        refine cycleNeeds is used .closed fun payload => ?_
        obtain ⟨dev',flushed,found,_⟩ := good (List.replicate (n + 1) (⟨xcpfsMagic,payload⟩,.closed)) List.length_replicate
          fun entry member => by rw [List.eq_of_mem_replicate member]
        exact ⟨dev',flushed,found⟩
      obtain ⟨dev',flushed,_,after⟩ := cycleRuns is first ⟨xcpfsMagic,0⟩ rfl used .closed
      have rest := (ih after .closed).mp fun pages length magic => by
        obtain ⟨again,same,_,more⟩ := good ((⟨xcpfsMagic,0⟩,.closed) :: pages) (congrArg Nat.succ length)
          (List.forall_mem_cons.mpr ⟨rfl,magic⟩)
        cases flushed.symm.trans same
        exact more
      intro k bound
      cases k with
      | zero => exact first
      | succ k =>
        have later := rest k (by omega)
        rwa [List.length_append,List.length_singleton,Nat.add_assoc,Nat.add_comm 1] at later
    · intro ok pages length magic
      match pages with
      | (page,next) :: rest =>
        obtain ⟨dev',flushed,found,after⟩ := cycleRuns is (ok 0 (by omega)) page (magic _ List.mem_cons_self) used next
        refine ⟨dev',flushed,found,(ih after next).mpr (fun k bound => ?_) rest (Nat.succ.inj length)
          fun entry member => magic entry (List.mem_cons_of_mem _ member)⟩
        rw [List.length_append,List.length_singleton,Nat.add_assoc,Nat.add_comm 1]
        exact ok (k + 1) (by omega)

end

theorem grabbedLast (g : SuperGeometry) (length : Nat) (room : length < g.capacity) :
    grabbed (lastBlock g length) = length ↔
      length < 2 ^ 28 ∧ (length + 1 = g.capacity → (g.size - 1) % 2 ^ 29 = length) := by
  have inside := g.inside
  have addressed := g.addressed
  unfold grabbed lastBlock
  split <;> split <;> omega

/-- `n` cycles from a fresh image end well for every choice of superblock pages
exactly when zone 0 has room for them, the zone length stands for its last block
should it fill, and the last block has an int sector number. -/
theorem superLogKeeps (g : SuperGeometry) (made : SuperPage) (blank : Nat → Option SuperPage) (used : UsedCond) (n : Nat) :
    (∀ pages : List (SuperPage × UsedCond), pages.length = n → (∀ entry ∈ pages, entry.1.magic = xcpfsMagic) →
        SuperCycles g (mkfsLog made blank) used pages) ↔
      n = 0 ∨ n < g.capacity ∧ n < 2 ^ 28 ∧ (n + 1 = g.capacity → (g.size - 1) % 2 ^ 29 = n) := by
  have start : LogIs (mkfsLog made blank) [made] := ⟨rfl,List.cons_ne_nil _ _,rfl⟩
  rw [cyclesGood start]
  constructor
  · intro ok
    cases n with
    | zero => exact Or.inl rfl
    | succ n =>
      obtain ⟨room,last⟩ := ok n (Nat.lt_succ_self n)
      rw [List.length_singleton,Nat.add_comm 1] at room last
      exact Or.inr ⟨room,(grabbedLast g (n + 1) room).mp last⟩
  · intro enough k bound
    obtain ⟨room,small,filled⟩ := enough.resolve_left (by omega)
    have here : [made].length + k < g.capacity := by
      rw [List.length_singleton]
      omega
    refine ⟨here,(grabbedLast g _ here).mpr ?_⟩
    rw [List.length_singleton] at *
    exact ⟨by omega,fun last => by rw [filled (by omega)]; omega⟩

def twoBlockZones : SuperGeometry := ⟨2,2,by decide,by decide,by decide⟩

/-- Two cycles on zones of two blocks: the second append meets a full zone. -/
theorem superLogFills : ¬ ∀ pages : List (SuperPage × UsedCond), pages.length = 2 →
    (∀ entry ∈ pages, entry.1.magic = xcpfsMagic) →
    SuperCycles twoBlockZones (mkfsLog ⟨xcpfsMagic,0⟩ fun _ => none) .closed pages := by
  intro good
  have start : LogIs (mkfsLog ⟨xcpfsMagic,0⟩ fun _ => none) [⟨xcpfsMagic,0⟩] := ⟨rfl,List.cons_ne_nil _ _,rfl⟩
  have magic : ∀ entry ∈ [(SuperPage.mk xcpfsMagic 1,UsedCond.closed),(SuperPage.mk xcpfsMagic 2,UsedCond.closed)],
      entry.1.magic = xcpfsMagic := by decide
  obtain ⟨dev',first,_,dev'',second,_⟩ := good _ rfl magic
  rw [flushAppends start] at first
  cases first
  rw [flushAppends (logAppended start)] at second
  exact absurd second (by simp [twoBlockZones])

end Xcpfs
