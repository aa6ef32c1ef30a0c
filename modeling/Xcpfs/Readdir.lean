import Xcpfs.DirMap

/-! `xcpfs_readdir` over any split of a listing into calls. `ctx->pos` counts bytes,
and the loop takes the aligned position, as an int, for the number of its first slot. -/
namespace Xcpfs

open CBytes

structure Emitted where
  slot : Nat
  name : List UInt8
  ino : Nat

/- The name goes to `dir_emit` with `strnlen(name,XCPFS_MAX_FNAME_LEN)`. -/
def emitted (dir : Dir) (i : Nat) : Emitted :=
  { slot := i, name := (take (dir.page i) 0 maxFnameLen).takeWhile (fun b => b != 0), ino := entryIno (dir.page i) }

def isLive (dir : Dir) (i : Nat) : Bool := entryIno (dir.page i) != 0

/- `dir_emit` accepts `room` more entries and refuses the one after them. -/
def readdirLoop (dir : Dir) : Nat → Nat → Int → Nat → List Emitted × Int
  | 0, _, pos, _ => ([],pos)
  | count + 1, i, pos, room =>
    if isLive dir i = false then readdirLoop dir count (i + 1) (pos + pageSize) room
    else
      match room with
      | 0 => ([],pos)
      | room + 1 =>
        let (out,pos) := readdirLoop dir count (i + 1) (pos + pageSize) room
        (emitted dir i :: out,pos)

/- `ALIGN(pos,PAGE_SIZE)` on an int, after `int pos = ctx->pos`. -/
def startSlot (ctxPos : Int) : Int :=
  let pos := toInt32 (toInt32 ctxPos + (pageSize - 1))
  pos - pos % pageSize

/- Below slot 0 the loop decodes pages that no file has; nothing is said of that. -/
def xcpfsReaddir (dir : Dir) (ctxPos : Int) (room : Nat) : Option (List Emitted × Int) :=
  let pos := startSlot ctxPos
  if pos < 0 then none
  else some (readdirLoop dir (dir.npages - pos.toNat) pos.toNat pos room)

/- The calls up to the one that emits nothing, with what they emitted one after the other. -/
inductive Listed (dir : Dir) : Int → (Nat → Nat) → List Emitted → Prop where
  | last {pos next rooms} (call : xcpfsReaddir dir pos (rooms 0) = some ([],next)) : Listed dir pos rooms []
  | more {pos next rooms out rest} (call : xcpfsReaddir dir pos (rooms 0) = some (out,next)) (some_ : out ≠ [])
      (later : Listed dir next (fun j => rooms (j + 1)) rest) : Listed dir pos rooms (out ++ rest)

def liveFrom (dir : Dir) (i : Nat) : List Nat := (List.range' i (dir.npages - i)).filter (isLive dir)

def Complete (dir : Dir) (rooms : Nat → Nat) : Prop := Listed dir 0 rooms ((liveFrom dir 0).map (emitted dir))

/- The slot at which a call that starts with the live slots `rest` stops. -/
def stopSlot (dir : Dir) (rest : List Nat) (room : Nat) : Nat := (rest[room]?).getD dir.npages

/- `ctx->pos` and the first slot not listed yet, before call `j`, when all calls before it started right. -/
def placeFrom (dir : Dir) (pos : Int) (slot : Nat) (rooms : Nat → Nat) : Nat → Int × Nat
  | 0 => (pos,slot)
  | j + 1 =>
    let stop := stopSlot dir (liveFrom dir slot) (rooms 0)
    placeFrom dir (startSlot pos + pageSize * (stop - startSlot pos)) stop (fun k => rooms (k + 1)) j

/- The slot the loop takes from the position has just the listed entries below it. -/
def StartsRight (dir : Dir) (place : Int × Nat) : Prop :=
  0 ≤ startSlot place.1 ∧ liveFrom dir (startSlot place.1).toNat = liveFrom dir place.2

def AllStartRight (dir : Dir) (pos : Int) (slot : Nat) (rooms : Nat → Nat) : Prop :=
  ∀ j, (∀ i < j, liveFrom dir (placeFrom dir pos slot rooms i).2 ≠ []) → StartsRight dir (placeFrom dir pos slot rooms j)

section
variable {dir : Dir} {i k x : Nat}

theorem liveFromEnd (above : dir.npages ≤ i) : liveFrom dir i = [] := by
  rw [liveFrom,Nat.sub_eq_zero_of_le above]
  rfl

theorem liveFromCons (inside : i < dir.npages) :
    liveFrom dir i = if isLive dir i then i :: liveFrom dir (i + 1) else liveFrom dir (i + 1) := by
  obtain ⟨n,count⟩ : ∃ n, dir.npages - i = n + 1 := ⟨dir.npages - i - 1,by omega⟩
  have rest : dir.npages - (i + 1) = n := by omega
  rw [liveFrom,count,List.range'_succ,List.filter_cons,liveFrom,rest]

theorem liveFromMem : x ∈ liveFrom dir i ↔ i ≤ x ∧ x < dir.npages ∧ isLive dir x = true := by
  rw [liveFrom,List.mem_filter,List.mem_range'_1]
  constructor
  · intro ⟨⟨low,high⟩,live⟩
    exact ⟨low,by omega,live⟩
  · intro ⟨low,high,live⟩
    exact ⟨⟨low,by omega⟩,live⟩

theorem liveFromDrop (here : (liveFrom dir i)[k]? = some x) : liveFrom dir x = (liveFrom dir i).drop k := by
  obtain ⟨n,count⟩ : ∃ n, dir.npages - i = n := ⟨_,rfl⟩
  induction n generalizing i k with
  | zero =>
    rw [liveFromEnd (by omega)] at here
    cases here
  | succ n ih =>
    have first := liveFromCons (i := i) (by omega : i < dir.npages)
    rw [first] at here ⊢
    cases live : isLive dir i with
    | false =>
      rw [live,if_neg Bool.false_ne_true] at here
      rw [if_neg Bool.false_ne_true]
      exact ih here (by omega)
    | true =>
      rw [live,if_pos rfl] at here
      rw [if_pos rfl]
      cases k with
      | zero =>
        cases here
        rw [List.drop_zero,first,live,if_pos rfl]
      | succ k => exact ih here (by omega)

theorem stopRest (dir : Dir) (i room : Nat) : liveFrom dir (stopSlot dir (liveFrom dir i) room) = (liveFrom dir i).drop room := by
  unfold stopSlot
  cases here : (liveFrom dir i)[room]? with
  | some x => exact liveFromDrop here
  | none =>
    rw [List.drop_eq_nil_of_le (List.getElem?_eq_none_iff.mp here)]
    exact liveFromEnd (Nat.le_refl _)

theorem readdirLoopSpec {count room : Nat} {pos : Int} (all : i + count = dir.npages) :
    readdirLoop dir count i pos room =
      (((liveFrom dir i).take room).map (emitted dir),pos + pageSize * (stopSlot dir (liveFrom dir i) room - i)) := by
  induction count generalizing i pos room with
  | zero =>
    rw [liveFromEnd (by omega)]
    have stop : stopSlot dir [] room = i := all.symm
    rw [stop,Int.sub_self,Int.mul_zero,Int.add_zero,List.take_nil]
    rfl
  | succ count ih =>
    unfold readdirLoop
    rw [liveFromCons (by omega)]
    cases live : isLive dir i with
    | false =>
      rw [if_pos rfl,ih (by omega),if_neg Bool.false_ne_true,Int.natCast_add,Int.natCast_one]
      congr 1
      rw [← Int.sub_sub,Int.mul_sub,Int.mul_one]
      omega
    | true =>
      rw [if_neg (by decide),if_pos rfl]
      cases room with
      | zero =>
        dsimp only
        have stop : stopSlot dir (i :: liveFrom dir (i + 1)) 0 = i := rfl
        rw [stop,Int.sub_self,Int.mul_zero,Int.add_zero,List.take_zero,List.map_nil]
      | succ room =>
        dsimp only
        have stop : stopSlot dir (i :: liveFrom dir (i + 1)) (room + 1) = stopSlot dir (liveFrom dir (i + 1)) room := rfl
        rw [ih (by omega),stop,List.take_succ_cons,List.map_cons,Int.natCast_add,Int.natCast_one]
        congr 1
        rw [← Int.sub_sub,Int.mul_sub,Int.mul_one]
        omega

theorem xcpfsReaddirSpec {pos : Int} {room : Nat} (start : 0 ≤ startSlot pos) (inside : (startSlot pos).toNat ≤ dir.npages) :
    xcpfsReaddir dir pos room =
      some (((liveFrom dir (startSlot pos).toNat).take room).map (emitted dir),
        startSlot pos + pageSize * (stopSlot dir (liveFrom dir (startSlot pos).toNat) room - startSlot pos)) := by
  unfold xcpfsReaddir
  dsimp only
  rw [if_neg (by omega),readdirLoopSpec (by omega),Int.toNat_of_nonneg start]

theorem readdirRight {pos : Int} {slot : Nat} (room : Nat) (right : StartsRight dir (pos,slot)) (left : liveFrom dir slot ≠ []) :
    xcpfsReaddir dir pos room = some (((liveFrom dir slot).take room).map (emitted dir),
      startSlot pos + pageSize * (stopSlot dir (liveFrom dir slot) room - startSlot pos)) := by
  obtain ⟨start,same⟩ := right
  change liveFrom dir (startSlot pos).toNat = liveFrom dir slot at same
  have inside : (startSlot pos).toNat ≤ dir.npages := by
    by_contra above
    exact left (same ▸ liveFromEnd (by omega))
  rw [xcpfsReaddirSpec start inside,same]

theorem readdirDone {pos : Int} {slot : Nat} (room : Nat) (right : StartsRight dir (pos,slot)) (done : liveFrom dir slot = []) :
    ∃ next, xcpfsReaddir dir pos room = some ([],next) := by
  obtain ⟨start,same⟩ := right
  change liveFrom dir (startSlot pos).toNat = liveFrom dir slot at same
  by_cases inside : (startSlot pos).toNat ≤ dir.npages
  · exact ⟨_,by rw [xcpfsReaddirSpec start inside,same,done,List.take_nil,List.map_nil]⟩
  · unfold xcpfsReaddir
    dsimp only
    have none : dir.npages - (startSlot pos).toNat = 0 := by omega
    rw [if_neg (Int.not_lt.mpr start),none]
    exact ⟨_,rfl⟩

theorem liveFromHead {slot : Nat} {first : Nat} {rest more : List Nat} (here : liveFrom dir i = first :: rest)
    (there : liveFrom dir slot = first :: more) : liveFrom dir i = liveFrom dir slot := by
  have left : liveFrom dir first = (liveFrom dir i).drop 0 := liveFromDrop (by rw [here]; rfl)
  have right : liveFrom dir first = (liveFrom dir slot).drop 0 := liveFromDrop (by rw [there]; rfl)
  rw [List.drop_zero] at left right
  rw [← left,← right]

theorem emittedInjective : Function.Injective (emitted dir) := by
  intro i j same
  exact congrArg Emitted.slot same

theorem rightOfCall {pos next : Int} {room slot : Nat} {out : List Emitted} {rest : List Emitted} (positive : 0 < room)
    (call : xcpfsReaddir dir pos room = some (out,next)) (total : (liveFrom dir slot).map (emitted dir) = out ++ rest)
    (quiet : out = [] → rest = []) : StartsRight dir (pos,slot) := by
  have start : 0 ≤ startSlot pos := by
    by_contra below
    unfold xcpfsReaddir at call
    dsimp only at call
    rw [if_pos (by omega)] at call
    cases call
  refine ⟨start,?_⟩
  change liveFrom dir (startSlot pos).toNat = liveFrom dir slot
  by_cases inside : (startSlot pos).toNat ≤ dir.npages
  · rw [xcpfsReaddirSpec start inside] at call
    have same : ((liveFrom dir (startSlot pos).toNat).take room).map (emitted dir) = out :=
      congrArg Prod.fst (Option.some.inj call)
    obtain ⟨n,count⟩ : ∃ n, room = n + 1 := ⟨room - 1,by omega⟩
    cases from_ : liveFrom dir (startSlot pos).toNat with
    | nil =>
      rw [from_,List.take_nil,List.map_nil] at same
      rw [← same,quiet same.symm,List.append_nil,List.map_eq_nil_iff] at total
      exact total.symm
    | cons first more =>
      rw [from_,count,List.take_succ_cons,List.map_cons] at same
      cases left : liveFrom dir slot with
      | nil =>
        rw [left,← same] at total
        cases total
      | cons head tail =>
        rw [left,← same,List.map_cons,List.cons_append,List.cons.injEq] at total
        rw [← from_,← left]
        exact liveFromHead from_ (by rw [left,emittedInjective total.1])
  · have none : liveFrom dir (startSlot pos).toNat = [] := liveFromEnd (by omega)
    unfold xcpfsReaddir at call
    dsimp only at call
    have zero : dir.npages - (startSlot pos).toNat = 0 := by omega
    rw [if_neg (Int.not_lt.mpr start),zero] at call
    have same : [] = out := congrArg Prod.fst (Option.some.inj call)
    rw [← same,quiet same.symm,List.append_nil,List.map_eq_nil_iff] at total
    rw [none,total]

theorem listedCall {pos : Int} {rooms : Nat → Nat} {all : List Emitted} (listed : Listed dir pos rooms all) :
    ∃ out next rest, xcpfsReaddir dir pos (rooms 0) = some (out,next) ∧ all = out ++ rest ∧ (out = [] → rest = []) := by
  cases listed with
  | last call => exact ⟨[],_,[],call,rfl,fun _ => rfl⟩
  | more call some_ later => exact ⟨_,_,_,call,rfl,fun none => absurd none some_⟩

theorem listedLater {pos next : Int} {rooms : Nat → Nat} {out rest : List Emitted} (listed : Listed dir pos rooms (out ++ rest))
    (call : xcpfsReaddir dir pos (rooms 0) = some (out,next)) (some_ : out ≠ []) :
    Listed dir next (fun j => rooms (j + 1)) rest := by
  generalize whole : out ++ rest = all at listed
  cases listed with
  | last other =>
    rw [call] at other
    exact absurd (congrArg Prod.fst (Option.some.inj other)) some_
  | more other _ later =>
    rw [call] at other
    cases Option.some.inj other
    rw [List.append_cancel_left whole]
    exact later

theorem allStartCons {pos : Int} {slot : Nat} {rooms : Nat → Nat} (left : liveFrom dir slot ≠ []) :
    AllStartRight dir pos slot rooms ↔ StartsRight dir (pos,slot) ∧
      AllStartRight dir (startSlot pos + pageSize * (stopSlot dir (liveFrom dir slot) (rooms 0) - startSlot pos))
        (stopSlot dir (liveFrom dir slot) (rooms 0)) (fun k => rooms (k + 1)) := by
  constructor
  · intro all
    refine ⟨all 0 (fun i below => absurd below (Nat.not_lt_zero i)),?_⟩
    intro j unlisted
    apply all (j + 1)
    intro i below
    cases i with
    | zero => exact left
    | succ i => exact unlisted i (Nat.lt_of_succ_lt_succ below)
  · intro ⟨first,later⟩ j unlisted
    cases j with
    | zero => exact first
    | succ j => exact later j (fun i below => unlisted (i + 1) (Nat.succ_lt_succ below))

theorem allStartDone {pos : Int} {slot : Nat} {rooms : Nat → Nat} (done : liveFrom dir slot = []) :
    AllStartRight dir pos slot rooms ↔ StartsRight dir (pos,slot) := by
  constructor
  · intro all
    exact all 0 (fun i below => absurd below (Nat.not_lt_zero i))
  · intro first j unlisted
    cases j with
    | zero => exact first
    | succ j => exact absurd done (unlisted 0 (Nat.succ_pos j))

/- Each call takes a part of what is left, so the induction is on its length. -/
theorem listedIff {pos : Int} {slot : Nat} {rooms : Nat → Nat} (positive : ∀ j, 0 < rooms j) :
    Listed dir pos rooms ((liveFrom dir slot).map (emitted dir)) ↔ AllStartRight dir pos slot rooms := by
  obtain ⟨n,count⟩ : ∃ n, (liveFrom dir slot).length = n := ⟨_,rfl⟩
  induction n using Nat.strongRecOn generalizing pos slot rooms with
  | ind n ih =>
    by_cases done : liveFrom dir slot = []
    · rw [allStartDone done,done,List.map_nil]
      constructor
      · intro listed
        obtain ⟨out,next,rest,call,total,quiet⟩ := listedCall listed
        exact rightOfCall (positive 0) call (by rw [done]; exact total) quiet
      · intro right
        obtain ⟨next,call⟩ := readdirDone (rooms 0) right done
        exact .last call
    · rw [allStartCons done]
      have rest := stopRest dir slot (rooms 0)
      have shorter : (liveFrom dir (stopSlot dir (liveFrom dir slot) (rooms 0))).length < n := by
        have some_ := List.length_pos_iff.mpr done
        have room := positive 0
        rw [rest,List.length_drop]
        omega
      have taken : ((liveFrom dir slot).take (rooms 0)).map (emitted dir) ≠ [] := by
        have room := positive 0
        rw [Ne,List.map_eq_nil_iff,List.take_eq_nil_iff]
        exact not_or.mpr ⟨by omega,done⟩
      have split : (liveFrom dir slot).map (emitted dir) = ((liveFrom dir slot).take (rooms 0)).map (emitted dir) ++
          (liveFrom dir (stopSlot dir (liveFrom dir slot) (rooms 0))).map (emitted dir) := by
        rw [rest,← List.map_append,List.take_append_drop]
      have later : ∀ j, 0 < rooms (j + 1) := fun j => positive (j + 1)
      have step : ∀ pos, Listed dir pos (fun j => rooms (j + 1)) ((liveFrom dir (stopSlot dir (liveFrom dir slot) (rooms 0))).map (emitted dir)) ↔
          AllStartRight dir pos (stopSlot dir (liveFrom dir slot) (rooms 0)) (fun j => rooms (j + 1)) :=
        fun _ => ih _ shorter later rfl
      constructor
      · intro listed
        obtain ⟨out,next,rest,call,total,quiet⟩ := listedCall listed
        have right : StartsRight dir (pos,slot) := rightOfCall (positive 0) call total quiet
        refine ⟨right,(step _).mp ?_⟩
        rw [split] at listed
        exact listedLater listed (readdirRight (rooms 0) right done) taken
      · intro ⟨right,later⟩
        rw [split]
        exact .more (readdirRight (rooms 0) right done) taken ((step _).mpr later)

theorem startSlotSmall {n : Nat} (small : n < 2 ^ 19) : startSlot (pageSize * n) = pageSize * n := by
  have first : toInt32 (4096 * n) = 4096 * n := toInt32Small (by omega) (by omega)
  have last : toInt32 (4096 * n + (4096 - 1)) = 4096 * n + (4096 - 1) := toInt32Small (by omega) (by omega)
  unfold startSlot
  dsimp only
  rw [pageBytes,first,last]
  omega

theorem allStartSmall (rooms : Nat → Nat) (positive : ∀ j, 0 < rooms j) (small : dir.npages < 2 ^ 19) :
    AllStartRight dir 0 0 rooms ↔ (liveFrom dir 0).length ≤ rooms 0 := by
  have zero : startSlot 0 = 0 := startSlotSmall (n := 0) (by decide)
  have first : StartsRight dir (0,0) := by
    refine ⟨Int.le_of_eq zero.symm,?_⟩
    dsimp only
    rw [zero]
    rfl
  by_cases done : liveFrom dir 0 = []
  · rw [allStartDone done,done]
    exact iff_of_true first (Nat.zero_le _)
  · rw [allStartCons done]
    obtain ⟨stop,slot⟩ : ∃ stop, stop = stopSlot dir (liveFrom dir 0) (rooms 0) := ⟨_,rfl⟩
    rw [← slot,zero,Int.sub_zero,Int.zero_add]
    constructor
    · intro ⟨_,later⟩
      by_contra more
      -- the refused slot is live, lies behind a listed one, and the next start is past it
      obtain ⟨x,here⟩ : ∃ x, (liveFrom dir 0)[rooms 0]? = some x := ⟨_,List.getElem?_eq_getElem (by omega)⟩
      have stopped : stop = x := by rw [slot,stopSlot,here]; rfl
      have live := liveFromMem.mp (List.mem_of_getElem? here)
      have right : StartsRight dir (pageSize * stop,stop) := later 0 (fun i below => absurd below (Nat.not_lt_zero i))
      have same : liveFrom dir (startSlot (pageSize * stop)).toNat = liveFrom dir stop := right.2
      have member : x ∈ liveFrom dir stop := liveFromMem.mpr ⟨Nat.le_of_eq stopped,live.2⟩
      rw [← same,startSlotSmall (by omega)] at member
      have above := (liveFromMem.mp member).1
      have behind : x ≠ 0 := by
        intro none
        have rest := congrArg List.length (liveFromDrop here)
        have room := positive 0
        rw [none,List.length_drop] at rest
        omega
      rw [pageBytes] at above
      omega
    · intro all
      refine ⟨first,?_⟩
      have last : stop = dir.npages := by
        rw [slot,stopSlot,List.getElem?_eq_none all]
        rfl
      have none : liveFrom dir stop = [] := liveFromEnd (Nat.le_of_eq last.symm)
      rw [allStartDone none]
      refine ⟨?_,?_⟩
      · dsimp only
        rw [last,startSlotSmall small,pageBytes]
        omega
      · dsimp only
        rw [none,last,startSlotSmall small]
        apply liveFromEnd
        rw [pageBytes]
        omega

end

/- The calls list every live slot once, in order, exactly when each of them starts
right; in a directory whose positions fit an int, when the first call takes them all. -/
theorem readdirComplete (dir : Dir) (rooms : Nat → Nat) (positive : ∀ j, 0 < rooms j) :
    (Complete dir rooms ↔ AllStartRight dir 0 0 rooms) ∧
      (dir.npages < 2 ^ 19 → (Complete dir rooms ↔ (liveFrom dir 0).length ≤ rooms 0)) := by
  have exact_ : Complete dir rooms ↔ AllStartRight dir 0 0 rooms := listedIff positive
  refine ⟨exact_,?_⟩
  intro small
  rw [exact_,allStartSmall rooms positive small]

theorem initDirLive (ino : Ino) : liveFrom (xcpfsInitDir ino.val) 0 = [0,1] := by
  have word : ino.val < 2 ^ 32 := by
    have bound := ino.bound
    omega
  have positive := ino.positive
  obtain ⟨_,count,first,second⟩ := initDirPages ino.val
  have live0 : isLive (xcpfsInitDir ino.val) 0 = true := by
    rw [isLive,first,dotPageIno _ _ word (by decide),bne_iff_ne]
    omega
  have live1 : isLive (xcpfsInitDir ino.val) 1 = true := by
    rw [isLive,second,dotPageIno _ _ word (by decide),bne_iff_ne]
    omega
  rw [liveFromCons (by omega),if_pos live0,liveFromCons (by omega),if_pos live1,liveFromEnd (by omega)]

/- A fresh directory read with room for two entries a call. -/
theorem readdirCompleteFresh : Complete (xcpfsInitDir 3) (fun _ => 2) := by
  obtain ⟨_,count,_⟩ := initDirPages 3
  have whole := (readdirComplete (xcpfsInitDir 3) (fun _ => 2) (fun _ => by decide)).2 (by rw [count]; decide)
  rw [whole,initDirLive ⟨3,by decide,by decide⟩]
  exact Nat.le_refl _

/- With room for one entry a call ".." is never listed. -/
theorem readdirSkips : ¬∀ (dir : Dir) (rooms : Nat → Nat), (∀ j, 0 < rooms j) → Complete dir rooms := by
  intro claim
  obtain ⟨_,count,_⟩ := initDirPages 3
  have complete := claim (xcpfsInitDir 3) (fun _ => 1) (fun _ => Nat.one_pos)
  have all := (allStartSmall (fun _ => 1) (fun _ => Nat.one_pos) (by rw [count]; decide)).mp
    ((listedIff (fun _ => Nat.one_pos)).mp complete)
  rw [initDirLive ⟨3,by decide,by decide⟩] at all
  exact absurd all (by decide)

end Xcpfs
