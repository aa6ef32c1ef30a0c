import Xcpfs.SizeChange

/-! `__commit_write` and its callers. `pos`, `copied` and their sum are ints; `i_size` and the
positions of the callers have 64 bits. -/
namespace Xcpfs

open CBytes (Memory)

/- The page, its inode and the readers of `cp_sem`. -/
structure CommitState where
  ino : Nat
  iSize : Int
  inodeDirty : Bool
  uptodate : Bool
  dirty : Bool
  locked : Bool
  refs : Nat
  cpReaders : Nat
  deriving DecidableEq, Repr

namespace CommitState

def commitWrite (s : CommitState) (pos copied : Int) (locked : Bool) : CommitState × Int :=
  let s := { s with uptodate := true, dirty := true }
  let last := toInt32 (pos + copied)
  let s :=
    if s.ino ≠ nodeIno then
      if last > s.iSize then { s with iSize := last, inodeDirty := true } else s
    else { s with inodeDirty := true }
  let s := { s with locked := false, refs := s.refs - 1 }
  (if locked then { s with cpReaders := s.cpReaders - 1 } else s,copied)

/- The arguments are converted at the call. -/
def xcpfsCommitWrite (s : CommitState) (pos copied : Int) : CommitState × Int :=
  s.commitWrite (toInt32 pos) (toInt32 copied) false

end CommitState

def pageOffset (index : Nat) : Nat := index * pageSize

/- `page` is a directory page of dir.c or the partial block of a truncate. -/
inductive CommitCall where
  | writeEnd (pos copied : Nat)
  | flushNat (nid : Nat)
  | flushZit (zone : Nat)
  | page (index : Nat)
  deriving DecidableEq, Repr

namespace CommitCall

def position : CommitCall → Nat
  | writeEnd pos _ => pos
  | flushNat nid => pageOffset (nid / natEntryPerBlock)
  | flushZit zone => pageOffset (zone / zitEntryPerBlock + zitStart)
  | page index => pageOffset index

def length : CommitCall → Nat
  | writeEnd _ copied => copied
  | _ => pageSize

def run (call : CommitCall) (s : CommitState) : CommitState := (s.xcpfsCommitWrite call.position call.length).1

/- The byte behind the last one that is written. -/
def reach (call : CommitCall) : Nat := call.position + call.length

end CommitCall

theorem toInt32Sum (a b : Int) : toInt32 (toInt32 a + toInt32 b) = toInt32 (a + b) := by
  unfold toInt32
  rw [Int.add_bmod_bmod,Int.bmod_add_bmod]

theorem toInt32Below {n : Nat} (far : 2 ^ 31 ≤ n) : toInt32 n < n := by
  simp only [toInt32,Int.bmod_def]
  omega

theorem toInt32MaxIff {size : Int} {n : Nat} : max size (toInt32 n) = max size n ↔ n < 2 ^ 31 ∨ (n : Int) ≤ size := by
  cases Nat.lt_or_ge n (2 ^ 31) with
  | inl near =>
    rw [toInt32Small (by omega) (by omega)]
    exact iff_of_true rfl (.inl near)
  | inr far =>
    have below := toInt32Below far
    constructor
    · intro same
      right
      omega
    · intro kept
      have reached := kept.resolve_left (by omega)
      rw [max_eq_left reached,max_eq_left (by omega)]

section
variable {s : CommitState}

theorem commitWriteSize (other : s.ino ≠ nodeIno) (pos copied : Int) :
    (s.xcpfsCommitWrite pos copied).1.iSize = max s.iSize (toInt32 (pos + copied)) := by
  simp only [CommitState.xcpfsCommitWrite,CommitState.commitWrite,toInt32Sum,if_pos other,Bool.false_eq_true,if_false]
  split
  · dsimp only
    omega
  · dsimp only
    omega

theorem commitWriteIno (pos copied : Int) : (s.xcpfsCommitWrite pos copied).1.ino = s.ino := by
  simp only [CommitState.xcpfsCommitWrite,CommitState.commitWrite,Bool.false_eq_true,if_false]
  split
  · split <;> rfl
  · rfl

theorem runSize (call : CommitCall) (other : s.ino ≠ nodeIno) :
    (call.run s).iSize = max s.iSize (toInt32 call.reach) := by
  rw [CommitCall.run,commitWriteSize other,CommitCall.reach,Nat.cast_add]

theorem runIno (call : CommitCall) : (call.run s).ino = s.ino := commitWriteIno ..

end

theorem pageCommits (iSize : Int) (index : Nat) {s : CommitState} (other : s.ino ≠ nodeIno) (size : s.iSize = iSize) :
    sizeAfter iSize index = ((CommitCall.page index).run s).iSize := by
  have near : toInt32 pageSize = pageSize := rfl
  have last : toInt32 (toInt32 (index * pageSize) + pageSize) = toInt32 (CommitCall.page index).reach := by
    rw [← near,toInt32Sum,near]
    rfl
  rw [runSize _ other,size,sizeAfter,last]
  omega

/-- A commit moves `i_size` to the end of what is written, unless that end lies at 2 GiB or
beyond it and behind the present size. -/
theorem commitReaches (call : CommitCall) {s : CommitState} (other : s.ino ≠ nodeIno) :
    (call.run s).iSize = max s.iSize call.reach ↔ call.reach < 2 ^ 31 ∨ (call.reach : Int) ≤ s.iSize := by
  rw [runSize call other]
  exact toInt32MaxIff

/- The meta file of a fresh mount, with the page of a block locked. -/
def freshMeta : CommitState where
  ino := metaIno
  iSize := 0
  inodeDirty := false
  uptodate := true
  dirty := false
  locked := true
  refs := 2
  cpReaders := 0

/-- The NAT block of the first regular nid. -/
theorem commitReachesNat : ((CommitCall.flushNat 2730454).run freshMeta).iSize =
    max freshMeta.iSize (CommitCall.flushNat 2730454).reach :=
  (commitReaches (.flushNat 2730454) (by decide)).mpr (.inl (by decide))

/-- The first ZIT block ends at byte 2457604096; the size of the meta file stays 0. -/
theorem zitNotReached : ((CommitCall.flushZit 0).run freshMeta).iSize = 0 ∧ (CommitCall.flushZit 0).reach = 2457604096 := by
  decide

def commitAll (calls : List CommitCall) (s : CommitState) : CommitState := calls.foldl (fun s call => call.run s) s

theorem commitsReach {s : CommitState} (other : s.ino ≠ nodeIno) {calls : List CommitCall}
    (near : ∀ call ∈ calls, call.reach < 2 ^ 31) :
    (commitAll calls s).iSize = calls.foldl (fun size call => max size (call.reach : Int)) s.iSize := by
  induction calls generalizing s with
  | nil => rfl
  | cons call calls ih =>
    obtain ⟨first,rest⟩ := List.forall_mem_cons.mp near
    have small : toInt32 call.reach = call.reach := toInt32Small (by omega) (by omega)
    have step : (call.run s).iSize = max s.iSize call.reach := by rw [runSize call other,small]
    have tail := ih (s := call.run s) (by rwa [runIno]) rest
    rw [step] at tail
    exact tail

end Xcpfs
