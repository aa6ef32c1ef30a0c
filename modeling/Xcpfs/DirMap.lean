import Xcpfs.Directory
import Xcpfs.Lib.EventRun

/-! A directory as a finite map from names to inos, over any sequence of operations.
`bound` is the map the answers so far describe; the slots hold the map as long as
each new name can be read back from the page it was put in. -/
namespace Xcpfs

open CBytes EventRun

structure DirRun where
  dir : Dir
  bound : Name → Option Nat

inductive DirOp where
  | create (name : Name) (ino : Ino)
  | mkdir (name : Name) (ino : Ino)
  | unlink (name : Name)
  | rmdir (name : Name) (child : Dir)
  | lookup (name : Name)

/- mknod, create and mkdir write the parent through `xcpfs_add_link` alone. -/
def linkRun (s : DirRun) (name : Name) (ino : Ino) : DirRun :=
  match xcpfsAddLink s.dir name.bytes ino.val with
  | (dir,.ok ()) => { dir := dir, bound := Function.update s.bound name (some ino.val) }
  | (dir,.error _) => { s with dir := dir }

def unlinkRun (s : DirRun) (name : Name) (result : Dir × Except Errno Unit) : DirRun :=
  match result with
  | (dir,.ok ()) => { dir := dir, bound := Function.update s.bound name none }
  | (dir,.error _) => { s with dir := dir }

def dirStep (s : DirRun) : DirOp → Option DirRun
  | .create name ino => some (linkRun s name ino)
  | .mkdir name ino => some (linkRun s name ino)
  | .unlink name => some (unlinkRun s name (xcpfsUnlink s.dir name.bytes))
  | .rmdir name child => some (unlinkRun s name (xcpfsRmdir s.dir child name.bytes))
  | .lookup _ => some s

def newDir (ino : Ino) : DirRun := { dir := xcpfsInitDir ino.val, bound := fun _ => none }

structure FiniteMap (s : DirRun) : Prop where
  found : ∀ name : Name, xcpfsInodeByName s.dir name.bytes = (s.bound name).getD 0
  refused : ∀ (name : Name) (ino : Ino),
    (xcpfsAddLink s.dir name.bytes ino.val).2 = .error .eexist ↔ (s.bound name).isSome
  distinct : ∀ i j, s.dir.Live i → s.dir.Live j → entryName (s.dir.page i) = entryName (s.dir.page j) → i = j

def LinkFits (s : DirRun) (name : Name) (ino : Ino) : Prop :=
  (s.bound name).isSome ∨
    ((name.bytes.length < maxFnameLen ∨ ino.val % 256 = 0) ∧
      ((∃ i < s.dir.npages, entryIno (s.dir.page i) = 0) ∨ s.dir.npages < 2 ^ 19 - 1))

def dirFits (s : DirRun) : DirOp → Prop
  | .create name ino => LinkFits s name ino
  | .mkdir name ino => LinkFits s name ino
  | _ => True

structure HoldsMap (s : DirRun) : Prop where
  size : s.dir.iSize = s.dir.npages * 4096
  room : s.dir.npages < 2 ^ 19
  cleared : ∀ i < s.dir.npages, entryIno (s.dir.page i) = 0 → entryNamelen (s.dir.page i) = 0
  readable : ∀ i, s.dir.Live i → ∀ name : Name, entryName (s.dir.page i) = name.bytes → sameName name.bytes (s.dir.page i) = true
  distinct : ∀ i j, s.dir.Live i → s.dir.Live j → entryName (s.dir.page i) = entryName (s.dir.page j) → i = j
  tracks : ∀ (name : Name) (ino : Nat), s.bound name = some ino ↔
    ∃ i, s.dir.Live i ∧ entryName (s.dir.page i) = name.bytes ∧ entryIno (s.dir.page i) = ino

theorem pageBytes : (pageSize : Int) = 4096 := by
  unfold pageSize
  rfl

theorem npagesOf {dir : Dir} {n : Nat} (size : dir.iSize = n * 4096) (room : n < 2 ^ 19) : dir.npages = n := by
  have pages : (dir.iSize + (pageSize - 1)) / pageSize = n := by
    unfold pageSize
    omega
  rw [Dir.npages,pages,toInt32Small (by omega) (by omega),Int.toNat_natCast]

section
variable {dir : Dir} {page : Memory} {index : Nat}

theorem commitISize (page : Memory) (index : Nat) : (commitWrite dir index page).iSize =
    if toInt32 (toInt32 (index * 4096) + 4096) > dir.iSize then toInt32 (toInt32 (index * 4096) + 4096)
    else dir.iSize := by
  unfold commitWrite sizeAfter
  dsimp only
  rw [pageBytes]

/- At index 2^19 - 1 the byte behind the page is 2^31, which wraps below any size. -/
theorem commitSize (page : Memory) (size : dir.iSize = dir.npages * 4096) (room : dir.npages < 2 ^ 19)
    (inside : index < dir.npages ∨ index = 2 ^ 19 - 1) : (commitWrite dir index page).iSize = dir.iSize := by
  have small : toInt32 (index * 4096) = index * 4096 := toInt32Small (by omega) (by omega)
  have last : toInt32 (index * 4096 + 4096) ≤ dir.iSize := by
    simp only [toInt32,Int.bmod_def]
    omega
  rw [commitISize,small,if_neg (by omega)]

theorem commitNpages (page : Memory) (size : dir.iSize = dir.npages * 4096) (room : dir.npages < 2 ^ 19)
    (inside : index < dir.npages ∨ index = 2 ^ 19 - 1) : (commitWrite dir index page).npages = dir.npages := by
  rw [Dir.npages,commitSize page size room inside,← Dir.npages]

theorem commitGrows (page : Memory) (size : dir.iSize = dir.npages * 4096) (room : dir.npages < 2 ^ 19 - 1) :
    (commitWrite dir dir.npages page).iSize = (dir.npages + 1 : Nat) * 4096 ∧
      (commitWrite dir dir.npages page).npages = dir.npages + 1 := by
  have grown : (commitWrite dir dir.npages page).iSize = (dir.npages + 1 : Nat) * 4096 := by
    have small : toInt32 (dir.npages * 4096) = dir.npages * 4096 := toInt32Small (by omega) (by omega)
    rw [commitISize,small,toInt32Small (by omega) (by omega),if_pos (by omega)]
    omega
  exact ⟨grown,npagesOf grown (by omega)⟩

end

section
variable {s : DirRun} {name : Name} {i tar : Nat}

theorem liveOfSame (holds : HoldsMap s) (inside : i < s.dir.npages)
    (same : sameName name.bytes (s.dir.page i) = true) : s.dir.Live i := by
  refine ⟨inside,?_⟩
  intro free
  have length := (sameNameIff.mp same).1
  rw [holds.cleared i inside free] at length
  exact name.nonempty (List.length_eq_zero_iff.mp length.symm)

theorem boundOfSame (holds : HoldsMap s) (inside : i < s.dir.npages)
    (same : sameName name.bytes (s.dir.page i) = true) : s.bound name = some (entryIno (s.dir.page i)) :=
  (holds.tracks name _).mpr ⟨i,liveOfSame holds inside same,entryNameOf same,rfl⟩

theorem sameOfBound (holds : HoldsMap s) {ino : Nat} (here : s.bound name = some ino) :
    ∃ i, s.dir.Live i ∧ sameName name.bytes (s.dir.page i) = true ∧ entryIno (s.dir.page i) = ino := by
  obtain ⟨i,live,carries,value⟩ := (holds.tracks name ino).mp here
  exact ⟨i,live,holds.readable i live name carries,value⟩

/- What `xcpfs_add_link` finds out before it writes. -/
theorem scanDecides (holds : HoldsMap s) (name : Name) :
    (addScan s.dir name.bytes s.dir.npages s.dir.npages 0 s.dir.npages = .error .eexist ∧ (s.bound name).isSome) ∨
    (∃ tar, addScan s.dir name.bytes s.dir.npages s.dir.npages 0 s.dir.npages = .ok tar ∧ s.bound name = none ∧
      (∀ i < s.dir.npages, sameName name.bytes (s.dir.page i) = false) ∧
      (tar < s.dir.npages ∧ entryIno (s.dir.page tar) = 0 ∨
        tar = s.dir.npages ∧ ∀ i < s.dir.npages, entryIno (s.dir.page i) ≠ 0)) := by
  obtain ⟨ran,i,_,inside,same⟩ | ⟨tar,ran,none,slot,full⟩ :=
    addScanSpec s.dir name.bytes (.inl rfl) (Nat.le_of_eq (Nat.zero_add s.dir.npages))
  · rw [Nat.zero_add] at inside
    exact .inl ⟨ran,by rw [boundOfSame holds inside same]; rfl⟩
  · rw [Nat.zero_add] at none full
    have unmet : ∀ i < s.dir.npages, sameName name.bytes (s.dir.page i) = false :=
      fun i inside => none i (Nat.zero_le _) inside
    refine .inr ⟨tar,ran,?_,unmet,?_⟩
    · cases here : s.bound name with
      | none => rfl
      | some ino =>
        obtain ⟨i,live,same,_⟩ := sameOfBound holds here
        exact absurd same (by rw [unmet i live.1]; exact Bool.false_ne_true)
    · cases slot with
      | inl last => exact .inr ⟨last,fun i inside => (full last).2 i (Nat.zero_le _) inside⟩
      | inr free => exact .inl free

theorem findDecides (holds : HoldsMap s) (name : Name) :
    (∃ i, xcpfsFindEntry s.dir name.bytes = some i ∧ s.dir.Live i ∧ entryName (s.dir.page i) = name.bytes ∧
      s.bound name = some (entryIno (s.dir.page i))) ∨
    (xcpfsFindEntry s.dir name.bytes = none ∧ s.bound name = none) := by
  cases ran : xcpfsFindEntry s.dir name.bytes with
  | some i =>
    obtain ⟨_,inside,live,same⟩ := findScanFound ran
    rw [Nat.zero_add] at inside
    exact .inl ⟨i,rfl,⟨inside,live⟩,entryNameOf same,boundOfSame holds inside same⟩
  | none =>
    refine .inr ⟨rfl,?_⟩
    cases here : s.bound name with
    | none => rfl
    | some ino =>
      obtain ⟨i,live,same,_⟩ := sameOfBound holds here
      have missed := findScanMissed ran i (Nat.zero_le _) (by rw [Nat.zero_add]; exact live.1) live.2
      exact absurd same (by rw [missed]; exact Bool.false_ne_true)

theorem finiteMapOf (holds : HoldsMap s) : FiniteMap s := by
  refine ⟨?_,?_,holds.distinct⟩
  · intro name
    unfold xcpfsInodeByName
    obtain ⟨i,ran,_,_,here⟩ | ⟨ran,here⟩ := findDecides holds name
    · rw [ran,here]
      rfl
    · rw [ran,here]
      rfl
  · intro name ino
    unfold xcpfsAddLink
    obtain ⟨ran,here⟩ | ⟨tar,ran,here,_⟩ := scanDecides holds name
    · rw [ran]
      exact iff_of_true rfl here
    · rw [ran,here]
      exact iff_of_false (fun same => by cases same) Bool.false_ne_true

theorem linkHolds (holds : HoldsMap s) (ino : Ino) (unbound : s.bound name = none) (below : tar ≤ s.dir.npages)
    (free : ¬s.dir.Live tar) (reads : name.bytes.length < maxFnameLen ∨ ino.val % 256 = 0) {dir : Dir}
    (pages : dir.page = Function.update s.dir.page tar (linkPage (s.dir.page tar) name.bytes ino.val))
    (count : dir.npages = max s.dir.npages (tar + 1)) (size : dir.iSize = dir.npages * 4096) (room : dir.npages < 2 ^ 19) :
    HoldsMap { dir := dir, bound := Function.update s.bound name (some ino.val) } := by
  have word : ino.val < 2 ^ 32 := by
    have bound := ino.bound
    omega
  have here : dir.page tar = linkPage (s.dir.page tar) name.bytes ino.val := by rw [pages,Function.update_self]
  have value : entryIno (dir.page tar) = ino.val := by rw [here,linkPageIno _ _ _ word]
  have carries : entryName (dir.page tar) = name.bytes := by rw [here,linkPageName _ _ _ name.fits]
  have away : ∀ i, i ≠ tar → dir.page i = s.dir.page i := fun i other => by
    rw [pages,Function.update_of_ne other]
  have live : ∀ i, i ≠ tar → (dir.Live i ↔ s.dir.Live i) := by
    intro i other
    unfold Dir.Live
    rw [away i other,count]
    constructor
    · intro ⟨inside,taken⟩
      exact ⟨by omega,taken⟩
    · intro ⟨inside,taken⟩
      exact ⟨by omega,taken⟩
  have target : dir.Live tar := ⟨by omega,by rw [value]; exact Nat.ne_of_gt ino.positive⟩
  have fresh : ∀ i, s.dir.Live i → entryName (s.dir.page i) ≠ name.bytes := by
    intro i taken same
    have found := (holds.tracks name _).mpr ⟨i,taken,same,rfl⟩
    rw [unbound] at found
    cases found
  constructor
  case size => exact size
  case room => exact room
  case cleared =>
    intro i inside zero
    change i < dir.npages at inside
    have other : i ≠ tar := fun same => target.2 (same ▸ zero)
    have old := away i other
    change entryIno (dir.page i) = 0 at zero
    change entryNamelen (dir.page i) = 0
    rw [old] at zero ⊢
    exact holds.cleared i (by omega) zero
  case readable =>
    intro i taken called same
    change dir.Live i at taken
    change entryName (dir.page i) = called.bytes at same
    change sameName called.bytes (dir.page i) = true
    by_cases at_ : i = tar
    · subst at_
      rw [← same,carries,here]
      exact (linkPageSame _ _ _ name.fits).mpr reads
    · rw [away i at_] at same ⊢
      exact holds.readable i ((live i at_).mp taken) called same
  case distinct =>
    intro i j first second same
    change dir.Live i at first
    change dir.Live j at second
    change entryName (dir.page i) = entryName (dir.page j) at same
    by_cases left : i = tar
    · by_cases right : j = tar
      · rw [left,right]
      · rw [left,carries,away j right] at same
        exact absurd same.symm (fresh j ((live j right).mp second))
    · by_cases right : j = tar
      · rw [right,carries,away i left] at same
        exact absurd same (fresh i ((live i left).mp first))
      · rw [away i left,away j right] at same
        exact holds.distinct i j ((live i left).mp first) ((live j right).mp second) same
  case tracks =>
    intro called number
    change Function.update s.bound name (some ino.val) called = some number ↔
      ∃ i, dir.Live i ∧ entryName (dir.page i) = called.bytes ∧ entryIno (dir.page i) = number
    by_cases own : called = name
    · subst own
      rw [Function.update_self,Option.some.injEq]
      constructor
      · intro same
        exact ⟨tar,target,carries,value.trans same⟩
      · intro ⟨i,taken,same,number⟩
        by_cases at_ : i = tar
        · rw [← number,at_,value]
        · rw [away i at_] at same
          exact absurd same (fresh i ((live i at_).mp taken))
    · rw [Function.update_of_ne own,holds.tracks]
      constructor
      · intro ⟨i,taken,same,number⟩
        have other : i ≠ tar := fun equal => free (equal ▸ taken)
        exact ⟨i,(live i other).mpr taken,by rw [away i other]; exact same,by rw [away i other]; exact number⟩
      · intro ⟨i,taken,same,number⟩
        have other : i ≠ tar := by
          intro equal
          subst equal
          rw [carries] at same
          apply own
          cases called
          cases name
          cases same
          rfl
        rw [away i other] at same number
        exact ⟨i,(live i other).mp taken,same,number⟩

theorem unlinkHolds (holds : HoldsMap s) (target : s.dir.Live i) (carries : entryName (s.dir.page i) = name.bytes) :
    HoldsMap { dir := xcpfsDeleteEntry s.dir i, bound := Function.update s.bound name none } := by
  have count : (xcpfsDeleteEntry s.dir i).npages = s.dir.npages := commitNpages _ holds.size holds.room (.inl target.1)
  have size : (xcpfsDeleteEntry s.dir i).iSize = s.dir.iSize := commitSize _ holds.size holds.room (.inl target.1)
  have here : (xcpfsDeleteEntry s.dir i).page i = clearPage (s.dir.page i) := Function.update_self ..
  have away : ∀ j, j ≠ i → (xcpfsDeleteEntry s.dir i).page j = s.dir.page j := fun j other =>
    Function.update_of_ne other ..
  have gone : ∀ j, (xcpfsDeleteEntry s.dir i).Live j → j ≠ i ∧ s.dir.Live j := by
    intro j taken
    have other : j ≠ i := by
      intro same
      subst same
      apply taken.2
      rw [here,clearPageIno]
    exact ⟨other,Nat.lt_of_lt_of_eq taken.1 count,away j other ▸ taken.2⟩
  constructor
  case size => exact size.trans (holds.size.trans (by rw [count]))
  case room => exact Nat.lt_of_le_of_lt (Nat.le_of_eq count) holds.room
  case cleared =>
    intro j inside zero
    change entryNamelen ((xcpfsDeleteEntry s.dir i).page j) = 0
    change entryIno ((xcpfsDeleteEntry s.dir i).page j) = 0 at zero
    by_cases at_ : j = i
    · rw [at_,here,clearPageNamelen]
    · rw [away j at_] at zero ⊢
      exact holds.cleared j (Nat.lt_of_lt_of_eq inside count) zero
  case readable =>
    intro j taken called same
    obtain ⟨other,old⟩ := gone j taken
    change entryName ((xcpfsDeleteEntry s.dir i).page j) = called.bytes at same
    change sameName called.bytes ((xcpfsDeleteEntry s.dir i).page j) = true
    rw [away j other] at same ⊢
    exact holds.readable j old called same
  case distinct =>
    intro j k first second same
    obtain ⟨left,oldJ⟩ := gone j first
    obtain ⟨right,oldK⟩ := gone k second
    change entryName ((xcpfsDeleteEntry s.dir i).page j) = entryName ((xcpfsDeleteEntry s.dir i).page k) at same
    rw [away j left,away k right] at same
    exact holds.distinct j k oldJ oldK same
  case tracks =>
    intro called number
    change Function.update s.bound name none called = some number ↔
      ∃ j, (xcpfsDeleteEntry s.dir i).Live j ∧ entryName ((xcpfsDeleteEntry s.dir i).page j) = called.bytes ∧
        entryIno ((xcpfsDeleteEntry s.dir i).page j) = number
    by_cases own : called = name
    · subst own
      rw [Function.update_self]
      refine iff_of_false (fun none => by cases none) ?_
      intro ⟨j,taken,same,_⟩
      obtain ⟨other,old⟩ := gone j taken
      rw [away j other] at same
      exact other (holds.distinct j i old target (same.trans carries.symm))
    · rw [Function.update_of_ne own,holds.tracks]
      constructor
      · intro ⟨j,taken,same,value⟩
        have other : j ≠ i := by
          intro equal
          subst equal
          apply own
          have bytes := same.symm.trans carries
          cases called
          cases name
          cases bytes
          rfl
        refine ⟨j,⟨Nat.lt_of_lt_of_eq taken.1 count.symm,?_⟩,?_,?_⟩
        · rw [away j other]
          exact taken.2
        · rw [away j other]
          exact same
        · rw [away j other]
          exact value
      · intro ⟨j,taken,same,value⟩
        obtain ⟨other,old⟩ := gone j taken
        rw [away j other] at same value
        exact ⟨j,old,same,value⟩

end

theorem initDirPages (ino : Nat) : (xcpfsInitDir ino).iSize = (2 : Nat) * 4096 ∧ (xcpfsInitDir ino).npages = 2 ∧
    (xcpfsInitDir ino).page 0 = dotPage ino [46] ∧ (xcpfsInitDir ino).page 1 = dotPage ino [46,46] := by
  have none : Dir.npages { page := fun _ _ => 0, iSize := 0 } = 0 := npagesOf rfl (by omega)
  have first := commitGrows (dotPage ino [46])
    (by rw [none]; rfl) (by rw [none]; omega)
  rw [none] at first
  have second := commitGrows (dotPage ino [46,46]) (by rw [first.1,first.2]) (by rw [first.2]; omega)
  rw [first.2] at second
  exact ⟨second.1,second.2,rfl,rfl⟩

theorem newDirHolds (ino : Ino) : HoldsMap (newDir ino) := by
  have word : ino.val < 2 ^ 32 := by
    have bound := ino.bound
    omega
  obtain ⟨size,count,first,second⟩ := initDirPages ino.val
  have slots : ∀ i < (newDir ino).dir.npages, entryIno ((newDir ino).dir.page i) = ino.val ∧
      (i = 0 ∧ entryName ((newDir ino).dir.page i) = [46] ∨ i = 1 ∧ entryName ((newDir ino).dir.page i) = [46,46]) := by
    intro i inside
    have which : i = 0 ∨ i = 1 := by
      have two := Nat.lt_of_lt_of_eq inside count
      omega
    cases which with
    | inl zero =>
      subst zero
      change entryIno ((xcpfsInitDir ino.val).page 0) = ino.val ∧ _
      change _ ∧ (_ ∧ entryName ((xcpfsInitDir ino.val).page 0) = [46] ∨ _)
      rw [first]
      exact ⟨dotPageIno _ _ word (by decide),.inl ⟨rfl,dotPageName _ _ (by decide)⟩⟩
    | inr one =>
      subst one
      change entryIno ((xcpfsInitDir ino.val).page 1) = ino.val ∧ _
      change _ ∧ (_ ∨ _ ∧ entryName ((xcpfsInitDir ino.val).page 1) = [46,46])
      rw [second]
      exact ⟨dotPageIno _ _ word (by decide),.inr ⟨rfl,dotPageName _ _ (by decide)⟩⟩
  have notDots : ∀ i < (newDir ino).dir.npages, ∀ name : Name, entryName ((newDir ino).dir.page i) ≠ name.bytes := by
    intro i inside name same
    obtain ⟨_,⟨_,dot⟩ | ⟨_,dots⟩⟩ := slots i inside
    · exact name.notDot (same.symm.trans dot)
    · exact name.notDotDot (same.symm.trans dots)
  constructor
  case size => exact size.trans (congrArg (fun n : Nat => (n : Int) * 4096) count.symm)
  case room => exact Nat.lt_of_le_of_lt (Nat.le_of_eq count) (by decide)
  case cleared =>
    intro i inside zero
    have positive := ino.positive
    rw [(slots i inside).1] at zero
    omega
  case readable =>
    intro i live name same
    exact absurd same (notDots i live.1 name)
  case distinct =>
    intro i j left right same
    obtain ⟨_,⟨i0,first⟩ | ⟨i1,first⟩⟩ := slots i left.1
    · obtain ⟨_,⟨j0,second⟩ | ⟨j1,second⟩⟩ := slots j right.1
      · rw [i0,j0]
      · rw [first,second] at same
        cases same
    · obtain ⟨_,⟨j0,second⟩ | ⟨j1,second⟩⟩ := slots j right.1
      · rw [first,second] at same
        cases same
      · rw [i1,j1]
  case tracks =>
    intro name number
    refine iff_of_false (fun none => by cases none) ?_
    intro ⟨i,live,same,_⟩
    exact notDots i live.1 name same

section
variable {s : DirRun}

theorem linkRunKeeps (holds : HoldsMap s) {name : Name} {ino : Ino} (fits : LinkFits s name ino) :
    HoldsMap (linkRun s name ino) := by
  unfold linkRun xcpfsAddLink
  obtain ⟨ran,_⟩ | ⟨tar,ran,unbound,_,slot⟩ := scanDecides holds name
  · rw [ran]
    exact holds
  · rw [ran]
    have room := holds.room
    cases fits with
    | inl bound =>
      rw [unbound] at bound
      cases bound
    | inr fits =>
      obtain ⟨reads,space⟩ := fits
      cases slot with
      | inl reused =>
        have count := commitNpages (linkPage (s.dir.page tar) name.bytes ino.val) holds.size room (.inl reused.1)
        have size := commitSize (linkPage (s.dir.page tar) name.bytes ino.val) holds.size room (.inl reused.1)
        refine linkHolds holds ino unbound (Nat.le_of_lt reused.1) (fun live => live.2 reused.2) reads rfl ?_ ?_ ?_
        · rw [count]
          omega
        · rw [size,count]
          exact holds.size
        · rw [count]
          exact room
      | inr grown =>
        obtain ⟨last,full⟩ := grown
        have below : s.dir.npages < 2 ^ 19 - 1 := by
          obtain ⟨i,inside,free⟩ | below := space
          · exact absurd free (full i inside)
          · exact below
        subst last
        obtain ⟨size,count⟩ := commitGrows (linkPage (s.dir.page s.dir.npages) name.bytes ino.val) holds.size below
        refine linkHolds holds ino unbound (Nat.le_refl _) (fun live => Nat.lt_irrefl _ live.1) reads rfl ?_ ?_ ?_
        · rw [count]
          omega
        · rw [count]
          exact size
        · rw [count]
          omega

theorem linkRunFails (holds : HoldsMap s) (name : Name) (ino : Ino) (unfit : ¬LinkFits s name ino) :
    ¬FiniteMap (linkRun s name ino) := by
  intro good
  have positive := ino.positive
  have room := holds.room
  obtain ⟨_,bound⟩ | ⟨tar,ran,unbound,none,slot⟩ := scanDecides holds name
  · exact unfit (.inl bound)
  · obtain ⟨dir,wrote⟩ : ∃ dir, dir = commitWrite s.dir tar (linkPage (s.dir.page tar) name.bytes ino.val) := ⟨_,rfl⟩
    have next : linkRun s name ino = { dir := dir, bound := Function.update s.bound name (some ino.val) } := by
      unfold linkRun xcpfsAddLink
      rw [ran,wrote]
    have lookup := good.found name
    rw [next] at lookup
    change xcpfsInodeByName dir name.bytes = (Function.update s.bound name (some ino.val) name).getD 0 at lookup
    rw [Function.update_self,Option.getD_some,xcpfsInodeByName] at lookup
    cases found : xcpfsFindEntry dir name.bytes with
    | none =>
      rw [found] at lookup
      change 0 = ino.val at lookup
      omega
    | some i =>
      obtain ⟨_,inside,_,same⟩ := findScanFound found
      rw [Nat.zero_add] at inside
      by_cases at_ : i = tar
      · subst at_
        have page : dir.page i = linkPage (s.dir.page i) name.bytes ino.val := by
          rw [wrote]
          exact Function.update_self ..
        rw [page,linkPageSame _ _ _ name.fits] at same
        apply unfit
        refine .inr ⟨same,?_⟩
        cases slot with
        | inl reused => exact .inl ⟨i,reused⟩
        | inr grown =>
          refine .inr ?_
          by_cases below : s.dir.npages < 2 ^ 19 - 1
          · exact below
          · -- the size did not move, so the new page stays out of the scan
            have count := commitNpages (linkPage (s.dir.page i) name.bytes ino.val) holds.size room
              (.inr (by omega : i = 2 ^ 19 - 1))
            rw [← wrote] at count
            omega
      · have page : dir.page i = s.dir.page i := by
          rw [wrote]
          exact Function.update_of_ne at_ ..
        rw [page] at same
        have old : i < s.dir.npages := by
          cases slot with
          | inl reused =>
            have count := commitNpages (linkPage (s.dir.page tar) name.bytes ino.val) holds.size room (.inl reused.1)
            rw [← wrote] at count
            omega
          | inr grown =>
            by_cases below : s.dir.npages < 2 ^ 19 - 1
            · have count := (commitGrows (linkPage (s.dir.page tar) name.bytes ino.val) holds.size below).2
              rw [← grown.1,← wrote] at count
              omega
            · have count := commitNpages (linkPage (s.dir.page tar) name.bytes ino.val) holds.size room
                (.inr (by omega : tar = 2 ^ 19 - 1))
              rw [← wrote] at count
              omega
        exact absurd same (by rw [none i old]; exact Bool.false_ne_true)

theorem unlinkRunKeeps (holds : HoldsMap s) (name : Name) :
    HoldsMap (unlinkRun s name (xcpfsUnlink s.dir name.bytes)) := by
  unfold xcpfsUnlink
  obtain ⟨i,ran,live,carries,_⟩ | ⟨ran,_⟩ := findDecides holds name
  · rw [ran]
    exact unlinkHolds holds live carries
  · rw [ran]
    exact holds

theorem dirStepKeeps (holds : HoldsMap s) {op : DirOp} {next : DirRun} (ran : dirStep s op = some next)
    (fits : dirFits s op) : HoldsMap next := by
  cases op with
  | create name ino => exact Option.some.inj ran ▸ linkRunKeeps holds fits
  | mkdir name ino => exact Option.some.inj ran ▸ linkRunKeeps holds fits
  | unlink name => exact Option.some.inj ran ▸ unlinkRunKeeps holds name
  | rmdir name child =>
    rw [← Option.some.inj ran,xcpfsRmdir]
    split
    · exact holds
    · exact unlinkRunKeeps holds name
  | lookup name => exact Option.some.inj ran ▸ holds

theorem dirStepFails (holds : HoldsMap s) {op : DirOp} {next : DirRun} (ran : dirStep s op = some next)
    (unfit : ¬dirFits s op) : ¬FiniteMap next := by
  cases op with
  | create name ino => exact Option.some.inj ran ▸ linkRunFails holds name ino unfit
  | mkdir name ino => exact Option.some.inj ran ▸ linkRunFails holds name ino unfit
  | unlink name => exact absurd trivial unfit
  | rmdir name child => exact absurd trivial unfit
  | lookup name => exact absurd trivial unfit

end

/- Over every sequence of operations the directory answers as a finite map exactly
as long as each new name is shorter than the field, or its terminator happens to
be the low byte of the ino, and the slot it goes to lies in the size of the file. -/
theorem directoryIsMap (ino : Ino) (ops : List DirOp) :
    Always FiniteMap dirStep (newDir ino) ops ↔ Meets dirFits dirStep (newDir ino) ops :=
  alwaysIff HoldsMap (fun _ holds => finiteMapOf holds) (fun _ _ _ holds ran fits => dirStepKeeps holds ran fits)
    (fun _ _ _ holds ran unfit => dirStepFails holds ran unfit) (newDirHolds ino)

/- 256 letters: the stored name runs on into the ino. -/
def longName : Name where
  bytes := List.replicate 256 97
  nonempty := by
    intro none
    have length := congrArg List.length none
    rw [List.length_replicate] at length
    cases length
  fits := Nat.le_of_eq List.length_replicate
  noNul := by
    intro nul
    exact absurd (List.mem_replicate.mp nul).2 (by decide)
  notDot := by
    intro dot
    have length := congrArg List.length dot
    rw [List.length_replicate] at length
    cases length
  notDotDot := by
    intro dots
    have length := congrArg List.length dots
    rw [List.length_replicate] at length
    cases length

/- The first new file of a directory gets a name of 256 bytes and ino 2730454, whose low byte is 214. -/
theorem directoryLosesLongName :
    ¬∀ (ino : Ino) (ops : List DirOp), Always FiniteMap dirStep (newDir ino) ops := by
  intro claim
  have always := claim ⟨3,by decide,by decide⟩ [.create longName ⟨2730454,by decide,by decide⟩]
  apply linkRunFails (newDirHolds ⟨3,by decide,by decide⟩) longName ⟨2730454,by decide,by decide⟩
  · intro fits
    obtain bound | ⟨short | low,_⟩ := fits
    · cases bound
    · exact absurd short (by rw [longName,List.length_replicate]; decide)
    · exact absurd low (by decide)
  · exact alwaysHead (always.2 _ rfl)

end Xcpfs
