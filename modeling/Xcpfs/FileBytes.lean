import Xcpfs.FileRuns

/-! The bytes of the files since `mkfs`. What a read returns is what the writes, the truncates and
the evictions before it left there, in whatever order the kernel wrote pages back, dropped them
and mounted the file system again. -/
namespace Xcpfs
open PointerForest EventRun WriteBack
open CBytes (Memory store storeOutside)

def FileEvent.fits : FileEvent → Prop
  | .write _ _ _ pos data | .mapped _ pos data => pos % pageSize + data.length ≤ pageSize
  | _ => True

section
variable {s t : FileRun} {event : FileEvent} {files : Nat → Memory} {ino n k pos : Nat} {data : List UInt8} {bytes other : Memory}

theorem pageIndex (low : k < pageSize) : (n * pageSize + k) / pageSize = n ∧ (n * pageSize + k) % pageSize = k := by
  have positive : 0 < pageSize := by decide
  constructor
  · rw [Nat.mul_comm,Nat.mul_add_div positive,Nat.div_eq_of_lt low,Nat.add_zero]
  · rw [Nat.mul_comm,Nat.mul_add_mod,Nat.mod_eq_of_lt low]

theorem stepFits (ran : fileStep s event = some t) : event.fits := by
  cases event with
  | write fuel rounds ino pos data =>
    simp only [fileStep] at ran
    split at ran
    · rename_i guard
      exact guard.2.2.2
    · contradiction
  | mapped ino pos data =>
    simp only [fileStep] at ran
    split at ran
    · rename_i guard
      exact guard.2
    · contradiction
  | read fuel rounds ino iblock => trivial
  | zero fuel rounds ino iblock offset => trivial
  | submit fuel rounds ino iblock => trivial
  | complete ino iblock blkaddr => trivial
  | release ino iblock => trivial
  | tree event => trivial

theorem storePage (inside : pos % pageSize + data.length ≤ pageSize) (low : k < pageSize) :
    store (files ino) pos data (n * pageSize + k) =
      if n = pos / pageSize then store (fun j => files ino (n * pageSize + j)) (pos % pageSize) data k
      else files ino (n * pageSize + k) := by
  have whole := Nat.div_add_mod pos pageSize
  split
  · rename_i same
    have start : pos = n * pageSize + pos % pageSize := by rw [same,Nat.mul_comm]; exact whole.symm
    unfold store
    by_cases after : pos % pageSize ≤ k
    · have index : n * pageSize + k - pos = k - pos % pageSize := by omega
      rw [if_pos (by omega),if_pos after,index]
    · rw [if_neg (by omega),if_neg after]
  · rename_i differ
    refine storeOutside ?_
    rcases Nat.lt_or_gt_of_ne differ with before | after
    · left
      have := Nat.mul_le_mul_left pageSize (Nat.succ_le_of_lt before)
      rw [Nat.mul_succ,Nat.mul_comm pageSize n] at this
      omega
    · right
      have := Nat.mul_le_mul_left pageSize (Nat.succ_le_of_lt after)
      rw [Nat.mul_succ,Nat.mul_comm pageSize n] at this
      omega

theorem storeSame (low : k < pageSize) (same : ∀ j < pageSize, bytes j = other j) (at_ : Nat) :
    store bytes at_ data k = store other at_ data k := by
  unfold store
  rw [same k low]

theorem pageSame (key : PageKey) (event : FileEvent) (low : k < pageSize) (same : ∀ j < pageSize, bytes j = other j) :
    event.page key bytes k = event.page key other k := by
  have plain := same k low
  cases event with
  | write fuel rounds ino pos data =>
    simp only [FileEvent.page]
    split
    · exact storeSame low same _
    · exact plain
  | mapped ino pos data =>
    simp only [FileEvent.page]
    split
    · exact storeSame low same _
    · exact plain
  | zero fuel rounds ino iblock offset =>
    simp only [FileEvent.page]
    split
    · unfold zeroUser
      rw [plain]
    · exact plain
  | tree event =>
    cases event with
    | step event => exact plain
    | truncate fuel root freeFrom =>
      simp only [FileEvent.page]
      split
      · rfl
      · exact plain
    | evict fuel root nlink =>
      simp only [FileEvent.page]
      split
      · exact plain
      · rfl
  | read fuel rounds ino iblock => exact plain
  | submit fuel rounds ino iblock => exact plain
  | complete ino iblock blkaddr => exact plain
  | release ino iblock => exact plain

theorem updateFile (files : Nat → Memory) (root : Nat) (changed : Memory) :
    Function.update files root changed ino pos = if ino = root then changed pos else files ino pos := by
  rw [Function.update_apply]
  split <;> rfl

theorem applyPage (fits : event.fits) (low : k < pageSize) :
    event.apply files ino (n * pageSize + k) = event.page (ino,n) (fun j => files ino (n * pageSize + j)) k := by
  obtain ⟨index,offset⟩ := pageIndex (n := n) low
  cases event with
  | write fuel rounds root pos data =>
    simp only [FileEvent.apply,FileEvent.page,updateFile,Prod.mk.injEq]
    by_cases mine : ino = root
    · rw [if_pos mine,← mine,storePage fits low]
      split
      · rename_i here
        rw [if_pos ⟨rfl,here⟩]
      · rename_i elsewhere
        rw [if_neg fun both => elsewhere both.2]
    · rw [if_neg mine,if_neg fun both => mine both.1]
  | mapped root pos data =>
    simp only [FileEvent.apply,FileEvent.page,updateFile,Prod.mk.injEq]
    by_cases mine : ino = root
    · rw [if_pos mine,← mine,storePage fits low]
      split
      · rename_i here
        rw [if_pos ⟨rfl,here⟩]
      · rename_i elsewhere
        rw [if_neg fun both => elsewhere both.2]
    · rw [if_neg mine,if_neg fun both => mine both.1]
  | zero fuel rounds root iblock part =>
    simp only [FileEvent.apply,FileEvent.page,Prod.mk.injEq]
    by_cases whole : part = 0
    · rw [if_pos whole,if_neg fun both => both.1 whole]
    · rw [if_neg whole,updateFile,index,offset]
      by_cases mine : ino = root
      · by_cases here : n = iblock
        · by_cases after : part ≤ k
          · rw [if_pos mine,if_pos ⟨here,after⟩,if_pos ⟨whole,mine,here⟩]
            exact (if_pos after).symm
          · rw [if_pos mine,if_neg fun both => after both.2,if_pos ⟨whole,mine,here⟩,← mine]
            exact (if_neg after).symm
        · rw [if_pos mine,if_neg fun both => here both.1,if_neg fun both => here both.2.2,← mine]
      · rw [if_neg mine,if_neg fun both => mine both.2.1]
  | tree event =>
    cases event with
    | step event => rfl
    | truncate fuel root freeFrom =>
      simp only [FileEvent.apply,FileEvent.page,updateFile,index]
      by_cases mine : ino = root
      · by_cases late : freeFrom ≤ n
        · rw [if_pos mine,if_pos late,if_pos ⟨mine,late⟩]
          rfl
        · rw [if_pos mine,if_neg late,if_neg fun both => late both.2,← mine]
      · rw [if_neg mine,if_neg fun both => mine both.1]
    | evict fuel root nlink =>
      simp only [FileEvent.apply,FileEvent.page]
      by_cases linked : root ≤ 2 ∨ nlink ≠ 0
      · rw [if_pos linked,if_pos (.inl linked)]
      · rw [if_neg linked,updateFile]
        by_cases mine : ino = root
        · rw [if_pos mine,if_neg fun either => either.elim linked fun apart => apart mine]
          rfl
        · rw [if_neg mine,if_pos (.inr mine)]
  | read fuel rounds root iblock => rfl
  | submit fuel rounds root iblock => rfl
  | complete root iblock blkaddr => rfl
  | release root iblock => rfl

end

/- The files of a mount by their bytes. -/
structure Agrees (s : FileRun) (files : Nat → Memory) : Prop where
  bytes : ∀ ino, s.mount.inodes ino = true → ino ≠ metaIno → ∀ q : TreePath, ∀ k < pageSize,
    s.value (ino,q.index) k = files ino (q.index * pageSize + k)
  absent : ∀ ino, s.mount.inodes ino = false → ∀ q : TreePath, ∀ k < pageSize, files ino (q.index * pageSize + k) = 0

section
variable {s t : FileRun} {event : FileEvent} {files : Nat → Memory} {ino : Nat}

theorem pageInodes (ran : fileStep s event = some t) (own : ∀ inner, event ≠ .tree inner) : t.mount.inodes = s.mount.inodes := by
  have prepared : ∀ {fuel rounds create key u found}, s.preparePage fuel rounds create key = some (u,found) →
      u.mount.inodes = s.mount.inodes := by
    intro fuel rounds create key u found ran
    unfold FileRun.preparePage at ran
    split at ran
    · cases ran
      rfl
    · obtain ⟨⟨fs,answer⟩,_,same⟩ := Option.map_eq_some_iff.mp ran
      cases answer with
      | none => cases same; rfl
      | some blkaddr => cases same; rfl
  cases event with
  | read fuel rounds root iblock =>
    simp only [fileStep] at ran
    split at ran
    · obtain ⟨⟨u,found⟩,prepares,rfl⟩ := Option.map_eq_some_iff.mp ran
      exact prepared prepares
    · contradiction
  | write fuel rounds root pos data =>
    simp only [fileStep] at ran
    split at ran
    · obtain ⟨⟨u,found⟩,prepares,rest⟩ := Option.bind_eq_some_iff.mp ran
      obtain ⟨page,_,rfl⟩ := Option.map_eq_some_iff.mp rest
      have same := prepared prepares
      exact same
    · contradiction
  | mapped root pos data =>
    simp only [fileStep] at ran
    split at ran
    · obtain ⟨page,_,rfl⟩ := Option.map_eq_some_iff.mp ran
      rfl
    · contradiction
  | zero fuel rounds root iblock offset =>
    simp only [fileStep] at ran
    split at ran
    · unfold FileRun.truncatePartialBlock at ran
      split at ran
      · cases ran
        rfl
      · obtain ⟨⟨u,found⟩,prepares,rfl⟩ := Option.map_eq_some_iff.mp ran
        have same := prepared prepares
        cases found with
        | none => exact same
        | some page => exact same
    · contradiction
  | submit fuel rounds root iblock =>
    simp only [fileStep] at ran
    split at ran
    · obtain ⟨page,_,rest⟩ := Option.bind_eq_some_iff.mp ran
      obtain ⟨⟨fs,found⟩,_,rfl⟩ := Option.map_eq_some_iff.mp rest
      rfl
    · contradiction
  | complete root iblock blkaddr =>
    simp only [fileStep] at ran
    split at ran
    · obtain ⟨f,_,rest⟩ := Option.bind_eq_some_iff.mp ran
      obtain ⟨page,_,rfl⟩ := Option.map_eq_some_iff.mp rest
      rfl
    · contradiction
  | release root iblock =>
    simp only [fileStep] at ran
    split at ran
    · obtain ⟨page,_,rest⟩ := Option.bind_eq_some_iff.mp ran
      split at rest
      · contradiction
      · cases rest
        rfl
    · contradiction
  | tree inner => exact absurd rfl (own inner)

theorem fileStepKeeps (inv : FileInv s) (takes : fileTakes s event) (clean : fileClean s event) (ran : fileStep s event = some t) :
    FileInv t ∧ Shows event s t ∧
      ∀ ino, t.mount.inodes ino = true → s.mount.inodes ino = false → ino ≠ metaIno → ∀ q : TreePath, t.value (ino,q.index) = zeroPage := by
  by_cases tree : ∃ inner, event = .tree inner
  · obtain ⟨inner,rfl⟩ := tree
    exact treeFileKeeps inv takes clean ran
  · have inodes := pageInodes ran fun inner same => tree ⟨inner,same⟩
    have both : FileInv t ∧ Shows event s t := by
      cases event with
      | read fuel rounds root iblock => exact readFileKeeps inv takes ran
      | write fuel rounds root pos data => exact writeFileKeeps inv takes ran
      | mapped root pos data => exact mappedFileKeeps inv ran
      | zero fuel rounds root iblock offset => exact zeroFileKeeps inv takes ran
      | submit fuel rounds root iblock => exact submitFileKeeps inv takes ran
      | complete root iblock blkaddr =>
        obtain ⟨invT,shows,_⟩ := completeFileKeeps inv ran
        exact ⟨invT,shows⟩
      | release root iblock => exact releaseFileKeeps inv ran
      | tree inner => exact absurd ⟨inner,rfl⟩ tree
    refine ⟨both.1,both.2,fun ino after before => ?_⟩
    rw [inodes,before] at after
    contradiction

/- The file whose bytes an event changes. -/
def FileEvent.file : FileEvent → Option Nat
  | .write _ _ ino _ _ | .mapped ino _ _ | .zero _ _ ino _ _ => some ino
  | .tree (.truncate _ ino _) | .tree (.evict _ ino _) => some ino
  | _ => none

theorem applyOther (other : event.file ≠ some ino) : event.apply files ino = files ino := by
  have apart : ∀ {root}, event.file = some root → ino ≠ root := by
    rintro root here rfl
    exact other here
  cases event with
  | write fuel rounds root pos data => exact Function.update_of_ne (apart rfl) ..
  | mapped root pos data => exact Function.update_of_ne (apart rfl) ..
  | zero fuel rounds root iblock offset =>
    simp only [FileEvent.apply]
    split
    · rfl
    · exact Function.update_of_ne (apart rfl) ..
  | tree event =>
    cases event with
    | step event => rfl
    | truncate fuel root freeFrom => exact Function.update_of_ne (apart rfl) ..
    | evict fuel root nlink =>
      simp only [FileEvent.apply]
      split
      · rfl
      · exact Function.update_of_ne (apart rfl) ..
  | read fuel rounds root iblock => rfl
  | submit fuel rounds root iblock => rfl
  | complete root iblock blkaddr => rfl
  | release root iblock => rfl

theorem stepFile (inv : FileInv s) (ran : fileStep s event = some t) (here : event.file = some ino) : s.mount.inodes ino = true := by
  cases event with
  | write fuel rounds root pos data =>
    cases here
    simp only [fileStep] at ran
    split at ran
    · rename_i guard
      exact guard.1
    · contradiction
  | mapped root pos data =>
    cases here
    simp only [fileStep] at ran
    split at ran
    · obtain ⟨page,there,_⟩ := Option.map_eq_some_iff.mp ran
      exact (inv.pages _ page there).1
    · contradiction
  | zero fuel rounds root iblock offset =>
    cases here
    simp only [fileStep] at ran
    split at ran
    · rename_i guard
      exact guard.1
    · contradiction
  | tree event =>
    have stepped := (treeStepOf ran).ran
    cases event with
    | step event => cases here
    | truncate fuel root freeFrom =>
      cases here
      simp only [ownStep] at stepped
      split at stepped
      · assumption
      · contradiction
    | evict fuel root nlink =>
      cases here
      simp only [ownStep] at stepped
      split at stepped
      · assumption
      · contradiction
  | read fuel rounds root iblock => cases here
  | submit fuel rounds root iblock => cases here
  | complete root iblock blkaddr => cases here
  | release root iblock => cases here

theorem absentApply (inv : FileInv s) (ran : fileStep s event = some t) (before : s.mount.inodes ino = false) :
    event.apply files ino = files ino := by
  refine applyOther fun here => ?_
  cases before.symm.trans (stepFile inv ran here)

theorem goneApply (inv : FileInv s) (takes : fileTakes s event) (clean : fileClean s event) (ran : fileStep s event = some t)
    (before : s.mount.inodes ino = true) (gone : t.mount.inodes ino = false) (pos : Nat) : event.apply files ino pos = 0 := by
  by_cases tree : ∃ inner, event = .tree inner
  · obtain ⟨inner,rfl⟩ := tree
    have step := treeStepOf ran
    have plain : ownClean s.own inner := by
      cases inner <;> first | exact clean.1 | trivial
    have stays := (ownInodes inv.own takes.1 plain step.ran).1 ino before
    by_cases evicts : ∃ fuel nlink, inner = .evict fuel ino nlink
    · obtain ⟨fuel,nlink,rfl⟩ := evicts
      have stepped := step.ran
      simp only [ownStep] at stepped
      split at stepped
      · split at stepped
        · have own := Option.some.inj stepped
          unfold FileRun.mount at gone before
          rw [← own,before] at gone
          contradiction
        · rename_i unlinked
          simp only [FileEvent.apply]
          rw [if_neg unlinked,Function.update_self]
      · contradiction
    · have after := stays fun fuel nlink same => evicts ⟨fuel,nlink,same⟩
      cases gone.symm.trans after
  · rw [pageInodes ran fun inner same => tree ⟨inner,same⟩,before] at gone
    contradiction

theorem agreesStep (inv : FileInv s) (takes : fileTakes s event) (clean : fileClean s event) (ran : fileStep s event = some t)
    (agrees : Agrees s files) : FileInv t ∧ Agrees t (event.apply files) := by
  obtain ⟨invT,shows,born⟩ := fileStepKeeps inv takes clean ran
  refine ⟨invT,fun ino after regular q k low => ?_,fun ino gone q k low => ?_⟩
  · cases before : s.mount.inodes ino with
    | true =>
      rw [applyPage (stepFits ran) low,shows ino before after regular q]
      exact pageSame _ event low fun j below => agrees.bytes ino before regular q j below
    | false =>
      rw [born ino after before regular q]
      rw [absentApply inv ran before]
      exact (agrees.absent ino before q k low).symm
  · cases before : s.mount.inodes ino with
    | true => exact goneApply inv takes clean ran before gone _
    | false =>
      rw [absentApply inv ran before]
      exact agrees.absent ino before q k low

theorem agreesRun {events : List FileEvent} (inv : FileInv s) (agrees : Agrees s files) (takes : Meets fileTakes fileStep s events)
    (clean : Meets fileClean fileStep s events) (ran : exec fileStep s events = some t) :
    FileInv t ∧ Agrees t (events.foldl FileEvent.apply files) := by
  induction events generalizing s files with
  | nil =>
    cases ran
    exact ⟨inv,agrees⟩
  | cons event events ih =>
    obtain ⟨next,here,rest⟩ := Option.bind_eq_some_iff.mp ran
    obtain ⟨take,takes⟩ := takes next here
    obtain ⟨plain,clean⟩ := clean next here
    obtain ⟨invNext,agreesNext⟩ := agreesStep inv take plain here agrees
    exact ih invNext agreesNext takes clean rest

end

/- A file system as `mkfs` leaves it; `blocks` is what the device holds. -/
def freshFiles (rootAddr metaAddr dot dotdot : Nat) (blocks : Nat → Memory) : FileRun where
  own := freshOwn rootAddr metaAddr dot dotdot
  pages _ := none
  flights := []
  blocks := blocks
  written a := a = rootAddr ∨ a = metaAddr ∨ a = dot ∨ a = dotdot

section
variable {rootAddr metaAddr dot dotdot : Nat} {blocks : Nat → Memory}

theorem freshWord (ino : Nat) (q : TreePath) (word : Nat)
    (here : blockAt (freshMount rootAddr metaAddr dot dotdot).fs.content ino q = word) :
    word = 0 ∨ ino = rootIno ∧ (word = dot ∨ word = dotdot) := by
  rw [← here]
  cases path : follow (child (freshMount rootAddr metaAddr dot dotdot).fs.content) ino q.nodes with
  | none => exact .inl (blockAtMissing path)
  | some n =>
    obtain ⟨_,rfl⟩ := followLeaf freshLeaf path
    rw [blockAtFound path]
    have cases_ : (freshMount rootAddr metaAddr dot dotdot).fs.content ino = freshNodes dot dotdot ino ∨
        (freshMount rootAddr metaAddr dot dotdot).fs.content ino = .zero := ite_eq_or_eq ..
    rcases cases_ with plain | zero
    · rw [plain]
      by_cases root : ino = rootIno
      · rw [root]
        unfold freshNodes
        rw [Function.update_self]
        unfold TreePath.word
        split
        · have slot : ((NodePage.zero.setAddr 0 dot).setAddr 1 dotdot).iAddr q.leaf =
              if q.leaf = 1 then dotdot else if q.leaf = 0 then dot else 0 := by
            change Function.update (Function.update (fun _ => 0) 0 dot) 1 dotdot q.leaf = _
            rw [Function.update_apply,Function.update_apply]
          rw [slot]
          split
          · exact .inr ⟨rfl,.inr rfl⟩
          · split
            · exact .inr ⟨rfl,.inl rfl⟩
            · exact .inl rfl
        · exact .inl rfl
      · have zero : freshNodes dot dotdot ino = .zero := Function.update_of_ne root ..
        rw [zero]
        exact .inl (zeroWord q)
    · rw [zero]
      exact .inl (zeroWord q)

theorem freshFileInv (root : rootAddr ≠ 0) (inode : metaAddr ≠ 0) : FileInv (freshFiles rootAddr metaAddr dot dotdot blocks) := by
  refine ⟨freshOwned root inode,fun f bad => absurd bad List.not_mem_nil,fun _ _ bad => absurd bad.symm (Option.some_ne_none _),
    fun ino _ _ q => ⟨fun a here => ?_,fun _ v bad => absurd bad.symm (Option.some_ne_none _)⟩⟩
  rw [cellAt] at here
  obtain ⟨same,nonzero⟩ := ptrSome.mp here
  rcases freshWord ino q a same with zero | ⟨_,named⟩
  · exact absurd zero nonzero
  · exact decide_eq_true (.inr (.inr named))

theorem contentsValue (s : FileRun) (ino : Nat) (q : TreePath) {k : Nat} (low : k < pageSize) :
    s.contents ino (q.index * pageSize + k) = s.value (ino,q.index) k := by
  obtain ⟨index,offset⟩ := pageIndex (n := q.index) low
  unfold FileRun.contents
  simp only [index,offset]
  cases here : s.pages (ino,q.index) with
  | some page => exact congrFun (valueHeld here).symm k
  | none =>
    rw [valueAbsent (congrArg (Option.map FilePage.bytes) here),storedAt,oldBlkaddrAt]
    dsimp only
    split <;> rfl

theorem freshAgrees : Agrees (freshFiles rootAddr metaAddr dot dotdot blocks) (freshFiles rootAddr metaAddr dot dotdot blocks).contents := by
  refine ⟨fun ino _ _ q k low => (contentsValue _ ino q low).symm,fun ino outside q k low => ?_⟩
  rw [contentsValue _ ino q low,valueAbsent rfl,storedAt,if_pos]
  · rfl
  · rcases freshWord ino q _ rfl with zero | ⟨rfl,_⟩
    · exact zero
    · cases outside

/-- A read since `mkfs` comes back with the bytes that were written to the page last, or zeros where
none were and after a truncate; it fails only where the page is not in memory and no node is there
for it, and the file has zeros there. The mounts of the run find the NAT as it was, and the run keeps
clear of the truncates that cut at the wrong place. -/
theorem readsLastWritten {events : List FileEvent} (root : rootAddr ≠ 0) (inode : metaAddr ≠ 0)
    (takes : Meets fileTakes fileStep (freshFiles rootAddr metaAddr dot dotdot blocks) events)
    (clean : Meets fileClean fileStep (freshFiles rootAddr metaAddr dot dotdot blocks) events) {s : FileRun}
    (ran : exec fileStep (freshFiles rootAddr metaAddr dot dotdot blocks) events = some s) {fuel ino iblock : Nat} (rounds : Nat)
    (member : s.mount.inodes ino = true) (regular : ino ≠ metaIno) (enough : natFuel ≤ fuel) (low : iblock < maxBlocks) :
    let files := events.foldl FileEvent.apply (freshFiles rootAddr metaAddr dot dotdot blocks).contents
    ∃ t found, s.preparePage fuel rounds false (ino,iblock) = some (t,found) ∧
      (∀ page, found = some page → ∀ k < pageSize, page.bytes k = files ino (iblock * pageSize + k)) ∧
      (found = none → s.pages (ino,iblock) = none ∧ getDnode s.mount.fs.content ino iblock = none ∧
        ∀ k < pageSize, files ino (iblock * pageSize + k) = 0) := by
  obtain ⟨inv,agrees⟩ := agreesRun (freshFileInv root inode) freshAgrees takes clean ran
  obtain ⟨q,rfl⟩ : ∃ q : TreePath, q.index = iblock := ⟨_,TreePath.indexOfIndex iblock low⟩
  obtain ⟨t,found,read⟩ := readAnswers inv member regular enough rounds q
  have prepared := preparedPage inv member regular enough (fun bad => by cases bad) read
  refine ⟨t,found,read,fun page same k low => ?_,fun failed => ?_⟩
  · rw [(prepared.page page same).2]
    exact agrees.bytes ino member regular q k low
  · obtain ⟨_,absent,missing⟩ := prepared.failed failed
    refine ⟨absent,missing,fun k low => ?_⟩
    rw [← agrees.bytes ino member regular q k low,valueAbsent (congrArg (Option.map FilePage.bytes) absent),storedAt,
      blockAtMissing ((getDnodeAt ..).symm.trans missing),if_pos rfl]
    rfl

/-- Every data write in flight can end in any new block, where the tree then finds the last bytes of
its page; a page that is clean and not in flight has its bytes in its block. -/
theorem writesLand {events : List FileEvent} (root : rootAddr ≠ 0) (inode : metaAddr ≠ 0)
    (takes : Meets fileTakes fileStep (freshFiles rootAddr metaAddr dot dotdot blocks) events)
    (clean : Meets fileClean fileStep (freshFiles rootAddr metaAddr dot dotdot blocks) events) {s : FileRun}
    (ran : exec fileStep (freshFiles rootAddr metaAddr dot dotdot blocks) events = some s) :
    let files := events.foldl FileEvent.apply (freshFiles rootAddr metaAddr dot dotdot blocks).contents
    (∀ f ∈ s.flights, ∀ blkaddr, blkaddr ≠ 0 → s.written blkaddr = false →
      ∃ t, fileStep s (.complete f.ino f.iblock blkaddr) = some t ∧ oldBlkaddr t.mount.fs.content f.ino f.iblock = blkaddr ∧
        ∀ k < pageSize, t.blocks blkaddr k = files f.ino (f.iblock * pageSize + k)) ∧
      ∀ ino iblock, s.mount.inodes ino = true → ino ≠ metaIno → iblock < maxBlocks → s.busy (ino,iblock) = false →
        (∀ page, s.pages (ino,iblock) = some page → page.dirty = false) → ∀ k < pageSize,
          (if oldBlkaddr s.mount.fs.content ino iblock = 0 then 0 else s.blocks (oldBlkaddr s.mount.fs.content ino iblock) k) =
            files ino (iblock * pageSize + k) := by
  obtain ⟨inv,agrees⟩ := agreesRun (freshFileInv root inode) freshAgrees takes clean ran
  refine ⟨fun f flying blkaddr named fresh => ?_,fun ino iblock member regular low idle level k below => ?_⟩
  · have held := inv.held f flying
    obtain ⟨page,here⟩ := held.page
    obtain ⟨q,index,_⟩ := held.dnode
    obtain ⟨g,found⟩ : ∃ g, s.flights.find? (DataFlight.of f.ino f.iblock) = some g := by
      refine Option.isSome_iff_exists.mp (List.find?_isSome.mpr ⟨f,flying,?_⟩)
      exact decide_eq_true ⟨rfl,rfl⟩
    have lands : ∃ t, fileStep s (.complete f.ino f.iblock blkaddr) = some t := by
      simp only [fileStep,FileRun.complete]
      rw [if_pos ⟨named,fresh⟩,found,here]
      exact ⟨_,rfl⟩
    obtain ⟨t,ends⟩ := lands
    obtain ⟨_,_,cell,bytes⟩ := completeFileKeeps inv ends
    rw [← index] at ends cell bytes ⊢
    rw [cellAt] at cell
    refine ⟨t,ends,(oldBlkaddrAt ..).trans (ptrSome.mp cell).1,fun k low => ?_⟩
    rw [bytes]
    exact agrees.bytes f.ino held.inside held.regular q k low
  · obtain ⟨q,rfl⟩ : ∃ q : TreePath, q.index = iblock := ⟨_,TreePath.indexOfIndex iblock low⟩
    have ahead : ¬s.Ahead (ino,q.index) := by
      rintro (busy | ⟨page,here,dirty⟩)
      · cases busy.symm.trans idle
      · cases dirty.symm.trans (level page here)
    have stored : s.value (ino,q.index) = s.backing.stored zeroPage (ino,q.index) := by
      cases here : s.pages (ino,q.index) with
      | none => exact valueAbsent (congrArg (Option.map FilePage.bytes) here)
      | some page =>
        rw [valueHeld here]
        exact (inv.good ino member regular q).clean ahead page.bytes (congrArg (Option.map FilePage.bytes) here)
    rw [← agrees.bytes ino member regular q k below,stored,storedAt,oldBlkaddrAt]
    split <;> rfl

end

/- Three bytes in the first page of the root directory, which then goes to block 50 and leaves the
memory. -/
def backRun : List FileEvent :=
  [.write natFuel 900 rootIno 100 [1,2,3],.submit natFuel 0 rootIno 0,.complete rootIno 0 50,.release rootIno 0]

def backFiles : FileRun := freshFiles 20 12 30 31 fun _ _ => 7

theorem backRuns : (exec fileStep backFiles backRun).any (fun s =>
    s.mount.inodes rootIno && (s.preparePage natFuel 0 false (rootIno,0)).any fun (_,found) => found.isSome) = true := by
  decide +kernel

theorem flightRuns : (exec fileStep backFiles (backRun.take 2)).any (fun s =>
    s.flights.any (fun f => decide (f.ino = rootIno ∧ f.iblock = 0)) && decide (s.written 50 = false)) = true := by
  decide +kernel

/-- The page is read from its new block. -/
theorem readsLastWrittenBack : ∃ s t page, exec fileStep backFiles backRun = some s ∧
    s.preparePage natFuel 0 false (rootIno,0) = some (t,some page) ∧
      ∀ k < pageSize, page.bytes k = backRun.foldl FileEvent.apply backFiles.contents rootIno (0 * pageSize + k) := by
  obtain ⟨s,ran,ends⟩ := (Option.any_eq_true ..).mp backRuns
  obtain ⟨inside,reads⟩ := Bool.and_eq_true_iff.mp ends
  obtain ⟨⟨t,found⟩,read,some_⟩ := (Option.any_eq_true ..).mp reads
  obtain ⟨page,rfl⟩ := Option.isSome_iff_exists.mp some_
  refine ⟨s,t,page,ran,read,?_⟩
  have takes : Meets fileTakes fileStep backFiles backRun := fun _ _ =>
    ⟨⟨le_rfl,by decide⟩,fun _ _ => ⟨le_rfl,fun _ _ => ⟨trivial,fun _ _ => ⟨trivial,trivial⟩⟩⟩⟩
  have clean : Meets fileClean fileStep backFiles backRun := fun _ _ =>
    ⟨trivial,fun _ _ => ⟨trivial,fun _ _ => ⟨trivial,fun _ _ => ⟨trivial,trivial⟩⟩⟩⟩
  obtain ⟨u,other,again,holds,_⟩ :=
    readsLastWritten (by decide) (by decide) takes clean ran 0 inside (by decide) le_rfl (show 0 < maxBlocks by decide)
  cases read.symm.trans again
  exact holds page rfl

/-- The write of the page is in flight, and can end in block 50. -/
theorem writesLandFlight : ∃ s t, exec fileStep backFiles (backRun.take 2) = some s ∧
    fileStep s (.complete rootIno 0 50) = some t ∧ t.blocks 50 101 = 2 := by
  obtain ⟨s,ran,ends⟩ := (Option.any_eq_true ..).mp flightRuns
  obtain ⟨flying,fresh⟩ := Bool.and_eq_true_iff.mp ends
  obtain ⟨f,member,place⟩ := List.any_eq_true.mp flying
  obtain ⟨ino,iblock⟩ := of_decide_eq_true place
  have takes : Meets fileTakes fileStep backFiles (backRun.take 2) := fun _ _ => ⟨⟨le_rfl,by decide⟩,fun _ _ => ⟨le_rfl,trivial⟩⟩
  have clean : Meets fileClean fileStep backFiles (backRun.take 2) := fun _ _ => ⟨trivial,fun _ _ => ⟨trivial,trivial⟩⟩
  obtain ⟨t,lands,_,bytes⟩ := (writesLand (by decide) (by decide) takes clean ran).1 f member 50 (by decide) (of_decide_eq_true fresh)
  rw [ino,iblock] at lands bytes
  refine ⟨s,t,ran,lands,(bytes 101 (by decide)).trans ?_⟩
  decide +kernel

end Xcpfs
