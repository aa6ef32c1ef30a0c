import Xcpfs.FileCrash
import Xcpfs.Directory
import Xcpfs.Lib.CallLog

/-! Directories on the pages of their files. A call of dir.c prepares one page after the other,
from the memory or the device, while pages go to the device and leave the memory and other
directories are worked on. -/
namespace Xcpfs

open EventRun CallLog
open CBytes (Memory)

/- What reaches the pages of a directory: `xcpfs_inode_by_name`, `xcpfs_add_link`, `xcpfs_unlink`
and `xcpfs_empty_dir`. -/
inductive DirCall where
  | lookup (name : List UInt8)
  | link (name : List UInt8) (ino : Nat)
  | unlink (name : List UInt8)
  | empty
  deriving DecidableEq

/-- The loops of the four functions: `i` is the next page, and `tar` the slot of a new entry. -/
structure DirWork where
  call : DirCall
  npages : Nat
  i : Nat
  tar : Nat

inductive Looked where
  | next (work : DirWork)
  | store (index : Nat)
  | done (answer : Except Errno Nat)

def dirPages (iSize : Int) : Nat := (toInt32 ((iSize + (pageSize - 1)) / pageSize)).toNat

def DirCall.begin (call : DirCall) (npages : Nat) : DirWork where
  call := call
  npages := npages
  i := match call with
    | .empty => 2
    | _ => 0
  tar := npages

/-- One round of the loop; no page is -EIO, which only `xcpfs_add_link` returns. -/
def DirWork.look (w : DirWork) : Option Memory → Looked
  | none =>
    match w.call with
    | .link .. => .done (.error .eio)
    | _ => .next { w with i := w.i + 1 }
  | some page =>
    match w.call with
    | .lookup name =>
      if entryIno page = 0 then .next { w with i := w.i + 1 }
      else if sameName name page then .done (.ok (entryIno page))
      else .next { w with i := w.i + 1 }
    | .link name _ =>
      let tar := if entryIno page = 0 ∧ w.tar = w.npages then w.i else w.tar
      if sameName name page then .done (.error .eexist) else .next { w with i := w.i + 1, tar := tar }
    | .unlink name =>
      if entryIno page = 0 then .next { w with i := w.i + 1 }
      else if sameName name page then .store w.i
      else .next { w with i := w.i + 1 }
    | .empty => if entryIno page = 0 then .next { w with i := w.i + 1 } else .done (.ok 0)

/- Behind the loop. -/
def DirWork.last (w : DirWork) : Looked :=
  match w.call with
  | .lookup _ => .done (.ok 0)
  | .link .. => .store w.tar
  | .unlink _ => .done (.error .enoent)
  | .empty => .done (.ok 1)

/- The bytes that the call stores, and whether its `xcpfs_prepare_page` creates the page. -/
def DirCall.fill (page : Memory) : DirCall → Memory
  | .link name ino => linkPage page name ino
  | .unlink _ => clearPage page
  | _ => page

def DirCall.creates : DirCall → Bool
  | .link .. => true
  | _ => false

def DirCall.writes : DirCall → Bool
  | .link .. | .unlink _ => true
  | _ => false

inductive DirTask where
  | scan (work : DirWork)
  | store (call : DirCall) (index : Nat)

def DirTask.call : DirTask → DirCall
  | .scan work => work.call
  | .store call _ => call

/- `task` has the threads, each with the directory it works on. -/
structure DirState where
  run : FileRun
  threads : Nat
  isDir : Nat → Bool
  iSize : Nat → Int
  task : Nat → Option (Nat × DirTask)
  log : List ((Nat × DirCall) × Except Errno Nat)

inductive DirEvent where
  | file (event : FileEvent)
  | call (thread d : Nat) (call : DirCall)
  | scan (fuel rounds thread : Nat)
  | store (fuel rounds thread : Nat)

def DirState.setTask (s : DirState) (k : Nat) (task : Option (Nat × DirTask)) : DirState := { s with task := Function.update s.task k task }

def DirState.answer (s : DirState) (k d : Nat) (call : DirCall) (answer : Except Errno Nat) : DirState :=
  { s.setTask k none with log := s.log ++ [((d,call),answer)] }

def DirState.go (s : DirState) (k d : Nat) (call : DirCall) : Looked → DirState
  | .next work => s.setTask k (some (d,.scan work))
  | .store index => s.setTask k (some (d,.store call index))
  | .done answer => s.answer k d call answer

def dirStepPages (s : DirState) : DirEvent → Option DirState
  | .file event => (fileStep s.run event).map fun run => { s with run := run }
  | .call k d call =>
    match s.task k with
    | some _ => none
    -- a call that writes has the directory's inode locked for itself, and the others share it
    | none =>
      if k < s.threads ∧ s.isDir d ∧ ∀ l < s.threads, ∀ p ∈ s.task l, p.1 = d → call.writes = false ∧ p.2.call.writes = false then
        some (s.setTask k (some (d,.scan (call.begin (dirPages (s.iSize d))))))
      else none
  | .scan fuel rounds k =>
    match s.task k with
    | some (d,.scan work) =>
      if work.i < work.npages then
        if s.run.busy (d,work.i) then none
        else (s.run.preparePage fuel rounds false (d,work.i)).map fun (run,page) =>
          { s with run := run }.go k d work.call (work.look (page.map FilePage.bytes))
      else some (s.go k d work.call work.last)
    | _ => none
  | .store fuel rounds k =>
    match s.task k with
    | some (d,.store call index) =>
      if s.run.busy (d,index) then none
      else (s.run.preparePage fuel rounds call.creates (d,index)).map fun (run,page) =>
        match page with
        | none => { s with run := run }.answer k d call (.error .eio)
        | some page =>
          { s with
            run := run.setPage (d,index) ⟨call.fill page.bytes,true⟩
            iSize := Function.update s.iSize d (sizeAfter (s.iSize d) index) }.answer k d call (.ok 0)
    | _ => none

/- Only the calls write to a directory, and no call is under way when the file system is unmounted. -/
def dirTakes (s : DirState) : DirEvent → Prop
  | .file event => fileTakes s.run event ∧ fileClean s.run event ∧ (∀ d, s.isDir d = true → event.file ≠ some d) ∧
    (event.remounts = true → ∀ k, s.task k = none)
  | .call .. => True
  | .scan fuel _ _ => natFuel ≤ fuel
  | .store fuel rounds _ => natFuel ≤ fuel ∧ regNatStart + rounds ≤ natBlocks

/-- What a call means for the slots of a directory. -/
def DirCall.run (dir : Dir) : DirCall → Dir × Except Errno Nat
  | .lookup name => (dir,.ok (xcpfsInodeByName dir name))
  | .link name ino => ((xcpfsAddLink dir name ino).1,(xcpfsAddLink dir name ino).2.map fun _ => 0)
  | .unlink name => ((xcpfsUnlink dir name).1,(xcpfsUnlink dir name).2.map fun _ => 0)
  | .empty => (dir,.ok (if xcpfsEmptyDir dir then 1 else 0))

/-- A call does all of it, or a new entry is refused with -EIO. -/
def DirAnswers (dirs : Nat → Dir) (call : Nat × DirCall) (answer : Except Errno Nat) (next : Nat → Dir) : Prop :=
  (answer = (call.2.run (dirs call.1)).2 ∧ next = Function.update dirs call.1 (call.2.run (dirs call.1)).1) ∨
    (call.2.creates = true ∧ answer = .error .eio ∧ next = dirs)

/- What is left of the loop on the slots of a directory. -/
def DirWork.rest (dir : Dir) (w : DirWork) : Looked :=
  match w.call with
  | .lookup name => .done (.ok ((findScan dir name (w.npages - w.i) w.i).elim 0 fun i => entryIno (dir.page i)))
  | .link name _ =>
    match addScan dir name w.npages (w.npages - w.i) w.i w.tar with
    | .error err => .done (.error err)
    | .ok tar => .store tar
  | .unlink name => (findScan dir name (w.npages - w.i) w.i).elim (.done (.error .enoent)) .store
  | .empty => .done (.ok (if (List.range' w.i (w.npages - w.i)).all fun i => entryIno (dir.page i) == 0 then 1 else 0))

def Looked.settle (dir : Dir) : Looked → Looked
  | .next work => work.rest dir
  | looked => looked

def DirCall.ends (dir : Dir) (call : DirCall) : Looked → Dir × Except Errno Nat
  | .next _ => (dir,.error .eio)
  | .store index => (commitWrite dir index (call.fill (dir.page index)),.ok 0)
  | .done answer => (dir,answer)

def DirTask.Ok (dir : Dir) : DirTask → Prop
  | .scan work => work.rest dir = (work.call.begin dir.npages).rest dir
  | .store call index => (call.begin dir.npages).rest dir = .store index

structure DirsRel (s : DirState) (dirs : Nat → Dir) : Prop where
  inv : FileInv s.run
  member : ∀ d, s.isDir d = true → s.run.mount.inodes d = true ∧ d ≠ metaIno
  pages : ∀ d, s.isDir d = true → ∀ q : TreePath, s.run.value (d,q.index) = (dirs d).page q.index
  size : ∀ d, s.isDir d = true → s.iSize d = (dirs d).iSize
  task : ∀ k d task, s.task k = some (d,task) → k < s.threads ∧ s.isDir d = true ∧ task.Ok (dirs d)
  alone : ∀ k l d task other, k ≠ l → s.task k = some (d,task) → s.task l = some (d,other) → task.call.writes = false ∧ other.call.writes = false
  logged : ∀ entry ∈ s.log, s.isDir entry.1.1 = true

section
variable {dir : Dir} {w : DirWork} {call : DirCall} {index : Nat}

theorem slotAfter (dir : Dir) (index : Nat) (page : Memory) (i : Nat) :
    (commitWrite dir index page).page i = if i = index then page else dir.page i := Function.update_apply ..

theorem sizeAfterIs (dir : Dir) (index : Nat) (page : Memory) : (commitWrite dir index page).iSize = sizeAfter dir.iSize index := by
  rw [commitWrite]

theorem lookLast (done : ¬w.i < w.npages) : w.rest dir = w.last := by
  have none_ : w.npages - w.i = 0 := by omega
  unfold DirWork.rest DirWork.last
  rw [none_]
  cases w.call <;> rfl

theorem lookPage (inside : w.i < w.npages) : w.rest dir = (w.look (some (dir.page w.i))).settle dir := by
  obtain ⟨count,left⟩ : ∃ count, w.npages - w.i = count + 1 := ⟨w.npages - w.i - 1,by omega⟩
  have fewer : w.npages - (w.i + 1) = count := by omega
  unfold DirWork.rest DirWork.look
  rw [left]
  cases call : w.call with
  | lookup name =>
    dsimp only
    unfold findScan
    split
    · simp [Looked.settle,DirWork.rest,fewer]
    · split
      · rfl
      · simp [Looked.settle,DirWork.rest,fewer]
  | link name ino =>
    dsimp only
    unfold addScan
    dsimp only
    cases same : sameName name (dir.page w.i) with
    | true => rfl
    | false => simp [Looked.settle,DirWork.rest,fewer]
  | unlink name =>
    dsimp only
    unfold findScan
    split
    · simp [Looked.settle,DirWork.rest,fewer]
    · split
      · rfl
      · simp [Looked.settle,DirWork.rest,fewer]
  | empty =>
    dsimp only
    rw [List.range'_succ,List.all_cons]
    by_cases free : entryIno (dir.page w.i) = 0
    · rw [if_pos free]
      simp only [Looked.settle,DirWork.rest,fewer,free,beq_self_eq_true,Bool.true_and]
    · simp [Looked.settle,free]

theorem lookFailed (inside : w.i < w.npages) (free : entryIno (dir.page w.i) = 0) (finds : w.call.creates = false) :
    w.rest dir = (w.look none).settle dir := by
  rw [lookPage inside]
  unfold DirWork.look
  cases call : w.call with
  | link name ino =>
    rw [call] at finds
    contradiction
  | lookup name => simp [free]
  | unlink name => simp [free]
  | empty => simp [free]

theorem callEnds (dir : Dir) (call : DirCall) : call.run dir = call.ends dir ((call.begin dir.npages).rest dir) := by
  cases call with
  | lookup name =>
    simp only [DirCall.run,DirCall.ends,DirWork.rest,DirCall.begin,xcpfsInodeByName,xcpfsFindEntry,Nat.sub_zero]
    cases findScan dir name dir.npages 0 <;> rfl
  | link name ino =>
    simp only [DirCall.run,DirWork.rest,DirCall.begin,xcpfsAddLink,Nat.sub_zero]
    cases addScan dir name dir.npages dir.npages 0 dir.npages <;> rfl
  | unlink name =>
    simp only [DirCall.run,DirWork.rest,DirCall.begin,xcpfsUnlink,xcpfsFindEntry,Nat.sub_zero]
    cases findScan dir name dir.npages 0 <;> rfl
  | empty => rfl

theorem storeCases (stores : (call.begin dir.npages).rest dir = .store index) :
    (∃ name ino, call = .link name ino) ∨ ∃ name, call = .unlink name ∧ xcpfsFindEntry dir name = some index := by
  cases call with
  | link name ino => exact .inl ⟨name,ino,rfl⟩
  | lookup name => simp [DirWork.rest,DirCall.begin] at stores
  | empty => simp [DirWork.rest,DirCall.begin] at stores
  | unlink name =>
    have stores : (xcpfsFindEntry dir name).elim (.done (.error .enoent)) Looked.store = .store index := stores
    cases found : xcpfsFindEntry dir name with
    | none =>
      rw [found] at stores
      contradiction
    | some i =>
      rw [found] at stores
      cases stores
      exact .inr ⟨name,rfl,found⟩

theorem storeWrites (stores : (call.begin dir.npages).rest dir = .store index) : call.writes = true := by
  obtain ⟨name,ino,same⟩ | ⟨name,same,_⟩ := storeCases stores
  · rw [same]
    rfl
  · rw [same]
    rfl

theorem storeLive (stores : (call.begin dir.npages).rest dir = .store index) (removes : call.creates = false) : entryIno (dir.page index) ≠ 0 := by
  obtain ⟨name,ino,same⟩ | ⟨name,_,found⟩ := storeCases stores
  · rw [same] at removes
    contradiction
  · exact (findScanFound found).2.2.1

end

section
variable {s t : FileRun} {event : FileEvent} {d fuel rounds iblock : Nat} {key : PageKey}

theorem pageElsewhere (other : event.file ≠ some key.1) (bytes : Memory) : event.page key bytes = bytes := by
  have apart : ∀ {root}, event.file = some root → key.1 ≠ root := by
    intro root here same
    exact other (same ▸ here)
  cases event with
  | write fuel rounds root pos data => exact if_neg fun same => apart rfl (congrArg Prod.fst same)
  | mapped root pos data => exact if_neg fun same => apart rfl (congrArg Prod.fst same)
  | zero fuel rounds root iblock offset => exact if_neg fun both => apart rfl (congrArg Prod.fst both.2)
  | tree event =>
    cases event with
    | step event => rfl
    | truncate fuel root freeFrom => exact if_neg fun both => apart rfl both.1
    | evict fuel root nlink => exact if_pos (.inr (apart rfl))
  | _ => rfl

theorem memberStays (inv : FileInv s) (takes : fileTakes s event) (clean : fileClean s event) (ran : fileStep s event = some t)
    (member : s.mount.inodes d = true) (other : event.file ≠ some d) : t.mount.inodes d = true := by
  by_cases tree : ∃ inner, event = .tree inner
  · obtain ⟨inner,same⟩ := tree
    subst same
    have step := treeStepOf ran
    have plain : ownClean s.own inner := by
      cases inner <;> first | exact clean.1 | trivial
    refine (ownInodes inv.own takes.1 plain step.ran).1 d member fun fuel nlink same => other ?_
    rw [same]
    rfl
  · rw [pageInodes ran fun inner same => tree ⟨inner,same⟩]
    exact member

theorem failedZero (prepared : Prepared s false key t none) : s.value key = zeroPage := by
  obtain ⟨_,absent,missing⟩ := prepared.failed rfl
  obtain ⟨q,same⟩ : ∃ q : TreePath, q.index = key.2 := ⟨_,TreePath.indexOfIndex key.2 prepared.low⟩
  have here : key = (key.1,q.index) := Prod.ext rfl same.symm
  rw [here] at absent missing ⊢
  rw [valueAbsent (congrArg (Option.map FilePage.bytes) absent),storedAt,blockAtMissing ((getDnodeAt ..).symm.trans missing),if_pos rfl]

theorem preparedValues (inv : FileInv s) {create : Bool} {found : Option FilePage} (prepared : Prepared s create key t found) (i : Nat)
    (inside : s.mount.inodes i = true) (regular : i ≠ metaIno) (q : TreePath) : t.value (i,q.index) = s.value (i,q.index) := by
  by_cases mine : (i,q.index) = key
  · rw [mine]
    exact prepared.same
  · exact (asideGood prepared.aside (inv.good i inside regular q) inside mine).2

end

section
variable {s t : DirState} {dirs : Nat → Dir} {k d fuel rounds : Nat} {call : DirCall} {w : DirWork} {looked : Looked}

theorem setTaskRel {task : Option (Nat × DirTask)} (rel : DirsRel s dirs) (ok : ∀ d new, task = some (d,new) → k < s.threads ∧ s.isDir d = true ∧ new.Ok (dirs d))
    (alone : ∀ l d new other, l ≠ k → task = some (d,new) → s.task l = some (d,other) → new.call.writes = false ∧ other.call.writes = false) :
    DirsRel (s.setTask k task) dirs := by
  have self : (s.setTask k task).task k = task := Function.update_self ..
  have far : ∀ l, l ≠ k → (s.setTask k task).task l = s.task l := fun l differ => Function.update_of_ne differ ..
  refine ⟨rel.inv,rel.member,rel.pages,rel.size,fun l d new there => ?_,fun a b d new other differ first second => ?_,rel.logged⟩
  · by_cases same : l = k
    · rw [same,self] at there
      rw [same]
      exact ok d new there
    · rw [far l same] at there
      exact rel.task l d new there
  · by_cases one : a = k
    · rw [one,self] at first
      have two : b ≠ k := fun same => differ (one.trans same.symm)
      rw [far b two] at second
      exact alone b d new other two first second
    · rw [far a one] at first
      by_cases two : b = k
      · rw [two,self] at second
        exact (alone a d other new one second first).symm
      · rw [far b two] at second
        exact rel.alone a b d new other differ first second

theorem loggedAnswer {answer : Except Errno Nat} (logged : ∀ entry ∈ s.log, s.isDir entry.1.1 = true) (isDir : s.isDir d = true) :
    ∀ entry ∈ (s.answer k d call answer).log, s.isDir entry.1.1 = true := by
  intro entry member
  rcases List.mem_append.mp member with old | new
  · exact logged entry old
  · rw [List.mem_singleton.mp new]
    exact isDir

theorem answerRel {answer : Except Errno Nat} (rel : DirsRel s dirs) (isDir : s.isDir d = true) : DirsRel (s.answer k d call answer) dirs := by
  obtain ⟨inv,member,pages,size,task,alone,_⟩ := @setTaskRel s dirs k none rel (fun _ _ bad => by cases bad) fun _ _ _ _ _ bad => by cases bad
  exact ⟨inv,member,pages,size,task,alone,loggedAnswer rel.logged isDir⟩

theorem preparedRel {u : FileRun} {create : Bool} {key : PageKey} {found : Option FilePage} (rel : DirsRel s dirs)
    (prepared : Prepared s.run create key u found) : DirsRel { s with run := u } dirs where
  inv := prepared.inv
  member e isDir := by
    obtain ⟨inside,regular⟩ := rel.member e isDir
    exact ⟨prepared.aside.inodes ▸ inside,regular⟩
  pages e isDir q := by
    obtain ⟨inside,regular⟩ := rel.member e isDir
    exact (preparedValues rel.inv prepared e inside regular q).trans (rel.pages e isDir q)
  size := rel.size
  task := rel.task
  alone := rel.alone
  logged := rel.logged

theorem lookCall {found : Option Memory} {next : DirWork} (looks : w.look found = .next next) : next.call = w.call := by
  unfold DirWork.look at looks
  cases found with
  | none =>
    dsimp only at looks
    split at looks
    · contradiction
    · cases looks
      rfl
  | some page =>
    dsimp only at looks
    split at looks
    all_goals
      repeat' split at looks
      all_goals first | contradiction | (cases looks; rfl)

theorem goOnRel {old new : DirTask} (rel : DirsRel s dirs) (here : s.task k = some (d,old)) (same : new.call = old.call) (ok : new.Ok (dirs d)) :
    DirsRel (s.setTask k (some (d,new))) dirs := by
  refine setTaskRel rel (fun e task there => ?_) fun l e task other differ there second => ?_
  · cases there
    exact ⟨(rel.task k d old here).1,(rel.task k d old here).2.1,ok⟩
  · cases there
    rw [same]
    exact rel.alone k l d old other differ.symm here second

theorem goRel {old : DirTask} (rel : DirsRel s dirs) (here : s.task k = some (d,old)) (calls : old.call = call)
    (same : ∀ next, looked = .next next → next.call = call)
    (settles : looked.settle (dirs d) = (call.begin (dirs d).npages).rest (dirs d)) :
    ∃ next, DirsRel (s.go k d call looked) next ∧ Answers DirAnswers s.log (s.go k d call looked).log dirs next := by
  cases looked with
  | next work =>
    have ok : DirTask.Ok (dirs d) (.scan work) := by
      unfold DirTask.Ok
      dsimp only
      rw [same work rfl]
      exact settles
    exact ⟨dirs,goOnRel rel here ((same work rfl).trans calls.symm) ok,.inl ⟨rfl,rfl⟩⟩
  | store index => exact ⟨dirs,goOnRel rel here calls.symm settles.symm,.inl ⟨rfl,rfl⟩⟩
  | done answer =>
    have ends : call.run (dirs d) = (dirs d,answer) := (callEnds ..).trans (congrArg (call.ends (dirs d)) settles.symm)
    refine ⟨dirs,answerRel rel (rel.task k d old here).2.1,.inr ⟨(d,call),answer,rfl,.inl ⟨?_,?_⟩⟩⟩
    · exact (congrArg Prod.snd ends).symm
    · rw [ends,Function.update_eq_self]

theorem dirFileKeeps {event : FileEvent} (rel : DirsRel s dirs) (takes : dirTakes s (.file event))
    (ran : dirStepPages s (.file event) = some t) : DirsRel t dirs ∧ t.log = s.log := by
  obtain ⟨takes,clean,other,_⟩ := takes
  obtain ⟨run,step,same⟩ := Option.map_eq_some_iff.mp ran
  subst same
  obtain ⟨inv,shows,_⟩ := fileStepKeeps rel.inv takes clean step
  have stays : ∀ e, s.isDir e = true → run.mount.inodes e = true := fun e isDir =>
    memberStays rel.inv takes clean step (rel.member e isDir).1 (other e isDir)
  refine ⟨⟨inv,fun e isDir => ⟨stays e isDir,(rel.member e isDir).2⟩,fun e isDir q => ?_,rel.size,rel.task,rel.alone,rel.logged⟩,rfl⟩
  obtain ⟨inside,regular⟩ := rel.member e isDir
  exact ((shows e inside (stays e isDir) regular q).trans (pageElsewhere (other e isDir) _)).trans (rel.pages e isDir q)

theorem dirCallKeeps (rel : DirsRel s dirs) (ran : dirStepPages s (.call k d call) = some t) : DirsRel t dirs ∧ t.log = s.log := by
  simp only [dirStepPages] at ran
  split at ran
  · contradiction
  · split at ran
    · rename_i free
      obtain ⟨low,isDir,locked⟩ := free
      cases ran
      refine ⟨setTaskRel rel (fun e new there => ?_) fun l e new other _ there second => ?_,rfl⟩
      · cases there
        have npages : dirPages (s.iSize d) = (dirs d).npages := congrArg dirPages (rel.size d isDir)
        rw [npages]
        exact ⟨low,isDir,rfl⟩
      · cases there
        exact locked l (rel.task l d other second).1 (d,other) second rfl
    · contradiction

theorem dirScanKeeps (rel : DirsRel s dirs) (takes : dirTakes s (.scan fuel rounds k)) (ran : dirStepPages s (.scan fuel rounds k) = some t) :
    ∃ next, DirsRel t next ∧ Answers DirAnswers s.log t.log dirs next := by
  simp only [dirStepPages] at ran
  split at ran
  · rename_i d work here
    obtain ⟨_,isDir,ok⟩ := rel.task k d _ here
    have ok : work.rest (dirs d) = (work.call.begin (dirs d).npages).rest (dirs d) := ok
    obtain ⟨inside,regular⟩ := rel.member d isDir
    split at ran
    · rename_i more
      split at ran
      · contradiction
      · obtain ⟨⟨u,found⟩,prepares,same⟩ := Option.map_eq_some_iff.mp ran
        subst same
        have prepared := preparedPage rel.inv inside regular takes (fun bad => by cases bad) prepares
        obtain ⟨q,index⟩ : ∃ q : TreePath, q.index = work.i := ⟨_,TreePath.indexOfIndex work.i prepared.low⟩
        have value : s.run.value (d,work.i) = (dirs d).page work.i := index ▸ rel.pages d isDir q
        have relU := preparedRel rel prepared
        cases found with
        | some page =>
          have bytes : page.bytes = (dirs d).page work.i := (prepared.page page rfl).2.trans value
          refine goRel relU here rfl (fun next looks => lookCall looks) (.trans ?_ ok)
          rw [Option.map_some,bytes]
          exact (lookPage more).symm
        | none =>
          cases creates : work.call.creates with
          | false =>
            have free : entryIno ((dirs d).page work.i) = 0 := by
              rw [← value,failedZero prepared]
              rfl
            exact goRel relU here rfl (fun next looks => lookCall looks) ((lookFailed more free creates).symm.trans ok)
          | true =>
            have refused : work.look (Option.map FilePage.bytes none) = .done (.error .eio) := by
              unfold DirCall.creates at creates
              unfold DirWork.look
              split at creates
              · rename_i call
                rw [Option.map_none,call]
              · contradiction
            dsimp only
            rw [refused]
            exact ⟨dirs,answerRel relU isDir,.inr ⟨(d,work.call),_,rfl,.inr ⟨creates,rfl,rfl⟩⟩⟩
    · rename_i past
      cases ran
      have last : work.last.settle (dirs d) = work.last := by
        unfold DirWork.last
        cases work.call <;> rfl
      refine goRel rel here rfl (fun next bad => ?_) (last.trans ((lookLast past).symm.trans ok))
      unfold DirWork.last at bad
      cases call : work.call <;> rw [call] at bad <;> contradiction
  · contradiction

theorem dirStoreKeeps (rel : DirsRel s dirs) (takes : dirTakes s (.store fuel rounds k)) (ran : dirStepPages s (.store fuel rounds k) = some t) :
    ∃ next, DirsRel t next ∧ Answers DirAnswers s.log t.log dirs next := by
  simp only [dirStepPages] at ran
  split at ran
  · rename_i d call index here
    obtain ⟨_,isDir,stores⟩ := rel.task k d _ here
    have stores : (call.begin (dirs d).npages).rest (dirs d) = .store index := stores
    obtain ⟨inside,regular⟩ := rel.member d isDir
    split at ran
    · contradiction
    · obtain ⟨⟨u,found⟩,prepares,same⟩ := Option.map_eq_some_iff.mp ran
      have prepared := preparedPage rel.inv inside regular takes.1 (fun _ => takes.2) prepares
      obtain ⟨q,at_⟩ : ∃ q : TreePath, q.index = index := ⟨_,TreePath.indexOfIndex index prepared.low⟩
      have value : s.run.value (d,index) = (dirs d).page index := at_ ▸ rel.pages d isDir q
      have ends : call.run (dirs d) = (commitWrite (dirs d) index (call.fill ((dirs d).page index)),.ok 0) :=
        (callEnds ..).trans (congrArg (call.ends (dirs d)) stores)
      cases found with
      | none =>
        have removes : call.creates = false := (prepared.failed rfl).1
        have free : entryIno ((dirs d).page index) = 0 := by
          rw [← value]
          rw [removes] at prepared
          rw [failedZero prepared]
          rfl
        exact absurd free (storeLive stores removes)
      | some page =>
        obtain ⟨inv,bytes,values⟩ := changeKeeps ⟨call.fill page.bytes,true⟩ rel.inv inside regular prepared rfl
        have bytes : page.bytes = (dirs d).page index := bytes.trans value
        rw [← same]
        refine ⟨Function.update dirs d (commitWrite (dirs d) index (call.fill ((dirs d).page index))),?_,
          .inr ⟨(d,call),.ok 0,rfl,.inl ⟨(congrArg Prod.snd ends).symm,by rw [ends]⟩⟩⟩
        have elsewhere : ∀ l e task, Function.update s.task k none l = some (e,task) → l ≠ k ∧ s.task l = some (e,task) := by
          intro l e task there
          by_cases mine : l = k
          · rw [mine,Function.update_self] at there
            contradiction
          · rw [Function.update_of_ne mine] at there
            exact ⟨mine,there⟩
        refine ⟨inv,fun e there => ?_,fun e there p => ?_,fun e there => ?_,fun l e task there => ?_,
          fun a b e task other differ first second => ?_,loggedAnswer rel.logged isDir⟩
        · exact ⟨prepared.aside.inodes ▸ (rel.member e there).1,(rel.member e there).2⟩
        · refine (values e (rel.member e there).1 (rel.member e there).2 p).trans ?_
          rw [rel.pages e there p,bytes]
          by_cases mine : e = d
          · subst mine
            rw [Function.update_self]
            rw [slotAfter]
            by_cases slot : p.index = index
            · rw [slot,if_pos rfl,if_pos rfl]
            · rw [if_neg fun same => slot (congrArg Prod.snd same),if_neg slot]
          · rw [Function.update_of_ne mine,if_neg fun same => mine (congrArg Prod.fst same)]
        · by_cases mine : e = d
          · subst mine
            have same : Function.update s.iSize e (sizeAfter (s.iSize e) index) e = sizeAfter (dirs e).iSize index := by
              rw [Function.update_self,rel.size e isDir]
            rw [Function.update_self,sizeAfterIs]
            exact same
          · rw [Function.update_of_ne mine]
            exact (Function.update_of_ne mine ..).trans (rel.size e there)
        · obtain ⟨differ,old⟩ := elsewhere l e task there
          have apart : e ≠ d := by
            intro mine
            cases (rel.alone k l d _ task differ.symm here (mine ▸ old)).1.symm.trans (storeWrites stores)
          rw [Function.update_of_ne apart]
          exact rel.task l e task old
        · exact rel.alone a b e task other differ (elsewhere a e task first).2 (elsewhere b e other second).2
  · contradiction

theorem goDirs : (s.go k d call looked).isDir = s.isDir := by cases looked <;> rfl

theorem dirsSame {event : DirEvent} (ran : dirStepPages s event = some t) : t.isDir = s.isDir := by
  cases event with
  | file event =>
    obtain ⟨run,_,same⟩ := Option.map_eq_some_iff.mp ran
    rw [← same]
  | call k d call =>
    simp only [dirStepPages] at ran
    split at ran
    · contradiction
    · obtain ⟨_,same⟩ := Option.ite_none_right_eq_some.mp ran
      cases same
      rfl
  | scan fuel rounds k =>
    simp only [dirStepPages] at ran
    split at ran
    · split at ran
      · obtain ⟨_,read⟩ := Option.ite_none_left_eq_some.mp ran
        obtain ⟨⟨u,found⟩,_,same⟩ := Option.map_eq_some_iff.mp read
        rw [← same]
        exact goDirs
      · cases ran
        exact goDirs
    · contradiction
  | store fuel rounds k =>
    simp only [dirStepPages] at ran
    split at ran
    · obtain ⟨_,wrote⟩ := Option.ite_none_left_eq_some.mp ran
      obtain ⟨⟨u,found⟩,_,same⟩ := Option.map_eq_some_iff.mp wrote
      rw [← same]
      cases found <;> rfl
    · contradiction

theorem dirKeeps {event : DirEvent} (rel : DirsRel s dirs) (takes : dirTakes s event) (ran : dirStepPages s event = some t) :
    ∃ next, DirsRel t next ∧ Answers DirAnswers s.log t.log dirs next := by
  cases event with
  | file event =>
    obtain ⟨after,log⟩ := dirFileKeeps rel takes ran
    exact ⟨dirs,after,.inl ⟨log,rfl⟩⟩
  | call k d call =>
    obtain ⟨after,log⟩ := dirCallKeeps rel ran
    exact ⟨dirs,after,.inl ⟨log,rfl⟩⟩
  | scan fuel rounds k => exact dirScanKeeps rel takes ran
  | store fuel rounds k => exact dirStoreKeeps rel takes ran

end

/- No call is under way. -/
def dirStart (run : FileRun) (threads : Nat) (isDir : Nat → Bool) (iSize : Nat → Int) : DirState :=
  ⟨run,threads,isDir,iSize,fun _ => none,[]⟩

def DirState.dirs (s : DirState) (d : Nat) : Dir := ⟨fun i => s.run.value (d,i),s.iSize d⟩

section
variable {rootAddr metaAddr dot dotdot threads : Nat} {blocks : Nat → Memory} {before : List FileEvent} {s : FileRun} {isDir : Nat → Bool}
  {iSize : Nat → Int} {events : List DirEvent} {t : DirState}

theorem dirsReplay (inv : FileInv s) (member : ∀ d, isDir d = true → s.mount.inodes d = true ∧ d ≠ metaIno)
    (run : Run dirTakes dirStepPages (dirStart s threads isDir iSize) events t) :
    ∃ dirs, DirsRel t dirs ∧ Replays DirAnswers (dirStart s threads isDir iSize).dirs t.log dirs ∧ t.isDir = isDir := by
  have start : DirsRel (dirStart s threads isDir iSize) (dirStart s threads isDir iSize).dirs :=
    ⟨inv,member,fun _ _ _ => rfl,fun _ _ => rfl,fun _ _ _ bad => absurd bad.symm (Option.some_ne_none _),
      fun _ _ _ _ _ _ bad => absurd bad.symm (Option.some_ne_none _),fun _ bad => absurd bad List.not_mem_nil⟩
  have same : t.isDir = isDir := related (fun s t : DirState => t.isDir = s.isDir) (fun _ => rfl) (fun _ _ _ first second => second.trans first)
    (fun _ _ _ _ => dirsSame) run
  obtain ⟨dirs,rel,replays⟩ := replaysRun DirState.log DirsRel (fun _ _ _ _ rel takes ran => dirKeeps rel takes ran) run start (.nil _)
  exact ⟨dirs,rel,replays,same⟩

theorem relPages {dirs : Nat → Dir} {d i : Nat} (rel : DirsRel t dirs) (there : t.isDir d = true) (low : i < maxBlocks) :
    t.run.value (d,i) = (dirs d).page i := by
  obtain ⟨q,same⟩ : ∃ q : TreePath, q.index = i := ⟨_,TreePath.indexOfIndex i low⟩
  exact same ▸ rel.pages d there q

/-- Since `mkfs`, calls on directories whose page accesses take place in any order among each
other and among all that the file system does take effect one after the other: their answers
are those of a run of whole calls on the slots, and the pages hold the slots of that run. -/
theorem dirCallsAtomic (root : rootAddr ≠ 0) (inode : metaAddr ≠ 0)
    (takes : Meets fileTakes fileStep (freshFiles rootAddr metaAddr dot dotdot blocks) before)
    (clean : Meets fileClean fileStep (freshFiles rootAddr metaAddr dot dotdot blocks) before)
    (ran : exec fileStep (freshFiles rootAddr metaAddr dot dotdot blocks) before = some s)
    (member : ∀ d, isDir d = true → s.mount.inodes d = true ∧ d ≠ metaIno)
    (run : Run dirTakes dirStepPages (dirStart s threads isDir iSize) events t) :
    ∃ dirs, Replays DirAnswers (dirStart s threads isDir iSize).dirs t.log dirs ∧
      ∀ d, isDir d = true → t.iSize d = (dirs d).iSize ∧ ∀ i < maxBlocks, t.run.value (d,i) = (dirs d).page i := by
  have inv := (agreesRun (freshFileInv root inode) freshAgrees takes clean ran).1
  obtain ⟨dirs,rel,replays,same⟩ := dirsReplay inv member run
  refine ⟨dirs,replays,fun d there => ?_⟩
  have there : t.isDir d = true := same ▸ there
  exact ⟨rel.size d there,fun i low => relPages rel there low⟩

end

/- The root directory gets an entry. Its page goes to the device and leaves the memory while two
threads look up, one of them that entry. -/
def rootBlocks (a : Nat) : Memory := if a = 40 then dotPage rootIno [46] else if a = 41 then dotPage rootIno [46,46] else fun _ => 0

def linkAndLook : List DirEvent :=
  [.call 0 rootIno (.link [97] 9),.scan natFuel 0 0,.scan natFuel 0 0,.scan natFuel 0 0,.store natFuel 0 0,
    .call 1 rootIno (.lookup [97]),.scan natFuel 0 1,.call 2 rootIno (.lookup [98]),.file (.submit natFuel 0 rootIno 2),
    .scan natFuel 0 2,.scan natFuel 0 2,.file (.complete rootIno 2 50),.scan natFuel 0 1,.file (.release rootIno 2),
    .scan natFuel 0 1,.scan natFuel 0 2,.scan natFuel 0 2]

def linkStart : DirState := dirStart (freshFiles 20 12 40 41 rootBlocks) 3 (fun d => decide (d = rootIno)) fun _ => 8192

theorem plainTakes {s : DirState} {event : FileEvent} (takes : fileTakes s.run event) (clean : fileClean s.run event) (file : event.file = none)
    (mounted : event.remounts = false) : dirTakes s (.file event) := by
  refine ⟨takes,clean,fun d _ here => ?_,fun bad => ?_⟩
  · rw [file] at here
    contradiction
  · rw [mounted] at bad
    contradiction

theorem linkAndLookGuarded : Guarded dirTakes dirStepPages linkStart linkAndLook := by
  refine guardedAll (fun event member s => ?_) _
  cases event with
  | file event =>
    cases event with
    | submit fuel rounds ino iblock =>
      have same : fuel = natFuel ∧ rounds = 0 ∧ ino = rootIno ∧ iblock = 2 := by simpa [linkAndLook] using member
      exact plainTakes same.1.ge trivial rfl rfl
    | complete ino iblock blkaddr => exact plainTakes trivial trivial rfl rfl
    | release ino iblock => exact plainTakes trivial trivial rfl rfl
    | _ => simp [linkAndLook] at member
  | call k d call => trivial
  | scan fuel rounds k =>
    have same : fuel = natFuel := by
      simp [linkAndLook] at member
      omega
    exact same.ge
  | store fuel rounds k =>
    have same : fuel = natFuel ∧ rounds = 0 ∧ k = 0 := by simpa [linkAndLook] using member
    obtain ⟨enough,none_,_⟩ := same
    subst none_
    exact ⟨enough.ge,by decide⟩

theorem linkMember (d : Nat) (there : decide (d = rootIno) = true) :
    (freshFiles 20 12 40 41 rootBlocks).mount.inodes d = true ∧ d ≠ metaIno := by
  rw [of_decide_eq_true there]
  exact ⟨rfl,by decide⟩

/-- The entry is found on the page that is read again. -/
theorem dirCallsAtomicRoot : ∃ t dirs, exec dirStepPages linkStart linkAndLook = some t ∧ t.log.map Prod.snd = [.ok 0,.ok 9,.ok 0] ∧
    Replays DirAnswers linkStart.dirs t.log dirs ∧ t.run.value (rootIno,2) = (dirs rootIno).page 2 := by
  have answered : ((exec dirStepPages linkStart linkAndLook).any fun t => decide (t.log.map Prod.snd = [.ok 0,.ok 9,.ok 0])) = true := by
    decide +kernel
  obtain ⟨t,ran,answers⟩ := (Option.any_eq_true ..).mp answered
  obtain ⟨dirs,replays,pages⟩ := @dirCallsAtomic 20 12 40 41 3 rootBlocks [] _ _ _ _ t (by decide) (by decide) trivial trivial rfl linkMember
    (ofExec ran linkAndLookGuarded)
  exact ⟨t,dirs,ran,of_decide_eq_true answers,replays,(pages rootIno rfl).2 2 (by decide)⟩

end Xcpfs
