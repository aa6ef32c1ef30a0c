import Xcpfs.DirPages
import Xcpfs.MakeEntry
import Xcpfs.PathMap

/-! What the users of directories see. Calls of many threads on the pages of directories are calls
on a map from names to inos for each directory. -/
namespace Xcpfs

open PointerForest EventRun CallLog
open CBytes (Memory)

inductive NameCall where
  | lookup (name : Name)
  | link (name : Name) (ino : Ino)
  | unlink (name : Name)
  | empty

def NameCall.code : NameCall → DirCall
  | .lookup name => .lookup name.bytes
  | .link name ino => .link name.bytes ino.val
  | .unlink name => .unlink name.bytes
  | .empty => .empty

def codeOf (call : Nat × NameCall) : Nat × DirCall := (call.1,call.2.code)

/- A name of 256 bytes would run on into the ino behind it. -/
def NameCall.Fits : NameCall → Prop
  | .link name _ => name.bytes.length ≤ 255
  | _ => True

def NameCall.links : NameCall → Bool
  | .link .. => true
  | _ => false

/- The entries of each directory, 0 where there is none. -/
abbrev NameMaps := Nat → Name → Nat

def NameMaps.set (m : NameMaps) (d : Nat) (name : Name) (ino : Nat) : NameMaps := Function.update m d (Function.update (m d) name ino)

/-- What a call means for the maps. -/
def NameAnswers (m : NameMaps) (call : Nat × NameCall) (answer : Except Errno Nat) (next : NameMaps) : Prop :=
  match call.2 with
  | .lookup name => answer = .ok (m call.1 name) ∧ next = m
  | .link name ino =>
    (m call.1 name = 0 ∧ answer = .ok 0 ∧ next = m.set call.1 name ino.val) ∨
      (m call.1 name ≠ 0 ∧ answer = .error .eexist ∧ next = m) ∨ (answer = .error .eio ∧ next = m)
  | .unlink name =>
    (m call.1 name ≠ 0 ∧ answer = .ok 0 ∧ next = m.set call.1 name 0) ∨ (m call.1 name = 0 ∧ answer = .error .enoent ∧ next = m)
  | .empty => (((∀ name, m call.1 name = 0) ∧ answer = .ok 1) ∨ ((∃ name, m call.1 name ≠ 0) ∧ answer = .ok 0)) ∧ next = m

def entries (dirs : Nat → Dir) : NameMaps := fun d name => xcpfsInodeByName (dirs d) name.bytes

def linksTo (d : Nat) (calls : List ((Nat × NameCall) × Except Errno Nat)) : Nat :=
  calls.countP fun entry => decide (entry.1.1 = d) && entry.1.2.links

structure Tracked (isDir : Nat → Bool) (calls : List ((Nat × NameCall) × Except Errno Nat)) (dirs : Nat → Dir) (m : NameMaps) : Prop where
  maps : m = entries dirs
  fits : ∀ entry ∈ calls, isDir entry.1.1 = true ∧ entry.1.2.Fits
  ok : ∀ d, isDir d = true → DirOk d (dirs d)
  room : ∀ d, isDir d = true → (dirs d).npages + linksTo d calls ≤ 2 ^ 19 - 1

section
variable {d : Nat} {dir next : Dir} {name : Name} {ino : Ino}

theorem linkCount (ok : DirOk d dir) (room : dir.npages < 2 ^ 19 - 1) (added : xcpfsAddLink dir name.bytes ino.val = (next,.ok ())) :
    next.npages ≤ dir.npages + 1 := by
  obtain ⟨bound,holds⟩ := ok.holds
  have size : dir.iSize = dir.npages * 4096 := holds.size
  obtain ⟨ran,_⟩ | ⟨tar,ran,_,_,place⟩ := scanDecides holds name
  · unfold xcpfsAddLink at added
    dsimp only at ran
    rw [ran] at added
    cases added
  · unfold xcpfsAddLink at added
    dsimp only at ran place
    rw [ran] at added
    cases added
    rcases place with ⟨inside,_⟩ | ⟨last,_⟩
    · exact (commitNpages _ size holds.room (.inl inside)).le.trans (Nat.le_succ _)
    · rw [last]
      exact (commitGrows _ size room).2.le

theorem linkRefused (ok : DirOk d dir) (present : xcpfsInodeByName dir name.bytes ≠ 0) :
    xcpfsAddLink dir name.bytes ino.val = (dir,.error .eexist) := by
  obtain ⟨bound,holds⟩ := ok.holds
  obtain ⟨ran,_⟩ | ⟨tar,_,unbound,_⟩ := scanDecides holds name
  · unfold xcpfsAddLink
    dsimp only at ran
    rw [ran]
  · have found : xcpfsInodeByName dir name.bytes = (bound name).getD 0 := (finiteMapOf holds).found name
    have none_ : bound name = none := unbound
    rw [none_] at found
    exact absurd found present

theorem unlinkCount (ok : DirOk d dir) (cleared : xcpfsUnlink dir name.bytes = (next,.ok ())) : next.npages = dir.npages := by
  obtain ⟨bound,holds⟩ := ok.holds
  unfold xcpfsUnlink at cleared
  obtain ⟨i,found,live,_⟩ | ⟨missed,_⟩ := findDecides holds name
  · dsimp only at found
    rw [found] at cleared
    cases cleared
    exact commitNpages _ holds.size holds.room (.inl live.1)
  · dsimp only at missed
    rw [missed] at cleared
    cases cleared

theorem unlinkMissing (ok : DirOk d dir) (absent : xcpfsInodeByName dir name.bytes = 0) :
    xcpfsUnlink dir name.bytes = (dir,.error .enoent) := by
  obtain ⟨bound,holds⟩ := ok.holds
  have none_ := unbound holds absent
  obtain ⟨i,_,_,_,here⟩ | ⟨missed,_⟩ := findDecides holds name
  · have here : bound name = some (entryIno (dir.page i)) := here
    rw [none_] at here
    cases here
  · unfold xcpfsUnlink
    dsimp only at missed
    rw [missed]

theorem emptyNames (ok : DirOk d dir) : xcpfsEmptyDir dir = true ↔ ∀ name : Name, xcpfsInodeByName dir name.bytes = 0 := by
  rw [emptyDirIff ok.two]
  constructor
  · exact fun bare => lookupBare ok bare
  · intro absent i high live
    obtain ⟨name,carries⟩ := ok.names i high live
    obtain ⟨here,_⟩ := (lookupIff ok name (entryIno (dir.page i))).mpr ⟨i,high,live,carries,rfl⟩
    exact live.2 (here.symm.trans (absent name))

end

section
variable {isDir : Nat → Bool} {dirs : Nat → Dir} {m : NameMaps} {d : Nat} {call : NameCall} {answer : Except Errno Nat}
  {rest : List ((Nat × NameCall) × Except Errno Nat)}

theorem entriesUpdate (dirs : Nat → Dir) (d : Nat) (dir : Dir) :
    entries (Function.update dirs d dir) = Function.update (entries dirs) d fun name => xcpfsInodeByName dir name.bytes := by
  funext e
  unfold entries
  by_cases same : e = d
  · rw [same,Function.update_self,Function.update_self]
  · rw [Function.update_of_ne same,Function.update_of_ne same]

theorem trackedRest (tracked : Tracked isDir (((d,call),answer) :: rest) dirs m) : Tracked isDir rest dirs m where
  maps := tracked.maps
  fits entry member := tracked.fits entry (List.mem_cons_of_mem _ member)
  ok := tracked.ok
  room e there := by
    have room := tracked.room e there
    unfold linksTo at room ⊢
    rw [List.countP_cons] at room
    omega

theorem trackedSame (tracked : Tracked isDir (((d,call),answer) :: rest) dirs m) :
    Tracked isDir rest (Function.update dirs d (dirs d)) m := (Function.update_eq_self d dirs).symm ▸ trackedRest tracked

theorem trackedSet {next : Dir} {name : Name} {ino : Nat} (tracked : Tracked isDir (((d,call),answer) :: rest) dirs m) (ok : DirOk d next)
    (count : next.npages ≤ (dirs d).npages + if call.links then 1 else 0)
    (names : ∀ n : Name, xcpfsInodeByName next n.bytes = if n = name then ino else xcpfsInodeByName (dirs d) n.bytes) :
    Tracked isDir rest (Function.update dirs d next) (m.set d name ino) := by
  refine ⟨?_,fun entry member => tracked.fits entry (List.mem_cons_of_mem _ member),fun e there => ?_,fun e there => ?_⟩
  · rw [entriesUpdate,tracked.maps]
    unfold NameMaps.set
    congr 1
    funext n
    rw [names n,Function.update_apply]
    rfl
  · by_cases same : e = d
    · subst same
      rw [Function.update_self]
      exact ok
    · rw [Function.update_of_ne same]
      exact tracked.ok e there
  · by_cases same : e = d
    · subst same
      have room := tracked.room e there
      unfold linksTo at room ⊢
      rw [List.countP_cons] at room
      simp only [decide_true,Bool.true_and] at room
      rw [Function.update_self]
      omega
    · rw [Function.update_of_ne same]
      exact (trackedRest tracked).room e there

theorem namesStep (call : Nat × NameCall) (answer : Except Errno Nat) (rest : List ((Nat × NameCall) × Except Errno Nat)) (dirs : Nat → Dir)
    (m : NameMaps) (next : Nat → Dir) (tracked : Tracked isDir ((call,answer) :: rest) dirs m)
    (answers : DirAnswers dirs (codeOf call) answer next) :
    ∃ n, NameAnswers m call answer n ∧ Tracked isDir rest next n := by
  obtain ⟨d,call⟩ := call
  obtain ⟨there,fits⟩ := tracked.fits _ List.mem_cons_self
  have ok := tracked.ok d there
  have value : ∀ name : Name, m d name = xcpfsInodeByName (dirs d) name.bytes := fun name => congrFun (congrFun tracked.maps d) name
  cases call with
  | lookup name =>
    rcases answers with ⟨answered,same⟩ | ⟨creates,_⟩
    · exact ⟨m,⟨answered.trans (congrArg Except.ok (value name).symm),rfl⟩,same ▸ trackedSame tracked⟩
    · contradiction
  | link name ino =>
    rcases answers with ⟨answered,same⟩ | ⟨_,answered,same⟩
    · dsimp only [codeOf,NameCall.code,DirCall.run] at answered same
      by_cases absent : xcpfsInodeByName (dirs d) name.bytes = 0
      · obtain ⟨after,added,okAfter,_⟩ := addLinkSpec ok ino fits absent
        have room : (dirs d).npages < 2 ^ 19 - 1 := by
          have room := tracked.room d there
          unfold linksTo at room
          rw [List.countP_cons] at room
          simp only [decide_true,NameCall.links,Bool.and_self,if_true] at room
          omega
        rw [added] at answered same
        refine ⟨_,.inl ⟨(value name).trans absent,answered,rfl⟩,same ▸ trackedSet tracked okAfter (linkCount ok room added) fun n => ?_⟩
        exact lookupLinked ok (.inr room) fits added n
      · rw [linkRefused ok absent] at answered same
        exact ⟨m,.inr (.inl ⟨(value name).trans_ne absent,answered,rfl⟩),same ▸ trackedSame tracked⟩
    · exact ⟨m,.inr (.inr ⟨answered,rfl⟩),same ▸ trackedRest tracked⟩
  | unlink name =>
    rcases answers with ⟨answered,same⟩ | ⟨creates,_⟩
    · dsimp only [codeOf,NameCall.code,DirCall.run] at answered same
      by_cases absent : xcpfsInodeByName (dirs d) name.bytes = 0
      · rw [unlinkMissing ok absent] at answered same
        exact ⟨m,.inr ⟨(value name).trans absent,answered,rfl⟩,same ▸ trackedSame tracked⟩
      · obtain ⟨i,after,cleared,okAfter,_⟩ := unlinkSpec ok absent
        rw [cleared] at answered same
        refine ⟨_,.inl ⟨(value name).trans_ne absent,answered,rfl⟩,
          same ▸ trackedSet tracked okAfter ((unlinkCount ok cleared).le.trans (Nat.le_add_right ..)) fun n => ?_⟩
        exact lookupUnlinked ok cleared n
    · contradiction
  | empty =>
    rcases answers with ⟨answered,same⟩ | ⟨creates,_⟩
    · have answered : answer = .ok (if xcpfsEmptyDir (dirs d) then 1 else 0) := answered
      refine ⟨m,⟨?_,rfl⟩,same ▸ trackedSame tracked⟩
      cases bare : xcpfsEmptyDir (dirs d) with
      | true =>
        rw [bare] at answered
        exact .inl ⟨fun name => (value name).trans ((emptyNames ok).mp bare name),answered⟩
      | false =>
        rw [bare] at answered
        have some_ := mt (emptyNames ok).mpr (by simp [bare])
        obtain ⟨name,taken⟩ := not_forall.mp some_
        exact .inr ⟨⟨name,(value name).trans_ne taken⟩,answered⟩
    · contradiction

end

section
variable {rootAddr metaAddr dot dotdot threads : Nat} {blocks : Nat → Memory} {before : List FileEvent} {s : FileRun} {isDir : Nat → Bool}
  {iSize : Nat → Int} {events : List DirEvent} {t : DirState}

theorem pagesLookup {dirs : Nat → Dir} {d : Nat} (rel : DirsRel t dirs) (there : t.isDir d = true) (ok : DirOk d (dirs d)) (name : Name) :
    xcpfsInodeByName (t.dirs d) name.bytes = xcpfsInodeByName (dirs d) name.bytes := by
  obtain ⟨bound,holds⟩ := ok.holds
  have room : (dirs d).npages < 2 ^ 19 := holds.room
  have inside : ∀ i < (dirs d).npages, (t.dirs d).page i = (dirs d).page i := by
    intro i low
    refine relPages rel there ?_
    unfold maxBlocks
    omega
  have now : xcpfsInodeByName (t.dirs d) name.bytes = (bound name).getD 0 := (finiteMapOf (holdsInside holds (rel.size d there) inside)).found name
  exact now.trans ((finiteMapOf holds).found name).symm

theorem blockValue {key : PageKey} {a : Nat} (absent : s.pages key = none) (word : oldBlkaddr s.mount.fs.content key.1 key.2 = a)
    (nonzero : a ≠ 0) : s.value key = s.blocks a := by
  have cell : ptr (oldBlkaddr s.mount.fs.content key.1 key.2) = some a := ptrSome.mpr ⟨word,nonzero⟩
  rw [valueAbsent (congrArg (Option.map FilePage.bytes) absent)]
  unfold WriteBack.Store.stored FileRun.backing
  dsimp only
  rw [cell]
  rfl

theorem dirsPage (t : DirState) (d i : Nat) : (t.dirs d).page i = t.run.value (d,i) := rfl

theorem freshUnread (key : PageKey) : (freshFiles rootAddr metaAddr dot dotdot blocks).pages key = none := rfl

/-- Since `mkfs`, the calls of any number of threads on directories in order answer as calls one
after the other on a map from names to inos for each directory, as long as there is room; and
at the end a lookup finds what the maps have. -/
theorem dirCallsAreMaps (root : rootAddr ≠ 0) (inode : metaAddr ≠ 0)
    (takes : Meets fileTakes fileStep (freshFiles rootAddr metaAddr dot dotdot blocks) before)
    (clean : Meets fileClean fileStep (freshFiles rootAddr metaAddr dot dotdot blocks) before)
    (ran : exec fileStep (freshFiles rootAddr metaAddr dot dotdot blocks) before = some s)
    (member : ∀ d, isDir d = true → s.mount.inodes d = true ∧ d ≠ metaIno)
    (ok : ∀ d, isDir d = true → DirOk d ((dirStart s threads isDir iSize).dirs d))
    (run : Run dirTakes dirStepPages (dirStart s threads isDir iSize) events t) {calls : List ((Nat × NameCall) × Except Errno Nat)}
    (named : t.log = calls.map fun entry => (codeOf entry.1,entry.2)) (fits : ∀ entry ∈ calls, entry.1.2.Fits)
    (room : ∀ d, isDir d = true → dirPages (iSize d) + linksTo d calls ≤ 2 ^ 19 - 1) :
    ∃ m, Replays NameAnswers (entries (dirStart s threads isDir iSize).dirs) calls m ∧
      ∀ d, isDir d = true → ∀ name : Name, xcpfsInodeByName (t.dirs d) name.bytes = m d name := by
  have inv := (agreesRun (freshFileInv root inode) freshAgrees takes clean ran).1
  obtain ⟨dirs,rel,replays,same⟩ := dirsReplay inv member run
  have start : Tracked isDir calls (dirStart s threads isDir iSize).dirs (entries (dirStart s threads isDir iSize).dirs) := by
    refine ⟨rfl,fun entry there => ⟨?_,fits entry there⟩,ok,room⟩
    have logged := rel.logged (codeOf entry.1,entry.2) (named ▸ List.mem_map_of_mem there)
    exact same ▸ logged
  rw [named] at replays
  obtain ⟨m,above,tracked⟩ := replaysSimulates (Tracked isDir) namesStep replays start
  refine ⟨m,above,fun d there name => ?_⟩
  rw [tracked.maps]
  exact pagesLookup rel (same ▸ there) (tracked.ok d there) name

end

def letterB : Name := ⟨[98],by simp,by decide,by decide,by decide,by decide⟩

def linkCalls : List ((Nat × NameCall) × Except Errno Nat) :=
  [((rootIno,.link letterA ⟨9,by decide,by decide⟩),.ok 0),((rootIno,.lookup letterA),.ok 9),((rootIno,.lookup letterB),.ok 0)]

theorem linkStartPage (i a : Nat) (word : oldBlkaddr (freshFiles 20 12 40 41 rootBlocks).mount.fs.content rootIno i = a) (nonzero : a ≠ 0) :
    (linkStart.dirs rootIno).page i = rootBlocks a := by
  have run : linkStart.run = freshFiles 20 12 40 41 rootBlocks := rfl
  rw [dirsPage,run]
  exact blockValue (freshUnread _) word nonzero

theorem linkStartOk (d : Nat) (there : decide (d = rootIno) = true) : DirOk d (linkStart.dirs d) := by
  rw [of_decide_eq_true there]
  obtain ⟨size,count,first,second⟩ := initDirPages rootIno
  refine dirOkInside (dirOkNew ⟨rootIno,by decide,by decide⟩) (size.symm : (8192 : Int) = _) fun i low => ?_
  have low : i < 2 := count ▸ low
  match i,low with
  | 0,_ => exact (linkStartPage 0 40 (by decide +kernel) (by decide)).trans first.symm
  | 1,_ => exact (linkStartPage 1 41 (by decide +kernel) (by decide)).trans second.symm

/-- The new entry is in the map of the root directory. -/
theorem dirCallsAreMapsRoot : ∃ t m, exec dirStepPages linkStart linkAndLook = some t ∧ Replays NameAnswers (entries linkStart.dirs) linkCalls m ∧
    xcpfsInodeByName (t.dirs rootIno) letterA.bytes = m rootIno letterA := by
  have answered : ((exec dirStepPages linkStart linkAndLook).any fun t =>
      decide (t.log = linkCalls.map fun entry => (codeOf entry.1,entry.2))) = true := by decide +kernel
  obtain ⟨t,ran,named⟩ := (Option.any_eq_true ..).mp answered
  have fits : ∀ entry ∈ linkCalls, entry.1.2.Fits := by
    intro entry member
    simp only [linkCalls,List.mem_cons,List.not_mem_nil,or_false] at member
    rcases member with rfl | rfl | rfl
    · exact (by decide : letterA.bytes.length ≤ 255)
    · trivial
    · trivial
  have room : ∀ d, decide (d = rootIno) = true → dirPages 8192 + linksTo d linkCalls ≤ 2 ^ 19 - 1 := by
    intro d there
    rw [of_decide_eq_true there]
    decide
  obtain ⟨m,above,found⟩ := @dirCallsAreMaps 20 12 40 41 3 rootBlocks [] _ _ _ _ t (by decide) (by decide) trivial trivial rfl linkMember linkStartOk
    (ofExec ran linkAndLookGuarded) linkCalls (of_decide_eq_true named) fits room
  exact ⟨t,m,ran,above,found rootIno rfl letterA⟩

end Xcpfs
