import Xcpfs.DirTree

/-! The ".." that `xcpfs_readdir` emits for the directories of a tree. `xcpfs_init_dir`
writes the new directory's own ino to both of its first slots. -/
namespace Xcpfs

open EventRun CBytes

/- The first entry named ".." in a call from the start with room for every entry. -/
def emittedDots (dir : Dir) : Option Nat :=
  ((xcpfsReaddir dir 0 dir.npages).bind fun (out,_) => out.find? fun e => e.name = [46,46]).map Emitted.ino

/- Where ".." should lead; the root is its own parent. -/
def Tree.up (t : Tree) (d : Nat) : Nat := if d = rootIno then rootIno else t.parent d

inductive Depth (t : Tree) : Nat → Nat → Prop where
  | root : Depth t rootIno 0
  | child {d depth} (here : (t.dirAt d).isSome) (other : d ≠ rootIno) (above : Depth t (t.parent d) depth) : Depth t d (depth + 1)

/- `steps` times to the emitted "..". -/
def climb (t : Tree) : (steps d : Nat) → Option Nat
  | 0,d => some d
  | steps + 1,d => (t.dirAt d).bind fun v => (emittedDots v.dir).bind (climb t steps)

structure DotsFollow (t : Tree) : Prop where
  dots : ∀ d v, t.dirAt d = some v → emittedDots v.dir = some (t.up d)
  climbs : ∀ d depth, Depth t d depth → climb t depth d = some rootIno

def NoMkdir (_ : Tree) : TreeOp → Prop
  | .mkdir .. => False
  | _ => True

section
variable {d : Nat} {dir : Dir} {page : Memory} {text : List UInt8}

theorem emittedName {i : Nat} (bytes : take (dir.page i) 0 text.length = text) (last : dir.page i text.length = 0)
    (noNul : ∀ b ∈ text, b ≠ 0) (short : text.length < maxFnameLen) : (emitted dir i).name = text := by
  obtain ⟨rest,count⟩ : ∃ rest, maxFnameLen = text.length + (rest + 1) := ⟨maxFnameLen - text.length - 1,by omega⟩
  have split : take (dir.page i) 0 maxFnameLen = text ++ 0 :: (List.range rest).map fun j => dir.page i (text.length + (j + 1)) := by
    have head : (List.range text.length).map (fun j => dir.page i (0 + j)) = text := bytes
    unfold take
    rw [count,List.range_add,List.map_append,head,List.range_succ_eq_map]
    simp [last,Function.comp_def]
  unfold emitted
  dsimp only
  rw [split,List.takeWhile_append_of_pos,List.takeWhile_cons_of_neg (by decide),List.append_nil]
  intro b member
  exact bne_iff_ne.mpr (noNul b member)

theorem dotPageEmitted {i : Nat} (written : dir.page i = dotPage d text) (noNul : ∀ b ∈ text, b ≠ 0)
    (short : text.length < maxFnameLen) : (emitted dir i).name = text := by
  have inside : text.length < dentryNamelen := Nat.lt_trans short (by decide)
  refine emittedName ?_ ?_ noNul short
  · rw [written,takeIff]
    intro j small
    have byte := strcpyByte (store (fun _ => 0) dentryIno (encode32 d)) 0 small
    unfold dotPage
    rw [storeOutside (.inl (by omega)),byte]
  · have byte := strcpyEnd (store (fun _ => 0) dentryIno (encode32 d)) 0 text
    rw [Nat.zero_add] at byte
    rw [written]
    unfold dotPage
    rw [storeOutside (.inl inside),byte]

theorem dotsNoNul (count : Nat) : ∀ b ∈ List.replicate count (46 : UInt8), b ≠ 0 := by
  intro b member
  rw [List.eq_of_mem_replicate member]
  decide

theorem dotsOwn (ok : DirOk d dir) : emittedDots dir = some d := by
  have two := ok.two
  have live : ∀ i < 2, isLive dir i = true := fun i low => bne_iff_ne.mpr (dotLive ok low).1.2
  have listed : liveFrom dir 0 = 0 :: 1 :: liveFrom dir 2 := by
    rw [liveFromCons (by omega),if_pos (live 0 (by decide)),liveFromCons (by omega),if_pos (live 1 (by decide))]
  have start : startSlot 0 = 0 := by decide
  obtain ⟨n,room⟩ : ∃ n, dir.npages = n + 2 := ⟨dir.npages - 2,by omega⟩
  have ran := @xcpfsReaddirSpec dir 0 (n + 2) (Int.le_of_eq start.symm) (by rw [start]; exact Nat.zero_le _)
  have first : (emitted dir 0).name = [46] := dotPageEmitted ok.dot (dotsNoNul 1) (by decide)
  have second : (emitted dir 1).name = [46,46] := dotPageEmitted ok.dots (dotsNoNul 2) (by decide)
  have out : (((liveFrom dir 0).take (n + 2)).map (emitted dir)).find? (fun e => e.name = [46,46]) = some (emitted dir 1) := by
    have differ : ¬(emitted dir 0).name = [46,46] := by
      rw [first]
      intro same
      cases (List.cons.inj same).2
    rw [listed,List.take_succ_cons,List.take_succ_cons,List.map_cons,List.map_cons,List.find?_cons,decide_eq_false differ,
      List.find?_cons,decide_eq_true second]
  rw [start] at ran
  unfold emittedDots
  rw [room,ran]
  dsimp only [Option.bind_some]
  rw [Int.toNat_zero,out]
  exact congrArg some (dotLive ok (by decide : 1 < 2)).2

end

section
variable {t next : Tree} {op : TreeOp}

theorem climbsRoot (dots : ∀ d v, t.dirAt d = some v → emittedDots v.dir = some (t.up d)) {d depth : Nat} (deep : Depth t d depth) :
    climb t depth d = some rootIno := by
  induction deep with
  | root => rfl
  | @child d depth here other above ih =>
    obtain ⟨v,found⟩ := Option.isSome_iff_exists.mp here
    unfold climb
    rw [found,Option.bind_some,dots d v found,Option.bind_some,Tree.up,if_neg other]
    exact ih

structure OnlyRoot (t : Tree) : Prop where
  ok : DirsOk t
  only : ∀ d v, t.dirAt d = some v → d = rootIno

theorem onlyRootFollows (root : OnlyRoot t) : DotsFollow t := by
  have dots : ∀ d v, t.dirAt d = some v → emittedDots v.dir = some (t.up d) := by
    intro d v here
    rw [dotsOwn (root.ok.dirs d v here),Tree.up,if_pos (root.only d v here)]
    exact congrArg some (root.only d v here)
  exact ⟨dots,fun d depth deep => climbsRoot dots deep⟩

theorem onlyRootLink {d c : Nat} {w inode : Vnode} (root : OnlyRoot t) (isDir : w.isDir = true) (here : d = rootIno) (apart : d ≠ c)
    (file : inode.isDir = false) (e : Nat) (v : Vnode) (found : ((t.put d w).link d c inode).dirAt e = some v) : e = rootIno := by
  rw [dirAtLink apart isDir,file] at found
  split at found
  · contradiction
  · split at found
    · rename_i same
      exact same.trans here
    · exact root.only e v found

theorem onlyRootRemove {d c : Nat} {w inode : Vnode} (root : OnlyRoot t) (isDir : w.isDir = true) (here : d = rootIno)
    (e : Nat) (v : Vnode) (found : ((t.put d w).remove c inode).dirAt e = some v) : e = rootIno := by
  rw [dirAtRemove isDir] at found
  split at found
  · contradiction
  · split at found
    · rename_i same
      exact same.trans here
    · exact root.only e v found

theorem onlyRootKeeps (root : OnlyRoot t) (ran : treeStep t op = some next) (none_ : NoMkdir t op) : OnlyRoot next := by
  have effect := treeEffect root.ok ran
  refine ⟨dirsEffect root.ok effect,?_⟩
  cases effect with
  | mknod here room links creates => exact onlyRootLink root creates.isDir (root.only _ _ here) creates.apart rfl
  | mknodOver here full overruns => exact onlyRootLink root overruns.isDir (root.only _ _ here) overruns.apart rfl
  | mkdir => exact absurd none_ id
  | mkdirOver => exact absurd none_ id
  | unlink links kind deletes => exact onlyRootRemove root deletes.isDir (root.only _ _ deletes.here)
  | rmdir links kind deletes => exact onlyRootRemove root deletes.isDir (root.only _ _ deletes.here)
  | refused => exact root.only

theorem madeOwn {d : Nat} {ino : Ino} {w inode : Vnode} (ok : DirsOk ((t.put d w).link d ino.val inode)) (isDir : w.isDir = true)
    (apart : d ≠ ino.val) (kind : inode.isDir = true) (other : ino.val ≠ rootIno) : ¬DotsFollow ((t.put d w).link d ino.val inode) := by
  intro follow
  have found : ((t.put d w).link d ino.val inode).dirAt ino.val = some inode := by
    rw [dirAtLink apart isDir,if_pos rfl,if_pos kind]
  have parent : ((t.put d w).link d ino.val inode).parent ino.val = d := Function.update_self ..
  have up := follow.dots ino.val inode found
  rw [dotsOwn (ok.dirs ino.val inode found),Tree.up,if_neg other,parent] at up
  exact apart (Option.some.inj up).symm

theorem mkdirFails (root : OnlyRoot t) (ran : treeStep t op = some next) (made : ¬NoMkdir t op) : ¬DotsFollow next := by
  have effect := treeEffect root.ok ran
  have ok := dirsEffect root.ok effect
  cases effect with
  | mknod => exact absurd trivial made
  | mknodOver => exact absurd trivial made
  | mkdir here room links kind two creates => exact madeOwn ok creates.isDir creates.apart kind (creates.notRoot root.ok)
  | mkdirOver here full links kind overruns =>
    refine madeOwn ok overruns.isDir overruns.apart kind fun same => ?_
    obtain ⟨v,found⟩ := root.ok.root
    have node := (dirAtNode found).1
    rw [← same,overruns.fresh] at node
    contradiction
  | unlink => exact absurd trivial made
  | rmdir => exact absurd trivial made
  | refused => exact absurd trivial made

theorem mkfsOnlyRoot : OnlyRoot mkfsTree := by
  refine ⟨mkfsDirsOk,fun d v found => ?_⟩
  rw [mkfsDirAt] at found
  split at found
  · assumption
  · contradiction

theorem dotDotFollows (ops : List TreeOp) : Always DotsFollow treeStep mkfsTree ops ↔ Meets NoMkdir treeStep mkfsTree ops :=
  alwaysIff OnlyRoot (fun _ => onlyRootFollows) (fun _ _ _ root ran none_ => onlyRootKeeps root ran none_)
    (fun _ _ _ root ran made => mkdirFails root ran made) mkfsOnlyRoot

/-- One directory "a" in the root. -/
theorem dotDotOwnIno : ¬∀ ops : List TreeOp, Always DotsFollow treeStep mkfsTree ops := by
  intro claim
  obtain ⟨name,letter⟩ : ∃ name : Name, name.bytes = [97] := ⟨⟨[97],by simp,by decide,by decide,by decide,by decide⟩,rfl⟩
  have here : mkfsTree.dirAt rootIno = some mkfsRoot := by rw [mkfsDirAt,if_pos rfl]
  have free : xcpfsInodeByName mkfsRoot.dir name.bytes = 0 := (finiteMapOf (newDirHolds ⟨rootIno,by decide,by decide⟩)).found name
  have ran : treeStep mkfsTree (.mkdir rootIno name ⟨2730454,by decide,by decide⟩) =
      some (xcpfsMkdir mkfsTree rootIno mkfsRoot name.bytes 2730454).1 := by
    simp only [treeStep,Tree.create]
    rw [here]
    dsimp only
    exact if_pos ⟨by rw [letter]; decide,free,by rw [mkfsNode]; decide⟩
  have follow := (claim [.mkdir rootIno name ⟨2730454,by decide,by decide⟩]).2 _ ran
  exact mkdirFails mkfsOnlyRoot ran id (alwaysHead follow)

end
end Xcpfs
