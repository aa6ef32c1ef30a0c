import Xcpfs.LinkCount
import Xcpfs.Lib.NamedTree

/-! Paths. Looking up one name after the other from the root, the directory tree is
a map from paths to inodes; the operations add one path and take one away, and do
nothing else to the map. -/
namespace Xcpfs

open EventRun NamedTree

/-- One step of a path: `xcpfs_lookup` in directory `d`. -/
def Tree.child (t : Tree) (d : Nat) (name : Name) : Option Nat :=
  (t.dirAt d).bind fun v =>
    if xcpfsInodeByName v.dir name.bytes = 0 then none else some (xcpfsInodeByName v.dir name.bytes)

def Tree.resolve (t : Tree) (path : List Name) : Option Nat := walk t.child rootIno path

/- A map from paths to inos, each with whether it is a directory. -/
abbrev PathMap := List Name → Option (Nat × Bool)

def Tree.paths (t : Tree) : PathMap := fun path =>
  (t.resolve path).bind fun ino => (t.node ino).map fun v => (ino,v.isDir)

inductive PathOp where
  | mknod (path : List Name) (name : Name) (ino : Ino)
  | mkdir (path : List Name) (name : Name) (ino : Ino)
  | unlink (path : List Name) (name : Name)
  | rmdir (path : List Name) (name : Name)

def PathOp.path : PathOp → List Name
  | .mknod path _ _ | .mkdir path _ _ | .unlink path _ | .rmdir path _ => path

def PathOp.inside (d : Nat) : PathOp → TreeOp
  | .mknod _ name ino => .mknod d name ino
  | .mkdir _ name ino => .mkdir d name ino
  | .unlink _ name => .unlink d name
  | .rmdir _ name => .rmdir d name

/- The VFS walks to the directory and calls the operation there. -/
def pathStep (t : Tree) (op : PathOp) : Option Tree := (t.resolve op.path).bind fun d => treeStep t (op.inside d)

def PathFits (t : Tree) (op : PathOp) : Prop := ∀ d, t.resolve op.path = some d → TreeFits t (op.inside d)

/- What the operations mean for the map of paths. -/
open Classical in
noncomputable def PathMap.create (m : PathMap) (path : List Name) (name : Name) (ino : Ino) (isDir : Bool) : Option PathMap :=
  if (∃ d, m path = some (d,true)) ∧ m (path ++ [name]) = none ∧ name.bytes.length ≤ 255 ∧ ∀ q k, m q ≠ some (ino.val,k) then
    some (Function.update m (path ++ [name]) (some (ino.val,isDir)))
  else none

open Classical in
noncomputable def PathMap.delete (m : PathMap) (path : List Name) (name : Name) (isDir : Bool) : Option PathMap :=
  if (∃ c, m (path ++ [name]) = some (c,isDir)) ∧ name.bytes.length ≤ 255 then
    if ∃ n, m (path ++ [name] ++ [n]) ≠ none then some m else some (Function.update m (path ++ [name]) none)
  else none

noncomputable def nameStep (m : PathMap) : PathOp → Option PathMap
  | .mknod path name ino => m.create path name ino false
  | .mkdir path name ino => m.create path name ino true
  | .unlink path name => m.delete path name false
  | .rmdir path name => m.delete path name true

def rootPaths : PathMap := fun path => if path = [] then some (rootIno,true) else none

/- Each inode of the tree is at the end of a path. -/
structure PathsOk (t : Tree) : Prop where
  tree : TreeOk t
  reached : ∀ c v, t.node c = some v → ∃ path, t.resolve path = some c

section
variable {d : Nat} {dir next : Dir} {name : Name} {ino : Ino}

theorem lookupLinked (ok : DirOk d dir) (room : HasRoom dir) (short : name.bytes.length ≤ 255)
    (added : xcpfsAddLink dir name.bytes ino.val = (next,.ok ())) (n : Name) :
    xcpfsInodeByName next n.bytes = if n = name then ino.val else xcpfsInodeByName dir n.bytes := by
  obtain ⟨bound,holds⟩ := ok.holds
  have after : HoldsMap (linkRun ⟨dir,bound⟩ name ino) := linkRunKeeps holds (.inr ⟨.inl (Nat.lt_succ_of_le short),room⟩)
  unfold linkRun at after
  rw [added] at after
  have now : xcpfsInodeByName next n.bytes = (Function.update bound name (some ino.val) n).getD 0 := (finiteMapOf after).found n
  have before : xcpfsInodeByName dir n.bytes = (bound n).getD 0 := (finiteMapOf holds).found n
  rw [now,before,Function.update_apply]
  split <;> rfl

theorem lookupUnlinked (ok : DirOk d dir) (cleared : xcpfsUnlink dir name.bytes = (next,.ok ())) (n : Name) :
    xcpfsInodeByName next n.bytes = if n = name then 0 else xcpfsInodeByName dir n.bytes := by
  obtain ⟨bound,holds⟩ := ok.holds
  have after : HoldsMap (unlinkRun ⟨dir,bound⟩ name (xcpfsUnlink dir name.bytes)) := unlinkRunKeeps holds name
  unfold unlinkRun at after
  rw [cleared] at after
  have now : xcpfsInodeByName next n.bytes = (Function.update bound name none n).getD 0 := (finiteMapOf after).found n
  have before : xcpfsInodeByName dir n.bytes = (bound n).getD 0 := (finiteMapOf holds).found n
  rw [now,before,Function.update_apply]
  split <;> rfl

theorem lookupIff (ok : DirOk d dir) (n : Name) (c : Nat) :
    xcpfsInodeByName dir n.bytes = c ∧ c ≠ 0 ↔ ∃ i, 2 ≤ i ∧ dir.Live i ∧ entryName (dir.page i) = n.bytes ∧ entryIno (dir.page i) = c := by
  obtain ⟨bound,holds⟩ := ok.holds
  have found : xcpfsInodeByName dir n.bytes = (bound n).getD 0 := (finiteMapOf holds).found n
  constructor
  · intro both
    obtain ⟨here,some_⟩ := both
    cases value : bound n with
    | none => simp [value,here,some_] at found
    | some ino =>
      obtain ⟨i,live,carries,same⟩ := (holds.tracks n ino).mp value
      refine ⟨i,namedHigh ok carries,live,carries,?_⟩
      simp [value,here] at found
      exact same.trans found.symm
  · intro slot
    obtain ⟨i,_,live,carries,value⟩ := slot
    have tracked : bound n = some c := (holds.tracks n c).mpr ⟨i,live,carries,value⟩
    exact ⟨by simp [found,tracked],value ▸ live.2⟩

theorem lookupBare (ok : DirOk d dir) (bare : ∀ i, 2 ≤ i → ¬dir.Live i) (n : Name) : xcpfsInodeByName dir n.bytes = 0 := by
  by_contra some_
  obtain ⟨i,high,live,_⟩ := (lookupIff ok n _).mp ⟨rfl,some_⟩
  exact bare i high live

end

section
variable {t : Tree} {d c e tar : Nat} {v w u inode : Vnode} {name n : Name} {path q : List Name}

theorem childAt (here : t.dirAt d = some v) : t.child d name =
    if xcpfsInodeByName v.dir name.bytes = 0 then none else some (xcpfsInodeByName v.dir name.bytes) := by
  simp [Tree.child,here]

theorem childNone (absent : t.dirAt d = none) : t.child d name = none := by simp [Tree.child,absent]

theorem childIff (here : t.dirAt d = some v) : t.child d name = some c ↔ xcpfsInodeByName v.dir name.bytes = c ∧ c ≠ 0 := by
  rw [childAt here]
  split
  · rename_i zero
    simp only [reduceCtorEq,zero,false_iff]
    exact fun both => both.2 both.1.symm
  · rename_i found
    rw [Option.some.injEq]
    exact ⟨fun same => ⟨same,same ▸ found⟩,And.left⟩

theorem childNames (ok : DirsOk t) : t.child d name = some c ↔
    ∃ v i, t.dirAt d = some v ∧ 2 ≤ i ∧ v.dir.Live i ∧ entryName (v.dir.page i) = name.bytes ∧ entryIno (v.dir.page i) = c := by
  cases here : t.dirAt d with
  | none => simp [childNone here]
  | some v =>
    rw [childIff here,lookupIff (ok.dirs d v here)]
    simp

theorem nameSame {m k : Name} (same : m.bytes = k.bytes) : m = k := by
  cases m
  cases k
  cases same
  rfl

theorem treeForest (shape : TreeShape t) : Forest t.child rootIno where
  once {d e m n c} first second := by
    obtain ⟨v,i,here,high,live,carries,value⟩ := (childNames shape.ok).mp first
    obtain ⟨w,j,there,top,taken,called,same⟩ := (childNames shape.ok).mp second
    have left : t.Names d i c := ⟨v,here,live,value⟩
    have right : t.Names e j c := ⟨w,there,taken,same⟩
    have home : d = e := (shape.named d i c high left).2.symm.trans (shape.named e j c top right).2
    subst home
    have slot := shape.once d i j c high top left right
    subst slot
    rw [here] at there
    cases there
    exact ⟨rfl,nameSame (carries.symm.trans called)⟩
  top {d n} named := by
    obtain ⟨v,i,here,high,live,_,value⟩ := (childNames shape.ok).mp named
    exact shape.ok.below d i high ⟨v,here,live,value⟩

theorem childNode (shape : TreeShape t) (found : t.child d name = some c) : (t.node c).isSome := by
  obtain ⟨v,i,here,high,live,_,value⟩ := (childNames shape.ok).mp found
  exact (shape.named d i c high ⟨v,here,live,value⟩).1

theorem resolvedNode (shape : TreeShape t) (found : t.resolve path = some c) : (t.node c).isSome := by
  unfold Tree.resolve at found
  induction path using List.reverseRecOn with
  | nil =>
    cases Option.some.inj found
    obtain ⟨v,root⟩ := shape.ok.root
    rw [(dirAtNode root).1]
    rfl
  | append_singleton init called ih =>
    obtain ⟨d,_,last⟩ := Option.bind_eq_some_iff.mp (walkSnoc ▸ found)
    exact childNode shape last

theorem hungLink (creates : Creates t d c v w inode tar) (absent : xcpfsInodeByName v.dir name.bytes = 0)
    (positive : c ≠ 0) (unnamed : ∀ e n, t.child e n ≠ some c)
    (lookups : ∀ n : Name, xcpfsInodeByName w.dir n.bytes = if n = name then c else xcpfsInodeByName v.dir n.bytes) :
    Hung t.child ((t.put d w).link d c inode).child d name c := by
  have at_ : ∀ e, ((t.put d w).link d c inode).dirAt e = _ := fun e => @dirAtLink t d c w inode creates.apart creates.isDir e
  have home : ((t.put d w).link d c inode).dirAt d = some w := by rw [at_,if_neg creates.apart,if_pos rfl]
  have bare : ∀ n, ((t.put d w).link d c inode).child c n = none := by
    intro n
    have here := at_ c
    rw [if_pos rfl] at here
    split at here
    · rename_i kind
      simp [childAt here,lookupBare (creates.inner kind) (creates.bare kind) n]
    · exact childNone here
  refine ⟨?_,?_,bare,fun e n apart => ?_,unnamed⟩
  · rw [childIff home,lookups,if_pos rfl]
    exact ⟨rfl,positive⟩
  · simp [childAt creates.here,absent]
  · by_cases new : e = c
    · rw [new,bare,childNone (dirAtNone creates.fresh)]
    · by_cases same : e = d
      · subst same
        have other : n ≠ name := fun alike => apart ⟨rfl,alike⟩
        rw [childAt home,childAt creates.here,lookups,if_neg other]
      · unfold Tree.child
        rw [at_,if_neg new,if_neg same]

theorem hungRemove (ok : DirsOk t) (deletes : Deletes t d c v w u tar) (found : xcpfsInodeByName v.dir name.bytes = c) (positive : c ≠ 0)
    (forest : Forest t.child rootIno)
    (lookups : ∀ n : Name, xcpfsInodeByName w.dir n.bytes = if n = name then 0 else xcpfsInodeByName v.dir n.bytes) :
    Hung ((t.put d w).remove c inode).child t.child d name c := by
  have at_ : ∀ e, ((t.put d w).remove c inode).dirAt e = _ := fun e => @dirAtRemove t d c w inode deletes.isDir e
  have apart := deletes.apart
  have home : ((t.put d w).remove c inode).dirAt d = some w := by rw [at_,if_neg apart,if_pos rfl]
  have here : t.child d name = some c := (childIff deletes.here).mpr ⟨found,positive⟩
  have bare : ∀ n, t.child c n = none := by
    intro n
    cases kind : u.isDir with
    | false => exact childNone (by simp [Tree.dirAt,deletes.was,kind])
    | true =>
      have dirAt : t.dirAt c = some u := by simp [Tree.dirAt,deletes.was,kind]
      simp [childAt dirAt,lookupBare (ok.dirs c u dirAt) (deletes.bare kind) n]
  have gone : ((t.put d w).remove c inode).child d name = none := by simp [childAt home,lookups]
  have others : ∀ e n, ¬(e = d ∧ n = name) → t.child e n = ((t.put d w).remove c inode).child e n := by
    intro e n differ
    by_cases new : e = c
    · rw [new,bare,childNone (by rw [at_,if_pos rfl])]
    · by_cases same : e = d
      · subst same
        have other : n ≠ name := fun alike => differ ⟨rfl,alike⟩
        rw [childAt home,childAt deletes.here,lookups,if_neg other]
      · unfold Tree.child
        rw [at_,if_neg new,if_neg same]
  refine ⟨here,gone,bare,others,fun e n named => ?_⟩
  by_cases place : e = d ∧ n = name
  · rw [place.1,place.2,gone] at named
    contradiction
  · rw [← others e n place] at named
    exact place (forest.once named here)

theorem pathsAt (found : t.resolve path = some c) (node : t.node c = some v) : t.paths path = some (c,v.isDir) := by
  simp [Tree.paths,found,node]

theorem pathsNone (missed : t.resolve path = none) : t.paths path = none := by simp [Tree.paths,missed]

theorem pathsIff : t.paths path = some (c,v.isDir) → t.resolve path = some c := by
  intro here
  obtain ⟨found,resolved,node⟩ := Option.bind_eq_some_iff.mp here
  obtain ⟨u,_,same⟩ := Option.map_eq_some_iff.mp node
  rw [resolved,(Prod.mk.inj same).1]

theorem resolveSnoc (found : t.resolve path = some d) : t.resolve (path ++ [name]) = t.child d name := by
  have place : walk t.child rootIno path = some d := found
  simp [Tree.resolve,place]

theorem pathsEmpty (shape : TreeShape t) : t.paths path = none ↔ t.resolve path = none := by
  constructor
  · intro empty
    cases found : t.resolve path with
    | none => rfl
    | some c =>
      obtain ⟨v,node⟩ := Option.isSome_iff_exists.mp (resolvedNode shape found)
      rw [pathsAt found node] at empty
      contradiction
  · exact pathsNone

theorem pathsLink (ok : PathsOk t) (creates : Creates t d c v w inode tar) (place : t.resolve path = some d)
    (hung : Hung t.child ((t.put d w).link d c inode).child d name c) :
    ((t.put d w).link d c inode).paths = Function.update t.paths (path ++ [name]) (some (c,inode.isDir)) ∧
      ∀ e x, ((t.put d w).link d c inode).node e = some x → ∃ q, ((t.put d w).link d c inode).resolve q = some e := by
  have resolve : ∀ q, ((t.put d w).link d c inode).resolve q = if q = path ++ [name] then some c else t.resolve q :=
    fun q => walkHung hung (treeForest ok.tree.shape) place
  have node : ∀ e, ((t.put d w).link d c inode).node e = _ := fun e => @nodeLink t d c w inode e
  constructor
  · funext q
    rw [Function.update_apply]
    split
    · rename_i same
      simp [Tree.paths,resolve,same,node]
    · rename_i differ
      unfold Tree.paths
      rw [resolve,if_neg differ]
      cases found : t.resolve q with
      | none => rfl
      | some e =>
        obtain ⟨x,was⟩ := Option.isSome_iff_exists.mp (resolvedNode ok.tree.shape found)
        have old : e ≠ c := by
          intro same
          rw [same,creates.fresh] at was
          contradiction
        simp only [Option.bind_some,node,if_neg old]
        by_cases home : e = d
        · obtain ⟨here,kind⟩ := dirAtNode creates.here
          simp [home,here,kind,creates.isDir]
        · rw [if_neg home]
  · intro e x here
    rw [node] at here
    by_cases new : e = c
    · exact ⟨path ++ [name],by simp [resolve,new]⟩
    · have old : ∃ y, t.node e = some y := by
        rw [if_neg new] at here
        split at here
        · rename_i home
          exact ⟨v,home ▸ (dirAtNode creates.here).1⟩
        · exact ⟨x,here⟩
      obtain ⟨y,was⟩ := old
      obtain ⟨q,found⟩ := ok.reached e y was
      have differ : q ≠ path ++ [name] := by
        intro same
        rw [same,resolveSnoc place,hung.free] at found
        contradiction
      exact ⟨q,by rw [resolve,if_neg differ,found]⟩

theorem pathsRemove (ok : PathsOk t) (deletes : Deletes t d c v w u tar) (place : t.resolve path = some d)
    (hung : Hung ((t.put d w).remove c inode).child t.child d name c) :
    ((t.put d w).remove c inode).paths = Function.update t.paths (path ++ [name]) none ∧
      ∀ e x, ((t.put d w).remove c inode).node e = some x → ∃ q, ((t.put d w).remove c inode).resolve q = some e := by
  have forest := treeForest ok.tree.shape
  have resolve : ∀ q, ((t.put d w).remove c inode).resolve q = if q = path ++ [name] then none else t.resolve q :=
    fun q => walkCut hung forest place
  have ends : t.resolve (path ++ [name]) = some c := (resolveSnoc place).trans hung.here
  have node : ∀ e, ((t.put d w).remove c inode).node e = _ := fun e => @nodeRemove t d c w inode e
  constructor
  · funext q
    rw [Function.update_apply]
    split
    · rename_i same
      simp [Tree.paths,resolve,same]
    · rename_i differ
      unfold Tree.paths
      rw [resolve,if_neg differ]
      cases found : t.resolve q with
      | none => rfl
      | some e =>
        have old : e ≠ c := fun same => differ (walkOnce forest found (same ▸ ends))
        simp only [Option.bind_some,node,if_neg old]
        by_cases home : e = d
        · obtain ⟨here,kind⟩ := dirAtNode deletes.here
          simp [home,here,kind,deletes.isDir]
        · rw [if_neg home]
  · intro e x here
    rw [node] at here
    by_cases gone : e = c
    · simp [gone] at here
    · have old : ∃ y, t.node e = some y := by
        rw [if_neg gone] at here
        split at here
        · rename_i home
          exact ⟨v,home ▸ (dirAtNode deletes.here).1⟩
        · exact ⟨x,here⟩
      obtain ⟨y,was⟩ := old
      obtain ⟨q,found⟩ := ok.reached e y was
      have differ : q ≠ path ++ [name] := by
        intro same
        rw [same,ends] at found
        exact gone (Option.some.inj found).symm
      exact ⟨q,by rw [resolve,if_neg differ,found]⟩

end

/- One step of the tree and one of the map. -/
section
variable {t next : Tree} {d : Nat} {v inode : Vnode} {name : Name} {ino : Ino} {path : List Name} {isDir : Bool}
  {call : Tree → Nat → Vnode → List UInt8 → Nat → Tree × Except Errno Unit}

theorem freshPaths (ok : PathsOk t) : (∀ q k, t.paths q ≠ some (ino.val,k)) ↔ t.node ino.val = none := by
  constructor
  · intro unused
    cases node : t.node ino.val with
    | none => rfl
    | some x =>
      obtain ⟨q,found⟩ := ok.reached _ x node
      exact absurd (pathsAt found node) (unused q x.isDir)
  · intro absent q k here
    obtain ⟨found,_,node⟩ := Option.bind_eq_some_iff.mp here
    obtain ⟨x,there,same⟩ := Option.map_eq_some_iff.mp node
    rw [(Prod.mk.inj same).1,absent] at there
    contradiction

theorem dirPaths (place : t.resolve path = some d) : (∃ e, t.paths path = some (e,true)) ↔ ∃ v, t.dirAt d = some v := by
  unfold Tree.paths Tree.dirAt
  rw [place]
  cases node : t.node d with
  | none => simp [node]
  | some x => cases kind : x.isDir <;> simp [node,kind]

theorem absentPaths (shape : TreeShape t) (place : t.resolve path = some d) (here : t.dirAt d = some v) :
    t.paths (path ++ [name]) = none ↔ xcpfsInodeByName v.dir name.bytes = 0 := by
  rw [pathsEmpty shape,resolveSnoc place,childAt here]
  split
  · rename_i zero
    simp [zero]
  · rename_i some_
    simp [some_]

theorem createTakes (ok : PathsOk t) (place : t.resolve path = some d) :
    ((∃ e, t.paths path = some (e,true)) ∧ t.paths (path ++ [name]) = none ∧ name.bytes.length ≤ 255 ∧
      ∀ q k, t.paths q ≠ some (ino.val,k)) ↔ ∃ next, t.create d name ino call = some next := by
  rw [dirPaths place,freshPaths ok]
  unfold Tree.create
  cases here : t.dirAt d with
  | none => simp
  | some v =>
    rw [absentPaths ok.tree.shape place here]
    simp [and_left_comm]

theorem deleteTakes (place : t.resolve path = some d)
    {call : Tree → Nat → Vnode → List UInt8 → Nat → Vnode → Tree × Except Errno Unit} :
    ((∃ c, t.paths (path ++ [name]) = some (c,isDir)) ∧ name.bytes.length ≤ 255) ↔ ∃ next, t.delete d name isDir call = some next := by
  unfold Tree.delete Tree.paths
  rw [resolveSnoc place]
  cases here : t.dirAt d with
  | none => simp [childNone here]
  | some v =>
    dsimp only
    rw [childAt here]
    by_cases zero : xcpfsInodeByName v.dir name.bytes = 0
    · rw [if_pos zero]
      cases t.node (xcpfsInodeByName v.dir name.bytes) <;> simp [zero]
    · rw [if_neg zero]
      cases found : t.node (xcpfsInodeByName v.dir name.bytes) with
      | none => simp [found]
      | some u => simp [found,zero,and_comm]

theorem createPaths (ok : PathsOk t) (place : t.resolve path = some d) (here : t.dirAt d = some v) (room : HasRoom v.dir)
    (short : name.bytes.length ≤ 255) (absent : xcpfsInodeByName v.dir name.bytes = 0) (fresh : t.node ino.val = none)
    (inner : inode.isDir = true → inode.dir = xcpfsInitDir ino.val) (links : Int) :
    ∃ pages, xcpfsAddLink v.dir name.bytes ino.val = (pages,.ok ()) ∧
      ((t.put d ⟨true,pages,links⟩).link d ino.val inode).paths =
        Function.update t.paths (path ++ [name]) (some (ino.val,inode.isDir)) ∧
      ∀ e x, ((t.put d ⟨true,pages,links⟩).link d ino.val inode).node e = some x →
        ∃ q, ((t.put d ⟨true,pages,links⟩).link d ino.val inode).resolve q = some e := by
  obtain ⟨pages,added,place_⟩ := @created t d v ok.tree.shape.ok name ino inode here short absent fresh links inner
  obtain ⟨_,tar,creates⟩ | ⟨full,_⟩ := place_
  · have unnamed : ∀ e n, t.child e n ≠ some ino.val := by
      intro e n named
      have some_ := childNode ok.tree.shape named
      rw [fresh] at some_
      contradiction
    have hung := hungLink creates absent (Nat.ne_of_gt ino.positive) unnamed
      (lookupLinked (ok.tree.shape.ok.dirs d v here) room short added)
    exact ⟨pages,added,pathsLink ok creates place hung⟩
  · exact absurd room full

theorem mknodPaths (ok : PathsOk t) (place : t.resolve path = some d) (fits : TreeFits t (.mknod d name ino))
    (ran : treeStep t (.mknod d name ino) = some next) :
    next.paths = Function.update t.paths (path ++ [name]) (some (ino.val,false)) ∧
      ∀ e x, next.node e = some x → ∃ q, next.resolve q = some e := by
  obtain ⟨v,here,short,absent,fresh,same⟩ := createCases ran
  obtain ⟨pages,added,paths⟩ := @createPaths t d v newFile name ino path ok place here (fits v here) short absent fresh
    (fun bad => by contradiction) v.nlink
  unfold xcpfsMknod at same
  rw [added] at same
  dsimp only at same
  rw [(dirAtNode here).2] at same
  exact same ▸ paths

theorem mkdirPaths (ok : PathsOk t) (place : t.resolve path = some d) (fits : TreeFits t (.mkdir d name ino))
    (ran : treeStep t (.mkdir d name ino) = some next) :
    next.paths = Function.update t.paths (path ++ [name]) (some (ino.val,true)) ∧
      ∀ e x, next.node e = some x → ∃ q, next.resolve q = some e := by
  obtain ⟨v,here,short,absent,fresh,same⟩ := createCases ran
  obtain ⟨pages,added,paths⟩ := @createPaths t d v ⟨true,xcpfsInitDir ino.val,newFile.nlink + 1⟩ name ino path ok place here
    (fits v here) short absent fresh (fun _ => rfl) (v.nlink + 1)
  unfold xcpfsMkdir at same
  dsimp only at same
  rw [added] at same
  dsimp only at same
  rw [(dirAtNode here).2] at same
  exact same ▸ paths

theorem deletePaths {u : Vnode} (ok : PathsOk t) (place : t.resolve path = some d) (here : t.dirAt d = some v)
    (found : t.node (xcpfsInodeByName v.dir name.bytes) = some u) (present : xcpfsInodeByName v.dir name.bytes ≠ 0)
    (bare : u.isDir = true → ∀ i, 2 ≤ i → ¬u.dir.Live i) (links : Int) (gone : Vnode) :
    ∃ pages, xcpfsUnlink v.dir name.bytes = (pages,.ok ()) ∧
      ((t.put d ⟨true,pages,links⟩).remove (xcpfsInodeByName v.dir name.bytes) gone).paths =
        Function.update t.paths (path ++ [name]) none ∧
      ∀ e x, ((t.put d ⟨true,pages,links⟩).remove (xcpfsInodeByName v.dir name.bytes) gone).node e = some x →
        ∃ q, ((t.put d ⟨true,pages,links⟩).remove (xcpfsInodeByName v.dir name.bytes) gone).resolve q = some e := by
  obtain ⟨pages,tar,cleared,deletes⟩ := @deleted t d v ok.tree.shape.ok name u here found present bare links
  have hung := @hungRemove t d _ tar v _ u gone name ok.tree.shape.ok deletes rfl present (treeForest ok.tree.shape)
    (lookupUnlinked (ok.tree.shape.ok.dirs d v here) cleared)
  exact ⟨pages,cleared,pathsRemove ok deletes place hung⟩

theorem pathsBelow {u : Vnode} (ok : PathsOk t) (place : t.resolve path = some d) (here : t.dirAt d = some v)
    (found : t.node (xcpfsInodeByName v.dir name.bytes) = some u) (present : xcpfsInodeByName v.dir name.bytes ≠ 0) :
    (∃ n, t.paths (path ++ [name] ++ [n]) ≠ none) ↔ u.isDir = true ∧ xcpfsEmptyDir u.dir = false := by
  have ends : t.resolve (path ++ [name]) = some (xcpfsInodeByName v.dir name.bytes) :=
    (resolveSnoc place).trans ((childIff here).mpr ⟨rfl,present⟩)
  cases kind : u.isDir with
  | false =>
    have absent : t.dirAt (xcpfsInodeByName v.dir name.bytes) = none := by simp [Tree.dirAt,found,kind]
    have none_ : ∀ n, t.paths (path ++ [name] ++ [n]) = none := fun n => pathsNone ((resolveSnoc ends).trans (childNone absent))
    refine iff_of_false (fun some_ => ?_) (by simp)
    obtain ⟨n,differ⟩ := some_
    exact differ (none_ n)
  | true =>
    have inner : t.dirAt (xcpfsInodeByName v.dir name.bytes) = some u := by simp [Tree.dirAt,found,kind]
    have child := ok.tree.shape.ok.dirs _ u inner
    rw [← Bool.not_eq_true,emptyDirIff child.two]
    constructor
    · intro deeper
      obtain ⟨n,some_⟩ := deeper
      refine ⟨rfl,fun bare => some_ ?_⟩
      exact (absentPaths ok.tree.shape ends inner).mpr (lookupBare child bare n)
    · intro both
      obtain ⟨_,full⟩ := both
      simp only [not_forall,not_not] at full
      obtain ⟨i,high,live⟩ := full
      obtain ⟨n,carries⟩ := child.names i high live
      have there := (lookupIff child n _).mpr ⟨i,high,live,carries,rfl⟩
      exact ⟨n,fun empty => there.2 (there.1.symm.trans ((absentPaths ok.tree.shape ends inner).mp empty))⟩

theorem unlinkPaths (ok : PathsOk t) (place : t.resolve path = some d) (ran : treeStep t (.unlink d name) = some next) :
    t.paths.delete path name false = some next.paths ∧ ∀ e x, next.node e = some x → ∃ q, next.resolve q = some e := by
  obtain ⟨v,u,here,found,present,kind,same⟩ := deleteCases ran
  obtain ⟨pages,cleared,paths,reached⟩ := @deletePaths t d v name path u ok place here found present
    (fun bad => by simp [kind] at bad) v.nlink { u with nlink := u.nlink - 1 }
  unfold unlinkNode at same
  rw [cleared] at same
  dsimp only at same
  rw [(dirAtNode here).2] at same
  have below := pathsBelow ok place here found present
  refine ⟨?_,same ▸ reached⟩
  unfold PathMap.delete
  rw [if_pos ((deleteTakes place).mpr ⟨next,ran⟩),if_neg (mt below.mp (by simp [kind])),← paths,same]

theorem rmdirPaths (ok : PathsOk t) (place : t.resolve path = some d) (ran : treeStep t (.rmdir d name) = some next) :
    t.paths.delete path name true = some next.paths ∧ ∀ e x, next.node e = some x → ∃ q, next.resolve q = some e := by
  obtain ⟨v,u,here,found,present,kind,same⟩ := deleteCases ran
  have child := ok.tree.shape.ok.dirs (xcpfsInodeByName v.dir name.bytes) u (by simp [Tree.dirAt,found,kind])
  have below := pathsBelow ok place here found present
  unfold rmdirNode at same
  unfold PathMap.delete
  rw [if_pos ((deleteTakes place).mpr ⟨next,ran⟩)]
  cases bare : xcpfsEmptyDir u.dir with
  | false =>
    rw [bare,if_pos rfl] at same
    rw [if_pos (below.mpr ⟨kind,bare⟩),← same]
    exact ⟨rfl,ok.reached⟩
  | true =>
    obtain ⟨pages,cleared,paths,reached⟩ := @deletePaths t d v name path u ok place here found present
      (fun _ => (emptyDirIff child.two).mp bare) (v.nlink - 1) { u with nlink := u.nlink - 1 - 1 }
    rw [bare,if_neg (by decide),cleared] at same
    dsimp only at same
    rw [(dirAtNode here).2] at same
    rw [if_neg (mt below.mp (by simp [bare])),← paths,same]
    exact ⟨rfl,same ▸ reached⟩

end

/- The tree takes a step when the map does, and they end alike. -/
section
variable {t next : Tree} {op : PathOp}

theorem pathTakes (ok : PathsOk t) (ran : pathStep t op = some next) (fits : PathFits t op) :
    PathsOk next ∧ nameStep t.paths op = some next.paths := by
  obtain ⟨d,place,step⟩ := Option.bind_eq_some_iff.mp ran
  have tree := treeKeeps ok.tree step (fits d place)
  cases op with
  | mknod path name ino =>
    change t.resolve path = some d at place
    obtain ⟨paths,reached⟩ := mknodPaths ok place (fits d place) step
    refine ⟨⟨tree,reached⟩,?_⟩
    change t.paths.create path name ino false = _
    unfold PathMap.create
    rw [if_pos ((createTakes ok place).mpr ⟨next,step⟩),paths]
  | mkdir path name ino =>
    change t.resolve path = some d at place
    obtain ⟨paths,reached⟩ := mkdirPaths ok place (fits d place) step
    refine ⟨⟨tree,reached⟩,?_⟩
    change t.paths.create path name ino true = _
    unfold PathMap.create
    rw [if_pos ((createTakes ok place).mpr ⟨next,step⟩),paths]
  | unlink path name =>
    obtain ⟨paths,reached⟩ := unlinkPaths ok place step
    exact ⟨⟨tree,reached⟩,paths⟩
  | rmdir path name =>
    obtain ⟨paths,reached⟩ := rmdirPaths ok place step
    exact ⟨⟨tree,reached⟩,paths⟩

theorem pathMisses (ok : PathsOk t) (missed : pathStep t op = none) : nameStep t.paths op = none := by
  cases place : t.resolve op.path with
  | none =>
    have empty : t.paths op.path = none := pathsNone place
    have deeper : ∀ name, t.paths (op.path ++ [name]) = none := by
      intro name
      refine pathsNone ?_
      have short : walk t.child rootIno op.path = none := place
      simp [Tree.resolve,short]
    cases op <;> simp_all [nameStep,PathMap.create,PathMap.delete,PathOp.path]
  | some d =>
    have stuck : treeStep t (op.inside d) = none := by simpa [pathStep,place] using missed
    cases op with
    | mknod path name ino =>
      refine if_neg fun takes => ?_
      obtain ⟨next,ran⟩ := (createTakes ok place).mp takes
      cases stuck.symm.trans ran
    | mkdir path name ino =>
      refine if_neg fun takes => ?_
      obtain ⟨next,ran⟩ := (createTakes ok place).mp takes
      cases stuck.symm.trans ran
    | unlink path name =>
      refine if_neg fun takes => ?_
      obtain ⟨next,ran⟩ := (deleteTakes place).mp takes
      cases stuck.symm.trans ran
    | rmdir path name =>
      refine if_neg fun takes => ?_
      obtain ⟨next,ran⟩ := (deleteTakes place).mp takes
      cases stuck.symm.trans ran

theorem mkfsPathsOk : PathsOk mkfsTree where
  tree := mkfsTreeOk
  reached c v found := by
    rw [mkfsNode] at found
    split at found
    · rename_i root
      exact ⟨[],by rw [root]; rfl⟩
    · contradiction

theorem mkfsPaths : mkfsTree.paths = rootPaths := by
  funext path
  unfold rootPaths
  cases path with
  | nil => rfl
  | cons name path =>
    have root : mkfsTree.dirAt rootIno = some mkfsRoot := by rw [mkfsDirAt,if_pos rfl]
    have bare : xcpfsInodeByName mkfsRoot.dir name.bytes = 0 := by
      refine lookupBare (mkfsDirsOk.dirs _ _ root) (fun i high live => ?_) name
      exact mkfsNames high _ _ ⟨mkfsRoot,root,live,rfl⟩
    simp [Tree.paths,Tree.resolve,childAt root,bare]

/-- Over any operations on paths, the directory tree is a map from paths to inodes that
gains the path of each create and loses the path of each remove, and takes no operation
that the map does not; each inode of the tree is at the end of exactly one path. This
holds as long as nothing is created in a directory that is full. -/
theorem treeIsPathMap (ops : List PathOp) (fits : Meets PathFits pathStep mkfsTree ops) :
    (exec pathStep mkfsTree ops).map Tree.paths = exec nameStep rootPaths ops ∧
      ∀ t, exec pathStep mkfsTree ops = some t → ∀ ino v, t.node ino = some v → ∃! path, t.paths path = some (ino,v.isDir) := by
  rw [← mkfsPaths]
  constructor
  · exact execMaps PathsOk Tree.paths (fun _ _ _ ok ran fits => pathTakes ok ran fits) (fun _ _ ok missed => pathMisses ok missed)
      mkfsPathsOk fits
  · intro t ran ino v node
    have ok : PathsOk t := alwaysEnd (alwaysMeets PathsOk (fun _ ok => ok) (fun _ _ _ ok ran fits => (pathTakes ok ran fits).1)
      mkfsPathsOk fits) ran
    obtain ⟨path,found⟩ := ok.reached ino v node
    refine ⟨path,pathsAt found node,fun other there => ?_⟩
    exact walkOnce (treeForest ok.tree.shape) (pathsIff there) found

/- A directory under the root, made and removed. -/
theorem treeIsPathMapRoot :
    (exec pathStep mkfsTree [.mkdir [] (numbered 0) (numberedIno 0),.rmdir [] (numbered 0)]).map Tree.paths =
        exec nameStep rootPaths [.mkdir [] (numbered 0) (numberedIno 0),.rmdir [] (numbered 0)] ∧
      ∀ t, exec pathStep mkfsTree [.mkdir [] (numbered 0) (numberedIno 0),.rmdir [] (numbered 0)] = some t →
        ∀ ino v, t.node ino = some v → ∃! path, t.paths path = some (ino,v.isDir) := by
  refine treeIsPathMap _ fun next _ => ⟨fun d place v here => ?_,fun last _ => ⟨fun e _ => trivial,trivial⟩⟩
  cases Option.some.inj place
  rw [mkfsDirAt,if_pos rfl] at here
  cases here
  have count : mkfsRoot.dir.npages = 2 := (initDirPages rootIno).2.1
  exact .inr (by omega)

end

end Xcpfs
