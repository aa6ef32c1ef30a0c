import Xcpfs.Prepare

/-! The tree of the meta file in a mount. Its nodes have nids whose NAT blocks the inode
addresses directly, and of the other nids of these blocks all but the root inode are free. There
are more of them than the tree has places. -/
namespace Xcpfs
open PointerForest

/- NAT blocks that hold a nid of type int. -/
def natBlocks : Nat := 2 ^ 31 / natEntryPerBlock + 1

/- NAT blocks of the nids that are handed out: of meta nodes those that inode 1 addresses itself. -/
def NatPlace (iblock : Nat) : Prop := iblock < defAddrsPerInode ∨ regNatStart ≤ iblock ∧ iblock < natBlocks

def Allotted (nid : Nat) : Prop := 3 ≤ nid ∧ NatPlace (nid / natEntryPerBlock)

/- Where the paths of the blocks of the meta file lead through. -/
def MetaPlace (p : List Edge) : Prop := ∃ q : TreePath, q.index < natBlocks ∧ ∃ i, p = q.nodes.take i

def SpareNid (s : Fs) (nid : Nat) : Prop :=
  (∃ ne, s.nat.nm.slot nid = some (false,ne)) ∨ s.nat.nm.slot nid = none ∧ (s.nat.file.raw nid).blockAddr = 0

structure MetaSound (inodes : Set Nat) (s : Fs) : Prop where
  cached : ∃ ne, s.nat.nm.slot metaIno = some (true,ne)
  free : ∀ n ne, s.nat.nm.slot n = some (false,ne) → Allotted n
  placed : ∀ n, Reached nodeShape inodes (child s.content) n → n = metaIno ∨ Allotted n
  nodes : ∀ p n, p ≠ [] → NodePlace p → follow (child s.content) metaIno p = some n → isMetaNid n = true ∧ MetaPlace p
  spare : ∀ n, 3 ≤ n → n / natEntryPerBlock < defAddrsPerInode → n ≠ rootIno →
    (∀ p, NodePlace p → follow (child s.content) metaIno p ≠ some n) → SpareNid s n
  stored : ∀ n, 3 ≤ n → (s.nat.file.raw n).blockAddr ≠ 0 → ∀ q : TreePath, q.index = n / natEntryPerBlock →
    ∃ d, follow (child s.content) metaIno q.nodes = some d
  pages : ∀ q : TreePath, s.metaPages q.index = true → ∃ d, follow (child s.content) metaIno q.nodes = some d

/- Nothing is created: NAT blocks and pages are read. -/
structure Quiet (s t : Fs) : Prop where
  content : t.content = s.content
  loads : Loads s.nat.file s.nat.nm t.nat.nm
  file : t.nat.file = s.nat.file
  held : ∀ n, s.cached n = true → t.cached n = true
  pages : ∀ b, s.metaPages b = true → t.metaPages b = true

section
variable {inodes : Set Nat} {s t u : Fs} {n : Nat}

theorem quietRefl (s : Fs) : Quiet s s := ⟨rfl,⟨id,fun _ => .inl rfl⟩,rfl,fun _ => id,fun _ => id⟩

theorem quietTrans (first : Quiet s t) (second : Quiet t u) : Quiet s u where
  content := second.content.trans first.content
  loads := loadsTrans first.loads (first.file ▸ second.loads)
  file := second.file.trans first.file
  held n here := second.held n (first.held n here)
  pages b here := second.pages b (first.pages b here)

theorem spareLoads (loads : Loads s.nat.file s.nat.nm t.nat.nm) (file : t.nat.file = s.nat.file) (here : SpareNid s n) : SpareNid t n := by
  rcases loads.slot n with same | ⟨none_,_,fresh⟩
  · unfold SpareNid
    rw [same,file]
    exact here
  · rcases here with ⟨ne,free⟩ | ⟨_,zero⟩
    · rw [free] at none_
      contradiction
    · refine .inl ⟨⟨false,false,n,(s.nat.file.raw n).ino,(s.nat.file.raw n).blockAddr⟩,fresh.trans ?_⟩
      unfold RawNat.slot
      rw [zero]
      rfl

theorem quietSound (sound : MetaSound inodes s) (quiet : Quiet s t)
    (slots : ∀ n, s.nat.nm.slot n = none → t.nat.nm.slot n ≠ none → NatPlace (n / natEntryPerBlock))
    (pages : ∀ q : TreePath, t.metaPages q.index = true → ∃ d, follow (child s.content) metaIno q.nodes = some d) :
    MetaSound inodes t where
  cached := by
    obtain ⟨ne,here⟩ := sound.cached
    exact loadsUsed quiet.loads metaIno ne here
  free n ne here := by
    rcases quiet.loads.slot n with same | ⟨none_,high,_⟩
    · exact sound.free n ne (same.symm.trans here)
    · exact ⟨high,slots n none_ (by rw [here]; simp)⟩
  placed := quiet.content ▸ sound.placed
  nodes := quiet.content ▸ sound.nodes
  spare n high low other apart := spareLoads quiet.loads quiet.file (sound.spare n high low other (quiet.content ▸ apart))
  stored := by
    rw [quiet.content,quiet.file]
    exact sound.stored
  pages := quiet.content ▸ pages

theorem quietHold {ne : NatEntry} (found : s.nat.nm.lookup n = some ne) : Quiet s { s with
    nodes := if ne.blockAddr = 0 ∧ s.cached n = false then Function.update s.nodes n .zero else s.nodes
    cached := Function.update s.cached n true } where
  content := holdContent found
  loads := ⟨id,fun _ => .inl rfl⟩
  file := rfl
  held m here := by
    dsimp only
    rw [Function.update_apply]
    split
    · rfl
    · exact here
  pages _ := id

theorem quietPage (s : Fs) (iblock : Nat) : Quiet s { s with metaPages := Function.update s.metaPages iblock true } where
  content := rfl
  loads := ⟨id,fun _ => .inl rfl⟩
  file := rfl
  held _ := id
  pages b here := by
    dsimp only
    rw [Function.update_apply]
    split
    · rfl
    · exact here

theorem quietLoads {nm : NatInfo} (loads : Loads s.nat.file s.nat.nm nm) : Quiet s { s with nat := { s.nat with nm := nm } } where
  content := by
    funext n
    exact contentSame rfl rfl (loadsAddr loads n)
  loads := loads
  file := rfl
  held _ := id
  pages _ := id

theorem blockSlots {nm : NatInfo} {rawNats : NatBlock} {iblock : Nat} (absent : nm.slot n = none) :
    (insertBlock nm rawNats iblock).slot n ≠ none ↔ 3 ≤ n ∧ n / natEntryPerBlock = iblock := by
  rw [slotBlock,absent,Option.none_or]
  split <;> simp_all

theorem blockServes (nm : NatInfo) (rawNats : NatBlock) (iblock : Nat) (high : 3 ≤ n) (block : n / natEntryPerBlock = iblock) :
    (insertBlock nm rawNats iblock).lookup n ≠ none := by
  rw [Ne,← slotNone]
  cases absent : nm.slot n with
  | none => exact (blockSlots absent).mpr ⟨high,block⟩
  | some pair =>
    rw [slotBlock,absent,Option.some_or]
    simp

theorem natDiv (n : Nat) : isMetaNid n = true ↔ n / natEntryPerBlock < regNatStart := by
  unfold isMetaNid
  rw [decide_eq_true_iff]
  exact (Nat.div_lt_iff_lt_mul (by decide)).symm

theorem metaDirect (allotted : Allotted n) (kind : isMetaNid n = true) : n / natEntryPerBlock < defAddrsPerInode := by
  rcases allotted.2 with low | ⟨high,_⟩
  · exact low
  · exact absurd ((natDiv n).mp kind) (by omega)

/- A tree place is one of few: the path of an int index turns into the double indirect node at
its first four words only. -/
def metaPlaces : Finset (List Edge) :=
  {[]} ∪ (Finset.range 5).image (fun i => [Edge.nid i]) ∪
    (Finset.range 5 ×ˢ Finset.range 1018).image (fun (i,a) => [Edge.nid i,Edge.slot a]) ∪
    (Finset.range 4 ×ˢ Finset.range 1018).image (fun (a,b) => [Edge.nid 4,Edge.slot a,Edge.slot b])

theorem metaPlacesCard : metaPlaces.card ≤ 10000 := by
  unfold metaPlaces
  refine (Finset.card_union_le ..).trans ?_
  refine (Nat.add_le_add ((Finset.card_union_le ..).trans (Nat.add_le_add (Finset.card_union_le ..) le_rfl)) le_rfl).trans ?_
  have two := @Finset.card_image_le _ _ (Finset.range 5) (fun i => [Edge.nid i]) _
  have three := @Finset.card_image_le _ _ (Finset.range 5 ×ˢ Finset.range 1018) (fun (i,a) => [Edge.nid i,Edge.slot a]) _
  have four := @Finset.card_image_le _ _ (Finset.range 4 ×ˢ Finset.range 1018) (fun (a,b) => [Edge.nid 4,Edge.slot a,Edge.slot b]) _
  rw [Finset.card_range] at two
  rw [Finset.card_product,Finset.card_range,Finset.card_range] at three four
  rw [Finset.card_singleton]
  omega

theorem placeListed {p : List Edge} (place : MetaPlace p) : p ∈ metaPlaces := by
  obtain ⟨q,bound,i,rfl⟩ := place
  have empty : ([] : List Edge) ∈ metaPlaces := by simp [metaPlaces]
  have one : ∀ i, i < 5 → [Edge.nid i] ∈ metaPlaces := fun i low => by
    simp only [metaPlaces,Finset.mem_union,Finset.mem_image,Finset.mem_range]
    exact .inl (.inl (.inr ⟨i,low,rfl⟩))
  have two : ∀ i a, i < 5 → a < 1018 → [Edge.nid i,Edge.slot a] ∈ metaPlaces := fun i a low slot => by
    simp only [metaPlaces,Finset.mem_union,Finset.mem_image]
    exact .inl (.inr ⟨(i,a),by simp [low,slot],rfl⟩)
  have three : ∀ a b, a < 4 → b < 1018 → [Edge.nid 4,Edge.slot a,Edge.slot b] ∈ metaPlaces := fun a b low slot => by
    simp only [metaPlaces,Finset.mem_union,Finset.mem_image]
    exact .inr ⟨(a,b),by simp [low,slot],rfl⟩
  cases q with
  | inode slot =>
    rw [TreePath.nodes,List.take_nil]
    exact empty
  | direct top slot =>
    cases i with
    | zero => exact empty
    | succ i =>
      rw [TreePath.nodes,List.take_succ_cons,List.take_nil]
      exact one top (by omega)
  | indirect top mid slot =>
    cases i with
    | zero => exact empty
    | succ i =>
      rw [TreePath.nodes,List.take_succ_cons]
      cases i with
      | zero => exact one (2 + top) (by omega)
      | succ i =>
        rw [List.take_succ_cons,List.take_nil]
        exact two (2 + top) mid (by omega) mid.isLt
  | double top mid slot =>
    have low : (top : Nat) < 4 := by
      simp only [TreePath.index,natBlocks,natEntryPerBlockValue] at bound
      omega
    rw [TreePath.nodes]
    cases i with
    | zero => exact empty
    | succ i =>
      rw [List.take_succ_cons]
      cases i with
      | zero => exact one 4 (by omega)
      | succ i =>
        rw [List.take_succ_cons]
        cases i with
        | zero => exact two 4 top (by omega) top.isLt
        | succ i =>
          rw [List.take_succ_cons,List.take_nil]
          exact three top mid low mid.isLt

theorem spareExists (sound : MetaSound inodes s) : ∃ n, 3 ≤ n ∧ n / natEntryPerBlock < defAddrsPerInode ∧ n ≠ rootIno ∧
    ∀ p, NodePlace p → follow (child s.content) metaIno p ≠ some n := by
  obtain ⟨used,same⟩ : ∃ used : Finset Nat, used =
    insert rootIno (metaPlaces.image fun p => (follow (child s.content) metaIno p).getD 0) := ⟨_,rfl⟩
  have few : used.card ≤ 10001 := by
    rw [same]
    refine (Finset.card_insert_le ..).trans ?_
    exact Nat.succ_le_succ (Finset.card_image_le.trans metaPlacesCard)
  obtain ⟨n,member,unused⟩ : ∃ n ∈ Finset.Ico 3 20000, n ∉ used := by
    refine Finset.exists_mem_notMem_of_card_lt_card ?_
    rw [Nat.card_Ico]
    omega
  rw [Finset.mem_Ico] at member
  rw [same,Finset.mem_insert,not_or] at unused
  refine ⟨n,member.1,?_,unused.1,fun p place path => ?_⟩
  · refine lt_of_le_of_lt (Nat.div_le_div_right (show n ≤ 20000 by omega)) ?_
    decide
  · refine unused.2 (Finset.mem_image.mpr ⟨p,?_,by rw [path]; rfl⟩)
    by_cases top : p = []
    · rw [top]
      exact placeListed ⟨.inode 0,by decide,0,rfl⟩
    · exact placeListed (sound.nodes p n top place path).2

theorem takenSlot {nm taken : NatInfo} {ne : NatEntry} {isMeta : Bool} (distinct : nm.Distinct)
    (ran : freeNatEmpty nm isMeta = some (taken,ne)) (use : NatUse) (n : Nat) :
    (taken.modify ne.nid use.mark).slot n = if ne.nid = n then some (true,use.mark ne) else nm.slot n := by
  rw [slotModify use.markNid]
  by_cases here : ne.nid = n
  · subst here
    rw [if_pos rfl,if_pos rfl,(slotTake distinct ran).2.2,if_pos rfl]
    rfl
  · rw [if_neg here,if_neg here,(slotTake distinct ran).2.2,if_neg here]

theorem newNodeSound {known : Nat → Bool} {ino : Nat} {p : List Edge} {e : Edge} {nm : NatInfo} {ne : NatEntry}
    (ok : FsOk inodes known s) (metaIn : metaIno ∈ inodes) (sound : MetaSound inodes s) (inside : ino ∈ inodes)
    (place : NodePlace (p ++ [e])) (here : follow (child s.content) ino p = some n) (held : s.cached n = true)
    (taken : freeNatEmpty s.nat.nm (decide (ino = metaIno)) = some (nm,ne))
    (fits : ino = metaIno → child s.content n e = none ∧ MetaPlace (p ++ [e])) :
    MetaSound inodes { s with
      nodes := Function.update s.nodes n ((s.nodes n).setCell ne.nid e)
      nat := { s.nat with nm := nm.modify ne.nid (NatUse.node ino).mark } } := by
  obtain ⟨t,state⟩ : ∃ t : Fs, t = { s with
    nodes := Function.update s.nodes n ((s.nodes n).setCell ne.nid e)
    nat := { s.nat with nm := nm.modify ne.nid (NatUse.node ino).mark } } := ⟨_,rfl⟩
  obtain ⟨nonzero,unknown,zero⟩ := takenZero ok taken
  obtain ⟨free,kind,_⟩ := slotTake (n := ne.nid) ok.nat.distinct taken
  have slots : ∀ x, t.nat.nm.slot x = if ne.nid = x then some (true,(NatUse.node ino).mark ne) else s.nat.nm.slot x := by
    rw [state]
    exact takenSlot ok.nat.distinct taken (.node ino)
  have attached : child t.content = attach (child s.content) n e ne.nid := by
    rw [state,takenContent ok held taken ino e,storeAttach nonzero]
  have parent := nodePlaceParent p e place
  have fresh : ¬Reached nodeShape inodes (child s.content) ne.nid := by
    intro reached
    rw [ok.reached _ reached] at unknown
    contradiction
  have leaf : ∀ y, child s.content ne.nid y = none := fun y => by
    unfold child
    rw [zero,zeroChild]
  have paths : ∀ r ∈ inodes, ∀ q x, NodePlace q → follow (child t.content) r q = some x →
      follow (child s.content) r q = some x ∨ r = ino ∧ q = p ++ [e] ∧ x = ne.nid := by
    intro r root q x valid path
    rw [attached] at path
    exact attachPaths ok.owned inside parent here fresh leaf root valid path
  have stays : ∀ q x, NodePlace q → follow (child s.content) metaIno q = some x → follow (child t.content) metaIno q = some x := by
    intro q x valid path
    rw [attached]
    by_cases own : ino = metaIno
    · have grown : Extends nodeShape inodes (child s.content) (attach (child s.content) n e ne.nid) :=
        attachExtends extendsRefl (fits own).1
      exact grown metaIno metaIn q x valid path
    · have apart : ∀ q, NodePlace q → follow (child s.content) metaIno q ≠ some n := fun q valid bad =>
        own (ok.owned ino inside metaIno metaIn p q n parent valid here bad).1
      exact (@attachElsewhere _ _ nodeShape _ _ _ metaIno n ne.nid e apart q valid).trans path
  rw [← state]
  refine ⟨?_,fun x entry there => ?_,?_,fun q x some_ valid path => ?_,fun x high low notRoot apart => ?_,
    fun x high used q named => ?_,fun q page => ?_⟩
  · obtain ⟨entry,there⟩ := sound.cached
    refine ⟨entry,?_⟩
    rw [slots,if_neg,there]
    intro same
    rw [same,there] at free
    cases free
  · rw [slots] at there
    split at there
    · cases there
    · exact sound.free x entry there
  · rintro x ⟨r,root,q,valid,path⟩
    rcases paths r root q x valid path with old | ⟨_,_,rfl⟩
    · exact sound.placed x ⟨r,root,q,valid,old⟩
    · exact .inr (sound.free _ _ free)
  · rcases paths metaIno metaIn q x valid path with old | ⟨own,rfl,rfl⟩
    · exact sound.nodes q x some_ valid old
    · rw [kind]
      exact ⟨decide_eq_true own.symm,(fits own.symm).2⟩
  · have other : ne.nid ≠ x := by
      rintro rfl
      have own : ino = metaIno := of_decide_eq_true (kind.symm.trans ((natDiv _).mpr (low.trans (by decide))))
      refine apart (p ++ [e]) place ?_
      have top : follow (child t.content) metaIno p = some n := stays p n parent (own ▸ here)
      rw [followConcat,top,Option.bind_some,attached,attachSelf]
    have before := sound.spare x high low notRoot fun q valid path => apart q valid (stays q x valid path)
    unfold SpareNid
    rw [slots,if_neg other,state]
    exact before
  · rw [state] at used
    obtain ⟨d,path⟩ := sound.stored x high used q named
    exact ⟨d,stays q.nodes d q.nodesPlace path⟩
  · rw [state] at page
    obtain ⟨d,path⟩ := sound.pages q page
    exact ⟨d,stays q.nodes d q.nodesPlace path⟩

end
end Xcpfs
