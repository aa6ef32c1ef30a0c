import Xcpfs.NatSteady

/-! `flush_nat` over the list as it is linked. The loop keeps the entry after the one it works
on; reading a NAT block may add entries to the list, and they all go in front of those it has
not reached yet. -/
namespace Xcpfs
open EventRun

/- `list_next_entry`: what follows the entry of a nid, nothing when the list's head does. -/
def nextEntry (nid : Nat) : List NatEntry → Option Nat
  | [] => none
  | ne :: rest => if ne.nid = nid then rest.head?.map NatEntry.nid else nextEntry nid rest

/-- `read_raw_nat_block`: the page of the block, without entering it into the cache. -/
def Fs.natBlockPage (fuel iblock : Nat) (s : Fs) : Option Fs :=
  if s.metaPages iblock then some s else
    (Fs.getDnodePage (Fs.readRawNatBlock fuel) true fuel metaIno iblock s).bind fun (s,found) =>
      found.map fun _ => { s with metaPages := Function.update s.metaPages iblock true }

/- The body of the loop. The entry is reached through its pointer, before and after the block is read. -/
def Fs.flushEntry (fuel nid : Nat) (s : Fs) : Option Fs :=
  (s.nat.nm.listed nid).bind fun ne =>
    if ne.dirty then
      (s.natBlockPage fuel (nid / natEntryPerBlock)).bind fun s =>
        (s.nat.nm.listed nid).map fun ne => { s with nat := Xcpfs.flushEntry s.nat nid ne }
    else some s

/-- `list_for_each_entry_safe` in `flush_nat`, at an entry with the saved one behind it; `rounds`
bounds the entries it visits. -/
def Fs.flushWalk (fuel : Nat) : (rounds : Nat) → (pos next : Option Nat) → Fs → Option Fs
  | _,none,_,s => some s
  | 0,some _,_,_ => none
  | rounds + 1,some nid,next,s =>
    (s.flushEntry fuel nid).bind fun s => flushWalk fuel rounds next (next.bind fun nid => nextEntry nid s.nat.nm.natList) s

def Fs.flushNat (fuel rounds : Nat) (s : Fs) : Option Fs :=
  let pos := s.nat.nm.natList.head?.map NatEntry.nid
  Fs.flushWalk fuel rounds pos (pos.bind fun nid => nextEntry nid s.nat.nm.natList) s

/- The same for a list of entries, each as it was at the start. It has no result only where a NAT
block has none. -/
def Fs.flushEach (fuel : Nat) : List NatEntry → Fs → Option Fs
  | [],s => some s
  | ne :: rest,s =>
    if ne.dirty then
      (s.natBlockPage fuel (ne.nid / natEntryPerBlock)).bind fun s => flushEach fuel rest { s with nat := Xcpfs.flushEntry s.nat ne.nid ne }
    else flushEach fuel rest s

def NatEntry.cleaned (ne : NatEntry) : NatEntry := { ne with dirty := false }

/- Entries are added in front only, and no NAT block changes. -/
structure Prepended (s t : NatMount) : Prop where
  file : t.file = s.file
  list : ∃ fresh, t.nm.natList = fresh ++ s.nm.natList
  distinct : s.nm.Distinct → t.nm.Distinct

section
variable {s t u : NatMount} {nm : NatInfo} {nid : Nat} {ne : NatEntry}

theorem blockList (rawNats : NatBlock) (iblock : Nat) : ∃ fresh, (insertBlock nm rawNats iblock).natList = fresh ++ nm.natList := by
  unfold insertBlock
  induction List.range natEntryPerBlock generalizing nm with
  | nil => exact ⟨[],rfl⟩
  | cons i rest ih =>
    rw [List.foldl_cons]
    split
    · exact ih
    · obtain ⟨fresh,same⟩ := @ih (insertNat nm (iblock * natEntryPerBlock + i) (rawNats i).ino (rawNats i).blockAddr false false).1
      have one : ∃ new, (insertNat nm (iblock * natEntryPerBlock + i) (rawNats i).ino (rawNats i).blockAddr false false).1.natList =
          new ++ nm.natList := by
        unfold insertNat
        split
        · exact ⟨[],rfl⟩
        · split
          · exact ⟨[_],rfl⟩
          · exact ⟨[],rfl⟩
      obtain ⟨new,head⟩ := one
      exact ⟨fresh ++ new,by rw [same,head,List.append_assoc]⟩

theorem prepPrepends {event : PrepEvent} (ran : prepStep s event = some t) : Prepended s t := by
  cases event with
  | load iblock =>
    obtain rfl := Option.some.inj ran
    refine ⟨rfl,?_,fun distinct => ?_⟩
    · dsimp only
      exact blockList (s.file iblock) iblock
    · dsimp only
      exact distinctBlock distinct (s.file iblock) iblock
  | alloc isMeta use =>
    obtain ⟨⟨nm,ne⟩,taken,same⟩ := Option.map_eq_some_iff.mp ran
    cases same
    refine ⟨rfl,?_,fun distinct => distinctModify use.markNid (distinctTake distinct taken)⟩
    obtain ⟨first,_,same⟩ := Option.map_eq_some_iff.mp taken
    cases same
    have head : (NatInfo.mk (ne :: s.nm.natList) (s.nm.freeNat.eraseP fun ne => isMetaNid ne.nid = isMeta)).listed ne.nid = some ne := by
      simp [NatInfo.listed]
    refine ⟨[use.mark ne],?_⟩
    unfold NatInfo.modify
    dsimp only
    rw [head]
    simp [modifyFirst]

theorem preparesPrepends (prepares : Prepares s t) : Prepended s t := by
  refine preparesKeep (fun u event v _ first ran => ?_) prepares ⟨rfl,⟨[],rfl⟩,id⟩
  have second := prepPrepends ran
  obtain ⟨fresh,one⟩ := first.list
  obtain ⟨more,two⟩ := second.list
  exact ⟨second.file.trans first.file,⟨more ++ fresh,by rw [two,one,List.append_assoc]⟩,second.distinct ∘ first.distinct⟩

end

section
variable {s t : Fs}

theorem natBlockPrepares {fuel iblock : Nat} (ran : s.natBlockPage fuel iblock = some t) : Prepares s.nat t.nat := by
  unfold Fs.natBlockPage at ran
  split at ran
  · cases ran
    exact preparesRefl _
  · obtain ⟨⟨v,found⟩,walked,rest⟩ := Option.bind_eq_some_iff.mp ran
    obtain ⟨d,_,same⟩ := Option.map_eq_some_iff.mp rest
    have whole := dnodePagePrepares (rawBlockPrepares fuel) walked
    rw [← same]
    exact whole

end

section
variable {s t : Fs} {fuel : Nat} {nm : NatInfo} {pre todo rest : List NatEntry} {ne : NatEntry}

/- No nid comes twice, so the entries before one have other nids. -/
theorem preFresh (distinct : nm.Distinct) (list : nm.natList = pre ++ ne :: rest) : ∀ other ∈ pre, other.nid ≠ ne.nid := by
  intro other member
  rw [NatInfo.Distinct,list,List.append_assoc,List.map_append] at distinct
  exact (List.nodup_append.mp distinct).2.2 other.nid (List.mem_map_of_mem member) ne.nid (List.mem_map_of_mem List.mem_cons_self)

theorem listedAt (distinct : nm.Distinct) (list : nm.natList = pre ++ ne :: rest) : nm.listed ne.nid = some ne := by
  have fresh := preFresh distinct list
  have missed : pre.find? (fun other => other.nid = ne.nid) = none :=
    List.find?_eq_none.mpr fun other member same => fresh other member (of_decide_eq_true same)
  unfold NatInfo.listed
  rw [list,List.find?_append,missed,Option.none_or]
  exact List.find?_cons_of_pos (decide_eq_true rfl)

theorem nextAt (fresh : ∀ other ∈ pre, other.nid ≠ ne.nid) : nextEntry ne.nid (pre ++ ne :: rest) = rest.head?.map NatEntry.nid := by
  induction pre with
  | nil => exact if_pos rfl
  | cons head pre ih =>
    rw [List.cons_append,nextEntry,if_neg (fresh head List.mem_cons_self)]
    exact ih fun other member => fresh other (List.mem_cons_of_mem _ member)

theorem modifyAt {f : NatEntry → NatEntry} (fresh : ∀ other ∈ pre, other.nid ≠ ne.nid) :
    modifyFirst ne.nid f (pre ++ ne :: rest) = pre ++ f ne :: rest := by
  induction pre with
  | nil => exact if_pos rfl
  | cons head pre ih =>
    rw [List.cons_append,modifyFirst,if_neg (fresh head List.mem_cons_self),ih fun other member => fresh other (List.mem_cons_of_mem _ member)]
    rfl

/- What the body leaves: the entry is clean where it stood, and its NAT block has its values. -/
structure Flushed (s t : NatMount) (pre : List NatEntry) (ne : NatEntry) (rest : List NatEntry) : Prop where
  file : t.file = s.file.write ne.nid ⟨ne.ino,ne.blockAddr⟩
  list : t.nm.natList = pre ++ ne.cleaned :: rest
  distinct : t.nm.Distinct

theorem entryFlushed {s : NatMount} (distinct : s.nm.Distinct) (list : s.nm.natList = pre ++ ne :: rest) :
    Flushed s (flushEntry s ne.nid ne) pre ne rest := by
  refine ⟨rfl,?_,distinctModify (fun _ => rfl) distinct⟩
  unfold flushEntry NatInfo.modify
  rw [listedAt distinct list]
  dsimp only
  rw [list,modifyAt (preFresh distinct list)]
  rfl

theorem blockKeeps {iblock : Nat} (distinct : s.nat.nm.Distinct) (list : s.nat.nm.natList = pre ++ todo)
    (ran : s.natBlockPage fuel iblock = some t) : t.nat.file = s.nat.file ∧ t.nat.nm.Distinct ∧
      ∃ fresh, t.nat.nm.natList = fresh ++ pre ++ todo := by
  have prepended := preparesPrepends (natBlockPrepares ran)
  obtain ⟨fresh,same⟩ := prepended.list
  exact ⟨prepended.file,prepended.distinct distinct,fresh,by rw [same,list,List.append_assoc]⟩

theorem nextAfter (distinct : nm.Distinct) (list : nm.natList = pre ++ rest) :
    (rest.head?.map NatEntry.nid).bind (fun nid => nextEntry nid nm.natList) = rest.tail.head?.map NatEntry.nid := by
  cases rest with
  | nil => rfl
  | cons head tail =>
    have next := @nextAt pre tail head (preFresh distinct list)
    rw [list]
    exact next

theorem walkIsEach {rounds : Nat} (distinct : s.nat.nm.Distinct) (list : s.nat.nm.natList = pre ++ todo) (enough : todo.length ≤ rounds) :
    Fs.flushWalk fuel rounds (todo.head?.map NatEntry.nid) (todo.tail.head?.map NatEntry.nid) s = Fs.flushEach fuel todo s := by
  induction todo generalizing pre s rounds with
  | nil => cases rounds <;> rfl
  | cons ne rest ih =>
    cases rounds with
    | zero => cases enough
    | succ rounds =>
      have short := Nat.le_of_succ_le_succ enough
      simp only [List.head?_cons,Option.map_some,List.tail_cons,Fs.flushWalk,Fs.flushEach,Fs.flushEntry]
      rw [listedAt distinct list,Option.bind_some]
      split
      · cases ran : s.natBlockPage fuel (ne.nid / natEntryPerBlock) with
        | none => rfl
        | some u =>
          obtain ⟨_,distinctU,fresh,listU⟩ := blockKeeps distinct list ran
          have flushed := entryFlushed distinctU listU
          have listV : (flushEntry u.nat ne.nid ne).nm.natList = (fresh ++ pre ++ [ne.cleaned]) ++ rest := by
            rw [flushed.list,List.append_assoc _ [ne.cleaned],List.singleton_append]
          simp only [Option.bind_some]
          rw [listedAt distinctU listU,Option.map_some,Option.bind_some]
          dsimp only
          rw [nextAfter flushed.distinct listV]
          exact @ih { u with nat := flushEntry u.nat ne.nid ne } _ _ flushed.distinct listV short
      · have listV : s.nat.nm.natList = (pre ++ [ne]) ++ rest := by
          rw [list,List.append_assoc,List.singleton_append]
        rw [Option.bind_some,nextAfter distinct listV]
        exact ih distinct listV short

/- What the entries leave behind: all are clean where they stood, and the NAT blocks have the
values of the dirty ones and nothing else new. -/
structure FlushedAll (s t : Fs) (pre todo : List NatEntry) : Prop where
  list : ∃ fresh, t.nat.nm.natList = fresh ++ pre ++ todo.map NatEntry.cleaned
  distinct : t.nat.nm.Distinct
  written : ∀ ne ∈ todo, ne.dirty = true → t.nat.file.raw ne.nid = ⟨ne.ino,ne.blockAddr⟩
  kept : ∀ n, (∀ ne ∈ todo, ne.dirty = true → ne.nid ≠ n) → t.nat.file.raw n = s.nat.file.raw n

theorem eachFlushed (distinct : s.nat.nm.Distinct) (list : s.nat.nm.natList = pre ++ todo) (ran : Fs.flushEach fuel todo s = some t) :
    FlushedAll s t pre todo := by
  induction todo generalizing pre s with
  | nil =>
    cases ran
    exact ⟨⟨[],list⟩,distinct,fun ne member => absurd member List.not_mem_nil,fun n _ => rfl⟩
  | cons ne rest ih =>
    have others : ∀ other ∈ rest, other.nid ≠ ne.nid := by
      intro other member same
      rw [NatInfo.Distinct,list,List.append_assoc,List.map_append] at distinct
      have tail := (List.nodup_append.mp distinct).2.1
      rw [List.cons_append,List.map_cons] at tail
      exact (List.nodup_cons.mp tail).1 (same ▸ List.mem_map_of_mem (List.mem_append_left _ member))
    unfold Fs.flushEach at ran
    split at ran
    · rename_i dirty
      obtain ⟨u,read,ran⟩ := Option.bind_eq_some_iff.mp ran
      obtain ⟨file,distinctU,fresh,listU⟩ := blockKeeps distinct list read
      have flushed := entryFlushed distinctU listU
      have listV : (flushEntry u.nat ne.nid ne).nm.natList = (fresh ++ pre ++ [ne.cleaned]) ++ rest := by
        rw [flushed.list,List.append_assoc _ [ne.cleaned],List.singleton_append]
      have whole := @ih { u with nat := flushEntry u.nat ne.nid ne } _ flushed.distinct listV ran
      have raw : ∀ n, (flushEntry u.nat ne.nid ne).file.raw n = if ne.nid = n then ⟨ne.ino,ne.blockAddr⟩ else s.nat.file.raw n := by
        intro n
        rw [flushed.file,file,rawWrite]
      obtain ⟨more,listT⟩ := whole.list
      refine ⟨⟨more ++ fresh,?_⟩,whole.distinct,fun other member isDirty => ?_,fun n apart => ?_⟩
      · rw [listT,List.map_cons]
        simp only [List.append_assoc,List.singleton_append]
      · obtain rfl | member := List.mem_cons.mp member
        · have last := whole.kept other.nid fun later member _ => others later member
          exact last.trans ((raw other.nid).trans (if_pos rfl))
        · exact whole.written other member isDirty
      · have last := whole.kept n fun later member => apart later (List.mem_cons_of_mem _ member)
        exact last.trans ((raw n).trans (if_neg (apart ne List.mem_cons_self dirty)))
    · rename_i clean
      have same : ne.cleaned = ne := by
        cases ne
        simp_all [NatEntry.cleaned]
      have listV : s.nat.nm.natList = (pre ++ [ne]) ++ rest := by
        rw [list,List.append_assoc,List.singleton_append]
      have whole := ih distinct listV ran
      obtain ⟨more,listT⟩ := whole.list
      refine ⟨⟨more,?_⟩,whole.distinct,fun other member isDirty => ?_,fun n apart => ?_⟩
      · rw [listT,List.map_cons,same]
        simp only [List.append_assoc,List.singleton_append]
      · obtain rfl | member := List.mem_cons.mp member
        · exact absurd isDirty clean
        · exact whole.written other member isDirty
      · exact whole.kept n fun later member => apart later (List.mem_cons_of_mem _ member)

/-- `flush_nat` walks the entries its list had at the start, whatever is added on the way. It writes
back the dirty ones and cleans them, and no other nid changes in its NAT block. -/
theorem flushNatExact {rounds : Nat} (distinct : s.nat.nm.Distinct) (enough : s.nat.nm.natList.length ≤ rounds) :
    Fs.flushNat fuel rounds s = Fs.flushEach fuel s.nat.nm.natList s ∧ ∀ t, Fs.flushNat fuel rounds s = some t →
      (∀ ne ∈ s.nat.nm.natList, ne.dirty = true →
        t.nat.file.raw ne.nid = ⟨ne.ino,ne.blockAddr⟩ ∧ t.nat.nm.listed ne.nid = some ne.cleaned) ∧
      ∀ n, (∀ ne ∈ s.nat.nm.natList, ne.dirty = true → ne.nid ≠ n) → t.nat.file.raw n = s.nat.file.raw n := by
  have list : s.nat.nm.natList = [] ++ s.nat.nm.natList := rfl
  have walks : Fs.flushNat fuel rounds s = Fs.flushEach fuel s.nat.nm.natList s := by
    unfold Fs.flushNat
    dsimp only
    rw [nextAfter distinct list]
    exact walkIsEach distinct list enough
  refine ⟨walks,fun t ran => ?_⟩
  have whole := eachFlushed distinct list (walks.symm.trans ran)
  obtain ⟨fresh,listT⟩ := whole.list
  refine ⟨fun ne member dirty => ⟨whole.written ne member dirty,?_⟩,whole.kept⟩
  obtain ⟨before,after,split_⟩ := List.append_of_mem (List.mem_map_of_mem member : ne.cleaned ∈ s.nat.nm.natList.map NatEntry.cleaned)
  have here : t.nat.nm.natList = (fresh ++ [] ++ before) ++ ne.cleaned :: after := by
    rw [listT,split_]
    simp only [List.append_assoc]
  exact listedAt whole.distinct here

end

/- A dirty entry in NAT block 900, behind a node of the meta file that does not exist yet, and one in
block 0. Nids 1 and 7 are cached, 7 as free. -/
def flushStart : Fs where
  nodes := fun _ => .zero
  cached := fun _ => false
  nat := ⟨⟨[⟨false,true,409505,409505,31⟩,⟨true,false,1,1,21⟩,⟨false,true,8,8,32⟩],[⟨false,false,7,0,0⟩]⟩,fun _ _ => ⟨0,0⟩,[]⟩
  metaPages := fun iblock => decide (iblock = 0)

/-- Reading block 900 takes nid 7 for the node and puts it in front of the list; both dirty entries
are written back. -/
theorem flushNatExactNested : ∃ t, Fs.flushNat 1 3 flushStart = some t ∧
    t.nat.nm.natList.map NatEntry.nid = [7,409505,1,8] ∧ t.nat.file.raw 409505 = ⟨409505,31⟩ ∧ t.nat.file.raw 8 = ⟨8,32⟩ ∧
    t.nat.file.raw 7 = flushStart.nat.file.raw 7 := by
  have distinct : flushStart.nat.nm.Distinct := show [409505,1,8,7].Nodup by decide
  have whole := @flushNatExact flushStart 1 3 distinct (by decide)
  obtain ⟨t,ran,names⟩ : ∃ t, Fs.flushNat 1 3 flushStart = some t ∧ t.nat.nm.natList.map NatEntry.nid = [7,409505,1,8] := ⟨_,rfl,rfl⟩
  obtain ⟨written,kept⟩ := whole.2 t ran
  refine ⟨t,ran,names,(written ⟨false,true,409505,409505,31⟩ (by decide) rfl).1,(written ⟨false,true,8,8,32⟩ (by decide) rfl).1,kept 7 ?_⟩
  decide

end Xcpfs
