import Xcpfs.NatSteady
import Xcpfs.TruncateCalls

/-! A truncate over the node pages and the NAT of a mount. It only takes pointers out of the
tree it works on, and no other tree changes; what it invalidates is read through its calls. -/
namespace Xcpfs
open PointerForest

namespace Fs

/-- The node pages are those that `xcpfs_recurse` gets, cached or read. -/
def truncate (ino freeFrom : Nat) (s : Fs) : Option (Fs × List Call) :=
  if freeFrom < maxBlocks then
    (xcpfsTruncateBlocks ino freeFrom ⟨s.content,[]⟩).map fun t => ({ s with nodes := t.nodes },t.calls)
  else none

/- A nid that is not in its NAT block either is -ENOENT, which no caller looks at. -/
def invalidateNat (fuel nid : Nat) (s : Fs) : Option Fs :=
  (if (s.nat.nm.lookup nid).isSome then some s else readRawNatBlock fuel (nid / natEntryPerBlock) s).map fun s =>
    { s with nat := { s.nat with nm := s.nat.nm.modify nid NatEntry.invalidated } }

end Fs

section
variable {nodes next : NodeStore} {roots : Set Nat} {ino r n start : Nat} {q : List Edge} {plan : Nat → Option TopCut}
  {t t' : Trunc}

theorem fewerChild (fewer : Fewer nodes next) {n m : Nat} {e : Edge} (edge : child next n e = some m) : child nodes n e = some m := by
  cases e with
  | nid i =>
    obtain ⟨word,used⟩ := ptrSome.mp edge
    rcases fewer.iNid n i with same | zero
    · exact ptrSome.mpr ⟨same.symm.trans word,used⟩
    · exact absurd (word.symm.trans zero) used
  | slot a =>
    obtain ⟨word,used⟩ := ptrSome.mp edge
    rcases fewer.slot n a with same | zero
    · exact ptrSome.mpr ⟨same.symm.trans word,used⟩
    · exact absurd (word.symm.trans zero) used

theorem fewerZero (fewer : Fewer nodes next) (zero : nodes n = .zero) : next n = .zero := by
  have page : ∀ p : NodePage, (∀ i, p.iAddr i = 0) → (∀ i, p.iNid i = 0) → (∀ a, p.slot a = 0) → p = .zero := by
    intro p addr nid slot
    obtain ⟨iAddr,iNid,slots⟩ := p
    obtain rfl : iAddr = fun _ => 0 := funext addr
    obtain rfl : iNid = fun _ => 0 := funext nid
    obtain rfl : slots = fun _ => 0 := funext slot
    rfl
  refine page _ (fun i => ?_) (fun i => ?_) fun a => ?_
  · exact (fewer.iAddr n i).elim (fun same => same.trans (by rw [zero]; rfl)) id
  · exact (fewer.iNid n i).elim (fun same => same.trans (by rw [zero]; rfl)) id
  · exact (fewer.slot n a).elim (fun same => same.trans (by rw [zero]; rfl)) id

theorem otherPage (owned : Owned nodeShape roots (child t.nodes)) (done : Truncated start plan ino t t' 5)
    (root : ino ∈ roots) (inside : r ∈ roots) (other : r ≠ ino) (place : NodePlace q)
    (path : follow (child t.nodes) r q = some n) : t'.nodes n = t.nodes n := by
  have apart : ∀ p, NodePlace p → follow (child t.nodes) ino p ≠ some n := fun p placeP here =>
    other (owned r inside ino root q p n place placeP path here).1
  refine done.frame n (fun same => apart [] trivial (congrArg some same.symm)) fun i low cut _ used => ?_
  have outside : ¬Below t.nodes (levelOf i) ((t.nodes ino).iNid i) n := by
    intro below
    obtain ⟨p,len,bound,here⟩ := belowFollow below
    refine apart (.nid i :: p.map .slot) (slotPlace i low p len bound) ?_
    rw [walkNid,if_neg used]
    exact here
  refine ⟨?_,fun under => outside (underBelow (Nat.le_refl _) under)⟩
  rintro rfl
  exact outside (belowSelf ..)

theorem otherFollow (owned : Owned nodeShape roots (child t.nodes)) (done : Truncated start plan ino t t' 5)
    (root : ino ∈ roots) (inside : r ∈ roots) (other : r ≠ ino) (place : NodePlace q) :
    follow (child t'.nodes) r q = follow (child t.nodes) r q := by
  refine followAgree (fun p n valid path e => ?_) (show nodeShape.valid q from place)
  unfold child
  rw [otherPage owned done root inside other valid path]

theorem otherBlock (owned : Owned nodeShape roots (child t.nodes)) (done : Truncated start plan ino t t' 5)
    (root : ino ∈ roots) (inside : r ∈ roots) (other : r ≠ ino) (p : TreePath) :
    blockAt t'.nodes r p = blockAt t.nodes r p := by
  have same := otherFollow owned done root inside other p.nodesPlace
  cases path : follow (child t.nodes) r p.nodes with
  | none => rw [blockAtMissing path,blockAtMissing (same.trans path)]
  | some n => rw [blockAtFound path,blockAtFound (same.trans path),otherPage owned done root inside other p.nodesPlace path]

end

/- What a truncate leaves of a mount. -/
structure CutFs (inodes : Set Nat) (ino : Nat) (cut : TreePath) (s t : Fs) (calls : List Call) : Prop where
  nat : t.nat = s.nat
  cached : t.cached = s.cached
  done : ∃ trunc : Trunc, trunc.nodes = t.content ∧ trunc.calls = calls ∧
    Truncated cut.addrStart (cut.topCut (presentIn s.content ino)) ino ⟨s.content,[]⟩ trunc 5

section
variable {inodes : Set Nat} {known : Nat → Bool} {s t u : Fs} {nid ino n freeFrom fuel : Nat} {ne : NatEntry} {calls : List Call}
  {cut : TreePath}

theorem cutContent {nodes : NodeStore} (fewer : Fewer s.content nodes) : Fs.content { s with nodes := nodes } = nodes := by
  funext n
  by_cases held : s.cached n = true ∨ s.addr n ≠ some 0
  · exact if_pos held
  · have zero : s.content n = .zero := if_neg held
    rw [fewerZero fewer zero]
    exact if_neg held

theorem truncateCuts (ok : FsOk inodes known s) (inside : ino ∈ inodes) (at_ : cut.index = freeFrom)
    (ran : s.truncate ino freeFrom = some (t,calls)) :
    ¬cut.overruns (presentIn s.content ino) ∧ CutFs inodes ino cut s t calls ∧ FsOk inodes known t := by
  unfold Fs.truncate at ran
  subst at_
  rw [if_pos cut.indexBound] at ran
  obtain ⟨trunc,made,same⟩ := Option.map_eq_some_iff.mp ran
  obtain ⟨rfl,rfl⟩ := Prod.mk.inj same
  have tree := inodeTree ok.owned inside
  have within : ¬cut.overruns (presentIn s.content ino) := by
    intro outside
    rw [truncateOverruns ⟨s.content,[]⟩ tree cut outside] at made
    contradiction
  obtain ⟨other,again,done⟩ := truncateBlocks ⟨s.content,[]⟩ tree cut within
  obtain rfl : other = trunc := Option.some.inj (again.symm.trans made)
  have content : Fs.content { s with nodes := other.nodes } = other.nodes := cutContent done.fewer
  have less : ∀ n e m, child (Fs.content { s with nodes := other.nodes }) n e = some m → child s.content n e = some m := by
    intro n e m edge
    rw [content] at edge
    exact fewerChild done.fewer edge
  refine ⟨within,⟨rfl,rfl,other,content.symm,rfl,done⟩,ok.nat,ok.named,?_,ownedSub less ok.owned,ok.fresh⟩
  rintro n ⟨r,root,p,place,path⟩
  exact ok.reached n ⟨r,root,p,place,followSub less path⟩

theorem rawBlockListed {iblock : Nat} (ran : Fs.readRawNatBlock fuel iblock s = some t) (high : 3 ≤ nid)
    (here : nid / natEntryPerBlock = iblock) : t.nat.nm.slot nid ≠ none := by
  cases fuel with
  | zero => contradiction
  | succ fuel =>
    unfold Fs.readRawNatBlock at ran
    obtain ⟨u,_,same⟩ := Option.map_eq_some_iff.mp ran
    rw [← same]
    dsimp only
    rw [slotBlock,if_pos ⟨high,here⟩]
    intro none_
    rcases Option.or_eq_none_iff.mp none_ with ⟨_,bad⟩
    contradiction

/- `lookup_nat` in `invalidate_nat`: the entry is there, or its block was read. -/
theorem invalidateLooks (ran : s.invalidateNat fuel nid = some t) :
    ∃ u : Fs, t = { u with nat := { u.nat with nm := u.nat.nm.modify nid NatEntry.invalidated } } ∧
      (u = s ∨ Fs.readRawNatBlock fuel (nid / natEntryPerBlock) s = some u) ∧ (u.nat.nm.slot nid = none → nid < 3) := by
  obtain ⟨u,loaded,same⟩ := Option.map_eq_some_iff.mp ran
  refine ⟨u,same.symm,?_⟩
  split at loaded
  · rename_i found
    cases loaded
    refine ⟨.inl rfl,fun none_ => ?_⟩
    rw [slotNone.mp none_] at found
    contradiction
  · refine ⟨.inr loaded,fun none_ => ?_⟩
    by_contra high
    exact rawBlockListed loaded (Nat.not_lt.mp high) rfl none_

theorem invalidateAddrs (low : s.nat.nm.slot nid = none → nid < 3)
    (made : t = { s with nat := { s.nat with nm := s.nat.nm.modify nid NatEntry.invalidated } }) :
    t.addr nid = (s.addr nid).map (fun _ => 0) ∧ ∀ n, n ≠ nid → t.addr n = s.addr n := by
  unfold Fs.addr
  rw [made]
  dsimp only
  refine ⟨?_,fun n differ => modifyAddrOther NatEntry.invalidatedNid differ.symm⟩
  rw [natAddrSlot,natAddrSlot,slotModify NatEntry.invalidatedNid,if_pos rfl]
  cases here : s.nat.nm.slot nid with
  | some pair => rfl
  | none =>
    dsimp only [Option.map_none]
    rw [if_neg (Nat.not_le.mpr (low here))]
    rfl

theorem invalidateNamed (ok : FsOk inodes known s)
    (made : t = { s with nat := { s.nat with nm := s.nat.nm.modify nid NatEntry.invalidated } }) (bad : NatEntry) :
    t.nat.nm.slot 0 ≠ some (false,bad) := by
  intro free
  rw [made] at free
  dsimp only at free
  rw [slotModify NatEntry.invalidatedNid] at free
  split at free
  · rename_i zero
    obtain ⟨⟨used,entry⟩,there,same⟩ := Option.map_eq_some_iff.mp free
    cases same
    exact ok.named entry (zero ▸ there)
  · exact ok.named bad free

theorem invalidateAdvances (metaIn : metaIno ∈ inodes) (ok : FsOk inodes known s)
    (kept : s.cached nid = true ∨ (s.addr nid).getD 0 = 0) (ran : s.invalidateNat fuel nid = some t) :
    Advances inodes known s t ∧ (∀ n, t.addr n = if n = nid then (s.addr n).map fun _ => 0 else s.addr n) ∧
      KeepsUsed s.nat.nm t.nat.nm := by
  obtain ⟨u,made,loaded,low⟩ := invalidateLooks ran
  have before : Advances inodes known s u ∧ AddrSteady s u := by
    rcases loaded with same | loaded
    · rw [same]
      exact ⟨advancesRefl ok,addrSteady ok.nat (preparesRefl _)⟩
    · exact ⟨rawBlockLoading metaIn fuel known _ s u ok loaded,addrSteady ok.nat (rawBlockPrepares fuel _ s u loaded)⟩
  obtain ⟨⟨now,more,okU,grown⟩,steady⟩ := before
  obtain ⟨self,others⟩ := invalidateAddrs low made
  have content : t.content = u.content := by
    funext n
    by_cases same : n = nid
    · subst same
      have nodes : t.nodes n = u.nodes n := by rw [made]
      have cached : t.cached n = u.cached n := by rw [made]
      rcases kept with held | zero
      · have heldU := grown.cached n held
        rw [contentHeld heldU,contentHeld (cached.trans heldU),nodes]
      · refine contentSame nodes cached ?_
        rw [self,steady.addr]
        cases address : s.addr n with
        | none => rfl
        | some a =>
          rw [address] at zero
          exact congrArg some zero.symm
    · exact contentSame (by rw [made]) (by rw [made]) (others n same)
  refine ⟨advancesThen more grown ⟨now,fun _ => id,okSame okU content ?_ (invalidateNamed okU made) ?_,grownSame content ?_⟩,fun n => ?_,?_⟩
  · rw [made]
    exact natOkModify NatEntry.invalidatedNid (fun _ _ => rfl) okU.nat
  · rw [made]
    exact okU.fresh
  · rw [made]
    exact fun _ => id
  · by_cases same : n = nid
    · rw [if_pos same,same,self,steady.addr]
    · rw [if_neg same,others n same,steady.addr]
  · rw [made]
    exact steady.used.trans (keepsUsedModify NatEntry.invalidatedNid)

end
end Xcpfs
