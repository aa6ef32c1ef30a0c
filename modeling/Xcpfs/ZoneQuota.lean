import Xcpfs.ZoneFlight
import Xcpfs.ZoneRetry
import Xcpfs.MountMemory

/-! The counters `nr_type` against the open zones of each type. A mount counts entries of
the ZIT, `get_zone` counts open requests, and a completion that fills a zone closes it. -/
namespace Xcpfs

open EventRun

/- The slots whose zone has the type, under any assignment of types. -/
def typedSlots (types : Nat → Nat) (type : Nat) (list : List (Option Nat)) : Nat :=
  list.countP fun entry => entry.any fun zone => decide (types zone = type)

def openedOf (zm : ZmInfo) (type : Nat) : Nat := typedSlots (fun zone => (zm.zoneInfo zone).zoneType) type zm.zoneOpened

structure Quota (type : Nat) (zm : ZmInfo) : Prop where
  counted : zm.nrType type = openedOf zm type
  limited : zm.nrType type ≤ zm.limitType type

inductive QuotaEvent where
  | search (type : Nat) (answers : List Bool)
  | complete (blkaddr : Nat)
  | checkpoint (locked : Bool) (restart : Option Bool)

def quotaStep (s : ZoneSbi) : QuotaEvent → Option ZoneSbi
  | .search type answers => (getZone type answers s).map Prod.fst
  | .complete blkaddr => some { s with zm := validateBlkaddr s.zm blkaddr }
  | .checkpoint locked restart => some { s with cpSemLocked := locked, cpcRestart := restart }

/- What one open request does to the slots of a type: a search for the type lists one zone
of it, below the limit; a search for another type takes no listed zone of it. -/
def passFits (type searched : Nat) (accepted : Bool) (zm : ZmInfo) : Prop :=
  let zone := getEmptyZone zm
  if searched = type then
    zm.nrType type < zm.limitType type ∧
      (if (zm.zoneInfo zone).zoneType = type then 0 else zm.zoneOpened.count (some zone)) + (opensZone zm zone accepted).toNat = 1
  else ¬(some zone ∈ zm.zoneOpened ∧ (zm.zoneInfo zone).zoneType = type)

def fillsZone (zm : ZmInfo) (blkaddr : Nat) : Prop :=
  let zi := zm.zoneInfo (zm.blk2zone blkaddr)
  validateWp zi.wp blkaddr = zm.zoneCapacity + zi.start

/- A table in which the scan over the open zones finds what is listed. -/
structure Searchable (zm : ZmInfo) : Prop extends Laid zm, Slotted zm, Pointed zm

def quotaFits (type : Nat) (s : ZoneSbi) : QuotaEvent → Prop
  | .search searched answers =>
    Opens s.zm searched → RoomLeft s.zm → passFits type searched (answers.headD false) s.zm
  | .complete blkaddr =>
    fillsZone s.zm blkaddr →
      ¬(some (s.zm.blk2zone blkaddr) ∈ s.zm.zoneOpened ∧ (s.zm.zoneInfo (s.zm.blk2zone blkaddr)).zoneType = type)
  | .checkpoint _ _ => True

section
variable {types : Nat → Nat} {type new zone : Nat} {list : List (Option Nat)}

theorem retypeSlots (types : Nat → Nat) (type new zone : Nat) (list : List (Option Nat)) :
    typedSlots (Function.update types zone new) type list + (if types zone = type then list.count (some zone) else 0) =
      typedSlots types type list + if new = type then list.count (some zone) else 0 := by
  induction list with
  | nil =>
    unfold typedSlots
    simp
  | cons entry rest ih =>
    unfold typedSlots at ih ⊢
    rw [List.countP_cons,List.countP_cons,List.count_cons]
    cases entry with
    | none =>
      have other : (none == some zone) = false := rfl
      simpa only [Option.any_none,Bool.false_eq_true,if_false,other,Nat.add_zero] using ih
    | some z =>
      by_cases here : z = zone
      · subst here
        simp only [Option.any_some,Function.update_self,decide_eq_true_eq,beq_self_eq_true,if_true]
        split at ih <;> split at ih <;> rename_i first second
        · rw [if_pos second,if_pos first,if_pos first,if_pos second]
          omega
        · rw [if_neg second,if_pos first,if_pos first,if_neg second]
          omega
        · rw [if_pos second,if_neg first,if_neg first,if_pos second]
          omega
        · rw [if_neg second,if_neg first,if_neg first,if_neg second]
          omega
      · have other : (some z == some zone) = false := by
          simpa using here
        simp only [Option.any_some,Function.update_of_ne here,other,Bool.false_eq_true,if_false,Nat.add_zero]
        omega

theorem insertSlots (types : Nat → Nat) (type : Nat) (room : list.countP Option.isSome < list.length) :
    typedSlots types type (insertZone zone list).1 = typedSlots types type list + if types zone = type then 1 else 0 := by
  induction list with
  | nil => simp at room
  | cons entry rest ih =>
    cases entry with
    | none =>
      unfold typedSlots
      simp [insertZone,List.countP_cons]
    | some other =>
      simp only [List.countP_cons,Option.isSome_some,if_true,List.length_cons] at room
      have rest := ih (by omega)
      unfold typedSlots at rest ⊢
      simp only [insertZone,List.countP_cons,rest]
      exact Nat.add_right_comm ..

theorem removeSlots (types : Nat → Nat) (type zone : Nat) (list : List (Option Nat)) :
    typedSlots types type (removeZone zone list).1 + (if some zone ∈ list ∧ types zone = type then 1 else 0) =
      typedSlots types type list := by
  induction list with
  | nil =>
    unfold typedSlots
    simp [removeZone]
  | cons entry rest ih =>
    unfold typedSlots at ih ⊢
    simp only [removeZone]
    split
    · rename_i same
      subst same
      simp [List.countP_cons]
    · rename_i different
      have away : some zone ∈ entry :: rest ↔ some zone ∈ rest := by
        rw [List.mem_cons]
        exact ⟨fun found => found.resolve_left fun same => different same.symm,.inr⟩
      simp only [away,List.countP_cons]
      omega

end

section
variable {zm : ZmInfo} {s t u : ZoneSbi} {type searched zone : Nat} {accepted : Bool} {answers : List Bool}

theorem openKeepsTypes (zm : ZmInfo) (zone : Nat) (accepted : Bool) :
    (xcpfsZoneOpen zm zone accepted).1.nrType = zm.nrType ∧ (xcpfsZoneOpen zm zone accepted).1.limitType = zm.limitType ∧
      ∀ z, ((xcpfsZoneOpen zm zone accepted).1.zoneInfo z).zoneType = (zm.zoneInfo z).zoneType := by
  cases takes : opensZone zm zone accepted with
  | false =>
    rw [zoneOpenSkips takes]
    exact ⟨rfl,rfl,fun _ => rfl⟩
  | true =>
    rw [zoneOpenTakes takes]
    split
    · exact ⟨rfl,rfl,setZoneEach (fun z zi => zi.zoneType = (zm.zoneInfo z).zoneType) (fun _ => rfl) rfl⟩
    · exact ⟨rfl,rfl,setZoneEach (fun z zi => zi.zoneType = (zm.zoneInfo z).zoneType) (fun _ => rfl) rfl⟩

theorem passTypes (searched : Nat) (accepted : Bool) (zm : ZmInfo) :
    (fun z => ((passTable searched accepted zm).zoneInfo z).zoneType) =
      Function.update (fun z => (zm.zoneInfo z).zoneType) (getEmptyZone zm) searched := by
  funext z
  change (Function.update (xcpfsZoneOpen zm (getEmptyZone zm) accepted).1.zoneInfo _ _ z).zoneType = _
  by_cases here : z = getEmptyZone zm
  · rw [here,Function.update_self,Function.update_self]
  · rw [Function.update_of_ne here,Function.update_of_ne here]
    exact (openKeepsTypes zm (getEmptyZone zm) accepted).2.2 z

theorem passCounters (searched : Nat) (accepted : Bool) (zm : ZmInfo) :
    (passTable searched accepted zm).nrType = Function.update zm.nrType searched (zm.nrType searched + 1) ∧
      (passTable searched accepted zm).limitType = zm.limitType := by
  have kept := openKeepsTypes zm (getEmptyZone zm) accepted
  unfold passTable
  dsimp only [ZmInfo.setZone]
  rw [kept.1,kept.2.1]
  exact ⟨rfl,rfl⟩

theorem searchablePass (ok : Searchable s.zm) (ran : openEmpty type accepted s = some t) : Searchable t.zm :=
  ⟨laidPass ok.toLaid ran,slottedPass ok.toSlotted ran,pointedBlocks ok.toPointed (openEmptyBlocks ran)⟩

theorem searchableScannable (ok : Searchable zm) : Scannable zm := laidScannable ok.toLaid ok.toPointed

theorem passOpened (slotted : Slotted zm) (type searched : Nat) (accepted : Bool) :
    openedOf (passTable searched accepted zm) type +
        (if (zm.zoneInfo (getEmptyZone zm)).zoneType = type then zm.zoneOpened.count (some (getEmptyZone zm)) else 0) =
      openedOf zm type + if searched = type then
        zm.zoneOpened.count (some (getEmptyZone zm)) + (opensZone zm (getEmptyZone zm) accepted).toNat else 0 := by
  have retyped := retypeSlots (fun z => (zm.zoneInfo z).zoneType) type searched (getEmptyZone zm) zm.zoneOpened
  unfold openedOf
  rw [passTypes]
  cases takes : opensZone zm (getEmptyZone zm) accepted with
  | false =>
    rw [skippedOpened takes]
    exact retyped
  | true =>
    obtain ⟨_,room,_⟩ := opensZoneIff.mp takes
    have slots := slotted.slots
    have counted := slotted.counted
    have bound := List.countP_le_length (p := Option.isSome) (l := zm.zoneOpened)
    have free : zm.zoneOpened.countP Option.isSome < zm.zoneOpened.length := by omega
    have opened : (passTable searched accepted zm).zoneOpened = (insertZone (getEmptyZone zm) zm.zoneOpened).1 := by
      change (xcpfsZoneOpen zm (getEmptyZone zm) accepted).1.zoneOpened = _
      rw [zoneOpenTakes takes]
      split <;> rfl
    rw [opened,insertSlots _ type free,Function.update_self,Bool.toNat_true]
    split at retyped <;> split <;> rename_i first second
    · rw [if_pos second] at retyped
      omega
    · rw [if_neg second] at retyped
      omega
    · rw [if_pos second] at retyped
      omega
    · rw [if_neg second] at retyped
      omega

theorem retryHere (scannable : Scannable s.zm) (selectable : Selectable type s.zm)
    (ran : retryZone type answers s = some (t,zone)) : t = s := by
  obtain ⟨tar,scanned⟩ := Option.isSome_iff_exists.mp ((scanIff scannable).mpr selectable)
  cases answers with
  | nil =>
    obtain ⟨_,_,same⟩ := Option.map_eq_some_iff.mp ran
    cases same
    rfl
  | cons accepted answers =>
    rw [retryZone,scanned] at ran
    cases ran
    rfl

theorem retryFull (full : ¬RoomLeft s.zm) (ran : retryZone type answers s = some (t,zone)) : t = s := by
  induction answers with
  | nil =>
    obtain ⟨_,_,same⟩ := Option.map_eq_some_iff.mp ran
    cases same
    rfl
  | cons accepted answers ih =>
    rw [retryZone] at ran
    split at ran
    · cases ran
      rfl
    · rw [openEmptyFull full] at ran
      exact ih ran

theorem searchCases (scannable : Scannable s.zm) (ran : getZone type answers s = some (t,zone)) :
    t = s ∧ ¬(Opens s.zm type ∧ RoomLeft s.zm) ∨
      Opens s.zm type ∧ RoomLeft s.zm ∧ ∃ u rest, openEmpty type (answers.headD false) s = some u ∧
        retryZone type rest u = some (t,zone) := by
  unfold getZone at ran
  by_cases below : s.zm.nrType type < s.zm.limitType type
  · rw [if_pos below] at ran
    cases answers with
    | nil => cases ran
    | cons accepted answers =>
      obtain ⟨u,passed,rest⟩ := Option.bind_eq_some_iff.mp ran
      by_cases room : RoomLeft s.zm
      · exact .inr ⟨.inl below,room,u,answers,passed,rest⟩
      · rw [openEmptyFull room] at passed
        cases passed
        exact .inl ⟨retryFull room rest,fun both => room both.2⟩
  · rw [if_neg below] at ran
    by_cases selectable : Selectable type s.zm
    · refine .inl ⟨retryHere scannable selectable ran,fun both => ?_⟩
      exact both.1.elim below fun missing => missing selectable
    · by_cases room : RoomLeft s.zm
      · cases answers with
        | nil =>
          obtain ⟨tar,scanned,_⟩ := Option.map_eq_some_iff.mp ran
          exact absurd ((scanIff scannable).mp (by rw [scanned]; rfl)) selectable
        | cons accepted answers =>
          rw [retryStep scannable selectable] at ran
          obtain ⟨u,passed,rest⟩ := Option.bind_eq_some_iff.mp ran
          exact .inr ⟨.inr selectable,room,u,answers,passed,rest⟩
      · exact .inl ⟨retryFull room ran,fun both => room both.2⟩

theorem retryUnlisted (P : ZmInfo → Prop) (ok : Searchable s.zm) (unlisted : some (getEmptyZone s.zm) ∉ s.zm.zoneOpened)
    (keeps : ∀ zm accepted, Searchable zm → some (getEmptyZone zm) ∉ zm.zoneOpened → P zm → P (passTable type accepted zm))
    (init : P s.zm) (ran : retryZone type answers s = some (t,zone)) : P t.zm := by
  induction answers generalizing s with
  | nil =>
    obtain ⟨_,_,same⟩ := Option.map_eq_some_iff.mp ran
    cases same
    exact init
  | cons accepted answers ih =>
    rw [retryZone] at ran
    split at ran
    · cases ran
      exact init
    · obtain ⟨u,passed,rest⟩ := Option.bind_eq_some_iff.mp ran
      by_cases room : RoomLeft s.zm
      · have same := (passIs room passed).2.2
        have next : P u.zm := by
          rw [same]
          exact keeps s.zm accepted ok unlisted init
        cases takes : opensZone s.zm (getEmptyZone s.zm) accepted with
        | true =>
          -- the zone opened now is found by the next scan
          have selectable : Selectable type u.zm := by
            rw [same]
            exact passSelectable ok.slots ok.counted (.inr takes)
          have last := retryHere (searchableScannable (searchablePass ok passed)) selectable rest
          rw [last]
          exact next
        | false =>
          refine ih (searchablePass ok passed) ?_ next rest
          rw [same,skippedOpened takes,skippedPlace takes]
          exact unlisted
      · rw [openEmptyFull room] at passed
        cases passed
        exact ih ok unlisted init rest

theorem searchPasses (P : ZmInfo → Prop) (ok : Searchable s.zm) (room : RoomLeft s.zm) (passed : openEmpty searched accepted s = some u)
    (keeps : ∀ zm accepted, Searchable zm → some (getEmptyZone zm) ∉ zm.zoneOpened → P zm → P (passTable searched accepted zm))
    (rest : retryZone searched answers u = some (t,zone)) :
    (t.zm = passTable searched accepted s.zm ∧
        (some (getEmptyZone s.zm) ∈ s.zm.zoneOpened ∨ opensZone s.zm (getEmptyZone s.zm) accepted = true)) ∨
      (some (getEmptyZone s.zm) ∉ s.zm.zoneOpened ∧ opensZone s.zm (getEmptyZone s.zm) accepted = false ∧
        (P (passTable searched accepted s.zm) → P t.zm)) := by
  have same := (passIs room passed).2.2
  have next := searchablePass ok passed
  by_cases lists : some (getEmptyZone s.zm) ∈ s.zm.zoneOpened ∨ opensZone s.zm (getEmptyZone s.zm) accepted = true
  · left
    have selectable : Selectable searched u.zm := by
      rw [same]
      exact passSelectable ok.slots ok.counted lists
    rw [retryHere (searchableScannable next) selectable rest]
    exact ⟨same,lists⟩
  · right
    obtain ⟨unlisted,skips⟩ := not_or.mp lists
    have skipped := eq_false_of_ne_true skips
    refine ⟨unlisted,skipped,fun init => ?_⟩
    refine retryUnlisted P next ?_ keeps (same ▸ init) rest
    rw [same,skippedOpened skipped,skippedPlace skipped]
    exact unlisted

/- A search for the type: the law holds after it exactly if the first pass listed one zone of it. -/
theorem searchOwn (ok : Searchable s.zm) (quota : Quota type s.zm) (room : RoomLeft s.zm) (passed : openEmpty type accepted s = some u)
    (rest : retryZone type answers u = some (t,zone)) : Quota type t.zm ↔ passFits type type accepted s.zm := by
  have opened := passOpened ok.toSlotted type type accepted
  obtain ⟨nrType,limitType⟩ := passCounters type accepted s.zm
  have nr : (passTable type accepted s.zm).nrType type = s.zm.nrType type + 1 := by
    rw [nrType,Function.update_self]
  have counted := quota.counted
  rw [if_pos rfl] at opened
  unfold passFits
  dsimp only
  rw [if_pos rfl]
  obtain ⟨last,_⟩ | ⟨unlisted,skipped,later⟩ := searchPasses (fun zm => (openedOf zm type : Int) < zm.nrType type) ok room passed
    (by
      intro zm accepted ok unlisted behind
      have opened := passOpened ok.toSlotted type type accepted
      have nrType := (passCounters type accepted zm).1
      have zero := List.count_eq_zero_of_not_mem unlisted
      have one := Bool.toNat_le (opensZone zm (getEmptyZone zm) accepted)
      rw [if_pos rfl,zero,ite_self,Nat.add_zero,Nat.zero_add] at opened
      rw [nrType,Function.update_self,opened]
      push_cast
      omega) rest
  · rw [last]
    have limit : (passTable type accepted s.zm).limitType type = s.zm.limitType type := by rw [limitType]
    constructor
    · intro after
      have here := after.counted
      have bound := after.limited
      refine ⟨by omega,?_⟩
      split at opened <;> rename_i same
      · rw [if_pos same]
        omega
      · rw [if_neg same]
        omega
    · intro ⟨below,one⟩
      refine ⟨?_,by omega⟩
      split at opened <;> rename_i same
      · rw [if_pos same] at one
        omega
      · rw [if_neg same] at one
        omega
  · have zero := List.count_eq_zero_of_not_mem unlisted
    rw [zero,skipped,ite_self,Bool.toNat_false] at opened ⊢
    refine iff_of_false (fun after => ?_) (fun fits => absurd fits.2 (by omega))
    have behind := later (by omega)
    have here := after.counted
    omega

/- A search for another type takes no zone of this one, unless it is listed. -/
theorem searchElse (ok : Searchable s.zm) (quota : Quota type s.zm) (other : searched ≠ type) (room : RoomLeft s.zm)
    (passed : openEmpty searched accepted s = some u) (rest : retryZone searched answers u = some (t,zone)) :
    Quota type t.zm ↔ passFits type searched accepted s.zm := by
  have kept : ∀ (zm : ZmInfo) (accepted : Bool), (passTable searched accepted zm).nrType type = zm.nrType type ∧
      (passTable searched accepted zm).limitType type = zm.limitType type := by
    intro zm accepted
    obtain ⟨nrType,limitType⟩ := passCounters searched accepted zm
    rw [nrType,limitType,Function.update_of_ne (Ne.symm other)]
    exact ⟨rfl,rfl⟩
  have opened := passOpened ok.toSlotted type searched accepted
  obtain ⟨nr,limit⟩ := kept s.zm accepted
  have counted := quota.counted
  have limited := quota.limited
  rw [if_neg other,Nat.add_zero] at opened
  unfold passFits
  dsimp only
  rw [if_neg other]
  obtain ⟨last,_⟩ | ⟨unlisted,skipped,later⟩ := searchPasses (fun zm => Quota type zm) ok room passed
    (by
      intro zm accepted ok unlisted quota
      have opened := passOpened ok.toSlotted type searched accepted
      have zero := List.count_eq_zero_of_not_mem unlisted
      rw [if_neg other,zero,ite_self,Nat.add_zero,Nat.add_zero] at opened
      obtain ⟨nr,limit⟩ := kept zm accepted
      refine ⟨?_,?_⟩
      · rw [nr,opened]
        exact quota.counted
      · rw [nr,limit]
        exact quota.limited) rest
  · rw [last]
    constructor
    · intro after ⟨listed,typed⟩
      have here := after.counted
      have some_ := List.count_pos_iff.mpr listed
      rw [if_pos typed] at opened
      omega
    · intro free
      have none_ : (if (s.zm.zoneInfo (getEmptyZone s.zm)).zoneType = type then s.zm.zoneOpened.count (some (getEmptyZone s.zm)) else 0) = 0 := by
        split
        · rename_i typed
          exact List.count_eq_zero_of_not_mem fun listed => free ⟨listed,typed⟩
        · rfl
      exact ⟨by omega,by omega⟩
  · have zero := List.count_eq_zero_of_not_mem unlisted
    rw [zero,ite_self,Nat.add_zero] at opened
    exact iff_of_true (later ⟨by omega,by omega⟩) fun both => unlisted both.1

theorem completeQuota (quota : Quota type zm) (blkaddr : Nat) : Quota type (validateBlkaddr zm blkaddr) ↔
    (fillsZone zm blkaddr → ¬(some (zm.blk2zone blkaddr) ∈ zm.zoneOpened ∧ (zm.zoneInfo (zm.blk2zone blkaddr)).zoneType = type)) := by
  have types : (fun z => ((validateBlkaddr zm blkaddr).zoneInfo z).zoneType) = fun z => (zm.zoneInfo z).zoneType :=
    funext (validateType blkaddr)
  have nr : (validateBlkaddr zm blkaddr).nrType = zm.nrType ∧ (validateBlkaddr zm blkaddr).limitType = zm.limitType := by
    unfold validateBlkaddr
    dsimp only
    split
    · exact ⟨rfl,rfl⟩
    · exact ⟨rfl,rfl⟩
  have counted := quota.counted
  have limited := quota.limited
  by_cases fills : fillsZone zm blkaddr
  · have slots : (validateBlkaddr zm blkaddr).zoneOpened = (removeZone (zm.blk2zone blkaddr) zm.zoneOpened).1 := by
      unfold validateBlkaddr
      dsimp only
      split
      · rfl
      · rename_i short
        exact absurd fills short
    have removed := removeSlots (fun z => (zm.zoneInfo z).zoneType) type (zm.blk2zone blkaddr) zm.zoneOpened
    have opened : openedOf (validateBlkaddr zm blkaddr) type = typedSlots (fun z => (zm.zoneInfo z).zoneType) type
        (removeZone (zm.blk2zone blkaddr) zm.zoneOpened).1 := by
      unfold openedOf
      rw [types,slots]
    change typedSlots _ type _ + _ = openedOf zm type at removed
    constructor
    · intro after _ both
      have here := after.counted
      rw [nr.1,opened] at here
      rw [if_pos both] at removed
      omega
    · intro free
      rw [if_neg (free fills)] at removed
      refine ⟨?_,?_⟩
      · rw [nr.1,opened]
        omega
      · rw [nr.1,nr.2]
        exact limited
  · have slots : (validateBlkaddr zm blkaddr).zoneOpened = zm.zoneOpened := by
      unfold validateBlkaddr
      dsimp only
      split
      · rename_i reached
        exact absurd reached fills
      · rfl
    refine iff_of_true ⟨?_,?_⟩ fun bad => absurd bad fills
    · unfold openedOf
      rw [nr.1,types,slots]
      exact counted
    · rw [nr.1,nr.2]
      exact limited

theorem quotaStepIff {event : QuotaEvent} (ok : Searchable s.zm) (quota : Quota type s.zm) (ran : quotaStep s event = some t) :
    Quota type t.zm ↔ quotaFits type s event := by
  cases event with
  | search searched answers =>
    obtain ⟨⟨last,zone⟩,found,same⟩ := Option.map_eq_some_iff.mp ran
    cases same
    change Quota type last.zm ↔ (Opens s.zm searched → RoomLeft s.zm → passFits type searched (answers.headD false) s.zm)
    obtain ⟨same,quiet⟩ | ⟨opens,room,u,rest,passed,returned⟩ := searchCases (searchableScannable ok) found
    · rw [same]
      exact iff_of_true quota fun opens room => absurd ⟨opens,room⟩ quiet
    · have fits : Quota type last.zm ↔ passFits type searched (answers.headD false) s.zm := by
        by_cases own : searched = type
        · subst own
          exact searchOwn ok quota room passed returned
        · exact searchElse ok quota own room passed returned
      rw [fits]
      exact ⟨fun kept _ _ => kept,fun kept => kept opens room⟩
  | complete blkaddr =>
    cases ran
    exact completeQuota quota blkaddr
  | checkpoint locked restart =>
    cases ran
    exact iff_of_true quota trivial

/- The event completes no block from 2^28 - 1 on, where the shift of its address overflows. -/
def shiftsExactly : QuotaEvent → Prop
  | .complete blkaddr => blkaddr + 1 < 2 ^ 28
  | _ => True

theorem quotaSearchable {event : QuotaEvent} (ok : Searchable s.zm) (exact_ : shiftsExactly event) (ran : quotaStep s event = some t) :
    Searchable t.zm := by
  cases event with
  | search searched answers =>
    obtain ⟨⟨last,zone⟩,found,same⟩ := Option.map_eq_some_iff.mp ran
    cases same
    exact ⟨laidSearch ok.toLaid found,slottedSearch ok.toSlotted found,pointedBlocks ok.toPointed (searchBlocks found)⟩
  | complete blkaddr =>
    cases ran
    exact ⟨laidValidate ok.toLaid blkaddr,slottedValidate ok.toSlotted blkaddr,pointedValidate ok.toLaid ok.toPointed exact_⟩
  | checkpoint locked restart =>
    cases ran
    exact ok

theorem quotaRuns {events : List QuotaEvent} (ok : Searchable s.zm) (quota : Quota type s.zm)
    (exact_ : ∀ event ∈ events, shiftsExactly event) :
    Always (fun s => Quota type s.zm) quotaStep s events ↔ Meets (quotaFits type) quotaStep s events := by
  induction events generalizing s with
  | nil => exact iff_of_true quota trivial
  | cons event events ih =>
    have here := exact_ event List.mem_cons_self
    have later : ∀ event ∈ events, shiftsExactly event := fun event member => exact_ event (List.mem_cons_of_mem _ member)
    constructor
    · intro always next ran
      have rest := always.2 next ran
      have after := alwaysHead rest
      exact ⟨(quotaStepIff ok quota ran).mp after,(ih (quotaSearchable ok here ran) after later).mp rest⟩
    · intro meets
      refine ⟨quota,fun next ran => ?_⟩
      obtain ⟨fits,rest⟩ := meets next ran
      exact (ih (quotaSearchable ok here ran) ((quotaStepIff ok quota ran).mpr fits) later).mpr rest

end

def mountedLimit (mem : RawMemory) (bdev : BlockDevice) : Nat → Int :=
  Function.update (Function.update (Function.update mem.limitType PageType.metaData.code 1) PageType.regNode.code 2)
    PageType.regData.code (bdev.maxOpenZones - 1 - 1 - 2 - 1 - 1)

def mountedType (mem : RawMemory) (bdev : BlockDevice) (page : Nat → Option ZitBlock) (zone : Nat) : Nat :=
  (zitTold (bdev.zones zone).cond page zone).elim ((presetType zone).elim (mem.zoneInfo zone).zoneType PageType.code)
    fun told => told.1.zoneType.val

/- The ZIT counts as many zones for the type, from what `nr_type` held, as are open with it. -/
structure MountFits (mem : RawMemory) (bdev : BlockDevice) (page : Nat → Option ZitBlock) (type : Nat) : Prop where
  counted : mem.nrType type + zitCount (fun zone => (bdev.zones zone).cond) page bdev.nrZones type =
    (openZones bdev bdev.nrZones).countP fun zone => decide (mountedType mem bdev page zone = type)
  limited : mem.nrType type + zitCount (fun zone => (bdev.zones zone).cond) page bdev.nrZones type ≤ mountedLimit mem bdev type

section
variable {mem : RawMemory} {bdev : BlockDevice} {blocks type : Nat} {page : Nat → Option ZitBlock} {zm : ZmInfo}
  {events : List QuotaEvent}

theorem mountedOpened (null : NullSlots mem) (mounted : mountOver mem bdev page = some zm) (type : Nat) :
    openedOf zm type = (openZones bdev bdev.nrZones).countP fun zone => decide (mountedType mem bdev page zone = type) := by
  have holds := mountedOver rfl mounted
  have free : ∀ (types : Nat → Nat) (n : Nat), typedSlots types type (List.replicate n none) = 0 := by
    intro types n
    unfold typedSlots
    rw [List.countP_replicate]
    rfl
  have listed := holds.opened
  change SlotsHold ((List.range bdev.maxOpenZones).map mem.zoneOpened) mem.zoneOpenedCount _ _ _ at listed
  rw [nullMap null.opened,null.openedCount] at listed
  have slots : zm.zoneOpened = (openZones bdev bdev.nrZones).map some ++
      List.replicate (bdev.maxOpenZones - (openZones bdev bdev.nrZones).length) none := by
    rw [listed.slots,Int.toNat_zero,Nat.zero_add,List.take_zero,List.nil_append,List.drop_replicate]
  have none_ := free (fun z => (zm.zoneInfo z).zoneType) (bdev.maxOpenZones - (openZones bdev bdev.nrZones).length)
  unfold typedSlots at none_
  unfold openedOf typedSlots
  rw [slots,List.countP_append,none_,Nat.add_zero,List.countP_map]
  refine List.countP_congr fun zone member => ?_
  have inside := List.mem_range.mp (List.mem_of_mem_filter member)
  have typed : (zm.zoneInfo zone).zoneType = mountedType mem bdev page zone := by
    rw [holds.zoneInfo zone inside,(readFields _ _).1]
    unfold mountedZone rawTable mountedType
    dsimp only
    rw [if_pos inside]
  change decide ((zm.zoneInfo zone).zoneType = type) = true ↔ _
  rw [typed]

theorem mountQuota (null : NullSlots mem) (mounted : mountOver mem bdev page = some zm) :
    Quota type zm ↔ MountFits mem bdev page type := by
  have holds := mountedOver rfl mounted
  have counts : zm.nrType type = mem.nrType type + zitCount (fun zone => (bdev.zones zone).cond) page bdev.nrZones type :=
    holds.nrType type
  have limits : zm.limitType type = mountedLimit mem bdev type := by
    rw [holds.limitType]
    rfl
  constructor
  · intro quota
    refine ⟨?_,?_⟩
    · rw [← counts,← mountedOpened null mounted type]
      exact quota.counted
    · rw [← counts,← limits]
      exact quota.limited
  · intro fits
    refine ⟨?_,?_⟩
    · rw [counts,mountedOpened null mounted type]
      exact fits.counted
    · rw [counts,limits]
      exact fits.limited

/- For every type and every run of searches and completions from a mount over zeroed slots, the law
holds in every state exactly when the mount counts right and every step meets its condition. -/
theorem typeQuotaHolds (reported : Reported bdev blocks) (null : NullSlots mem) (mounted : mountOver mem bdev page = some zm)
    (exact_ : ∀ event ∈ events, shiftsExactly event) :
    Always (fun s => Quota type s.zm) quotaStep (mountRun zm).sbi events ↔
      MountFits mem bdev page type ∧ Meets (quotaFits type) quotaStep (mountRun zm).sbi events := by
  have table := mountMounted reported mounted
  have accounted := mountAccounted reported null mounted
  have ok : Searchable zm := ⟨table.laid,⟨accounted.openedSlots,accounted.openedCount⟩,table.pointed⟩
  constructor
  · intro always
    have start := alwaysHead always
    exact ⟨(mountQuota null mounted).mp start,(quotaRuns ok start exact_).mp always⟩
  · intro ⟨fits,meets⟩
    exact (quotaRuns ok ((mountQuota null mounted).mpr fits) exact_).mpr meets

end

/-- The first metadata page of a fresh image opens zone 2, the next one goes there too. -/
theorem typeQuotaHoldsOnce : Always (fun s => Quota 2 s.zm) quotaStep (mountRun mkfsTable).sbi [.search 2 [true],.search 2 []] := by
  refine (typeQuotaHolds mkfsReported mkfsNull mkfsMounts ?_).mpr ⟨⟨by decide,by decide⟩,?_⟩
  · intro event member
    obtain first | second := List.mem_pair.mp member
    · rw [first]
      trivial
    · rw [second]
      trivial
  intro first opened
  refine ⟨fun _ _ => ?_,?_⟩
  · unfold passFits
    decide
  · intro second found
    cases opened
    refine ⟨fun opens _ => absurd opens (not_or.mpr ⟨by decide,not_not.mpr ?_⟩),trivial⟩
    exact ⟨2,by decide,rfl⟩

/-- The block that fills zone 2 takes it off the open zones and leaves `nr_type`. -/
theorem filledZoneStaysCounted : ¬∀ (type : PageType) (events : List QuotaEvent),
    Always (fun s => Quota type.code s.zm) quotaStep (mountRun mkfsTable).sbi events := by
  intro claim
  obtain ⟨t,ran⟩ : ∃ t, exec quotaStep (mountRun mkfsTable).sbi [.search 2 [true],.complete 11] = some t := ⟨_,rfl⟩
  have quota := alwaysEnd (claim .metaData _) ran
  cases ran
  have counted := quota.counted
  revert counted
  decide

end Xcpfs
