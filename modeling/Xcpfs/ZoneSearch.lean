import Xcpfs.ZoneAlloc

/-! What a search for a zone leaves alone. The search is a number of passes, each
an open request and a retyping, so a relation that composes need only be shown of one. -/
namespace Xcpfs

section
variable {s t : ZoneSbi} {type zone : Nat} {accepted : Bool} {answers : List Bool}

theorem retryRelated (R : ZoneSbi → ZoneSbi → Prop) (refl : ∀ s, R s s) (trans : ∀ s t u, R s t → R t u → R s u)
    (pass : ∀ s t accepted, openEmpty type accepted s = some t → R s t)
    (ran : retryZone type answers s = some (t,zone)) : R s t := by
  induction answers generalizing s with
  | nil =>
    obtain ⟨tar,_,same⟩ := Option.map_eq_some_iff.mp ran
    cases same
    exact refl _
  | cons accepted answers ih =>
    unfold retryZone at ran
    cases scanned : scanOpened s.zm type s.zm.zoneOpened longMax none with
    | some tar =>
      rw [scanned] at ran
      cases ran
      exact refl _
    | none =>
      rw [scanned] at ran
      obtain ⟨u,opened,rest⟩ := Option.bind_eq_some_iff.mp ran
      exact trans s u t (pass s u accepted opened) (ih rest)

theorem searchRelated (R : ZoneSbi → ZoneSbi → Prop) (refl : ∀ s, R s s) (trans : ∀ s t u, R s t → R t u → R s u)
    (pass : ∀ s t accepted, openEmpty type accepted s = some t → R s t)
    (ran : getZone type answers s = some (t,zone)) : R s t := by
  unfold getZone at ran
  split at ran
  · cases answers with
    | nil => cases ran
    | cons accepted answers =>
      obtain ⟨u,opened,rest⟩ := Option.bind_eq_some_iff.mp ran
      exact trans s u t (pass s u accepted opened) (retryRelated R refl trans pass rest)
  · exact retryRelated R refl trans pass ran

end

theorem searchBlocks {s t : ZoneSbi} {type zone : Nat} {answers : List Bool} (ran : getZone type answers s = some (t,zone)) :
    SameBlocks s.zm t.zm :=
  searchRelated (fun s t => SameBlocks s.zm t.zm) (fun s => .refl s.zm) (fun _ _ _ => .trans)
    (fun _ _ _ opened => openEmptyBlocks opened) ran

/- The write has to look for a zone. -/
def Searches (zm : ZmInfo) (oldBlkaddr : Nat) : Prop :=
  zoneIsFull zm (zm.blk2zone oldBlkaddr) = true ∨ zm.blk2zone oldBlkaddr = 0

/- `alloc_zone` is a search at most, and the invalidation of the old block. -/
theorem allocZoneIs {s t : ZoneSbi} {type : PageType} {oldBlkaddr new : Nat} {answers : List Bool}
    (ran : allocZone .zoneAppend type oldBlkaddr answers s = some (t,new)) :
    ∃ u zone, t = { u with zm := invalidateBlkaddr u.zm oldBlkaddr } ∧ new = (u.zm.zoneInfo zone).start / 2 ^ pageSectorsShift ∧
      SameBlocks s.zm u.zm ∧ (Searches s.zm oldBlkaddr → getZone type.code answers s = some (u,zone)) ∧
      (¬Searches s.zm oldBlkaddr → u = s ∧ zone = s.zm.blk2zone oldBlkaddr) := by
  obtain ⟨⟨u,zone⟩,chosen,same⟩ := Option.map_eq_some_iff.mp ran
  cases same
  split at chosen
  · rename_i search
    exact ⟨_,_,rfl,rfl,searchBlocks chosen,fun _ => chosen,fun stay => absurd search stay⟩
  · rename_i stay
    cases chosen
    exact ⟨_,_,rfl,rfl,.refl _,fun search => absurd search stay,fun _ => ⟨rfl,rfl⟩⟩

theorem invalidateSame (zm : ZmInfo) (blkaddr zone : Nat) :
    ((invalidateBlkaddr zm blkaddr).zoneInfo zone).cond = (zm.zoneInfo zone).cond ∧
      ((invalidateBlkaddr zm blkaddr).zoneInfo zone).zoneType = (zm.zoneInfo zone).zoneType := by
  refine setZoneEach (fun z zi => zi.cond = (zm.zoneInfo z).cond ∧ zi.zoneType = (zm.zoneInfo z).zoneType) ?_ ?_ zone
  · exact fun _ => ⟨rfl,rfl⟩
  · exact ⟨rfl,rfl⟩

theorem laidSearch {s t : ZoneSbi} {type zone : Nat} {answers : List Bool} (ok : Laid s.zm)
    (ran : getZone type answers s = some (t,zone)) : Laid t.zm := laidBlocks ok (searchBlocks ran)

theorem slottedSearch {s t : ZoneSbi} {type zone : Nat} {answers : List Bool} (ok : Slotted s.zm)
    (ran : getZone type answers s = some (t,zone)) : Slotted t.zm :=
  searchRelated (fun s t => Slotted s.zm → Slotted t.zm) (fun _ ok => ok) (fun _ _ _ first second ok => second (first ok))
    (fun _ _ _ opened ok => slottedPass ok opened) ran ok

theorem retryListed {s t : ZoneSbi} {type zone : Nat} {answers : List Bool} (ok : Laid s.zm)
    (ran : retryZone type answers s = some (t,zone)) : some zone ∈ t.zm.zoneOpened ∧ (t.zm.zoneInfo zone).zoneType = type := by
  have picked : ∀ {u : ZoneSbi} {tar : Nat}, Laid u.zm → scanOpened u.zm type u.zm.zoneOpened longMax none = some tar →
      some (u.zm.zoneInfo tar).zoneId ∈ u.zm.zoneOpened ∧ (u.zm.zoneInfo (u.zm.zoneInfo tar).zoneId).zoneType = type := by
    intro u tar ok found
    rw [ok.zoneId tar]
    obtain bad | found := scanSound found
    · cases bad
    · exact found
  induction answers generalizing s with
  | nil =>
    obtain ⟨tar,found,same⟩ := Option.map_eq_some_iff.mp ran
    cases same
    exact picked ok found
  | cons accepted answers ih =>
    unfold retryZone at ran
    cases scanned : scanOpened s.zm type s.zm.zoneOpened longMax none with
    | some tar =>
      rw [scanned] at ran
      cases ran
      exact picked ok scanned
    | none =>
      rw [scanned] at ran
      obtain ⟨u,opened,rest⟩ := Option.bind_eq_some_iff.mp ran
      exact ih (laidPass ok opened) rest

theorem searchListed {s t : ZoneSbi} {type zone : Nat} {answers : List Bool} (ok : Laid s.zm)
    (ran : getZone type answers s = some (t,zone)) : some zone ∈ t.zm.zoneOpened ∧ (t.zm.zoneInfo zone).zoneType = type := by
  unfold getZone at ran
  split at ran
  · cases answers with
    | nil => cases ran
    | cons accepted answers =>
      obtain ⟨u,opened,rest⟩ := Option.bind_eq_some_iff.mp ran
      exact retryListed (laidPass ok opened) rest
  · exact retryListed ok ran

theorem insertZoneMem {zone other : Nat} {list : List (Option Nat)} (listed : some other ∈ (insertZone zone list).1) :
    other = zone ∨ some other ∈ list := by
  induction list with
  | nil => cases listed
  | cons entry rest ih =>
    cases entry with
    | none =>
      obtain same | later := List.mem_cons.mp listed
      · exact .inl (Option.some.inj same)
      · exact .inr (List.mem_cons_of_mem _ later)
    | some z =>
      obtain same | later := List.mem_cons.mp listed
      · exact .inr (same ▸ List.mem_cons_self)
      · exact (ih later).imp_right (List.mem_cons_of_mem _)

/- The zone is as before, and not newly listed. -/
def Untouched (zm other : ZmInfo) (zone : Nat) : Prop :=
  (other.zoneInfo zone).cond = (zm.zoneInfo zone).cond ∧ (other.zoneInfo zone).zoneType = (zm.zoneInfo zone).zoneType ∧
    (some zone ∈ other.zoneOpened → some zone ∈ zm.zoneOpened)

theorem untouchedTrans {zm mid other : ZmInfo} {zone : Nat} (first : Untouched zm mid zone) (second : Untouched mid other zone) :
    Untouched zm other zone :=
  ⟨second.1.trans first.1,second.2.1.trans first.2.1,fun listed => first.2.2 (second.2.2 listed)⟩

theorem passUntouched {s t : ZoneSbi} {type zone : Nat} {accepted : Bool} (ran : openEmpty type accepted s = some t)
    (other : zone ≠ getEmptyZone s.zm) : Untouched s.zm t.zm zone := by
  obtain ⟨same,_⟩ | ⟨_,zm,nrType,opened,same⟩ := openEmptyIs ran
  · rw [same]
    exact ⟨rfl,rfl,id⟩
  · have kept : zm.zoneInfo zone = s.zm.zoneInfo zone ∧ (some zone ∈ zm.zoneOpened → some zone ∈ s.zm.zoneOpened) := by
      rw [opened]
      unfold xcpfsZoneOpen
      dsimp only
      split
      · exact ⟨rfl,id⟩
      · split
        · exact ⟨rfl,id⟩
        · split
          · exact ⟨rfl,id⟩
          · split
            · exact ⟨rfl,id⟩
            · split
              · exact ⟨Function.update_of_ne other ..,fun listed => (insertZoneMem listed).resolve_left other⟩
              · exact ⟨Function.update_of_ne other ..,fun listed => (insertZoneMem listed).resolve_left other⟩
    have info : t.zm.zoneInfo zone = s.zm.zoneInfo zone := by
      rw [same]
      exact (Function.update_of_ne other ..).trans kept.1
    refine ⟨by rw [info],by rw [info],?_⟩
    rw [same]
    exact kept.2

/- Where a search may open a zone: an empty one from 2 on, zone 0 when there is none. -/
def OpenPlace (zm : ZmInfo) (zone : Nat) : Prop :=
  2 ≤ zone ∧ (zm.zoneInfo zone).cond = .empty ∨ zone = 0 ∧ ¬HasEmpty zm

theorem openPlace {zm : ZmInfo} (ok : Laid zm) : OpenPlace zm (getEmptyZone zm) := by
  by_cases has : HasEmpty zm
  · obtain ⟨low,_,empty⟩ := getEmptyFound ok has
    exact .inl ⟨low,empty⟩
  · exact .inr ⟨getEmptyMissing has,has⟩

/- Whatever the passes find, a search changes zone 0 and zones that were empty. -/
theorem searchTouches {s t : ZoneSbi} {type zone : Nat} {answers : List Bool} (ok : Laid s.zm)
    (ran : getZone type answers s = some (t,zone)) (z : Nat) (other : z ≠ 0) :
    Untouched s.zm t.zm z ∨ 2 ≤ z ∧ (s.zm.zoneInfo z).cond = .empty := by
  refine (searchRelated (fun s t => Laid s.zm → Laid t.zm ∧
    ∀ z ≠ 0, Untouched s.zm t.zm z ∨ 2 ≤ z ∧ (s.zm.zoneInfo z).cond = .empty) ?_ ?_ ?_ ran ok).2 z other
  · exact fun s ok => ⟨ok,fun _ _ => .inl ⟨rfl,rfl,id⟩⟩
  · intro s u t first second ok
    obtain ⟨mid,early⟩ := first ok
    obtain ⟨last,late⟩ := second mid
    refine ⟨last,fun z other => ?_⟩
    obtain kept | empty := early z other
    · obtain still | ⟨low,empty⟩ := late z other
      · exact .inl (untouchedTrans kept still)
      · exact .inr ⟨low,kept.1.symm.trans empty⟩
    · exact .inr empty
  · intro s t accepted opened ok
    refine ⟨laidPass ok opened,fun z other => ?_⟩
    by_cases here : z = getEmptyZone s.zm
    · rw [here]
      obtain empty | ⟨zero,_⟩ := openPlace ok
      · exact .inr empty
      · exact absurd (here.trans zero) other
    · exact .inl (passUntouched opened here)

theorem passReady {s t : ZoneSbi} {type : Nat} {accepted : Bool} (ok : Laid s.zm) (slotted : Slotted s.zm) (has : HasEmpty s.zm)
    (ran : openEmpty type accepted s = some t) : HasEmpty t.zm ∨ Selectable type t.zm := by
  obtain ⟨same,_⟩ | ⟨room,zm,nrType,opened,same⟩ := openEmptyIs ran
  · rw [same]
    exact .inl has
  · obtain ⟨low,high,empty⟩ := getEmptyFound ok has
    have typed : t.zm.zoneInfo (getEmptyZone s.zm) = { zm.zoneInfo (getEmptyZone s.zm) with zoneType := type } := by
      rw [same]
      exact Function.update_self ..
    obtain refused | listed := openCases s.zm (getEmptyZone s.zm) accepted empty
    · left
      refine ⟨getEmptyZone s.zm,low,?_,?_⟩
      · rw [same]
        change getEmptyZone s.zm < zm.nrZones
        rw [opened,refused]
        exact high
      · rw [typed,opened,refused]
        exact empty
    · right
      refine ⟨getEmptyZone s.zm,?_,by rw [typed]⟩
      rw [same]
      change some (getEmptyZone s.zm) ∈ zm.zoneOpened
      rw [opened,listed]
      have slots := slotted.slots
      have counted := slotted.counted
      exact insertZoneFound (getEmptyZone s.zm) (by omega)

theorem passThenPlaces {s t u : ZoneSbi} {type zone : Nat} {accepted : Bool} {answers : List Bool} (ok : Laid s.zm)
    (slotted : Slotted s.zm) (pointed : Pointed s.zm) (opened : openEmpty type accepted s = some u) (rest : retryZone type answers u = some (t,zone))
    (later : ∀ zone, Untouched u.zm t.zm zone ∨ OpenPlace u.zm zone) (z : Nat) :
    Untouched s.zm t.zm z ∨ OpenPlace s.zm z := by
  by_cases here : z = getEmptyZone s.zm
  · rw [here]
    exact .inr (openPlace ok)
  · have kept := passUntouched opened here
    obtain quiet | ⟨low,empty⟩ | ⟨zero,none_⟩ := later z
    · exact .inl (untouchedTrans kept quiet)
    · exact .inr (.inl ⟨low,kept.1.symm.trans empty⟩)
    · by_cases has : HasEmpty s.zm
      · obtain still | ⟨tar,listed,typed⟩ := passReady ok slotted has opened
        · exact absurd still none_
        · -- the zone just opened is found by the next scan
          have found := scanFinds (laidScannable (laidPass ok opened) (pointedBlocks pointed (openEmptyBlocks opened))) listed typed
          cases answers with
          | nil =>
            obtain ⟨_,_,same⟩ := Option.map_eq_some_iff.mp rest
            cases same
            exact .inl kept
          | cons accepted answers =>
            unfold retryZone at rest
            cases scanned : scanOpened u.zm type u.zm.zoneOpened longMax none with
            | some tar =>
              rw [scanned] at rest
              cases rest
              exact .inl kept
            | none =>
              rw [scanned] at found
              cases found
      · exact .inr (.inr ⟨zero,has⟩)

theorem retryPlaces {s t : ZoneSbi} {type zone : Nat} {answers : List Bool} (ok : Laid s.zm) (slotted : Slotted s.zm)
    (pointed : Pointed s.zm) (ran : retryZone type answers s = some (t,zone)) (z : Nat) : Untouched s.zm t.zm z ∨ OpenPlace s.zm z := by
  induction answers generalizing s z with
  | nil =>
    obtain ⟨_,_,same⟩ := Option.map_eq_some_iff.mp ran
    cases same
    exact .inl ⟨rfl,rfl,id⟩
  | cons accepted answers ih =>
    unfold retryZone at ran
    cases scanned : scanOpened s.zm type s.zm.zoneOpened longMax none with
    | some tar =>
      rw [scanned] at ran
      cases ran
      exact .inl ⟨rfl,rfl,id⟩
    | none =>
      rw [scanned] at ran
      obtain ⟨u,opened,rest⟩ := Option.bind_eq_some_iff.mp ran
      exact passThenPlaces ok slotted pointed opened rest
        (fun zone => ih (laidPass ok opened) (slottedPass slotted opened) (pointedBlocks pointed (openEmptyBlocks opened)) rest zone) z

/- A search touches only zones it may open, when the scan cannot miss the zone a pass has opened. -/
theorem searchPlaces {s t : ZoneSbi} {type zone : Nat} {answers : List Bool} (ok : Laid s.zm) (slotted : Slotted s.zm)
    (pointed : Pointed s.zm) (ran : getZone type answers s = some (t,zone)) (z : Nat) : Untouched s.zm t.zm z ∨ OpenPlace s.zm z := by
  unfold getZone at ran
  split at ran
  · cases answers with
    | nil => cases ran
    | cons accepted answers =>
      obtain ⟨u,opened,rest⟩ := Option.bind_eq_some_iff.mp ran
      exact passThenPlaces ok slotted pointed opened rest (fun zone => retryPlaces (laidPass ok opened) (slottedPass slotted opened)
        (pointedBlocks pointed (openEmptyBlocks opened)) rest zone) z
  · exact retryPlaces ok slotted pointed ran z

end Xcpfs
