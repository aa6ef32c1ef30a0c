import Xcpfs.ZoneAlloc

/-! The zone `get_zone` picks among the open ones, beside the least filled one. The scan
compares how far a zone is filled and remembers where its fill ends, so it passes over any
later zone that is fuller than the end of the last one it took. -/
namespace Xcpfs

def ZoneInfo.fill (zi : ZoneInfo) : Nat := zi.wp + zi.writeInflight - zi.start

/- The write pointer is not before the start, and what is in flight ends at a sector. -/
def SlotsFit (zm : ZmInfo) (slots : List (Option Nat)) : Prop :=
  ∀ zone, some zone ∈ slots → (zm.zoneInfo zone).start ≤ (zm.zoneInfo zone).wp ∧
    (zm.zoneInfo zone).wp + (zm.zoneInfo zone).writeInflight < 2 ^ 64

/- The open zones carry their own numbers, and their sectors fit. -/
structure FillsFit (zm : ZmInfo) : Prop where
  zoneId : ∀ zone, some zone ∈ zm.zoneOpened → (zm.zoneInfo zone).zoneId = zone
  slots : SlotsFit zm zm.zoneOpened

structure LeastFilled (zm : ZmInfo) (type zone : Nat) : Prop where
  listed : some zone ∈ zm.zoneOpened
  typed : (zm.zoneInfo zone).zoneType = type
  least : ∀ other, some other ∈ zm.zoneOpened → (zm.zoneInfo other).zoneType = type →
    (zm.zoneInfo zone).fill ≤ (zm.zoneInfo other).fill

/- Some slot holds a least filled zone, and every zone of the type in a later slot is filled
at least as far as that zone's end, counted from sector 0. -/
def LeastSettles (zm : ZmInfo) (type : Nat) : Prop :=
  ∃ before zone after, zm.zoneOpened = before ++ some zone :: after ∧ LeastFilled zm type zone ∧
    ∀ other, some other ∈ after → (zm.zoneInfo other).zoneType = type →
      (zm.zoneInfo zone).wp + (zm.zoneInfo zone).writeInflight ≤ (zm.zoneInfo other).fill

section
variable {zm : ZmInfo} {s t : ZoneSbi} {type zone : Nat} {list : List (Option Nat)} {inflight : Nat} {tar : Option Nat}

theorem slotsTail {entry : Option Nat} (fit : SlotsFit zm (entry :: list)) : SlotsFit zm list :=
  fun zone member => fit zone (List.mem_cons_of_mem entry member)

theorem scanStep (zone : Nat) (fit : SlotsFit zm (some zone :: list)) :
    scanOpened zm type (some zone :: list) inflight tar =
      if (zm.zoneInfo zone).zoneType = type ∧ (zm.zoneInfo zone).fill < inflight then
        scanOpened zm type list ((zm.zoneInfo zone).wp + (zm.zoneInfo zone).writeInflight) (some zone)
      else scanOpened zm type list inflight tar := by
  obtain ⟨start,sector⟩ := fit zone List.mem_cons_self
  have compared : ((zm.zoneInfo zone).wp + (zm.zoneInfo zone).writeInflight + 2 ^ 64 - (zm.zoneInfo zone).start) % 2 ^ 64 =
      (zm.zoneInfo zone).fill := by
    unfold ZoneInfo.fill
    omega
  simp only [scanOpened]
  rw [compared,Nat.mod_eq_of_lt sector]

theorem scanPasses (fit : SlotsFit zm list)
    (fuller : ∀ other, some other ∈ list → (zm.zoneInfo other).zoneType = type → inflight ≤ (zm.zoneInfo other).fill) :
    scanOpened zm type list inflight tar = tar := by
  induction list with
  | nil => rfl
  | cons entry rest ih =>
    have later := ih (slotsTail fit) fun other member => fuller other (List.mem_cons_of_mem _ member)
    cases entry with
    | none => exact later
    | some zone =>
      rw [scanStep zone fit,if_neg ?_]
      · exact later
      · intro ⟨typed,less⟩
        exact absurd (fuller zone List.mem_cons_self typed) (Nat.not_le.mpr less)

theorem scanLast (fit : SlotsFit zm list)
    (found : scanOpened zm type list inflight tar = some zone) :
    (tar = some zone ∧ ∀ other, some other ∈ list → (zm.zoneInfo other).zoneType = type → inflight ≤ (zm.zoneInfo other).fill) ∨
      ∃ before after, list = before ++ some zone :: after ∧ ∀ other, some other ∈ after → (zm.zoneInfo other).zoneType = type →
        (zm.zoneInfo zone).wp + (zm.zoneInfo zone).writeInflight ≤ (zm.zoneInfo other).fill := by
  induction list generalizing inflight tar with
  | nil =>
    refine .inl ⟨found,fun other member => ?_⟩
    cases member
  | cons entry rest ih =>
    have tail := slotsTail fit
    cases entry with
    | none =>
      rcases ih tail found with ⟨same,fuller⟩ | ⟨before,after,split_,fuller⟩
      · refine .inl ⟨same,fun other member typed => ?_⟩
        obtain bad | member := List.mem_cons.mp member
        · cases bad
        · exact fuller other member typed
      · exact .inr ⟨none :: before,after,congrArg (none :: ·) split_,fuller⟩
    | some z =>
      rw [scanStep z fit] at found
      split at found
      · rcases ih tail found with ⟨same,fuller⟩ | ⟨before,after,split_,fuller⟩
        · cases same
          exact .inr ⟨[],rest,rfl,fuller⟩
        · exact .inr ⟨some z :: before,after,congrArg (some z :: ·) split_,fuller⟩
      · rename_i skipped
        rcases ih tail found with ⟨same,fuller⟩ | ⟨before,after,split_,fuller⟩
        · refine .inl ⟨same,fun other member typed => ?_⟩
          obtain here | member := List.mem_cons.mp member
          · cases here
            exact Nat.not_lt.mp fun less => skipped ⟨typed,less⟩
          · exact fuller other member typed
        · exact .inr ⟨some z :: before,after,congrArg (some z :: ·) split_,fuller⟩

/- A zone no later one undercuts is taken, unless one filled no more is kept. -/
theorem scanSettles {i : Nat} {before after : List (Option Nat)} (listed : list = before ++ some i :: after)
    (fit : SlotsFit zm list)
    (typed : (zm.zoneInfo i).zoneType = type)
    (fuller : ∀ other, some other ∈ after → (zm.zoneInfo other).zoneType = type →
      (zm.zoneInfo i).wp + (zm.zoneInfo i).writeInflight ≤ (zm.zoneInfo other).fill)
    (kept : ∀ k, tar = some k → (zm.zoneInfo k).fill ≤ inflight)
    (found : scanOpened zm type list inflight tar = some zone) : (zm.zoneInfo zone).fill ≤ (zm.zoneInfo i).fill := by
  have ends : ∀ k, (zm.zoneInfo k).fill ≤ (zm.zoneInfo k).wp + (zm.zoneInfo k).writeInflight := fun k => Nat.sub_le _ _
  induction before generalizing list inflight tar with
  | nil =>
    subst listed
    have tail : SlotsFit zm after := slotsTail fit
    rw [List.nil_append,scanStep i fit] at found
    split at found
    · rw [scanPasses tail fuller] at found
      cases found
      exact le_refl _
    · rename_i skipped
      have fullest : inflight ≤ (zm.zoneInfo i).fill := Nat.not_lt.mp fun less => skipped ⟨typed,less⟩
      rw [scanPasses tail fun other member type_ => (fullest.trans (ends i)).trans (fuller other member type_)] at found
      exact (kept zone found).trans fullest
  | cons entry before ih =>
    subst listed
    have tail : SlotsFit zm (before ++ some i :: after) := slotsTail fit
    cases entry with
    | none => exact ih rfl tail kept found
    | some z =>
      rw [List.cons_append] at fit found
      rw [scanStep z fit] at found
      split at found
      · refine ih rfl tail (fun k same => ?_) found
        cases same
        exact ends z
      · exact ih rfl tail kept found

/- `get_zone` returns the number of the zone the last scan took. -/
theorem getZonePicks {answers : List Bool} (picked : getZone type answers s = some (t,zone)) :
    ∃ tar, scanOpened t.zm type t.zm.zoneOpened longMax none = some tar ∧ zone = (t.zm.zoneInfo tar).zoneId := by
  have retried : ∀ {answers : List Bool} {s : ZoneSbi}, retryZone type answers s = some (t,zone) →
      ∃ tar, scanOpened t.zm type t.zm.zoneOpened longMax none = some tar ∧ zone = (t.zm.zoneInfo tar).zoneId := by
    intro answers
    induction answers with
    | nil =>
      intro s ran
      obtain ⟨tar,found,same⟩ := Option.map_eq_some_iff.mp ran
      cases same
      exact ⟨tar,found,rfl⟩
    | cons accepted answers ih =>
      intro s ran
      unfold retryZone at ran
      split at ran
      · rename_i tar found
        cases ran
        exact ⟨tar,found,rfl⟩
      · obtain ⟨u,_,rest⟩ := Option.bind_eq_some_iff.mp ran
        exact ih rest
  unfold getZone at picked
  split at picked
  · split at picked
    · cases picked
    · obtain ⟨u,_,rest⟩ := Option.bind_eq_some_iff.mp picked
      exact retried rest
  · exact retried picked

/-- The zone is a least filled one if and only if a least filled zone comes so late that no
zone of the type after it is filled less than its end. -/
theorem pickLeast {answers : List Bool} (fit : FillsFit t.zm) (picked : getZone type answers s = some (t,zone)) :
    LeastFilled t.zm type zone ↔ LeastSettles t.zm type := by
  obtain ⟨tar,found,same⟩ := getZonePicks picked
  obtain bad | ⟨listed,typed⟩ := scanSound found
  · cases bad
  rw [fit.zoneId tar listed] at same
  subst same
  constructor
  · intro least
    obtain ⟨bad,_⟩ | ⟨before,after,split_,fuller⟩ := scanLast fit.slots found
    · cases bad
    · exact ⟨before,zone,after,split_,least,fuller⟩
  · intro ⟨before,i,after,split_,least,fuller⟩
    have less := scanSettles split_ fit.slots least.typed fuller (fun k same => by cases same) found
    exact ⟨listed,typed,fun other member type_ => less.trans (least.least other member type_)⟩

end

/- Two open zones of 512 sectors, each filled to the given sector. -/
def filledZones (first second : Nat) : ZoneSbi where
  zm :=
    { zoneSize := 512, zoneCapacity := 512, nrZones := 4, maxOpenZones := 2, maxActiveZones := 2,
      nrType := fun _ => 2, limitType := fun _ => 2, zoneOpenedCount := 2, zoneOpened := [some 2,some 3],
      zoneActiveCount := 2, zoneActive := [some 2,some 3],
      zoneInfo := fun zone =>
        { zoneId := zone, cond := .impOpen, start := zone * 512, wp := zone * 512 + if zone = 2 then first else second,
          writeInflight := 0, dirty := false, zoneType := 4, vblocks := 0, validMap := fun _ => false } }
  cpSemLocked := false
  cpcRestart := none

theorem filledFit {first second : Nat} (one : first < 512) (two : second < 512) : FillsFit (filledZones first second).zm where
  zoneId := fun zone member => rfl
  slots := by
    intro zone member
    have range : zone = 2 ∨ zone = 3 := by simpa [filledZones] using member
    rcases range with rfl | rfl
    · exact ⟨Nat.le_add_right _ _,show 2 * 512 + first + 0 < 2 ^ 64 by omega⟩
    · exact ⟨Nat.le_add_right _ _,show 3 * 512 + second + 0 < 2 ^ 64 by omega⟩

/-- The later zone is the less filled one. -/
theorem pickLeastLater : LeastFilled (filledZones 16 8).zm 4 3 := by
  have picked : getZone 4 [] (filledZones 16 8) = some (filledZones 16 8,3) := rfl
  refine (pickLeast (filledFit (by decide) (by decide)) picked).mpr ⟨[some 2],3,[],rfl,⟨by decide,rfl,?_⟩,fun other member => ?_⟩
  · intro other member typed
    have range : other = 2 ∨ other = 3 := by simpa [filledZones] using member
    rcases range with rfl | rfl <;> decide
  · cases member

/-- The fuller of two zones is picked: 16 sectors are less than sector 1032, where the other zone's 8 end. -/
theorem pickFuller : getZone 4 [] (filledZones 8 16) = some (filledZones 8 16,3) ∧ ¬LeastFilled (filledZones 8 16).zm 4 3 := by
  refine ⟨rfl,fun least => ?_⟩
  have less := least.least 2 (by decide) rfl
  exact absurd less (by decide)

end Xcpfs
