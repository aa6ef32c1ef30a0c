import Mathlib.Data.Set.Basic

/-! A map of marks over cells, beside the references into them. A reference leaves its cell,
lands in a cell that was never used, or is dropped. The marks keep to the cells that are
referred to, as long as no two references share one. -/
namespace RefMarks

variable {R A : Type*}

structure Marks (R A : Type*) where
  cell : R → Option A
  moving : Set R
  marked : Set A
  used : Set A

/- The marks are accounted for in `scope` only; a moving reference has left its cell. -/
structure Sound (scope : Set A) (m : Marks R A) : Prop where
  single : ∀ r s a, m.cell r = some a → m.cell s = some a → r = s
  filled : ∀ r a, m.cell r = some a → a ∈ m.used
  exact : ∀ a ∈ scope, (a ∈ m.marked ↔ ∃ r, m.cell r = some a ∧ r ∉ m.moving)

structure Leaves (scope : Set A) (r : R) (m n : Marks R A) : Prop where
  cell : n.cell = m.cell
  moving : ∀ s, s ∈ n.moving ↔ s = r ∨ s ∈ m.moving
  used : n.used = m.used
  marked : ∀ a ∈ scope, (a ∈ n.marked ↔ a ∈ m.marked ∧ m.cell r ≠ some a)

structure Lands (scope : Set A) (r : R) (a : A) (m n : Marks R A) : Prop where
  moved : r ∈ m.moving
  fresh : a ∉ m.used
  here : n.cell r = some a
  others : ∀ s, s ≠ r → n.cell s = m.cell s
  moving : ∀ s, s ∈ n.moving ↔ s ∈ m.moving ∧ s ≠ r
  used : ∀ b, b ∈ n.used ↔ b = a ∨ b ∈ m.used
  marked : ∀ b ∈ scope, (b ∈ n.marked ↔ b = a ∨ b ∈ m.marked)

/- The cells that lose their mark are those a dropped reference was in. -/
structure Drops (scope : Set A) (dropped : Set R) (m n : Marks R A) : Prop where
  gone : ∀ r ∈ dropped, n.cell r = none
  kept : ∀ r, r ∉ dropped → n.cell r = m.cell r
  moving : ∀ r, r ∉ dropped → (r ∈ n.moving ↔ r ∈ m.moving)
  used : n.used = m.used
  marked : ∀ a ∈ scope, (a ∈ n.marked ↔ a ∈ m.marked ∧ ¬∃ r ∈ dropped, m.cell r = some a ∧ r ∉ m.moving)

section
variable {scope : Set A} {m n : Marks R A} {r : R} {a : A}

theorem soundLeaves (sound : Sound scope m) (leaves : Leaves scope r m n) : Sound scope n where
  single := by
    rw [leaves.cell]
    exact sound.single
  filled := by
    rw [leaves.cell,leaves.used]
    exact sound.filled
  exact b inside := by
    rw [leaves.marked b inside,sound.exact b inside,leaves.cell]
    constructor
    · rintro ⟨⟨s,here,still⟩,apart⟩
      refine ⟨s,here,fun moving => ?_⟩
      rcases (leaves.moving s).mp moving with rfl | before
      · exact apart here
      · exact still before
    · rintro ⟨s,here,still⟩
      refine ⟨⟨s,here,fun before => still ((leaves.moving s).mpr (.inr before))⟩,fun also => ?_⟩
      exact still ((leaves.moving s).mpr (.inl (sound.single s r b here also)))

theorem soundLands (sound : Sound scope m) (lands : Lands scope r a m n) : Sound scope n := by
  have old : ∀ s b, n.cell s = some b → s = r ∧ b = a ∨ s ≠ r ∧ m.cell s = some b := by
    intro s b here
    by_cases same : s = r
    · subst same
      exact .inl ⟨rfl,Option.some.inj (here.symm.trans lands.here)⟩
    · exact .inr ⟨same,(lands.others s same).symm.trans here⟩
  refine ⟨fun s u b left right => ?_,fun s b here => ?_,fun b inside => ?_⟩
  · rcases old s b left with ⟨rfl,rfl⟩ | ⟨_,left⟩
    · rcases old u b right with ⟨rfl,_⟩ | ⟨_,right⟩
      · rfl
      · exact absurd (sound.filled u b right) lands.fresh
    · rcases old u b right with ⟨_,rfl⟩ | ⟨_,right⟩
      · exact absurd (sound.filled s b left) lands.fresh
      · exact sound.single s u b left right
  · rcases old s b here with ⟨_,same⟩ | ⟨_,before⟩
    · exact (lands.used b).mpr (.inl same)
    · exact (lands.used b).mpr (.inr (sound.filled s b before))
  · rw [lands.marked b inside,sound.exact b inside]
    constructor
    · rintro (rfl | ⟨s,here,still⟩)
      · exact ⟨r,lands.here,fun moving => ((lands.moving r).mp moving).2 rfl⟩
      · have other : s ≠ r := by
          rintro rfl
          exact still lands.moved
        exact ⟨s,(lands.others s other).trans here,fun moving => still ((lands.moving s).mp moving).1⟩
    · rintro ⟨s,here,still⟩
      rcases old s b here with ⟨_,same⟩ | ⟨other,before⟩
      · exact .inl same
      · exact .inr ⟨s,before,fun moving => still ((lands.moving s).mpr ⟨moving,other⟩)⟩

theorem soundDrops {dropped : Set R} (sound : Sound scope m) (drops : Drops scope dropped m n) : Sound scope n := by
  have old : ∀ s b, n.cell s = some b → s ∉ dropped ∧ m.cell s = some b := by
    intro s b here
    by_cases member : s ∈ dropped
    · rw [drops.gone s member] at here
      contradiction
    · exact ⟨member,(drops.kept s member).symm.trans here⟩
  refine ⟨fun s u b left right => ?_,fun s b here => ?_,fun b inside => ?_⟩
  · exact sound.single s u b (old s b left).2 (old u b right).2
  · rw [drops.used]
    exact sound.filled s b (old s b here).2
  · rw [drops.marked b inside,sound.exact b inside]
    constructor
    · rintro ⟨⟨s,here,still⟩,apart⟩
      have member : s ∉ dropped := fun member => apart ⟨s,member,here,still⟩
      exact ⟨s,(drops.kept s member).trans here,fun moving => still ((drops.moving s member).mp moving)⟩
    · rintro ⟨s,here,still⟩
      obtain ⟨member,before⟩ := old s b here
      refine ⟨⟨s,before,fun moving => still ((drops.moving s member).mpr moving)⟩,?_⟩
      rintro ⟨u,gone,also,_⟩
      rw [sound.single s u b before also] at member
      exact member gone

theorem soundSame (sound : Sound scope m) (cell : n.cell = m.cell) (moving : ∀ r, r ∈ n.moving ↔ r ∈ m.moving)
    (used : n.used = m.used) (marked : ∀ a ∈ scope, (a ∈ n.marked ↔ a ∈ m.marked)) : Sound scope n := by
  have none_ : Drops scope ∅ m n := by
    refine ⟨fun r bad => bad.elim,fun r _ => congrFun cell r,fun r _ => moving r,used,fun a inside => ?_⟩
    rw [marked a inside]
    exact ⟨fun here => ⟨here,fun ⟨r,bad,_⟩ => bad.elim⟩,fun both => both.1⟩
  exact soundDrops sound none_

theorem soundRest (sound : Sound scope m) (rest : ∀ r, r ∉ m.moving) {a : A} (inside : a ∈ scope) :
    a ∈ m.marked ↔ ∃ r, m.cell r = some a := by
  rw [sound.exact a inside]
  exact ⟨fun ⟨r,here,_⟩ => ⟨r,here⟩,fun ⟨r,here⟩ => ⟨r,here,rest r⟩⟩

end
end RefMarks
