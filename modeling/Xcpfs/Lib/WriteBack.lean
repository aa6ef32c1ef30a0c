import Mathlib.Data.Set.Basic

/-! Values in memory over blocks that are filled once. A value is changed in memory, stored in a
new block some time later, and may leave the memory then. -/
namespace WriteBack

variable {K A V : Type*}

structure Store (K A V : Type*) where
  cell : K → Option A
  block : A → V
  held : K → Option V
  filled : Set A

def Store.stored (blank : V) (s : Store K A V) (k : K) : V := (s.cell k).elim blank s.block

def Store.value (blank : V) (s : Store K A V) (k : K) : V := (s.held k).getD (s.stored blank k)

/- A value that is not `ahead` of its block is what the block holds. -/
structure Sound (blank : V) (ahead : Prop) (s : Store K A V) (k : K) : Prop where
  filled : ∀ a, s.cell k = some a → a ∈ s.filled
  clean : ¬ahead → ∀ v, s.held k = some v → v = s.stored blank k

structure Appends (s t : Store K A V) : Prop where
  filled : ∀ a ∈ s.filled, a ∈ t.filled
  block : ∀ a ∈ s.filled, t.block a = s.block a

section
variable {blank v : V} {before after : Prop} {s t u : Store K A V} {k : K} {a : A}

theorem appendsRefl (s : Store K A V) : Appends s s := ⟨fun _ => id,fun _ _ => rfl⟩

theorem cellKept (sound : Sound blank before s k) (appends : Appends s t) (cell : t.cell k = s.cell k) :
    (∀ a, t.cell k = some a → a ∈ t.filled) ∧ t.stored blank k = s.stored blank k := by
  refine ⟨fun a here => appends.filled a (sound.filled a (cell ▸ here)),?_⟩
  unfold Store.stored
  rw [cell]
  cases here : s.cell k with
  | none => rfl
  | some a => exact appends.block a (sound.filled a here)

theorem valueKept (sound : Sound blank before s k) (appends : Appends s t) (cell : t.cell k = s.cell k)
    (held : t.held k = s.held k) (still : before → after) : Sound blank after t k ∧ t.value blank k = s.value blank k := by
  obtain ⟨filled,stored⟩ := cellKept sound appends cell
  refine ⟨⟨filled,fun level v here => ?_⟩,?_⟩
  · rw [held] at here
    rw [stored]
    exact sound.clean (fun ahead => level (still ahead)) v here
  · unfold Store.value
    rw [held,stored]

theorem valueLoaded (sound : Sound blank before s k) (appends : Appends s t) (cell : t.cell k = s.cell k)
    (absent : s.held k = none) (held : t.held k = some (s.stored blank k)) :
    Sound blank after t k ∧ t.value blank k = s.value blank k := by
  obtain ⟨filled,stored⟩ := cellKept sound appends cell
  refine ⟨⟨filled,fun _ v here => ?_⟩,?_⟩
  · rw [stored]
    exact Option.some.inj (here.symm.trans held)
  · unfold Store.value
    rw [held,absent]
    rfl

theorem valuePut (sound : Sound blank before s k) (appends : Appends s t) (cell : t.cell k = s.cell k)
    (held : t.held k = some v) (ahead : after) : Sound blank after t k ∧ t.value blank k = v := by
  refine ⟨⟨(cellKept sound appends cell).1,fun level => absurd ahead level⟩,?_⟩
  unfold Store.value
  rw [held]
  rfl

theorem valueLanded (before : s.held k = some v) (held : t.held k = some v) (cell : t.cell k = some a) (filled : a ∈ t.filled)
    (block : t.block a = v) : Sound blank after t k ∧ t.value blank k = s.value blank k := by
  have stored : t.stored blank k = v := by
    unfold Store.stored
    rw [cell]
    exact block
  refine ⟨⟨fun b there => Option.some.inj (cell.symm.trans there) ▸ filled,fun _ w here => ?_⟩,?_⟩
  · rw [stored]
    exact Option.some.inj (here.symm.trans held)
  · unfold Store.value
    rw [held,before]
    rfl

theorem valueDropped (sound : Sound blank before s k) (level : ¬before) (appends : Appends s t) (cell : t.cell k = s.cell k)
    (held : t.held k = none) : Sound blank after t k ∧ t.value blank k = s.value blank k := by
  obtain ⟨filled,stored⟩ := cellKept sound appends cell
  refine ⟨⟨filled,fun _ v here => by rw [held] at here; contradiction⟩,?_⟩
  unfold Store.value
  rw [held,stored]
  cases here : s.held k with
  | none => rfl
  | some v => exact (sound.clean level v here).symm

theorem valueCleared (cell : t.cell k = none) (held : t.held k = none) : Sound blank after t k ∧ t.value blank k = blank := by
  refine ⟨⟨fun a here => by rw [cell] at here; contradiction,fun _ v here => by rw [held] at here; contradiction⟩,?_⟩
  unfold Store.value Store.stored
  rw [held,cell]
  rfl

end

end WriteBack
