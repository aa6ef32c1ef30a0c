import Mathlib.Data.Set.Basic
import Mathlib.Data.List.Induction

/-! Forests held together by stored pointers. A node is reached from a root by
following keys; ownership says that no node is reached in two ways. Everything
is stated for paths of a given shape, so that a store may keep other words in
cells that would be keys elsewhere. -/
namespace PointerForest

variable {N K : Type*}

def follow (child : N → K → Option N) : N → List K → Option N
  | n, [] => some n
  | n, k :: ks => (child n k).bind (fun m => follow child m ks)

theorem followAppend (child : N → K → Option N) (n : N) (p q : List K) :
    follow child n (p ++ q) = (follow child n p).bind (fun m => follow child m q) := by
  induction p generalizing n with
  | nil => rfl
  | cons k ks ih =>
    simp only [List.cons_append,follow,Option.bind_assoc]
    congr 1
    funext m
    exact ih m

theorem followConcat (child : N → K → Option N) (n : N) (p : List K) (k : K) :
    follow child n (p ++ [k]) = (follow child n p).bind (fun m => child m k) := by
  rw [followAppend]
  congr 1
  funext m
  simp only [follow]
  cases child m k <;> rfl

theorem followLast {child : N → K → Option N} {r x : N} {p : List K} {k : K}
    (path : follow child r (p ++ [k]) = some x) :
    ∃ n, follow child r p = some n ∧ child n k = some x := by
  rw [followConcat] at path
  exact Option.bind_eq_some_iff.mp path

/- Shapes are closed under dropping the last key. -/
structure Shape (K : Type*) where
  valid : List K → Prop
  root : valid []
  parent : ∀ p k, valid (p ++ [k]) → valid p

def Owned (shape : Shape K) (roots : Set N) (child : N → K → Option N) : Prop :=
  ∀ r ∈ roots, ∀ s ∈ roots, ∀ p q n, shape.valid p → shape.valid q →
    follow child r p = some n → follow child s q = some n → r = s ∧ p = q

def Extends (shape : Shape K) (roots : Set N) (child next : N → K → Option N) : Prop :=
  ∀ r ∈ roots, ∀ p n, shape.valid p → follow child r p = some n → follow next r p = some n

def Reached (shape : Shape K) (roots : Set N) (child : N → K → Option N) (n : N) : Prop :=
  ∃ r ∈ roots, ∃ p, shape.valid p ∧ follow child r p = some n

section
variable {shape : Shape K} {roots : Set N} {child next last : N → K → Option N}

theorem extendsRefl : Extends shape roots child child := fun _ _ _ _ _ h => h

theorem extendsTrans (first : Extends shape roots child next) (second : Extends shape roots next last) :
    Extends shape roots child last :=
  fun r hr p n hp h => second r hr p n hp (first r hr p n hp h)

/- Removing edges can only lose paths. -/
theorem followSub (sub : ∀ n k m, next n k = some m → child n k = some m) {r x : N} {p : List K}
    (path : follow next r p = some x) : follow child r p = some x := by
  induction p generalizing r with
  | nil => exact path
  | cons k ks ih =>
    obtain ⟨m,edge,rest⟩ := Option.bind_eq_some_iff.mp path
    simp only [follow,sub r k m edge,Option.bind_some,ih rest]

theorem ownedSub (sub : ∀ n k m, next n k = some m → child n k = some m)
    (owned : Owned shape roots child) : Owned shape roots next :=
  fun r hr s hs p q n hp hq left right =>
    owned r hr s hs p q n hp hq (followSub sub left) (followSub sub right)

theorem ownedRoots {fewer : Set N} (inside : fewer ⊆ roots) (owned : Owned shape roots child) :
    Owned shape fewer child :=
  fun r hr s hs => owned r (inside hr) s (inside hs)

theorem followAgree {r : N} (agree : ∀ q n, shape.valid q → follow child r q = some n → ∀ k, next n k = child n k) {p : List K}
    (valid : shape.valid p) : follow next r p = follow child r p := by
  induction p using List.reverseRecOn with
  | nil => rfl
  | append_singleton p k ih =>
    have parent := shape.parent p k valid
    rw [followConcat,followConcat,ih parent]
    cases path : follow child r p with
    | none => rfl
    | some n =>
      rw [Option.bind_some,Option.bind_some]
      exact agree p n parent path k

theorem followLeaf (leaf : ∀ n k, child n k = none) {r x : N} {p : List K} (path : follow child r p = some x) : p = [] ∧ r = x := by
  cases p with
  | nil => exact ⟨rfl,Option.some.inj path⟩
  | cons k ks =>
    obtain ⟨m,edge,_⟩ := Option.bind_eq_some_iff.mp path
    rw [leaf] at edge
    contradiction

theorem ownedLeaf (leaf : ∀ n k, child n k = none) : Owned shape roots child := by
  intro r _ s _ p q n _ _ left right
  obtain ⟨rfl,rfl⟩ := followLeaf leaf left
  obtain ⟨rfl,rfl⟩ := followLeaf leaf right
  exact ⟨rfl,rfl⟩

/- Roots without children own only themselves. -/
theorem ownedChildless (childless : ∀ r ∈ roots, ∀ k, child r k = none) : Owned shape roots child := by
  have alone : ∀ r ∈ roots, ∀ p n, follow child r p = some n → p = [] ∧ r = n := by
    intro r member p n path
    cases p with
    | nil => exact ⟨rfl,Option.some.inj path⟩
    | cons k ks =>
      obtain ⟨m,edge,_⟩ := Option.bind_eq_some_iff.mp path
      rw [childless r member] at edge
      contradiction
  intro r first s second p q n _ _ left right
  obtain ⟨rfl,rfl⟩ := alone r first p n left
  obtain ⟨rfl,rfl⟩ := alone s second q r right
  exact ⟨rfl,rfl⟩

theorem ownedInsert (owned : Owned shape roots child) {m : N} (fresh : ¬Reached shape roots child m) (leaf : ∀ k, child m k = none) :
    Owned shape (insert m roots) child := by
  have alone : ∀ p n, follow child m p = some n → p = [] ∧ m = n := by
    intro p n path
    cases p with
    | nil => exact ⟨rfl,Option.some.inj path⟩
    | cons k ks =>
      obtain ⟨x,edge,_⟩ := Option.bind_eq_some_iff.mp path
      rw [leaf] at edge
      contradiction
  intro r first s second p q n hp hq left right
  rcases first with rfl | first
  · obtain ⟨rfl,rfl⟩ := alone p n left
    rcases second with rfl | second
    · obtain ⟨rfl,_⟩ := alone q _ right
      exact ⟨rfl,rfl⟩
    · exact absurd ⟨s,second,q,hq,right⟩ fresh
  · rcases second with rfl | second
    · obtain ⟨rfl,rfl⟩ := alone q n right
      exact absurd ⟨r,first,p,hp,left⟩ fresh
    · exact owned r first s second p q n hp hq left right

variable [DecidableEq N] [DecidableEq K]

/- Store the pointer `m` in the cell `(n,k)`. -/
def attach (child : N → K → Option N) (n : N) (k : K) (m : N) : N → K → Option N :=
  fun x y => if x = n ∧ y = k then some m else child x y

theorem attachSelf (child : N → K → Option N) (n : N) (k : K) (m : N) : attach child n k m n k = some m := by
  simp [attach]

theorem attachOther (child : N → K → Option N) {n x : N} {k y : K} (m : N) (other : ¬(x = n ∧ y = k)) :
    attach child n k m x y = child x y := by
  simp [attach,other]

/- A fresh childless node below `r₀,p₀` creates exactly one path; every other
path of the new forest was there before. -/
theorem attachPaths (owned : Owned shape roots child) {r₀ n m : N} {p₀ : List K} {k : K}
    (root : r₀ ∈ roots) (place : shape.valid p₀) (here : follow child r₀ p₀ = some n)
    (fresh : ¬ Reached shape roots child m) (leaf : ∀ y, child m y = none)
    {r x : N} (hr : r ∈ roots) {p : List K} (hp : shape.valid p)
    (path : follow (attach child n k m) r p = some x) :
    (follow child r p = some x) ∨ (r = r₀ ∧ p = p₀ ++ [k] ∧ x = m) := by
  induction p using List.reverseRecOn generalizing x with
  | nil => exact Or.inl path
  | append_singleton p y ih =>
    obtain ⟨z,prior,edge⟩ := followLast path
    have pp := shape.parent p y hp
    rcases ih pp prior with old | ⟨_,_,rfl⟩
    · by_cases cell : z = n ∧ y = k
      · obtain ⟨rfl,rfl⟩ := cell
        obtain ⟨rfl,rfl⟩ := owned r hr r₀ root p p₀ z pp place old here
        rw [attachSelf] at edge
        exact Or.inr ⟨rfl,rfl,(Option.some.inj edge).symm⟩
      · rw [attachOther child m cell] at edge
        left
        rw [followConcat,old,Option.bind_some,edge]
    · have apart : ¬(z = n ∧ y = k) := by
        rintro ⟨rfl,_⟩
        exact fresh ⟨r₀,root,p₀,place,here⟩
      rw [attachOther child z apart,leaf y] at edge
      contradiction

theorem attachOwned (owned : Owned shape roots child) {r₀ n m : N} {p₀ : List K} {k : K}
    (root : r₀ ∈ roots) (place : shape.valid p₀) (here : follow child r₀ p₀ = some n)
    (fresh : ¬ Reached shape roots child m) (leaf : ∀ y, child m y = none) :
    Owned shape roots (attach child n k m) := by
  intro r hr s hs p q x hp hq left right
  rcases attachPaths owned root place here fresh leaf hr hp left with a | ⟨rfl,rfl,rfl⟩
  · rcases attachPaths owned root place here fresh leaf hs hq right with b | ⟨_,_,rfl⟩
    · exact owned r hr s hs p q x hp hq a b
    · exact absurd ⟨r,hr,p,hp,a⟩ fresh
  · rcases attachPaths owned root place here fresh leaf hs hq right with b | ⟨rfl,rfl,_⟩
    · exact absurd ⟨s,hs,q,hq,b⟩ fresh
    · exact ⟨rfl,rfl⟩

/- Filling a cell that was empty when the walk read it keeps the paths of that
time, whatever grew in between. -/
theorem attachExtends (grown : Extends shape roots child next) {n m : N} {k : K}
    (empty : child n k = none) : Extends shape roots child (attach next n k m) := by
  intro r hr p x hp path
  induction p using List.reverseRecOn generalizing x with
  | nil => exact path
  | append_singleton p y ih =>
    obtain ⟨z,prior,edge⟩ := followLast path
    have pp := shape.parent p y hp
    have after := grown r hr (p ++ [y]) x hp path
    rw [followConcat,grown r hr p z pp prior,Option.bind_some] at after
    have apart : ¬(z = n ∧ y = k) := by
      rintro ⟨rfl,rfl⟩
      rw [empty] at edge
      contradiction
    rw [followConcat,ih z pp prior,Option.bind_some,attachOther next m apart,after]

theorem attachElsewhere {r n m : N} {k : K} (apart : ∀ p, shape.valid p → follow child r p ≠ some n) {p : List K}
    (valid : shape.valid p) : follow (attach child n k m) r p = follow child r p := by
  refine followAgree (fun q x place path y => ?_) valid
  have other : ¬(x = n ∧ y = k) := by
    rintro ⟨rfl,_⟩
    exact apart q place path
  exact attachOther child m other

end
end PointerForest
