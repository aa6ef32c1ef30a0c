import Mathlib.Data.List.Induction
import Mathlib.Logic.Function.Basic

/-! Trees with a name on every edge, and the keys that paths of names lead to.
Hanging up a leaf gives one path more, taking one down gives one path less, and
every other path leads where it led. -/
namespace NamedTree

variable {K N : Type*}

def walk (child : K → N → Option K) : K → List N → Option K
  | k,[] => some k
  | k,name :: path => (child k name).bind fun next => walk child next path

/- No key is named twice, and the root is not named. -/
structure Forest (child : K → N → Option K) (root : K) : Prop where
  once : ∀ {d e m n c}, child d m = some c → child e n = some c → d = e ∧ m = n
  top : ∀ {d n}, child d n ≠ some root

/- `more` is `less` with one leaf more, under `name` in `home`. -/
structure Hung (less more : K → N → Option K) (home : K) (name : N) (leaf : K) : Prop where
  here : more home name = some leaf
  free : less home name = none
  bare : ∀ n, more leaf n = none
  others : ∀ d n, ¬(d = home ∧ n = name) → more d n = less d n
  unnamed : ∀ d n, less d n ≠ some leaf

section
variable {child less more : K → N → Option K} {root home leaf k c : K} {name : N} {path other : List N}

@[simp] theorem walkNil : walk child k [] = some k := rfl

@[simp] theorem walkCons : walk child k (name :: path) = (child k name).bind fun next => walk child next path := rfl

theorem walkAppend : walk child k (path ++ other) = (walk child k path).bind fun next => walk child next other := by
  induction path generalizing k with
  | nil => rfl
  | cons name path ih => cases found : child k name <;> simp [found,ih]

@[simp] theorem walkSnoc : walk child k (path ++ [name]) = (walk child k path).bind fun next => child next name := by
  simp [walkAppend]

theorem walkOnce (forest : Forest child root) (first : walk child root path = some c)
    (second : walk child root other = some c) : path = other := by
  induction path using List.reverseRecOn generalizing other c with
  | nil =>
    cases Option.some.inj first
    cases other using List.reverseRecOn with
    | nil => rfl
    | append_singleton rest called =>
      obtain ⟨d,_,last⟩ := Option.bind_eq_some_iff.mp (walkSnoc ▸ second)
      exact absurd last forest.top
  | append_singleton init name ih =>
    obtain ⟨d,toD,last⟩ := Option.bind_eq_some_iff.mp (walkSnoc ▸ first)
    cases other using List.reverseRecOn with
    | nil =>
      cases Option.some.inj second
      exact absurd last forest.top
    | append_singleton rest called =>
      obtain ⟨e,toE,named⟩ := Option.bind_eq_some_iff.mp (walkSnoc ▸ second)
      obtain ⟨same,alike⟩ := forest.once last named
      rw [ih toD (same ▸ toE),alike]

theorem hungApart (hung : Hung less more home name leaf) : home ≠ leaf := by
  intro same
  have here := hung.here
  rw [same,hung.bare] at here
  contradiction

theorem hungLess (hung : Hung less more home name leaf) {d : K} {n : N} (found : less d n = some c) : more d n = some c := by
  refine (hung.others d n fun both => ?_).trans found
  rw [both.1,both.2,hung.free] at found
  contradiction

theorem hungForest (hung : Hung less more home name leaf) (forest : Forest more root) : Forest less root where
  once first second := forest.once (hungLess hung first) (hungLess hung second)
  top named := forest.top (hungLess hung named)

theorem walkLess (hung : Hung less more home name leaf) (apart : c ≠ leaf) (reached : walk more root path = some c) :
    walk less root path = some c := by
  induction path using List.reverseRecOn generalizing c with
  | nil => exact reached
  | append_singleton init called ih =>
    obtain ⟨d,toD,last⟩ := Option.bind_eq_some_iff.mp (walkSnoc ▸ reached)
    have inner : d ≠ leaf := by
      intro same
      rw [same,hung.bare] at last
      contradiction
    have outer : ¬(d = home ∧ called = name) := by
      intro both
      rw [both.1,both.2,hung.here] at last
      exact apart (Option.some.inj last).symm
    rw [hung.others d called outer] at last
    simp [ih inner toD,last]

variable [DecidableEq N]

theorem walkHung (hung : Hung less more home name leaf) (forest : Forest less root) (place : walk less root path = some home) :
    walk more root other = if other = path ++ [name] then some leaf else walk less root other := by
  induction other using List.reverseRecOn with
  | nil => simp
  | append_singleton init called ih =>
    rw [walkSnoc,walkSnoc,ih]
    by_cases deeper : init = path ++ [name]
    · -- a path through the new leaf ends there
      have differ : init ++ [called] ≠ path ++ [name] := by simp [deeper]
      simp [deeper,place,hung.free,hung.bare]
    · rw [if_neg deeper]
      cases reached : walk less root init with
      | none =>
        have differ : init ++ [called] ≠ path ++ [name] := by
          intro same
          have alike : init = path := (List.append_inj' same rfl).1
          rw [alike,place] at reached
          contradiction
        rw [if_neg differ]
        rfl
      | some d =>
        by_cases here : d = home ∧ called = name
        · have alike : init = path := walkOnce forest reached (here.1 ▸ place)
          simp [alike,here.1,here.2,hung.here]
        · have differ : init ++ [called] ≠ path ++ [name] := by
            intro same
            obtain ⟨alike,last⟩ := List.append_inj' same rfl
            rw [alike,place] at reached
            exact here ⟨(Option.some.inj reached).symm,(List.cons.inj last).1⟩
          rw [if_neg differ]
          exact hung.others d called here

theorem walkCut (hung : Hung less more home name leaf) (forest : Forest more root) (place : walk more root path = some home) :
    walk less root other = if other = path ++ [name] then none else walk more root other := by
  have placed : walk less root path = some home := walkLess hung (hungApart hung) place
  rw [@walkHung _ _ _ _ root home leaf name path other _ hung (hungForest hung forest) placed]
  split
  · rename_i same
    simp [same,placed,hung.free]
  · rfl

end

end NamedTree
