import Mathlib.Logic.Function.Basic

/-! Objects that are locked and counted. An operation that has to wait, or that gives back what
is not held, has no result; what is taken and given back leaves the table as it was. -/
namespace HoldTable

structure Hold where
  locked : Bool
  refs : Nat
  deriving DecidableEq, Repr

abbrev Table (K : Type*) := K → Hold

variable {K : Type*} [DecidableEq K]

def lock (k : K) (t : Table K) : Option (Table K) :=
  if (t k).locked then none else some (Function.update t k { t k with locked := true })

def unlock (k : K) (t : Table K) : Option (Table K) :=
  if (t k).locked then some (Function.update t k { t k with locked := false }) else none

def get (k : K) (t : Table K) : Table K := Function.update t k { t k with refs := (t k).refs + 1 }

def put (k : K) (t : Table K) : Option (Table K) :=
  if (t k).refs = 0 then none else some (Function.update t k { t k with refs := (t k).refs - 1 })

def release (k : K) (t : Table K) : Option (Table K) := (unlock k t).bind (put k)

/- Locked, with one reference more. -/
def held (k : K) (t : Table K) : Table K := Function.update t k ⟨true,(t k).refs + 1⟩

def freed (k : K) (t : Table K) : Table K := Function.update t k { t k with locked := false }

section
variable {k : K} {t u : Table K}

theorem getAt : get k t k = ⟨(t k).locked,(t k).refs + 1⟩ := Function.update_self ..

theorem heldAt : held k t k = ⟨true,(t k).refs + 1⟩ := Function.update_self ..

theorem freedAt : freed k t k = ⟨false,(t k).refs⟩ := Function.update_self ..

theorem heldOther {j : K} (other : j ≠ k) : held k t j = t j := Function.update_of_ne other ..

theorem getOther {j : K} (other : j ≠ k) : get k t j = t j := Function.update_of_ne other ..

theorem getLocked (j : K) : (get k t j).locked = (t j).locked := by
  by_cases same : j = k
  · rw [same,getAt]
  · rw [getOther same]

theorem lockGet (free : (t k).locked = false) : lock k (get k t) = some (held k t) := by
  unfold lock
  rw [getAt,free]
  simp only [Bool.false_eq_true,if_false,get,Function.update_idem,held]

theorem lockBusy (busy : (t k).locked = true) : lock k t = none := if_pos busy

theorem lockGetBusy (busy : (t k).locked = true) : lock k (get k t) = none := lockBusy (by rw [getAt,busy])

theorem unlockHeld (free : (t k).locked = false) : unlock k (held k t) = some (get k t) := by
  unfold unlock
  rw [heldAt]
  simp only [if_true,held,Function.update_idem,get,free]

theorem putGet : put k (get k t) = some t := by
  unfold put
  rw [getAt,if_neg (Nat.succ_ne_zero _)]
  simp only [get,Function.update_idem,Nat.add_sub_cancel,Function.update_eq_self]

theorem releaseHeld (free : (t k).locked = false) : release k (held k t) = some t := by
  unfold release
  rw [unlockHeld free]
  exact putGet

theorem releaseGet (busy : (t k).locked = true) : release k (get k t) = some (freed k t) := by
  unfold release unlock
  rw [getAt,busy]
  simp only [if_true,Option.bind_some,put,Function.update_self]
  rw [if_neg (Nat.succ_ne_zero _)]
  simp only [get,Function.update_idem,Nat.add_sub_cancel,freed]

theorem lockFreed (busy : (t k).locked = true) : lock k (freed k t) = some t := by
  unfold lock
  rw [freedAt]
  have same : (⟨true,(t k).refs⟩ : Hold) = t k := by rw [← busy]
  simp only [Bool.false_eq_true,if_false,freed,Function.update_idem,same,Function.update_eq_self]

theorem lockThenUnlock (free : (t k).locked = false) : ∃ u, lock k t = some u ∧ unlock k u = some t := by
  refine ⟨_,if_neg (by simp [free]),?_⟩
  unfold unlock
  rw [Function.update_self,if_pos rfl]
  have same : (⟨false,(t k).refs⟩ : Hold) = t k := by rw [← free]
  simp only [Function.update_idem,same,Function.update_eq_self]

theorem lockUnlock {v : Table K} (locked : lock k t = some u) (unlocked : unlock k u = some v) : v = t := by
  cases state : (t k).locked with
  | false =>
    obtain ⟨w,taken,back⟩ := lockThenUnlock state
    cases locked.symm.trans taken
    exact Option.some.inj (unlocked.symm.trans back)
  | true => cases locked.symm.trans (lockBusy state)

end
end HoldTable
