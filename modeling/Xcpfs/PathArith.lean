import Xcpfs.BlockPath
import Mathlib.Order.PiLex

/-! `get_path` in the machine's `int`, each operation checked to stay in the type, and the
rows of `int offset[4]` that it fills. The rows of the blocks of a file are exactly the rows
of tree paths, in lexicographic order. -/
namespace Xcpfs

abbrev Row := Fin 4 → Int

def cInt (n : Int) : Option Int :=
  if -2 ^ 31 ≤ n ∧ n < 2 ^ 31 then some n else none

theorem cIntFits {n : Int} (low : -2 ^ 31 ≤ n) (high : n < 2 ^ 31) : cInt n = some n := if_pos ⟨low,high⟩

def divRoundUpInt (n d : Int) : Option Int := do
  let n ← cInt (n + d)
  let n ← cInt (n - 1)
  cInt (n.tdiv d)

def getPathInt (offset : Row) (iblock : Int) : Option (Nat × Row) := do
  let offset := (List.finRange 4).foldl (fun row i => Function.update row i (-1)) offset
  -- pointer in inode
  if iblock < 900 then return (0,Function.update offset 0 iblock)
  -- direct
  let iblock ← cInt (iblock - 900)
  let i ← divRoundUpInt (← cInt (iblock + 1)) 1018
  let i ← cInt (i - 1)
  if i < 2 then
    let offset := Function.update offset 0 (← cInt (900 + i))
    let iblock ← cInt (iblock - (← cInt (i * 1018)))
    return (1,Function.update offset 1 (← cInt (iblock.tmod 1018)))
  -- indirect
  let iblock ← cInt (iblock - 2 * 1018)
  let i ← divRoundUpInt (← cInt (iblock + 1)) (1018 * 1018)
  let i ← cInt (i - 1)
  if i < 2 then
    let offset := Function.update offset 0 (← cInt (900 + 2 + i))
    let iblock ← cInt (iblock - (← cInt (1018 * 1018 * i)))
    let i ← divRoundUpInt (← cInt (iblock + 1)) 1018
    let i ← cInt (i - 1)
    let offset := Function.update offset 1 i
    let iblock ← cInt (iblock - (← cInt (1018 * i)))
    return (2,Function.update offset 2 iblock)
  -- double indirect
  let iblock ← cInt (iblock - 2 * 1018 * 1018)
  let offset := Function.update offset 0 (900 + 2 + 2)
  let i ← divRoundUpInt (← cInt (iblock + 1)) (1018 * 1018)
  let i ← cInt (i - 1)
  let offset := Function.update offset 1 i
  let iblock ← cInt (iblock - (← cInt ((← cInt (i * 1018)) * 1018)))
  let j ← divRoundUpInt (← cInt (iblock + 1)) 1018
  let j ← cInt (j - 1)
  let offset := Function.update offset 2 j
  let iblock ← cInt (iblock - (← cInt (j * 1018)))
  return (3,Function.update offset 3 iblock)

/- The slots of `i_addr` and `i_nid` that a path of each depth starts from. -/
def topSlots : Nat → Int × Int
  | 0 => (0,900)
  | 1 => (900,902)
  | 2 => (902,904)
  | _ => (904,905)

structure PathRow (d : Nat) (row : Row) : Prop where
  depth : d ≤ 3
  top : (topSlots d).1 ≤ row 0 ∧ row 0 < (topSlots d).2
  slots : ∀ i : Fin 4, 1 ≤ i.val → i.val ≤ d → 0 ≤ row i ∧ row i < 1018
  rest : ∀ i : Fin 4, d < i.val → row i = -1

def TreePath.row (p : TreePath) : Row := fun i => p.offsets i

theorem clearRow (offset : Row) :
    (List.finRange 4).foldl (fun row i => Function.update row i (-1)) offset = fun _ => -1 := by
  funext i
  fin_cases i <;> rfl

section
variable {α : Type} {f : Int → Option α} {n d i r : Int} {out : Option α}

theorem intStep (m : Int) (same : n = m) (low : 0 ≤ m) (high : m < 2 ^ 31) (next : f m = out) : (cInt n >>= f) = out := by
  subst same
  rw [cIntFits (by omega) high]
  exact next

/- Rounding up the position after the last one of slot `i` gives the next slot. -/
theorem roundStep (i r : Int) (same : n = i * d + r + 1) (slot : 0 ≤ i) (low : 0 ≤ r) (short : r < d) (high : n + d < 2 ^ 31)
    (next : f (i + 1) = out) : (divRoundUpInt n d >>= f) = out := by
  have start : 0 ≤ i * d := Int.mul_nonneg slot (by omega)
  have whole : (n + d - 1).tdiv d = i + 1 := by
    rw [Int.tdiv_eq_ediv_of_nonneg (by omega),show n + d - 1 = r + (i + 1) * d by rw [same]; ring,
      Int.add_mul_ediv_right _ _ (by omega),Int.ediv_eq_zero_of_lt low short,zero_add]
  have below : i + 1 ≤ n + d - 1 := whole ▸ Int.tdiv_le_self _ (by omega)
  unfold divRoundUpInt
  rw [cIntFits (by omega) high,Option.bind_eq_bind,Option.bind_eq_bind,Option.bind_some,cIntFits (by omega) (by omega),
    Option.bind_some,whole,cIntFits (by omega) (by omega)]
  exact next

end

/- On the index of a path no operation leaves `int`. -/
theorem getPathIntIndex (p : TreePath) (offset : Row) : getPathInt offset p.index = some (p.depth,p.row) := by
  obtain ⟨n,same⟩ : ∃ n : Int, n = p.index := ⟨_,rfl⟩
  unfold getPathInt
  rw [clearRow,← same]
  cases p with
  | inode slot =>
    simp only [TreePath.index] at same
    rw [if_pos (by omega)]
    congr 2
    funext i
    fin_cases i
    · exact same
    all_goals rfl
  | direct top slot =>
    obtain ⟨t,topIs⟩ : ∃ t : Int, t = top := ⟨_,rfl⟩
    obtain ⟨r,slotIs⟩ : ∃ r : Int, r = slot := ⟨_,rfl⟩
    simp only [TreePath.index] at same
    rw [if_neg (by omega)]
    refine intStep (t * 1018 + r) (by omega) (by omega) (by omega) ?_
    refine intStep (t * 1018 + r + 1) (by omega) (by omega) (by omega) ?_
    refine roundStep t r (by omega) (by omega) (by omega) (by omega) (by omega) ?_
    refine intStep t (by omega) (by omega) (by omega) ?_
    rw [if_pos (by omega)]
    refine intStep (900 + t) (by omega) (by omega) (by omega) ?_
    refine intStep (t * 1018) (by omega) (by omega) (by omega) ?_
    refine intStep r (by omega) (by omega) (by omega) ?_
    refine intStep r (Int.tmod_eq_of_lt (by omega) (by omega)) (by omega) (by omega) ?_
    congr 2
    funext i
    fin_cases i
    · exact congrArg (900 + ·) topIs
    · exact slotIs
    all_goals rfl
  | indirect top mid slot =>
    obtain ⟨t,topIs⟩ : ∃ t : Int, t = top := ⟨_,rfl⟩
    obtain ⟨m,midIs⟩ : ∃ m : Int, m = mid := ⟨_,rfl⟩
    obtain ⟨r,slotIs⟩ : ∃ r : Int, r = slot := ⟨_,rfl⟩
    simp only [TreePath.index] at same
    rw [if_neg (by omega)]
    refine intStep (2 * 1018 + t * 1036324 + m * 1018 + r) (by omega) (by omega) (by omega) ?_
    refine intStep (2 * 1018 + t * 1036324 + m * 1018 + r + 1) (by omega) (by omega) (by omega) ?_
    refine roundStep (2 + t * 1018 + m) r (by omega) (by omega) (by omega) (by omega) (by omega) ?_
    refine intStep (2 + t * 1018 + m) (by omega) (by omega) (by omega) ?_
    rw [if_neg (by omega)]
    refine intStep (t * 1036324 + m * 1018 + r) (by omega) (by omega) (by omega) ?_
    refine intStep (t * 1036324 + m * 1018 + r + 1) (by omega) (by omega) (by omega) ?_
    refine roundStep t (m * 1018 + r) (by omega) (by omega) (by omega) (by omega) (by omega) ?_
    refine intStep t (by omega) (by omega) (by omega) ?_
    rw [if_pos (by omega)]
    refine intStep (900 + 2 + t) (by omega) (by omega) (by omega) ?_
    refine intStep (1018 * 1018 * t) (by omega) (by omega) (by omega) ?_
    refine intStep (m * 1018 + r) (by omega) (by omega) (by omega) ?_
    refine intStep (m * 1018 + r + 1) (by omega) (by omega) (by omega) ?_
    refine roundStep m r (by omega) (by omega) (by omega) (by omega) (by omega) ?_
    refine intStep m (by omega) (by omega) (by omega) ?_
    refine intStep (1018 * m) (by omega) (by omega) (by omega) ?_
    refine intStep r (by omega) (by omega) (by omega) ?_
    congr 2
    funext i
    fin_cases i
    · exact congrArg (902 + ·) topIs
    · exact midIs
    · exact slotIs
    · rfl
  | double top mid slot =>
    obtain ⟨t,topIs⟩ : ∃ t : Int, t = top := ⟨_,rfl⟩
    obtain ⟨m,midIs⟩ : ∃ m : Int, m = mid := ⟨_,rfl⟩
    obtain ⟨r,slotIs⟩ : ∃ r : Int, r = slot := ⟨_,rfl⟩
    simp only [TreePath.index] at same
    rw [if_neg (by omega)]
    refine intStep (2 * 1018 + 2 * 1036324 + t * 1036324 + m * 1018 + r) (by omega) (by omega) (by omega) ?_
    refine intStep (2 * 1018 + 2 * 1036324 + t * 1036324 + m * 1018 + r + 1) (by omega) (by omega) (by omega) ?_
    refine roundStep (2 + 2 * 1018 + t * 1018 + m) r (by omega) (by omega) (by omega) (by omega) (by omega) ?_
    refine intStep (2 + 2 * 1018 + t * 1018 + m) (by omega) (by omega) (by omega) ?_
    rw [if_neg (by omega)]
    refine intStep (2 * 1036324 + t * 1036324 + m * 1018 + r) (by omega) (by omega) (by omega) ?_
    refine intStep (2 * 1036324 + t * 1036324 + m * 1018 + r + 1) (by omega) (by omega) (by omega) ?_
    refine roundStep (2 + t) (m * 1018 + r) (by omega) (by omega) (by omega) (by omega) (by omega) ?_
    refine intStep (2 + t) (by omega) (by omega) (by omega) ?_
    rw [if_neg (by omega)]
    refine intStep (t * 1036324 + m * 1018 + r) (by omega) (by omega) (by omega) ?_
    refine intStep (t * 1036324 + m * 1018 + r + 1) (by omega) (by omega) (by omega) ?_
    refine roundStep t (m * 1018 + r) (by omega) (by omega) (by omega) (by omega) (by omega) ?_
    refine intStep t (by omega) (by omega) (by omega) ?_
    refine intStep (t * 1018) (by omega) (by omega) (by omega) ?_
    refine intStep (t * 1018 * 1018) (by omega) (by omega) (by omega) ?_
    refine intStep (m * 1018 + r) (by omega) (by omega) (by omega) ?_
    refine intStep (m * 1018 + r + 1) (by omega) (by omega) (by omega) ?_
    refine roundStep m r (by omega) (by omega) (by omega) (by omega) (by omega) ?_
    refine intStep m (by omega) (by omega) (by omega) ?_
    refine intStep (m * 1018) (by omega) (by omega) (by omega) ?_
    refine intStep r (by omega) (by omega) (by omega) ?_
    congr 2
    funext i
    fin_cases i
    · rfl
    · exact topIs
    · exact midIs
    · exact slotIs

theorem pathRow (p : TreePath) : PathRow p.depth p.row where
  depth := by cases p <;> simp [TreePath.depth]
  top := by
    cases p <;> simp [topSlots,TreePath.row,TreePath.offsets,TreePath.depth,offsetOf]
    all_goals omega
  slots := by
    intro i first last
    cases p <;> fin_cases i <;> simp_all [TreePath.row,TreePath.offsets,TreePath.depth,offsetOf]
  rest := by
    intro i after
    cases p <;> fin_cases i <;> simp_all [TreePath.row,TreePath.offsets,TreePath.depth,offsetOf]

def slotOf {n : Nat} (x : Int) (low : 0 ≤ x) (high : x < n) : Fin n := ⟨x.toNat,by omega⟩

theorem slotOfCast {n : Nat} {x : Int} (low : 0 ≤ x) (high : x < n) : (slotOf x low high).val = x := Int.toNat_of_nonneg low

theorem rowPath {d : Nat} {row : Row} (ok : PathRow d row) : ∃ p : TreePath, p.depth = d ∧ p.row = row := by
  have slot : ∀ i : Fin 4, 1 ≤ i.val → i.val ≤ d → ∃ x : Fin 1018, (x.val : Int) = row i := by
    intro i first last
    obtain ⟨low,high⟩ := ok.slots i first last
    exact ⟨slotOf (row i) low high,slotOfCast low high⟩
  have top : ∃ x : Nat, (topSlots d).1 + x = row 0 ∧ (x : Int) < (topSlots d).2 - (topSlots d).1 := by
    obtain ⟨low,high⟩ := ok.top
    exact ⟨(row 0 - (topSlots d).1).toNat,by omega,by omega⟩
  obtain ⟨t,first,short⟩ := top
  have deep := ok.depth
  interval_cases d
  · refine ⟨.inode ⟨t,by simpa [topSlots] using short⟩,rfl,funext fun i => ?_⟩
    have rest := ok.rest i
    fin_cases i
    · simpa [TreePath.row,TreePath.offsets,offsetOf,topSlots] using first
    all_goals exact (rest (by decide)).symm
  · obtain ⟨a,one⟩ := slot 1 (by decide) (by decide)
    refine ⟨.direct ⟨t,by simpa [topSlots] using short⟩ a,rfl,funext fun i => ?_⟩
    have rest := ok.rest i
    fin_cases i
    · exact first
    · exact one
    all_goals exact (rest (by decide)).symm
  · obtain ⟨a,one⟩ := slot 1 (by decide) (by decide)
    obtain ⟨b,two⟩ := slot 2 (by decide) (by decide)
    refine ⟨.indirect ⟨t,by simpa [topSlots] using short⟩ a b,rfl,funext fun i => ?_⟩
    have rest := ok.rest i
    fin_cases i
    · exact first
    · exact one
    · exact two
    · exact (rest (by decide)).symm
  · obtain ⟨a,one⟩ := slot 1 (by decide) (by decide)
    obtain ⟨b,two⟩ := slot 2 (by decide) (by decide)
    obtain ⟨c,three⟩ := slot 3 (by decide) (by decide)
    refine ⟨.double a b c,rfl,funext fun i => ?_⟩
    fin_cases i
    · simp only [topSlots] at first short
      change 904 = row 0
      omega
    · exact one
    · exact two
    · exact three

theorem rowsIncrease {p q : TreePath} (before : p.index < q.index) : Pi.Lex (· < ·) (· < ·) p.row q.row := by
  have tops : p.row 0 < q.row 0 ∨ p.depth = q.depth ∧ p.row 0 = q.row 0 := by
    cases p <;> cases q <;> simp only [TreePath.index] at before <;>
      simp [TreePath.row,TreePath.offsets,TreePath.depth,offsetOf] <;> omega
  -- with one top the depth is the same, and the slots below decide
  have below : p.row 0 = q.row 0 → p.depth = q.depth → p.row 1 < q.row 1 ∨ p.row 1 = q.row 1 ∧
      (p.row 2 < q.row 2 ∨ p.row 2 = q.row 2 ∧ p.row 3 < q.row 3) := by
    intro same level
    cases p <;> cases q <;> simp only [TreePath.index] at before <;>
      simp_all [TreePath.row,TreePath.offsets,TreePath.depth,offsetOf] <;> omega
  rcases tops with earlier | ⟨level,same⟩
  · exact ⟨0,fun j first => absurd first (Fin.not_lt_zero j),earlier⟩
  · rcases below same level with later | ⟨one,later | ⟨two,later⟩⟩
    · refine ⟨1,fun j first => ?_,later⟩
      fin_cases j <;> simp_all
    · refine ⟨2,fun j first => ?_,later⟩
      fin_cases j <;> simp_all
    · refine ⟨3,fun j first => ?_,later⟩
      fin_cases j <;> simp_all

theorem blockPath {iblock : Int} (low : 0 ≤ iblock) (high : iblock < maxBlocks) : ∃ p : TreePath, iblock = p.index := by
  have bound : iblock.toNat < maxBlocks := by omega
  refine ⟨TreePath.ofIndex iblock.toNat bound,?_⟩
  rw [TreePath.indexOfIndex]
  omega

/- In range, `getPath` over the integers is what the machine computes. -/
theorem getPathIntAgrees {iblock : Int} (offset : Row) (low : 0 ≤ iblock) (high : iblock < maxBlocks) :
    getPathInt offset iblock = some ((getPath iblock).1,fun i : Fin 4 => (getPath iblock).2 i) := by
  obtain ⟨p,rfl⟩ := blockPath low high
  rw [getPathIntIndex,TreePath.getPathIndex]
  rfl

/-- `get_path` is a bijection from the blocks of a file onto the rows of tree paths, and it
keeps their order. -/
theorem getPathBijective :
    (∀ (offset : Row) (iblock : Int), 0 ≤ iblock → iblock < maxBlocks →
      ∃ d row, getPathInt offset iblock = some (d,row) ∧ PathRow d row) ∧
    (∀ (offset : Row) (d : Nat) (row : Row), PathRow d row →
      ∃ iblock : Int, 0 ≤ iblock ∧ iblock < maxBlocks ∧ getPathInt offset iblock = some (d,row)) ∧
    (∀ (offset other : Row) (a b : Int) (i j : Nat) (r s : Row), 0 ≤ a → a < b → b < maxBlocks →
      getPathInt offset a = some (i,r) → getPathInt other b = some (j,s) → r ≠ s ∧ Pi.Lex (· < ·) (· < ·) r s) := by
  refine ⟨fun offset iblock low high => ?_,fun offset d row ok => ?_,fun offset other a b i j r s low less high first second => ?_⟩
  · obtain ⟨p,rfl⟩ := blockPath low high
    exact ⟨p.depth,p.row,getPathIntIndex p offset,pathRow p⟩
  · obtain ⟨p,rfl,rfl⟩ := rowPath ok
    exact ⟨p.index,Int.natCast_nonneg _,Int.ofNat_lt.mpr p.indexBound,getPathIntIndex p offset⟩
  · obtain ⟨p,rfl⟩ := blockPath low (less.trans high)
    obtain ⟨q,rfl⟩ := blockPath (low.trans less.le) high
    rw [getPathIntIndex] at first second
    obtain ⟨_,rfl⟩ := Prod.mk.inj (Option.some.inj first)
    obtain ⟨_,rfl⟩ := Prod.mk.inj (Option.some.inj second)
    have increases := rowsIncrease (Int.ofNat_lt.mp less)
    refine ⟨fun same => ?_,increases⟩
    obtain ⟨k,_,differ⟩ := increases
    rw [same] at differ
    exact absurd differ (lt_irrefl _)

/-- The two blocks on either side of the step from single to double indirection. -/
theorem getPathBijectiveStep : (∃ d row, getPathInt (fun _ => 7) 2075584 = some (d,row) ∧ PathRow d row) ∧
    (∃ iblock : Int, 0 ≤ iblock ∧ iblock < maxBlocks ∧
      getPathInt (fun _ => 7) iblock = some ((TreePath.double 0 0 0).depth,(TreePath.double 0 0 0).row)) ∧
    ∀ i j r s, getPathInt (fun _ => 7) 2075583 = some (i,r) → getPathInt (fun _ => 7) 2075584 = some (j,s) →
      r ≠ s ∧ Pi.Lex (· < ·) (· < ·) r s :=
  ⟨getPathBijective.1 _ _ (by decide) (by decide),getPathBijective.2.1 _ _ _ (pathRow (.double 0 0 0)),
    fun i j r s => getPathBijective.2.2 _ _ _ _ i j r s (by decide) (by decide) (by decide)⟩

end Xcpfs
