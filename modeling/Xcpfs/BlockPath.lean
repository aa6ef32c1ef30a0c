import Xcpfs.Layout

/-! `get_path` of meta.c and the tree positions it names. A `TreePath` can only
hold slots that exist, so a decoded position needs no further range check. -/
namespace Xcpfs

/- The `int offset[5]` array of the callers; unused cells stay -1. -/
def offsetOf (a b c d : Int) : Nat → Int
  | 0 => a | 1 => b | 2 => c | 3 => d | _ => -1

abbrev divRoundUp (n d : Int) : Int := (n + d - 1) / d

def getPath (iblock : Int) : Nat × (Nat → Int) :=
  -- pointer in inode
  if iblock < 900 then (0,offsetOf iblock (-1) (-1) (-1)) else
  -- direct
  let iblock := iblock - 900
  let i := divRoundUp (iblock + 1) 1018 - 1
  if i < 2 then (1,offsetOf (900 + i) ((iblock - i * 1018) % 1018) (-1) (-1)) else
  -- indirect
  let iblock := iblock - 2 * 1018
  let i := divRoundUp (iblock + 1) (1018 * 1018) - 1
  if i < 2 then
    let iblock := iblock - 1018 * 1018 * i
    let j := divRoundUp (iblock + 1) 1018 - 1
    (2,offsetOf (900 + 2 + i) j (iblock - 1018 * j) (-1))
  else
  -- double indirect
  let iblock := iblock - 2 * 1018 * 1018
  let i := divRoundUp (iblock + 1) (1018 * 1018) - 1
  let iblock := iblock - i * 1018 * 1018
  let j := divRoundUp (iblock + 1) 1018 - 1
  (3,offsetOf (900 + 2 + 2) i j (iblock - j * 1018))

inductive TreePath where
  | inode (slot : Fin 900)
  | direct (top : Fin 2) (slot : Fin 1018)
  | indirect (top : Fin 2) (mid slot : Fin 1018)
  | double (top mid slot : Fin 1018)
  deriving DecidableEq, Repr

def maxBlocks : Nat := 900 + 2 * 1018 + 2 * 1018 ^ 2 + 1018 ^ 3

namespace TreePath

def index : TreePath → Nat
  | inode slot => slot
  | direct top slot => 900 + top * 1018 + slot
  | indirect top mid slot => 900 + 2 * 1018 + top * 1018 ^ 2 + mid * 1018 + slot
  | double top mid slot => 900 + 2 * 1018 + 2 * 1018 ^ 2 + top * 1018 ^ 2 + mid * 1018 + slot

def depth : TreePath → Nat
  | inode _ => 0
  | direct _ _ => 1
  | indirect _ _ _ => 2
  | double _ _ _ => 3

def offsets : TreePath → Nat → Int
  | inode slot => offsetOf slot (-1) (-1) (-1)
  | direct top slot => offsetOf (900 + top) slot (-1) (-1)
  | indirect top mid slot => offsetOf (902 + top) mid slot (-1)
  | double top mid slot => offsetOf 904 top mid slot

def ofIndex (n : Nat) (bound : n < maxBlocks) : TreePath :=
  if h : n < 900 then inode ⟨n,h⟩
  else if h : n < 2936 then direct ⟨(n - 900) / 1018,by omega⟩ ⟨(n - 900) % 1018,by omega⟩
  else if h : n < 2075584 then
    indirect ⟨(n - 2936) / 1036324,by omega⟩ ⟨(n - 2936) / 1018 % 1018,by omega⟩
      ⟨(n - 2936) % 1018,by omega⟩
  else
    double ⟨(n - 2075584) / 1036324,by unfold maxBlocks at bound; omega⟩
      ⟨(n - 2075584) / 1018 % 1018,by omega⟩ ⟨(n - 2075584) % 1018,by omega⟩

theorem indexBound (p : TreePath) : p.index < maxBlocks := by
  cases p <;> simp only [index,maxBlocks] <;> omega

theorem ofIndexIndex (p : TreePath) (n : Nat) (same : n = p.index) (bound : n < maxBlocks) :
    ofIndex n bound = p := by
  unfold ofIndex
  cases p with
  | inode slot =>
    simp only [index] at same
    rw [dif_pos (by omega)]
    simpa only [inode.injEq,Fin.ext_iff] using same
  | direct top slot =>
    simp only [index] at same
    rw [dif_neg (by omega),dif_pos (by omega)]
    simp only [direct.injEq,Fin.ext_iff]
    omega
  | indirect top mid slot =>
    simp only [index] at same
    rw [dif_neg (by omega),dif_neg (by omega),dif_pos (by omega)]
    simp only [indirect.injEq,Fin.ext_iff]
    omega
  | double top mid slot =>
    simp only [index] at same
    rw [dif_neg (by omega),dif_neg (by omega),dif_neg (by omega)]
    simp only [double.injEq,Fin.ext_iff]
    omega

theorem indexOfIndex (n : Nat) (bound : n < maxBlocks) : (ofIndex n bound).index = n := by
  unfold ofIndex
  split
  · rfl
  · split
    · simp only [index]; omega
    · split <;> simp only [index] <;> omega

theorem indexInjective : Function.Injective index := by
  intro p q same
  rw [← ofIndexIndex p p.index rfl p.indexBound]
  exact ofIndexIndex q p.index same p.indexBound

theorem getPathIndex (p : TreePath) : getPath p.index = (p.depth,p.offsets) := by
  obtain ⟨n,same⟩ : ∃ n, n = p.index := ⟨_,rfl⟩
  rw [← same]
  cases p with
  | inode slot =>
    simp only [index] at same
    simp only [getPath,depth,offsets]
    rw [if_pos (by omega),same]
  | direct top slot =>
    simp only [index] at same
    simp only [getPath,divRoundUp,depth,offsets]
    rw [if_neg (by omega),if_pos (by omega)]
    congr 2 <;> omega
  | indirect top mid slot =>
    simp only [index] at same
    simp only [getPath,divRoundUp,depth,offsets]
    rw [if_neg (by omega),if_neg (by omega),if_pos (by omega)]
    congr 2 <;> omega
  | double top mid slot =>
    simp only [index] at same
    simp only [getPath,divRoundUp,depth,offsets]
    rw [if_neg (by omega),if_neg (by omega),if_neg (by omega)]
    congr 2 <;> omega

end TreePath
end Xcpfs
