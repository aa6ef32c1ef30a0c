import Mathlib

/-! Memory as bytes, with the words and strings that C code keeps in it: a 32-bit
word is four bytes, lowest first, and a string ends at its first NUL. -/
namespace CBytes

abbrev Memory := Nat → UInt8

def store (m : Memory) (base : Nat) (bytes : List UInt8) : Memory := fun k =>
  if base ≤ k then (bytes[k - base]?).getD (m k) else m k

def encode32 (n : Nat) : List UInt8 :=
  [UInt8.ofNat n,UInt8.ofNat (n / 256),UInt8.ofNat (n / 65536),UInt8.ofNat (n / 16777216)]

def decode32 (m : Memory) (base : Nat) : Nat :=
  (m base).toNat + 256 * (m (base + 1)).toNat + 65536 * (m (base + 2)).toNat + 16777216 * (m (base + 3)).toNat

/- `text` has no NUL of its own, so the comparison goes on until a byte differs
or its terminator is reached; the value says whether `strcmp` answers 0. -/
def strcmp (text : List UInt8) (m : Memory) (base : Nat) : Bool :=
  match text with
  | [] => m base == 0
  | c :: rest => m base == c && strcmp rest m (base + 1)

def strcpy (m : Memory) (base : Nat) (text : List UInt8) : Memory := store m base (text ++ [0])

def take (m : Memory) (base count : Nat) : List UInt8 := (List.range count).map fun i => m (base + i)

variable {m : Memory} {base k n : Nat} {bytes text other : List UInt8}

theorem storeOutside (outside : k < base ∨ base + bytes.length ≤ k) : store m base bytes k = m k := by
  unfold store
  split
  · rw [List.getElem?_eq_none (by omega)]
    rfl
  · rfl

theorem storeInside {i : Nat} (inside : i < bytes.length) : store m base bytes (base + i) = bytes[i] := by
  simp only [store,Nat.le_add_right,if_true,Nat.add_sub_cancel_left,List.getElem?_eq_getElem inside,Option.getD_some]

theorem strcpyByte (m : Memory) (base : Nat) {i : Nat} (inside : i < text.length) : strcpy m base text (base + i) = text[i] := by
  rw [strcpy,storeInside (by simp only [List.length_append]; omega),List.getElem_append_left inside]

theorem strcpyEnd (m : Memory) (base : Nat) (text : List UInt8) : strcpy m base text (base + text.length) = 0 := by
  rw [strcpy,storeInside (by simp),List.getElem_append_right (Nat.le_refl _)]
  simp

theorem decodeStored (word : n < 2 ^ 32) : decode32 (store m base (encode32 n)) base = n := by
  have b0 : store m base (encode32 n) base = UInt8.ofNat n := storeInside (i := 0) (by simp [encode32])
  have b1 : store m base (encode32 n) (base + 1) = UInt8.ofNat (n / 256) := storeInside (i := 1) (by simp [encode32])
  have b2 : store m base (encode32 n) (base + 2) = UInt8.ofNat (n / 65536) := storeInside (i := 2) (by simp [encode32])
  have b3 : store m base (encode32 n) (base + 3) = UInt8.ofNat (n / 16777216) := storeInside (i := 3) (by simp [encode32])
  simp only [decode32,b0,b1,b2,b3,UInt8.toNat_ofNat']
  omega

theorem decodeOutside (outside : k + 4 ≤ base ∨ base + bytes.length ≤ k) :
    decode32 (store m base bytes) k = decode32 m k := by
  simp only [decode32]
  rw [storeOutside (by omega),storeOutside (by omega),storeOutside (by omega),storeOutside (by omega)]

theorem strcmpIff : strcmp text m base = true ↔
    (∀ i (inside : i < text.length), m (base + i) = text[i]) ∧ m (base + text.length) = 0 := by
  induction text generalizing base with
  | nil => simp [strcmp]
  | cons c rest ih =>
    simp only [strcmp,Bool.and_eq_true,beq_iff_eq,ih]
    constructor
    · intro ⟨head,tail,last⟩
      refine ⟨?_,by simpa only [List.length_cons,Nat.add_assoc,Nat.add_comm 1] using last⟩
      intro i inside
      cases i with
      | zero => exact head
      | succ i => simpa only [List.getElem_cons_succ,Nat.add_assoc,Nat.add_comm 1] using tail i (by simpa using inside)
    · intro ⟨all,last⟩
      refine ⟨all 0 (by simp),?_,by simpa only [List.length_cons,Nat.add_assoc,Nat.add_comm 1] using last⟩
      intro i inside
      rw [Nat.add_assoc,Nat.add_comm 1]
      exact all (i + 1) (by simpa using inside)

theorem takeIff : take m base text.length = text ↔ ∀ i (inside : i < text.length), m (base + i) = text[i] := by
  constructor
  · intro same i inside
    have here : (take m base text.length)[i]? = text[i]? := by rw [same]
    simpa [take,inside] using here
  · intro all
    apply List.ext_getElem (by simp [take])
    intro i _ inside
    simpa [take] using all i inside

/- A number in `width` bytes, lowest first, and a field of a packed struct. -/
def encodeLe : (width : Nat) → Nat → List UInt8
  | 0,_ => []
  | width + 1,n => UInt8.ofNat n :: encodeLe width (n / 256)

def decodeLe (m : Memory) : (base width : Nat) → Nat
  | _,0 => 0
  | base,width + 1 => (m base).toNat + 256 * decodeLe m (base + 1) width

structure PackedField where
  offset : Nat
  width : Nat

def PackedField.last (f : PackedField) : Nat := f.offset + f.width

def getField (m : Memory) (f : PackedField) : Nat := decodeLe m f.offset f.width

def putField (m : Memory) (f : PackedField) (n : Nat) : Memory := store m f.offset (encodeLe f.width n)

@[simp] theorem encodeLeLength (width n : Nat) : (encodeLe width n).length = width := by
  induction width generalizing n with
  | zero => rfl
  | succ width ih => simp [encodeLe,ih]

theorem decodeLeCongr {other : Memory} {width : Nat} (same : ∀ k, base ≤ k → k < base + width → m k = other k) :
    decodeLe m base width = decodeLe other base width := by
  induction width generalizing base with
  | zero => rfl
  | succ width ih =>
    simp only [decodeLe]
    rw [same base (by omega) (by omega),ih fun k low high => same k (by omega) (by omega)]

theorem storeFirst {byte : UInt8} : store m base (byte :: bytes) base = byte := by
  simp [store]

theorem storeRest {byte : UInt8} (after : base < k) : store m base (byte :: bytes) k = store m (base + 1) bytes k := by
  obtain ⟨i,rfl⟩ : ∃ i, k = base + 1 + i := ⟨k - (base + 1),by omega⟩
  have index : base + 1 + i - base = i + 1 := by omega
  unfold store
  rw [if_pos (by omega),if_pos (by omega),index,List.getElem?_cons_succ,Nat.add_sub_cancel_left]

theorem decodeLeStored (width n : Nat) : decodeLe (store m base (encodeLe width n)) base width = n % 256 ^ width := by
  induction width generalizing base n with
  | zero => simp [decodeLe,Nat.mod_one]
  | succ width ih =>
    have rest : decodeLe (store m base (encodeLe (width + 1) n)) (base + 1) width = n / 256 % 256 ^ width := by
      rw [← @ih (base + 1) (n / 256)]
      exact decodeLeCongr fun k low high => storeRest low
    simp only [decodeLe]
    rw [rest,encodeLe,storeFirst,UInt8.toNat_ofNat',pow_succ' 256]
    exact Nat.mod_mul.symm

theorem decodeLeOutside {width : Nat} (outside : k + width ≤ base ∨ base + bytes.length ≤ k) :
    decodeLe (store m base bytes) k width = decodeLe m k width :=
  decodeLeCongr fun i low high => storeOutside (by omega)

theorem decodeLeBelow (m : Memory) (base width : Nat) : decodeLe m base width < 256 ^ width := by
  induction width generalizing base with
  | zero => exact Nat.one_pos
  | succ width ih =>
    have rest := ih (base + 1)
    have byte := (m base).toNat_lt
    rw [decodeLe,pow_succ']
    omega

section
variable (m : Memory) (f : PackedField) (n : Nat)

theorem getFieldBelow : getField m f < 256 ^ f.width := decodeLeBelow m f.offset f.width

theorem getPutSame : getField (putField m f n) f = n % 256 ^ f.width := decodeLeStored f.width n

theorem getPutOther {g : PackedField} (apart : f.last ≤ g.offset ∨ g.last ≤ f.offset) :
    getField (putField m f n) g = getField m g := by
  refine decodeLeOutside ?_
  rw [encodeLeLength]
  exact apart.symm

theorem putOutside {k : Nat} (outside : k < f.offset ∨ f.last ≤ k) : putField m f n k = m k := by
  refine storeOutside ?_
  rw [encodeLeLength]
  exact outside

end
end CBytes
