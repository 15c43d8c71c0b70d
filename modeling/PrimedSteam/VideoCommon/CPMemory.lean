import Mathlib.Algebra.Order.BigOperators.Group.List
import Mathlib.Algebra.Order.Group.Multiset
import Mathlib.Algebra.Order.Ring.Nat
import Mathlib.Logic.Function.Basic
import Mathlib.Tactic.Abel

/-!
# The state of the command processor

* `CPState.loadCPReg`: what a CP command does to the state.
* `CPState.vertexSize`: the bytes of a vertex, which the state decides (`vertexSize_le`).
-/

set_option autoImplicit false

namespace OpcodeDecoder

abbrev Byte := BitVec 8

abbrev Word := BitVec 32

/-! ## Registers -/

inductive CPArray where
  | position
  | normal
  | color0
  | color1
  | texCoord0
  | texCoord1
  | texCoord2
  | texCoord3
  | texCoord4
  | texCoord5
  | texCoord6
  | texCoord7
  | xfA
  | xfB
  | xfC
  | xfD
  deriving DecidableEq

def CPArray.ofBits (b : BitVec 4) : CPArray :=
  match b with
  | 0 => .position
  | 1 => .normal
  | 2 => .color0
  | 3 => .color1
  | 4 => .texCoord0
  | 5 => .texCoord1
  | 6 => .texCoord2
  | 7 => .texCoord3
  | 8 => .texCoord4
  | 9 => .texCoord5
  | 10 => .texCoord6
  | 11 => .texCoord7
  | 12 => .xfA
  | 13 => .xfB
  | 14 => .xfC
  | _ => .xfD

structure VAT where
  g0 : Word
  g1 : Word
  g2 : Word

structure CPState where
  arrayBases : CPArray → Word
  arrayStrides : CPArray → Word
  matrixIndexA : Word
  matrixIndexB : Word
  vtxDescLow : Word
  vtxDescHigh : Word
  vtxAttr : BitVec 3 → VAT

/-- `GetPhysicalAddressMask` -/
def physicalAddressMask (isWii : Bool) : Word := if isWii then 0x1fffffff else 0x03ffffff

/-- `LoadCPReg` -/
def CPState.loadCPReg (cp : CPState) (isWii : Bool) (subCmd : Byte) (value : Word) : CPState :=
  let vat := subCmd.setWidth 3
  let array := CPArray.ofBits (subCmd.setWidth 4)
  match subCmd &&& 0xf0 with
  | 0x30 => { cp with matrixIndexA := value }
  | 0x40 => { cp with matrixIndexB := value }
  | 0x50 => { cp with vtxDescLow := value }
  | 0x60 => { cp with vtxDescHigh := value }
  | 0x70 =>
    { cp with vtxAttr := Function.update cp.vtxAttr vat { cp.vtxAttr vat with g0 := value } }
  | 0x80 =>
    { cp with vtxAttr := Function.update cp.vtxAttr vat { cp.vtxAttr vat with g1 := value } }
  | 0x90 =>
    { cp with vtxAttr := Function.update cp.vtxAttr vat { cp.vtxAttr vat with g2 := value } }
  | 0xa0 =>
    { cp with
      arrayBases := Function.update cp.arrayBases array (value &&& physicalAddressMask isWii) }
  | 0xb0 => { cp with arrayStrides := Function.update cp.arrayStrides array (value &&& 0xff) }
  | _ => cp

/-! ## Sizes -/

inductive VertexComponentFormat where
  | notPresent
  | direct
  | index8
  | index16

def VertexComponentFormat.ofBits (b : BitVec 2) : VertexComponentFormat :=
  match b with
  | 0 => .notPresent
  | 1 => .direct
  | 2 => .index8
  | _ => .index16

inductive ComponentFormat where
  | uByte
  | byte
  | uShort
  | short
  | float
  | invalidFloat5
  | invalidFloat6
  | invalidFloat7

def ComponentFormat.ofBits (b : BitVec 3) : ComponentFormat :=
  match b with
  | 0 => .uByte
  | 1 => .byte
  | 2 => .uShort
  | 3 => .short
  | 4 => .float
  | 5 => .invalidFloat5
  | 6 => .invalidFloat6
  | _ => .invalidFloat7

/-- `GetElementSize` -/
def ComponentFormat.elementSize : ComponentFormat → ℕ
  | .uByte | .byte => 1
  | .uShort | .short => 2
  | .float | .invalidFloat5 | .invalidFloat6 | .invalidFloat7 => 4

/-- The size tables of positions and texture coordinates, of `count` elements. -/
def coordSize (type : VertexComponentFormat) (format : ComponentFormat) (count : ℕ) : ℕ :=
  match type with
  | .notPresent => 0
  | .direct => count * format.elementSize
  | .index8 => 1
  | .index16 => 2

/-- `VertexLoader_Position::GetSize` -/
def positionSize (type : VertexComponentFormat) (format : ComponentFormat) (xyz : Bool) : ℕ :=
  coordSize type format (if xyz then 3 else 2)

/-- `VertexLoader_TextCoord::GetSize` -/
def textCoordSize (type : VertexComponentFormat) (format : ComponentFormat) (st : Bool) : ℕ :=
  coordSize type format (if st then 2 else 1)

/-- `VertexLoader_Normal::GetSize` -/
def normalSize (type : VertexComponentFormat) (format : ComponentFormat) (ntb index3 : Bool) : ℕ :=
  match type with
  | .notPresent => 0
  | .direct => (if ntb then 9 else 3) * format.elementSize
  | .index8 => if index3 && ntb then 3 else 1
  | .index16 => if index3 && ntb then 6 else 2

/-- `VertexLoader_Color::GetSize` -/
def colorSize (type : VertexComponentFormat) (format : BitVec 3) : ℕ :=
  match type, format with
  | _, 6 | _, 7 => 0
  | .notPresent, _ => 0
  | .direct, 0 | .direct, 3 => 2
  | .direct, 1 | .direct, 4 => 3
  | .direct, _ => 4
  | .index8, _ => 1
  | .index16, _ => 2

namespace VAT

variable (vat : VAT)

/-- `GetColorFormat` -/
def colorFormat : ℕ → BitVec 3
  | 0 => vat.g0.extractLsb' 14 3
  | _ => vat.g0.extractLsb' 18 3

/-- `GetTexElements` -/
def texElements : ℕ → Bool
  | 0 => vat.g0.getLsbD 21
  | 1 => vat.g1.getLsbD 0
  | 2 => vat.g1.getLsbD 9
  | 3 => vat.g1.getLsbD 18
  | 4 => vat.g1.getLsbD 27
  | 5 => vat.g2.getLsbD 5
  | 6 => vat.g2.getLsbD 14
  | _ => vat.g2.getLsbD 23

/-- `GetTexFormat` -/
def texFormat (i : ℕ) : ComponentFormat :=
  .ofBits <|
    match i with
    | 0 => vat.g0.extractLsb' 22 3
    | 1 => vat.g1.extractLsb' 1 3
    | 2 => vat.g1.extractLsb' 10 3
    | 3 => vat.g1.extractLsb' 19 3
    | 4 => vat.g1.extractLsb' 28 3
    | 5 => vat.g2.extractLsb' 6 3
    | 6 => vat.g2.extractLsb' 15 3
    | _ => vat.g2.extractLsb' 24 3

end VAT

namespace CPState

variable (cp : CPState)

/-- `VertexLoaderBase::GetVertexSize` of a vertex attribute table. -/
def vertexSize (i : BitVec 3) : ℕ :=
  let vat := cp.vtxAttr i
  let matrices := (List.range 9).countP fun k => cp.vtxDescLow.getLsbD k
  let position := positionSize (.ofBits (cp.vtxDescLow.extractLsb' 9 2))
    (.ofBits (vat.g0.extractLsb' 1 3)) (vat.g0.getLsbD 0)
  let normal := normalSize (.ofBits (cp.vtxDescLow.extractLsb' 11 2))
    (.ofBits (vat.g0.extractLsb' 10 3)) (vat.g0.getLsbD 9) (vat.g0.getLsbD 31)
  let colors := ((List.range 2).map fun k =>
    colorSize (.ofBits (cp.vtxDescLow.extractLsb' (13 + 2 * k) 2)) (vat.colorFormat k)).sum
  let texCoords := ((List.range 8).map fun k =>
    textCoordSize (.ofBits (cp.vtxDescHigh.extractLsb' (2 * k) 2)) (vat.texFormat k)
      (vat.texElements k)).sum
  matrices + position + normal + colors + texCoords

theorem elementSize_le (format : ComponentFormat) : format.elementSize ≤ 4 := by
  cases format <;> decide

theorem coordSize_le (type : VertexComponentFormat) (format : ComponentFormat) {count : ℕ}
    (hcount : 0 < count) : coordSize type format count ≤ 4 * count := by
  have helement := elementSize_le format
  cases type
  · exact Nat.zero_le _
  · exact (Nat.mul_le_mul_left count helement).trans_eq (Nat.mul_comm count 4)
  · simp only [coordSize]
    omega
  · simp only [coordSize]
    omega

theorem normalSize_le (type : VertexComponentFormat) (format : ComponentFormat)
    (ntb index3 : Bool) : normalSize type format ntb index3 ≤ 36 := by
  have helement := elementSize_le format
  cases type with
  | notPresent => exact Nat.zero_le _
  | direct =>
    simp only [normalSize]
    split_ifs <;> omega
  | index8 => cases ntb <;> cases index3 <;> simp [normalSize]
  | index16 => cases ntb <;> cases index3 <;> simp [normalSize]

theorem colorSize_le (type : VertexComponentFormat) (format : BitVec 3) :
    colorSize type format ≤ 4 := by
  unfold colorSize
  split <;> decide

/-- A vertex has at most 129 bytes, so the size of a primitive command never wraps around. -/
theorem vertexSize_le (i : BitVec 3) : cp.vertexSize i ≤ 129 := by
  have hmatrices : ((List.range 9).countP fun k => cp.vtxDescLow.getLsbD k) ≤ 9 :=
    List.countP_le_length
  have hposition : ∀ type format xyz, positionSize type format xyz ≤ 12 := by
    intro type format xyz
    have hsize := coordSize_le type format (Nat.succ_pos (if xyz then 2 else 1))
    cases xyz
    · exact hsize.trans (by decide)
    · exact hsize.trans (by decide)
  have hsum : ∀ (n b : ℕ) (f : ℕ → ℕ), (∀ k, f k ≤ b) → ((List.range n).map f).sum ≤ n * b := by
    intro n b f hf
    have hle := List.sum_le_card_nsmul ((List.range n).map f) b
      (by simpa using fun k _ => hf k)
    simpa using hle
  have hcolors := hsum 2 4 _ fun k => colorSize_le
    (.ofBits (cp.vtxDescLow.extractLsb' (13 + 2 * k) 2)) ((cp.vtxAttr i).colorFormat k)
  have htexCoords := hsum 8 8
    (fun k => textCoordSize (.ofBits (cp.vtxDescHigh.extractLsb' (2 * k) 2))
      ((cp.vtxAttr i).texFormat k) ((cp.vtxAttr i).texElements k)) fun k => by
    have hsize := coordSize_le (.ofBits (cp.vtxDescHigh.extractLsb' (2 * k) 2))
      ((cp.vtxAttr i).texFormat k)
      (Nat.succ_pos (if (cp.vtxAttr i).texElements k then 1 else 0))
    simp only [textCoordSize]
    split_ifs at hsize ⊢
    · exact hsize
    · exact hsize.trans (by decide)
  have hnormal := normalSize_le (.ofBits (cp.vtxDescLow.extractLsb' 11 2))
    (.ofBits ((cp.vtxAttr i).g0.extractLsb' 10 3)) ((cp.vtxAttr i).g0.getLsbD 9)
    ((cp.vtxAttr i).g0.getLsbD 31)
  have hpos := hposition (.ofBits (cp.vtxDescLow.extractLsb' 9 2))
    (.ofBits ((cp.vtxAttr i).g0.extractLsb' 1 3)) ((cp.vtxAttr i).g0.getLsbD 0)
  simp only [vertexSize]
  omega

end CPState

end OpcodeDecoder
