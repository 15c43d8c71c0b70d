import PrimedSteam.VideoCommon.OpcodeDecoding

/-!
# The index generator

`IndexGenerator`: the vertices of a draw as 16-bit indices, either as lists or, with primitive
restart, as strips with a marker behind each of them.

* `indicesOf`: the table of the emitters.
* `Generator.addIndices`: the indices of one draw behind those of the draws before it.
* `Generator.runVertices`: a draw, in runs where the primitive can be split.
-/

set_option autoImplicit false

namespace IndexGenerator

open OpcodeDecoder (Primitive)

/-- What the backend supports and the configuration asks for. -/
structure Config where
  /-- `bSupportsPrimitiveRestart` -/
  primitiveRestart : Bool
  /-- `UseVSForLinePointExpand` -/
  vsExpand : Bool

/-- `primitive >= GX_DRAW_LINES` -/
def isLineOrPoint : Primitive → Bool
  | .drawLines | .drawLineStrip | .drawPoints => true
  | _ => false

/-! ## Loops -/

/-- How often the body of `for (; i < bound; i += step)` runs. -/
def loopCount (i step bound : ℕ) : ℕ := (bound - i + step - 1) / step

/-- The values of `i` in `for (; i < bound; i += step)`. -/
def loopValues (i step bound : ℕ) : List ℕ := List.range' i (loopCount i step bound) step

/-- The value of `i` behind the loop. -/
def loopEnd (i step bound : ℕ) : ℕ := i + step * loopCount i step bound

/-! ## Emitters -/

/-- What is written to the buffer: an index, before it is cut to 16 bits, or the marker of a
restart. -/
inductive Slot where
  | index (v : ℕ)
  | restart

/-- `UINT16_MAX`, the marker as it is stored. -/
def primitiveRestart : ℕ := 0xFFFF

/-- What the buffer holds, 16 bits. -/
def Slot.stored : Slot → ℕ
  | .index v => v % 2 ^ 16
  | .restart => primitiveRestart

def writeTriangle (pr : Bool) (index1 index2 index3 : ℕ) : List Slot :=
  [.index index1, .index index2, .index index3] ++ if pr then [.restart] else []

def addList (pr : Bool) (numVerts index : ℕ) : List Slot :=
  (loopValues 2 3 numVerts).flatMap fun i =>
    writeTriangle pr (index + i - 2) (index + i - 1) (index + i)

/-- The loop of `AddStrip` without primitive restart: `wind` changes with every triangle. -/
def addStripFrom (index : ℕ) : Bool → List ℕ → List Slot
  | _, [] => []
  | wind, i :: is =>
    writeTriangle false (index + i - 2) (index + i - (!wind).toNat) (index + i - wind.toNat) ++
      addStripFrom index (!wind) is

def addStrip (pr : Bool) (numVerts index : ℕ) : List Slot :=
  if pr then (loopValues 0 1 numVerts).map (fun i => Slot.index (index + i)) ++ [.restart]
  else addStripFrom index false (loopValues 2 1 numVerts)

/-- Three triangles of a fan in one strip. -/
def fanOfThree (index i : ℕ) : List Slot :=
  [.index (index + i - 1), .index (index + i), .index index, .index (index + i + 1), .index (index + i + 2)]

/-- Two triangles of a fan in one strip. -/
def fanOfTwo (index i : ℕ) : List Slot :=
  [.index (index + i - 1), .index (index + i), .index index, .index (index + i + 1)]

def addFan (pr : Bool) (numVerts index : ℕ) : List Slot :=
  let triangles := fun i => (loopValues i 1 numVerts).flatMap fun i =>
    writeTriangle pr index (index + i - 1) (index + i)
  if pr then
    -- `i + 3 <= num_verts` and `i + 2 <= num_verts`
    let i := loopEnd 2 3 (numVerts - 2)
    (loopValues 2 3 (numVerts - 2)).flatMap (fun i => fanOfThree index i ++ [.restart]) ++
      ((loopValues i 2 (numVerts - 1)).flatMap (fun i => fanOfTwo index i ++ [.restart]) ++
        triangles (loopEnd i 2 (numVerts - 1)))
  else triangles 2

/-- One quad, whose last vertex is `i`. -/
def addQuad (pr : Bool) (index i : ℕ) : List Slot :=
  if pr then
    [.index (index + i - 2), .index (index + i - 1), .index (index + i - 3), .index (index + i), .restart]
  else
    writeTriangle pr (index + i - 3) (index + i - 2) (index + i - 1) ++
      writeTriangle pr (index + i - 3) (index + i - 1) (index + i)

def addQuads (pr : Bool) (numVerts index : ℕ) : List Slot :=
  (loopValues 3 4 numVerts).flatMap (addQuad pr index) ++
    -- three vertices are left
    if loopEnd 3 4 numVerts = numVerts then
      writeTriangle pr (index + numVerts - 3) (index + numVerts - 2) (index + numVerts - 1)
    else []

def addLineList (numVerts index : ℕ) : List Slot :=
  (loopValues 1 2 numVerts).flatMap fun i => [.index (index + i - 1), .index (index + i)]

def addLineStrip (numVerts index : ℕ) : List Slot :=
  (loopValues 1 1 numVerts).flatMap fun i => [.index (index + i - 1), .index (index + i)]

def addLinesVSExpand (pr linestrip : Bool) (numVerts index : ℕ) : List Slot :=
  (loopValues 1 (if linestrip then 1 else 2) numVerts).flatMap fun i =>
    let p0 := (index + i - 1) * 4
    let p1 := (index + i) * 4
    if pr then [.index p0, .index (p0 + 1), .index (p1 + 2), .index (p1 + 3), .restart]
    else [.index p0, .index (p0 + 1), .index (p1 + 2), .index (p0 + 1), .index (p1 + 2), .index (p1 + 3)]

def addPoints (numVerts index : ℕ) : List Slot :=
  (loopValues 0 1 numVerts).map fun i => Slot.index (index + i)

def addPointsVSExpand (pr : Bool) (numVerts index : ℕ) : List Slot :=
  (loopValues 0 1 numVerts).flatMap fun i =>
    let base := (index + i) * 4
    if pr then [.index base, .index (base + 1), .index (base + 2), .index (base + 3), .restart]
    else [.index base, .index (base + 1), .index (base + 2), .index (base + 1), .index (base + 2), .index (base + 3)]

/-- `m_primitive_table`, as `Init` fills it. -/
def indicesOf (config : Config) (primitive : Primitive) (numVerts index : ℕ) : List Slot :=
  match primitive with
  | .drawQuads | .drawQuads2 => addQuads config.primitiveRestart numVerts index
  | .drawTriangles => addList config.primitiveRestart numVerts index
  | .drawTriangleStrip => addStrip config.primitiveRestart numVerts index
  | .drawTriangleFan => addFan config.primitiveRestart numVerts index
  | .drawLines =>
    if config.vsExpand then addLinesVSExpand config.primitiveRestart false numVerts index
    else addLineList numVerts index
  | .drawLineStrip =>
    if config.vsExpand then addLinesVSExpand config.primitiveRestart true numVerts index
    else addLineStrip numVerts index
  | .drawPoints =>
    if config.vsExpand then addPointsVSExpand config.primitiveRestart numVerts index
    else addPoints numVerts index

/-! ## The generator -/

structure Generator where
  /-- What was written since `Start`. -/
  indices : List Slot
  baseIndex : ℕ

/-- `Start` -/
def Generator.start : Generator := ⟨[], 0⟩

/-- `AddIndices` -/
def Generator.addIndices (config : Config) (g : Generator) (primitive : Primitive) (numVertices : ℕ) :
    Generator :=
  ⟨g.indices ++ indicesOf config primitive numVertices g.baseIndex, g.baseIndex + numVertices⟩

/-- `CanSplit` -/
def canSplit : Primitive → Bool
  | .drawQuads | .drawQuads2 | .drawTriangles | .drawLines | .drawPoints => true
  | _ => false

/-- Max is 16383, but 16380 is divisible by both 4 and 3. -/
def maxVertices : ℕ := 16380

/-- The runs of a draw. -/
def runs (primitive : Primitive) (count : ℕ) : List ℕ :=
  if canSplit primitive ∧ maxVertices < count then
    maxVertices :: runs primitive (count - maxVertices)
  else [count]
termination_by count
decreasing_by
  rw [maxVertices] at *
  omega

/-- The loop of `RunVertices`, when no vertex is skipped and the buffers have room. -/
def Generator.runVertices (config : Config) (g : Generator) (primitive : Primitive) (count : ℕ) :
    Generator :=
  if count = 0 then g
  else (runs primitive count).foldl (fun g run => g.addIndices config primitive run) g

/-! ## The values of a loop -/

theorem mem_loopValues {i step bound x : ℕ} (h : x ∈ loopValues i step bound) : i ≤ x ∧ x < bound := by
  rw [loopValues, List.mem_range'] at h
  obtain ⟨k, hk, rfl⟩ := h
  rw [loopCount] at hk
  rcases Nat.eq_zero_or_pos step with rfl | hstep
  · rw [Nat.div_zero] at hk
    omega
  have hmul := (Nat.le_div_iff_mul_le hstep).mp (Nat.succ_le_of_lt hk)
  rw [Nat.succ_mul, Nat.mul_comm] at hmul
  omega

@[simp] theorem loopCount_one (i bound : ℕ) : loopCount i 1 bound = bound - i := by
  rw [loopCount, Nat.div_one]
  omega

theorem stored_ne_restart {v : ℕ} (h : v < 0xFFFF) : (Slot.index v).stored ≠ primitiveRestart := by
  rw [Slot.stored, primitiveRestart]
  omega

end IndexGenerator
