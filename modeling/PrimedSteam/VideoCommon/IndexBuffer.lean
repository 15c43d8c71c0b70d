import PrimedSteam.VideoCommon.IndexGenerator

/-!
# The size of the index buffer

* `remainingIndices`, `Generator.remainingIndices`: how many vertices a draw may have.
* `Draws`: draws of one type of render primitive that ask for no more than that.
* `length_indicesOf_le`, `lt_of_mem_indicesOf`: what one draw writes.
* `Bounded`: the buffer is large enough, no subtraction wraps, every index is one.
* **`bounded_of_draws`**: this holds as long as not too many strips lose all their vertices.
* `strips_overflow`: strips without vertices fill the buffer; `not_bounded_of_more`: one more of them
  than the theorem allows is enough.
-/

set_option autoImplicit false

namespace IndexGenerator

open OpcodeDecoder (Primitive)

/-! ## Sizes -/

/-- `MAX_PRIMITIVES_PER_COMMAND` -/
def maxPrimitivesPerCommand : BitVec 32 := 65535

/-- `MathUtil::NextPowerOf2` -/
def nextPowerOf2 (value : BitVec 32) : BitVec 32 :=
  let value := value - 1
  let value := value ||| value >>> 1
  let value := value ||| value >>> 2
  let value := value ||| value >>> 4
  let value := value ||| value >>> 8
  let value := value ||| value >>> 16
  value + 1

/-- `MAXIBUFFERSIZE` -/
def maxIBufferSize : ℕ := (nextPowerOf2 (maxPrimitivesPerCommand * 3)).toNat

theorem maxIBufferSize_eq : maxIBufferSize = 262144 := by decide

/-- A subtraction of `u32` numbers. -/
def sub32 (a b : ℕ) : ℕ := (a + 2 ^ 32 - b) % 2 ^ 32

theorem sub32_of_le {a b : ℕ} (h : b ≤ a) (ha : a < 2 ^ 32) : sub32 a b = a - b := by
  rw [sub32]
  omega

/-- The type of the render state. -/
inductive PrimitiveType where
  | points
  | lines
  | triangles
  | triangleStrip
  deriving DecidableEq

/-- `primitive_from_gx_pr` and `primitive_from_gx` -/
def primitiveType (config : Config) : Primitive → PrimitiveType
  | .drawLines | .drawLineStrip => .lines
  | .drawPoints => .points
  | _ => if config.primitiveRestart then .triangleStrip else .triangles

/-- `VertexManagerBase::GetRemainingIndices` -/
def remainingIndices (config : Config) (g : Generator) (primitive : Primitive) : ℕ :=
  let indexLen := sub32 maxIBufferSize g.indices.length
  match primitive with
  | .drawLines =>
    if config.vsExpand then
      if config.primitiveRestart then indexLen / 5 * 2 else indexLen / 6 * 2
    else indexLen
  | .drawLineStrip =>
    if config.vsExpand then
      if config.primitiveRestart then indexLen / 5 + 1 else indexLen / 6 + 1
    else indexLen / 2 + 1
  | .drawPoints =>
    if config.vsExpand then
      if config.primitiveRestart then indexLen / 5 else indexLen / 6
    else indexLen
  | .drawQuads | .drawQuads2 => if config.primitiveRestart then indexLen / 5 * 4 else indexLen / 6 * 4
  | .drawTriangles => if config.primitiveRestart then indexLen / 4 * 3 else indexLen
  | .drawTriangleStrip => if config.primitiveRestart then sub32 indexLen 1 else indexLen / 3 + 2
  | .drawTriangleFan => if config.primitiveRestart then indexLen / 6 * 4 + 1 else indexLen / 3 + 2

/-- The largest number of vertices that indices can tell apart. -/
def maxIndex (config : Config) (primitive : Primitive) : ℕ :=
  if config.vsExpand ∧ isLineOrPoint primitive then 0xFFFF / 4 else 0xFFFF

/-- `IndexGenerator::GetRemainingIndices` -/
def Generator.remainingIndices (config : Config) (g : Generator) (primitive : Primitive) : ℕ :=
  if maxIndex config primitive < g.baseIndex then 0 else sub32 (maxIndex config primitive) g.baseIndex

/-- Strips that end in a marker. -/
def isRestartStrip (config : Config) : Primitive → Bool
  | .drawTriangleStrip => config.primitiveRestart
  | _ => false

/-- The subtractions of the two functions, what is subtracted second. -/
def subtractions (config : Config) (g : Generator) (primitive : Primitive) : List (ℕ × ℕ) :=
  (maxIBufferSize, g.indices.length) ::
    (if isRestartStrip config primitive then [(sub32 maxIBufferSize g.indices.length, 1)] else []) ++
    if maxIndex config primitive < g.baseIndex then [] else [(maxIndex config primitive, g.baseIndex)]

/-! ## Draws -/

/-- `PrepareForAdditionalData` of `count` vertices and `AddIndices` of those that were loaded. -/
structure Draw where
  primitive : Primitive
  count : ℕ
  loaded : ℕ

/-- Draws of one type, each of no more vertices than both functions allow. -/
def Draws (config : Config) (type : PrimitiveType) : Generator → List Draw → Prop
  | _, [] => True
  | g, d :: ds =>
    (primitiveType config d.primitive = type ∧ 1 ≤ d.count ∧ d.loaded ≤ d.count ∧
      d.count ≤ remainingIndices config g d.primitive ∧
      d.count ≤ g.remainingIndices config d.primitive) ∧
    Draws config type (g.addIndices config d.primitive d.loaded) ds

/-- The generator behind draws. -/
def Generator.drawAll (config : Config) (g : Generator) (ds : List Draw) : Generator :=
  ds.foldl (fun g d => g.addIndices config d.primitive d.loaded) g

/-- A strip that lost all its vertices: with primitive restart its marker is written. -/
def Draw.isEmptyStrip (config : Config) (d : Draw) : Bool :=
  isRestartStrip config d.primitive && d.loaded == 0

/-- The buffer is large enough, no subtraction wraps, and every index is one: it fits 16 bits and is
not the marker. -/
structure Bounded (config : Config) (type : PrimitiveType) (g : Generator) : Prop where
  length_le : g.indices.length ≤ maxIBufferSize
  noWrap : ∀ primitive, primitiveType config primitive = type →
    ∀ s ∈ subtractions config g primitive, s.2 ≤ s.1
  index_lt : ∀ v, Slot.index v ∈ g.indices → v < 2 ^ 16 ∧ v ≠ primitiveRestart

/-! ## What one draw writes -/

variable (config : Config) (numVerts index : ℕ)

/-- An upper bound for the slots of one vertex. -/
def slotsPerVertex : PrimitiveType → ℕ
  | .triangles => 3
  | .triangleStrip => 2
  | _ => if config.vsExpand then 6 else 2

theorem length_loopValues (i step bound : ℕ) : (loopValues i step bound).length = loopCount i step bound :=
  List.length_range' ..

theorem length_flatMap_const {f : ℕ → List Slot} {n : ℕ} (hf : ∀ i, (f i).length = n) (l : List ℕ) :
    (l.flatMap f).length = l.length * n := by
  rw [List.length_flatMap, List.map_congr_left fun i _ => hf i, List.map_const', List.sum_replicate_nat]

theorem length_writeTriangle (pr : Bool) (a b c : ℕ) :
    (writeTriangle pr a b c).length = if pr then 4 else 3 := by
  cases pr <;> rfl

theorem length_addList (pr : Bool) :
    (addList pr numVerts index).length = loopCount 2 3 numVerts * if pr then 4 else 3 := by
  rw [addList, length_flatMap_const fun _ => length_writeTriangle pr _ _ _, length_loopValues]

theorem length_addStripFrom (wind : Bool) (is : List ℕ) :
    (addStripFrom index wind is).length = is.length * 3 := by
  induction is generalizing wind with
  | nil => rfl
  | cons i is ih =>
    rw [addStripFrom, List.length_append, ih, length_writeTriangle, List.length_cons]
    simp only [Bool.false_eq_true, if_false]
    omega

theorem length_addStrip (pr : Bool) :
    (addStrip pr numVerts index).length = if pr then numVerts + 1 else (numVerts - 2) * 3 := by
  rw [addStrip]
  split
  · rw [List.length_append, List.length_map, length_loopValues, loopCount_one]
    rfl
  · rw [length_addStripFrom, length_loopValues, loopCount_one]

theorem length_addFan_le (pr : Bool) :
    (addFan pr numVerts index).length ≤ (if pr then 2 else 3) * numVerts := by
  have hsingle : ∀ i, ((loopValues i 1 numVerts).flatMap fun i =>
      writeTriangle pr index (index + i - 1) (index + i)).length = (numVerts - i) * if pr then 4 else 3 := by
    intro i
    rw [length_flatMap_const fun _ => length_writeTriangle pr _ _ _, length_loopValues, loopCount_one]
  rw [addFan]
  cases pr
  · simp only [Bool.false_eq_true, if_false] at hsingle ⊢
    rw [hsingle]
    omega
  · simp only [if_true] at hsingle ⊢
    rw [List.length_append, List.length_append, hsingle, @length_flatMap_const _ 6 fun _ => rfl,
      @length_flatMap_const _ 5 fun _ => rfl, length_loopValues, length_loopValues]
    simp only [loopEnd, loopCount]
    omega

theorem length_addQuads_le (pr : Bool) :
    (addQuads pr numVerts index).length ≤ (if pr then 2 else 3) * numVerts := by
  have hquad : ∀ i, (addQuad pr index i).length = if pr then 5 else 6 := by
    intro i
    cases pr <;> rfl
  rw [addQuads, List.length_append, length_flatMap_const hquad, length_loopValues, apply_ite List.length,
    length_writeTriangle]
  simp only [loopEnd, loopCount, List.length_nil]
  cases pr <;> simp only [Bool.false_eq_true, if_true, if_false] <;> split <;> omega

theorem length_addLines_le (pr linestrip : Bool) :
    (addLinesVSExpand pr linestrip numVerts index).length ≤ 6 * numVerts := by
  have hone : loopCount 1 (if linestrip then 1 else 2) numVerts ≤ numVerts := by
    rw [loopCount]
    cases linestrip <;> simp only [Bool.false_eq_true, if_true, if_false] <;> omega
  rw [addLinesVSExpand]
  cases pr
  · simp only [Bool.false_eq_true, if_false]
    rw [@length_flatMap_const _ 6 fun _ => rfl, length_loopValues]
    omega
  · simp only [if_true]
    rw [@length_flatMap_const _ 5 fun _ => rfl, length_loopValues]
    omega

theorem length_addPoints_le (pr : Bool) : (addPointsVSExpand pr numVerts index).length ≤ 6 * numVerts := by
  rw [addPointsVSExpand]
  cases pr
  · simp only [Bool.false_eq_true, if_false]
    rw [@length_flatMap_const _ 6 fun _ => rfl, length_loopValues, loopCount_one]
    omega
  · simp only [if_true]
    rw [@length_flatMap_const _ 5 fun _ => rfl, length_loopValues, loopCount_one]
    omega

/-- A draw writes at most so many slots for each vertex, but for a strip that has none. -/
theorem length_indicesOf_le (d : Draw) :
    (indicesOf config d.primitive d.loaded index).length ≤
      slotsPerVertex config (primitiveType config d.primitive) * d.loaded +
        (d.isEmptyStrip config).toNat := by
  obtain ⟨primitive, count, n⟩ := d
  obtain ⟨pr, vsExpand⟩ := config
  cases primitive with
  | drawQuads =>
    have hle := length_addQuads_le n index pr
    cases pr <;> exact hle.trans (Nat.le_add_right _ _)
  | drawQuads2 =>
    have hle := length_addQuads_le n index pr
    cases pr <;> exact hle.trans (Nat.le_add_right _ _)
  | drawTriangles =>
    have hlen := length_addList n index pr
    have hcount : loopCount 2 3 n * 3 ≤ n := by
      rw [loopCount]
      omega
    cases pr <;> simp [indicesOf, primitiveType, slotsPerVertex, hlen] <;> omega
  | drawTriangleStrip =>
    have hlen := length_addStrip n index pr
    cases pr
    · simp [indicesOf, primitiveType, slotsPerVertex, hlen]
      omega
    · rcases Nat.eq_zero_or_pos n with rfl | hpos
      · simp [indicesOf, primitiveType, slotsPerVertex, Draw.isEmptyStrip, isRestartStrip, hlen]
      · simp [indicesOf, primitiveType, slotsPerVertex, hlen]
        omega
  | drawTriangleFan =>
    have hle := length_addFan_le n index pr
    cases pr <;> exact hle.trans (Nat.le_add_right _ _)
  | drawLines =>
    cases vsExpand
    · have hcount : loopCount 1 2 n * 2 ≤ 2 * n := by
        rw [loopCount]
        omega
      have hlen : (addLineList n index).length = loopCount 1 2 n * 2 := by
        rw [addLineList, @length_flatMap_const _ 2 fun _ => rfl, length_loopValues]
      exact (hlen.trans_le hcount).trans (Nat.le_add_right _ _)
    · exact (length_addLines_le n index pr false).trans (Nat.le_add_right _ _)
  | drawLineStrip =>
    cases vsExpand
    · have hlen : (addLineStrip n index).length = (n - 1) * 2 := by
        rw [addLineStrip, @length_flatMap_const _ 2 fun _ => rfl, length_loopValues, loopCount_one]
      exact (hlen.trans_le (by omega)).trans (Nat.le_add_right (2 * n) _)
    · exact (length_addLines_le n index pr true).trans (Nat.le_add_right _ _)
  | drawPoints =>
    cases vsExpand
    · have hlen : (addPoints n index).length = n := by
        rw [addPoints, List.length_map, length_loopValues, loopCount_one, Nat.sub_zero]
      exact (hlen.trans_le (by omega)).trans (Nat.le_add_right (2 * n) _)
    · exact (length_addPoints_le n index pr).trans (Nat.le_add_right _ _)

theorem mem_writeTriangle {pr : Bool} {a b c v : ℕ} (h : Slot.index v ∈ writeTriangle pr a b c) :
    v = a ∨ v = b ∨ v = c := by
  cases pr <;> simpa [writeTriangle] using h

theorem lt_of_mem_addStripFrom {v : ℕ} {wind : Bool} {is : List ℕ} (his : ∀ i ∈ is, 1 ≤ i ∧ i < numVerts)
    (h : Slot.index v ∈ addStripFrom index wind is) : v < index + numVerts := by
  induction is generalizing wind with
  | nil => exact absurd h List.not_mem_nil
  | cons i is ih =>
    rw [List.forall_mem_cons] at his
    rcases List.mem_append.mp h with h | h
    · have hv := mem_writeTriangle h
      omega
    · exact ih his.2 h

/-- Every index of a draw is that of one of its vertices, four for one vertex where the shader
expands it. -/
theorem lt_of_mem_indicesOf {primitive : Primitive} {v : ℕ}
    (h : Slot.index v ∈ indicesOf config primitive numVerts index) :
    v < if config.vsExpand ∧ isLineOrPoint primitive then (index + numVerts) * 4 else index + numVerts := by
  obtain ⟨pr, vsExpand⟩ := config
  have hquads : Slot.index v ∈ addQuads pr numVerts index → v < index + numVerts := by
    intro h
    rcases List.mem_append.mp h with h | h
    · obtain ⟨i, hi, h⟩ := List.mem_flatMap.mp h
      have hbounds := mem_loopValues hi
      cases pr <;> simp [addQuad, writeTriangle] at h <;> omega
    · split at h
      · next hend =>
        rw [loopEnd] at hend
        have hv := mem_writeTriangle h
        omega
      · exact absurd h List.not_mem_nil
  have hfan : ∀ i, 2 ≤ i → Slot.index v ∈ ((loopValues i 1 numVerts).flatMap fun i =>
      writeTriangle pr index (index + i - 1) (index + i)) → v < index + numVerts := by
    intro i hi h
    obtain ⟨j, hj, h⟩ := List.mem_flatMap.mp h
    have hbounds := mem_loopValues hj
    have hv := mem_writeTriangle h
    omega
  have hlines : ∀ linestrip, Slot.index v ∈ addLinesVSExpand pr linestrip numVerts index →
      v < (index + numVerts) * 4 := by
    intro linestrip h
    obtain ⟨i, hi, h⟩ := List.mem_flatMap.mp h
    have hbounds := mem_loopValues hi
    cases pr <;> simp at h <;> omega
  cases primitive with
  | drawQuads => simpa [isLineOrPoint] using hquads h
  | drawQuads2 => simpa [isLineOrPoint] using hquads h
  | drawTriangles =>
    obtain ⟨i, hi, h⟩ := List.mem_flatMap.mp h
    have hbounds := mem_loopValues hi
    have hv := mem_writeTriangle h
    simp only [isLineOrPoint, Bool.false_eq_true, and_false, if_false]
    omega
  | drawTriangleStrip =>
    simp only [isLineOrPoint, Bool.false_eq_true, and_false, if_false]
    cases pr
    · exact lt_of_mem_addStripFrom numVerts index
        (fun i hi => ⟨by have := mem_loopValues hi; omega, (mem_loopValues hi).2⟩) h
    · rcases List.mem_append.mp h with h | h
      · obtain ⟨i, hi, heq⟩ := List.mem_map.mp h
        have hbounds := mem_loopValues hi
        cases heq
        omega
      · simp at h
  | drawTriangleFan =>
    simp only [isLineOrPoint, Bool.false_eq_true, and_false, if_false]
    have hend : 2 ≤ loopEnd 2 3 (numVerts - 2) := Nat.le_add_right 2 _
    cases pr
    · exact hfan 2 le_rfl h
    · rcases List.mem_append.mp h with h | h
      · obtain ⟨i, hi, h⟩ := List.mem_flatMap.mp h
        have hbounds := mem_loopValues hi
        simp [fanOfThree] at h
        omega
      rcases List.mem_append.mp h with h | h
      · obtain ⟨i, hi, h⟩ := List.mem_flatMap.mp h
        have hbounds := mem_loopValues hi
        simp [fanOfTwo] at h
        omega
      · exact hfan _ (hend.trans (Nat.le_add_right _ _)) h
  | drawLines =>
    cases vsExpand
    · obtain ⟨i, hi, h⟩ := List.mem_flatMap.mp h
      have hbounds := mem_loopValues hi
      simp at h ⊢
      omega
    · exact hlines false h
  | drawLineStrip =>
    cases vsExpand
    · obtain ⟨i, hi, h⟩ := List.mem_flatMap.mp h
      have hbounds := mem_loopValues hi
      simp at h ⊢
      omega
    · exact hlines true h
  | drawPoints =>
    cases vsExpand
    · obtain ⟨i, hi, heq⟩ := List.mem_map.mp h
      have hbounds := mem_loopValues hi
      cases heq
      simp
      omega
    · obtain ⟨i, hi, h⟩ := List.mem_flatMap.mp h
      have hbounds := mem_loopValues hi
      simp only [isLineOrPoint, and_self, if_true]
      cases pr <;> simp at h <;> omega

/-! ## Runs of draws -/

/-- The vertices that the type of a primitive can tell apart. -/
def typeMaxIndex : PrimitiveType → ℕ
  | .lines | .points => if config.vsExpand then 0xFFFF / 4 else 0xFFFF
  | _ => 0xFFFF

theorem maxIndex_eq (primitive : Primitive) :
    maxIndex config primitive = typeMaxIndex config (primitiveType config primitive) := by
  obtain ⟨pr, vsExpand⟩ := config
  cases primitive <;> cases pr <;> cases vsExpand <;> rfl

/-- No type reaches the end of the buffer with the indices it has. -/
theorem slots_lt (type : PrimitiveType) :
    slotsPerVertex config type * typeMaxIndex config type + (if type = .triangleStrip then 131073 else 0) <
      maxIBufferSize := by
  rw [maxIBufferSize_eq]
  obtain ⟨pr, vsExpand⟩ := config
  cases type <;> cases pr <;> cases vsExpand <;> decide

/-- What holds behind draws of one type, `emptyStrips` of which were strips without vertices. -/
structure Filled (type : PrimitiveType) (emptyStrips : ℕ) (g : Generator) : Prop where
  baseIndex_le : g.baseIndex ≤ typeMaxIndex config type
  length_le : g.indices.length ≤ slotsPerVertex config type * g.baseIndex + emptyStrips
  index_lt : ∀ v, Slot.index v ∈ g.indices → v < 0xFFFF
  emptyStrips_eq : type ≠ .triangleStrip → emptyStrips = 0

variable {config} {type : PrimitiveType} {g : Generator}

theorem filled_start : Filled config type 0 .start :=
  ⟨Nat.zero_le _, Nat.zero_le _, fun _ h => absurd h List.not_mem_nil, fun _ => rfl⟩

theorem remainingIndices_eq {n : ℕ} (h : Filled config type n g) {primitive : Primitive}
    (hp : primitiveType config primitive = type) :
    g.remainingIndices config primitive = typeMaxIndex config type - g.baseIndex := by
  have hle := h.baseIndex_le
  have hmax : typeMaxIndex config type < 2 ^ 32 := by
    cases type <;> simp only [typeMaxIndex] <;> first | omega | (split <;> omega)
  rw [Generator.remainingIndices, maxIndex_eq, hp, if_neg (Nat.not_lt.mpr hle), sub32_of_le hle hmax]

theorem isEmptyStrip_type {d : Draw} (h : d.isEmptyStrip config = true) :
    primitiveType config d.primitive = .triangleStrip := by
  obtain ⟨primitive, count, loaded⟩ := d
  cases primitive <;> simp [Draw.isEmptyStrip, isRestartStrip] at h
  simp [primitiveType, h.1]

theorem Filled.addIndices {n : ℕ} (h : Filled config type n g) {d : Draw}
    (hp : primitiveType config d.primitive = type) (hloaded : d.loaded ≤ d.count)
    (hcount : d.count ≤ g.remainingIndices config d.primitive) :
    Filled config type (n + (d.isEmptyStrip config).toNat) (g.addIndices config d.primitive d.loaded) where
  baseIndex_le := by
    have hle := h.baseIndex_le
    rw [remainingIndices_eq h hp] at hcount
    rw [Generator.addIndices]
    dsimp only
    omega
  length_le := by
    have hwritten := length_indicesOf_le config g.baseIndex d
    have hle := h.length_le
    rw [hp] at hwritten
    rw [Generator.addIndices]
    dsimp only
    rw [List.length_append, Nat.mul_add]
    omega
  index_lt := by
    intro v hv
    rcases List.mem_append.mp hv with hv | hv
    · exact h.index_lt v hv
    have hlt := lt_of_mem_indicesOf config d.loaded g.baseIndex hv
    have hle := h.baseIndex_le
    rw [remainingIndices_eq h hp, ← hp, ← maxIndex_eq, maxIndex] at hcount
    rw [← hp, ← maxIndex_eq, maxIndex] at hle
    by_cases hexpand : config.vsExpand ∧ isLineOrPoint d.primitive
    · rw [if_pos hexpand] at hlt hcount hle
      omega
    · rw [if_neg hexpand] at hlt hcount hle
      omega
  emptyStrips_eq := by
    intro htype
    have hnone : d.isEmptyStrip config = false := by
      by_contra hd
      exact htype (hp ▸ isEmptyStrip_type (Bool.eq_true_of_not_eq_false hd))
    rw [h.emptyStrips_eq htype, hnone]
    rfl

theorem Filled.drawAll {n : ℕ} (h : Filled config type n g) {ds : List Draw}
    (hds : Draws config type g ds) :
    Filled config type (n + ds.countP (·.isEmptyStrip config)) (g.drawAll config ds) := by
  induction ds generalizing g n with
  | nil => exact h
  | cons d ds ih =>
    obtain ⟨⟨hp, -, hloaded, -, hcount⟩, hrest⟩ := hds
    have hall := ih (h.addIndices hp hloaded hcount) hrest
    rw [Nat.add_assoc] at hall
    have hcountP : (d :: ds).countP (·.isEmptyStrip config) =
        (d.isEmptyStrip config).toNat + ds.countP (·.isEmptyStrip config) := by
      rw [List.countP_cons, Nat.add_comm]
      cases d.isEmptyStrip config <;> rfl
    rw [hcountP]
    exact hall

theorem Filled.bounded {n : ℕ} (h : Filled config type n g) (hn : n ≤ 131073) : Bounded config type g := by
  have hslots := slots_lt config type
  have hbase := Nat.mul_le_mul_left (slotsPerVertex config type) h.baseIndex_le
  have hlen : g.indices.length < maxIBufferSize := by
    have hle := h.length_le
    have hzero := h.emptyStrips_eq
    by_cases htype : type = .triangleStrip
    · rw [if_pos htype] at hslots
      omega
    · rw [if_neg htype] at hslots
      have hzero := hzero htype
      omega
  refine ⟨hlen.le, fun primitive hp s hs => ?_, fun v hv => ?_⟩
  · have hmax := h.baseIndex_le
    rw [subtractions, List.cons_append, List.mem_cons, List.mem_append] at hs
    rcases hs with rfl | hs | hs
    · exact hlen.le
    · have hsub : sub32 maxIBufferSize g.indices.length = maxIBufferSize - g.indices.length :=
        sub32_of_le hlen.le (by decide)
      split at hs
      · rw [List.mem_singleton.mp hs]
        dsimp only
        omega
      · exact absurd hs List.not_mem_nil
    · rw [maxIndex_eq, hp, if_neg (Nat.not_lt.mpr hmax), List.mem_singleton] at hs
      rw [hs]
      exact hmax
  · have hlt := h.index_lt v hv
    rw [primitiveRestart]
    omega

/-- **The buffer is large enough** for every run of draws of one type that has no more than 131073
strips that lost all their vertices. -/
theorem bounded_of_draws (config : Config) (type : PrimitiveType) (ds : List Draw)
    (hds : Draws config type .start ds) (hempty : ds.countP (·.isEmptyStrip config) ≤ 131073) :
    Bounded config type (Generator.start.drawAll config ds) := by
  have h := filled_start.drawAll hds
  rw [Nat.zero_add] at h
  exact h.bounded hempty

theorem bounded_of_draws_fan :
    Bounded ⟨true, false⟩ .triangleStrip
      (Generator.start.drawAll ⟨true, false⟩ [⟨.drawTriangleFan, 9, 9⟩, ⟨.drawTriangleStrip, 4, 0⟩]) := by
  refine bounded_of_draws ⟨true, false⟩ .triangleStrip _ ?_ (by decide)
  simp only [Draws]
  decide

/-! ## Strips without vertices -/

/-- A strip of one vertex, which the loader skips. -/
def skippedStrip : Draw := ⟨.drawTriangleStrip, 1, 0⟩

/-- A strip of one vertex. -/
def singleStrip : Draw := ⟨.drawTriangleStrip, 1, 1⟩

theorem draws_append (config : Config) (type : PrimitiveType) (g : Generator) (ds ds' : List Draw) :
    Draws config type g (ds ++ ds') ↔
      Draws config type g ds ∧ Draws config type (g.drawAll config ds) ds' := by
  induction ds generalizing g with
  | nil => exact ⟨fun h => ⟨trivial, h⟩, And.right⟩
  | cons d ds ih =>
    have hfirst : g.drawAll config (d :: ds) =
        (g.addIndices config d.primitive d.loaded).drawAll config ds := rfl
    rw [List.cons_append, Draws, Draws, ih, hfirst]
    exact and_assoc.symm

theorem drawAll_append (config : Config) (g : Generator) (ds ds' : List Draw) :
    g.drawAll config (ds ++ ds') = (g.drawAll config ds).drawAll config ds' := List.foldl_append

/-- A strip with one vertex to ask for is drawn as long as two slots are left. -/
theorem draws_strip {g : Generator} (hlen : g.indices.length + 2 ≤ maxIBufferSize)
    (hbase : g.baseIndex < 0xFFFF) {d : Draw} (hp : d.primitive = .drawTriangleStrip) (hcount : d.count = 1)
    (hloaded : d.loaded ≤ 1) {ds : List Draw}
    (hrest : Draws ⟨true, false⟩ .triangleStrip (g.addIndices ⟨true, false⟩ d.primitive d.loaded) ds) :
    Draws ⟨true, false⟩ .triangleStrip g (d :: ds) := by
  have hmax := maxIBufferSize_eq
  refine ⟨⟨by rw [hp]; rfl, hcount.ge, hloaded.trans hcount.ge, ?_, ?_⟩, hrest⟩
  · rw [hp, hcount, remainingIndices]
    dsimp only
    have hsub : sub32 maxIBufferSize g.indices.length = maxIBufferSize - g.indices.length :=
      sub32_of_le (by omega) (by omega)
    rw [if_pos rfl, hsub, sub32_of_le (by omega) (by omega)]
    omega
  · rw [hp, hcount, Generator.remainingIndices, show maxIndex ⟨true, false⟩ .drawTriangleStrip = 0xFFFF from rfl,
      if_neg (by omega), sub32_of_le hbase.le (by omega)]
    omega

theorem drawAll_skipped (g : Generator) (k : ℕ) :
    g.drawAll ⟨true, false⟩ (List.replicate k skippedStrip) =
      ⟨g.indices ++ List.replicate k .restart, g.baseIndex⟩ := by
  induction k generalizing g with
  | zero => rw [List.replicate_zero, List.replicate_zero, List.append_nil]; rfl
  | succ k ih =>
    have hone : g.addIndices ⟨true, false⟩ skippedStrip.primitive skippedStrip.loaded =
        ⟨g.indices ++ [.restart], g.baseIndex⟩ := rfl
    rw [List.replicate_succ, Generator.drawAll, List.foldl_cons, hone]
    exact (ih _).trans (by rw [List.append_assoc, List.replicate_succ, List.singleton_append])

theorem drawAll_single (g : Generator) :
    g.drawAll ⟨true, false⟩ [singleStrip] =
      ⟨g.indices ++ [.index (g.baseIndex + 0), .restart], g.baseIndex + 1⟩ := rfl

theorem draws_skipped {g : Generator} (hbase : g.baseIndex < 0xFFFF) (k : ℕ)
    (hlen : g.indices.length + k < maxIBufferSize) :
    Draws ⟨true, false⟩ .triangleStrip g (List.replicate k skippedStrip) := by
  induction k generalizing g with
  | zero => trivial
  | succ k ih =>
    refine draws_strip (by omega) hbase rfl rfl (by decide) (ih hbase ?_)
    rw [Generator.addIndices, List.length_append, show (indicesOf ⟨true, false⟩ skippedStrip.primitive
      skippedStrip.loaded g.baseIndex).length = 1 from rfl]
    omega

/-- 262142 strips without a vertex leave two slots, which the next strip takes. -/
def overflowing : List Draw := List.replicate 262142 skippedStrip ++ [singleStrip, singleStrip]

/-- The index buffer as it is before the last draw. -/
def fullGenerator : Generator :=
  ⟨List.replicate 262142 .restart ++ [.index 0, .restart], 1⟩

theorem drawAll_full :
    Generator.start.drawAll ⟨true, false⟩ (List.replicate 262142 skippedStrip ++ [singleStrip]) =
      fullGenerator := by
  rw [drawAll_append, drawAll_skipped, drawAll_single, Generator.start, List.nil_append]
  rfl

theorem length_fullGenerator : fullGenerator.indices.length = maxIBufferSize := by
  rw [fullGenerator, List.length_append, List.length_replicate, maxIBufferSize_eq]
  rfl

/-- With nothing left the number of the vertices that a strip may have wraps. -/
theorem strip_of_full {g : Generator} (hlen : g.indices.length = maxIBufferSize) :
    remainingIndices ⟨true, false⟩ g .drawTriangleStrip = 2 ^ 32 - 1 ∧
      (g.drawAll ⟨true, false⟩ [singleStrip]).indices.length = maxIBufferSize + 2 := by
  constructor
  · rw [remainingIndices]
    dsimp only
    rw [hlen, if_pos rfl, maxIBufferSize_eq]
    decide
  · rw [drawAll_single, List.length_append, hlen]
    rfl

theorem draws_of_wrapped {g : Generator}
    (hwrap : remainingIndices ⟨true, false⟩ g .drawTriangleStrip = 2 ^ 32 - 1)
    (hbase : 1 ≤ g.remainingIndices ⟨true, false⟩ .drawTriangleStrip) :
    Draws ⟨true, false⟩ .triangleStrip g [singleStrip] := by
  refine ⟨⟨rfl, le_rfl, le_rfl, ?_, hbase⟩, trivial⟩
  exact (by decide : 1 ≤ 2 ^ 32 - 1).trans hwrap.ge

/-- A run of draws, each of which is allowed, after which nothing is left of the buffer: the number of
the vertices that a strip may have wraps, and the next strip is written behind the buffer. -/
theorem strips_overflow :
    Draws ⟨true, false⟩ .triangleStrip .start overflowing ∧
      remainingIndices ⟨true, false⟩ fullGenerator .drawTriangleStrip = 2 ^ 32 - 1 ∧
      (Generator.start.drawAll ⟨true, false⟩ overflowing).indices.length = maxIBufferSize + 2 ∧
      ¬Bounded ⟨true, false⟩ .triangleStrip (Generator.start.drawAll ⟨true, false⟩ overflowing) := by
  have hmax := maxIBufferSize_eq
  have hsplit : overflowing = (List.replicate 262142 skippedStrip ++ [singleStrip]) ++ [singleStrip] := by
    rw [overflowing, List.append_assoc]
    rfl
  obtain ⟨hwrap, hlast⟩ := strip_of_full length_fullGenerator
  have hlen : (Generator.start.drawAll ⟨true, false⟩ overflowing).indices.length = maxIBufferSize + 2 := by
    rw [hsplit, drawAll_append, drawAll_full]
    exact hlast
  refine ⟨?_, hwrap, hlen, fun h => ?_⟩
  · rw [hsplit, draws_append, drawAll_full, draws_append, drawAll_skipped]
    refine ⟨⟨draws_skipped (by decide) 262142 ?_, draws_strip ?_ (by decide) rfl rfl le_rfl trivial⟩, ?_⟩
    · rw [hmax]
      decide
    · have hzero : Generator.start.indices.length = 0 := rfl
      simp only [List.length_append, List.length_replicate, hzero]
      omega
    · exact draws_of_wrapped hwrap (by decide)
  · have hle := h.length_le
    rw [hlen] at hle
    omega

/-! ## The number of strips -/

theorem drawAll_singles (g : Generator) (k : ℕ) :
    (g.drawAll ⟨true, false⟩ (List.replicate k singleStrip)).indices.length = g.indices.length + 2 * k := by
  induction k generalizing g with
  | zero => rfl
  | succ k ih =>
    rw [List.replicate_succ, ← List.singleton_append, drawAll_append, drawAll_single, ih, List.length_append,
      List.length_cons, List.length_singleton]
    omega

theorem draws_singles {g : Generator} (k : ℕ) (hbase : g.baseIndex + k ≤ 0xFFFF)
    (hlen : g.indices.length + 2 * k ≤ maxIBufferSize) :
    Draws ⟨true, false⟩ .triangleStrip g (List.replicate k singleStrip) := by
  induction k generalizing g with
  | zero => trivial
  | succ k ih =>
    have hone : g.addIndices ⟨true, false⟩ singleStrip.primitive singleStrip.loaded =
        ⟨g.indices ++ [.index (g.baseIndex + 0), .restart], g.baseIndex + 1⟩ := rfl
    rw [List.replicate_succ]
    refine draws_strip (by omega) (by omega) rfl rfl le_rfl ?_
    rw [hone]
    refine ih (by simp only; omega) ?_
    rw [List.length_append, List.length_cons, List.length_singleton]
    omega

/-- One more strip without vertices than `bounded_of_draws` asks for is enough. -/
theorem not_bounded_of_more :
    ∃ ds, Draws ⟨true, false⟩ .triangleStrip .start ds ∧
      ds.countP (·.isEmptyStrip ⟨true, false⟩) = 131074 ∧
      ¬Bounded ⟨true, false⟩ .triangleStrip (Generator.start.drawAll ⟨true, false⟩ ds) := by
  have hmax := maxIBufferSize_eq
  have hzero : Generator.start.indices.length = 0 := rfl
  refine ⟨List.replicate 131074 skippedStrip ++ List.replicate 65535 singleStrip, ?_, ?_, fun h => ?_⟩
  · rw [draws_append, drawAll_skipped]
    refine ⟨draws_skipped (by decide) _ (by omega), draws_singles _ (by decide) ?_⟩
    simp only [List.length_append, List.length_replicate, hzero]
    omega
  · have hskipped : skippedStrip.isEmptyStrip ⟨true, false⟩ = true := rfl
    have hsingle : singleStrip.isEmptyStrip ⟨true, false⟩ = false := rfl
    rw [List.countP_append, List.countP_replicate, List.countP_replicate, if_pos hskipped, hsingle,
      if_neg Bool.false_ne_true]
  · have hfull : (Generator.start.drawAll ⟨true, false⟩
        (List.replicate 131074 skippedStrip ++ List.replicate 65535 singleStrip)).indices.length =
        maxIBufferSize := by
      rw [drawAll_append, drawAll_singles, drawAll_skipped]
      simp only [List.length_append, List.length_replicate, hzero]
      omega
    have hwrap := h.noWrap .drawTriangleStrip rfl
    generalize Generator.start.drawAll _ _ = g at hfull hwrap
    rw [subtractions, hfull] at hwrap
    have hone := hwrap (sub32 maxIBufferSize maxIBufferSize, 1) (by simp [isRestartStrip])
    rw [hmax] at hone
    exact absurd hone (by decide)

end IndexGenerator
