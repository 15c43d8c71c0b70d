import Mathlib.Data.List.GetD
import PrimedSteam.VideoCommon.VertexLayout

/-!
# The components of the vertex loader

* `maskMatches`: the mask of `GetVertexComponents` has the attributes that are declared.
* `sizesAgree`: the three sizes of a vertex agree where it has a position.
-/

set_option autoImplicit false

namespace VertexLoader

open OpcodeDecoder

/-! ## The components mask -/

def vbHasPosMtxIdx : BitVec 32 := (1 : BitVec 32) <<< 1
def vbHasTexMtxIdx0 : BitVec 32 := (1 : BitVec 32) <<< 2
def vbHasNormal : BitVec 32 := (1 : BitVec 32) <<< 10
def vbHasTangent : BitVec 32 := (1 : BitVec 32) <<< 11
def vbHasBinormal : BitVec 32 := (1 : BitVec 32) <<< 12
def vbHasCol0 : BitVec 32 := (1 : BitVec 32) <<< 13
def vbHasUv0 : BitVec 32 := (1 : BitVec 32) <<< 15

/-- A loop that sets `flag << i` for each component from the `i`th on that is there. -/
def orFlags (flag : BitVec 32) : List Bool → ℕ → BitVec 32 → BitVec 32
  | [], _, components => components
  | there :: rest, i, components =>
    orFlags flag rest (i + 1) (if there then components ||| flag <<< i else components)

/-- `GetVertexComponents` -/
def getVertexComponents (d : VertexDesc) : BitVec 32 :=
  let components := if d.posMatIdx then 0 ||| vbHasPosMtxIdx else 0
  let components := orFlags vbHasTexMtxIdx0 (d.texCoords.map fun t => t.texMatIdx) 0 components
  let components :=
    if present d.normal then
      if d.ntb then (components ||| vbHasNormal) ||| (vbHasTangent ||| vbHasBinormal)
      else components ||| vbHasNormal
    else components
  let components := orFlags vbHasCol0 (d.colors.map fun c => present c.type) 0 components
  orFlags vbHasUv0 (d.texCoords.map fun t => present t.type) 0 components

/-- The fields that the constructor of the base sets. -/
structure VertexLoaderBase where
  vertexSize : ℕ
  nativeComponents : BitVec 32

def VertexLoaderBase.new (cp : CPState) (i : BitVec 3) : VertexLoaderBase :=
  ⟨cp.vertexSize i, getVertexComponents (.ofState cp i)⟩

/-- The attributes that are enabled are those of the mask; the one of a texture coordinate is also
enabled for its matrix index. -/
structure MaskMatches (components : BitVec 32) (decl : PortableVertexDeclaration) : Prop where
  posmtx : decl.posmtx.enable = components.getLsbD 1
  normals : ∀ v < 3, (decl.normals.getD v .blank).enable = components.getLsbD (10 + v)
  colors : ∀ k < 2, (decl.colors.getD k .blank).enable = components.getLsbD (13 + k)
  texcoords : ∀ k < 8, (decl.texcoords.getD k .blank).enable =
    (components.getLsbD (2 + k) || components.getLsbD (15 + k))

section Mask

theorem getLsbD_flag (k i j : ℕ) :
    (((1 : BitVec 32) <<< k) <<< i).getLsbD j = decide (j = k + i ∧ j < 32) := by
  rw [← BitVec.shiftLeft_add, BitVec.getLsbD_shiftLeft]
  have hone : (1 : BitVec 32).getLsbD (j - (k + i)) = decide (j - (k + i) = 0) := by
    simp [BitVec.getLsbD_one]
  rw [hone, Bool.eq_iff_iff]
  simp only [Bool.and_eq_true, decide_eq_true_eq, Bool.not_eq_true', decide_eq_false_iff_not]
  omega

theorem getLsbD_orFlags (k i : ℕ) (flags : List Bool) (components : BitVec 32) (j : ℕ) :
    (orFlags ((1 : BitVec 32) <<< k) flags i components).getLsbD j =
      (components.getLsbD j || (decide (k + i ≤ j ∧ j < 32) && flags.getD (j - (k + i)) false)) := by
  induction flags generalizing i components with
  | nil => simp [orFlags]
  | cons there rest ih =>
    have hfirst :
        (if there then components ||| (1 : BitVec 32) <<< k <<< i else components).getLsbD j =
        (components.getLsbD j || (there && decide (j = k + i ∧ j < 32))) := by
      cases there with
      | false => simp
      | true => rw [if_pos rfl, BitVec.getLsbD_or, getLsbD_flag, Bool.true_and]
    rw [orFlags, ih, hfirst, Bool.or_assoc]
    congr 1
    rcases Nat.lt_trichotomy j (k + i) with hlt | heq | hgt
    · have h₁ : ¬(j = k + i ∧ j < 32) := by omega
      have h₂ : ¬(k + (i + 1) ≤ j ∧ j < 32) := by omega
      have h₃ : ¬(k + i ≤ j ∧ j < 32) := by omega
      simp [h₁, h₂, h₃]
    · have h₂ : ¬(k + (i + 1) ≤ j ∧ j < 32) := by omega
      simp [heq, Bool.and_comm]
    · have h₁ : ¬(j = k + i ∧ j < 32) := by omega
      have hiff : (k + (i + 1) ≤ j ∧ j < 32) ↔ (k + i ≤ j ∧ j < 32) := by omega
      have hindex : j - (k + i) = (j - (k + (i + 1))) + 1 := by omega
      simp [h₁, hiff, hindex]

theorem enable_colors (cs : List ColorDesc) (o k : ℕ) :
    ((compileColors cs o).attributes.getD k .blank).enable =
      (cs.map fun c => present c.type).getD k false := by
  induction cs generalizing o k with
  | nil => simp [compileColors, AttributeFormat.blank]
  | cons c cs ih =>
    cases k with
    | zero =>
      simp only [compileColors, List.map_cons, List.getD_cons_zero]
      cases present c.type
      · rfl
      · rfl
    | succ k => exact ih _ k

theorem enable_texCoords (ts : List TexCoordDesc) (o k : ℕ) :
    ((compileTexCoords ts o).attributes.getD k .blank).enable =
      (ts.map fun t => t.texMatIdx || present t.type).getD k false := by
  induction ts generalizing o k with
  | nil => simp [compileTexCoords, AttributeFormat.blank]
  | cons t ts ih =>
    have hcases : (compileTexCoords (t :: ts) o).attributes =
        ⟨.float, texCoordComponents t, o, t.texMatIdx || present t.type, false⟩ ::
          (compileTexCoords ts (o + 4 * texCoordComponents t)).attributes ∨
        (compileTexCoords (t :: ts) o).attributes =
          ⟨.float, texCoordComponents t, o, t.texMatIdx || present t.type, false⟩ ::
            ts.map (fun _ => .blank) ∧
          (ts.any fun next => present next.type || next.texMatIdx) = false := by
      simp only [compileTexCoords]
      split
      · exact .inl rfl
      · split
        · exact .inl rfl
        · next hmore => exact .inr ⟨rfl, by simpa using hmore⟩
    rcases hcases with hmore | ⟨hend, hnone⟩
    · rw [hmore]
      cases k with
      | zero => rfl
      | succ k => exact ih _ k
    · rw [hend]
      cases k with
      | zero => rfl
      | succ k =>
        have hflag : (ts.map fun t => t.texMatIdx || present t.type).getD k false = false := by
          rw [List.getD_eq_getElem?_getD, List.getElem?_map]
          cases hk : ts[k]? with
          | none => rfl
          | some next =>
            have hnext := List.any_eq_false.mp hnone next (List.mem_of_getElem? hk)
            simpa [Bool.or_comm] using hnext
        have hblank : (ts.map fun _ => AttributeFormat.blank).getD k .blank = .blank := by
          rw [List.getD_eq_getElem?_getD, List.getElem?_map]
          cases ts[k]?
          · rfl
          · rfl
        rw [List.getD_cons_succ, List.map_cons, List.getD_cons_succ, hblank, hflag]
        rfl

theorem getLsbD_getVertexComponents (d : VertexDesc) (j : ℕ) (hj : j < 32) :
    (getVertexComponents d).getLsbD j =
      (decide (j = 1) && d.posMatIdx ||
        decide (2 ≤ j) && (d.texCoords.map fun t => t.texMatIdx).getD (j - 2) false ||
        (present d.normal && (decide (j = 10) || d.ntb && (decide (j = 11) || decide (j = 12)))) ||
        decide (13 ≤ j) && (d.colors.map fun c => present c.type).getD (j - 13) false ||
        decide (15 ≤ j) && (d.texCoords.map fun t => present t.type).getD (j - 15) false) := by
  have hflag : ∀ k, ((1 : BitVec 32) <<< k).getLsbD j = decide (j = k) := fun k => by
    have h := getLsbD_flag k 0 j
    simpa [hj] using h
  have hposmtx : (if d.posMatIdx then 0 ||| vbHasPosMtxIdx else 0).getLsbD j =
      (decide (j = 1) && d.posMatIdx) := by
    cases d.posMatIdx
    · simp
    · simp [show vbHasPosMtxIdx.getLsbD j = decide (j = 1) from hflag 1]
  have hnormal : ∀ components : BitVec 32,
      (if present d.normal then
        if d.ntb then (components ||| vbHasNormal) ||| (vbHasTangent ||| vbHasBinormal)
        else components ||| vbHasNormal
      else components).getLsbD j = (components.getLsbD j ||
        (present d.normal && (decide (j = 10) || d.ntb && (decide (j = 11) || decide (j = 12))))) := by
    intro components
    have h₁₀ : vbHasNormal.getLsbD j = decide (j = 10) := hflag 10
    have h₁₁ : vbHasTangent.getLsbD j = decide (j = 11) := hflag 11
    have h₁₂ : vbHasBinormal.getLsbD j = decide (j = 12) := hflag 12
    cases present d.normal
    · simp
    · cases d.ntb
      · simp [h₁₀]
      · simp [h₁₀, h₁₁, h₁₂, Bool.or_assoc]
  simp only [getVertexComponents, vbHasUv0, vbHasCol0, vbHasTexMtxIdx0, getLsbD_orFlags, hnormal,
    hposmtx, Nat.add_zero, hj, and_true]

theorem maskMatches (d : VertexDesc) (hcolors : d.colors.length = 2)
    (htexCoords : d.texCoords.length = 8) :
    MaskMatches (getVertexComponents d) (compile d).2 where
  posmtx := by
    rw [getLsbD_getVertexComponents d 1 (by decide)]
    simp only [compile, compilePosMtx]
    cases d.posMatIdx
    · simp [AttributeFormat.blank]
    · simp
  normals := by
    intro v hv
    have htex : (d.texCoords.map fun t => t.texMatIdx).getD (10 + v - 2) false = false := by
      rw [List.getD_eq_default]
      simp [htexCoords]
      omega
    rw [getLsbD_getVertexComponents d (10 + v) (by omega), htex]
    have hattributes : ∀ o, ((compileNormal d o).attributes.getD v .blank).enable =
        (present d.normal && (decide (v = 0) || d.ntb)) := by
      intro o
      simp only [compileNormal, compileNormals]
      have hcases : v = 0 ∨ v = 1 ∨ v = 2 := by omega
      rcases hcases with rfl | rfl | rfl
      · cases present d.normal <;> cases d.ntb <;> rfl
      · cases present d.normal <;> cases d.ntb <;> rfl
      · cases present d.normal <;> cases d.ntb <;> rfl
    have hcases : v = 0 ∨ v = 1 ∨ v = 2 := by omega
    simp only [compile, hattributes]
    rcases hcases with rfl | rfl | rfl
    · simp
    · simp
    · simp
  colors := by
    intro k hk
    have htex : (d.texCoords.map fun t => t.texMatIdx).getD (13 + k - 2) false = false := by
      rw [List.getD_eq_default]
      simp [htexCoords]
      omega
    rw [getLsbD_getVertexComponents d (13 + k) (by omega), htex, compile, enable_colors]
    have h₁ : 13 + k ≠ 1 := by omega
    have h₂ : 13 + k ≠ 10 ∧ 13 + k ≠ 11 ∧ 13 + k ≠ 12 := by omega
    have h₃ : ¬15 ≤ 13 + k := by omega
    simp [h₁, h₂, h₃]
  texcoords := by
    intro k hk
    have hcolor : (d.colors.map fun c => present c.type).getD (15 + k - 13) false = false := by
      rw [List.getD_eq_default]
      simp [hcolors]
      omega
    have htex : (d.texCoords.map fun t => t.texMatIdx).getD (15 + k - 2) false = false := by
      rw [List.getD_eq_default]
      simp [htexCoords]
      omega
    rw [getLsbD_getVertexComponents d (2 + k) (by omega),
      getLsbD_getVertexComponents d (15 + k) (by omega), hcolor, htex, compile, enable_texCoords]
    have h₁ : 2 + k ≠ 1 ∧ 2 + k ≠ 10 ∧ 2 + k ≠ 11 ∧ 2 + k ≠ 12 := by omega
    have h₂ : 15 + k ≠ 1 ∧ 15 + k ≠ 10 ∧ 15 + k ≠ 11 ∧ 15 + k ≠ 12 := by omega
    have h₃ : ¬13 ≤ 2 + k ∧ ¬15 ≤ 2 + k := by omega
    have hor : (d.texCoords.map fun t => t.texMatIdx || present t.type).getD k false =
        ((d.texCoords.map fun t => t.texMatIdx).getD k false ||
          (d.texCoords.map fun t => present t.type).getD k false) := by
      simp only [List.getD_eq_getElem?_getD, List.getElem?_map]
      cases d.texCoords[k]?
      · rfl
      · rfl
    rw [hor]
    simp [h₁, h₂, h₃]

end Mask

/-! ## The three sizes -/

theorem sum_size_place (offset : ℕ) (chunks : List (Component × ℕ)) :
    ((place offset chunks).map Entry.size).sum = totalSize chunks := by
  induction chunks generalizing offset with
  | nil => rfl
  | cons chunk chunks ih =>
    simp only [place, List.map_cons, List.sum_cons, ih]
    simp [totalSize]

/-- The vertices are read by the size of the constructor and written by the stride and the places of
the declaration, and the mask of the constructor has the components of the declaration. -/
def SizesAgree (cp : CPState) (i : BitVec 3) (src : ℕ → Byte) (l : Loader) (count : ℕ) : Prop :=
  let d := VertexDesc.ofState cp i
  let base := VertexLoaderBase.new cp i
  (∃ l', runVertices d src l count = some (l', kept d src count) ∧
    l'.read = count * base.vertexSize ∧ l'.write = kept d src count * (compile d).2.stride ∧
    l'.skippedVertices = count - kept d src count ∧ l'.writes = vertexWrites d src count) ∧
  (∀ offset source, ((declared offset d source).map Entry.size).sum = (compile d).2.stride) ∧
  base.nativeComponents = getVertexComponents d ∧
  MaskMatches base.nativeComponents (compile d).2

/-- With a position, and with formats of the colors that are valid. -/
theorem sizesAgree (cp : CPState) (i : BitVec 3) (src : ℕ → Byte) (l : Loader) (count : ℕ)
    (hposition : present (.ofBits (cp.vtxDescLow.extractLsb' 9 2)) = true)
    (hformats : ∀ k < 2, present (.ofBits (cp.vtxDescLow.extractLsb' (13 + 2 * k) 2)) = true →
      (cp.vtxAttr i).colorFormat k ≤ 5) :
    SizesAgree cp i src l count := by
  have hvalid : ValidColors (VertexDesc.ofState cp i).colors := by
    intro c hc hpresent
    obtain ⟨k, hk, rfl⟩ := List.mem_map.mp hc
    exact hformats k (List.mem_range.mp hk) hpresent
  obtain ⟨l', hrun, hread, hwrite, hskipped, hwrites⟩ :=
    runVertices_eq (.ofState cp i) src hposition rfl hvalid l count
  refine ⟨⟨l', hrun, ?_, hwrite, hskipped, hwrites⟩, fun offset source => ?_, rfl,
    maskMatches _ rfl rfl⟩
  · rw [hread, vertexBytes_ofState]
    rfl
  · obtain ⟨hdeclared, hstride⟩ := declared_eq offset (.ofState cp i) source
    rw [hdeclared, hstride, sum_size_place]

/-- Two matrix indexes, a position with an index of 8 bits, a normal and a color. -/
def sampleState : CPState :=
  ⟨fun _ => 0, fun _ => 0, 0, 0, 0x2c03, 0, fun _ => ⟨0, 0, 0⟩⟩

def startLoader : Loader := ⟨0, 0, 0, 0, fun _ => 0, 0, 0, false, 0, []⟩

theorem sizesAgree_sample :
    SizesAgree sampleState 0 (fun j => if j = 2 then 0xFF else 0) startLoader 3 :=
  sizesAgree sampleState 0 _ startLoader 3 (by decide) (by decide)

/-- Without a position the function is missing, and no vertex is read. -/
theorem not_sizesAgree_of_no_position :
    ¬∀ (cp : CPState) (i : BitVec 3) (src : ℕ → Byte) (l : Loader) (count : ℕ),
      (∀ k < 2, (cp.vtxAttr i).colorFormat k ≤ 5) → SizesAgree cp i src l count := by
  intro h
  obtain ⟨⟨l', hrun, -⟩, -⟩ := h
    ⟨fun _ => 0, fun _ => 0, 0, 0, 0, 0, fun _ => ⟨0, 0, 0⟩⟩ 0 (fun _ => 0) startLoader 1 (by decide)
  cases hrun

example : kept (.ofState sampleState 0) (fun j => if j = 2 then 0xFF else 0) 3 = 2 := by decide

end VertexLoader
