import PrimedSteam.VideoCommon.VertexStages

/-!
# The declaration of the vertex loader

* `declared_eq`: the declaration gives the places at which the chunks are written, and the stride.
* `runVertices_eq`: what is read, written and skipped for any number of vertices.
-/

set_option autoImplicit false

namespace VertexLoader

open OpcodeDecoder

/-! ## The declaration -/

section Declaration

variable (base : ℕ)

/-- The floats of an attribute in a vertex at `base`. -/
def floatEntries (component : ℕ → Component) (a : AttributeFormat) : List Entry :=
  if a.enable then (List.range a.components).map fun e => ⟨component e, base + a.offset + 4 * e, 4⟩
  else []

/-- The bytes of an attribute, which are written at once. -/
def byteEntries (component : Component) (a : AttributeFormat) : List Entry :=
  if a.enable then [⟨component, base + a.offset, a.components⟩] else []

def normalEntries : List AttributeFormat → ℕ → List Entry
  | [], _ => []
  | a :: rest, v => floatEntries base (.normal v) a ++ normalEntries rest (v + 1)

def colorEntries : List AttributeFormat → ℕ → List Entry
  | [], _ => []
  | a :: rest, i => byteEntries base (.color i) a ++ colorEntries rest (i + 1)

def texCoordEntries : List TexCoordDesc → List AttributeFormat → ℕ → ℕ → List Entry
  | t :: ts, a :: rest, i, source =>
    floatEntries base (texCoordElement t i source) a ++
      texCoordEntries ts rest (i + 1) (if t.texMatIdx then source + 1 else source)
  | _, _, _, _ => []

/-- The places that the declaration of a descriptor gives to the components of a vertex at `base`, of
which the matrix indexes of the texture coordinates come from `source` on. -/
def declared (d : VertexDesc) (source : ℕ) : List Entry :=
  let decl := (compile d).2
  byteEntries base .posMtx decl.posmtx ++ floatEntries base .position decl.position ++
    normalEntries base decl.normals 0 ++ colorEntries base decl.colors 0 ++
    texCoordEntries base d.texCoords decl.texcoords 0 source

end Declaration

/-- What is written for a vertex. -/
def vertexChunks (d : VertexDesc) (source : ℕ) : List (Component × ℕ) :=
  (if d.posMatIdx then [(.posMtx, 4)] else []) ++ positionChunks (if d.xyz then 3 else 2) ++
    (if present d.normal then normalChunks 0 (if d.ntb then 3 else 1) else []) ++
    colorChunks d.colors 0 ++ texCoordsChunks d.texCoords 0 source

section Layout

variable (base o : ℕ)

theorem totalSize_floats (component : ℕ → Component) (n : ℕ) :
    totalSize ((List.range n).map fun e => (component e, 4)) = 4 * n := by
  simp [totalSize, Function.comp_def, mul_comm]

theorem place_floats (component : ℕ → Component) (n : ℕ) :
    place o ((List.range n).map fun e => (component e, 4)) =
      (List.range n).map fun e => ⟨component e, o + 4 * e, 4⟩ := by
  induction n with
  | zero => rfl
  | succ n ih =>
    rw [List.range_succ, List.map_append, List.map_append, place_append, ih, totalSize_floats]
    rfl

theorem declared_posMtx (d : VertexDesc) :
    byteEntries base .posMtx ((compilePosMtx d o).attributes.headD .blank) =
        place (base + o) (if d.posMatIdx then [(.posMtx, 4)] else []) ∧
      (compilePosMtx d o).natOffset = o + totalSize (if d.posMatIdx then [(.posMtx, 4)] else []) := by
  rw [compilePosMtx]
  cases d.posMatIdx with
  | false => exact ⟨rfl, rfl⟩
  | true => exact ⟨rfl, rfl⟩

theorem declared_position (d : VertexDesc) :
    floatEntries base .position ((compilePosition d o).attributes.headD .blank) =
        place (base + o) (positionChunks (if d.xyz then 3 else 2)) ∧
      (compilePosition d o).natOffset =
        o + totalSize (positionChunks (if d.xyz then 3 else 2)) := by
  refine ⟨?_, ?_⟩
  · rw [positionChunks, place_floats]
    rfl
  · rw [totalSize_positionChunks]
    rfl

theorem declared_normal (d : VertexDesc) :
    normalEntries base (compileNormal d o).attributes 0 =
        place (base + o)
          (if present d.normal then normalChunks 0 (if d.ntb then 3 else 1) else []) ∧
      (compileNormal d o).natOffset = o + totalSize
        (if present d.normal then normalChunks 0 (if d.ntb then 3 else 1) else []) := by
  rw [compileNormal]
  cases present d.normal with
  | false => exact ⟨rfl, rfl⟩
  | true =>
    cases d.ntb with
    | false => exact ⟨rfl, rfl⟩
    | true => exact ⟨rfl, rfl⟩

theorem declared_colors (cs : List ColorDesc) (i : ℕ) :
    colorEntries base (compileColors cs o).attributes i = place (base + o) (colorChunks cs i) ∧
      (compileColors cs o).natOffset = o + totalSize (colorChunks cs i) := by
  induction cs generalizing o i with
  | nil => exact ⟨rfl, rfl⟩
  | cons c cs ih =>
    rw [colorChunks, place_append, totalSize_append]
    simp only [compileColors, colorEntries]
    cases present c.type with
    | false =>
      obtain ⟨hentries, hoffset⟩ := ih o (i + 1)
      refine ⟨?_, ?_⟩
      · simpa [byteEntries, place, totalSize] using hentries
      · simpa [totalSize] using hoffset
    | true =>
      obtain ⟨hentries, hoffset⟩ := ih (o + 4) (i + 1)
      refine ⟨?_, ?_⟩
      · simpa [byteEntries, place, totalSize, add_assoc] using hentries
      · simpa [totalSize, add_assoc] using hoffset

/-- The attributes behind the one at which the loop is left. -/
theorem texCoordEntries_blank (ts : List TexCoordDesc) (i source : ℕ) :
    texCoordEntries base ts (ts.map fun _ => .blank) i source = [] := by
  induction ts generalizing i source with
  | nil => rfl
  | cons t ts ih =>
    rw [List.map_cons, texCoordEntries, ih]
    rfl

theorem declared_texCoord (t : TexCoordDesc) (i source : ℕ) :
    floatEntries base (texCoordElement t i source)
        ⟨.float, texCoordComponents t, o, t.texMatIdx || present t.type, false⟩ =
      place (base + o) (texCoordDescChunks t i source) := by
  rw [texCoordDescChunks, place_floats, floatEntries, texCoordComponents]
  cases t.texMatIdx with
  | false =>
    cases present t.type with
    | false => rfl
    | true => rfl
  | true => rfl

theorem declared_texCoords (ts : List TexCoordDesc) (i source : ℕ) :
    texCoordEntries base ts (compileTexCoords ts o).attributes i source =
        place (base + o) (texCoordsChunks ts i source) ∧
      (compileTexCoords ts o).natOffset = o + totalSize (texCoordsChunks ts i source) := by
  induction ts generalizing o i source with
  | nil => exact ⟨rfl, rfl⟩
  | cons t ts ih =>
    have hsize : totalSize (texCoordDescChunks t i source) = 4 * texCoordComponents t :=
      totalSize_floats _ _
    obtain ⟨hentries, hoffset⟩ :=
      ih (o + 4 * texCoordComponents t) (i + 1) (if t.texMatIdx then source + 1 else source)
    rw [texCoordsChunks, place_append, totalSize_append, hsize, ← declared_texCoord, ← add_assoc,
      ← hoffset, add_assoc base, ← hentries]
    simp only [compileTexCoords]
    split
    · exact ⟨rfl, rfl⟩
    · split
      · exact ⟨rfl, rfl⟩
      · next hmore =>
        obtain ⟨hnone, -⟩ := texCoords_end ts (i + 1)
          (if t.texMatIdx then source + 1 else source) (by simpa using hmore)
        rw [texCoordEntries, texCoordEntries_blank, hentries, hoffset, hnone]
        exact ⟨rfl, rfl⟩

/-- The declaration says where the components are written, and its stride is the size of them all. -/
theorem declared_eq (d : VertexDesc) (source : ℕ) :
    declared base d source = place base (vertexChunks d source) ∧
      (compile d).2.stride = totalSize (vertexChunks d source) := by
  obtain ⟨hposmtx, hposmtxOffset⟩ := declared_posMtx base 0 d
  obtain ⟨hposition, hpositionOffset⟩ := declared_position base (compilePosMtx d 0).natOffset d
  obtain ⟨hnormal, hnormalOffset⟩ :=
    declared_normal base (compilePosition d (compilePosMtx d 0).natOffset).natOffset d
  obtain ⟨hcolors, hcolorsOffset⟩ := declared_colors base
    (compileNormal d (compilePosition d (compilePosMtx d 0).natOffset).natOffset).natOffset d.colors 0
  obtain ⟨htexcoords, htexcoordsOffset⟩ := declared_texCoords base
    (compileColors d.colors
      (compileNormal d (compilePosition d (compilePosMtx d 0).natOffset).natOffset).natOffset).natOffset
    d.texCoords 0 source
  simp only [declared, compile, vertexChunks, place_append, totalSize_append]
  rw [hposmtx, hposition, hnormal, hcolors, htexcoords, htexcoordsOffset, hcolorsOffset,
    hnormalOffset, hpositionOffset, hposmtxOffset]
  simp [add_assoc]

end Layout

/-! ## Vertices -/

section Vertices

variable (d : VertexDesc) (src : ℕ → Byte)

/-- The bytes of a vertex in the input. -/
def vertexBytes : ℕ :=
  (if d.posMatIdx then 1 else 0) + texMtxCount d.texCoords +
    positionSize d.position d.posFormat d.xyz + normalSize d.normal d.normalFormat d.ntb d.index3 +
    colorsSize d.colors + texCoordsSize d.texCoords

/-- The matrix indexes of the texture coordinates come behind that of the position. -/
def texMtxSource (read : ℕ) : ℕ := read + if d.posMatIdx then 1 else 0

/-- The vertex that starts at `read` is skipped: its position has the largest index. -/
def skips (read : ℕ) : Bool :=
  isIndexed d.position &&
    isMaxIndex src (isWide d.position) (texMtxSource d read + texMtxCount d.texCoords)

theorem run_components {stride : ℕ} (hposition : present d.position = true)
    (hcolors : d.colors.length = 2) (hvalid : ValidColors d.colors) (l : Loader)
    (htc : l.tcIndex = 0) (hcol : l.colIndex = 0) (hread : l.texMtxRead = 0)
    (hwrite : l.texMtxWrite = 0) :
    ∃ l', runStages src stride
        ((compilePosMtx d 0).stages ++ compileTexMtx d.texCoords ++
          (compilePosition d (compilePosMtx d 0).natOffset).stages ++
          (compileNormal d (compilePosition d (compilePosMtx d 0).natOffset).natOffset).stages ++
          (compileColors d.colors (compileNormal d
            (compilePosition d (compilePosMtx d 0).natOffset).natOffset).natOffset).stages ++
          (compileTexCoords d.texCoords (compileColors d.colors (compileNormal d
            (compilePosition d (compilePosMtx d 0).natOffset).natOffset).natOffset).natOffset).stages)
        l = some l' ∧
      Effect l l' (vertexBytes d) (vertexChunks d (texMtxSource d l.read)) ∧
      (isIndexed d.position = true → l'.vertexSkip = skips d src l.read) := by
  simp only [runStages_append]
  generalize (compilePosMtx d 0).natOffset = o₁
  generalize (compilePosition d o₁).natOffset = o₂
  generalize (compileNormal d o₂).natOffset = o₃
  generalize (compileColors d.colors o₃).natOffset = o₄
  obtain ⟨l₁, hrun₁, heffect₁, htc₁, hcol₁, hread₁, hwrite₁⟩ := @run_posMtx src stride l d 0
  obtain ⟨l₂, hrun₂, heffect₂, htc₂, hcol₂, hwrite₂, -, hcur₂⟩ :=
    @run_texMtx src stride d.texCoords l₁
  obtain ⟨l₃, hrun₃, heffect₃, htc₃, hcol₃, hcur₃, hwrite₃, hskip₃⟩ :=
    @run_position src stride d o₁ hposition l₂
  obtain ⟨l₄, hrun₄, heffect₄, hsame₄, hcol₄⟩ := @run_normal src stride d o₂ l₃
  obtain ⟨c₀, c₁, hpair⟩ := List.length_eq_two.mp hcolors
  obtain ⟨l₅, hrun₅, heffect₅, hsame₅⟩ := @run_colors src stride c₀ c₁ o₃ (hpair ▸ hvalid) l₄
    (hcol₄.trans (hcol₃.trans (hcol₂.trans (hcol₁.trans hcol))))
  rw [← hpair] at hrun₅ heffect₅
  have hsource : l₁.read = texMtxSource d l.read := heffect₁.read
  have htc₅ : l₅.tcIndex = 0 :=
    hsame₅.tcIndex.trans (hsame₄.tcIndex.trans (htc₃.trans (htc₂.trans (htc₁.trans htc))))
  have hwrite₅ : l₅.texMtxWrite = 0 :=
    hsame₅.texMtxWrite.trans (hsame₄.texMtxWrite.trans
      (hwrite₃.trans (hwrite₂.trans (hwrite₁.trans hwrite))))
  have hcur₅ : l₅.curTexMtx = l₂.curTexMtx :=
    hsame₅.curTexMtx.trans (hsame₄.curTexMtx.trans hcur₃)
  obtain ⟨l₆, hrun₆, heffect₆, hskip₆⟩ := @run_texCoords src stride d.texCoords o₄ 0
    (texMtxSource d l.read) l₅ (fun _ => htc₅) fun k hk => by
      rw [hwrite₅, hcur₅, Nat.zero_add, ← hsource, ← hcur₂ k hk, hread₁, hread, Nat.zero_add]
  refine ⟨l₆, ?_, ?_, fun hindexed => ?_⟩
  · rw [hrun₁, Option.bind_some, hrun₂, Option.bind_some, hrun₃, Option.bind_some, hrun₄,
      Option.bind_some, hrun₅, Option.bind_some, hrun₆]
  · have hall :=
      ((((heffect₁.trans heffect₂).trans heffect₃).trans heffect₄).trans heffect₅).trans heffect₆
    rw [List.append_nil] at hall
    exact hall
  · rw [hskip₆, hsame₅.vertexSkip, hsame₄.vertexSkip, hskip₃ hindexed, heffect₂.read, hsource, skips,
      hindexed, Bool.true_and]

/-- A vertex: the input of its size is read; the components are written where they are declared, and
the output stays behind them unless the vertex is skipped. -/
theorem runVertex_eq (hposition : present d.position = true) (hcolors : d.colors.length = 2)
    (hvalid : ValidColors d.colors) (l : Loader) :
    ∃ l', runVertex d src l = some l' ∧ l'.read = l.read + vertexBytes d ∧
      l'.write = l.write + (if skips d src l.read then 0 else (compile d).2.stride) ∧
      l'.skippedVertices = l.skippedVertices + (if skips d src l.read then 1 else 0) ∧
      l'.writes = l.writes ++ declared l.write d (texMtxSource d l.read) := by
  obtain ⟨l', hrun, heffect, hskip⟩ := run_components d src hposition hcolors hvalid
    { l with tcIndex := 0, colIndex := 0, texMtxWrite := 0, texMtxRead := 0 } rfl rfl rfl rfl
  obtain ⟨hdeclared, hstride⟩ := declared_eq l.write d (texMtxSource d l.read)
  have hcompile : runVertex d src l = (some l').bind (runStages src (compile d).2.stride
      (if isIndexed d.position then [some .skipVertex] else [])) := by
    rw [← hrun, ← runStages_append]
    rfl
  rw [hcompile, Option.bind_some, hdeclared, hstride]
  cases hindexed : isIndexed d.position with
  | false =>
    have hnot : skips d src l.read = false := by rw [skips, hindexed, Bool.false_and]
    rw [hnot]
    exact ⟨l', rfl, heffect.read, heffect.write, heffect.skippedVertices, heffect.writes⟩
  | true =>
    have hskip' : l'.vertexSkip = skips d src l.read := hskip hindexed
    rw [if_pos rfl, runStages_singleton]
    cases hskips : skips d src l.read with
    | false =>
      rw [Stage.run, hskip', hskips]
      exact ⟨l', rfl, heffect.read, heffect.write, heffect.skippedVertices, heffect.writes⟩
    | true =>
      rw [Stage.run, hskip', hskips, if_pos rfl]
      refine ⟨_, rfl, heffect.read, ?_, congrArg (· + 1) heffect.skippedVertices, heffect.writes⟩
      have hwritten : l'.write = l.write + totalSize (vertexChunks d (texMtxSource d l.read)) :=
        heffect.write
      simp only [hwritten, ← hstride, if_true]
      omega

/-- The vertices among the first `n` that are not skipped. -/
def kept (n : ℕ) : ℕ := (List.range n).countP fun j => !skips d src (j * vertexBytes d)

/-- The writes of the first `n` vertices: each at the place behind those that are kept before it. -/
def vertexWrites (n : ℕ) : List Entry :=
  (List.range n).flatMap fun j =>
    declared (kept d src j * (compile d).2.stride) d (texMtxSource d (j * vertexBytes d))

theorem kept_succ (n : ℕ) :
    kept d src (n + 1) = kept d src n + if skips d src (n * vertexBytes d) then 0 else 1 := by
  rw [kept, kept, List.range_succ, List.countP_append, List.countP_singleton]
  cases skips d src (n * vertexBytes d)
  · rfl
  · rfl

theorem kept_le (n : ℕ) : kept d src n ≤ n := by
  rw [kept]
  exact List.countP_le_length.trans_eq List.length_range

theorem runVertices_eq (hposition : present d.position = true) (hcolors : d.colors.length = 2)
    (hvalid : ValidColors d.colors) (l : Loader) (count : ℕ) :
    ∃ l', runVertices d src l count = some (l', kept d src count) ∧
      l'.read = count * vertexBytes d ∧ l'.write = kept d src count * (compile d).2.stride ∧
      l'.skippedVertices = count - kept d src count ∧ l'.writes = vertexWrites d src count := by
  have hrun : ∀ n, ∃ l', (List.range n).foldlM (fun l _ => runVertex d src l)
        { l with read := 0, write := 0, skippedVertices := 0, writes := [] } = some l' ∧
      l'.read = n * vertexBytes d ∧ l'.write = kept d src n * (compile d).2.stride ∧
      l'.skippedVertices = n - kept d src n ∧ l'.writes = vertexWrites d src n := by
    intro n
    induction n with
    | zero => exact ⟨_, rfl, (Nat.zero_mul _).symm, (Nat.zero_mul _).symm, rfl, rfl⟩
    | succ n ih =>
      obtain ⟨l₁, hrun₁, hread, hwrite, hskipped, hwrites⟩ := ih
      obtain ⟨l₂, hrun₂, hread₂, hwrite₂, hskipped₂, hwrites₂⟩ :=
        runVertex_eq d src hposition hcolors hvalid l₁
      have hkept := kept_succ d src n
      have hle := kept_le d src n
      rw [hread] at hread₂ hwrite₂ hskipped₂ hwrites₂
      refine ⟨l₂, ?_, ?_, ?_, ?_, ?_⟩
      · rw [List.range_succ, List.foldlM_append, hrun₁]
        exact congrArg (· >>= pure) hrun₂
      · rw [hread₂, Nat.succ_mul]
      · rw [hwrite₂, hwrite, hkept, Nat.add_mul]
        split
        · rw [Nat.zero_mul]
        · rw [Nat.one_mul]
      · rw [hskipped₂, hskipped, hkept]
        split <;> omega
      · rw [hwrites₂, hwrites, hwrite, vertexWrites, vertexWrites, List.range_succ, List.flatMap_append,
          List.flatMap_singleton]
  obtain ⟨l', hfold, hread, hwrite, hskipped, hwrites⟩ := hrun count
  refine ⟨l', ?_, hread, hwrite, hskipped, hwrites⟩
  have hle := kept_le d src count
  rw [runVertices, hfold, Option.map_some, hskipped, Nat.sub_sub_self hle]

end Vertices

/-- The size that the loader reads is that of `GetVertexSize`. -/
theorem vertexBytes_ofState (cp : CPState) (i : BitVec 3) :
    vertexBytes (.ofState cp i) = cp.vertexSize i := by
  have hcolors : colorsSize (VertexDesc.ofState cp i).colors =
      ((List.range 2).map fun k =>
        colorSize (.ofBits (cp.vtxDescLow.extractLsb' (13 + 2 * k) 2))
          ((cp.vtxAttr i).colorFormat k)).sum := rfl
  have htexCoords : texCoordsSize (VertexDesc.ofState cp i).texCoords =
      ((List.range 8).map fun k =>
        textCoordSize (.ofBits (cp.vtxDescHigh.extractLsb' (2 * k) 2)) ((cp.vtxAttr i).texFormat k)
          ((cp.vtxAttr i).texElements k)).sum := rfl
  have hmatrices : (List.range 9).countP (fun k => cp.vtxDescLow.getLsbD k) =
      (if (VertexDesc.ofState cp i).posMatIdx then 1 else 0) +
        texMtxCount (VertexDesc.ofState cp i).texCoords := by
    have hmatrix : texMtxCount (VertexDesc.ofState cp i).texCoords =
        (List.range 8).countP fun k => cp.vtxDescLow.getLsbD (k + 1) := by
      rw [texMtxCount, VertexDesc.ofState, List.countP_map]
      rfl
    rw [hmatrix, List.range_succ_eq_map, List.countP_cons, List.countP_map, add_comm]
    rfl
  rw [CPState.vertexSize, hmatrices, vertexBytes, hcolors, htexCoords]
  rfl

end VertexLoader
