import PrimedSteam.VideoCommon.VertexLoader

/-!
# What the stages of the vertex loader do

* `Effect`: the bytes that are read and the chunks that are written.
* `run_position`, `run_normal`, `run_colors`, `run_texCoords`: the effect of each part of the
  pipeline, with the sizes of `GetVertexSize`.
-/

set_option autoImplicit false

namespace VertexLoader

open OpcodeDecoder

/-! ## Effects -/

/-- The writes of chunks from an offset on. -/
def place (offset : ℕ) : List (Component × ℕ) → List Entry
  | [] => []
  | chunk :: chunks => ⟨chunk.1, offset, chunk.2⟩ :: place (offset + chunk.2) chunks

def totalSize (chunks : List (Component × ℕ)) : ℕ := (chunks.map Prod.snd).sum

theorem totalSize_append (chunks chunks' : List (Component × ℕ)) :
    totalSize (chunks ++ chunks') = totalSize chunks + totalSize chunks' := by
  simp [totalSize]

theorem place_append (offset : ℕ) (chunks chunks' : List (Component × ℕ)) :
    place offset (chunks ++ chunks') =
      place offset chunks ++ place (offset + totalSize chunks) chunks' := by
  induction chunks generalizing offset with
  | nil => simp [place, totalSize]
  | cons chunk chunks ih => simp [place, ih, totalSize, add_assoc]

/-- `bytes` are read and `chunks` are written. -/
structure Effect (l l' : Loader) (bytes : ℕ) (chunks : List (Component × ℕ)) : Prop where
  read : l'.read = l.read + bytes
  write : l'.write = l.write + totalSize chunks
  writes : l'.writes = l.writes ++ place l.write chunks
  skippedVertices : l'.skippedVertices = l.skippedVertices

namespace Effect

variable {l l' l'' : Loader} {bytes bytes' : ℕ} {chunks chunks' : List (Component × ℕ)}

theorem refl (l : Loader) : Effect l l 0 [] := ⟨rfl, rfl, by simp [place], rfl⟩

theorem trans (h : Effect l l' bytes chunks) (h' : Effect l' l'' bytes' chunks') :
    Effect l l'' (bytes + bytes') (chunks ++ chunks') where
  read := by rw [h'.read, h.read, add_assoc]
  write := by rw [h'.write, h.write, totalSize_append, add_assoc]
  writes := by rw [h'.writes, h.writes, h.write, place_append, List.append_assoc]
  skippedVertices := h'.skippedVertices.trans h.skippedVertices

end Effect

section Writes

variable (l : Loader) (chunks : List (Component × ℕ))

theorem dataWrites_eq : l.dataWrites chunks =
    { l with
      write := l.write + totalSize chunks
      writes := l.writes ++ place l.write chunks } := by
  induction chunks generalizing l with
  | nil => simp [Loader.dataWrites, place, totalSize]
  | cons chunk chunks ih =>
    have hcons : l.dataWrites (chunk :: chunks) = (l.dataWrite chunk).dataWrites chunks := rfl
    rw [hcons, ih]
    simp [Loader.dataWrite, place, totalSize, add_assoc]

end Writes

theorem totalSize_positionChunks (n : ℕ) : totalSize (positionChunks n) = n * 4 := by
  simp [totalSize, positionChunks, Function.comp_def]

/-- The fields that only some functions change. -/
structure SameCounters (l l' : Loader) : Prop where
  tcIndex : l'.tcIndex = l.tcIndex
  curTexMtx : l'.curTexMtx = l.curTexMtx
  texMtxWrite : l'.texMtxWrite = l.texMtxWrite
  vertexSkip : l'.vertexSkip = l.vertexSkip

theorem SameCounters.trans {l l' l'' : Loader} (h : SameCounters l l') (h' : SameCounters l' l'') :
    SameCounters l l'' :=
  ⟨h'.tcIndex.trans h.tcIndex, h'.curTexMtx.trans h.curTexMtx, h'.texMtxWrite.trans h.texMtxWrite,
    h'.vertexSkip.trans h.vertexSkip⟩

theorem effect_skip_write (l : Loader) (bytes : ℕ) (chunks : List (Component × ℕ)) :
    Effect l ((l.dataSkip bytes).dataWrites chunks) bytes chunks ∧
      SameCounters l ((l.dataSkip bytes).dataWrites chunks) ∧
      ((l.dataSkip bytes).dataWrites chunks).colIndex = l.colIndex := by
  rw [dataWrites_eq]
  exact ⟨⟨rfl, rfl, rfl, rfl⟩, ⟨rfl, rfl, rfl, rfl⟩, rfl⟩

theorem normalChunks_three :
    normalChunks 0 1 ++ (normalChunks 1 1 ++ normalChunks 2 1) = normalChunks 0 3 := rfl

/-! ## Stages -/

section Stages

variable {src : ℕ → Byte} {stride : ℕ} {l : Loader}

theorem runStages_append (stages stages' : List (Option Stage)) (l : Loader) :
    runStages src stride (stages ++ stages') l =
      (runStages src stride stages l).bind (runStages src stride stages') :=
  List.foldlM_append

theorem runStages_singleton (stage : Stage) (l : Loader) :
    runStages src stride [some stage] l = some (stage.run src stride l) := rfl

theorem run_posMtx (d : VertexDesc) (o : ℕ) :
    ∃ l', runStages src stride (compilePosMtx d o).stages l = some l' ∧
      Effect l l' (if d.posMatIdx then 1 else 0) (if d.posMatIdx then [(.posMtx, 4)] else []) ∧
      l'.tcIndex = l.tcIndex ∧ l'.colIndex = l.colIndex ∧ l'.texMtxRead = l.texMtxRead ∧
      l'.texMtxWrite = l.texMtxWrite := by
  rw [compilePosMtx]
  split
  · exact ⟨_, rfl, ⟨rfl, rfl, rfl, rfl⟩, rfl, rfl, rfl, rfl⟩
  · exact ⟨l, rfl, .refl l, rfl, rfl, rfl, rfl⟩

/-- The number of the matrix indexes. -/
def texMtxCount (ts : List TexCoordDesc) : ℕ := ts.countP (·.texMatIdx)

theorem run_texMtx (ts : List TexCoordDesc) (l : Loader) :
    ∃ l', runStages src stride (compileTexMtx ts) l = some l' ∧
      Effect l l' (texMtxCount ts) [] ∧ l'.tcIndex = l.tcIndex ∧ l'.colIndex = l.colIndex ∧
      l'.texMtxWrite = l.texMtxWrite ∧
      (∀ k < l.texMtxRead, l'.curTexMtx k = l.curTexMtx k) ∧
      ∀ k < texMtxCount ts, l'.curTexMtx (l.texMtxRead + k) = l.read + k := by
  induction ts generalizing l with
  | nil =>
    exact ⟨l, rfl, .refl l, rfl, rfl, rfl, fun _ _ => rfl, fun k hk => absurd hk (Nat.not_lt_zero k)⟩
  | cons t ts ih =>
    cases ht : t.texMatIdx with
    | false =>
      have hcount : texMtxCount (t :: ts) = texMtxCount ts := by simp [texMtxCount, ht]
      rw [compileTexMtx, ht, hcount]
      exact ih l
    | true =>
      have hcount : texMtxCount (t :: ts) = 1 + texMtxCount ts := by
        simp [texMtxCount, ht, add_comm]
      rw [compileTexMtx, ht, hcount, if_pos rfl, runStages_append, runStages_singleton,
        Option.bind_some]
      obtain ⟨l', hrun, heffect, htc, hcol, hwrite, hbefore, hcur⟩ :=
        ih (Stage.texMtxReadDirect.run src stride l)
      have hfirst : Effect l (Stage.texMtxReadDirect.run src stride l) 1 [] :=
        ⟨rfl, rfl, by simp [Stage.run, place, Loader.dataSkip], rfl⟩
      refine ⟨l', hrun, hfirst.trans heffect, htc, hcol, hwrite, fun k hk => ?_, fun k hk => ?_⟩
      · rw [hbefore k (hk.trans (Nat.lt_succ_self _))]
        exact Function.update_of_ne hk.ne _ _
      · cases k with
        | zero =>
          rw [Nat.add_zero, hbefore _ (Nat.lt_succ_self _)]
          exact Function.update_self _ _ _
        | succ k =>
          have hk' := hcur k (by omega)
          rw [show l.texMtxRead + (k + 1) = l.texMtxRead + 1 + k by omega,
            show l.read + (k + 1) = l.read + 1 + k by omega]
          exact hk'

/-- The position, of which the index decides whether the vertex is skipped. -/
theorem run_position (d : VertexDesc) (o : ℕ) (hpresent : present d.position = true) (l : Loader) :
    ∃ l', runStages src stride (compilePosition d o).stages l = some l' ∧
      Effect l l' (positionSize d.position d.posFormat d.xyz)
        (positionChunks (if d.xyz then 3 else 2)) ∧
      l'.tcIndex = l.tcIndex ∧ l'.colIndex = l.colIndex ∧ l'.curTexMtx = l.curTexMtx ∧
      l'.texMtxWrite = l.texMtxWrite ∧
      (isIndexed d.position = true → l'.vertexSkip = isMaxIndex src (isWide d.position) l.read) := by
  rw [compilePosition, positionFunction.eq_def]
  cases hposition : d.position with
  | notPresent =>
    rw [hposition] at hpresent
    cases hpresent
  | direct =>
    refine ⟨_, rfl, ?_⟩
    rw [Stage.run, dataWrites_eq]
    exact ⟨⟨rfl, rfl, rfl, rfl⟩, rfl, rfl, rfl, rfl, fun h => absurd h Bool.false_ne_true⟩
  | index8 =>
    refine ⟨_, rfl, ?_⟩
    rw [Stage.run, dataWrites_eq]
    exact ⟨⟨rfl, rfl, rfl, rfl⟩, rfl, rfl, rfl, rfl, fun _ => rfl⟩
  | index16 =>
    refine ⟨_, rfl, ?_⟩
    rw [Stage.run, dataWrites_eq]
    exact ⟨⟨rfl, rfl, rfl, rfl⟩, rfl, rfl, rfl, rfl, fun _ => rfl⟩

theorem effect_normalIndex (wide ntb index3 : Bool) (format : ComponentFormat) (l : Loader) :
    ∃ l', (if index3 && ntb then Stage.normalReadIndices3 wide format
        else Stage.normalReadIndex wide format (if ntb then 3 else 1)).run src stride l = l' ∧
      Effect l l' ((if index3 && ntb then 3 else 1) * indexBytes wide)
        (normalChunks 0 (if ntb then 3 else 1)) ∧
      SameCounters l l' ∧ l'.colIndex = l.colIndex := by
  refine ⟨_, rfl, ?_⟩
  cases hthree : index3 && ntb with
  | false =>
    rw [if_neg Bool.false_ne_true, if_neg Bool.false_ne_true, one_mul]
    exact effect_skip_write l _ _
  | true =>
    rw [if_pos rfl, if_pos rfl, (Bool.and_eq_true_iff.mp hthree).2, if_pos rfl]
    obtain ⟨h₁, hs₁, hc₁⟩ := effect_skip_write l (indexBytes wide) (normalChunks 0 1)
    obtain ⟨h₂, hs₂, hc₂⟩ := effect_skip_write
      ((l.dataSkip (indexBytes wide)).dataWrites (normalChunks 0 1)) (indexBytes wide)
      (normalChunks 1 1)
    obtain ⟨h₃, hs₃, hc₃⟩ := effect_skip_write
      ((((l.dataSkip (indexBytes wide)).dataWrites (normalChunks 0 1)).dataSkip
        (indexBytes wide)).dataWrites (normalChunks 1 1)) (indexBytes wide) (normalChunks 2 1)
    refine ⟨?_, (hs₁.trans hs₂).trans hs₃, hc₃.trans (hc₂.trans hc₁)⟩
    have hall := h₁.trans (h₂.trans h₃)
    rw [normalChunks_three] at hall
    rw [show 3 * indexBytes wide = indexBytes wide + (indexBytes wide + indexBytes wide) by omega]
    exact hall

theorem run_normal (d : VertexDesc) (o : ℕ) (l : Loader) :
    ∃ l', runStages src stride (compileNormal d o).stages l = some l' ∧
      Effect l l' (normalSize d.normal d.normalFormat d.ntb d.index3)
        (if present d.normal then normalChunks 0 (if d.ntb then 3 else 1) else []) ∧
      SameCounters l l' ∧ l'.colIndex = l.colIndex := by
  rw [compileNormal, normalFunction.eq_def, normalSize.eq_def]
  cases d.normal with
  | notPresent => exact ⟨l, rfl, .refl l, ⟨rfl, rfl, rfl, rfl⟩, rfl⟩
  | direct =>
    refine ⟨_, rfl, ?_, ?_, ?_⟩
    · simp only [Stage.run, dataWrites_eq, Loader.dataSkip, present, if_true]
      refine ⟨?_, rfl, rfl, rfl⟩
      cases d.ntb
      · rfl
      · rfl
    · simp only [Stage.run, dataWrites_eq, Loader.dataSkip]
      exact ⟨rfl, rfl, rfl, rfl⟩
    · simp only [Stage.run, dataWrites_eq, Loader.dataSkip]
  | index8 =>
    obtain ⟨l', hrun, heffect, hsame, hcol⟩ :=
      @effect_normalIndex src stride false d.ntb d.index3 d.normalFormat l
    refine ⟨l', congrArg some hrun, ?_, hsame, hcol⟩
    have hbytes : (if (d.index3 && d.ntb) = true then 3 else 1) * indexBytes false =
        if (d.index3 && d.ntb) = true then 3 else 1 := Nat.mul_one _
    rw [hbytes] at heffect
    exact heffect
  | index16 =>
    obtain ⟨l', hrun, heffect, hsame, hcol⟩ :=
      @effect_normalIndex src stride true d.ntb d.index3 d.normalFormat l
    refine ⟨l', congrArg some hrun, ?_, hsame, hcol⟩
    have hbytes : (if (d.index3 && d.ntb) = true then 3 else 1) * indexBytes true =
        if (d.index3 && d.ntb) = true then 6 else 2 := by
      split
      · rfl
      · rfl
    rw [hbytes] at heffect
    exact heffect

end Stages

/-! ## Colors -/

/-- The colors that are written, from the index `i` on. -/
def colorChunks : List ColorDesc → ℕ → List (Component × ℕ)
  | [], _ => []
  | c :: rest, i => (if present c.type then [(.color i, 4)] else []) ++ colorChunks rest (i + 1)

/-- The colors that are there have one of the six formats. -/
def ValidColors (cs : List ColorDesc) : Prop := ∀ c ∈ cs, present c.type = true → c.format ≤ 5

/-- A color that is there has a function, which writes the color of the current index. -/
theorem run_color {src : ℕ → Byte} {stride : ℕ} (c : ColorDesc) (hpresent : present c.type = true)
    (hformat : c.format ≤ 5) :
    ∃ stage, colorFunction c.type c.format = some stage ∧ ∀ l,
      Effect l (stage.run src stride l) (colorSize c.type c.format) [(.color l.colIndex, 4)] ∧
      SameCounters l (stage.run src stride l) ∧
      (stage.run src stride l).colIndex = l.colIndex + 1 := by
  obtain ⟨type, format⟩ := c
  have hcases : format = 0 ∨ format = 1 ∨ format = 2 ∨ format = 3 ∨ format = 4 ∨ format = 5 := by
    have hle : format ≤ 5 := hformat
    bv_omega
  have hlt : ¬5 < format := BitVec.not_lt.mpr hformat
  simp only [colorFunction.eq_def, if_neg hlt]
  cases type with
  | notPresent => cases hpresent
  | direct =>
    refine ⟨_, rfl, fun l => ⟨⟨?_, rfl, rfl, rfl⟩, ⟨rfl, rfl, rfl, rfl⟩, rfl⟩⟩
    rcases hcases with rfl | rfl | rfl | rfl | rfl | rfl <;> rfl
  | index8 =>
    refine ⟨_, rfl, fun l => ⟨⟨?_, rfl, rfl, rfl⟩, ⟨rfl, rfl, rfl, rfl⟩, rfl⟩⟩
    rcases hcases with rfl | rfl | rfl | rfl | rfl | rfl <;> rfl
  | index16 =>
    refine ⟨_, rfl, fun l => ⟨⟨?_, rfl, rfl, rfl⟩, ⟨rfl, rfl, rfl, rfl⟩, rfl⟩⟩
    rcases hcases with rfl | rfl | rfl | rfl | rfl | rfl <;> rfl

theorem color_absent (c : ColorDesc) (hpresent : present c.type = false) :
    colorFunction c.type c.format = none ∧ colorSize c.type c.format = 0 := by
  obtain ⟨type, format⟩ := c
  cases type with
  | notPresent =>
    revert format
    decide
  | direct => cases hpresent
  | index8 => cases hpresent
  | index16 => cases hpresent

/-- The sizes of the colors. -/
def colorsSize (cs : List ColorDesc) : ℕ := (cs.map fun c => colorSize c.type c.format).sum

theorem run_colors {src : ℕ → Byte} {stride : ℕ} (c₀ c₁ : ColorDesc) (o : ℕ)
    (hvalid : ValidColors [c₀, c₁]) (l : Loader) (hcol : l.colIndex = 0) :
    ∃ l', runStages src stride (compileColors [c₀, c₁] o).stages l = some l' ∧
      Effect l l' (colorsSize [c₀, c₁]) (colorChunks [c₀, c₁] 0) ∧ SameCounters l l' := by
  simp only [colorsSize, List.map_cons, List.map_nil, List.sum_cons, List.sum_nil, colorChunks,
    compileColors, List.head?_cons, List.head?_nil, Option.any_some, Option.any_none]
  rcases Bool.eq_false_or_eq_true (present c₀.type) with h₀ | h₀
  · obtain ⟨stage₀, hstage₀, hrun₀⟩ :=
      @run_color src stride c₀ h₀ (hvalid c₀ (by simp) h₀)
    obtain ⟨heffect₀, hsame₀, hcol₀⟩ := hrun₀ l
    rw [hcol] at heffect₀ hcol₀
    rcases Bool.eq_false_or_eq_true (present c₁.type) with h₁ | h₁
    · obtain ⟨stage₁, hstage₁, hrun₁⟩ :=
        @run_color src stride c₁ h₁ (hvalid c₁ (by simp) h₁)
      obtain ⟨heffect₁, hsame₁, -⟩ := hrun₁ (stage₀.run src stride l)
      rw [hcol₀] at heffect₁
      simp only [h₀, h₁, hstage₀, hstage₁, if_true]
      exact ⟨_, rfl, heffect₀.trans heffect₁, hsame₀.trans hsame₁⟩
    · simp only [h₀, h₁, hstage₀, (color_absent c₁ h₁).1, (color_absent c₁ h₁).2, if_true,
        Bool.false_eq_true, if_false]
      exact ⟨_, rfl, heffect₀, hsame₀⟩
  · rcases Bool.eq_false_or_eq_true (present c₁.type) with h₁ | h₁
    · obtain ⟨stage₁, hstage₁, hrun₁⟩ :=
        @run_color src stride c₁ h₁ (hvalid c₁ (by simp) h₁)
      obtain ⟨heffect₁, hsame₁, -⟩ := hrun₁ (Stage.colorDummy.run src stride l)
      have hdummy : (Stage.colorDummy.run src stride l).colIndex = 1 :=
        congrArg (· + 1) hcol
      rw [hdummy] at heffect₁
      have hskip : Effect l (Stage.colorDummy.run src stride l) 0 [] :=
        ⟨rfl, rfl, by simp [Stage.run, place], rfl⟩
      have hsame : SameCounters l (Stage.colorDummy.run src stride l) := ⟨rfl, rfl, rfl, rfl⟩
      simp only [h₀, h₁, hstage₁, (color_absent c₀ h₀).1, (color_absent c₀ h₀).2, if_true,
        Bool.false_eq_true, if_false]
      exact ⟨_, rfl, hskip.trans heffect₁, hsame.trans hsame₁⟩
    · simp only [h₀, h₁, (color_absent c₀ h₀).1, (color_absent c₀ h₀).2, (color_absent c₁ h₁).1,
        (color_absent c₁ h₁).2, Bool.false_eq_true, if_false]
      exact ⟨l, rfl, .refl l, ⟨rfl, rfl, rfl, rfl⟩⟩

/-! ## Texture coordinates -/

/-- An element of a texture coordinate: the matrix index is the third one. -/
def texCoordElement (t : TexCoordDesc) (i source e : ℕ) : Component :=
  if e < (if present t.type then (if t.st then 2 else 1) else 0) then .texCoord i e
  else if e = 2 then .texMtx source
  else .zero

def texCoordDescChunks (t : TexCoordDesc) (i source : ℕ) : List (Component × ℕ) :=
  (List.range (texCoordComponents t)).map fun e => (texCoordElement t i source e, 4)

/-- The texture coordinates that are written, from the index `i` on, where the next matrix index was
read from `source`. -/
def texCoordsChunks : List TexCoordDesc → ℕ → ℕ → List (Component × ℕ)
  | [], _, _ => []
  | t :: rest, i, source =>
    texCoordDescChunks t i source ++
      texCoordsChunks rest (i + 1) (if t.texMatIdx then source + 1 else source)

def texCoordsSize (ts : List TexCoordDesc) : ℕ :=
  (ts.map fun t => textCoordSize t.type t.format t.st).sum

theorem run_texCoordRead {src : ℕ → Byte} {stride : ℕ} (t : TexCoordDesc)
    (hpresent : present t.type = true) :
    ∃ stage, textCoordFunction t.type t.format t.st = some stage ∧ ∀ l,
      Effect l (stage.run src stride l) (textCoordSize t.type t.format t.st)
        (texCoordChunks l.tcIndex (if t.st then 2 else 1)) ∧
      (stage.run src stride l).tcIndex = l.tcIndex + 1 ∧
      (stage.run src stride l).curTexMtx = l.curTexMtx ∧
      (stage.run src stride l).texMtxWrite = l.texMtxWrite ∧
      (stage.run src stride l).vertexSkip = l.vertexSkip := by
  obtain ⟨matrix, type, format, st⟩ := t
  cases type with
  | notPresent => cases hpresent
  | direct =>
    refine ⟨_, rfl, fun l => ?_⟩
    rw [Stage.run, dataWrites_eq]
    exact ⟨⟨rfl, rfl, rfl, rfl⟩, rfl, rfl, rfl, rfl⟩
  | index8 =>
    refine ⟨_, rfl, fun l => ?_⟩
    rw [Stage.run, dataWrites_eq]
    exact ⟨⟨rfl, rfl, rfl, rfl⟩, rfl, rfl, rfl, rfl⟩
  | index16 =>
    refine ⟨_, rfl, fun l => ?_⟩
    rw [Stage.run, dataWrites_eq]
    exact ⟨⟨rfl, rfl, rfl, rfl⟩, rfl, rfl, rfl, rfl⟩

/-- The functions for the matrix indexes fill the three elements up. -/
theorem run_texMtxWrite {src : ℕ → Byte} {stride : ℕ} (there st : Bool) (l : Loader) :
    ∃ l', runStages src stride
        [some (if there then (if st then .texMtxWriteFloat else .texMtxWriteFloat2)
          else .texMtxWriteFloat3)] l = some l' ∧
      Effect l l' 0
        ((if there then (if st then [] else [(Component.zero, 4)]) else [(Component.zero, 4),
          (Component.zero, 4)]) ++
          [(Component.texMtx (l.curTexMtx l.texMtxWrite), 4)]) ∧
      l'.tcIndex = l.tcIndex ∧ l'.curTexMtx = l.curTexMtx ∧ l'.texMtxWrite = l.texMtxWrite + 1 ∧
      l'.vertexSkip = l.vertexSkip := by
  refine ⟨_, rfl, ?_⟩
  cases there
  · exact ⟨⟨rfl, rfl, by simp [Stage.run, Loader.texMtxWriteFloat, Loader.dataWrite, place], rfl⟩,
      rfl, rfl, rfl, rfl⟩
  · cases st
    · exact ⟨⟨rfl, rfl, by simp [Stage.run, Loader.texMtxWriteFloat, Loader.dataWrite, place], rfl⟩,
        rfl, rfl, rfl, rfl⟩
    · exact ⟨⟨rfl, rfl, by simp [Stage.run, Loader.texMtxWriteFloat, Loader.dataWrite, place], rfl⟩,
        rfl, rfl, rfl, rfl⟩

/-- The elements are those that are read and, with a matrix index, those that fill up. -/
theorem texCoordDescChunks_eq (t : TexCoordDesc) (i source : ℕ) :
    texCoordDescChunks t i source =
      (if present t.type then texCoordChunks i (if t.st then 2 else 1) else []) ++
        if t.texMatIdx then
          (if present t.type then (if t.st then [] else [(Component.zero, 4)])
            else [(Component.zero, 4), (Component.zero, 4)]) ++ [(Component.texMtx source, 4)]
        else [] := by
  obtain ⟨matrix, type, format, st⟩ := t
  cases type <;> cases matrix <;> cases st <;> rfl

theorem textCoordSize_absent (t : TexCoordDesc) (hpresent : present t.type = false) :
    textCoordSize t.type t.format t.st = 0 := by
  obtain ⟨matrix, type, format, st⟩ := t
  cases type with
  | notPresent => rfl
  | direct => cases hpresent
  | index8 => cases hpresent
  | index16 => cases hpresent

theorem run_texCoord {src : ℕ → Byte} {stride : ℕ} (t : TexCoordDesc) (i source : ℕ) (l : Loader)
    (hi : present t.type = true → l.tcIndex = i)
    (hsource : t.texMatIdx = true → l.curTexMtx l.texMtxWrite = source) :
    ∃ l', runStages src stride (texCoordStages t) l = some l' ∧
      Effect l l' (textCoordSize t.type t.format t.st) (texCoordDescChunks t i source) ∧
      l'.tcIndex = (if present t.type then l.tcIndex + 1 else l.tcIndex) ∧
      l'.curTexMtx = l.curTexMtx ∧
      l'.texMtxWrite = (if t.texMatIdx then l.texMtxWrite + 1 else l.texMtxWrite) ∧
      l'.vertexSkip = l.vertexSkip := by
  have hread : ∃ l₁, runStages src stride
      (if present t.type then [textCoordFunction t.type t.format t.st] else []) l = some l₁ ∧
      Effect l l₁ (textCoordSize t.type t.format t.st)
        (if present t.type then texCoordChunks i (if t.st then 2 else 1) else []) ∧
      l₁.tcIndex = (if present t.type then l.tcIndex + 1 else l.tcIndex) ∧
      l₁.curTexMtx = l.curTexMtx ∧ l₁.texMtxWrite = l.texMtxWrite ∧
      l₁.vertexSkip = l.vertexSkip := by
    cases hpresent : present t.type with
    | false =>
      rw [textCoordSize_absent t hpresent]
      exact ⟨l, rfl, .refl l, rfl, rfl, rfl, rfl⟩
    | true =>
      obtain ⟨stage, hstage, hrun⟩ := @run_texCoordRead src stride t hpresent
      obtain ⟨heffect, htc, hcur, hwrite, hskip⟩ := hrun l
      rw [hi hpresent] at heffect
      rw [hstage]
      exact ⟨_, rfl, heffect, htc, hcur, hwrite, hskip⟩
  obtain ⟨l₁, hrun₁, heffect₁, htc₁, hcur₁, hwrite₁, hskip₁⟩ := hread
  rw [texCoordStages, runStages_append, hrun₁, Option.bind_some, texCoordDescChunks_eq]
  cases hmatrix : t.texMatIdx with
  | false =>
    simp only [Bool.false_eq_true, if_false, List.append_nil]
    exact ⟨l₁, rfl, heffect₁, htc₁, hcur₁, hwrite₁, hskip₁⟩
  | true =>
    obtain ⟨l₂, hrun₂, heffect₂, htc₂, hcur₂, hwrite₂, hskip₂⟩ :=
      @run_texMtxWrite src stride (present t.type) t.st l₁
    rw [hcur₁, hwrite₁, hsource hmatrix] at heffect₂
    exact ⟨l₂, hrun₂, heffect₁.trans heffect₂, htc₂.trans htc₁, hcur₂.trans hcur₁,
      hwrite₂.trans (congrArg (· + 1) hwrite₁), hskip₂.trans hskip₁⟩

/-- Behind the last texture coordinate and matrix index there is nothing. -/
theorem texCoords_end (ts : List TexCoordDesc) (i source : ℕ)
    (hend : (ts.any fun next => present next.type || next.texMatIdx) = false) :
    texCoordsChunks ts i source = [] ∧ texCoordsSize ts = 0 := by
  induction ts generalizing i source with
  | nil => exact ⟨rfl, rfl⟩
  | cons t ts ih =>
    rw [List.any_cons, Bool.or_eq_false_iff, Bool.or_eq_false_iff] at hend
    obtain ⟨⟨hpresent, hmatrix⟩, hrest⟩ := hend
    have hchunks : texCoordDescChunks t i source = [] := by
      rw [texCoordDescChunks_eq, hpresent, hmatrix]
      rfl
    obtain ⟨hnone, hsize⟩ := ih (i + 1) source hrest
    refine ⟨?_, ?_⟩
    · rw [texCoordsChunks, hchunks, hmatrix]
      exact hnone
    · rw [texCoordsSize, List.map_cons, List.sum_cons, textCoordSize_absent t hpresent, Nat.zero_add]
      exact hsize

/-- The texture coordinates one after the other. A dummy keeps the index where one that is not there
comes before one that is. -/
theorem run_texCoords {src : ℕ → Byte} {stride : ℕ} (ts : List TexCoordDesc) (o i source : ℕ)
    (l : Loader) (hi : (ts.any fun t => present t.type) = true → l.tcIndex = i)
    (hsource : ∀ k < texMtxCount ts, l.curTexMtx (l.texMtxWrite + k) = source + k) :
    ∃ l', runStages src stride (compileTexCoords ts o).stages l = some l' ∧
      Effect l l' (texCoordsSize ts) (texCoordsChunks ts i source) ∧
      l'.vertexSkip = l.vertexSkip := by
  induction ts generalizing o i source l with
  | nil => exact ⟨l, rfl, .refl l, rfl⟩
  | cons t ts ih =>
    have hfirst : t.texMatIdx = true → l.curTexMtx l.texMtxWrite = source := fun hmatrix =>
      hsource 0 (by simp [texMtxCount, hmatrix])
    obtain ⟨l₁, hrun₁, heffect₁, htc₁, hcur₁, hwrite₁, hskip₁⟩ :=
      @run_texCoord src stride t i source l
      (fun hpresent => hi (by rw [List.any_cons, hpresent, Bool.true_or])) hfirst
    have hnext : ∀ k < texMtxCount ts, l₁.curTexMtx (l₁.texMtxWrite + k) =
        (if t.texMatIdx then source + 1 else source) + k := by
      intro k hk
      rw [hcur₁, hwrite₁]
      cases hmatrix : t.texMatIdx with
      | false => exact hsource k (by simpa [texMtxCount, hmatrix] using hk)
      | true =>
        have hk' := hsource (k + 1) (by simpa [texMtxCount, hmatrix] using hk)
        simpa [add_assoc, add_comm, add_left_comm] using hk'
    have hsize : texCoordsSize (t :: ts) = textCoordSize t.type t.format t.st + texCoordsSize ts := by
      simp [texCoordsSize]
    rw [hsize, texCoordsChunks, compileTexCoords]
    cases hpresent : present t.type with
    | true =>
      rw [if_pos rfl, runStages_append, hrun₁, Option.bind_some]
      obtain ⟨l₂, hrun₂, heffect₂, hskip₂⟩ := ih _ (i + 1) _ l₁ (fun hany => by
        rw [htc₁, hpresent, if_pos rfl, hi (by rw [List.any_cons, hpresent, Bool.true_or])]) hnext
      exact ⟨l₂, hrun₂, heffect₁.trans heffect₂, hskip₂.trans hskip₁⟩
    | false =>
      rw [if_neg Bool.false_ne_true]
      cases hmore : ts.any fun next => present next.type || next.texMatIdx with
      | false =>
        obtain ⟨hnone, hzero⟩ :=
          texCoords_end ts (i + 1) (if t.texMatIdx then source + 1 else source) hmore
        rw [if_neg Bool.false_ne_true, hnone, hzero, List.append_nil, Nat.add_zero]
        exact ⟨l₁, hrun₁, heffect₁, hskip₁⟩
      | true =>
        rw [if_pos rfl]
        simp only [List.append_assoc]
        rw [runStages_append, hrun₁, Option.bind_some]
        rw [hpresent, if_neg Bool.false_ne_true] at htc₁
        cases hany : ts.any fun next => present next.type with
        | false =>
          rw [if_neg Bool.false_ne_true, List.nil_append]
          obtain ⟨l₂, hrun₂, heffect₂, hskip₂⟩ := ih (o + 4 * texCoordComponents t) (i + 1) _ l₁
            (fun h => absurd (h.symm.trans hany) (by decide)) hnext
          exact ⟨l₂, hrun₂, heffect₁.trans heffect₂, hskip₂.trans hskip₁⟩
        | true =>
          rw [if_pos rfl, runStages_append, runStages_singleton, Option.bind_some]
          have hl := hi (by rw [List.any_cons, hany, Bool.or_true])
          have hdummy : Effect l₁ (Stage.texCoordDummy.run src stride l₁) 0 [] :=
            ⟨rfl, rfl, by simp [Stage.run, place], rfl⟩
          obtain ⟨l₂, hrun₂, heffect₂, hskip₂⟩ := ih (o + 4 * texCoordComponents t) (i + 1) _
            (Stage.texCoordDummy.run src stride l₁)
            (fun _ => congrArg (· + 1) (htc₁.trans hl)) hnext
          have hall := heffect₁.trans (hdummy.trans heffect₂)
          rw [Nat.zero_add, List.nil_append] at hall
          exact ⟨l₂, hrun₂, hall, hskip₂.trans hskip₁⟩

end VertexLoader
