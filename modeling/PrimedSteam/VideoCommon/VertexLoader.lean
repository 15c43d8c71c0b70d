import PrimedSteam.VideoCommon.CPMemory

/-!
# The vertex loader

`CompileVertexTranslator` makes a pipeline of functions and the declaration of the vertices that they
write; `RunVertices` runs the pipeline on each vertex.

* `VertexDesc`: the vertex descriptor with the entry of the vertex attribute table.
* `Stage.run`: what a function of the pipeline reads and writes. The values of the numbers that are
  written are left out; `Entry` says which component is written, and where.
* `compile`: the pipeline and the declaration; a function that is missing is `none`, and so is the
  call of it.
-/

set_option autoImplicit false

namespace VertexLoader

open OpcodeDecoder

/-! ## Descriptors -/

structure ColorDesc where
  type : VertexComponentFormat
  format : BitVec 3

/-- A texture coordinate with the flag of its matrix index. -/
structure TexCoordDesc where
  texMatIdx : Bool
  type : VertexComponentFormat
  format : ComponentFormat
  st : Bool

/-- `m_VtxDesc` and `m_VtxAttr` -/
structure VertexDesc where
  posMatIdx : Bool
  position : VertexComponentFormat
  posFormat : ComponentFormat
  xyz : Bool
  normal : VertexComponentFormat
  normalFormat : ComponentFormat
  ntb : Bool
  index3 : Bool
  colors : List ColorDesc
  texCoords : List TexCoordDesc

/-- The descriptor and the table that the state of the command processor holds. -/
def VertexDesc.ofState (cp : CPState) (i : BitVec 3) : VertexDesc :=
  let vat := cp.vtxAttr i
  { posMatIdx := cp.vtxDescLow.getLsbD 0
    position := .ofBits (cp.vtxDescLow.extractLsb' 9 2)
    posFormat := .ofBits (vat.g0.extractLsb' 1 3)
    xyz := vat.g0.getLsbD 0
    normal := .ofBits (cp.vtxDescLow.extractLsb' 11 2)
    normalFormat := .ofBits (vat.g0.extractLsb' 10 3)
    ntb := vat.g0.getLsbD 9
    index3 := vat.g0.getLsbD 31
    colors := (List.range 2).map fun k =>
      ⟨.ofBits (cp.vtxDescLow.extractLsb' (13 + 2 * k) 2), vat.colorFormat k⟩
    texCoords := (List.range 8).map fun k =>
      ⟨cp.vtxDescLow.getLsbD (k + 1), .ofBits (cp.vtxDescHigh.extractLsb' (2 * k) 2),
        vat.texFormat k, vat.texElements k⟩ }

/-- The component is not `NotPresent`. -/
def present : VertexComponentFormat → Bool
  | .notPresent => false
  | _ => true

/-- `IsIndexed` -/
def isIndexed : VertexComponentFormat → Bool
  | .index8 | .index16 => true
  | _ => false

/-- The index has 16 bits. -/
def isWide : VertexComponentFormat → Bool
  | .index16 => true
  | _ => false

/-! ## The pipeline -/

/-- The functions of the pipeline; `wide` is an index of 16 bits. -/
inductive Stage where
  | posMtxReadDirect
  | texMtxReadDirect
  | posReadDirect (format : ComponentFormat) (n : ℕ)
  | posReadIndex (wide : Bool) (format : ComponentFormat) (n : ℕ)
  | normalReadDirect (format : ComponentFormat) (n : ℕ)
  | normalReadIndex (wide : Bool) (format : ComponentFormat) (n : ℕ)
  | normalReadIndices3 (wide : Bool) (format : ComponentFormat)
  | colorReadDirect (format : BitVec 3)
  | colorReadIndex (wide : Bool) (format : BitVec 3)
  | colorDummy
  | texCoordReadDirect (format : ComponentFormat) (n : ℕ)
  | texCoordReadIndex (wide : Bool) (format : ComponentFormat) (n : ℕ)
  | texCoordDummy
  | texMtxWriteFloat
  | texMtxWriteFloat2
  | texMtxWriteFloat3
  | skipVertex

/-- What a write holds. A matrix index of a texture coordinate is named by the place of the source
that it was read from. -/
inductive Component where
  | posMtx
  | position (element : ℕ)
  | normal (vector element : ℕ)
  | color (index : ℕ)
  | texCoord (index element : ℕ)
  | texMtx (source : ℕ)
  | zero
deriving DecidableEq

/-- A write of `size` bytes to the output. -/
structure Entry where
  component : Component
  offset : ℕ
  size : ℕ
deriving DecidableEq

structure Loader where
  /-- `g_video_buffer_read_ptr`, from the source -/
  read : ℕ
  /-- `g_vertex_manager_write_ptr`, from the output -/
  write : ℕ
  tcIndex : ℕ
  colIndex : ℕ
  /-- `m_curtexmtx`, of which the places that were read are kept -/
  curTexMtx : ℕ → ℕ
  texMtxWrite : ℕ
  texMtxRead : ℕ
  vertexSkip : Bool
  skippedVertices : ℕ
  /-- A ghost: the writes. -/
  writes : List Entry

namespace Loader

variable (l : Loader)

/-- `DataSkip`, or a `DataRead` of which the value is left out. -/
def dataSkip (bytes : ℕ) : Loader := { l with read := l.read + bytes }

/-- `DataWrite` -/
def dataWrite (chunk : Component × ℕ) : Loader :=
  { l with
    write := l.write + chunk.2
    writes := l.writes ++ [⟨chunk.1, l.write, chunk.2⟩] }

def dataWrites (chunks : List (Component × ℕ)) : Loader := chunks.foldl dataWrite l

end Loader

def indexBytes (wide : Bool) : ℕ := if wide then 2 else 1

/-- The index is the largest one of its type. -/
def isMaxIndex (src : ℕ → Byte) (wide : Bool) (i : ℕ) : Bool :=
  src i = 0xFF ∧ (wide = true → src (i + 1) = 0xFF)

/-- The bytes that the functions for direct colors read. -/
def colorDirectBytes (format : BitVec 3) : ℕ :=
  match format with
  | 0 => 2
  | 1 => 3
  | 2 => 4
  | 3 => 2
  | 4 => 3
  | _ => 4

def positionChunks (n : ℕ) : List (Component × ℕ) := (List.range n).map fun e => (.position e, 4)

/-- The elements of `n` vectors from the vector `first` on. -/
def normalChunks (first n : ℕ) : List (Component × ℕ) :=
  (List.range' first n).flatMap fun v => (List.range 3).map fun e => (.normal v e, 4)

def texCoordChunks (index n : ℕ) : List (Component × ℕ) :=
  (List.range n).map fun e => (.texCoord index e, 4)

/-- The next of the matrix indexes of the vertex. -/
def Loader.texMtxWriteFloat (l : Loader) : Loader :=
  { l.dataWrite (.texMtx (l.curTexMtx l.texMtxWrite), 4) with texMtxWrite := l.texMtxWrite + 1 }

/-- What a function of the pipeline does. -/
def Stage.run (src : ℕ → Byte) (stride : ℕ) (l : Loader) : Stage → Loader
  | .posMtxReadDirect => (l.dataSkip 1).dataWrite (.posMtx, 4)
  | .texMtxReadDirect =>
    { l.dataSkip 1 with
      curTexMtx := Function.update l.curTexMtx l.texMtxRead l.read
      texMtxRead := l.texMtxRead + 1 }
  | .posReadDirect format n => (l.dataSkip (n * format.elementSize)).dataWrites (positionChunks n)
  | .posReadIndex wide _ n =>
    { l.dataSkip (indexBytes wide) with vertexSkip := isMaxIndex src wide l.read }.dataWrites
      (positionChunks n)
  | .normalReadDirect format n =>
    (l.dataWrites (normalChunks 0 n)).dataSkip (n * 3 * format.elementSize)
  | .normalReadIndex wide _ n => (l.dataSkip (indexBytes wide)).dataWrites (normalChunks 0 n)
  | .normalReadIndices3 wide _ =>
    (((((l.dataSkip (indexBytes wide)).dataWrites (normalChunks 0 1)).dataSkip
      (indexBytes wide)).dataWrites (normalChunks 1 1)).dataSkip (indexBytes wide)).dataWrites
        (normalChunks 2 1)
  | .colorReadDirect format =>
    { (l.dataSkip (colorDirectBytes format)).dataWrite (.color l.colIndex, 4) with
      colIndex := l.colIndex + 1 }
  | .colorReadIndex wide _ =>
    { (l.dataSkip (indexBytes wide)).dataWrite (.color l.colIndex, 4) with
      colIndex := l.colIndex + 1 }
  | .colorDummy => { l with colIndex := l.colIndex + 1 }
  | .texCoordReadDirect format n =>
    { (l.dataSkip (n * format.elementSize)).dataWrites (texCoordChunks l.tcIndex n) with
      tcIndex := l.tcIndex + 1 }
  | .texCoordReadIndex wide _ n =>
    { (l.dataSkip (indexBytes wide)).dataWrites (texCoordChunks l.tcIndex n) with
      tcIndex := l.tcIndex + 1 }
  | .texCoordDummy => { l with tcIndex := l.tcIndex + 1 }
  | .texMtxWriteFloat => l.texMtxWriteFloat
  | .texMtxWriteFloat2 => (l.dataWrite (.zero, 4)).texMtxWriteFloat
  | .texMtxWriteFloat3 => ((l.dataWrite (.zero, 4)).dataWrite (.zero, 4)).texMtxWriteFloat
  | .skipVertex =>
    if l.vertexSkip then
      { l with write := l.write - stride, skippedVertices := l.skippedVertices + 1 }
    else l

/-! ## Compiling -/

/-- `VertexLoader_Position::GetFunction` -/
def positionFunction (type : VertexComponentFormat) (format : ComponentFormat) (xyz : Bool) :
    Option Stage :=
  let n := if xyz then 3 else 2
  match type with
  | .notPresent => none
  | .direct => some (.posReadDirect format n)
  | .index8 => some (.posReadIndex false format n)
  | .index16 => some (.posReadIndex true format n)

/-- `VertexLoader_Normal::GetFunction` -/
def normalFunction (type : VertexComponentFormat) (format : ComponentFormat) (ntb index3 : Bool) :
    Option Stage :=
  let n := if ntb then 3 else 1
  match type with
  | .notPresent => none
  | .direct => some (.normalReadDirect format n)
  | .index8 =>
    some (if index3 && ntb then .normalReadIndices3 false format else .normalReadIndex false format n)
  | .index16 =>
    some (if index3 && ntb then .normalReadIndices3 true format else .normalReadIndex true format n)

/-- `VertexLoader_Color::GetFunction` -/
def colorFunction (type : VertexComponentFormat) (format : BitVec 3) : Option Stage :=
  if 5 < format then none
  else
    match type with
    | .notPresent => none
    | .direct => some (.colorReadDirect format)
    | .index8 => some (.colorReadIndex false format)
    | .index16 => some (.colorReadIndex true format)

/-- `VertexLoader_TextCoord::GetFunction` -/
def textCoordFunction (type : VertexComponentFormat) (format : ComponentFormat) (st : Bool) :
    Option Stage :=
  let n := if st then 2 else 1
  match type with
  | .notPresent => none
  | .direct => some (.texCoordReadDirect format n)
  | .index8 => some (.texCoordReadIndex false format n)
  | .index16 => some (.texCoordReadIndex true format n)

structure AttributeFormat where
  type : ComponentFormat
  components : ℕ
  offset : ℕ
  enable : Bool
  integer : Bool

/-- All bytes are zero. -/
def AttributeFormat.blank : AttributeFormat := ⟨.uByte, 0, 0, false, false⟩

structure PortableVertexDeclaration where
  stride : ℕ
  position : AttributeFormat
  normals : List AttributeFormat
  colors : List AttributeFormat
  texcoords : List AttributeFormat
  posmtx : AttributeFormat

/-- A part of the pipeline with the attributes that it declares and the offset behind them. -/
structure Part where
  stages : List (Option Stage)
  attributes : List AttributeFormat
  natOffset : ℕ

/-- The position matrix index. -/
def compilePosMtx (d : VertexDesc) (natOffset : ℕ) : Part :=
  if d.posMatIdx then ⟨[some .posMtxReadDirect], [⟨.uByte, 4, natOffset, true, true⟩], natOffset + 4⟩
  else ⟨[], [.blank], natOffset⟩

/-- The matrix indexes of the texture coordinates. -/
def compileTexMtx : List TexCoordDesc → List (Option Stage)
  | [] => []
  | t :: rest => (if t.texMatIdx then [some .texMtxReadDirect] else []) ++ compileTexMtx rest

def compilePosition (d : VertexDesc) (natOffset : ℕ) : Part :=
  let posElements := if d.xyz then 3 else 2
  ⟨[positionFunction d.position d.posFormat d.xyz], [⟨.float, posElements, natOffset, true, false⟩],
    natOffset + posElements * 4⟩

/-- The attributes of `n` of three normals. -/
def compileNormals (natOffset n : ℕ) : List AttributeFormat :=
  (List.range 3).map fun i =>
    if i < n then ⟨.float, 3, natOffset + 12 * i, true, false⟩ else .blank

def compileNormal (d : VertexDesc) (natOffset : ℕ) : Part :=
  if present d.normal then
    let n := if d.ntb then 3 else 1
    ⟨[normalFunction d.normal d.normalFormat d.ntb d.index3], compileNormals natOffset n,
      natOffset + 12 * n⟩
  else ⟨[], compileNormals natOffset 0, natOffset⟩

/-- The two colors. -/
def compileColors : List ColorDesc → ℕ → Part
  | [], natOffset => ⟨[], [], natOffset⟩
  | c :: rest, natOffset =>
    let stages :=
      match colorFunction c.type c.format with
      | some stage => [some stage]
      | none =>
        -- the index of the color is kept in sync
        if (rest.head?.any fun next => present next.type) then [some .colorDummy] else []
    let declared : AttributeFormat :=
      if present c.type then ⟨.uByte, 4, natOffset, true, false⟩ else ⟨.uByte, 4, 0, false, false⟩
    let part := compileColors rest (if present c.type then natOffset + 4 else natOffset)
    ⟨stages ++ part.stages, declared :: part.attributes, part.natOffset⟩

def texCoordComponents (t : TexCoordDesc) : ℕ :=
  if t.texMatIdx then 3 else if present t.type then (if t.st then 2 else 1) else 0

/-- The functions of a texture coordinate and of its matrix index. -/
def texCoordStages (t : TexCoordDesc) : List (Option Stage) :=
  (if present t.type then [textCoordFunction t.type t.format t.st] else []) ++
    if t.texMatIdx then
      [some (if present t.type then (if t.st then .texMtxWriteFloat else .texMtxWriteFloat2)
        else .texMtxWriteFloat3)]
    else []

/-- The texture coordinates; the loop is left where nothing comes after one that is not there. -/
def compileTexCoords : List TexCoordDesc → ℕ → Part
  | [], natOffset => ⟨[], [], natOffset⟩
  | t :: rest, natOffset =>
    let declared : AttributeFormat :=
      ⟨.float, texCoordComponents t, natOffset, t.texMatIdx || present t.type, false⟩
    let natOffset := natOffset + 4 * texCoordComponents t
    let part := compileTexCoords rest natOffset
    if present t.type then
      ⟨texCoordStages t ++ part.stages, declared :: part.attributes, part.natOffset⟩
    else if rest.any fun next => present next.type || next.texMatIdx then
      let dummy := if rest.any fun next => present next.type then [some .texCoordDummy] else []
      ⟨texCoordStages t ++ dummy ++ part.stages, declared :: part.attributes, part.natOffset⟩
    else ⟨texCoordStages t, declared :: rest.map fun _ => .blank, natOffset⟩

/-- `CompileVertexTranslator`: the pipeline and the declaration. -/
def compile (d : VertexDesc) : List (Option Stage) × PortableVertexDeclaration :=
  let posmtx := compilePosMtx d 0
  let position := compilePosition d posmtx.natOffset
  let normal := compileNormal d position.natOffset
  let colors := compileColors d.colors normal.natOffset
  let texcoords := compileTexCoords d.texCoords colors.natOffset
  (posmtx.stages ++ compileTexMtx d.texCoords ++ position.stages ++ normal.stages ++ colors.stages ++
      texcoords.stages ++ (if isIndexed d.position then [some .skipVertex] else []),
    { stride := texcoords.natOffset
      position := position.attributes.headD .blank
      normals := normal.attributes
      colors := colors.attributes
      texcoords := texcoords.attributes
      posmtx := posmtx.attributes.headD .blank })

/-! ## Running -/

/-- The functions are called one after the other; a missing one cannot be called. -/
def runStages (src : ℕ → Byte) (stride : ℕ) (stages : List (Option Stage)) (l : Loader) :
    Option Loader :=
  stages.foldlM (fun l stage => stage.map (Stage.run src stride l)) l

/-- The pipeline on one vertex. -/
def runVertex (d : VertexDesc) (src : ℕ → Byte) (l : Loader) : Option Loader :=
  runStages src (compile d).2.stride (compile d).1
    { l with tcIndex := 0, colIndex := 0, texMtxWrite := 0, texMtxRead := 0 }

/-- `RunVertices`: what is returned is the number of the vertices without the skipped ones. -/
def runVertices (d : VertexDesc) (src : ℕ → Byte) (l : Loader) (count : ℕ) : Option (Loader × ℕ) :=
  ((List.range count).foldlM (fun l _ => runVertex d src l)
    { l with read := 0, write := 0, skippedVertices := 0, writes := [] }).map fun l =>
      (l, count - l.skippedVertices)

end VertexLoader
