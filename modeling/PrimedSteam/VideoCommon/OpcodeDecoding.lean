import PrimedSteam.VideoCommon.CPMemory

/-!
# The decoder of the command stream

* `decode`: the command at the start of a buffer; `none` is a read behind the end of the buffer.
* `runCommand`: the command is decoded and performed.
* `run`: the commands of a buffer, as long as they are complete.
* `Fifo.feed`: the buffer is extended, and what is left over is kept.
-/

set_option autoImplicit false

namespace OpcodeDecoder

inductive Primitive where
  | drawQuads
  | drawQuads2
  | drawTriangles
  | drawTriangleStrip
  | drawTriangleFan
  | drawLines
  | drawLineStrip
  | drawPoints

def Primitive.ofBits (b : BitVec 3) : Primitive :=
  match b with
  | 0 => .drawQuads
  | 1 => .drawQuads2
  | 2 => .drawTriangles
  | 3 => .drawTriangleStrip
  | 4 => .drawTriangleFan
  | 5 => .drawLines
  | 6 => .drawLineStrip
  | _ => .drawPoints

/-- The calls of a `Callback`. -/
inductive Call where
  | onXF (address : BitVec 16) (count : ℕ) (data : List Byte)
  | onCP (command : Byte) (value : Word)
  | onBP (command : Byte) (value : Word)
  | onIndexedLoad (array : CPArray) (index : Word) (address : BitVec 16) (size : ℕ)
  | onPrimitiveCommand (primitive : Primitive) (vat : BitVec 3) (vertexSize numVertices : ℕ)
      (vertexData : List Byte)
  | onDisplayList (address size : Word)
  | onNop (count : ℕ)
  | onUnknown (opcode : Byte)
  | onCommand (data : List Byte)

/-! ## Reads -/

/-- `swap16` of the bytes at an offset. -/
def swap16 (data : List Byte) (i : ℕ) : Option (BitVec 16) := do
  let a ← data[i]?
  let b ← data[i + 1]?
  return a ++ b

/-- `swap24` of the bytes at an offset. -/
def swap24 (data : List Byte) (i : ℕ) : Option Word := do
  let a ← data[i]?
  let b ← data[i + 1]?
  let c ← data[i + 2]?
  return (a ++ b ++ c).setWidth 32

/-- `swap32` of the bytes at an offset. -/
def swap32 (data : List Byte) (i : ℕ) : Option Word := do
  let a ← data[i]?
  let b ← data[i + 1]?
  let c ← data[i + 2]?
  let d ← data[i + 3]?
  return a ++ b ++ c ++ d

/-- The `n` bytes at an offset. -/
def bytes (data : List Byte) (i n : ℕ) : Option (List Byte) :=
  if i + n ≤ data.length then some ((data.drop i).take n) else none

/-! ## Commands -/

/-- A command that is complete: its call and its size. -/
abbrev Decoded := Option (Call × ℕ)

/-- `GX_NOP` -/
def decodeNop (rest : List Byte) : Option Decoded :=
  let count := 1 + (rest.takeWhile (· == 0)).length
  some (some (.onNop count, count))

/-- `GX_LOAD_CP_REG` -/
def decodeCP (data : List Byte) : Option Decoded :=
  if data.length < 6 then some none
  else do
    let cmd2 ← data[1]?
    let value ← swap32 data 2
    return some (.onCP cmd2 value, 6)

/-- `GX_LOAD_XF_REG` -/
def decodeXF (data : List Byte) : Option Decoded :=
  if data.length < 5 then some none
  else do
    let cmd2 ← swap32 data 1
    let baseAddress := cmd2.setWidth 16
    let streamSize := ((cmd2 >>> 16).setWidth 4).toNat + 1
    if data.length < 5 + streamSize * 4 then return none
    else
      let stream ← bytes data 5 (streamSize * 4)
      return some (.onXF baseAddress streamSize stream, 5 + streamSize * 4)

/-- `GX_LOAD_INDX_A` to `GX_LOAD_INDX_D` -/
def decodeIndexedLoad (cmd : Byte) (data : List Byte) : Option Decoded :=
  if data.length < 5 then some none
  else do
    let value ← swap32 data 1
    let index := value >>> 16
    let address := (value &&& 0xfff).setWidth 16
    let size := ((value >>> 12).setWidth 4).toNat + 1
    let refArray := CPArray.ofBits (cmd / 8 + 8).toNat
    return some (.onIndexedLoad refArray index address size, 5)

/-- `GX_CMD_CALL_DL` -/
def decodeDisplayList (data : List Byte) : Option Decoded :=
  if data.length < 9 then some none
  else do
    let address ← swap32 data 1
    let size ← swap32 data 5
    return some (.onDisplayList (address &&& ~~~31) (size &&& ~~~31), 9)

/-- `GX_LOAD_BP_REG` -/
def decodeBP (data : List Byte) : Option Decoded :=
  if data.length < 5 then some none
  else do
    let cmd2 ← data[1]?
    let value ← swap24 data 2
    return some (.onBP cmd2 value, 5)

/-- `GX_PRIMITIVE_START` to `GX_PRIMITIVE_END` -/
def decodePrimitive (cp : CPState) (cmd : Byte) (data : List Byte) : Option Decoded :=
  if data.length < 3 then some none
  else do
    let primitive := Primitive.ofBits (((cmd &&& 0x78) >>> 3).setWidth 3)
    let vat := cmd.setWidth 3
    let vertexSize := cp.vertexSize vat
    let numVertices ← swap16 data 1
    let size := (3 + numVertices.toNat * vertexSize) % 2 ^ 32
    if data.length < size then return none
    else
      let vertexData ← bytes data 3 (numVertices.toNat * vertexSize)
      return some (.onPrimitiveCommand primitive vat vertexSize numVertices.toNat vertexData, size)

/-- `detail::RunCommand` without the call itself; `some none` is a command that is not complete. -/
def decode (cp : CPState) : List Byte → Option Decoded
  | [] => some none
  | cmd :: rest =>
    if cmd = 0x00 then decodeNop rest
    else if cmd = 0x08 then decodeCP (cmd :: rest)
    else if cmd = 0x10 then decodeXF (cmd :: rest)
    else if cmd = 0x20 ∨ cmd = 0x28 ∨ cmd = 0x30 ∨ cmd = 0x38 then
      decodeIndexedLoad cmd (cmd :: rest)
    else if cmd = 0x40 then decodeDisplayList (cmd :: rest)
    else if cmd = 0x61 then decodeBP (cmd :: rest)
    else if 0x80 ≤ cmd ∧ cmd ≤ 0xbf then decodePrimitive cp cmd (cmd :: rest)
    else some (some (.onUnknown cmd, 1))

/-! ## Runs -/

/-- What was consumed, the calls that were made, and the state that is left. -/
structure Outcome where
  size : ℕ
  calls : List Call
  cpState : CPState

/-- What `OnDisplayList` does: the calls that it makes, and the state that it leaves. -/
abbrev DisplayLists := CPState → Word → Word → Option (List Call × CPState)

variable (isWii : Bool) (displayLists : DisplayLists)

/-- What a call does. -/
def perform (cp : CPState) : Call → Option (List Call × CPState)
  | .onCP command value => some ([], cp.loadCPReg isWii command value)
  | .onDisplayList address size => displayLists cp address size
  | _ => some ([], cp)

/-- `RunCommand` -/
def runCommand (cp : CPState) (data : List Byte) : Option Outcome := do
  match ← decode cp data with
  | none => return ⟨0, [], cp⟩
  | some (call, size) =>
    let (nested, cp) ← perform isWii displayLists cp call
    return ⟨size, call :: nested ++ [.onCommand (data.take size)], cp⟩

/-- `Run` -/
def run (cp : CPState) (data : List Byte) : Option Outcome :=
  if _hdata : data = [] then some ⟨0, [], cp⟩
  else
    (runCommand isWii displayLists cp data).bind fun r =>
      if _hsize : r.size = 0 then some r
      else
        (run r.cpState (data.drop r.size)).map fun r' =>
          ⟨r.size + r'.size, r.calls ++ r'.calls, r'.cpState⟩
  termination_by data.length
  decreasing_by
    rw [List.length_drop]
    have := List.length_pos_of_ne_nil _hdata
    omega

/-- `OnDisplayList` in a display list. -/
def ignoreDisplayLists : DisplayLists := fun cp _ _ => some ([], cp)

/-- `OnDisplayList`; the bytes are those of `GetPointerForRange`. -/
def callDisplayLists (getPointerForRange : Word → Word → Option (List Byte)) : DisplayLists :=
  fun cp address size =>
    match getPointerForRange address size with
    | none => some ([], cp)
    | some data =>
      (run isWii ignoreDisplayLists cp data).map fun r => (r.calls, r.cpState)

/-- The bytes that are not consumed yet, and what was done so far. -/
structure Fifo where
  pending : List Byte
  calls : List Call
  cpState : CPState

/-- `RunFifo`, after a chunk was appended to the bytes that are left. -/
def Fifo.feed (fifo : Fifo) (chunk : List Byte) : Option Fifo :=
  (run isWii displayLists fifo.cpState (fifo.pending ++ chunk)).map fun r =>
    ⟨(fifo.pending ++ chunk).drop r.size, fifo.calls ++ r.calls, r.cpState⟩

/-- Successive chunks. -/
def feedAll (cp : CPState) (chunks : List (List Byte)) : Option Fifo :=
  chunks.foldlM (Fifo.feed isWii displayLists) ⟨[], [], cp⟩

/-- A count of `OnNop` is merged into the calls that follow. -/
def mergeNop (n : ℕ) (data : List Byte) : List Call → List Call
  | .onNop n' :: .onCommand data' :: calls => .onNop (n + n') :: .onCommand (data ++ data') :: calls
  | calls => .onNop n :: .onCommand data :: calls

/-- Adjacent counts of `OnNop` are merged. -/
def mergeNops : List Call → List Call
  | .onNop n :: .onCommand data :: calls => mergeNop n data (mergeNops calls)
  | call :: calls => call :: mergeNops calls
  | [] => []

end OpcodeDecoder
