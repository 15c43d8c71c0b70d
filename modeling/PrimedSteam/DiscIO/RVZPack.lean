import PrimedSteam.DiscIO.JunkStream

/-!
# Unpacking of RVZ data

`RVZPackDecompressor` reads the output of an inner decompressor: segments of a header and literal
bytes, or of a header and the seed of junk data.

* `Decompressor`: the inner decompressor, as a parameter.
* `decompress`: one call, on the input so far and an output buffer.
* `feed`: calls with a growing input and a growing output buffer.

The data offset counts only modulo 0x8000, so it does not wrap here.
-/

set_option autoImplicit false

namespace RVZPackDecompressor

open LaggedFibonacciGenerator (Byte Word Seed Generator setSeed dataWord seedSize)

/-- The size of a buffer, and the bytes that are written to it. -/
structure DecompressionBuffer where
  size : ℕ
  written : List Byte

/-- A decompressor: from the input so far, the room in the output and the number of input bytes that
are read, the bytes that it writes and the input bytes that are read then. `none` is a failure. -/
structure Decompressor (σ : Type*) where
  decompress (state : σ) (input : List Byte) (room inBytesRead : ℕ) : Option (σ × List Byte × ℕ)
  done : σ → Bool

/-- `RVZPackDecompressor`, with the arguments `out` and `in_bytes_read` of its calls. -/
structure State (σ : Type*) where
  decompressor : σ
  decompressed : DecompressionBuffer
  decompressedBytesRead : ℕ
  bytesRead : ℕ
  dataOffset : ℕ
  rvzPackedSize : ℕ
  size : ℕ
  junk : Bool
  lfg : Generator
  out : DecompressionBuffer
  inBytesRead : ℕ

variable {σ : Type*} (inner : Decompressor σ)

/-- The constructor, with the output that the caller has already. -/
def create (decompressor : σ) (decompressed : List Byte) (dataOffset rvzPackedSize : ℕ)
    (written : List Byte) (inBytesRead : ℕ) : State σ where
  decompressor := decompressor
  decompressed := ⟨decompressed.length, decompressed⟩
  decompressedBytesRead := 0
  bytesRead := decompressed.length
  dataOffset := dataOffset
  rvzPackedSize := rvzPackedSize
  size := 0
  junk := false
  lfg := ⟨fun _ => 0, 0⟩
  out := ⟨written.length, written⟩
  inBytesRead := inBytesRead

/-- `Done` -/
def done (s : State σ) : Bool :=
  s.size == 0 && s.rvzPackedSize == s.bytesRead &&
    s.decompressed.written.length == s.decompressedBytesRead && inner.done s.decompressor

/-- `ReadToDecompressed`: the result, if the call ends, and the state. -/
def readToDecompressed (input : List Byte) (s : State σ) (decompressedBytesRead bytesToRead : ℕ) :
    Option Bool × State σ :=
  let size := max s.decompressed.size (decompressedBytesRead + bytesToRead)
  let s := { s with decompressed := ⟨size, s.decompressed.written⟩ }
  if s.decompressed.written.length < decompressedBytesRead + bytesToRead then
    match inner.decompress s.decompressor input
        (s.decompressed.size - s.decompressed.written.length) s.inBytesRead with
    | none => (some false, s)
    | some (decompressor, bytes, inBytesRead) =>
      let s :=
        { s with
          decompressor := decompressor
          decompressed := ⟨s.decompressed.size, s.decompressed.written ++ bytes⟩
          bytesRead := s.bytesRead + bytes.length
          inBytesRead := inBytesRead }
      if s.rvzPackedSize < s.bytesRead then (some false, s)
      else if s.decompressed.written.length < decompressedBytesRead + bytesToRead then
        (some true, s)
      else (none, s)
  else (none, s)

/-- The header at an offset. -/
def word (data : List Byte) (offset : ℕ) : Word :=
  data.getD offset 0 ++ data.getD (offset + 1) 0 ++ data.getD (offset + 2) 0 ++
    data.getD (offset + 3) 0

/-- The most significant bit of a header. -/
def isJunk (header : Word) : Bool := header.msb

def segmentSize (header : Word) : ℕ := (header &&& 0x7FFFFFFF#32).toNat

/-- The seed at an offset. -/
def seedAt (data : List Byte) (offset : ℕ) : Seed := fun i => dataWord data (offset + 4 * i)

/-- `SEED_SIZE` bytes. -/
def seedBytes : ℕ := seedSize * 4

/-- `BLOCK_SIZE` -/
def blockSize : ℕ := 0x8000

/-- The buffer starts again when everything in it is read. -/
def State.resetBuffer (s : State σ) : State σ :=
  if s.decompressed.written.length = s.decompressedBytesRead then
    { s with decompressed := ⟨4, []⟩, decompressedBytesRead := 0 }
  else s

/-- The header of a segment is read. -/
def readHeader (input : List Byte) (s : State σ) : Option Bool × State σ :=
  let s := s.resetBuffer
  match readToDecompressed inner input s s.decompressedBytesRead 4 with
  | (some result, s) => (some result, s)
  | (none, s) =>
    let header := word s.decompressed.written s.decompressedBytesRead
    let s := { s with junk := isJunk header }
    if isJunk header then
      match readToDecompressed inner input s (s.decompressedBytesRead + 4) seedBytes with
      | (some result, s) => (some result, s)
      | (none, s) =>
        let seed := seedAt s.decompressed.written (s.decompressedBytesRead + 4)
        (none,
          { s with
            lfg := (setSeed seed).forwardBytes (s.dataOffset % blockSize)
            decompressedBytesRead := s.decompressedBytesRead + seedBytes + 4
            size := segmentSize header })
    else
      (none,
        { s with
          decompressedBytesRead := s.decompressedBytesRead + 4
          size := segmentSize header })

/-- Bytes of the segment are written. -/
def State.advance (s : State σ) (bytes : List Byte) : State σ :=
  { s with
    out := ⟨s.out.size, s.out.written ++ bytes⟩
    dataOffset := s.dataOffset + bytes.length
    size := s.size - bytes.length }

/-- Bytes of a segment: from the generator, from what is decompressed already, or decompressed to the
output, whose size is limited for the time. -/
def writeBytes (input : List Byte) (s : State σ) : Option Bool × State σ :=
  let bytesToWrite := min s.size (s.out.size - s.out.written.length)
  if s.junk then
    let (bytes, lfg) := s.lfg.getBytes bytesToWrite
    (none, { s.advance bytes with lfg := lfg })
  else if s.decompressed.written.length ≠ s.decompressedBytesRead then
    let bytes := (s.decompressed.written.drop s.decompressedBytesRead).take bytesToWrite
    (none,
      { s.advance bytes with
        decompressedBytesRead := s.decompressedBytesRead + bytes.length })
  else
    match inner.decompress s.decompressor input bytesToWrite s.inBytesRead with
    | none => (some false, { s with out := ⟨s.out.written.length + bytesToWrite, s.out.written⟩ })
    | some (decompressor, bytes, inBytesRead) =>
      let s :=
        { s with
          decompressor := decompressor
          bytesRead := s.bytesRead + bytes.length
          inBytesRead := inBytesRead }
      if s.rvzPackedSize < s.bytesRead then
        (some false, { s with out := ⟨s.out.size, s.out.written ++ bytes⟩ })
      else if bytes.length = 0 then (some true, s)
      else (none, s.advance bytes)

/-- The loop of `Decompress`: the result, if the call ends in it. `none` is that the fuel is used
up. -/
def loop (input : List Byte) : ℕ → State σ → Option (Option Bool × State σ)
  | 0, _ => none
  | fuel + 1, s =>
    if s.out.size ≠ s.out.written.length ∧ done inner s = false then
      match if s.size = 0 then readHeader inner input s else (none, s) with
      | (some result, s) => some (some result, s)
      | (none, s) =>
        match writeBytes inner input s with
        | (some result, s) => some (some result, s)
        | (none, s) => loop input fuel s
    else some (none, s)

/-- `Decompress` -/
def decompress (input : List Byte) (s : State σ) : Option (Bool × State σ) :=
  (loop inner input (s.out.size + s.rvzPackedSize + s.decompressed.written.length + 1) s).map
    fun (result, s) =>
      match result with
      | some result => (result, s)
      | none =>
        if s.out.size = s.out.written.length ∧ input.length ≠ s.inBytesRead then
          match inner.decompress s.decompressor input 0 s.inBytesRead with
          | none => (false, s)
          | some (decompressor, bytes, inBytesRead) =>
            (true,
              { s with
                decompressor := decompressor
                out := ⟨s.out.size, s.out.written ++ bytes⟩
                inBytesRead := inBytesRead })
        else (true, s)

/-- Calls with more and more of the input and with sizes of the output buffer. The first failure
ends them. -/
def feed (input : List Byte) : List (ℕ × ℕ) → State σ → Option (Bool × State σ)
  | [], s => some (true, s)
  | (n, size) :: calls, s =>
    (decompress inner (input.take n) { s with out := ⟨size, s.out.written⟩ }).bind
      fun (result, s) => if result then feed input calls s else some (false, s)

/-! ## Uncompressed data -/

/-- `NoneDecompressor` for an input of a given length; the state is `m_done`. -/
def noneDecompressor (inputLength : ℕ) : Decompressor Bool where
  decompress _ input room inBytesRead :=
    let bytes := (input.drop inBytesRead).take room
    some (inputLength == inBytesRead + bytes.length, bytes, inBytesRead + bytes.length)
  done state := state

end RVZPackDecompressor
