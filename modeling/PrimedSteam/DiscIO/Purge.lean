import PrimedSteam.DiscIO.DataEntries
import PrimedSteam.Lib.While

/-!
# The purge codec of WIA files

* `PurgeCompressor`: segments of data with runs of zeroes left out, and a hash.
* `PurgeDecompressor`: the inverse, fed with any part of the input and of the space for the output.

A buffer is given by the bytes that have been written to it and its size. A hash context is the list of
the bytes it has been given.
-/

set_option autoImplicit false

namespace DiscIO

open While

abbrev Byte := BitVec 8

def digestLength : ℕ := 20

abbrev Digest := { bytes : List Byte // bytes.length = digestLength }

/-! ## Segments -/

/-- `sizeof(PurgeSegment)` -/
def segmentSize : ℕ := 8

/-- `Common::swap32` of a value as bytes. -/
def bigEndian (x : ℕ) : List Byte :=
  [.ofNat 8 (x / 2 ^ 24), .ofNat 8 (x / 2 ^ 16), .ofNat 8 (x / 2 ^ 8), .ofNat 8 x]

def fromBigEndian (bytes : List Byte) : ℕ := bytes.foldl (fun x b => x * 2 ^ 8 + b.toNat) 0

/-! ## Compression -/

/-- The end of the data of a segment: `i` is the place of the next byte. -/
def nonZeroDataEnd : List Byte → (i sequenceLength nonZeroEnd : ℕ) → ℕ
  | [], _, _, nonZeroEnd => nonZeroEnd
  | x :: xs, i, sequenceLength, nonZeroEnd =>
    let sequenceLength := if x = 0 then sequenceLength + 1 else 0
    let nonZeroEnd := if x = 0 then nonZeroEnd else i + 1
    if segmentSize < sequenceLength then nonZeroEnd
    else nonZeroDataEnd xs (i + 1) sequenceLength nonZeroEnd

structure PurgeCompressor where
  /-- What `m_buffer` holds up to `m_bytes_written`. -/
  written : List Byte
  /-- The size of `m_buffer`. -/
  bufferSize : ℕ
  hashed : List Byte

namespace PurgeCompressor

def start : PurgeCompressor := ⟨[], 0, []⟩

def addPrecedingDataOnlyForPurgeHashing (c : PurgeCompressor) (data : List Byte) : PurgeCompressor :=
  { c with hashed := c.hashed ++ data }

def nonZeroDataStart (data : List Byte) (bytesRead : ℕ) : ℕ :=
  (bytesRead + ((data.drop bytesRead).takeWhile (· = 0)).length) % 2 ^ 32

/-- One segment. The state is `bytes_read` and what has been written. -/
def compressSegment (data : List Byte) (s : ℕ × List Byte) : Except Empty (ℕ × List Byte) :=
  let dataStart := nonZeroDataStart data s.1
  let dataEnd := nonZeroDataEnd (data.drop dataStart) dataStart 0 dataStart
  let length := (dataEnd - dataStart) % 2 ^ 32
  .ok (dataEnd, s.2 ++ (bigEndian dataStart ++ bigEndian length) ++ (data.drop dataStart).take length)

/-- `Compress`. Each segment reads a byte or more. -/
def compress (c : PurgeCompressor) (data : List Byte) : Option PurgeCompressor :=
  match whileLoop (fun s => nonZeroDataStart data s.1 ≠ data.length) (compressSegment data)
      (data.length + 1) (0, c.written) with
  | some (.ok (_, written)) =>
    some { c with written := written, bufferSize := data.length + segmentSize + digestLength }
  | _ => none

variable (sha1 : List Byte → Digest)

/-- `End` -/
def finish (c : PurgeCompressor) : PurgeCompressor :=
  let hashed := c.hashed ++ c.written
  { c with written := c.written ++ (sha1 hashed).1, hashed := hashed }

end PurgeCompressor

/-- The bytes that `PurgeCompressor` gives for data after exception lists. -/
def purge (sha1 : List Byte → Digest) (exceptions data : List Byte) : Option PurgeCompressor :=
  ((PurgeCompressor.start.addPrecedingDataOnlyForPurgeHashing exceptions).compress data).map
    (·.finish sha1)

/-! ## Decompression -/

structure DecompressionBuffer where
  written : List Byte
  size : ℕ

structure PurgeDecompressor where
  decompressedSize : ℕ
  /-- The first bytes of `m_segment`, as many as have been written. -/
  segment : List Byte
  outBytesWritten : ℕ
  started : Bool
  done : Bool
  hashed : List Byte

/-- The decompressor with what its caller keeps. -/
structure Decompression where
  decompressor : PurgeDecompressor
  out : DecompressionBuffer
  inBytesRead : ℕ

namespace Decompression

variable (sha1 : List Byte → Digest) (input : DecompressionBuffer) (s : Decompression)

/-- Space in the output. -/
def space : ℕ := s.out.size - s.out.written.length

def writeZeroes (count : ℕ) : Decompression :=
  { s with
    decompressor := { s.decompressor with
      outBytesWritten := s.decompressor.outBytesWritten + count }
    out := { s.out with written := s.out.written ++ List.replicate count 0 } }

/-- The next bytes of the input, of which some may be missing. -/
def nextBytes (count : ℕ) : List Byte := (input.written.drop s.inBytesRead).take count

def readSegment : Decompression :=
  if s.decompressor.segment.length < segmentSize then
    let bytes := s.nextBytes input (min (input.written.length - s.inBytesRead)
      (segmentSize - s.decompressor.segment.length))
    { s with
      decompressor := { s.decompressor with
        segment := s.decompressor.segment ++ bytes
        hashed := s.decompressor.hashed ++ bytes }
      inBytesRead := s.inBytesRead + bytes.length }
  else s

def segmentOffset : ℕ := fromBigEndian (s.decompressor.segment.take 4)

def segmentLength : ℕ := fromBigEndian (s.decompressor.segment.drop 4)

def fillToOffset : Decompression :=
  if s.decompressor.outBytesWritten < s.segmentOffset then
    s.writeZeroes (min (s.segmentOffset - s.decompressor.outBytesWritten) s.space)
  else s

def copyData : Decompression :=
  if s.segmentOffset ≤ s.decompressor.outBytesWritten ∧
      s.decompressor.outBytesWritten < s.segmentOffset + s.segmentLength then
    let bytes := s.nextBytes input (min
      (min (s.segmentOffset + s.segmentLength - s.decompressor.outBytesWritten) s.space)
      (input.written.length - s.inBytesRead))
    { decompressor := { s.decompressor with
        hashed := s.decompressor.hashed ++ bytes
        outBytesWritten := s.decompressor.outBytesWritten + bytes.length }
      out := { s.out with written := s.out.written ++ bytes }
      inBytesRead := s.inBytesRead + bytes.length }
  else s

def endSegment : Decompression :=
  if s.segmentOffset + s.segmentLength ≤ s.decompressor.outBytesWritten then
    { s with decompressor := { s.decompressor with segment := [] } }
  else s

/-- The zeroes at the end and the hash. -/
def readTrailer : Bool × Decompression :=
  let s := s.writeZeroes
    (min (sub64 s.decompressor.decompressedSize s.decompressor.outBytesWritten) s.space)
  if s.decompressor.outBytesWritten = s.decompressor.decompressedSize ∧
      input.written.length = input.size then
    ((sha1 s.decompressor.hashed).1 = s.nextBytes input digestLength,
      { s with
        decompressor := { s.decompressor with done := true }
        inBytesRead := s.inBytesRead + digestLength })
  else (true, s)

/-- One iteration of the loop. An error is a return. -/
def iteration : Except (Bool × Decompression) Decompression :=
  if s.decompressor.segment = [] ∧ s.inBytesRead + digestLength = input.size then
    .error (s.readTrailer sha1 input)
  else
    let s := s.readSegment input
    if s.decompressor.segment.length < segmentSize then .error (true, s)
    else .ok ((s.fillToOffset.copyData input).endSegment)

def continues : Bool :=
  !s.decompressor.done && input.written.length ≠ s.inBytesRead &&
    (s.decompressor.segment.length < segmentSize || s.out.size ≠ s.out.written.length)

/-- The first call hashes the exception lists. -/
def begin : Decompression :=
  if s.decompressor.started then s
  else
    { s with
      decompressor := { s.decompressor with
        hashed := input.written.take s.inBytesRead
        started := true } }

/-- What the loop can still do. -/
def work : ℕ :=
  2 * (input.written.length - s.inBytesRead) + s.space + s.decompressor.segment.length

/-- `Decompress` -/
def decompress : Option (Bool × Decompression) :=
  match whileLoop (continues input) (iteration sha1 input) (s.work input + 1) (s.begin input) with
  | some (.ok s) => some (true, s)
  | some (.error r) => some r
  | none => none

/-- The decompressor before its first call, after exception lists of some length have been read. -/
def initial (decompressedSize inBytesRead : ℕ) : Decompression :=
  ⟨⟨decompressedSize, [], 0, false, false, []⟩, ⟨[], 0⟩, inBytesRead⟩

/-- Calls with prefixes of the input and growing sizes of the output, and what they return. -/
def feed (bytes : List Byte) : List (ℕ × ℕ) → Decompression → Option (List Bool × Decompression)
  | [], s => some ([], s)
  | (available, capacity) :: schedule, s => do
    let s := { s with out := { s.out with size := capacity } }
    let (result, s) ← s.decompress sha1 ⟨bytes.take available, bytes.length⟩
    let (results, s) ← feed bytes schedule s
    some (result :: results, s)

end Decompression

end DiscIO
