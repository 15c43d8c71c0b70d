import PrimedSteam.DiscIO.SectorReader
import PrimedSteam.Lib.ByteOrder
import PrimedSteam.Lib.Concatenation

/-!
# GCZ files

`ConvertToGCZ` compresses a disc block by block, and `CompressedBlobReader` reads it again. The length of a
block in the file is the difference of two pointers, whose top bits tell which blocks are stored.

* `compress`, `output`, `convertToGCZ`: what a conversion writes.
* `create`, `getBlockCompressedSize`, `getBlock`: what a reader makes of a file.
* `sectorReader`: the blocks behind the cache of `SectorReader`.
-/

set_option autoImplicit false

namespace CompressedBlob

open ByteOrder Concatenation

abbrev Byte := BitVec 8

/-- The value of a `u64` computation. -/
def u64 (x : ℕ) : ℕ := x % 2 ^ 64

/-- What is called of `zlib`: inflating what has been deflated to its end restores it. -/
structure Zlib where
  /-- whether the end of the stream was written in the space for the output, and the output -/
  deflate : List Byte → ℕ → Bool × List Byte
  inflate : List Byte → ℕ → List Byte
  hashAdler32 : List Byte → BitVec 32
  length_deflate_le : ∀ data availOut, (deflate data availOut).2.length ≤ availOut
  inflate_deflate : ∀ data availOut, (deflate data availOut).1 = true →
    inflate (deflate data availOut).2 data.length = data

/-- The blob that is converted. -/
structure Blob where
  size : BitVec 64
  byte : ℕ → Byte
  read : ℕ → ℕ → Option (List Byte)
  read_eq : ∀ offset n bytes, read offset n = some bytes → bytes = (List.range n).map fun k => byte (offset + k)

structure CompressedBlobHeader where
  magicCookie : BitVec 32
  subType : BitVec 32
  compressedDataSize : BitVec 64
  dataSize : BitVec 64
  blockSize : BitVec 32
  numBlocks : BitVec 32

def gczMagic : BitVec 32 := 0xB10BC001#32

/-- The size of a `CompressedBlobHeader`. -/
def headerSize : ℕ := 32

def CompressedBlobHeader.bytes (h : CompressedBlobHeader) : List Byte :=
  toBytes 4 h.magicCookie.toNat ++ toBytes 4 h.subType.toNat ++ toBytes 8 h.compressedDataSize.toNat ++
    toBytes 8 h.dataSize.toNat ++ toBytes 4 h.blockSize.toNat ++ toBytes 4 h.numBlocks.toNat

def CompressedBlobHeader.ofBytes (file : List Byte) : CompressedBlobHeader where
  magicCookie := BitVec.ofNat 32 (littleEndian (slice file 0 4))
  subType := BitVec.ofNat 32 (littleEndian (slice file 4 4))
  compressedDataSize := BitVec.ofNat 64 (littleEndian (slice file 8 8))
  dataSize := BitVec.ofNat 64 (littleEndian (slice file 16 8))
  blockSize := BitVec.ofNat 32 (littleEndian (slice file 24 4))
  numBlocks := BitVec.ofNat 32 (littleEndian (slice file 28 4))

/-! ## Conversion -/

/-- `0x8000000000000000` -/
def storedFlag : BitVec 64 := 0x8000000000000000#64

/-- `Compress`: whether the block is compressed, and what is written for it. -/
def compress (z : Zlib) (blockSize : ℕ) (data : List Byte) : Bool × List Byte :=
  let (streamEnd, output) := z.deflate data blockSize
  let availOut := blockSize - output.length
  if !streamEnd || availOut < 10 then (false, data) else (true, output)

/-- The variables of a conversion that `Output` changes, and the hashes. -/
structure Written where
  position : BitVec 64
  offsets : List (BitVec 64)
  hashes : List (BitVec 32)
  data : List Byte

/-- `Output` of a block; blocks are output in their order. -/
def output (w : Written) (hash : BitVec 32) (block : Bool × List Byte) : Written where
  position := w.position + BitVec.ofNat 64 block.2.length
  offsets := w.offsets ++ [if block.1 then w.position else w.position ||| storedFlag]
  hashes := w.hashes ++ [hash]
  data := w.data ++ block.2

/-- The loop of `ConvertToGCZ` from block `i` on. `succeeds` tells for which blocks compressing, writing and
the callback succeed. -/
def convertFrom (z : Zlib) (blob : Blob) (blockSize : ℕ) (succeeds : ℕ → Bool) :
    (remaining i inpos : ℕ) → Written → Option Written
  | 0, _, _, w => some w
  | remaining + 1, i, inpos, w => do
    let bytesToRead := min blockSize (u64 (blob.size.toNat + (2 ^ 64 - inpos)))
    let bytes ← blob.read inpos bytesToRead
    let inBuf := bytes ++ List.replicate (blockSize - bytesToRead) 0
    let block := compress z blockSize inBuf
    if succeeds i then
      convertFrom z blob blockSize succeeds remaining (i + 1) (u64 (inpos + blockSize))
        (output w (z.hashAdler32 block.2) block)
    else none

/-- `num_blocks`, in 32 bits -/
def numBlocks (blob : Blob) (blockSize : ℕ) : BitVec 32 :=
  BitVec.ofNat 32 (u64 (blob.size.toNat + (blockSize - 1)) / blockSize)

/-- The file: the header and the tables take the place that was left for them. -/
def fileBytes (header : CompressedBlobHeader) (w : Written) : List Byte :=
  header.bytes ++ (w.offsets.flatMap fun offset => toBytes 8 offset.toNat) ++
    (w.hashes.flatMap fun hash => toBytes 4 hash.toNat) ++ w.data

def convertToGCZ (z : Zlib) (blob : Blob) (subType : BitVec 32) (blockSize : ℕ) (succeeds : ℕ → Bool) :
    Option (List Byte) :=
  (convertFrom z blob blockSize succeeds (numBlocks blob blockSize).toNat 0 0 ⟨0, [], [], []⟩).map fun w =>
    fileBytes {
      magicCookie := gczMagic
      subType
      compressedDataSize := w.position
      dataSize := blob.size
      blockSize := BitVec.ofNat 32 blockSize
      numBlocks := numBlocks blob blockSize } w

end CompressedBlob

/-- The members of a reader. -/
structure CompressedBlobReader where
  header : CompressedBlob.CompressedBlobHeader
  blockPointers : List (BitVec 64)
  hashes : List (BitVec 32)
  /-- an `int` -/
  dataOffset : BitVec 32
  file : List CompressedBlob.Byte

namespace CompressedBlobReader

open CompressedBlob ByteOrder Concatenation

/-- The first `n` words of `size` bytes. -/
def readWords (w size : ℕ) : ℕ → List Byte → List (BitVec w)
  | 0, _ => []
  | n + 1, bytes => BitVec.ofNat w (littleEndian (bytes.take size)) :: readWords w size n (bytes.drop size)

/-- `Create` -/
def create (file : List Byte) : Option CompressedBlobReader :=
  let header := CompressedBlobHeader.ofBytes file
  if file.length < headerSize ∨ header.magicCookie ≠ gczMagic then none
  else
    let n := header.numBlocks.toNat
    some {
      header
      blockPointers := readWords 64 8 n (file.drop headerSize)
      hashes := readWords 32 4 n (file.drop (headerSize + 8 * n))
      dataOffset := BitVec.ofNat 32 (headerSize + 8 * n + 4 * n)
      file }

variable (r : CompressedBlobReader)

/-- `GetBlockCompressedSize` of a block whose pointer exists. -/
def getBlockCompressedSize (blockNum : ℕ) : Option (BitVec 64) := do
  let start ← r.blockPointers[blockNum]?
  if blockNum < (r.header.numBlocks - 1).toNat then
    let next ← r.blockPointers[blockNum + 1]?
    return next - start
  else if blockNum = (r.header.numBlocks - 1).toNat then return r.header.compressedDataSize - start
  else return 0

/-- `GetBlock`; there is no block whose pointer does not exist. A wrong hash is only logged, and a block that
is stored with another size fills the start of the buffer. -/
def getBlock (z : Zlib) (blockNum : ℕ) : Option (ℕ → Byte) := do
  let compBlockSize := ((← r.getBlockCompressedSize blockNum).setWidth 32).toNat
  let offset := (← r.blockPointers[blockNum]?) + r.dataOffset.signExtend 64
  let uncompressed := offset &&& storedFlag ≠ 0
  let offset := if uncompressed then offset &&& ~~~storedFlag else offset
  let bytes := slice r.file offset.toNat compBlockSize
  if bytes.length ≠ compBlockSize then none
  else if uncompressed then return fun k => bytes.getD k 0
  else
    let out := z.inflate bytes r.header.blockSize.toNat
    if out.length ≠ r.header.blockSize.toNat then none else return fun k => out.getD k 0

/-- The reads of a reader, which go through the cache of `SectorReader` with chunks of one block. -/
def sectorReader (z : Zlib) (hpos : 0 < r.header.blockSize.toNat) : SectorReader :=
  SectorReader.ofGetBlock r.header.blockSize.toNat 1 r.header.dataSize.toNat (r.getBlock z) hpos one_pos
    r.header.dataSize.isLt (by rw [Nat.one_mul]; exact r.header.blockSize.isLt)

end CompressedBlobReader
