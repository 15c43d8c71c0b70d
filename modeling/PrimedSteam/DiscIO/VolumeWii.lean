import PrimedSteam.Lib.CipherChain
import PrimedSteam.Lib.Tasks

/-!
# Encrypted and hashed Wii partitions

A group of 64 blocks is hashed by 64 asynchronous tasks and encrypted by some threads; a block is
checked against its hashes and decrypted when it is read.

* `hashGroup`, `encryptGroup`: on a schedule of the tasks. `none` is a schedule that does not run
  the tasks to their end.
* `checkBlockIntegrity`, `read`: the volume.

Buffers are functions from offsets to bytes. SHA-1 and the rounds of AES are parameters; cipher block
chaining is `AES.crypt`.
-/

set_option autoImplicit false

namespace VolumeWii

open Tasks Transition

abbrev Byte := BitVec 8

abbrev Buffer := ℕ → Byte

abbrev Digest := Fin 20 → Byte

def blocksPerGroup : ℕ := 0x40

def blockHeaderSize : ℕ := 0x0400

def blockDataSize : ℕ := 0x7C00

def blockTotalSize : ℕ := blockHeaderSize + blockDataSize

def groupDataSize : ℕ := blockDataSize * blocksPerGroup

def groupTotalSize : ℕ := blockTotalSize * blocksPerGroup

/-- Sums of 64-bit offsets wrap around. -/
def u64 (n : ℕ) : ℕ := n % 2 ^ 64

/-- The bytes of a range of a buffer. -/
def slice (buffer : Buffer) (offset length : ℕ) : List Byte :=
  (List.range length).map fun k => buffer (offset + k)

/-- `memcpy` of a buffer to a range of another. -/
def write (out : Buffer) (offset length : ℕ) (data : Buffer) : Buffer := fun k =>
  if offset ≤ k ∧ k < offset + length then data (k - offset) else out k

/-! ## AES -/

namespace AES

/-- The key, and a block of 16 bytes. -/
abbrev Block := Fin 16 → Byte

/-- The rounds of AES for one block. -/
structure Rounds where
  encrypt : Block → Block → Block
  decrypt : Block → Block → Block

inductive Mode where
  | encrypt
  | decrypt
  deriving DecidableEq

/-- What `CreateContextEncrypt` and `CreateContextDecrypt` make of a key. -/
structure Context where
  rounds : Rounds
  key : Block
  mode : Mode

def xor (a b : Block) : Block := fun k => a k ^^^ b k

/-- The block at an offset of a buffer. -/
def blockAt (buffer : Buffer) (offset : ℕ) : Block := fun k => buffer (offset + k)

def ivZero : Block := fun _ => 0

/-- The bytes that `Crypt` writes, block by block. -/
def Context.output (ctx : Context) (iv : Block) (bufIn : Buffer) : Buffer := fun k =>
  let chain := match ctx.mode with
    | .encrypt => CipherChain.encrypt xor (ctx.rounds.encrypt ctx.key)
    | .decrypt => CipherChain.decrypt xor (ctx.rounds.decrypt ctx.key)
  chain iv (fun n => blockAt bufIn (16 * n)) (k / 16) ⟨k % 16, Nat.mod_lt _ (by decide)⟩

/-- `Crypt` to a range of the output buffer; a length that is no multiple of 16 fails. -/
def Context.crypt (ctx : Context) (iv : Block) (bufIn : Buffer) (bufOut : Buffer) (offset len : ℕ) :
    Buffer :=
  if len % 16 ≠ 0 then bufOut else write bufOut offset len (ctx.output iv bufIn)

end AES

open AES (Context Rounds)

/-! ## Hash blocks -/

@[ext]
structure HashBlock where
  h0 : Fin 31 → Digest
  padding_0 : Fin 20 → Byte
  h1 : Fin 8 → Digest
  padding_1 : Fin 32 → Byte
  h2 : Fin 8 → Digest
  padding_2 : Fin 32 → Byte

namespace HashBlock

def zero : HashBlock := ⟨fun _ _ => 0, fun _ => 0, fun _ _ => 0, fun _ => 0, fun _ _ => 0, fun _ => 0⟩

/-- The bytes of a hash block in memory. -/
def bytes (h : HashBlock) : Buffer := fun k =>
  if h₀ : k < 0x26C then h.h0 ⟨k / 20, by omega⟩ ⟨k % 20, by omega⟩
  else if h₁ : k < 0x280 then h.padding_0 ⟨k - 0x26C, by omega⟩
  else if h₂ : k < 0x320 then h.h1 ⟨(k - 0x280) / 20, by omega⟩ ⟨(k - 0x280) % 20, by omega⟩
  else if h₃ : k < 0x340 then h.padding_1 ⟨k - 0x320, by omega⟩
  else if h₄ : k < 0x3E0 then h.h2 ⟨(k - 0x340) / 20, by omega⟩ ⟨(k - 0x340) % 20, by omega⟩
  else if h₅ : k < 0x400 then h.padding_2 ⟨k - 0x3E0, by omega⟩
  else 0

/-- The hash block that bytes in memory are. -/
def ofBytes (m : Buffer) : HashBlock where
  h0 j k := m (20 * j + k)
  padding_0 k := m (0x26C + k)
  h1 j k := m (0x280 + (20 * j + k))
  padding_1 k := m (0x320 + k)
  h2 j k := m (0x340 + (20 * j + k))
  padding_2 k := m (0x3E0 + k)

end HashBlock

/-- The bytes of an array of digests. -/
def digestBytes {n : ℕ} (digests : Fin n → Digest) : List Byte :=
  (List.ofFn fun j => List.ofFn (digests j)).flatten

/-! ## `HashGroup` -/

section HashGroup

variable (sha1 : List Byte → Digest)

/-- The thread that calls `HashGroup`, and the asynchronous tasks. -/
inductive Task where
  | main
  | hash (i : ℕ)
  deriving DecidableEq

/-- The arrays `in` and `out`. -/
structure Arrays where
  data : ℕ → Buffer
  out : ℕ → HashBlock

/-- The assignments of the tasks, one array element each. Subgroup `b` has the blocks `8 * b` to
`8 * b + 7`. -/
inductive HashOp where
  | read (i : ℕ)
  | h0 (i : ℕ) (j : Fin 31)
  | padding0 (i : ℕ)
  | h1 (i : ℕ)
  | padding1 (b : ℕ)
  | copyH1 (b : ℕ) (j : Fin 7)
  | h2 (b : Fin 8)
  | padding2
  | copyH2 (j : ℕ)
  deriving DecidableEq

variable (readFunction : Option (ℕ → Option Buffer))

/-- `success` before block `i` is read: no read has failed. -/
def success : ℕ → Bool
  | 0 => true
  | i + 1 => success i && (match readFunction with
    | none => true
    | some read => (read i).isSome)

/-- Changes one hash block. -/
def Arrays.modify (m : Arrays) (i : ℕ) (f : HashBlock → HashBlock) : Arrays :=
  { m with out := Function.update m.out i (f (m.out i)) }

def h1Index (i : ℕ) : Fin 8 := ⟨i % 8, Nat.mod_lt _ (by decide)⟩

def h2Index (i : ℕ) : Fin 8 := ⟨i / 8 % 8, Nat.mod_lt _ (by decide)⟩

/-- What an assignment does. A read that fails, or that a failed read comes before, leaves the data
as it is. -/
def HashOp.exec : HashOp → Arrays → Arrays
  | .read i, m =>
    if success readFunction i then
      match readFunction.bind fun read => read i with
      | some data => { m with data := Function.update m.data i data }
      | none => m
    else m
  | .h0 i j, m => m.modify i fun h =>
      { h with h0 := Function.update h.h0 j (sha1 (slice (m.data i) (j * 0x400) 0x400)) }
  | .padding0 i, m => m.modify i fun h => { h with padding_0 := fun _ => 0 }
  | .h1 i, m => m.modify (i / 8 * 8) fun h =>
      { h with h1 := Function.update h.h1 (h1Index i) (sha1 (digestBytes (m.out i).h0)) }
  | .padding1 b, m => m.modify (8 * b) fun h => { h with padding_1 := fun _ => 0 }
  | .copyH1 b j, m => m.modify (8 * b + (j + 1)) fun h => { h with h1 := (m.out (8 * b)).h1 }
  | .h2 b, m => m.modify 0 fun h =>
      { h with h2 := Function.update h.h2 b (sha1 (digestBytes (m.out (8 * b + 7)).h1)) }
  | .padding2, m => m.modify 0 fun h => { h with padding_2 := fun _ => 0 }
  | .copyH2 j, m => m.modify (j + 1) fun h => { h with h2 := (m.out 0).h2 }

/-- The thread that reads and starts a task for each block, and waits for the last task. -/
def mainCode : List (Instr Task HashOp) :=
  (List.range blocksPerGroup).map (fun i => .run (.read i)) ++ [.join (.hash (blocksPerGroup - 1))]

/-- The task of block `i`, which starts when the block has been read. -/
def hashCode (success : Bool) (i : ℕ) : List (Instr Task HashOp) :=
  [.await .main (i + 1)] ++
  (if success then
    (List.finRange 31).map (fun j => .run (.h0 i j)) ++ [.run (.padding0 i), .run (.h1 i)]
  else []) ++
  if i % 8 = 7 then
    (List.range 7).map (fun j => .join (.hash (i / 8 * 8 + j))) ++
    (if success then
      [.run (.padding1 (i / 8))] ++ (List.finRange 7).map (fun j => .run (.copyH1 (i / 8) j)) ++
        [.run (.h2 (h2Index i))]
    else []) ++
    if i = blocksPerGroup - 1 then
      (List.range 7).map (fun j => .join (.hash (j * 8 + 7))) ++
      if success then
        [.run .padding2] ++ (List.range (blocksPerGroup - 1)).map (fun j => .run (.copyH2 j))
      else []
    else []
  else []

/-- `HashGroup` as tasks that run at the same time. -/
def hashProgram : Program Task HashOp Arrays where
  code
    | .main => mainCode
    | .hash i => if i < blocksPerGroup then hashCode (success readFunction (i + 1)) i else []
  exec := HashOp.exec sha1 readFunction

/-- `HashGroup` on a schedule: the result, and the arrays when it returns. -/
def hashGroup (schedule : List Task) (m : Arrays) : Option (Bool × Arrays) :=
  (run (hashProgram sha1 readFunction).step anyStep (start m) schedule).bind fun s =>
    if s.pc .main = mainCode.length then
      some (success readFunction blocksPerGroup, s.memory)
    else none

end HashGroup

/-! ## `EncryptGroup` -/

/-- The functions of a disc image that are used. -/
structure BlobReader where
  read (offset size : ℕ) : Option Buffer
  supportsReadWiiDecrypted (offset size partitionDataOffset : ℕ) : Bool
  readWiiDecrypted (offset size partitionDataOffset : ℕ) : Option Buffer

section EncryptGroup

variable (sha1 : List Byte → Digest) (rounds : Rounds)

/-- The function that reads a block for `HashGroup`. -/
def readBlock (blob : BlobReader) (offset partitionDataOffset partitionDataDecryptedSize : ℕ)
    (block : ℕ) : Option Buffer :=
  if u64 (offset + (block + 1) * blockDataSize) ≤ partitionDataDecryptedSize then
    blob.readWiiDecrypted (u64 (offset + block * blockDataSize)) blockDataSize partitionDataOffset
  else some fun _ => 0

/-- The header of block `j` is encrypted, and then the data, with an initialization vector of the
encrypted header. -/
def encryptBlock (key : AES.Block) (m : Arrays) (j : ℕ) (out : Buffer) : Buffer :=
  let ctx : Context := ⟨rounds, key, .encrypt⟩
  let header := ctx.crypt AES.ivZero (m.out j).bytes out (j * blockTotalSize) blockHeaderSize
  ctx.crypt (AES.blockAt header (j * blockTotalSize + 0x3D0)) (m.data j) header
    (j * blockTotalSize + blockHeaderSize) blockDataSize

/-- The threads, each with its range of blocks. -/
def encryptProgram (key : AES.Block) (m : Arrays) (threads : ℕ) : Program ℕ ℕ Buffer where
  code i :=
    if i < threads then
      (List.range' (i * blocksPerGroup / threads)
        ((i + 1) * blocksPerGroup / threads - i * blocksPerGroup / threads)).map .run
    else []
  exec := encryptBlock rounds key m

/-- `EncryptGroup` on schedules of the hash tasks and of the threads: nothing if the hashing fails,
and else the encrypted group. -/
def encryptGroup (hashSchedule : List Task) (encryptSchedule : List ℕ) (hardwareConcurrency : ℕ)
    (offset partitionDataOffset partitionDataDecryptedSize : ℕ) (key : AES.Block)
    (blob : BlobReader) (out : Buffer)
    (hashExceptionCallback : Option ((ℕ → HashBlock) → ℕ → HashBlock)) : Option (Option Buffer) :=
  (hashGroup sha1
    (some (readBlock blob offset partitionDataOffset partitionDataDecryptedSize)) hashSchedule
    ⟨fun _ _ => 0, fun _ => .zero⟩).bind fun (success, m) =>
  if success then
    let m := { m with out := (hashExceptionCallback.getD id) m.out }
    let threads := min blocksPerGroup (max 1 hardwareConcurrency)
    (run (encryptProgram rounds key m threads).step anyStep (start out) encryptSchedule).bind
      fun s =>
        if ∀ i < threads, s.pc i = ((encryptProgram rounds key m threads).code i).length then
          some (some s.memory)
        else none
  else some none

end EncryptGroup

/-! ## The volume -/

abbrev Partition := ℕ

def partitionNone : Partition := 2 ^ 64 - 2

structure PartitionDetails where
  key : Option AES.Block
  h3Table : List Byte
  dataOffset : ℕ

structure Volume where
  reader : BlobReader
  partitions : Partition → Option PartitionDetails
  hasHashes : Bool
  hasEncryption : Bool
  lastDecryptedBlock : ℕ
  lastDecryptedBlockData : Buffer

section Volume

variable (sha1 : List Byte → Digest) (rounds : Rounds)

def decryptBlockHashes (data : Buffer) (ctx : Context) : HashBlock :=
  .ofBytes (ctx.crypt AES.ivZero data (fun _ => 0) 0 blockHeaderSize)

def decryptBlockData (data out : Buffer) (ctx : Context) : Buffer :=
  ctx.crypt (AES.blockAt data 0x3D0) (fun k => data (blockHeaderSize + k)) out 0 blockDataSize

/-- The digest at an offset of the H3 table. -/
def digestAt (table : List Byte) (offset : ℕ) : Digest := fun k => table.getD (offset + k) 0

/-- The hashes of a block against its data and against each other. -/
def checkHashes (blockIndex : ℕ) (hashes : HashBlock) (clusterData : Buffer) (h3Table : List Byte) :
    Bool :=
  decide (∀ j : Fin 31, sha1 (slice clusterData (j * 0x400) 0x400) = hashes.h0 j) &&
  decide (sha1 (digestBytes hashes.h0) = hashes.h1 (h1Index blockIndex)) &&
  decide (sha1 (digestBytes hashes.h1) = hashes.h2 (h2Index blockIndex)) &&
  decide (sha1 (digestBytes hashes.h2) = digestAt h3Table (blockIndex / 64 * 20))

/-- `CheckBlockIntegrity` for the bytes of a block. -/
def checkBlockIntegrity (v : Volume) (blockIndex : ℕ) (encryptedData : Buffer)
    (partition : Partition) : Bool :=
  match v.partitions partition with
  | none => false
  | some details =>
    if details.h3Table.length ≤ u64 (blockIndex / blocksPerGroup * 20) then false
    else if v.hasEncryption then
      match details.key with
      | none => false
      | some key =>
        let ctx : Context := ⟨rounds, key, .decrypt⟩
        checkHashes sha1 blockIndex (decryptBlockHashes encryptedData ctx)
          (decryptBlockData encryptedData (fun _ => 0) ctx) details.h3Table
    else checkHashes sha1 blockIndex (.ofBytes encryptedData)
      (fun k => encryptedData (blockHeaderSize + k)) details.h3Table

/-- The data of a block comes into the cache of the volume. -/
def fetch (v : Volume) (key : Option AES.Block) (blockOffsetOnDisc : ℕ) : Option Volume :=
  if v.lastDecryptedBlock ≠ blockOffsetOnDisc then
    match key with
    | some key => (v.reader.read blockOffsetOnDisc blockTotalSize).map fun data =>
      { v with
        lastDecryptedBlock := blockOffsetOnDisc
        lastDecryptedBlockData :=
          decryptBlockData data v.lastDecryptedBlockData ⟨rounds, key, .decrypt⟩ }
    | none =>
      (v.reader.read (u64 (blockOffsetOnDisc + blockHeaderSize)) blockDataSize).map fun data =>
        { v with
          lastDecryptedBlock := blockOffsetOnDisc
          lastDecryptedBlockData := write v.lastDecryptedBlockData 0 blockDataSize data }
  else some v

/-- The loop of `Read`. Each turn copies a byte at least, so `length` turns are enough. -/
def readLoop (key : Option AES.Block) (partitionDataOffset : ℕ) :
    ℕ → Volume → ℕ → ℕ → List Byte → Option (List Byte) × Volume
  | 0, v, _, _, buffer => (some buffer, v)
  | fuel + 1, v, offset, length, buffer =>
    if length = 0 then (some buffer, v)
    else
      let dataOffsetInBlock := offset % blockDataSize
      match fetch rounds v key
          (u64 (partitionDataOffset + offset / blockDataSize * blockTotalSize)) with
      | none => (none, v)
      | some v =>
        let copySize := min length (blockDataSize - dataOffsetInBlock)
        readLoop key partitionDataOffset fuel v (offset + copySize) (length - copySize)
          (buffer ++ slice v.lastDecryptedBlockData dataOffsetInBlock copySize)

/-- `Read`: the bytes, or nothing if it fails, and the volume with its cache. -/
def read (v : Volume) (offset length : ℕ) (partition : Partition) : Option (List Byte) × Volume :=
  if partition = partitionNone then
    ((v.reader.read offset length).map fun data => slice data 0 length, v)
  else match v.partitions partition with
  | none => (none, v)
  | some details =>
    let partitionDataOffset := u64 (partition + details.dataOffset)
    if v.hasHashes && v.hasEncryption &&
        v.reader.supportsReadWiiDecrypted offset length partitionDataOffset then
      ((v.reader.readWiiDecrypted offset length partitionDataOffset).map
        fun data => slice data 0 length, v)
    else if !v.hasHashes then
      ((v.reader.read (u64 (partitionDataOffset + offset)) length).map
        fun data => slice data 0 length, v)
    else if v.hasEncryption then
      match details.key with
      | none => (none, v)
      | some key => readLoop rounds (some key) partitionDataOffset length v offset length []
    else readLoop rounds none partitionDataOffset length v offset length []

end Volume

end VolumeWii
