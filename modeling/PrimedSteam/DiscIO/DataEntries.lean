import PrimedSteam.Lib.Tiling
import Mathlib.Data.List.Sort
import Mathlib.Data.List.Dedup

/-!
# The data entries of a WIA or RVZ file

`setUpDataEntriesForWriting` divides a disc into raw data and the data of partitions, from what the
volume presents: its partition table, the partition headers, the file system tables and the tickets.

The numbers are those of the source's unsigned integers; `sub64` and `toU32` wrap. `subtractions`
is a ghost that records the operands of every `u64` subtraction.
-/

set_option autoImplicit false

namespace DiscIO

open Tiling

/-! ## Arithmetic -/

def toU32 (x : ℕ) : ℕ := x % 2 ^ 32

/-- Subtraction of `u64`. -/
def sub64 (a b : ℕ) : ℕ := (a + (2 ^ 64 - b)) % 2 ^ 64

/-- `Common::AlignDown` -/
def alignDown (value size : ℕ) : ℕ := value - value % size

/-- `Common::AlignUp` on `u64` -/
def alignUp (value size : ℕ) : ℕ := alignDown ((value + (size - 1)) % 2 ^ 64) size

/-! ## Volumes -/

def blockDataSize : ℕ := 0x7C00
def blockTotalSize : ℕ := 0x8000
def groupTotalSize : ℕ := 0x200000

/-- What a disc volume presents. The partition of a Wii disc is given by its offset. -/
structure Volume where
  hasWiiHashes : Bool
  hasWiiEncryption : Bool
  /-- `ReadSwapped<u32>` from the disc -/
  readSwapped : ℕ → Option (BitVec 32)
  /-- `ReadSwapped<u32>` from the decrypted data of a partition -/
  readSwappedIn : ℕ → ℕ → Option (BitVec 32)
  /-- The title key of a partition's ticket, when the ticket is valid. -/
  ticket : ℕ → Option (BitVec 128)

namespace Volume

variable (v : Volume)

def readSwappedAndShifted (offset : ℕ) : Option ℕ := (v.readSwapped offset).map fun x => x.toNat * 4

def readSwappedAndShiftedIn (partition offset : ℕ) : Option ℕ :=
  (v.readSwappedIn partition offset).map fun x => x.toNat * 4

/-- The offset in entry `i` of the table of one partition group, when the entry can be read. -/
def partitionTableEntry (partitionTableOffset i : ℕ) : Option ℕ := do
  let partitionOffset ← v.readSwappedAndShifted (partitionTableOffset + toU32 (i * 8))
  let _partitionType ← v.readSwapped (partitionTableOffset + toU32 (i * 8) + 4)
  return partitionOffset

/-- The partitions of one of the four groups. -/
def partitionGroup (group : ℕ) : List ℕ :=
  match v.readSwapped (0x40000 + group * 8), v.readSwappedAndShifted (0x40000 + group * 8 + 4) with
  | some numberOfPartitions, some partitionTableOffset =>
    (List.range numberOfPartitions.toNat).filterMap (v.partitionTableEntry partitionTableOffset)
  | _, _ => []

/-- The keys of the map that the constructor of `VolumeWii` fills. -/
def getPartitions : List ℕ :=
  ((List.range 4).flatMap v.partitionGroup).dedup.insertionSort (· ≤ ·)

def getFSTOffset (partition : ℕ) : Option ℕ := v.readSwappedAndShiftedIn partition 0x424

def getFSTSize (partition : ℕ) : Option ℕ := v.readSwappedAndShiftedIn partition 0x428

/-- The data offset that `VolumeWii` keeps for each partition. -/
def partitionDataOffset (partition : ℕ) : ℕ := (v.readSwappedAndShifted (partition + 0x2b8)).getD 0

/-- `PartitionOffsetToRawOffset` on a volume with hashes. -/
def partitionOffsetToRawOffset (offset partition : ℕ) : ℕ :=
  partition + v.partitionDataOffset partition + offset / blockDataSize * blockTotalSize +
    offset % blockDataSize

end Volume

/-! ## Entries -/

structure PartitionDataEntry where
  firstSector : ℕ
  numberOfSectors : ℕ
  groupIndex : ℕ
  numberOfGroups : ℕ
  deriving DecidableEq, Repr

structure PartitionEntry where
  partitionKey : BitVec 128
  dataEntries : PartitionDataEntry × PartitionDataEntry
  deriving DecidableEq, Repr

structure RawDataEntry where
  dataOffset : ℕ
  dataSize : ℕ
  groupIndex : ℕ
  numberOfGroups : ℕ
  deriving DecidableEq, Repr

structure DataEntry where
  index : ℕ
  isPartition : Bool
  partitionDataIndex : ℕ
  deriving DecidableEq, Repr

/-- The results of a conversion other than success. -/
inductive ConversionResultCode where
  | canceled | readFailed | writeFailed | internalError
  deriving DecidableEq, Repr

/-- What `SetUpDataEntriesForWriting` fills in, with its running end offset. -/
structure SetUp where
  totalGroups : ℕ
  partitionEntries : List PartitionEntry
  rawDataEntries : List RawDataEntry
  dataEntries : List DataEntry
  lastPartitionEndOffset : ℕ
  subtractions : List (ℕ × ℕ)

def PartitionEntry.dataEntry (e : PartitionEntry) (i : ℕ) : PartitionDataEntry :=
  if i = 0 then e.dataEntries.1 else e.dataEntries.2

def RawDataEntry.range (e : RawDataEntry) : Range := (e.dataOffset, e.dataOffset + e.dataSize)

def PartitionDataEntry.range (e : PartitionDataEntry) : Range :=
  (e.firstSector * blockTotalSize, e.firstSector * blockTotalSize + e.numberOfSectors * blockTotalSize)

namespace SetUp

/-- The bytes of the disc that a data entry stands for. -/
def range? (st : SetUp) (e : DataEntry) : Option Range :=
  if e.isPartition then
    (st.partitionEntries[e.index]?).map fun p => (p.dataEntry e.partitionDataIndex).range
  else (st.rawDataEntries[e.index]?).map RawDataEntry.range

def empty : SetUp := ⟨0, [], [], [], 0, []⟩

variable (chunkSize : ℕ)

/-- `sizeof(WIAHeader2::disc_header)` -/
def skipSize : ℕ := 0x80

/-- How much of a range lies in the disc header, which is stored elsewhere. -/
def headerSkip (offset size : ℕ) : ℕ :=
  if offset < skipSize then min (sub64 skipSize offset) size else 0

def addRawDataEntry (st : SetUp) (offset size : ℕ) : SetUp :=
  let skip := headerSkip offset size
  let rest := sub64 size skip
  let subs := (if offset < skipSize then [(skipSize, offset)] else []) ++ [(size, skip)]
  let st := { st with subtractions := st.subtractions ++ subs }
  if rest = 0 then st else
    let groups := toU32 (alignUp rest chunkSize / chunkSize)
    { st with
      totalGroups := toU32 (st.totalGroups + groups)
      dataEntries := st.dataEntries ++ [⟨st.rawDataEntries.length, false, 0⟩]
      rawDataEntries := st.rawDataEntries ++ [⟨offset + skip, rest, st.totalGroups, groups⟩] }

/-- The entry it returns, and what it does to its other arguments. -/
def createPartitionDataEntry (st : SetUp) (offset size index : ℕ) : PartitionDataEntry × SetUp :=
  let roundedSize := alignDown size blockTotalSize
  let groups := toU32 (alignUp roundedSize chunkSize / chunkSize)
  (⟨toU32 (offset / blockTotalSize), toU32 (size / blockTotalSize), st.totalGroups, groups⟩,
    { st with
      totalGroups := toU32 (st.totalGroups + groups)
      dataEntries := st.dataEntries ++ [⟨st.partitionEntries.length, true, index⟩] })

/-- Where the second data entry of a partition begins. -/
def splitPoint (dataStart dataEnd fstEnd : ℕ) : ℕ :=
  min dataEnd (alignUp (sub64 fstEnd dataStart) groupTotalSize + dataStart)

/-- The part of the loop body that encodes a partition. -/
def encodePartition (st : SetUp) (partition dataOffset dataEnd fstEnd : ℕ) (key : BitVec 128) :
    SetUp :=
  let dataStart := partition + dataOffset
  let gap := sub64 partition st.lastPartitionEndOffset
  let split := splitPoint dataStart dataEnd fstEnd
  let subs := [(partition, st.lastPartitionEndOffset), (fstEnd, dataStart), (split, dataStart),
    (dataEnd, split)]
  let st := addRawDataEntry chunkSize st st.lastPartitionEndOffset gap
  let st := addRawDataEntry chunkSize st partition dataOffset
  let (entry₀, st) := createPartitionDataEntry chunkSize st dataStart (sub64 split dataStart) 0
  let (entry₁, st) := createPartitionDataEntry chunkSize st split (sub64 dataEnd split) 1
  { st with
    lastPartitionEndOffset := toU32 (entry₁.firstSector + entry₁.numberOfSectors) * blockTotalSize
    partitionEntries := st.partitionEntries ++ [⟨key, entry₀, entry₁⟩]
    subtractions := st.subtractions ++ subs }

/-- A too large partition gets a smaller `data_size`. Nothing reads it after that. -/
def correctDataSize (st : SetUp) (isoSize partition dataOffset dataEnd : ℕ) : SetUp :=
  if dataEnd > isoSize then
    { st with
      subtractions := st.subtractions ++
        [(isoSize, dataOffset), (sub64 isoSize dataOffset, partition)] }
  else st

end SetUp

open SetUp

variable (v : Volume) (chunkSize isoSize : ℕ)

/-- One iteration of the loop over the partitions. -/
def setUpPartition (st : SetUp) (partition : ℕ) : Except ConversionResultCode SetUp :=
  if partition < st.lastPartitionEndOffset then .ok st -- overlapping
  else if v.readSwapped partition ≠ some 0x10001#32 then .ok st -- garbage
  else
    match v.readSwappedAndShifted (partition + 0x2b8),
      v.readSwappedAndShifted (partition + 0x2bc) with
    | some dataOffset, some dataSize =>
      let dataStart := partition + dataOffset
      let dataEnd := dataStart + dataSize
      if dataStart % blockTotalSize ≠ 0 then .ok st -- misaligned
      else if dataSize < blockTotalSize then .ok st -- very small
      else
        let st := correctDataSize st isoSize partition dataOffset dataEnd
        match v.getFSTOffset partition, v.getFSTSize partition, v.ticket partition with
        | some fstOffset, some fstSize, some key =>
          let fstEnd := v.partitionOffsetToRawOffset (fstOffset + fstSize) partition
          .ok (encodePartition chunkSize st partition dataOffset dataEnd fstEnd key)
        | _, _, _ => .error .readFailed
    | _, _ => .error .readFailed

/-- The partitions that `SetUpDataEntriesForWriting` looks at; `volume` may be a null pointer. -/
def partitionsForWriting : Option Volume → List ℕ
  | some v =>
    if v.hasWiiHashes ∧ v.hasWiiEncryption then v.getPartitions.insertionSort (· ≤ ·) else []
  | none => []

/-- The loop over the partitions. -/
def setUpPartitions : List ℕ → SetUp → Except ConversionResultCode SetUp
  | [], st => .ok st
  | partition :: partitions, st =>
    match setUpPartition v chunkSize isoSize st partition with
    | .ok st => setUpPartitions partitions st
    | .error e => .error e

/-- The raw data after the last partition. -/
def setUpRest (st : SetUp) : SetUp :=
  addRawDataEntry chunkSize
    { st with subtractions := st.subtractions ++ [(isoSize, st.lastPartitionEndOffset)] }
    st.lastPartitionEndOffset (sub64 isoSize st.lastPartitionEndOffset)

def setUpDataEntriesForWriting (volume : Option Volume) (chunkSize isoSize : ℕ) :
    Except ConversionResultCode SetUp :=
  match volume with
  | none => .ok (setUpRest chunkSize isoSize .empty)
  | some v =>
    match setUpPartitions v chunkSize isoSize (partitionsForWriting volume) .empty with
    | .ok st => .ok (setUpRest chunkSize isoSize st)
    | .error e => .error e

end DiscIO
